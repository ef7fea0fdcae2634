import Mathlib.Data.List.Induction
import Mathlib.Logic.Function.Basic

/-!
# Chained digests

A chained digest folds every payload into the digest of the payloads before it. The
lemmas say how chains extend, what one entry depends on, and that a collision-free
step makes a digest determine the whole list of payloads behind it.
-/

namespace VllmPs.Lib

open List

variable {H A : Type*}

/-- The successive digests of a list of payloads, each folding in the digest before it. -/
def hashChain (f : H → A → H) : H → List A → List H
  | _, [] => []
  | h, a :: rest => f h a :: hashChain f (f h a) rest

variable (f : H → A → H)

@[simp] theorem hashChain_length (h : H) (payloads : List A) :
    (hashChain f h payloads).length = payloads.length := by
  induction payloads generalizing h with
  | nil => rfl
  | cons a rest ih => simp [hashChain, ih]

theorem hashChain_append (h : H) (first second : List A) : hashChain f h (first ++ second) =
      hashChain f h first ++ hashChain f (first.foldl f h) second := by
  induction first generalizing h with
  | nil => rfl
  | cons a rest ih => simp [hashChain, ih]

theorem hashChain_getLast?_getD (h : H) (payloads : List A) :
    (hashChain f h payloads).getLast?.getD h = payloads.foldl f h := by
  induction payloads generalizing h with
  | nil => rfl
  | cons a rest ih =>
    rw [foldl_cons, ← ih (f h a), hashChain]
    cases hrest : hashChain f (f h a) rest with
    | nil => rfl
    | cons b tail => simp [getLast?_eq_some_getLast]

theorem hashChain_getLast? (h : H) (payloads : List A) (hne : payloads ≠ []) :
    (hashChain f h payloads).getLast? = some (payloads.foldl f h) := by
  have hlast := hashChain_getLast?_getD f h payloads
  cases hc : (hashChain f h payloads).getLast? with
  | none =>
    rw [getLast?_eq_none_iff, ← length_eq_zero_iff, hashChain_length, length_eq_zero_iff] at hc
    exact absurd hc hne
  | some last => rw [← hlast, hc, Option.getD_some]

theorem hashChain_getElem? (h : H) (payloads : List A) (i : ℕ) (hi : i < payloads.length) :
    (hashChain f h payloads)[i]? = some ((payloads.take (i + 1)).foldl f h) := by
  induction payloads generalizing h i with
  | nil => simp at hi
  | cons a rest ih =>
    cases i with
    | zero => simp [hashChain]
    | succ i =>
      have hi' : i < rest.length := by simpa using hi
      simpa [hashChain] using ih (f h a) i hi'

theorem hashChain_injective (hf : Function.Injective2 f) (h : H) (first second : List A)
    (heq : hashChain f h first = hashChain f h second) :
    first = second := by
  induction first generalizing h second with
  | nil =>
    cases second with
    | nil => rfl
    | cons b rest => simp [hashChain] at heq
  | cons a rest ih =>
    cases second with
    | nil => simp [hashChain] at heq
    | cons b tail =>
      simp only [hashChain, List.cons.injEq] at heq
      obtain ⟨-, rfl⟩ := hf heq.1
      exact congrArg (List.cons a) (ih (f h a) tail heq.2)

/-- The digests of two lists of payloads from a start value that is no digest itself. -/
theorem foldl_injective {f : H → A → H} (hf : Function.Injective2 f) {start : H}
    (hstart : ∀ h a, f h a ≠ start) (first second : List A) (heq : first.foldl f start = second.foldl f start) :
    first = second := by
  induction first using reverseRecOn generalizing second with
  | nil =>
    cases second using reverseRecOn with
    | nil => rfl
    | append_singleton init b =>
      rw [foldl_append] at heq
      exact absurd heq.symm (hstart _ b)
  | append_singleton first a ih =>
    cases second using reverseRecOn with
    | nil =>
      rw [foldl_append] at heq
      exact absurd heq (hstart _ a)
    | append_singleton init b =>
      rw [foldl_append, foldl_append] at heq
      obtain ⟨hinit, hlast⟩ := hf heq
      rw [ih init hinit, hlast]

end VllmPs.Lib
