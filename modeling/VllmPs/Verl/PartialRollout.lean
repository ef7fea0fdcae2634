import Mathlib.Tactic
import VllmPs.Lib.Transition

/-!
# Partial rollouts

The client resumes a generation that the server aborted, with the prompt and the tokens so far, until a reply is
not aborted or the caller's limit is reached. Without such a limit the server takes its default from the prompt
that it gets, which grows with each call.
-/

namespace VllmPs.Verl

open Lib List Option

variable {F E : Type}

/-! ## The server -/

/-- The limits that a dictionary of sampling parameters can hold; its other entries are passed on. -/
structure SamplingParams where
  maxTokens : Option ℤ := none
  maxNewTokens : Option ℤ := none
  deriving DecidableEq

/-- The limit under the first key that is there. -/
def SamplingParams.limit (params : SamplingParams) : Option ℤ := params.maxTokens.or params.maxNewTokens

/-- `sampling_params[limit_key] = n` -/
def SamplingParams.setLimit (params : SamplingParams) (n : ℤ) : SamplingParams :=
  if params.maxTokens.isSome then { params with maxTokens := some n } else { params with maxNewTokens := some n }

/-- The lengths that the server is configured with. -/
structure ServerConfig where
  maxModelLen : ℕ
  promptLength : ℕ
  responseLength : ℕ

/-- `max_tokens` of a call, or none where the prompt leaves no room and `ValueError` is raised. -/
def serverLimit (c : ServerConfig) (promptLen : ℕ) (params : SamplingParams) : Option ℤ :=
  let maxPossibleTokens : ℤ := c.maxModelLen - promptLen
  if maxPossibleTokens < 1 then none
  else
    let maxTokens := params.limit.getD (min c.responseLength (c.promptLength + c.responseLength - promptLen))
    some (max 1 (min maxTokens maxPossibleTokens))

/-- A reply of the server, with one row of routing for each token that has one. -/
structure TokenOutput (F E : Type) where
  tokenIds : List ℕ
  logProbs : Option (List F) := none
  routedExperts : Option (List E) := none
  stopReason : Option String
  numPreempted : Option ℕ := none
  /-- The version of the weights. -/
  globalSteps : Option ℤ := none

/-- Whether the client asks the server to go on. -/
def TokenOutput.aborted (o : TokenOutput F E) : Bool :=
  decide (o.stopReason = some "aborted") || decide (o.stopReason = some "abort")

/-! ## The client -/

/-- The output that is put together from the replies, and the dictionary of the caller. -/
structure Merged (F E : Type) where
  tokenIds : List ℕ := []
  logProbs : List F := []
  routedExperts : Option (List E) := none
  numPreempted : ℕ := 0
  stopReason : Option String := none
  globalSteps : Option ℤ := none
  minGlobalSteps : Option ℤ := none
  maxGlobalSteps : Option ℤ := none
  samplingParams : SamplingParams

namespace Merged

/-- Append a reply. Routing is kept for tokens that have it, and appended for the new ones only. -/
def merge (st : Merged F E) (o : TokenOutput F E) : Merged F E :=
  { st with
    tokenIds := st.tokenIds ++ o.tokenIds
    logProbs := st.logProbs ++ o.logProbs.getD []
    routedExperts :=
      match o.routedExperts with
      | none => st.routedExperts
      | some rows =>
        if o.tokenIds = [] then st.routedExperts
        else
          match st.routedExperts with
          | none => some rows
          | some old => some (old ++ rows.drop (rows.length - o.tokenIds.length))
    numPreempted := st.numPreempted + o.numPreempted.getD 0
    stopReason := o.stopReason
    globalSteps := o.globalSteps
    minGlobalSteps := st.minGlobalSteps.or o.globalSteps
    maxGlobalSteps := o.globalSteps }

/-- Leave in the dictionary what is left of the caller's limit. -/
def charge (originalMaxTokens : Option ℤ) (st : Merged F E) : Merged F E :=
  match originalMaxTokens with
  | none => st
  | some n => { st with samplingParams := st.samplingParams.setLimit (n - st.tokenIds.length) }

/-- Whether the caller's limit is reached. -/
def exhausted (originalMaxTokens : Option ℤ) (st : Merged F E) : Bool :=
  match originalMaxTokens with
  | none => false
  | some n => decide (n ≤ st.tokenIds.length)

end Merged

/-- Why no output is returned. -/
inductive GenerateError
  | valueError
  /-- The server does not reply any more. -/
  | noReply
  deriving DecidableEq

variable (c : ServerConfig) (promptIds : List ℕ) (originalMaxTokens : Option ℤ)

/-- The loop of `generate` over the replies that come. -/
def generateLoop (partialRollout : Bool) : Merged F E → List (TokenOutput F E) → Except GenerateError (Merged F E)
  | _, [] => .error .noReply
  | st, o :: rest =>
    if serverLimit c (promptIds ++ st.tokenIds).length st.samplingParams = none then .error .valueError
    else
      let st := (st.merge o).charge originalMaxTokens
      if st.exhausted originalMaxTokens then .ok { st with stopReason := some "length" }
      else if !o.aborted || !partialRollout then .ok st
      else generateLoop partialRollout st rest

/-- `FullyAsyncLLMServerClient.generate` -/
def generate (partialRollout : Bool) (params : SamplingParams) (replies : List (TokenOutput F E)) :
    Except GenerateError (Merged F E) :=
  generateLoop c promptIds params.limit partialRollout { samplingParams := params } replies

/-- Every reply that is received keeps to the limit of its call. -/
def within : Merged F E → List (TokenOutput F E) → Bool
  | _, [] => true
  | st, o :: rest =>
    (serverLimit c (promptIds ++ st.tokenIds).length st.samplingParams).any
        (fun limit => decide ((o.tokenIds.length : ℤ) ≤ limit)) &&
      (((st.merge o).charge originalMaxTokens).exhausted originalMaxTokens ||
        within ((st.merge o).charge originalMaxTokens) rest)

/-- The tokens returned keep to the limit that one call would have had. -/
def KeepsToCall (c : ServerConfig) (promptIds : List ℕ) (params : SamplingParams) (out : Merged F E) : Prop :=
  ∃ limit ∈ serverLimit c promptIds.length params, (out.tokenIds.length : ℤ) ≤ limit

/-! ## What the loop returns -/

/-- The limit that was written is the one that is read. -/
theorem limit_setLimit (params : SamplingParams) (n : ℤ) : (params.setLimit n).limit = some n := by
  unfold SamplingParams.setLimit
  cases params.maxTokens <;> simp [SamplingParams.limit]

/-- Writing the limit that is there changes nothing. -/
theorem setLimit_of_limit {params : SamplingParams} {n : ℤ} (h : params.limit = some n) :
    params.setLimit n = params := by
  obtain ⟨maxTokens, maxNewTokens⟩ := params
  cases maxTokens with
  | none =>
    obtain rfl : maxNewTokens = some n := h
    rfl
  | some m =>
    obtain rfl : m = n := some.inj h
    rfl

/-- What a dictionary holds after some tokens of the caller's limit have been used. -/
def SamplingParams.left (params : SamplingParams) (originalMaxTokens : Option ℤ) (tokens : ℕ) : SamplingParams :=
  originalMaxTokens.elim params fun n => params.setLimit (n - tokens)

/-- Only the tokens used in the end count. -/
theorem left_left (params : SamplingParams) (originalMaxTokens : Option ℤ) (k m : ℕ) :
    (params.left originalMaxTokens k).left originalMaxTokens m = params.left originalMaxTokens m := by
  cases originalMaxTokens with
  | none => rfl
  | some n =>
    obtain ⟨maxTokens, maxNewTokens⟩ := params
    cases maxTokens <;> rfl

/-- The dictionary is the caller's exactly if there is no limit or no token was used. -/
theorem left_eq_self_iff (params : SamplingParams) (k : ℕ) :
    params.left params.limit k = params ↔ params.limit = none ∨ k = 0 := by
  cases h : params.limit with
  | none => exact iff_of_true rfl (Or.inl rfl)
  | some n =>
    refine ⟨fun heq => Or.inr ?_, fun hk => ?_⟩
    · have hlimit := limit_setLimit params (n - k)
      rw [show params.setLimit (n - k) = params from heq, h] at hlimit
      have := some.inj hlimit
      omega
    · obtain rfl := hk.resolve_left (some_ne_none n)
      exact setLimit_of_limit (h.trans (by simp))

variable {c promptIds originalMaxTokens} {st : Merged F E} {aborted : List (TokenOutput F E)}
  {o last : TokenOutput F E}

/-- The dictionary holds what is left of the caller's limit. -/
def Merged.Charged (originalMaxTokens : Option ℤ) (st : Merged F E) : Prop :=
  st.samplingParams.limit = originalMaxTokens.map (· - (st.tokenIds.length : ℤ))

/-- A reply adds its tokens. -/
theorem charge_tokenIds : ((st.merge o).charge originalMaxTokens).tokenIds = st.tokenIds ++ o.tokenIds := by
  cases originalMaxTokens <;> rfl

/-- A reply adds its log probabilities. -/
theorem charge_logProbs : ((st.merge o).charge originalMaxTokens).logProbs = st.logProbs ++ o.logProbs.getD [] := by
  cases originalMaxTokens <;> rfl

/-- A reply is charged to the limit. -/
theorem Merged.Charged.next (h : st.Charged originalMaxTokens) (o : TokenOutput F E) :
    ((st.merge o).charge originalMaxTokens).Charged originalMaxTokens := by
  cases originalMaxTokens with
  | none => exact h
  | some n => exact limit_setLimit _ _

/-- A reply changes the dictionary by the tokens that it adds. -/
theorem charge_samplingParams : ((st.merge o).charge originalMaxTokens).samplingParams =
    st.samplingParams.left originalMaxTokens (st.tokenIds ++ o.tokenIds).length := by
  cases originalMaxTokens <;> rfl

/-- What was received and put together: the tokens and values in order, everything unless the limit was
reached, and the last call with the tokens before it. -/
structure Resumed (c : ServerConfig) (promptIds : List ℕ) (originalMaxTokens : Option ℤ) (st : Merged F E)
    (aborted : List (TokenOutput F E)) (last : TokenOutput F E) (out : Merged F E) : Prop where
  received : ∃ used unread, aborted ++ [last] = used ++ unread ∧
    out.tokenIds = st.tokenIds ++ used.flatMap (·.tokenIds) ∧
    out.logProbs = st.logProbs ++ used.flatMap (·.logProbs.getD []) ∧
    (unread = [] ∨ ∃ n, originalMaxTokens = some n ∧ n ≤ out.tokenIds.length)
  call : ∃ (k : ℕ) (params : SamplingParams) (limit : ℤ), params.limit = originalMaxTokens.map (· - (k : ℤ)) ∧
    serverLimit c (promptIds.length + k) params = some limit ∧ out.tokenIds.length ≤ k + limit ∧
    (k = st.tokenIds.length ∨ ∀ n, originalMaxTokens = some n → k < n) ∧
    (originalMaxTokens = none → k = (st.tokenIds ++ aborted.flatMap (·.tokenIds)).length)
  params : out.samplingParams = st.samplingParams.left originalMaxTokens out.tokenIds.length

/-- The loop returns what `Resumed` says, by induction over the aborted replies. -/
theorem generateLoop_resumed (haborted : ∀ o ∈ aborted, o.aborted = true) (hlast : last.aborted = false)
    (hcharged : st.Charged originalMaxTokens) (hwithin : within c promptIds originalMaxTokens st (aborted ++ [last])) :
    ∃ out, generateLoop c promptIds originalMaxTokens true st (aborted ++ [last]) = .ok out ∧
      Resumed c promptIds originalMaxTokens st aborted last out := by
  -- the call that the next reply answers
  have hcall {st : Merged F E} {o : TokenOutput F E} {rest : List (TokenOutput F E)}
      (h : within c promptIds originalMaxTokens st (o :: rest)) :
      ∃ limit, serverLimit c (promptIds.length + st.tokenIds.length) st.samplingParams = some limit ∧
        ((st.tokenIds ++ o.tokenIds).length : ℤ) ≤ st.tokenIds.length + limit ∧
        (((st.merge o).charge originalMaxTokens).exhausted originalMaxTokens = true ∨
          within c promptIds originalMaxTokens ((st.merge o).charge originalMaxTokens) rest) := by
    simp only [within, Bool.and_eq_true, Option.any_eq_true, Bool.or_eq_true, decide_eq_true_eq,
      length_append] at h
    obtain ⟨⟨limit, hlimit, hle⟩, hrest⟩ := h
    exact ⟨limit, hlimit, by simpa using hle, hrest⟩
  induction aborted generalizing st with
  | nil =>
    obtain ⟨limit, hlimit, hle, -⟩ := hcall hwithin
    have hsome : serverLimit c (promptIds ++ st.tokenIds).length st.samplingParams ≠ none := by
      rw [length_append, hlimit]
      exact some_ne_none _
    have hresumed (reason : Option String) : Resumed c promptIds originalMaxTokens st [] last
        { (st.merge last).charge originalMaxTokens with stopReason := reason } :=
      ⟨⟨[last], [], rfl, by simp [charge_tokenIds], by simp [charge_logProbs], Or.inl rfl⟩,
        ⟨_, _, limit, hcharged, hlimit, by rw [charge_tokenIds]; exact hle, Or.inl rfl, by simp⟩,
        by rw [charge_tokenIds]; exact charge_samplingParams⟩
    simp only [nil_append, generateLoop, if_neg hsome, hlast, Bool.not_false, Bool.true_or, if_true]
    split_ifs
    · exact ⟨_, rfl, hresumed _⟩
    · exact ⟨_, rfl, hresumed _⟩
  | cons o rest ih =>
    obtain ⟨limit, hlimit, hle, hrest⟩ := hcall hwithin
    have hsome : serverLimit c (promptIds ++ st.tokenIds).length st.samplingParams ≠ none := by
      rw [length_append, hlimit]
      exact some_ne_none _
    simp only [cons_append, generateLoop, if_neg hsome, haborted o mem_cons_self, Bool.not_true,
      Bool.or_self, Bool.false_eq_true, if_false]
    split_ifs with hexhausted
    · obtain ⟨n, hn, hreached⟩ : ∃ n, originalMaxTokens = some n ∧ n ≤ (st.tokenIds ++ o.tokenIds).length := by
        cases originalMaxTokens with
        | none => cases hexhausted
        | some n => exact ⟨n, rfl, of_decide_eq_true hexhausted⟩
      refine ⟨_, rfl, ⟨[o], rest ++ [last], rfl, by simp [charge_tokenIds], by simp [charge_logProbs],
        Or.inr ⟨n, hn, ?_⟩⟩, ⟨_, _, limit, hcharged, hlimit, ?_, Or.inl rfl, ?_⟩, ?_⟩
      · rwa [charge_tokenIds]
      · rwa [charge_tokenIds]
      · rw [hn]
        exact nofun
      · rw [charge_tokenIds]
        exact charge_samplingParams
    obtain ⟨out, hout, ⟨used, unread, hused, htokens, hlogProbs, hunread⟩,
      ⟨k, params, limit', hparams, hlimit', hle', hbelow, hk⟩, hsame⟩ :=
      ih (fun o ho => haborted o (mem_cons_of_mem _ ho)) (hcharged.next o) (hrest.resolve_left hexhausted)
    rw [charge_tokenIds] at htokens hbelow hk
    rw [charge_logProbs] at hlogProbs
    refine ⟨out, hout, ⟨o :: used, unread, by rw [cons_append, cons_append, hused], by simp [htokens],
      by simp [hlogProbs], hunread⟩, ⟨k, params, limit', hparams, hlimit', hle', ?_, fun h => ?_⟩, ?_⟩
    · refine Or.inr fun n hn => hbelow.elim (fun hfirst => ?_) fun h => h n hn
      subst hn
      rw [Bool.not_eq_true, Merged.exhausted, decide_eq_false_iff_not, charge_tokenIds] at hexhausted
      rw [hfirst]
      exact not_le.mp hexhausted
    · simp [hk h]
    · rw [hsame, charge_samplingParams, left_left]

/-- The limit of a call in closed form. -/
theorem serverLimit_eq_some {promptLen : ℕ} {params : SamplingParams} {limit : ℤ} :
    serverLimit c promptLen params = some limit ↔ (1 : ℤ) ≤ c.maxModelLen - promptLen ∧
      limit = max 1 (min (params.limit.getD (min c.responseLength (c.promptLength + c.responseLength - promptLen)))
        (c.maxModelLen - promptLen)) := by
  unfold serverLimit
  dsimp only
  split_ifs with hroom
  · exact iff_of_false nofun fun h => absurd hroom (not_lt.mpr h.1)
  · rw [some.injEq, eq_comm, and_iff_right (not_lt.mp hroom)]

/-- Without a caller's limit, the calls before the last one and the last one can be looked at separately. -/
theorem within_concat : within c promptIds none st (aborted ++ [o]) = (within c promptIds none st aborted &&
    (serverLimit c (promptIds ++ (st.tokenIds ++ aborted.flatMap (·.tokenIds))).length st.samplingParams).any
      fun limit => decide ((o.tokenIds.length : ℤ) ≤ limit)) := by
  induction aborted generalizing st with
  | nil => simp [within, Merged.exhausted]
  | cons first rest ih => simp [within, ih, Merged.exhausted, Merged.charge, Merged.merge, Bool.and_assoc]

/-- An interruption is not seen by the caller: the replies are put together in order, and all of them unless the
caller's limit is reached. The result keeps to the limit of one call if the caller gave a limit. Otherwise it does so
for every last reply exactly if nothing was generated before, or if the server's default limit for the grown prompt
takes the tokens before it into account. The caller's dictionary is unchanged exactly if it has no limit or if no
reply that was read has a token. -/
theorem generate_resumed (c : ServerConfig) (promptIds : List ℕ) (hprompt : promptIds.length ≤ c.promptLength)
    (params : SamplingParams) (aborted : List (TokenOutput F E)) (last : TokenOutput F E)
    (haborted : ∀ o ∈ aborted, o.aborted = true) (hlast : last.aborted = false)
    (hwithin : within c promptIds params.limit { samplingParams := params } (aborted ++ [last])) :
    ∃ out, generate c promptIds true params (aborted ++ [last]) = .ok out ∧
      (∃ used unread, aborted ++ [last] = used ++ unread ∧ out.tokenIds = used.flatMap (·.tokenIds) ∧
        (unread = [] ∨ ∃ n, params.limit = some n ∧ n ≤ out.tokenIds.length) ∧
        (out.samplingParams = params ↔ params.limit = none ∨ ∀ o ∈ used, o.tokenIds = [])) ∧
      ((∀ o ∈ aborted ++ [last], (o.tokenIds ≠ [] → o.logProbs.isSome = true) ∧
        ∀ values ∈ o.logProbs, values.length = o.tokenIds.length) → out.logProbs.length = out.tokenIds.length) ∧
      (params.limit ≠ none → KeepsToCall c promptIds params out) ∧
      (params.limit = none →
        ((∀ (last' : TokenOutput F E) out', last'.aborted = false →
          within c promptIds none { samplingParams := params } (aborted ++ [last']) →
          generate c promptIds true params (aborted ++ [last']) = .ok out' → KeepsToCall c promptIds params out') ↔
        aborted.flatMap (·.tokenIds) = [] ∨ c.maxModelLen ≤ promptIds.length + c.responseLength ∨
          (promptIds.length = c.promptLength ∧ (aborted.flatMap (·.tokenIds)).length < c.responseLength))) := by
  have hcharged : Merged.Charged (F := F) (E := E) params.limit { samplingParams := params } := by
    cases h : params.limit <;> simp [Merged.Charged, h]
  obtain ⟨out, hout, ⟨used, unread, hused, htokens, hlogProbs, hunread⟩,
    ⟨k, params', limit, hparams, hlimit, hle, hbelow, hk⟩, hsame⟩ :=
    generateLoop_resumed haborted hlast hcharged hwithin
  rw [nil_append] at htokens hlogProbs hk
  obtain ⟨hroom, hlimit'⟩ := serverLimit_eq_some.mp hlimit
  rw [hparams] at hlimit'
  refine ⟨out, hout, ⟨used, unread, hused, htokens, hunread, ?_⟩, fun hvalues => ?_, fun hgiven => ?_, fun hgiven => ?_⟩
  · rw [show out.samplingParams = _ from hsame, left_eq_self_iff, length_eq_zero_iff, htokens, flatMap_eq_nil_iff]
  · rw [htokens, hlogProbs, length_flatMap, length_flatMap]
    refine congrArg List.sum (map_congr_left fun o ho => ?_)
    obtain ⟨hsome, hlength⟩ := hvalues o (hused ▸ mem_append_left _ ho)
    cases hlog : o.logProbs with
    | some values => exact hlength values hlog
    | none =>
      have hempty : o.tokenIds = [] := by
        by_contra hne
        simpa [hlog] using hsome hne
      rw [hempty]
      rfl
  · obtain ⟨n, hn⟩ := ne_none_iff_exists'.mp hgiven
    refine ⟨_, serverLimit_eq_some.mpr ⟨by omega, rfl⟩, ?_⟩
    rw [hn] at hlimit' hbelow ⊢
    have hbelow := hbelow.imp_right fun h => h n rfl
    simp only [map_some, getD_some, length_nil] at hlimit' hbelow ⊢
    omega
  -- the call that the last reply answers, whatever the last reply is
  have hcall : serverLimit c (promptIds.length + k) params = some limit := by
    refine serverLimit_eq_some.mpr ⟨hroom, ?_⟩
    rw [hlimit', hgiven]
    rfl
  have hk := hk hgiven
  have hreply (last' : TokenOutput F E) (hlast' : last'.aborted = false)
      (h : within c promptIds none { samplingParams := params } (aborted ++ [last'])) :
      ∃ out', generate c promptIds true params (aborted ++ [last']) = .ok out' ∧
        out'.tokenIds.length = k + last'.tokenIds.length := by
    obtain ⟨out', hout', ⟨used', unread', hused', htokens', -, hunread'⟩, -, -⟩ :=
      generateLoop_resumed haborted hlast' hcharged (by rw [hgiven]; exact h)
    obtain rfl := hunread'.resolve_right fun ⟨n, hn, _⟩ => absurd hn (by simp [hgiven])
    refine ⟨out', hout', ?_⟩
    rw [htokens', nil_append, ← append_nil used', ← hused', hk]
    simp
  rw [hgiven] at hwithin
  have hlonger (last' : TokenOutput F E) : within c promptIds none { samplingParams := params } (aborted ++ [last']) ↔
      (last'.tokenIds.length : ℤ) ≤ limit := by
    rw [within_concat, Bool.and_eq_true] at hwithin
    rw [within_concat, Bool.and_eq_true, nil_append, length_append, ← hk, hcall, and_iff_right hwithin.1]
    simp
  rw [← length_eq_zero_iff, ← hk]
  have hone : serverLimit c promptIds.length params = some (max 1 (min
      (min (c.responseLength : ℤ) (c.promptLength + c.responseLength - promptIds.length))
      (c.maxModelLen - promptIds.length))) := by
    refine serverLimit_eq_some.mpr ⟨by omega, ?_⟩
    rw [hgiven]
    rfl
  rw [hgiven] at hlimit'
  simp only [map_none, getD_none] at hlimit'
  constructor
  · intro hall
    obtain ⟨out', hout', hlength⟩ := hreply { tokenIds := replicate limit.toNat 0, stopReason := none } rfl
      ((hlonger _).mpr (by simp; omega))
    obtain ⟨_, hmem, hle'⟩ := hall _ out' rfl ((hlonger _).mpr (by simp; omega)) hout'
    rw [hone, Option.mem_some_iff] at hmem
    rw [hlength, length_replicate] at hle'
    omega
  · intro hdefault last' out' hlast' hwithin' hout'
    obtain ⟨out'', hout'', hlength⟩ := hreply last' hlast' hwithin'
    obtain rfl := Except.ok.inj (hout'.symm.trans hout'')
    refine ⟨_, hone, ?_⟩
    have := (hlonger last').mp hwithin'
    omega

/-- A full prompt, and a reply of three tokens that is aborted before one of two. -/
theorem generate_resumed_fullPrompt : ∃ out, generate (F := Unit) (E := Unit) ⟨8, 2, 5⟩ [1, 2] true {}
      [{ tokenIds := [3, 4, 5], logProbs := some [(), (), ()], stopReason := some "aborted" },
        { tokenIds := [6, 7], logProbs := some [(), ()], stopReason := some "stop" }] = .ok out ∧
      out.logProbs.length = out.tokenIds.length ∧
      KeepsToCall ⟨8, 2, 5⟩ [1, 2] {} out ∧ out.samplingParams = {} := by
  obtain ⟨out, hout, ⟨_, _, -, -, -, hparams⟩, hvalues, -, hlimit⟩ :=
    generate_resumed (F := Unit) (E := Unit) ⟨8, 2, 5⟩ [1, 2]
    (by decide) {} [{ tokenIds := [3, 4, 5], logProbs := some [(), (), ()], stopReason := some "aborted" }]
    { tokenIds := [6, 7], logProbs := some [(), ()], stopReason := some "stop" } (by decide) (by decide) (by decide)
  exact ⟨out, hout, hvalues (by simp), (hlimit rfl).mpr (by decide) _ out rfl (by decide) hout,
    hparams.mpr (Or.inl rfl)⟩

/-- A short prompt gets nine tokens where one call would get at most five, since the default limit of the second
call is five again; and a caller who allowed five tokens finds two in the dictionary after a reply of three. -/
theorem generate_exceeds_call : (∃ out, generate (F := Unit) (E := Unit) ⟨15, 10, 5⟩ [1] true {}
        [{ tokenIds := [2, 3, 4, 5], stopReason := some "aborted" },
          { tokenIds := [6, 7, 8, 9, 10], stopReason := some "stop" }] = .ok out ∧
      serverLimit ⟨15, 10, 5⟩ 1 {} = some 5 ∧ serverLimit ⟨15, 10, 5⟩ 5 {} = some 5 ∧ out.tokenIds.length = 9) ∧
    ∃ out, generate (F := Unit) (E := Unit) ⟨15, 10, 5⟩ [1] true { maxTokens := some 5 }
        [{ tokenIds := [2, 3, 4], stopReason := some "stop" }] = .ok out ∧
      out.samplingParams = { maxTokens := some 2 } := by
  exact ⟨exists_ok_of_decide (by decide +kernel), exists_ok_of_decide (by decide +kernel)⟩

end VllmPs.Verl
