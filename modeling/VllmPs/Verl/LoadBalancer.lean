import VllmPs.Lib.LruCache
import VllmPs.Lib.OrderedDict

/-!
# The load balancer of the rollout servers

Requests acquire the server of their session or one with the fewest requests in flight, and release
it by its id. A release that arrives after its server was removed and added again counts against
new requests; otherwise the counters are exact.
-/

namespace VllmPs.Verl

open List Function Lib

variable {H : Type}

/-- What an acquisition can raise. -/
inductive BalancerError
  | noServers
  | valueTooLarge
  | keyError
deriving DecidableEq

/-- `GlobalRequestLoadBalancer` -/
structure GlobalRequestLoadBalancer (H : Type) where
  servers : OrderedDict String H
  inflightRequests : OrderedDict String ℕ
  requestIdToServer : LruCache String String

namespace GlobalRequestLoadBalancer

variable (lb : GlobalRequestLoadBalancer H)

/-- The server that a request id is routed to. -/
def route (requestId : String) : Option String := (lb.requestIdToServer.data.lookup requestId).map (·.1)

def count (serverId : String) : GlobalRequestLoadBalancer H × Except BalancerError (String × H) :=
  ({ lb with inflightRequests := lb.inflightRequests.modify serverId (· + 1) },
    match lb.servers.get serverId with
    | none => .error .keyError
    | some handle => .ok (serverId, handle))

def select (requestId : String) : GlobalRequestLoadBalancer H × Except BalancerError (String × H) :=
  match lb.inflightRequests.entries.argmin (·.2) with
  | none => (lb, .error .noServers)
  | some (serverId, _) =>
    match lb.requestIdToServer.setItem requestId serverId 1 with
    | .error _ => (lb, .error .valueTooLarge)
    | .ok routes => count { lb with requestIdToServer := routes } serverId

/-- `acquire_server`, which deletes the route to a server that was removed. -/
def acquireServer (requestId : String) : GlobalRequestLoadBalancer H × Except BalancerError (String × H) :=
  let routes := lb.requestIdToServer
  match lb.route requestId with
  | none => lb.select requestId
  | some serverId =>
    if lb.inflightRequests.contains serverId then
      count { lb with requestIdToServer := routes.touch requestId } serverId
    else
      select { lb with requestIdToServer :=
        { routes with
          data := routes.data.erase requestId
          currsize := routes.currsize - 1
          order := routes.order.erase requestId } } requestId

/-- `release_server` -/
def releaseServer (serverId : String) : GlobalRequestLoadBalancer H :=
  { lb with inflightRequests := lb.inflightRequests.modify serverId fun n => if n > 0 then n - 1 else n }

/-- One round of `add_servers` -/
def addServer (serverId : String) (handle : H) : GlobalRequestLoadBalancer H :=
  { lb with
    inflightRequests := lb.inflightRequests.set serverId 0
    servers := lb.servers.set serverId handle }

/-- One round of `remove_servers` -/
def removeServer (serverId : String) : GlobalRequestLoadBalancer H :=
  { lb with
    inflightRequests := lb.inflightRequests.erase serverId
    servers := lb.servers.erase serverId }

def Acquires (requestId : String) (lb' : GlobalRequestLoadBalancer H) : Except BalancerError (String × H) → Prop
  | .error _ => lb'.servers = lb.servers ∧ lb'.inflightRequests = lb.inflightRequests
  | .ok (serverId, handle) => lb'.servers = lb.servers ∧
    lb'.inflightRequests = lb.inflightRequests.modify serverId (· + 1) ∧
    lb.servers.get serverId = some handle ∧ lb'.route requestId = some serverId ∧
    ∃ n, lb.inflightRequests.get serverId = some n ∧ (lb.route requestId = some serverId ∨
      ∀ other m, lb.inflightRequests.get other = some m → n ≤ m)

variable {lb} {routes : LruCache String String} {requestId serverId : String}

section Handles

variable (hhandles : ∀ serverId, (lb.servers.get serverId).isSome = lb.inflightRequests.contains serverId)
include hhandles

theorem acquires_count {n : ℕ} (hn : lb.inflightRequests.get serverId = some n)
    (hroute : (routes.data.lookup requestId).map (·.1) = some serverId)
    (hchoice : lb.route requestId = some serverId ∨ ∀ other m, lb.inflightRequests.get other = some m → n ≤ m) :
    lb.Acquires requestId (count { lb with requestIdToServer := routes } serverId).1
      (count { lb with requestIdToServer := routes } serverId).2 := by
  obtain ⟨handle, hhandle⟩ : ∃ handle, lb.servers.get serverId = some handle := by
    rw [← Option.isSome_iff_exists, hhandles, OrderedDict.contains, hn]
    rfl
  simp only [count, hhandle]
  exact ⟨rfl, rfl, hhandle, hroute, n, hn, hchoice⟩

theorem acquires_select :
    lb.Acquires requestId (select { lb with requestIdToServer := routes } requestId).1
      (select { lb with requestIdToServer := routes } requestId).2 := by
  unfold select
  dsimp only
  cases hmin : lb.inflightRequests.entries.argmin (·.2) with
  | none => exact ⟨rfl, rfl⟩
  | some server =>
    cases hset : routes.setItem requestId server.1 1 with
    | error e =>
      simp only [hset]
      exact ⟨rfl, rfl⟩
    | ok routes' =>
      simp only [hset]
      refine acquires_count hhandles (OrderedDict.get_eq_some_iff.mpr (argmin_mem hmin)) ?_ (Or.inr fun other m hm =>
        le_of_mem_argmin (OrderedDict.get_eq_some_iff.mp hm) hmin)
      rw [(LruCache.lookup_setItem hset).1]
      rfl

theorem acquireServer_spec :
    lb.Acquires requestId (lb.acquireServer requestId).1 (lb.acquireServer requestId).2 := by
  unfold acquireServer
  cases hroute : lb.route requestId with
  | none => exact acquires_select hhandles
  | some serverId =>
    dsimp only
    split_ifs with hin
    · obtain ⟨n, hn⟩ := Option.isSome_iff_exists.mp hin
      exact acquires_count hhandles hn hroute (Or.inl hroute)
    · exact acquires_select hhandles

end Handles

/-- What holds of the routes after an acquisition, and that it succeeds where there is a server and room. -/
def Serves (maxsize : ℕ) (result : GlobalRequestLoadBalancer H × Except BalancerError (String × H)) : Prop :=
  result.1.requestIdToServer.Units ∧
    (1 ≤ maxsize → lb.inflightRequests.entries ≠ [] → ∃ server, result.2 = .ok server)

section Routes

variable (hhandles : ∀ serverId, (lb.servers.get serverId).isSome = lb.inflightRequests.contains serverId)
include hhandles

theorem serves_count {n : ℕ} (maxsize : ℕ) (hn : lb.inflightRequests.get serverId = some n) (hroutes : routes.Units) :
    lb.Serves maxsize (count { lb with requestIdToServer := routes } serverId) := by
  obtain ⟨handle, hhandle⟩ : ∃ handle, lb.servers.get serverId = some handle := by
    rw [← Option.isSome_iff_exists, hhandles, OrderedDict.contains, hn]
    rfl
  refine ⟨hroutes, fun _ _ => ⟨(serverId, handle), ?_⟩⟩
  simp only [count, hhandle]

theorem serves_select (hroutes : routes.Units) (hnew : requestId ∉ routes.data) :
    lb.Serves routes.maxsize (select { lb with requestIdToServer := routes } requestId) := by
  unfold select
  dsimp only
  cases hmin : lb.inflightRequests.entries.argmin (·.2) with
  | none => exact ⟨hroutes, fun _ hne => absurd (argmin_eq_none.mp hmin) hne⟩
  | some server =>
    rcases Nat.eq_zero_or_pos routes.maxsize with hzero | hroom
    · have herror : routes.setItem requestId server.1 1 = .error .valueTooLarge :=
        if_pos (hzero ▸ Nat.zero_lt_one)
      simp only [herror]
      exact ⟨hroutes, fun hroom => absurd hroom (by omega)⟩
    · obtain ⟨routes', hset, hunits, -⟩ := hroutes.setItem hroom hnew server.1
      simp only [hset]
      exact serves_count hhandles _ (OrderedDict.get_eq_some_iff.mpr (argmin_mem hmin)) hunits

theorem serves_acquireServer (hroutes : lb.requestIdToServer.Units) :
    lb.Serves lb.requestIdToServer.maxsize (lb.acquireServer requestId) := by
  unfold acquireServer
  cases hroute : lb.route requestId with
  | none =>
    refine serves_select hhandles hroutes fun hmem => ?_
    obtain ⟨entry, hentry⟩ := Table.exists_lookup hmem
    simp [route, hentry] at hroute
  | some serverId =>
    obtain ⟨entry, hentry, -⟩ := Option.map_eq_some_iff.mp hroute
    have hmem : requestId ∈ lb.requestIdToServer.data := Table.mem_of_lookup hentry
    dsimp only
    split_ifs with hin
    · obtain ⟨n, hn⟩ := Option.isSome_iff_exists.mp hin
      exact serves_count hhandles _ hn (hroutes.touch hmem)
    · exact serves_select hhandles (hroutes.remove hmem) fun h => (AList.mem_erase.mp h).1 rfl

end Routes

theorem route_select (hroute : (routes.data.lookup requestId).map (·.1) = some serverId) {other : String}
    (hne : requestId ≠ other) :
    (select { lb with requestIdToServer := routes } other).1.route requestId = some serverId ∨
      (select { lb with requestIdToServer := routes } other).1.route requestId = none := by
  unfold select
  dsimp only
  cases lb.inflightRequests.entries.argmin (·.2) with
  | none => exact Or.inl hroute
  | some server =>
    cases hset : routes.setItem other server.1 1 with
    | error e =>
      simp only [hset]
      exact Or.inl hroute
    | ok routes' =>
      simp only [hset]
      rcases (LruCache.lookup_setItem hset).2 requestId hne with hsame | hnone
      · exact Or.inl ((congrArg (Option.map _) hsame).trans hroute)
      · exact Or.inr (congrArg (Option.map _) hnone)

theorem route_acquireServer (hroute : lb.route requestId = some serverId)
    (hin : lb.inflightRequests.contains serverId = true) (other : String) :
    (lb.acquireServer other).1.route requestId = some serverId ∨
      (lb.acquireServer other).1.route requestId = none := by
  rcases eq_or_ne requestId other with rfl | hne
  · simp only [acquireServer, hroute, hin, if_true]
    exact Or.inl hroute
  unfold acquireServer
  cases lb.route other with
  | none => exact route_select hroute hne
  | some otherServer =>
    dsimp only
    split_ifs
    · exact Or.inl hroute
    · refine route_select ?_ hne
      rw [AList.lookup_erase_ne hne]
      exact hroute

end GlobalRequestLoadBalancer

/-- The balancer with what its clients know: how often each server was added, and for every request that
is not released its server and how often that had been added then. -/
structure BalancerState (H : Type) where
  lb : GlobalRequestLoadBalancer H
  additions : String → ℕ := fun _ => 0
  outstanding : List (String × ℕ) := []

/-- A message to the balancer. -/
inductive BalancerCall (H : Type)
  | acquire (requestId : String)
  | release (request : String × ℕ)
  | add (servers : List (String × H))
  | remove (serverIds : List String)

namespace BalancerState

open GlobalRequestLoadBalancer hiding addServer

def addServer (s : BalancerState H) (server : String × H) : BalancerState H :=
  { s with
    lb := s.lb.addServer server.1 server.2
    additions := update s.additions server.1 (s.additions server.1 + 1) }

def step (s : BalancerState H) : BalancerCall H → Except BalancerError (BalancerState H)
  | .acquire requestId =>
    match s.lb.acquireServer requestId with
    | (lb, .error _) => .ok { s with lb := lb }
    | (lb, .ok (serverId, _)) =>
      .ok { s with lb := lb, outstanding := (serverId, s.additions serverId) :: s.outstanding }
  | .release request =>
    .ok { s with lb := s.lb.releaseServer request.1, outstanding := s.outstanding.erase request }
  | .add servers => .ok (servers.foldl addServer s)
  | .remove serverIds => .ok { s with lb := serverIds.foldl (fun lb serverId => lb.removeServer serverId) s.lb }

/-- `__init__` -/
def Initial (s : BalancerState H) : Prop :=
  ∃ servers maxCacheSize, servers ≠ [] ∧
    s = servers.foldl addServer { lb := ⟨∅, ∅, { maxsize := maxCacheSize }⟩ }

def Released (s : BalancerState H) : BalancerCall H → Prop
  | .release request => request ∈ s.outstanding
  | _ => True

/-- No request is released after its server was removed and added again. -/
def Timely (s : BalancerState H) : BalancerCall H → Prop
  | .release request => request ∈ s.outstanding ∧
      (s.lb.inflightRequests.contains request.1 = true → request.2 = s.additions request.1)
  | _ => True

structure Exact (s : BalancerState H) : Prop where
  counts : ∀ serverId n, s.lb.inflightRequests.get serverId = some n →
    n = s.outstanding.count (serverId, s.additions serverId)
  handles : ∀ serverId, (s.lb.servers.get serverId).isSome = s.lb.inflightRequests.contains serverId
  past : ∀ request ∈ s.outstanding, request.2 ≤ s.additions request.1
  routes : s.lb.requestIdToServer.Units

variable {s s' : BalancerState H}

theorem Exact.addServer (h : s.Exact) (server : String × H) : (s.addServer server).Exact := by
  obtain ⟨counts, handles, past, routes⟩ := h
  simp only [BalancerState.addServer, GlobalRequestLoadBalancer.addServer]
  refine ⟨fun serverId n hn => ?_, fun serverId => ?_, fun request hrequest => ?_, routes⟩
  · have hnone := count_eq_zero (l := s.outstanding) (a := (server.1, s.additions server.1 + 1))
    grind
  · grind
  · grind

theorem Exact.removeServer (h : s.Exact) (serverId : String) :
    Exact { s with lb := s.lb.removeServer serverId } := by
  obtain ⟨counts, handles, past, routes⟩ := h
  simp only [GlobalRequestLoadBalancer.removeServer]
  refine ⟨?_, ?_, past, routes⟩ <;> grind

theorem Exact.release (h : s.Exact) {request : String × ℕ} (hrelease : s.Timely (.release request)) :
    Exact { s with lb := s.lb.releaseServer request.1, outstanding := s.outstanding.erase request } := by
  obtain ⟨hmem, htimely⟩ := hrelease
  obtain ⟨counts, handles, past, routes⟩ := h
  simp only [GlobalRequestLoadBalancer.releaseServer]
  refine ⟨fun serverId n hn => ?_, ?_, fun other hother => past other (mem_of_mem_erase hother), routes⟩
  · have hpos := count_pos_iff.mpr hmem
    rcases eq_or_ne serverId request.1 with rfl | hne
    · cases hm : s.lb.inflightRequests.get request.1 <;> grind
    · grind
  · grind

theorem Exact.acquire (h : s.Exact) {lb : GlobalRequestLoadBalancer H} {serverId : String} {handle : H}
    {requestId : String} (hacquire : s.lb.Acquires requestId lb (.ok (serverId, handle)))
    (hroutes : lb.requestIdToServer.Units) :
    Exact { s with lb := lb, outstanding := (serverId, s.additions serverId) :: s.outstanding } := by
  obtain ⟨hservers, hinflight, -, -, -⟩ := hacquire
  obtain ⟨counts, handles, past, -⟩ := h
  refine ⟨fun other n hn => ?_, ?_, forall_mem_cons.mpr ⟨le_rfl, past⟩, hroutes⟩
  · cases hm : s.lb.inflightRequests.get other <;> grind
  · grind

theorem Exact.step (h : s.Exact) {call : BalancerCall H} (hcall : s.Timely call) (hstep : s.step call = .ok s') :
    s'.Exact := by
  cases call with
  | acquire requestId =>
    have hspec : s.lb.Acquires requestId _ _ := acquireServer_spec h.handles
    have hserves : s.lb.Serves _ (s.lb.acquireServer requestId) := serves_acquireServer h.handles h.routes
    simp only [BalancerState.step] at hstep
    generalize s.lb.acquireServer requestId = result at hspec hserves hstep
    obtain ⟨lb, e | ⟨serverId, handle⟩⟩ := result
    · cases hstep
      obtain ⟨hservers, hinflight⟩ := hspec
      exact ⟨hinflight ▸ h.counts, by rw [hservers, hinflight]; exact h.handles, h.past, hserves.1⟩
    · cases hstep
      exact h.acquire hspec hserves.1
  | release request =>
    cases hstep
    exact h.release hcall
  | add servers =>
    cases hstep
    exact foldlRecOn servers BalancerState.addServer h fun s hs server _ => hs.addServer server
  | remove serverIds =>
    cases hstep
    exact foldlRecOn (motive := fun lb => Exact { s with lb := lb }) serverIds _ h
      fun lb hlb serverId _ => hlb.removeServer serverId

theorem route_step {requestId serverId : String} (hroute : s.lb.route requestId = some serverId)
    (hin : s.lb.inflightRequests.contains serverId = true) {call : BalancerCall H} (hstep : s.step call = .ok s') :
    s'.lb.route requestId = some serverId ∨ s'.lb.route requestId = none := by
  cases call with
  | acquire other =>
    have hlb : s'.lb = (s.lb.acquireServer other).1 := by
      simp only [step] at hstep
      split at hstep <;> cases hstep <;> simp [*]
    rw [hlb]
    exact route_acquireServer hroute hin other
  | release request =>
    cases hstep
    exact Or.inl hroute
  | add servers =>
    cases hstep
    exact Or.inl (foldlRecOn (motive := fun s : BalancerState H => s.lb.route requestId = some serverId) servers
      addServer hroute fun _ hs _ _ => hs)
  | remove serverIds =>
    cases hstep
    exact Or.inl (foldlRecOn (motive := fun lb : GlobalRequestLoadBalancer H => lb.route requestId = some serverId)
      serverIds _ hroute fun _ hlb _ _ => hlb)

theorem Reachable.exact (h : Reachable Initial Timely step s) : s.Exact := by
  refine h.invariant ?_ fun s call s' hs hcall hstep => hs.step hcall hstep
  rintro s ⟨servers, maxCacheSize, -, rfl⟩
  refine foldlRecOn servers addServer ⟨fun _ _ h => (by cases h), fun _ => rfl, by simp, ?_⟩
    fun s hs server _ => hs.addServer server
  exact ⟨nodup_nil, fun k => by simp, rfl, fun k entry hk => (by cases hk)⟩

/-- If no request is released after its server was removed and added again: the counters are exact, an
acquisition returns the handle of a server in the pool that is the routed one or has the fewest requests and
succeeds if the pool is not empty and the routes have room for one, a request id gets the server in the pool
that it is routed to, and its route stays or is evicted. -/
theorem loadBalancer_exact (h : Reachable Initial Timely step s) :
    (∀ serverId n, s.lb.inflightRequests.get serverId = some n →
      n = s.outstanding.count (serverId, s.additions serverId)) ∧
    (∀ requestId, s.lb.Acquires requestId (s.lb.acquireServer requestId).1 (s.lb.acquireServer requestId).2) ∧
    (1 ≤ s.lb.requestIdToServer.maxsize → s.lb.inflightRequests.entries ≠ [] →
      ∀ requestId, ∃ server, (s.lb.acquireServer requestId).2 = .ok server) ∧
    ∀ requestId serverId, s.lb.route requestId = some serverId → s.lb.inflightRequests.contains serverId = true →
      (∃ handle, (s.lb.acquireServer requestId).2 = .ok (serverId, handle)) ∧
      ∀ call s', s.step call = .ok s' →
        s'.lb.route requestId = some serverId ∨ s'.lb.route requestId = none := by
  have hexact := Reachable.exact h
  refine ⟨hexact.counts, fun _ => acquireServer_spec hexact.handles,
    fun hroom hpool _ => (serves_acquireServer hexact.handles hexact.routes).2 hroom hpool,
    fun requestId serverId hroute hin => ⟨?_, fun call s' => route_step hroute hin⟩⟩
  have hhandle := hexact.handles serverId
  rw [hin, Option.isSome_iff_exists] at hhandle
  obtain ⟨handle, hhandle⟩ := hhandle
  refine ⟨handle, ?_⟩
  simp [acquireServer, hroute, hin, GlobalRequestLoadBalancer.count, hhandle]

instance (s : BalancerState H) (call : BalancerCall H) : Decidable (s.Released call) := by
  cases call <;> unfold Released <;> infer_instance

instance (s : BalancerState H) (call : BalancerCall H) : Decidable (s.Timely call) := by
  cases call <;> unfold Timely <;> infer_instance

def oneServer : BalancerState ℕ := addServer { lb := ⟨∅, ∅, { maxsize := 10000 }⟩ } ("A", 0)

theorem oneServer_initial : oneServer.Initial := ⟨[("A", 0)], 10000, by simp, rfl⟩

theorem loadBalancer_exact_one : ∃ s : BalancerState ℕ, Reachable Initial Timely step s ∧
    s.lb.inflightRequests.get "A" = some 1 ∧ s.outstanding.count ("A", s.additions "A") = 1 := by
  have hstart : Reachable Initial Timely step oneServer := .start oneServer_initial
  obtain ⟨s, hs, hget⟩ := hstart.exists_checkedRun
    (P := fun s => s.lb.inflightRequests.get "A" = some 1)
    [.acquire "r1", .acquire "r2", .release ("A", 1)] (by decide +kernel)
  exact ⟨s, hs, hget, ((loadBalancer_exact hs).1 "A" 1 hget).symm⟩

/-- The first request is released after its server was removed and added again and while the second request
is on it: no request is counted, and one is in flight. -/
theorem loadBalancer_late_release : ∃ s : BalancerState ℕ, Reachable Initial Released step s ∧
    s.lb.inflightRequests.get "A" = some 0 ∧ s.outstanding.count ("A", s.additions "A") = 1 :=
  (Reachable.start oneServer_initial).exists_checkedRun
    [.acquire "r1", .remove ["A"], .add [("A", 1)], .acquire "r2", .release ("A", 1)] (by decide +kernel)

end BalancerState

end VllmPs.Verl
