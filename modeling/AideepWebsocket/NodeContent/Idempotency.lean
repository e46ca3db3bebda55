import AideepWebsocket.NodeContent.Operation

/-!
# At most once

A call that has claimed its key goes on to `appendMarkdown`, and ends with a `DEL`
or a `SET` of the key.  Neither looks at what is stored there: the claim carries no
token of its owner, and it lapses after 60 s whether the owner has ended or not.

So everything depends on when a key can be claimed.  `SoleClaim` says that it is
claimed only while no other call of the key is still at work and none has applied
its markdown: a claim lapses only after its owner has ended without applying.  In
a run whose claims are all of this kind the markdown of a key is applied at most
once, and every entry of the cache is only ever replaced or deleted by the call
that wrote it.

* `CallStep` — what a step does to the calls and to the cache;
* `ClaimInv` — the invariant: of the calls of a key at most one is active, and what
  is stored while it holds its claim is its own.
-/

namespace AideepWebsocket.NodeContent

open Library
open DocManager (NodeRow Reply)
open Gateway (Role)

variable {hash : NodeContentOperationBody → String} {s s' : State} {e : Event}

/-- The call has claimed its key and not ended. -/
def Phase.holding : Phase → Bool
  | .appendMarkdown _ | .release _ | .store _ => true
  | _ => false

/-- The call has not got past `appendMarkdown`. -/
def Phase.beforeApply : Phase → Bool
  | .checkWorkspace | .selectNodeById | .get _ | .claim _ | .appendMarkdown _ => true
  | _ => false

/-- The call awaits `SET NX`. -/
def Phase.claiming : Phase → Bool
  | .claim _ => true
  | _ => false

/-- The call `i` has the key, and is at work or has applied its markdown. -/
def State.active (s : State) (i : CallId) (key : CacheKey) : Bool :=
  (s.calls i).any fun call =>
    call.request.cacheKey = key && (call.phase.holding || decide (i ∈ s.applied))

/-- How often the markdown of the calls with the key has been applied. -/
def State.applications (s : State) (key : CacheKey) : ℕ :=
  (s.applied.filter fun i => (s.calls i).any fun call => call.request.cacheKey = key).length

/-- The markdown of a key has been applied at most once, and the step removes an
entry of the cache only if it is a step of the call that wrote it, or if the entry
lapses. -/
def AtMostOnce (s : State) (e : Event) (s' : State) : Prop :=
  (∀ key, s'.applications key ≤ 1) ∧
    ∀ key entry, s.cache key = some entry → s'.cache key ≠ some entry →
      e = .claimExpire key ∨ e = .responseExpire key ∨
        ∃ reply, e = .redisReply entry.owner reply

/-- A call claims a key only while no other call of the key is active, and no
response lapses. -/
def SoleClaim (s : State) (e : Event) (_ : State) : Prop :=
  match e with
  | .redisReply i reply => ∀ call ∈ s.calls i, call.phase.claiming = true →
      s.cache call.request.cacheKey = none → reply.executed = true →
        ∀ j < s.nextCall, j ≠ i → s.active j call.request.cacheKey = false
  | .responseExpire _ => False
  | _ => True

instance (s : State) (e : Event) (s' : State) : Decidable (SoleClaim s e s') := by
  unfold SoleClaim
  split <;> infer_instance

/-! ### One step -/

/-- What an event can do to the calls and to the cache. -/
inductive CallStep (s : State) (e : Event) (s' : State) : Prop
  /-- No call moves, and at most an entry lapses. -/
  | world (hcalls : s'.calls = s.calls) (hnext : s'.nextCall = s.nextCall)
      (happlied : s'.applied = s.applied)
      (hcache : ∀ key, s'.cache key = s.cache key ∨
        s'.cache key = none ∧ (e = .claimExpire key ∨ e = .responseExpire key))
  | started (call : Call) (hphase : call.phase.holding = false)
      (hcalls : s'.calls = Function.update s.calls s.nextCall (some call))
      (hnext : s'.nextCall = s.nextCall + 1) (happlied : s'.applied = s.applied)
      (hcache : s'.cache = s.cache)
  /-- A call goes on without claiming, applying or writing. -/
  | moved (i : CallId) (call : Call) (phase : Phase) (hcall : s.calls i = some call)
      (hholding : phase.holding = true → call.phase.holding = true)
      (hbefore : phase.beforeApply = true → call.phase.beforeApply = true)
      (hcalls : s'.calls = Function.update s.calls i (some { call with phase := phase }))
      (hnext : s'.nextCall = s.nextCall) (happlied : s'.applied = s.applied)
      (hcache : s'.cache = s.cache)
  | claimed (i : CallId) (call : Call) (phase : Phase) (reply : Reply) (value : CacheValue)
      (he : e = .redisReply i reply) (hexecuted : reply.executed = true)
      (hcall : s.calls i = some call) (hclaiming : call.phase.claiming = true)
      (hvacant : s.cache call.request.cacheKey = none)
      (hcalls : s'.calls = Function.update s.calls i (some { call with phase := phase }))
      (hnext : s'.nextCall = s.nextCall) (happlied : s'.applied = s.applied)
      (hcache : s'.cache = Function.update s.cache call.request.cacheKey (some ⟨value, i⟩))
  | applied (i : CallId) (call : Call) (phase : Phase) (version : ℕ)
      (hcall : s.calls i = some call) (hphase : call.phase = .appendMarkdown version)
      (hbefore : phase.beforeApply = false)
      (hcalls : s'.calls = Function.update s.calls i (some { call with phase := phase }))
      (hnext : s'.nextCall = s.nextCall) (happlied : s'.applied = s.applied ++ [i])
      (hcache : s'.cache = s.cache)
  /-- A call that has claimed its key ends with a `DEL` or a `SET`. -/
  | wrote (i : CallId) (call : Call) (phase : Phase) (reply : Reply) (entry : Option Entry)
      (he : e = .redisReply i reply) (hcall : s.calls i = some call)
      (hholding : call.phase.holding = true) (hphase : phase.holding = false)
      (hbefore : phase.beforeApply = false) (hentry : ∀ en, entry = some en → en.owner = i)
      (hcalls : s'.calls = Function.update s.calls i (some { call with phase := phase }))
      (hnext : s'.nextCall = s.nextCall) (happlied : s'.applied = s.applied)
      (hcache : s'.cache = Function.update s.cache call.request.cacheKey entry)

/-- Before it claims its key a call only goes on to the next of its awaits, or
ends. -/
private theorem CallStep.of_setPhase {i : CallId} {call : Call} {phase : Phase}
    (hcall : s.calls i = some call) (hholding : phase.holding = true → call.phase.holding = true)
    (hbefore : phase.beforeApply = true → call.phase.beforeApply = true) :
    CallStep s e (s.setPhase i call phase) :=
  .moved i call phase hcall hholding hbefore rfl rfl rfl rfl

private theorem holding_checkEditPermission (membership : Option Role) :
    (checkEditPermission membership).holding = false := by
  unfold checkEditPermission
  split
  · rfl
  · split <;> rfl

private theorem holding_withNode (request : Request) (existing : Option NodeRow) :
    (request.withNode existing).holding = false := by
  unfold Request.withNode
  split
  · rfl
  · split <;> rfl
  · rfl
  · split <;> rfl

private theorem holding_withCached (request : Request) (version : ℕ)
    (cached : Option CacheValue) : (request.withCached hash version cached).holding = false := by
  unfold Request.withCached
  split
  · rfl
  · split
    · split
      · rfl
      · split <;> rfl
    · split <;> rfl

private theorem callStep_of_redisReply {i : CallId} {reply : Reply}
    (h : RedisStep hash s i reply s') : CallStep s (.redisReply i reply) s' := by
  cases h with
  | got call version hcall hphase hs' =>
      subst hs'
      refine .of_setPhase hcall (fun hholding => ?_) fun _ => by rw [hphase]; rfl
      split at hholding
      · rw [holding_withCached] at hholding
        cases hholding
      · cases hholding
  | claimed call version phase hcall hphase hvacant hexecuted _ hs' =>
      subst hs'
      exact .claimed i call _ reply _ rfl hexecuted hcall (by rw [hphase]; rfl) hvacant rfl rfl
        rfl rfl
  | unclaimed call version phase hcall hphase hphase' hs' =>
      subst hs'
      refine .of_setPhase hcall (fun hholding => ?_) fun _ => by rw [hphase]; rfl
      rcases hphase' with rfl | rfl
      · cases hrequest : call.request <;> simp [hrequest, Request.unclaimed,
          Phase.holding] at hholding
      · cases hholding
  | released call error phase hcall hphase hphase' hs' =>
      have hholding : call.phase.holding = true := by rw [hphase]; rfl
      obtain ⟨hnot, hpast⟩ : phase.holding = false ∧ phase.beforeApply = false := by
        rcases hphase' with rfl | rfl
        · cases call.request <;> exact ⟨rfl, rfl⟩
        · exact ⟨rfl, rfl⟩
      split at hs' <;> subst hs'
      · exact .wrote i call _ reply none rfl hcall hholding hnot hpast (by simp) rfl rfl rfl rfl
      · exact .of_setPhase hcall (fun _ => hholding) fun hbefore => by
          rw [hpast] at hbefore
          cases hbefore
  | stored call response hcall hphase hexecuted hs' =>
      subst hs'
      refine .wrote i call _ reply (some ⟨_, i⟩) rfl hcall (by rw [hphase]; rfl) rfl rfl ?_ rfl rfl
        rfl rfl
      rintro en heq
      cases heq
      rfl
  | notStored call response hcall hphase hs' =>
      subst hs'
      exact .of_setPhase hcall (fun _ => by rw [hphase]; rfl) fun hbefore => by cases hbefore

private theorem callStep_of_appendReply {i : CallId} {result : Appended}
    (h : AppendStep s i result s') : CallStep s (.appendReply i result) s' := by
  cases h with
  | rejected call version hcall hphase =>
      exact .of_setPhase hcall (fun _ => by rw [hphase]; rfl) fun hbefore => by cases hbefore
  | announced call _ _ _ _ _ hcall hphase =>
      refine .applied i call _ _ hcall hphase ?_ rfl rfl rfl rfl
      cases call.request <;> rfl
  | unannounced call _ _ _ _ _ hcall hphase =>
      refine .applied i call _ _ hcall hphase ?_ rfl rfl rfl rfl
      cases call.request <;> rfl

/-- At most one entry of the cache lapses. -/
private theorem CallStep.of_lapse {key : CacheKey} (he : e = .claimExpire key ∨
    e = .responseExpire key) : CallStep s e (s.setCache key none) := by
  refine .world rfl rfl rfl fun key' => ?_
  by_cases hkey : key' = key
  · subst hkey
    exact Or.inr ⟨Function.update_self .., he⟩
  · exact Or.inl (Function.update_of_ne hkey ..)

/-- **What a step can do.** -/
theorem callStep_of_step (h : step hash s e = some s') : CallStep s e s' := by
  cases step_cases h with
  | refused => exact .world rfl rfl rfl fun _ => Or.inl rfl
  | execute _ _ _ _ _ request => exact .started ⟨request, .checkWorkspace⟩ rfl rfl rfl rfl rfl
  | ignored => exact .world rfl rfl rfl fun _ => Or.inl rfl
  | patch _ request => exact .started ⟨request, .selectNodeById⟩ rfl rfl rfl rfl rfl
  | membershipReply i ok call hcall hphase =>
      refine .of_setPhase hcall (fun hholding => ?_) fun _ => by rw [hphase]; rfl
      split at hholding
      · rw [holding_checkEditPermission] at hholding
        cases hholding
      · cases hholding
  | nodeReply i ok call hcall hphase =>
      refine .of_setPhase hcall (fun hholding => ?_) fun _ => by rw [hphase]; rfl
      split at hholding
      · rw [holding_withNode] at hholding
        cases hholding
      · cases hholding
  | redisReply i reply s' hstep => exact callStep_of_redisReply hstep
  | appendReply i result s' hstep => exact callStep_of_appendReply hstep
  | claimExpire key => exact .of_lapse (Or.inl rfl)
  | responseExpire key => exact .of_lapse (Or.inr rfl)
  | writeNode => exact .world rfl rfl rfl fun _ => Or.inl rfl
  | setMembership => exact .world rfl rfl rfl fun _ => Or.inl rfl

/-! ### The invariant -/

theorem State.active_iff {i : CallId} {key : CacheKey} : s.active i key = true ↔
    ∃ call, s.calls i = some call ∧ call.request.cacheKey = key ∧
      (call.phase.holding = true ∨ i ∈ s.applied) := by
  simp [State.active, Option.any_eq_true]

/-- **Of the calls of a key at most one is active**, and what is stored while it
holds its claim is its own. -/
structure ClaimInv (s : State) : Prop where
  fresh : ∀ i, s.nextCall ≤ i → s.calls i = none
  applied : ∀ i ∈ s.applied, ∃ call, s.calls i = some call ∧ call.phase.beforeApply = false
  nodup : s.applied.Nodup
  alone : ∀ i j key, s.active i key = true → s.active j key = true → i = j
  owner : ∀ i call entry, s.calls i = some call → call.phase.holding = true →
    s.cache call.request.cacheKey = some entry → entry.owner = i

theorem claimInv_init (nodes : NodeId → Option NodeRow)
    (memberships : UserId → WorkspaceId → Option Role) : ClaimInv (State.init nodes memberships) where
  fresh i _ := rfl
  applied i hi := by cases hi
  nodup := List.nodup_nil
  alone i j key hi := by cases hi
  owner i call entry hcall := by cases hcall

/-- A call of the state after is the one that has moved, or was there before. -/
private theorem calls_of_update {calls calls' : CallId → Option Call} {i j : CallId} {x : Call}
    (hcalls : calls' = Function.update calls i (some x)) {y : Call} (hy : calls' j = some y) :
    j = i ∧ y = x ∨ j ≠ i ∧ calls j = some y := by
  rw [hcalls] at hy
  by_cases hj : j = i
  · subst hj
    rw [Function.update_self] at hy
    exact Or.inl ⟨rfl, (Option.some.inj hy).symm⟩
  · rw [Function.update_of_ne hj] at hy
    exact Or.inr ⟨hj, hy⟩

namespace ClaimInv

private theorem lt_of_call (hC : ClaimInv s) {i : CallId} {call : Call}
    (hcall : s.calls i = some call) : i < s.nextCall := by
  by_contra hle
  rw [hC.fresh i (Nat.le_of_not_lt hle)] at hcall
  cases hcall

/-- The call that holds its claim is active. -/
private theorem active_of_holding {i : CallId} {call : Call} (hcall : s.calls i = some call)
    (hholding : call.phase.holding = true) : s.active i call.request.cacheKey = true :=
  State.active_iff.mpr ⟨call, hcall, rfl, Or.inl hholding⟩

/-- A call that is still before `appendMarkdown` has not applied its markdown. -/
private theorem notMem_applied (hC : ClaimInv s) {i : CallId} {call : Call}
    (hcall : s.calls i = some call) (hbefore : call.phase.beforeApply = true) :
    i ∉ s.applied := by
  intro hi
  obtain ⟨x, hx, hpast⟩ := hC.applied i hi
  rw [hcall] at hx
  cases hx
  rw [hbefore] at hpast
  cases hpast

private theorem fresh_of_update (hC : ClaimInv s) {i : CallId} {call x : Call}
    (hcall : s.calls i = some call) (hcalls : s'.calls = Function.update s.calls i (some x))
    (hnext : s'.nextCall = s.nextCall) : ∀ j, s'.nextCall ≤ j → s'.calls j = none := by
  intro j hj
  rw [hnext] at hj
  have hne : j ≠ i := fun heq => absurd (hC.lt_of_call hcall) (heq ▸ Nat.not_lt.mpr hj)
  rw [hcalls, Function.update_of_ne hne]
  exact hC.fresh j hj

/-- **A call moves without claiming**: it was active before if it is now, and a
write under its key ends its hold on it. -/
private theorem of_update (hC : ClaimInv s) {i : CallId} {call : Call} {phase : Phase}
    (hcall : s.calls i = some call)
    (hcalls : s'.calls = Function.update s.calls i (some { call with phase := phase }))
    (hnext : s'.nextCall = s.nextCall) (hnodup : s'.applied.Nodup)
    (happlied : ∀ j ∈ s'.applied, j ∈ s.applied ∨ j = i ∧ call.phase.holding = true)
    (hpast : i ∈ s'.applied → phase.beforeApply = false)
    (hholding : phase.holding = true → call.phase.holding = true)
    (hcache : ∀ key entry, s'.cache key = some entry → s.cache key = some entry ∨
      key = call.request.cacheKey ∧ call.phase.holding = true ∧ phase.holding = false) :
    ClaimInv s' := by
  have hactive : ∀ j key, s'.active j key = true → s.active j key = true := by
    intro j key hj
    obtain ⟨x, hx, hkey, hor⟩ := State.active_iff.mp hj
    rcases calls_of_update hcalls hx with ⟨rfl, rfl⟩ | ⟨hne, hold⟩
    · refine State.active_iff.mpr ⟨call, hcall, hkey, ?_⟩
      rcases hor with hphase | hmem
      · exact Or.inl (hholding hphase)
      · exact (happlied j hmem).symm.imp_left And.right
    · refine State.active_iff.mpr ⟨x, hold, hkey, hor.imp_right fun hmem => ?_⟩
      exact (happlied j hmem).resolve_right fun h => hne h.1
  refine ⟨hC.fresh_of_update hcall hcalls hnext, ?_, hnodup, ?_, ?_⟩
  · intro j hj
    by_cases hji : j = i
    · subst hji
      exact ⟨_, by rw [hcalls, Function.update_self], hpast hj⟩
    · obtain ⟨x, hx, hafter⟩ := hC.applied j ((happlied j hj).resolve_right fun h => hji h.1)
      exact ⟨x, by rw [hcalls, Function.update_of_ne hji, hx], hafter⟩
  · intro j k key hj hk
    exact hC.alone j k key (hactive j key hj) (hactive k key hk)
  · intro j x entry hx hheld hentry
    rcases calls_of_update hcalls hx with ⟨rfl, rfl⟩ | ⟨hne, hold⟩
    · rcases hcache _ entry hentry with hentry | ⟨-, -, hends⟩
      · exact hC.owner j call entry hcall (hholding hheld) hentry
      · exact absurd (hends.symm.trans hheld) Bool.false_ne_true
    · rcases hcache _ entry hentry with hentry | ⟨hkey, hheld', -⟩
      · exact hC.owner j x entry hold hheld hentry
      · exact absurd (hC.alone j i _ (hkey ▸ active_of_holding hold hheld)
          (active_of_holding hcall hheld')) hne

private theorem of_world (hC : ClaimInv s) (hcalls : s'.calls = s.calls)
    (hnext : s'.nextCall = s.nextCall) (happlied : s'.applied = s.applied)
    (hcache : ∀ key, s'.cache key = s.cache key ∨ s'.cache key = none) : ClaimInv s' := by
  have hactive : ∀ i key, s'.active i key = s.active i key := by
    intro i key
    rw [State.active, State.active, hcalls, happlied]
  refine ⟨?_, ?_, happlied ▸ hC.nodup, ?_, ?_⟩
  · rw [hnext, hcalls]
    exact hC.fresh
  · rw [happlied, hcalls]
    exact hC.applied
  · intro i j key
    rw [hactive, hactive]
    exact hC.alone i j key
  · intro i call entry hcall hholding hentry
    rw [hcalls] at hcall
    rcases hcache call.request.cacheKey with hsame | hnone
    · exact hC.owner i call entry hcall hholding (hsame ▸ hentry)
    · rw [hnone] at hentry
      cases hentry

private theorem of_start (hC : ClaimInv s) {call : Call} (hphase : call.phase.holding = false)
    (hcalls : s'.calls = Function.update s.calls s.nextCall (some call))
    (hnext : s'.nextCall = s.nextCall + 1) (happlied : s'.applied = s.applied)
    (hcache : s'.cache = s.cache) : ClaimInv s' := by
  have hnew : s.nextCall ∉ s.applied := by
    intro hmem
    obtain ⟨x, hx, -⟩ := hC.applied _ hmem
    rw [hC.fresh _ le_rfl] at hx
    cases hx
  have hactive : ∀ i key, s'.active i key = true → s.active i key = true := by
    intro i key hi
    obtain ⟨x, hx, hkey, hor⟩ := State.active_iff.mp hi
    rw [happlied] at hor
    rcases calls_of_update hcalls hx with ⟨rfl, rfl⟩ | ⟨-, hold⟩
    · rw [hphase] at hor
      exact absurd (hor.resolve_left Bool.false_ne_true) hnew
    · exact State.active_iff.mpr ⟨x, hold, hkey, hor⟩
  refine ⟨?_, ?_, happlied ▸ hC.nodup, ?_, ?_⟩
  · intro i hi
    rw [hnext] at hi
    rw [hcalls, Function.update_of_ne (Nat.lt_of_succ_le hi).ne']
    exact hC.fresh i (Nat.le_of_succ_le hi)
  · intro i hi
    rw [happlied] at hi
    obtain ⟨x, hx, hpast⟩ := hC.applied i hi
    have hne : i ≠ s.nextCall := fun heq => hnew (heq ▸ hi)
    exact ⟨x, by rw [hcalls, Function.update_of_ne hne, hx], hpast⟩
  · intro i j key hi hj
    exact hC.alone i j key (hactive i key hi) (hactive j key hj)
  · intro i x entry hx hholding hentry
    rw [hcache] at hentry
    rcases calls_of_update hcalls hx with ⟨rfl, rfl⟩ | ⟨-, hold⟩
    · rw [hphase] at hholding
      cases hholding
    · exact hC.owner i x entry hold hholding hentry

/-- **A call claims its key** while no other call of the key is active. -/
private theorem of_claim (hC : ClaimInv s) {i : CallId} {call : Call} {phase : Phase}
    {value : CacheValue} (hcall : s.calls i = some call)
    (hbefore : call.phase.beforeApply = true)
    (hidle : ∀ j, j ≠ i → s.active j call.request.cacheKey = false)
    (hcalls : s'.calls = Function.update s.calls i (some { call with phase := phase }))
    (hnext : s'.nextCall = s.nextCall) (happlied : s'.applied = s.applied)
    (hcache : s'.cache = Function.update s.cache call.request.cacheKey (some ⟨value, i⟩)) :
    ClaimInv s' := by
  have hnotApplied : i ∉ s.applied := hC.notMem_applied hcall hbefore
  have hactive : ∀ j key, s'.active j key = true →
      s.active j key = true ∨ j = i ∧ key = call.request.cacheKey := by
    intro j key hj
    obtain ⟨x, hx, hkey, hor⟩ := State.active_iff.mp hj
    rw [happlied] at hor
    rcases calls_of_update hcalls hx with ⟨rfl, rfl⟩ | ⟨-, hold⟩
    · exact Or.inr ⟨rfl, hkey.symm⟩
    · exact Or.inl (State.active_iff.mpr ⟨x, hold, hkey, hor⟩)
  have heq : ∀ j, s.active j call.request.cacheKey = true → j = i := by
    intro j hj
    by_contra hne
    rw [hidle j hne] at hj
    cases hj
  refine ⟨hC.fresh_of_update hcall hcalls hnext, ?_, happlied ▸ hC.nodup, ?_, ?_⟩
  · intro j hj
    rw [happlied] at hj
    obtain ⟨x, hx, hpast⟩ := hC.applied j hj
    have hne : j ≠ i := fun h => hnotApplied (h ▸ hj)
    exact ⟨x, by rw [hcalls, Function.update_of_ne hne, hx], hpast⟩
  · intro j k key hj hk
    rcases hactive j key hj with hj | ⟨rfl, rfl⟩
    · rcases hactive k key hk with hk | ⟨rfl, rfl⟩
      · exact hC.alone j k key hj hk
      · exact heq j hj
    · rcases hactive k _ hk with hk | ⟨rfl, -⟩
      · exact (heq k hk).symm
      · rfl
  · intro j x entry hx hheld hentry
    rcases calls_of_update hcalls hx with ⟨rfl, rfl⟩ | ⟨hne, hold⟩
    · rw [hcache, Function.update_self] at hentry
      cases hentry
      rfl
    · by_cases hkey : x.request.cacheKey = call.request.cacheKey
      · exact absurd (heq j (hkey ▸ active_of_holding hold hheld)) hne
      · rw [hcache, Function.update_of_ne hkey] at hentry
        exact hC.owner j x entry hold hheld hentry

/-- Every step keeps the invariant, if claims are taken only while no other call
of the key is active. -/
theorem step (hC : ClaimInv s) (h : NodeContent.step hash s e = some s')
    (hsole : SoleClaim s e s') : ClaimInv s' := by
  cases callStep_of_step h with
  | world hcalls hnext happlied hcache =>
      exact hC.of_world hcalls hnext happlied fun key => (hcache key).imp_right And.left
  | started call hphase hcalls hnext happlied hcache =>
      exact hC.of_start hphase hcalls hnext happlied hcache
  | moved i call phase hcall hholding hbefore hcalls hnext happlied hcache =>
      refine hC.of_update hcall hcalls hnext (happlied ▸ hC.nodup) (fun j hj => ?_) (fun hi => ?_)
        hholding fun key entry hentry => ?_
      · exact Or.inl (happlied ▸ hj)
      · rw [← Bool.not_eq_true]
        exact fun hphase => hC.notMem_applied hcall (hbefore hphase) (happlied ▸ hi)
      · exact Or.inl (hcache ▸ hentry)
  | claimed i call phase reply value he hexecuted hcall hclaiming hvacant hcalls hnext happlied
      hcache =>
      subst he
      refine hC.of_claim hcall ?_ (fun j hj => ?_) hcalls hnext happlied hcache
      · unfold Phase.claiming at hclaiming
        split at hclaiming
        · next hphase => rw [hphase]; rfl
        · cases hclaiming
      · rw [← Bool.not_eq_true]
        intro hactive
        obtain ⟨x, hx, -⟩ := State.active_iff.mp hactive
        rw [hsole call hcall hclaiming hvacant hexecuted j (hC.lt_of_call hx) hj] at hactive
        cases hactive
  | applied i call phase version hcall hphase hbefore hcalls hnext happlied hcache =>
      have hheld : call.phase.holding = true := by rw [hphase]; rfl
      have hnew : i ∉ s.applied := hC.notMem_applied hcall (by rw [hphase]; rfl)
      refine hC.of_update hcall hcalls hnext ?_ (fun j hj => ?_) (fun _ => hbefore)
        (fun _ => hheld) fun key entry hentry => Or.inl (hcache ▸ hentry)
      · rw [happlied]
        exact List.nodup_append.mpr ⟨hC.nodup, List.nodup_singleton i, fun a ha b hb heq =>
          hnew (List.mem_singleton.mp hb ▸ heq ▸ ha)⟩
      · rw [happlied, List.mem_append, List.mem_singleton] at hj
        exact hj.imp_right fun heq => ⟨heq, hheld⟩
  | wrote i call phase reply entry he hcall hholding hphase hbefore hentry hcalls hnext happlied
      hcache =>
      refine hC.of_update hcall hcalls hnext (happlied ▸ hC.nodup)
        (fun j hj => Or.inl (happlied ▸ hj)) (fun _ => hbefore) (fun _ => hholding)
        fun key entry' hentry' => ?_
      by_cases hkey : key = call.request.cacheKey
      · exact Or.inr ⟨hkey, hholding, hphase⟩
      · rw [hcache, Function.update_of_ne hkey] at hentry'
        exact Or.inl hentry'

/-- At most one application for each key. -/
theorem applications_le_one (hC : ClaimInv s) (key : CacheKey) : s.applications key ≤ 1 := by
  have hactive : ∀ i ∈ s.applied.filter (fun i =>
      (s.calls i).any fun call => call.request.cacheKey = key), s.active i key = true := by
    intro i hi
    obtain ⟨hmem, hkey⟩ := List.mem_filter.mp hi
    obtain ⟨call, hcall, hkey⟩ := (Option.any_eq_true _ _).mp hkey
    exact State.active_iff.mpr ⟨call, hcall, of_decide_eq_true hkey, Or.inr hmem⟩
  have hnodup := hC.nodup.filter fun i =>
    (s.calls i).any fun call => decide (call.request.cacheKey = key)
  unfold State.applications
  generalize s.applied.filter (fun i =>
    (s.calls i).any fun call => call.request.cacheKey = key) = l at hactive hnodup
  rcases l with _ | ⟨i, _ | ⟨j, l⟩⟩
  · exact Nat.zero_le 1
  · exact le_rfl
  · have heq := hC.alone i j key (hactive i (by simp)) (hactive j (by simp))
    simp [heq] at hnodup

end ClaimInv

/-! ### Runs -/

/-- **At most once**: in a run in which a key is claimed only while no other call
of the key is active, its markdown is applied at most once, and no call removes
what another one has stored. -/
theorem atMostOnce (hash : NodeContentOperationBody → String) (nodes : NodeId → Option NodeRow)
    (memberships : UserId → WorkspaceId → Option Role) (es : List Event)
    (hsole : Along (step hash) SoleClaim (State.init nodes memberships) es) :
    Along (step hash) AtMostOnce (State.init nodes memberships) es := by
  refine along_of_invariant (I := ClaimInv) ?_ (claimInv_init nodes memberships) hsole
  intro s e s' hstep hC hguard
  have hC' := hC.step hstep hguard
  refine ⟨hC', hC'.applications_le_one, fun key entry hentry hgone => ?_⟩
  cases callStep_of_step hstep with
  | world _ _ _ hcache =>
      rcases hcache key with hsame | ⟨-, he⟩
      · exact absurd (hsame.trans hentry) hgone
      · exact he.elim Or.inl fun he => Or.inr (Or.inl he)
  | started _ _ _ _ _ hcache => exact absurd (by rw [hcache, hentry]) hgone
  | moved _ _ _ _ _ _ _ _ _ hcache => exact absurd (by rw [hcache, hentry]) hgone
  | applied _ _ _ _ _ _ _ _ _ _ hcache => exact absurd (by rw [hcache, hentry]) hgone
  | claimed i call phase reply value he _ _ _ hvacant _ _ _ hcache =>
      have hkey : key ≠ call.request.cacheKey := by
        rintro rfl
        rw [hvacant] at hentry
        cases hentry
      exact absurd (by rw [hcache, Function.update_of_ne hkey, hentry]) hgone
  | wrote i call phase reply _ he hcall hholding _ _ _ _ _ _ hcache =>
      by_cases hkey : key = call.request.cacheKey
      · subst hkey
        obtain rfl := hC.owner i call entry hcall hholding hentry
        exact Or.inr (Or.inr ⟨reply, he⟩)
      · exact absurd (by rw [hcache, Function.update_of_ne hkey, hentry]) hgone

/-- User `9` is an EDITOR of workspace `7`. -/
def editor (userId : UserId) (workspaceId : WorkspaceId) : Option Role :=
  if userId = 9 ∧ workspaceId = 7 then some .EDITOR else none

/-- Node `1` of workspace `7` holds markdown. -/
def markdownNode (nodeId : NodeId) : Option NodeRow :=
  if nodeId = 1 then some ⟨none, some ⟨some "MARKDOWN", some "# a", []⟩, 2, 0, 7, none⟩ else none

/-- A stand-in for SHA-256 over the JSON of the body. -/
def plainHash (body : NodeContentOperationBody) : String := body.markdown

/-- The call `i` gets past its checks, finds nothing cached and sends `SET NX`. -/
def claimOperation (i : CallId) : List Event :=
  [.execute 9 7 1 (some "chunk-key-001") ⟨.APPEND_MARKDOWN, "## b", some 2,
      ⟨.AGENT, "meeting-graph", none, none⟩⟩,
    .membershipReply i true, .nodeReply i true, .redisReply i .ok, .redisReply i .ok]

/-- `appendMarkdown` resolves for the call `i`. -/
def appendResolves (i : CallId) (version : ℕ) : Event :=
  .appendReply i (.resolved ⟨{(i, 0)}, ∅⟩ version 10 i true)

/-- A call runs to its end, and the same request is sent again. -/
def sentTwice : List Event :=
  claimOperation 0 ++ [appendResolves 0 3, .redisReply 0 .ok] ++ (claimOperation 1).take 4

theorem sentTwice_atMostOnce :
    Along (step plainHash) SoleClaim (State.init markdownNode editor) sentTwice ∧
      Along (step plainHash) AtMostOnce (State.init markdownNode editor) sentTwice :=
  ⟨by decide +kernel, atMostOnce plainHash markdownNode editor sentTwice (by decide +kernel)⟩

/-- The append of the first call waits for more than a minute, so that the request
sent again claims the key anew; then the first call ends. -/
def claimLapses : List Event :=
  (claimOperation 0 ++ .claimExpire ⟨7, 1, 9, "chunk-key-001"⟩ :: claimOperation 1 ++
      [appendResolves 0 3]) ++
    .redisReply 0 .ok :: [appendResolves 1 4]

/-- The markdown has been applied twice, and before that the first call has
overwritten the claim of the second. -/
theorem claimLapses_not_atMostOnce :
    ¬ Along (step plainHash) AtMostOnce (State.init markdownNode editor) claimLapses ∧
      (exec (step plainHash) (State.init markdownNode editor) claimLapses).any (fun s =>
        s.applications ⟨7, 1, 9, "chunk-key-001"⟩ = 2) = true := by
  refine ⟨fun h => ?_, by decide +kernel⟩
  have hrun : (exec (step plainHash) (State.init markdownNode editor)
      (claimOperation 0 ++ .claimExpire ⟨7, 1, 9, "chunk-key-001"⟩ :: claimOperation 1 ++
        [appendResolves 0 3])).any (fun s => (step plainHash s (.redisReply 0 .ok)).any fun s' =>
          (s.cache ⟨7, 1, 9, "chunk-key-001"⟩).any fun entry => entry.owner = 1 ∧
            s'.cache ⟨7, 1, 9, "chunk-key-001"⟩ ≠ some entry) = true := by
    decide +kernel
  obtain ⟨s, hs, hrun⟩ := (Option.any_eq_true _ _).mp hrun
  obtain ⟨s', hs', hrun⟩ := (Option.any_eq_true _ _).mp hrun
  obtain ⟨entry, hentry, hrun⟩ := (Option.any_eq_true _ _).mp hrun
  obtain ⟨howner, hgone⟩ := of_decide_eq_true hrun
  rcases (h.at_step hs hs').2 _ entry hentry hgone with he | he | ⟨reply, he⟩
  · cases he
  · cases he
  · rw [howner] at he
    cases he

end AideepWebsocket.NodeContent
