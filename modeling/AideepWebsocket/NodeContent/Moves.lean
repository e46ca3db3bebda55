import AideepWebsocket.NodeContent.Idempotency

/-!
# How a call goes on

`Moved` says what a step of the service does to its calls as long as no append settles:
one call begins, or one goes on to its next await.  A call that awaits its append stays
where it is (`Moved.awaiting`), and nothing but the end of its append makes a response of
its own (`Moved.call`); what that end does is `calls_of_appendReply`.

No call is forgotten while the process lives (`kept_of_step`).  A call reads the version of
its row once, with the answer of `selectNodeById`, and carries it along until its append
settles (`read_of_step`).
-/

namespace AideepWebsocket.NodeContent

variable {hash : NodeContentOperationBody → String} {s s' : State} {e : Event}

/-- The response that the call has made itself, and returns unless the last `SET` fails. -/
def Phase.own : Phase → Option NodeContentOperationResponse
  | .store response => some response
  | .returned (.ok (some response)) => if response.duplicate then none else some response
  | _ => none

private theorem own_withCached (request : Request) (version : ℕ) (cached : Option CacheValue) :
    (request.withCached hash version cached).own = none := by
  unfold Request.withCached
  split
  · rfl
  · split
    · split
      · rfl
      · split <;> rfl
    · split <;> rfl

private theorem own_withNode (request : Request) (existing : Option DocManager.NodeRow) :
    (request.withNode existing).own = none := by
  unfold Request.withNode
  split
  · rfl
  · split <;> rfl
  · rfl
  · split <;> rfl

private theorem own_checkEditPermission (membership : Option Gateway.Role) :
    (checkEditPermission membership).own = none := by
  unfold checkEditPermission
  split
  · rfl
  · split <;> rfl

/-- A call goes on from one phase to the next, unless its append settles. -/
inductive Moved (s s' : State) : Prop
  | same (hcalls : s'.calls = s.calls) (hnext : s'.nextCall = s.nextCall)
  | started (call : Call) (hphase : call.phase.own = none)
      (happend : ∀ version, call.phase ≠ .appendMarkdown version)
      (hcalls : s'.calls = Function.update s.calls s.nextCall (some call))
      (hnext : s'.nextCall = s.nextCall + 1)
  | moved (i : CallId) (call : Call) (phase : Phase) (hcall : s.calls i = some call)
      (happend : ∀ version, call.phase ≠ .appendMarkdown version)
      (hown : ∀ response, phase.own = some response → call.phase.own = some response)
      (hbefore : phase.beforeApply = true → call.phase.beforeApply = true)
      (hcalls : s'.calls = Function.update s.calls i (some { call with phase := phase }))
      (hnext : s'.nextCall = s.nextCall)

/-- A phase without a response of its own has none to account for. -/
private theorem own_absurd {phase : Phase} {P : NodeContentOperationResponse → Prop}
    (h : phase.own = none) : ∀ response, phase.own = some response → P response := by
  intro response hresponse
  rw [h] at hresponse
  cases hresponse

private theorem moved_of_redisReply {i : CallId} {reply : DocManager.Reply}
    (h : RedisStep hash s i reply s') : Moved s s' := by
  cases h with
  | got call version hcall hphase hs' =>
      subst hs'
      refine .moved i call _ hcall (by simp [hphase]) (own_absurd ?_)
        (fun _ => by rw [hphase]; rfl) rfl rfl
      split
      · exact own_withCached _ _ _
      · rfl
  | claimed call version phase hcall hphase _ _ hphase' hs' =>
      subst hs'
      refine .moved i call phase hcall (by simp [hphase]) (own_absurd ?_)
        (fun _ => by rw [hphase]; rfl) rfl rfl
      rcases hphase' with rfl | rfl <;> rfl
  | unclaimed call version phase hcall hphase hphase' hs' =>
      subst hs'
      refine .moved i call phase hcall (by simp [hphase]) (own_absurd ?_)
        (fun _ => by rw [hphase]; rfl) rfl rfl
      rcases hphase' with rfl | rfl
      · cases call.request <;> rfl
      · rfl
  | released call error phase hcall hphase hphase' hs' =>
      have hlate : phase.own = none ∧ phase.beforeApply = false := by
        rcases hphase' with rfl | rfl
        · cases call.request <;> exact ⟨rfl, rfl⟩
        · exact ⟨rfl, rfl⟩
      have hbefore : phase.beforeApply = true → call.phase.beforeApply = true := by
        rw [hlate.2]
        exact fun h => (by cases h)
      subst hs'
      refine .moved i call phase hcall (by simp [hphase]) (own_absurd hlate.1) hbefore ?_ ?_
      · split <;> rfl
      · split <;> rfl
  | stored call response hcall hphase _ hs' =>
      subst hs'
      refine .moved i call _ hcall (by simp [hphase]) ?_ (fun h => (by cases h)) rfl rfl
      intro response' hresponse
      rw [hphase]
      unfold Phase.own at hresponse
      split at hresponse
      · next heq => cases heq
      · next heq =>
          split at heq
          · cases heq
            split at hresponse
            · cases hresponse
            · exact hresponse
          · cases heq
      · cases hresponse
  | notStored call response hcall hphase hs' =>
      subst hs'
      exact .moved i call _ hcall (by simp [hphase]) (fun _ h => (by cases h))
        (fun h => (by cases h)) rfl rfl

/-- **What a step of the service does to its calls**, if it is not the end of an append. -/
theorem moved_of_step (h : step hash s e = some s')
    (he : ∀ i result, e ≠ .appendReply i result) : Moved s s' := by
  cases step_cases h with
  | refused => exact .same rfl rfl
  | execute _ _ _ _ _ request =>
      exact .started ⟨request, .checkWorkspace⟩ rfl (by simp) rfl rfl
  | ignored => exact .same rfl rfl
  | patch _ request => exact .started ⟨request, .selectNodeById⟩ rfl (by simp) rfl rfl
  | membershipReply i ok call hcall hphase =>
      refine .moved i call _ hcall (by simp [hphase]) (own_absurd ?_)
        (fun _ => by rw [hphase]; rfl) rfl rfl
      split
      · exact own_checkEditPermission _
      · rfl
  | nodeReply i ok call hcall hphase =>
      refine .moved i call _ hcall (by simp [hphase]) (own_absurd ?_)
        (fun _ => by rw [hphase]; rfl) rfl rfl
      split
      · exact own_withNode _ _
      · rfl
  | redisReply i reply s' hstep => exact moved_of_redisReply hstep
  | appendReply i result => exact absurd rfl (he i result)
  | claimExpire => exact .same rfl rfl
  | responseExpire => exact .same rfl rfl
  | writeNode => exact .same rfl rfl
  | setMembership => exact .same rfl rfl

namespace Moved

variable {i : CallId}

/-- A call that awaits its append stays where it is. -/
theorem awaiting (h : Moved s s') (hlt : i < s.nextCall) {request : Request} {version : ℕ}
    (hcall : s.calls i = some ⟨request, .appendMarkdown version⟩) :
    s'.calls i = some ⟨request, .appendMarkdown version⟩ := by
  cases h with
  | same hcalls => rw [hcalls, hcall]
  | started call _ _ hcalls => rw [hcalls, Function.update_of_ne hlt.ne, hcall]
  | moved j call phase hcall' happend _ _ hcalls =>
      have hne : i ≠ j := by
        rintro rfl
        rw [hcall] at hcall'
        obtain rfl := Option.some.inj hcall'
        exact happend version rfl
      rw [hcalls, Function.update_of_ne hne, hcall]

theorem nextCall_le (h : Moved s s') : s.nextCall ≤ s'.nextCall := by
  cases h with
  | same _ hnext => exact hnext.ge
  | started _ _ _ _ hnext => exact hnext ▸ Nat.le_succ _
  | moved _ _ _ _ _ _ _ _ hnext => exact hnext.ge

/-- What a call reads of the table has no part in this. -/
theorem of_nodes {nodes : NodeId → Option DocManager.NodeRow}
    (h : Moved { s with nodes := nodes } s') : Moved s s' := by
  cases h with
  | same hcalls hnext => exact .same hcalls hnext
  | started call hphase happend hcalls hnext => exact .started call hphase happend hcalls hnext
  | moved i call phase hcall happend hown hbefore hcalls hnext =>
      exact .moved i call phase hcall happend hown hbefore hcalls hnext

/-- A call is new, or it was there before. -/
theorem call (h : Moved s s') {call' : Call} (hcall' : s'.calls i = some call') :
    (i = s.nextCall ∧ call'.phase.own = none) ∨
      ∃ call, s.calls i = some call ∧ call'.request = call.request ∧
        (∀ response, call'.phase.own = some response → call.phase.own = some response) ∧
        (call'.phase.beforeApply = true → call.phase.beforeApply = true) := by
  cases h with
  | same hcalls =>
      rw [hcalls] at hcall'
      exact Or.inr ⟨call', hcall', rfl, fun _ => id, id⟩
  | started call hphase _ hcalls =>
      rw [hcalls] at hcall'
      by_cases hi : i = s.nextCall
      · subst hi
        rw [Function.update_self] at hcall'
        obtain rfl := Option.some.inj hcall'
        exact Or.inl ⟨rfl, hphase⟩
      · rw [Function.update_of_ne hi] at hcall'
        exact Or.inr ⟨call', hcall', rfl, fun _ => id, id⟩
  | moved j call phase hcall _ hown hbefore hcalls =>
      rw [hcalls] at hcall'
      by_cases hi : i = j
      · subst hi
        rw [Function.update_self] at hcall'
        obtain rfl := Option.some.inj hcall'
        exact Or.inr ⟨call, hcall, rfl, hown, hbefore⟩
      · rw [Function.update_of_ne hi] at hcall'
        exact Or.inr ⟨call', hcall', rfl, fun _ => id, id⟩

/-- The calls are numbered from `0`. -/
theorem fresh (h : Moved s s') (hfresh : ∀ i call, s.calls i = some call → i < s.nextCall)
    {call : Call} (hcall : s'.calls i = some call) : i < s'.nextCall := by
  cases h with
  | same hcalls hnext =>
      rw [hcalls] at hcall
      exact hnext ▸ hfresh i call hcall
  | started call' _ _ hcalls hnext =>
      rw [hnext]
      by_cases hi : i = s.nextCall
      · exact hi ▸ Nat.lt_succ_self _
      · rw [hcalls, Function.update_of_ne hi] at hcall
        exact (hfresh i call hcall).trans (Nat.lt_succ_self _)
  | moved j call' phase hcall' _ _ _ hcalls hnext =>
      rw [hnext]
      by_cases hi : i = j
      · exact hfresh i call' (hi ▸ hcall')
      · rw [hcalls, Function.update_of_ne hi] at hcall
        exact hfresh i call hcall

end Moved

/-- A reply of Redis is for a call that awaits one. -/
theorem not_appending_of_redisReply {i : CallId} {reply : DocManager.Reply}
    (h : s.redisReply hash i reply = some s') {request : Request} {version : ℕ} :
    s.calls i ≠ some ⟨request, .appendMarkdown version⟩ := by
  intro hcall
  rw [State.redisReply, hcall] at h
  cases h

/-- The append of a call settles. -/
theorem calls_of_appendReply {i : CallId} {result : Appended}
    (h : s.appendReply i result = some s') :
    ∃ request version phase, s.calls i = some ⟨request, .appendMarkdown version⟩ ∧
      s'.calls = Function.update s.calls i (some ⟨request, phase⟩) ∧ s'.nextCall = s.nextCall ∧
      phase.beforeApply = false ∧ ∀ response, phase.own = some response →
        response.nodeId = request.nodeId ∧ ∃ update version updatedAt operationId,
          result = .resolved update version updatedAt operationId true := by
  cases State.appendReply_step h with
  | rejected call version hcall hphase =>
      obtain ⟨request, phase⟩ := call
      cases hphase
      exact ⟨request, version, _, hcall, rfl, rfl, rfl, fun _ hown => (by cases hown)⟩
  | announced call version update v updatedAt operationId hcall hphase =>
      obtain ⟨request, phase⟩ := call
      cases hphase
      refine ⟨request, version, _, hcall, rfl, rfl, ?_, fun response hown =>
        ⟨?_, _, _, _, _, rfl⟩⟩
      · cases request <;> rfl
      · cases request <;> cases hown
        rfl
  | unannounced call version update v updatedAt operationId hcall hphase =>
      obtain ⟨request, phase⟩ := call
      cases hphase
      refine ⟨request, version, _, hcall, rfl, rfl, ?_, fun _ hown => ?_⟩
      · cases request <;> rfl
      · cases request <;> cases hown

/-! ### The calls that have begun -/

/-- The calls that have begun are still there, each with its request. -/
structure Kept (s s' : State) : Prop where
  nextCall_le : s.nextCall ≤ s'.nextCall
  request : ∀ i call, s.calls i = some call → i < s.nextCall →
    ∃ call', s'.calls i = some call' ∧ call'.request = call.request

namespace Kept

/-- Only what is not in the calls has changed. -/
theorem of_eq (hcalls : s'.calls = s.calls) (hnext : s'.nextCall = s.nextCall) : Kept s s' where
  nextCall_le := hnext.ge
  request i call hcall _ := ⟨call, by rw [hcalls, hcall], rfl⟩

/-- One call has gone on. -/
theorem of_update {i : CallId} {call : Call} {phase : Phase} (hcall : s.calls i = some call)
    (hcalls : s'.calls = Function.update s.calls i (some { call with phase := phase }))
    (hnext : s'.nextCall = s.nextCall) : Kept s s' where
  nextCall_le := hnext.ge
  request j call' hcall' _ := by
    rw [hcalls]
    by_cases hj : j = i
    · subst hj
      obtain rfl : call = call' := Option.some.inj (hcall.symm.trans hcall')
      exact ⟨_, Function.update_self .., rfl⟩
    · exact ⟨call', by rw [Function.update_of_ne hj, hcall'], rfl⟩

theorem of_moved (h : Moved s s') : Kept s s' := by
  cases h with
  | same hcalls hnext => exact of_eq hcalls hnext
  | moved i call phase hcall _ _ _ hcalls hnext => exact of_update hcall hcalls hnext
  | started call _ _ hcalls hnext =>
      refine ⟨hnext ▸ Nat.le_succ _, fun i call' hcall' hlt => ⟨call', ?_, rfl⟩⟩
      rw [hcalls, Function.update_of_ne hlt.ne, hcall']

end Kept

/-- **The calls stay**, each with its request, whatever the service does. -/
theorem kept_of_step (h : step hash s e = some s') : Kept s s' := by
  by_cases happend : ∃ i result, e = .appendReply i result
  · obtain ⟨i, result, rfl⟩ := happend
    obtain ⟨request, version, phase, hcall, hcalls, hnext, -⟩ := calls_of_appendReply h
    exact .of_update hcall hcalls hnext
  · exact .of_moved (moved_of_step h fun i result he => happend ⟨i, result, he⟩)

/-! ### The version that a call has read -/

/-- The version that the call has read and goes on with. -/
def Phase.read : Phase → Option ℕ
  | .get version | .claim version | .appendMarkdown version => some version
  | _ => none

theorem Phase.read_eq_none {phase : Phase} (h : phase.beforeApply = false) :
    phase.read = none := by
  cases phase with
  | get version => cases h
  | claim version => cases h
  | appendMarkdown version => cases h
  | _ => rfl

/-- The call `i` has read the version before the step, or reads it from the table now. -/
def State.Reads (s : State) (e : Event) (i : CallId) (request : Request) (version : ℕ) : Prop :=
  (∃ call, s.calls i = some call ∧ call.request = request ∧ call.phase.read = some version) ∨
    e = .nodeReply i true ∧ (∃ call, s.calls i = some call ∧ call.request = request) ∧
      ∃ row, s.nodes request.nodeId = some row ∧ row.version = version

section Read

variable {i j : CallId} {version : ℕ}

private theorem read_checkEditPermission (membership : Option Gateway.Role) :
    (checkEditPermission membership).read = none := by
  unfold checkEditPermission
  split
  · rfl
  · split <;> rfl

private theorem read_withNode {request : Request} {nodes : NodeId → Option DocManager.NodeRow}
    (h : (request.withNode (selectNodeById nodes request.workspaceId request.nodeId)).read =
      some version) :
    ∃ row, nodes request.nodeId = some row ∧ row.version = version := by
  have hrow : ∃ row, selectNodeById nodes request.workspaceId request.nodeId = some row ∧
      row.version = version := by
    cases hexisting : selectNodeById nodes request.workspaceId request.nodeId with
    | none =>
        rw [hexisting] at h
        cases request <;> cases h
    | some row =>
        rw [hexisting] at h
        refine ⟨row, rfl, ?_⟩
        cases request with
        | operation _ _ _ _ _ =>
            simp only [Request.withNode] at h
            split at h
            · exact Option.some.inj h
            · cases h
        | patch _ _ _ _ _ =>
            simp only [Request.withNode] at h
            split at h
            · exact Option.some.inj h
            · cases h
  obtain ⟨row, hrow, hversion⟩ := hrow
  exact ⟨row, (Option.filter_eq_some_iff.mp hrow).1, hversion⟩

private theorem read_withCached {request : Request} {v : ℕ} {cached : Option CacheValue}
    (h : (request.withCached hash v cached).read = some version) : v = version := by
  unfold Request.withCached at h
  split at h
  · exact Option.some.inj h
  · split at h
    · split at h
      · cases h
      · split at h <;> cases h
    · split at h
      · cases h
      · exact Option.some.inj h

/-- One call has gone on to `phase`. -/
private theorem reads_of_update {call call' : Call} {phase : Phase}
    (hcall : s.calls i = some call)
    (hcalls : s'.calls = Function.update s.calls i (some { call with phase := phase }))
    (hphase : phase.read = some version → s.Reads e i call.request version)
    (hcall' : s'.calls j = some call') (hread : call'.phase.read = some version) :
    s.Reads e j call'.request version := by
  rw [hcalls] at hcall'
  by_cases hj : j = i
  · subst hj
    rw [Function.update_self] at hcall'
    obtain rfl := Option.some.inj hcall'
    exact hphase hread
  · rw [Function.update_of_ne hj] at hcall'
    exact Or.inl ⟨call', hcall', rfl, hread⟩

/-- No call has gone on; one may have begun. -/
private theorem reads_of_start {request : Request} {phase : Phase} {call' : Call}
    (hphase : phase.read = none)
    (hcall' : (s.start request phase).calls j = some call')
    (hread : call'.phase.read = some version) : s.Reads e j call'.request version := by
  by_cases hj : j = s.nextCall
  · subst hj
    have hself : (s.start request phase).calls s.nextCall = some ⟨request, phase⟩ :=
      Function.update_self ..
    rw [hself] at hcall'
    obtain rfl := Option.some.inj hcall'
    rw [show (Call.mk request phase).phase = phase from rfl, hphase] at hread
    cases hread
  · have hold : (s.start request phase).calls j = s.calls j := Function.update_of_ne hj ..
    rw [hold] at hcall'
    exact Or.inl ⟨call', hcall', rfl, hread⟩

private theorem reads_of_redisReply {reply : DocManager.Reply}
    (h : RedisStep hash s i reply s') {call' : Call} (hcall' : s'.calls j = some call')
    (hread : call'.phase.read = some version) : s.Reads e j call'.request version := by
  -- a phase in which the call has read nothing
  have hnone : ∀ {phase : Phase} {P : Prop}, phase.read = none → phase.read = some version → P := by
    intro phase P hphase hsome
    rw [hphase] at hsome
    cases hsome
  cases h with
  | got call v hcall hphase hs' =>
      subst hs'
      refine reads_of_update hcall rfl (fun hphase' => ?_) hcall' hread
      split at hphase'
      · obtain rfl := read_withCached hphase'
        exact Or.inl ⟨call, hcall, rfl, by rw [hphase]; rfl⟩
      · cases hphase'
  | claimed call v phase hcall hphase _ _ hphase' hs' =>
      subst hs'
      refine reads_of_update hcall rfl (fun hread' => ?_) hcall' hread
      rcases hphase' with rfl | rfl
      · exact Or.inl ⟨call, hcall, rfl, by rw [hphase]; exact hread'⟩
      · cases hread'
  | unclaimed call v phase hcall hphase hphase' hs' =>
      subst hs'
      refine reads_of_update hcall rfl (hnone ?_) hcall' hread
      rcases hphase' with rfl | rfl
      · cases call.request <;> rfl
      · rfl
  | released call error phase hcall hphase hphase' hs' =>
      subst hs'
      refine reads_of_update hcall (by split <;> rfl) (hnone ?_) hcall' hread
      rcases hphase' with rfl | rfl
      · cases call.request <;> rfl
      · rfl
  | stored call response hcall hphase _ hs' =>
      subst hs'
      exact reads_of_update hcall rfl (hnone rfl) hcall' hread
  | notStored call response hcall hphase hs' =>
      subst hs'
      exact reads_of_update hcall rfl (hnone rfl) hcall' hread

/-- **A call reads its row once**, and carries the version along. -/
theorem read_of_step (h : step hash s e = some s') {call' : Call}
    (hcall' : s'.calls j = some call') (hread : call'.phase.read = some version) :
    s.Reads e j call'.request version := by
  cases step_cases h with
  | refused => exact Or.inl ⟨call', hcall', rfl, hread⟩
  | execute => exact reads_of_start rfl hcall' hread
  | ignored => exact Or.inl ⟨call', hcall', rfl, hread⟩
  | patch => exact reads_of_start rfl hcall' hread
  | membershipReply i ok call hcall _ =>
      refine reads_of_update hcall rfl (fun hphase => ?_) hcall' hread
      split at hphase
      · rw [read_checkEditPermission] at hphase
        cases hphase
      · cases hphase
  | nodeReply i ok call hcall _ =>
      refine reads_of_update hcall rfl (fun hphase => ?_) hcall' hread
      split at hphase
      · next hok => exact Or.inr ⟨by rw [hok], ⟨call, hcall, rfl⟩, read_withNode hphase⟩
      · cases hphase
  | redisReply i reply s' hstep => exact reads_of_redisReply hstep hcall' hread
  | appendReply i result =>
      obtain ⟨request, v, phase, hcall, hcalls, -, hbefore, -⟩ := calls_of_appendReply h
      refine reads_of_update hcall hcalls (fun hphase => ?_) hcall' hread
      rw [Phase.read_eq_none hbefore] at hphase
      cases hphase
  | claimExpire => exact Or.inl ⟨call', hcall', rfl, hread⟩
  | responseExpire => exact Or.inl ⟨call', hcall', rfl, hread⟩
  | writeNode => exact Or.inl ⟨call', hcall', rfl, hread⟩
  | setMembership => exact Or.inl ⟨call', hcall', rfl, hread⟩

end Read

end AideepWebsocket.NodeContent
