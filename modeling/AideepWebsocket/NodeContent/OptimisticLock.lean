import AideepWebsocket.DocManager.Commits
import AideepWebsocket.DocManager.Serial
import AideepWebsocket.DocManager.Skips
import AideepWebsocket.NodeContent.Moves
import AideepWebsocket.NodeContent.Server

/-!
# Is `expectedVersion` an optimistic lock?

`expectedVersion` is compared with the version that the call has read when it began.
Nothing compares it again: the append waits its turn in the queue, and the transaction of
its flush increments whatever version it finds.  So a flush of the node that commits in
between goes unnoticed (`overtakenRun_notVersioned`).

The lock holds in the runs in which nobody gets in between (`along_versioned`).  A call is
*open* from the answer of `selectNodeById` until the transaction of its own append has
ended.  `Undisturbed` asks three things of the events: when the answer comes, no
transaction of the node is under way; while the call is open, no other flush starts that
saves the node, and no other writer touches its row; and the append of the call has
something to save.

Two facts carry the proof.  While a call is open, the row has the version that the call
has read, and only its own append may write it (`Inv.lock`).  And a task brings the
version that its transaction has left through the save and the flush to the call that
awaits it (`Inv.tasks`).
-/

namespace AideepWebsocket

open Library

/-! ### The manager -/

namespace DocManager

variable {lex : Lexical} {s s' : State} {e : Event}

/-- A task that has not written its row yet: it waits, it loads its document, or its
transaction is under way. -/
def Phase.unwritten (saves : SaveId → Option SaveCall) : Phase → Bool
  | .queued | .loadingDoc _ => true
  | .saving _ save _ _ _ => (saves save).any fun c => decide (c.phase = .updateNodeRow)
  | _ => false

/-- Nothing is left to write for a task that has settled. -/
private theorem Phase.not_unwritten {saves : SaveId → Option SaveCall} {phase : Phase}
    (h : phase.stage = .settled) : phase.unwritten saves = false := by
  cases phase with
  | settled result => rfl
  | returned result => rfl
  | _ => cases h

def State.Unwritten (s : State) (t : TaskId) : Prop :=
  ∃ entry ∈ s.queue.task t, entry.payload.phase.unwritten s.saves = true

instance (s : State) (t : TaskId) : Decidable (s.Unwritten t) := by
  unfold State.Unwritten
  infer_instance

private theorem unwritten_saving {saves : SaveId → Option SaveCall} {r : DocRef} {save : SaveId}
    {sv : StateVector} {redis : Option Bool} {failure : Option Failure} :
    (Phase.saving r save sv redis failure).unwritten saves = true ↔
      ∃ c, saves save = some c ∧ c.phase = .updateNodeRow := by
  simp [Phase.unwritten, Option.any_eq_true]

/-- A transaction that a task awaits was under way before. -/
private theorem unwritten_of_saving (hI : Inv s) (h : step lex s e = some s') {t : TaskId}
    {entry : ChainTask NodeId Task} {r : DocRef} {save : SaveId} {sv : StateVector}
    {redis redis' : Option Bool} {failure failure' : Option Failure}
    (htask : s.queue.task t = some entry)
    (hphase : entry.payload.phase = .saving r save sv redis failure)
    (hu : (Phase.saving r save sv redis' failure').unwritten s'.saves = true) :
    entry.payload.phase.unwritten s.saves = true := by
  obtain ⟨c', hc', hupdating⟩ := unwritten_saving.mp hu
  rw [hphase, unwritten_saving]
  rcases transaction_of_step h hc' hupdating with hc | ⟨rfl, -⟩
  · exact ⟨c', hc, hupdating⟩
  · obtain ⟨c, hc, -⟩ := hI.saving htask hphase
    exact absurd (hI.save_lt hc) (lt_irrefl _)

/-- What is unwritten now was unwritten before. -/
theorem State.Unwritten.before {t : TaskId} (hu : s'.Unwritten t) (hI : Inv s)
    (h : step lex s e = some s') {entry : ChainTask NodeId Task}
    (htask : s.queue.task t = some entry) : s.Unwritten t := by
  obtain ⟨entry', hentry', hu⟩ := hu
  obtain ⟨entry₁, hentry₁, -, hstep⟩ := step_task h htask
  obtain rfl : entry' = entry₁ := Option.some.inj (Option.mem_def.mp hentry' ▸ hentry₁)
  refine ⟨entry, htask, ?_⟩
  -- a flush starts in a task that has waited or has loaded its document
  have hstart : (entry.payload.phase = .queued ∨
      ∃ await, entry.payload.phase = .loadingDoc await) →
      entry.payload.phase.unwritten s.saves = true := by
    rintro (hphase | ⟨await, hphase⟩) <;> rw [hphase] <;> rfl
  generalize entry'.payload = x at hstep hu
  cases hstep with
  | stay =>
      cases hphase : entry.payload.phase with
      | saving r save sv redis failure =>
          rw [hphase] at hu
          rw [← hphase]
          exact unwritten_of_saving hI h htask hphase hu
      | queued => rfl
      | loadingDoc await => rfl
      | _ =>
          rw [hphase] at hu
          cases hu
  | load await _ hphase => exact hstart (Or.inl hphase)
  | fail x failure _ _ hphase' =>
      rw [hphase'] at hu
      cases hu
  | skip x r persisted _ _ hphase => exact hstart hphase
  | save x c _ _ hphase => exact hstart hphase
  | saveReplied r save sv ok f f' hphase => exact unwritten_of_saving hI h htask hphase hu
  | saveRejected r save sv redis f f' hphase => exact unwritten_of_saving hI h htask hphase hu
  | saved r save sv persisted phase _ _ hphase' =>
      rcases hphase' with rfl | ⟨job, rfl⟩ <;> cases hu
  | gone _ =>
      obtain ⟨result, hresult⟩ := TaskStep.phase_goneTask entry.payload
      rw [hresult] at hu
      cases hu
  | _ => cases hu

/-- The task of a transaction that has not settled awaits it. -/
theorem SavesTasked.awaits (hT : SavesTasked s) {save : SaveId} {c : SaveCall}
    (hc : s.saves save = some c) (hphase : c.phase = .updateNodeRow) :
    ∃ entry, s.queue.task c.task = some entry ∧ entry.key = c.nodeId ∧
      (entry.payload.stage = .running → entry.payload.phase.unwritten s.saves = true) := by
  obtain ⟨entry, hentry, hkey, hcase⟩ := hT save c hc (by rw [hphase]; rfl)
  refine ⟨entry, hentry, hkey, fun hrunning => ?_⟩
  rcases hcase with hsettled | ⟨r, sv, redis, failure, hsaving⟩
  · rw [hsettled] at hrunning
    cases hrunning
  · rw [hsaving, unwritten_saving]
    exact ⟨c, hc, hphase⟩

private theorem updateNodeRow_ends {save : SaveId} {reply : Reply} {now : ℕ}
    (h : s.updateNodeRow save reply now = some s') {c : SaveCall} (hc : s'.saves save = some c) :
    c.phase ≠ .updateNodeRow := by
  -- the call goes on to one of these phases
  have hmoved : ∀ (c₀ : SaveCall) (phase : SavePhase), phase ≠ .updateNodeRow →
      s'.saves = Function.update s.saves save (some { c₀ with phase := phase }) →
      c.phase ≠ .updateNodeRow := by
    intro c₀ phase hphase hsaves
    rw [hsaves, Function.update_self] at hc
    rw [← Option.some.inj hc]
    exact hphase
  obtain ⟨c₀, -, -, ⟨-, rfl⟩ | ⟨-, -, rfl⟩ | ⟨row, -, -, ⟨-, rfl⟩ | ⟨-, rfl⟩⟩⟩ :=
    State.updateNodeRow_cases s h
  · exact hmoved c₀ (.rejected false) SavePhase.noConfusion (by simp)
  · exact hmoved c₀ (.rejected false) SavePhase.noConfusion (by simp)
  · exact hmoved c₀ _ SavePhase.noConfusion rfl
  · exact hmoved c₀ (.rejected true) SavePhase.noConfusion (by simp)

/-- A task whose transaction ends has written its row. -/
theorem not_unwritten_of_updateNodeRow (hT : SavesTasked s) {save : SaveId} {reply : Reply}
    {now : ℕ} (h : step lex s (.updateNodeRow save reply now) = some s')
    {c : SaveCall} (hc : s.saves save = some c) : ¬ s'.Unwritten c.task := by
  intro hu
  obtain ⟨entry, hentry, -, hcase⟩ :=
    hT save c hc (by rw [phase_of_updateNodeRow h hc]; rfl)
  obtain ⟨entry', hentry', hu⟩ := hu
  obtain ⟨entry₁, hentry₁, -, hstep⟩ := step_task h hentry
  obtain rfl : entry' = entry₁ := Option.some.inj (Option.mem_def.mp hentry' ▸ hentry₁)
  rcases hcase with hstage | ⟨r, sv, redis, failure, hsaving⟩
  · rw [Phase.not_unwritten (hstep.of_settled hstage)] at hu
    cases hu
  · rcases hstep.of_saving hsaving with hstage | ⟨redis', failure', hphase⟩ | ⟨p, job, hphase, -⟩
    · rw [Phase.not_unwritten hstage] at hu
      cases hu
    · rw [hphase] at hu
      obtain ⟨c', hc', hupdating⟩ := unwritten_saving.mp hu
      exact updateNodeRow_ends h hc' hupdating
    · rw [hphase] at hu
      cases hu

end DocManager

/-! ### The calls -/

namespace NodeContent

open DocManager (NodeRow Reply TaskId SaveId)
open Gateway (Role)

section Calls

variable {hash : NodeContentOperationBody → String} {s s' : State} {e : Event}

/-- What a call that expects the version `v` has brought along: it was compared when
the key was looked up, and the response leads to the next. -/
def Phase.After (v : ℕ) : Phase → Prop
  | .claim version | .appendMarkdown version => version = v
  | .store response | .returned (.ok (some response)) =>
      response.duplicate = false → response.previousVersion = v ∧ response.version = v + 1
  | _ => True

/-- The response that a call has returned. -/
def Phase.response : Phase → Option NodeContentOperationResponse
  | .returned (.ok response) => response
  | _ => none

private theorem Phase.returned_of_response {phase : Phase}
    {response : NodeContentOperationResponse} (h : phase.response = some response) :
    phase = .returned (.ok (some response)) := by
  unfold Phase.response at h
  split at h
  · rw [h]
  · cases h

/-- Every call has brought along what it expects. -/
def State.CallsAfter (s : State) : Prop :=
  ∀ i call v, s.calls i = some call → call.request.expectedVersion = some v → call.phase.After v

private theorem State.CallsAfter.setPhase (hA : s.CallsAfter) {i : CallId} {call : Call}
    {phase : Phase} (hphase : ∀ v, call.request.expectedVersion = some v → phase.After v) :
    (s.setPhase i call phase).CallsAfter := by
  intro j x v hx hv
  by_cases hj : j = i
  · subst hj
    have hself : (s.setPhase j call phase).calls j = some { call with phase := phase } :=
      Function.update_self ..
    rw [hself] at hx
    obtain rfl := Option.some.inj hx
    exact hphase v hv
  · have hold : (s.setPhase i call phase).calls j = s.calls j := Function.update_of_ne hj ..
    rw [hold] at hx
    exact hA j x v hx hv

private theorem State.CallsAfter.start (hA : s.CallsAfter) {request : Request} {phase : Phase}
    (hphase : ∀ v, phase.After v) : (s.start request phase).CallsAfter := by
  intro j x v hx hv
  by_cases hj : j = s.nextCall
  · subst hj
    have hself : (s.start request phase).calls s.nextCall = some ⟨request, phase⟩ :=
      Function.update_self ..
    rw [hself] at hx
    obtain rfl := Option.some.inj hx
    exact hphase v
  · have hold : (s.start request phase).calls j = s.calls j := Function.update_of_ne hj ..
    rw [hold] at hx
    exact hA j x v hx hv

private theorem after_checkEditPermission (membership : Option Role) (v : ℕ) :
    (checkEditPermission membership).After v := by
  unfold checkEditPermission
  split
  · trivial
  · split <;> trivial

private theorem after_withNode {request : Request} {v : ℕ} (hv : request.expectedVersion = some v)
    (existing : Option NodeRow) : (request.withNode existing).After v := by
  cases request with
  | patch _ _ _ _ _ => cases hv
  | operation _ _ _ _ _ =>
      cases existing with
      | none => trivial
      | some row =>
          unfold Request.withNode
          dsimp only
          split <;> trivial

/-- The comparison with the version that the call has read. -/
private theorem after_withCached {request : Request} {v : ℕ}
    (hv : request.expectedVersion = some v) (version : ℕ) (cached : Option CacheValue) :
    (request.withCached hash version cached).After v := by
  cases request with
  | patch _ _ _ _ _ => cases hv
  | operation _ _ _ _ body =>
      have hv : body.expectedVersion = some v := hv
      cases cached with
      | none =>
          unfold Request.withCached
          dsimp only
          split
          · trivial
          · next hsame =>
              rw [hv] at hsame
              have hversion : v = version := by simpa using hsame
              exact hversion.symm
      | some value =>
          unfold Request.withCached
          dsimp only
          split
          · trivial
          · split
            · intro hduplicate
              cases hduplicate
            · trivial

private theorem callsAfter_of_redisReply (hA : s.CallsAfter) {i : CallId} {reply : Reply}
    (h : RedisStep hash s i reply s') : s'.CallsAfter := by
  have hcache : ∀ key entry, (s.setCache key entry).CallsAfter := fun _ _ => hA
  cases h with
  | got call version hcall hphase hs' =>
      subst hs'
      refine hA.setPhase fun v hv => ?_
      split
      · exact after_withCached hv version _
      · trivial
  | claimed call version phase hcall hphase _ _ hphase' hs' =>
      subst hs'
      refine (hcache _ _).setPhase fun v hv => ?_
      have hold := hA i call v hcall hv
      rw [hphase] at hold
      rcases hphase' with rfl | rfl
      · exact hold
      · trivial
  | unclaimed call version phase hcall hphase hphase' hs' =>
      subst hs'
      refine hA.setPhase fun v hv => ?_
      rcases hphase' with rfl | rfl
      · cases call.request <;> trivial
      · trivial
  | released call error phase hcall hphase hphase' hs' =>
      have hafter : ∀ v, phase.After v := by
        intro v
        rcases hphase' with rfl | rfl
        · cases call.request <;> trivial
        · trivial
      subst hs'
      split
      · exact (hcache _ _).setPhase fun v _ => hafter v
      · exact hA.setPhase fun v _ => hafter v
  | stored call response hcall hphase _ hs' =>
      subst hs'
      refine (hcache _ _).setPhase fun v hv => ?_
      have hold := hA i call v hcall hv
      rw [hphase] at hold
      split
      · exact hold
      · trivial
  | notStored call response hcall hphase hs' =>
      subst hs'
      exact hA.setPhase fun _ _ => trivial

/-- The calls, apart from the resumption of an append. -/
private theorem callsAfter_of_step (hA : s.CallsAfter) (h : step hash s e = some s')
    (he : ∀ i result, e ≠ .appendReply i result) : s'.CallsAfter := by
  cases step_cases h with
  | refused => exact hA
  | execute => exact hA.start fun _ => trivial
  | ignored => exact hA
  | patch => exact hA.start fun _ => trivial
  | membershipReply i ok call hcall hphase =>
      refine hA.setPhase fun v _ => ?_
      split
      · exact after_checkEditPermission _ v
      · trivial
  | nodeReply i ok call hcall hphase =>
      refine hA.setPhase fun v hv => ?_
      split
      · exact after_withNode hv _
      · trivial
  | redisReply i reply s' hstep => exact callsAfter_of_redisReply hA hstep
  | appendReply i result => exact absurd rfl (he i result)
  | claimExpire => exact hA
  | responseExpire => exact hA
  | writeNode => exact hA
  | setMembership => exact hA

/-- The append of a call has settled; if it has resolved, then with the next version. -/
private theorem callsAfter_of_appendReply (hA : s.CallsAfter) {i : CallId} {result : Appended}
    (h : s.appendReply i result = some s')
    (hresult : ∀ update version updatedAt operationId ok,
      result = .resolved update version updatedAt operationId ok →
      ∀ call v, s.calls i = some call → call.request.expectedVersion = some v →
        version = v + 1) : s'.CallsAfter := by
  cases State.appendReply_step h with
  | rejected call version hcall hphase => exact hA.setPhase fun _ _ => trivial
  | announced call previousVersion update version updatedAt operationId hcall hphase =>
      refine State.CallsAfter.setPhase (s := { s with
        applied := s.applied ++ [i]
        broadcasts := s.broadcasts ++ [(call.request.nodeId, update)] }) hA fun v hv => ?_
      have hprevious : previousVersion = v := by
        have hold := hA i call v hcall hv
        rw [hphase] at hold
        exact hold
      have hversion := hresult _ _ _ _ _ rfl call v hcall hv
      cases hrequest : call.request with
      | patch _ _ _ _ _ =>
          rw [hrequest] at hv
          cases hv
      | operation _ _ _ _ _ => exact fun _ => ⟨hprevious, hversion⟩
  | unannounced call previousVersion update version updatedAt operationId hcall hphase =>
      have happlied : ({ s with applied := s.applied ++ [i] } : State).CallsAfter := hA
      refine happlied.setPhase fun v _ => ?_
      cases call.request <;> trivial

/-- A call is new, or it was there before with the same request. -/
private theorem request_of_step (h : step hash s e = some s') :
    s.nextCall ≤ s'.nextCall ∧ ∀ i call', s'.calls i = some call' →
      (i = s.nextCall ∧ s'.nextCall = s.nextCall + 1) ∨
      ∃ call, s.calls i = some call ∧ call'.request = call.request := by
  have hmoved : ∀ {j : CallId} {x : Call} {phase : Phase}, s.calls j = some x →
      s'.calls = Function.update s.calls j (some { x with phase := phase }) →
      ∀ i call', s'.calls i = some call' →
        ∃ call, s.calls i = some call ∧ call'.request = call.request := by
    intro j x phase hx hcalls i call' hcall'
    rw [hcalls] at hcall'
    by_cases hi : i = j
    · subst hi
      rw [Function.update_self] at hcall'
      obtain rfl := Option.some.inj hcall'
      exact ⟨x, hx, rfl⟩
    · rw [Function.update_of_ne hi] at hcall'
      exact ⟨call', hcall', rfl⟩
  cases callStep_of_step h with
  | world hcalls hnext _ _ =>
      refine ⟨hnext.ge, fun i call' hcall' => Or.inr ⟨call', ?_, rfl⟩⟩
      rw [← hcalls]
      exact hcall'
  | started call _ hcalls hnext _ _ =>
      refine ⟨hnext ▸ Nat.le_succ _, fun i call' hcall' => ?_⟩
      rw [hcalls] at hcall'
      by_cases hi : i = s.nextCall
      · exact Or.inl ⟨hi, hnext⟩
      · rw [Function.update_of_ne hi] at hcall'
        exact Or.inr ⟨call', hcall', rfl⟩
  | moved j x phase hx _ _ hcalls hnext _ _ =>
      exact ⟨hnext.ge, fun i call' hcall' => Or.inr (hmoved hx hcalls i call' hcall')⟩
  | claimed j x phase reply value _ _ hx _ _ hcalls hnext _ _ =>
      exact ⟨hnext.ge, fun i call' hcall' => Or.inr (hmoved hx hcalls i call' hcall')⟩
  | applied j x phase version hx _ _ hcalls hnext _ _ =>
      exact ⟨hnext.ge, fun i call' hcall' => Or.inr (hmoved hx hcalls i call' hcall')⟩
  | wrote j x phase reply entry _ hx _ _ _ _ hcalls hnext _ _ =>
      exact ⟨hnext.ge, fun i call' hcall' => Or.inr (hmoved hx hcalls i call' hcall')⟩

end Calls

/-! ### The server -/

namespace Server

variable {lex : Lexical} {hash : NodeContentOperationBody → String} {s s' : Server}
  {e : ServerEvent}

/-- The version that the call awaiting the task expects. -/
def expected (s : Server) (t : TaskId) : Option ℕ :=
  (s.appends t).bind fun i => (s.service.calls i).bind fun call => call.request.expectedVersion

/-- **An optimistic lock**: what a call with an `expectedVersion` has returned as
its own append leads from that version to the next. -/
def Versioned (s : Server) : Prop :=
  ∀ i call v response, s.service.calls i = some call → call.request.expectedVersion = some v →
    call.phase = .returned (.ok (some response)) → response.duplicate = false →
      response.previousVersion = v ∧ response.version = v + 1

/-- The call has not written the row yet. -/
def Uncommitted (s : Server) (i : CallId) : Prop :=
  ∀ t < s.manager.queue.next, s.appends t = some i → s.manager.Unwritten t

/-- The call is open: it has read the version of the row that it expects, and has not
written the row yet. -/
def Open (s : Server) (i : CallId) (n : NodeId) : Prop :=
  ∃ call ∈ s.service.calls i, call.request.nodeId = n ∧ call.request.expectedVersion ≠ none ∧
    call.phase.read ≠ none ∧ s.Uncommitted i

instance (s : Server) (i : CallId) (n : NodeId) : Decidable (s.Open i n) := by
  unfold Open Uncommitted
  infer_instance

/-- A flush that starts in this step is that of the one call that is open, if it saves the
node; and the append of a call that expects a version has something to save. -/
def FlushesOwn (lex : Lexical) (s : Server) (t : TaskId) (e : DocManager.Event) : Prop :=
  ∀ p ∈ s.manager.flushed lex e, p.2.docs p.1 ≠ none →
    if p.2.UpToDate p.1 then s.expected t = none
    else ∀ i < s.service.nextCall, s.Open i p.1 → s.appends t = some i

/-- No transaction is under way of the row that the call is about to read. -/
def Quiet (s : Server) (i : CallId) : Prop :=
  ∀ call ∈ s.service.calls i, call.request.expectedVersion ≠ none →
    ∀ save < s.manager.nextSave, ∀ c ∈ s.manager.saves save,
      c.nodeId = call.request.nodeId → c.phase ≠ .updateNodeRow

/-- Nobody gets between an open call and its row. -/
def Undisturbed (lex : Lexical) (s : Server) (e : ServerEvent) : Prop :=
  match e with
  | .service (.nodeReply i true) => s.Quiet i
  | .manager (.writeNode n _) | .manager (.deleteNode n) =>
      ∀ i < s.service.nextCall, ¬ s.Open i n
  | .manager (.startTask t) => s.FlushesOwn lex t (.startTask t)
  | .manager (.resumeAppend t clientId) => s.FlushesOwn lex t (.resumeAppend t clientId)
  | _ => True

instance (lex : Lexical) (s : Server) (e : ServerEvent) : Decidable (Undisturbed lex s e) := by
  unfold Undisturbed Quiet FlushesOwn
  split <;> infer_instance

/-- The call `i` awaits the append that the task `t` carries out for it. -/
def Awaits (s : Server) (t : TaskId) (i : CallId) : Prop :=
  ∃ request version entry, s.service.calls i = some ⟨request, .appendMarkdown version⟩ ∧
    s.manager.queue.task t = some entry ∧ entry.key = request.nodeId

/-- The row of the node has the version that the call has read, and only the append of the
call may write it. -/
structure LockedBy (s : Server) (i : CallId) (n : NodeId) (v : ℕ) : Prop where
  row : ∀ row, s.manager.nodes n = some row → row.version = v
  save : ∀ save c, s.manager.saves save = some c → c.nodeId = n → c.phase = .updateNodeRow →
    s.appends c.task = some i

/-- **The invariant.** -/
structure Inv (s : Server) : Prop where
  manager : DocManager.Inv s.manager
  saves : DocManager.SavesTasked s.manager
  fresh : ∀ i call, s.service.calls i = some call → i < s.service.nextCall
  awaits : ∀ t i, s.appends t = some i → s.Awaits t i
  once : ∀ t t' i, s.appends t = some i → s.appends t' = some i → t = t'
  calls : s.service.CallsAfter
  /-- A call that is open holds the lock. -/
  lock : ∀ i call v, s.service.calls i = some call → call.request.expectedVersion ≠ none →
    call.phase.read = some v → s.Uncommitted i → s.LockedBy i call.request.nodeId v
  /-- A task that a call awaits brings along what the call expects. -/
  tasks : ∀ t entry v, s.expected t = some v → s.manager.queue.task t = some entry →
    entry.payload.After s.manager v

theorem inv_init (nodes : NodeId → Option NodeRow)
    (memberships : UserId → WorkspaceId → Option Role) : Inv (init nodes memberships) where
  manager := DocManager.inv_init nodes
  saves i c h := by cases h
  fresh i call h := by cases h
  awaits t i h := by cases h
  once t t' i h := by cases h
  calls i call v h := by cases h
  lock i call v h := by cases h
  tasks t entry v h := by cases h

theorem expected_eq_some {t : TaskId} {v : ℕ} : s.expected t = some v ↔
    ∃ i call, s.appends t = some i ∧ s.service.calls i = some call ∧
      call.request.expectedVersion = some v := by
  simp [expected, Option.bind_eq_some_iff]

namespace Inv

/-- The call that awaits a task is not a new one. -/
private theorem appends_lt (hI : Inv s) {t : TaskId} {i : CallId} (hi : s.appends t = some i) :
    i < s.service.nextCall := by
  obtain ⟨request, version, entry, hcall, -⟩ := hI.awaits t i hi
  exact hI.fresh i _ hcall

/-! #### The manager takes a step -/

section Manager

variable {e' : DocManager.Event} {manager : DocManager.State}

/-- A call that is uncommitted was so before. -/
private theorem uncommitted_before (hI : Inv s)
    (h : DocManager.step lex s.manager e' = some manager) {i : CallId}
    (hu : Uncommitted { s with manager := manager } i) : s.Uncommitted i := by
  intro t _ hi
  obtain ⟨request, version, entry, -, htask, -⟩ := hI.awaits t i hi
  obtain ⟨entry', htask', -⟩ := DocManager.step_task h htask
  have hunwritten : manager.Unwritten t := hu t (manager.queue.lt_next htask') hi
  exact hunwritten.before hI.manager h htask

/-- The transaction of the call's own append finds the row as the call has found it. -/
private theorem version_of_own (hI : Inv s) {save : SaveId} {now : ℕ}
    (h : DocManager.step lex s.manager (.updateNodeRow save .ok now) = some manager)
    {c : DocManager.SaveCall} (hc : s.manager.saves save = some c)
    {entry : ChainTask NodeId DocManager.Task} (htask : s.manager.queue.task c.task = some entry)
    (hrunning : entry.payload.stage = .running) {v : ℕ} (hv : s.expected c.task = some v)
    {row : NodeRow} (hrow : s.manager.nodes c.nodeId = some row) : row.version = v := by
  obtain ⟨i, call, hi, hcall, hversion⟩ := expected_eq_some.mp hv
  obtain ⟨request, version, entry₁, hcall₁, htask₁, hkey⟩ := hI.awaits c.task i hi
  obtain rfl := Option.some.inj (hcall.symm.trans hcall₁)
  obtain rfl := Option.some.inj (htask.symm.trans htask₁)
  obtain ⟨entry₂, htask₂, hnode, hunwritten⟩ :=
    hI.saves.awaits hc (DocManager.phase_of_updateNodeRow h hc)
  obtain rfl := Option.some.inj (htask.symm.trans htask₂)
  have huncommitted : s.Uncommitted i := by
    intro t _ ht
    obtain rfl := hI.once t c.task i ht hi
    exact ⟨entry, htask, hunwritten hrunning⟩
  -- the version that it has read is the one that it expects
  have hread : version = v := hI.calls i _ v hcall hversion
  have hlock := hI.lock i _ version hcall (Option.ne_none_iff_exists'.mpr ⟨v, hversion⟩) rfl
    huncommitted
  rw [← hread]
  refine hlock.row row ?_
  rwa [← hkey, hnode]

/-- A call that stays open keeps the lock. -/
private theorem lockedBy_of_manager (hI : Inv s)
    (h : DocManager.step lex s.manager e' = some manager)
    (hguard : Undisturbed lex s (.manager e')) {i : CallId} {call : Call} {v : ℕ}
    (hcall : s.service.calls i = some call) (hversion : call.request.expectedVersion ≠ none)
    (hread : call.phase.read = some v) (hu : Uncommitted { s with manager := manager } i) :
    LockedBy { s with manager := manager } i call.request.nodeId v := by
  have hu₀ := hI.uncommitted_before h hu
  have hlock := hI.lock i call v hcall hversion hread hu₀
  have hopen : s.Open i call.request.nodeId :=
    ⟨call, hcall, rfl, hversion, Option.ne_none_iff_exists'.mpr ⟨v, hread⟩, hu₀⟩
  have hlt := hI.fresh i call hcall
  constructor
  · intro row hrow
    have hrow : manager.nodes call.request.nodeId = some row := hrow
    rcases DocManager.row_cases h call.request.nodeId with
      hsame | ⟨row', rfl, -⟩ | ⟨rfl, -⟩ | ⟨save, reply, now, c, row', hupdated⟩
    · exact hlock.row row (hsame ▸ hrow)
    · exact absurd hopen (hguard i hlt)
    · exact absurd hopen (hguard i hlt)
    · -- its own transaction has ended, so it is not open any more
      obtain rfl := hupdated.event
      have hi := hlock.save save c hupdated.save hupdated.node hupdated.phase
      obtain ⟨request, version, entry, -, htask, -⟩ := hI.awaits c.task i hi
      obtain ⟨entry', htask', -⟩ := DocManager.step_task h htask
      have hunwritten : manager.Unwritten c.task := hu c.task (manager.queue.lt_next htask') hi
      exact absurd hunwritten (DocManager.not_unwritten_of_updateNodeRow hI.saves h hupdated.save)
  · intro save c hc hnode hphase
    rcases DocManager.transaction_of_step h hc hphase with hold | ⟨-, hcalled⟩
    · exact hlock.save save c hold hnode hphase
    · -- a flush that starts and saves is its own
      obtain ⟨mem, hflushed, hmem⟩ := hcalled.flushed h
      have hdocs : mem.docs c.nodeId = some c.ref := by rw [← hmem.docs, hcalled.docs]
      have hnot : ¬ mem.UpToDate c.nodeId := by
        rintro ⟨r, hr, hunchanged⟩
        obtain rfl : c.ref = r := Option.some.inj (hdocs.symm.trans hr)
        rw [← hmem.unchanged, hcalled.changed] at hunchanged
        cases hunchanged
      have hown : s.FlushesOwn lex c.task e' := by
        rcases hcalled.event with rfl | ⟨clientId, rfl⟩
        · exact hguard
        · exact hguard
      have hflush := hown _ hflushed (hdocs ▸ Option.some_ne_none c.ref)
      rw [if_neg hnot] at hflush
      exact hflush i hlt (hnode ▸ hopen)

/-- An append that a call with an `expectedVersion` awaits does not skip. -/
private theorem not_skips (h : DocManager.step lex s.manager e' = some manager)
    (hguard : Undisturbed lex s (.manager e')) {t : TaskId} {v : ℕ} (hv : s.expected t = some v)
    (he : e' = .startTask t ∨ ∃ clientId, e' = .resumeAppend t clientId)
    {entry entry' : ChainTask NodeId DocManager.Task} (htask : s.manager.queue.task t = some entry)
    (hbefore : entry.payload.phase.refreshes = false)
    (htask' : manager.queue.task t = some entry') : entry'.payload.phase.refreshes = false := by
  by_contra hrefreshes
  obtain ⟨entry₁, htask₁, hkey, -⟩ := DocManager.step_task h htask
  obtain rfl := Option.some.inj (htask'.symm.trans htask₁)
  have hskips : s.manager.Skips lex e' entry.key := by
    refine (DocManager.skips_iff h).mp ⟨t, ⟨entry', htask', hkey, by simpa using hrefreshes⟩, ?_⟩
    rintro ⟨entry₂, htask₂, -, hrefreshes₂⟩
    obtain rfl := Option.some.inj (htask.symm.trans htask₂)
    rw [hbefore] at hrefreshes₂
    cases hrefreshes₂
  obtain ⟨⟨n, mem⟩, hflushed, rfl, hsaved⟩ := hskips
  have hdocs : mem.docs entry.key ≠ none := by
    obtain ⟨r, hr, -⟩ := hsaved
    exact Option.ne_none_iff_exists'.mpr ⟨r, hr⟩
  have hown : s.FlushesOwn lex t e' := by
    rcases he with rfl | ⟨clientId, rfl⟩
    · exact hguard
    · exact hguard
  have hnone := hown _ hflushed hdocs
  rw [if_pos hsaved, hv] at hnone
  cases hnone

/-- The manager takes a step. -/
private theorem of_manager (hI : Inv s) (h : DocManager.step lex s.manager e' = some manager)
    (hguard : Undisturbed lex s (.manager e')) : Inv { s with manager := manager } where
  manager := hI.manager.step h
  saves := DocManager.savesTasked_step hI.saves h
  fresh := hI.fresh
  awaits t i hi := by
    obtain ⟨request, version, entry, hcall, htask, hkey⟩ := hI.awaits t i hi
    obtain ⟨entry', htask', hkey', -⟩ := DocManager.step_task h htask
    exact ⟨request, version, entry', hcall, htask', hkey'.trans hkey⟩
  once := hI.once
  calls := hI.calls
  lock i call v hcall hversion hread hu :=
    hI.lockedBy_of_manager h hguard hcall hversion hread hu
  tasks t entry' v hv htask' := by
    have hv : s.expected t = some v := hv
    have htask' : manager.queue.task t = some entry' := htask'
    rcases (DocManager.step_queue h).task htask' with ⟨entry, htask, -, hstep⟩ | ⟨-, kind, hnew⟩
    · have hafter := hI.tasks t entry v hv htask
      refine hafter.step hI.manager h htask hstep ?_ ?_
      · intro he r persisted redis hphase
        have hbefore : entry.payload.phase.refreshes = false := by
          cases hphase₀ : entry.payload.phase with
          | refreshing r persisted redis => simp only [DocManager.Task.After, hphase₀] at hafter
          | _ => rfl
        have hnot := not_skips h hguard hv he htask hbefore htask'
        rw [hphase] at hnot
        cases hnot
      · rintro save now c row rfl hc rfl hrunning hrow
        exact hI.version_of_own h hc htask hrunning hv hrow
    · rw [hnew]
      trivial

end Manager

/-! #### The service takes a step -/

/-- What is expected of a task is what the call has brought along from the start. -/
private theorem expected_of_step (hI : Inv s) {service : State} (nodes : NodeId → Option NodeRow)
    {e' : Event} (h : NodeContent.step hash { s.service with nodes := nodes } e' = some service)
    {t : TaskId} {v : ℕ} (manager : DocManager.State)
    (hv : expected ⟨manager, service, s.appends⟩ t = some v) : s.expected t = some v := by
  obtain ⟨i, call', hi, hcall', hversion⟩ := expected_eq_some.mp hv
  rcases (request_of_step h).2 i call' hcall' with ⟨rfl, -⟩ | ⟨call, hcall, hrequest⟩
  · exact absurd (hI.appends_lt hi) (lt_irrefl _)
  · exact expected_eq_some.mpr ⟨i, call, hi, hcall, hrequest ▸ hversion⟩

/-- The calls take a step; the manager and the appends are left alone. -/
private theorem of_service (hI : Inv s) {service : State} (nodes : NodeId → Option NodeRow)
    {e' : Event} (he : ∀ i result, e' ≠ .appendReply i result)
    (h : NodeContent.step hash { s.service with nodes := nodes } e' = some service)
    (hguard : ∀ i, e' = .nodeReply i true → nodes = s.manager.nodes ∧ s.Quiet i) :
    Inv { s with service := service } where
  manager := hI.manager
  saves := hI.saves
  fresh i call' hcall' := (moved_of_step h he).fresh hI.fresh hcall'
  awaits t i hi := by
    obtain ⟨request, version, entry, hcall, hrest⟩ := hI.awaits t i hi
    exact ⟨request, version, entry,
      (moved_of_step h he).awaiting (hI.fresh i _ hcall) hcall, hrest⟩
  once := hI.once
  calls := callsAfter_of_step (s := { s.service with nodes := nodes }) hI.calls h he
  lock i call' v hcall' hversion hread hu := by
    rcases read_of_step h hcall' hread with
      ⟨call, hcall, hrequest, hread₀⟩ | ⟨rfl, ⟨call, hcall, hrequest⟩, row, hrow, hrowVersion⟩
    · have hlock := hI.lock i call v hcall (hrequest ▸ hversion) hread₀ hu
      rw [← hrequest]
      exact ⟨hlock.row, hlock.save⟩
    · -- it reads the row, and no transaction of the node is under way
      obtain ⟨rfl, hnone⟩ := hguard i rfl
      refine ⟨fun row' hrow' => ?_, fun save c hc hnode hphase => ?_⟩
      · obtain rfl := Option.some.inj (hrow.symm.trans hrow')
        exact hrowVersion
      · have hsave := hI.manager.save_lt hc
        rw [← hrequest] at hversion hnode
        exact absurd hphase (hnone call hcall hversion save hsave c hc hnode)
  tasks t entry v hv htask := hI.tasks t entry v (hI.expected_of_step nodes h s.manager hv) htask

/-- A call that awaits no task submits its append. -/
private theorem of_appendMarkdown (hI : Inv s) {i : CallId} (hi : ∀ t, s.appends t ≠ some i) :
    Inv (s.appendMarkdown i) := by
  unfold appendMarkdown
  split
  · next request version hcall =>
      have hstep : DocManager.step .plain s.manager (.appendMarkdown request.nodeId
          request.workspaceId request.markdown request.userId) =
          some (s.manager.runExclusive request.nodeId
            (.appendMarkdown request.workspaceId request.markdown request.userId)) := rfl
      have hM := hI.of_manager hstep trivial
      -- nobody awaits the new task yet, and no save is its
      have hfree : ∀ {t j}, s.appends t = some j → t ≠ s.manager.queue.next := by
        rintro t j hj rfl
        obtain ⟨_, _, entry, -, htask, -⟩ := hI.awaits _ j hj
        exact lt_irrefl _ (s.manager.queue.lt_next htask)
      have hnew : ∀ {t j}, Function.update s.appends s.manager.queue.next (some i) t = some j →
          t = s.manager.queue.next ∧ j = i ∨ s.appends t = some j := by
        intro t j hj
        by_cases ht : t = s.manager.queue.next
        · subst ht
          rw [Function.update_self] at hj
          exact Or.inl ⟨rfl, (Option.some.inj hj).symm⟩
        · rw [Function.update_of_ne ht] at hj
          exact Or.inr hj
      have hkept : ∀ {t j}, s.appends t = some j →
          Function.update s.appends s.manager.queue.next (some i) t = some j := by
        intro t j hj
        rw [Function.update_of_ne (hfree hj), hj]
      refine ⟨hM.manager, hM.saves, hM.fresh, fun t j hj => ?_, fun t t' j ht ht' => ?_, hM.calls,
        fun j call v hcall' hversion hread hu => ?_, fun t entry v hv htask => ?_⟩
      · rcases hnew hj with ⟨rfl, rfl⟩ | hj
        · exact ⟨request, version, _, hcall,
            PromiseChain.submit_task_self s.manager.queue request.nodeId _ rfl, rfl⟩
        · exact hM.awaits t j hj
      · rcases hnew ht with ⟨hself, rfl⟩ | hold
        · rcases hnew ht' with ⟨hself', -⟩ | hold'
          · exact hself.trans hself'.symm
          · exact absurd hold' (hi t')
        · rcases hnew ht' with ⟨-, rfl⟩ | hold'
          · exact absurd hold (hi t)
          · exact hI.once t t' j hold hold'
      · have hlock := hM.lock j call v hcall' hversion hread fun t ht htj => hu t ht (hkept htj)
        exact ⟨hlock.row, fun save c hc hnode hphase => hkept (hlock.save save c hc hnode hphase)⟩
      · rcases DocManager.State.runExclusive_fresh s.manager htask with hbefore | ⟨-, hpayload⟩
        · obtain ⟨j, call, hj, hcall', hversion⟩ := expected_eq_some.mp hv
          rcases hnew hj with ⟨rfl, -⟩ | hj
          · exact absurd (s.manager.queue.lt_next hbefore) (lt_irrefl _)
          · exact hM.tasks t entry v (expected_eq_some.mpr ⟨j, call, hj, hcall', hversion⟩) htask
        · rw [hpayload]
          trivial
  · exact hI

/-- The append of a call settles; if it has resolved, then with the next version. -/
private theorem of_appendReply (hI : Inv s) {t : TaskId} {i : CallId} {result : Appended}
    {service : State} (hi : s.appends t = some i)
    (h : s.service.appendReply i result = some service)
    (hresult : ∀ update version updatedAt operationId ok,
      result = .resolved update version updatedAt operationId ok →
      ∀ call v, s.service.calls i = some call → call.request.expectedVersion = some v →
        version = v + 1) :
    Inv ⟨s.manager, service, Function.update s.appends t none⟩ := by
  obtain ⟨request, version, phase, hcall, hcalls, hnext, hbefore, -⟩ := calls_of_appendReply h
  -- the other calls, and what they await
  have hother : ∀ {j call'}, j ≠ i → service.calls j = some call' →
      s.service.calls j = some call' := by
    intro j call' hj hcall'
    rwa [hcalls, Function.update_of_ne hj] at hcall'
  have hold : ∀ {t' j}, Function.update s.appends t none t' = some j →
      t' ≠ t ∧ j ≠ i ∧ s.appends t' = some j := by
    intro t' j hj
    by_cases ht : t' = t
    · rw [ht, Function.update_self] at hj
      cases hj
    · rw [Function.update_of_ne ht] at hj
      exact ⟨ht, fun hji => ht (hI.once t' t j hj (hji ▸ hi)), hj⟩
  have hkept : ∀ {t' j}, j ≠ i → s.appends t' = some j →
      Function.update s.appends t none t' = some j := by
    intro t' j hj htj
    have ht : t' ≠ t := by
      rintro rfl
      exact hj (Option.some.inj (htj.symm.trans hi))
    rw [Function.update_of_ne ht, htj]
  refine ⟨hI.manager, hI.saves, fun j call' hcall' => ?_, fun t' j hj => ?_,
    fun t' t'' j hj hj' => hI.once t' t'' j (hold hj).2.2 (hold hj').2.2,
    callsAfter_of_appendReply hI.calls h hresult,
    fun j call' v hcall' hversion hread hu => ?_, fun t' entry v hv htask => ?_⟩
  · show j < service.nextCall
    rw [hnext]
    by_cases hji : j = i
    · exact hji ▸ hI.fresh i _ hcall
    · exact hI.fresh j call' (hother hji hcall')
  · obtain ⟨-, hji, hj⟩ := hold hj
    obtain ⟨request', version', entry, hcall', hrest⟩ := hI.awaits t' j hj
    refine ⟨request', version', entry, ?_, hrest⟩
    show service.calls j = _
    rw [hcalls, Function.update_of_ne hji, hcall']
  · have hji : j ≠ i := by
      rintro rfl
      have hcall' : service.calls j = some call' := hcall'
      rw [hcalls, Function.update_self] at hcall'
      obtain rfl := Option.some.inj hcall'
      rw [show (Call.mk request phase).phase = phase from rfl, Phase.read_eq_none hbefore] at hread
      cases hread
    have hlock := hI.lock j call' v (hother hji hcall') hversion hread
      fun t' ht' htj => hu t' ht' (hkept hji htj)
    exact ⟨hlock.row, fun save c hc hnode hphase =>
      hkept hji (hlock.save save c hc hnode hphase)⟩
  · obtain ⟨j, call', hj, hcall', hversion⟩ := expected_eq_some.mp hv
    obtain ⟨-, hji, hj⟩ := hold hj
    exact hI.tasks t' entry v
      (expected_eq_some.mpr ⟨j, call', hj, hother hji hcall', hversion⟩) htask

/-- **Every step keeps the invariant.** -/
theorem step (hI : Inv s) (h : Server.step lex hash s e = some s')
    (hguard : Undisturbed lex s e) : Inv s' := by
  cases serverStep_of_step h with
  | manager e' manager he hstep hs' =>
      subst he hs'
      exact hI.of_manager hstep hguard
  | restart hs' =>
      subst hs'
      have hrestart : DocManager.step lex s.manager .restart = some s.manager.restart := rfl
      exact {
        manager := hI.manager.step hrestart
        saves := DocManager.savesTasked_step hI.saves hrestart
        fresh := fun i call hcall => by cases hcall
        awaits := fun t i hi => by cases hi
        once := fun t t' i hi => by cases hi
        calls := fun i call v hcall => by cases hcall
        lock := fun i call v hcall => by cases hcall
        tasks := fun t entry v hv => by cases hv }
  | service e' service hevent he hstep hs' =>
      subst hevent hs'
      refine hI.of_service s.manager.nodes he hstep fun i he' => ⟨rfl, ?_⟩
      subst he'
      exact hguard
  | redis i reply service hstep hs' =>
      subst hs'
      have hmoved : Inv { s with service := service } :=
        hI.of_service s.service.nodes (by simp) hstep (by simp)
      refine hmoved.of_appendMarkdown fun t ht => ?_
      obtain ⟨request, version, entry, hcall, -⟩ := hI.awaits t i ht
      exact not_appending_of_redisReply hstep hcall
  | resumed t i entry result manager service operationId broadcasts hi htask hphase hmanager
      hservice hs' =>
      subst hs'
      have hM := hI.of_manager hmanager trivial
      refine hM.of_appendReply hi hservice ?_
      -- the task has settled, and with the version that its own save has left
      intro update version updatedAt operationId' ok hresolved call v hcall hv
      have hafter := hI.tasks t entry v (expected_eq_some.mpr ⟨i, call, hi, hcall, hv⟩) htask
      cases result with
      | error failure => cases hresolved
      | ok persisted =>
          simp only [DocManager.Task.After, hphase] at hafter
          cases hresolved
          exact hafter

end Inv

/-- **`expectedVersion` is an optimistic lock in the runs in which nobody gets between an
open call and its row.** -/
theorem along_versioned (lex : Lexical) (hash : NodeContentOperationBody → String)
    (nodes : NodeId → Option NodeRow) (memberships : UserId → WorkspaceId → Option Role)
    (es : List ServerEvent)
    (hguard : Along (Server.step lex hash) (fun s e _ => Undisturbed lex s e)
      (init nodes memberships) es) :
    Along (Server.step lex hash) (fun _ _ s' => Versioned s') (init nodes memberships) es := by
  refine along_of_invariant (I := Inv) ?_ (inv_init nodes memberships) hguard
  intro s e s' hstep hI hG
  have hI' := hI.step hstep hG
  refine ⟨hI', fun i call v response hcall hv hphase hduplicate => ?_⟩
  have hafter := hI'.calls i call v hcall hv
  rw [hphase] at hafter
  exact hafter hduplicate

/-! ### Runs -/

/-- A table with one node of markdown, edited by everybody. -/
def oneNode (n : NodeId) : Option NodeRow :=
  if n = 1 then some ⟨none, some ⟨some "MARKDOWN", none, []⟩, 0, 0, 7, none⟩ else none

def editors (_ : UserId) (_ : WorkspaceId) : Option Role := some .EDITOR

/-- An operation on the node at version `0`, up to the lookup of its row. -/
def operate : List ServerEvent :=
  [.service (.execute 9 7 1 (some "12345678")
      ⟨.APPEND_MARKDOWN, "x", some 0, ⟨.AGENT, "agent", none, none⟩⟩),
    .service (.membershipReply 0 true), .service (.nodeReply 0 true)]

/-- Redis answers it: its key is looked up, and then claimed. -/
def answer : ServerEvent := .service (.redisReply 0 .ok)

/-- The append runs as task `t`, and the call returns. -/
def appendAndReturn (t : TaskId) (save : SaveId) : List ServerEvent :=
  [.manager (.startTask t), .manager (.resumeAppend t 100), .manager (.redisReply .ok),
    .manager (.updateNodeRow save .ok 20), .manager (.attachmentsSynced save true),
    .manager (.continueFlush t), .manager (.enqueued t true), .resume t 55 true,
    .service (.redisReply 0 .ok)]

/-- Nobody else writes. -/
def lockedRun : List ServerEvent :=
  DocManager.openNode.map .manager ++ operate ++ [answer, answer] ++ appendAndReturn 0 0

theorem lockedRun_versioned :
    Along (Server.step .plain fun _ => "") (fun s e _ => Undisturbed .plain s e)
      (init oneNode editors) lockedRun ∧
    Along (Server.step .plain fun _ => "") (fun _ _ s' => Versioned s') (init oneNode editors)
      lockedRun :=
  ⟨by decide +kernel, along_versioned .plain (fun _ => "") oneNode editors lockedRun
    (by decide +kernel)⟩

/-- The debounced flush of an edit is under way when the version is compared, and
commits before the key is claimed. -/
def overtakenRun : List ServerEvent :=
  DocManager.openNode.map .manager ++ operate ++
    (DocManager.editAndFlush ⟨{(3, 0)}, ∅⟩ 0 0).map .manager ++ [answer] ++
    (DocManager.flushSaved 0 0).map .manager ++ [answer] ++ appendAndReturn 1 1

theorem overtakenRun_notVersioned :
    ¬ Along (Server.step .plain fun _ => "") (fun _ _ s' => Versioned s') (init oneNode editors)
      overtakenRun := by
  intro h
  have hrun : (exec (Server.step .plain fun _ => "") (init oneNode editors) overtakenRun).any
      (fun s => (s.service.calls 0).any fun call => call.request.expectedVersion = some 0 &&
        call.phase.response.any fun response => !response.duplicate && response.version = 2) =
      true := by
    decide +kernel
  obtain ⟨s, hs, hcall⟩ := (Option.any_eq_true _ _).mp hrun
  obtain ⟨call, hcall, hreturned⟩ := (Option.any_eq_true _ _).mp hcall
  rw [Bool.and_eq_true, decide_eq_true_iff] at hreturned
  obtain ⟨hexpected, hreturned⟩ := hreturned
  obtain ⟨response, hresponse, hreturned⟩ := (Option.any_eq_true _ _).mp hreturned
  rw [Bool.and_eq_true, decide_eq_true_iff] at hreturned
  have hV : Versioned s := h.state (fun i call v response hcall => by cases hcall) hs
  have hversion := (hV 0 call 0 response hcall hexpected (Phase.returned_of_response hresponse)
    (by simpa using hreturned.1)).2
  rw [hreturned.2] at hversion
  cases hversion

end Server

end NodeContent

end AideepWebsocket
