import AideepWebsocket.App.State
import AideepWebsocket.Gateway.Convergence
import AideepWebsocket.NodeContent.Moves

/-!
# What is acknowledged has been sent

`executeContentOperation` returns its response after it has broadcast the update of its
append to the room of the node, in the turn in which the append's promise has resolved it.
So a client that is told that its operation succeeded can count on the others having been
sent it: once, and to all who were in the room (`sent_of_returned`).

This is a fact about three parts.  The manager has to bring the update along with the task
(`Task.Updated`), the process has to hand it to the call that awaits the task (`App.Inv`),
and the gateway must not have sent it before.
-/

namespace AideepWebsocket

open Library

/-! ### The manager -/

namespace DocManager

variable {lex : Lexical} {s s' : State} {e : Event}

/-- An append that has got its document and not rejected has made an update. -/
def Task.Updated (x : Task) : Prop :=
  ∀ workspaceId markdown userId, x.kind = .appendMarkdown workspaceId markdown userId →
    x.update ≠ none ∨ x.phase.failed = true ∨ x.phase = .queued ∨
      ∃ await, x.phase = .loadingDoc await

/-- The caller of the task has resumed. -/
def State.Returned (s : State) (t : TaskId) : Prop :=
  ∃ entry result, s.queue.task t = some entry ∧ entry.payload.phase = .returned result

/-- A task that is past the load of its document stays past it. -/
private theorem TaskStep.updated {i : TaskId} {entry : ChainTask NodeId Task} {x : Task}
    (h : TaskStep s e s' i entry x) (hold : entry.payload.Updated)
    (hstart : e = .startTask i →
      (∃ caller, entry.payload.kind = .flushDoc caller) ∨ ∃ await, x.phase = .loadingDoc await)
    (hresume : ∀ clientId, e ≠ .resumeAppend i clientId) : x.Updated := by
  intro ws markdown userId hkind
  rw [h.kind] at hkind
  rw [h.update hresume]
  -- the phase before, when it is none of those that excuse a missing update
  have hpast : ∀ {phase : Phase}, entry.payload.phase = phase → phase.failed = false →
      phase ≠ .queued → (∀ await, phase ≠ .loadingDoc await) →
      entry.payload.update ≠ none := by
    rintro phase hphase hfailed hqueued hloading
    rcases hold ws markdown userId hkind with hupdate | hfail | hphase' | ⟨await, hphase'⟩
    · exact hupdate
    · rw [hphase, hfailed] at hfail
      cases hfail
    · exact absurd (hphase.symm.trans hphase') hqueued
    · exact absurd (hphase.symm.trans hphase') (hloading await)
  -- the task of an append goes on to load its document when it starts
  have hflush : (e = .startTask i ∨ ∃ clientId, e = .resumeAppend i clientId) →
      ∃ await, x.phase = .loadingDoc await := by
    rintro (he | ⟨clientId, he⟩)
    · rcases hstart he with ⟨caller, hcaller⟩ | hload
      · rw [hkind] at hcaller
        cases hcaller
      · exact hload
    · exact absurd he (hresume clientId)
  cases h with
  | stay => exact hold ws markdown userId hkind
  | load await _ _ => exact Or.inr (Or.inr (Or.inr ⟨await, rfl⟩))
  | fail x failure _ _ hphase' => exact Or.inr (Or.inl (by rw [hphase']; rfl))
  | skip x r persisted _ he => exact Or.inr (Or.inr (Or.inr (hflush he)))
  | save x c _ he => exact Or.inr (Or.inr (Or.inr (hflush he)))
  | refreshReplied r persisted ok hphase =>
      exact Or.inl (hpast hphase rfl (by simp) (by simp))
  | saveReplied r save sv ok f f' hphase => exact Or.inl (hpast hphase rfl (by simp) (by simp))
  | saveRejected r save sv redis f f' hphase =>
      exact Or.inl (hpast hphase rfl (by simp) (by simp))
  | refreshed r persisted hphase => exact Or.inl (hpast hphase rfl (by simp) (by simp))
  | saved r save sv persisted phase hphase =>
      exact Or.inl (hpast hphase rfl (by simp) (by simp))
  | embedded r persisted job hphase => exact Or.inl (hpast hphase rfl (by simp) (by simp))
  | returned result hphase =>
      cases result with
      | error failure => exact Or.inr (Or.inl rfl)
      | ok persisted => exact Or.inl (hpast hphase rfl (by simp) (by simp))
  | gone he =>
      unfold State.goneTask
      split
      · next result hphase =>
          cases result with
          | error failure => exact Or.inr (Or.inl (by rw [hphase]; rfl))
          | ok persisted => exact Or.inl (hpast hphase rfl (by simp) (by simp))
      · next result hphase =>
          cases result with
          | error failure => exact Or.inr (Or.inl rfl)
          | ok persisted => exact Or.inl (hpast hphase rfl (by simp) (by simp))
      · exact Or.inr (Or.inl rfl)

/-- A flush rejects at once, or goes on with the update that it has been given. -/
private theorem State.FlushStep.brings {t : TaskId} {x : Task} {n : NodeId}
    (h : s.FlushStep t x n s') :
    ∃ p, s'.queue = s.queue.advance t p ∧ p.stage ≠ .queued ∧
      (p.phase.failed = true ∨ p.update = x.update) := by
  cases h with
  | notLoaded => exact ⟨_, rfl, by simp [Phase.stage], Or.inl rfl⟩
  | skip r mem => exact ⟨_, rfl, by simp [Phase.stage], Or.inr rfl⟩
  | throws r mem cmds => exact ⟨_, rfl, by simp [Phase.stage], Or.inl rfl⟩
  | save r mem c => exact ⟨_, rfl, by simp [Phase.stage], Or.inr rfl⟩

/-- The append that resumes makes its update. -/
private theorem updated_of_resumeAppend {t : TaskId} {clientId : ClientId}
    (h : s.resumeAppend lex t clientId = some s') {entry' : ChainTask NodeId Task}
    (htask' : s'.queue.task t = some entry') : entry'.payload.Updated := by
  obtain ⟨entry, await, ws, markdown, userId, htask, hphase, -, hcase⟩ :=
    State.resumeAppend_step s h
  have hfinish : (s.finishAwait entry.key await).queue = s.queue := by simp
  obtain ⟨p, hqueue, hp, hupdate⟩ : ∃ p : Task, s'.queue = s.queue.advance t p ∧
      p.stage ≠ .queued ∧ (p.phase.failed = true ∨ p.update ≠ none) := by
    rcases hcase with ⟨failure, -, rfl⟩ | ⟨r, result, mem, -, -, -, ⟨-, rfl⟩ | ⟨-, hflush⟩⟩
    · exact ⟨_, by rw [State.setTask, hfinish], by simp [Phase.stage], Or.inl rfl⟩
    · exact ⟨_, by rw [State.setTask, hfinish], by simp [Phase.stage], Or.inl rfl⟩
    · obtain ⟨p, hqueue, hp, hupdate⟩ := hflush.brings
      exact ⟨p, by rw [hqueue, hfinish], hp, hupdate.imp_right fun heq => by simp [heq]⟩
  have hrunning : entry.payload.stage = .running := by simp [Task.stage, hphase, Phase.stage]
  rw [hqueue, PromiseChain.advance_task_self htask
    (PromiseChain.canAdvance_of_running hrunning hp)] at htask'
  obtain rfl := Option.some.inj htask'
  exact fun _ _ _ _ => hupdate.symm.imp_right Or.inl

/-- **Every step keeps the updates with their tasks.** -/
theorem updated_of_step (hU : ∀ t entry, s.queue.task t = some entry → entry.payload.Updated)
    (h : step lex s e = some s') {t : TaskId} {entry' : ChainTask NodeId Task}
    (htask' : s'.queue.task t = some entry') : entry'.payload.Updated := by
  rcases (step_queue h).task htask' with ⟨entry, htask, -, hstep⟩ | ⟨-, kind, hnew⟩
  · by_cases hresume : ∃ clientId, e = .resumeAppend t clientId
    · obtain ⟨clientId, rfl⟩ := hresume
      exact updated_of_resumeAppend h htask'
    · refine hstep.updated (hU t entry htask) ?_ fun clientId he => hresume ⟨clientId, he⟩
      rintro rfl
      obtain ⟨entry₁, htask₁, hphase, hready, hcase⟩ := State.startTask_cases s h
      rw [htask] at htask₁
      obtain rfl := Option.some.inj htask₁
      rcases hcase with ⟨caller, hkind, -⟩ | ⟨ws, markdown, userId, -, rfl⟩
      · exact Or.inl ⟨caller, hkind⟩
      · right
        have hqueue : (s.getOrCreateDoc entry.key ws).1.queue = s.queue :=
          (State.getOrCreateDoc_frame s entry.key ws).2.1
        rw [State.setTask, hqueue, PromiseChain.advance_task_self htask
          (PromiseChain.canAdvance_of_ready (by simp [Task.stage, hphase, Phase.stage]) hready
            (by simp [Phase.stage]))] at htask'
        rw [← Option.some.inj htask']
        exact ⟨_, rfl⟩
  · rw [hnew]
    exact fun _ _ _ _ => Or.inr (Or.inr (Or.inl rfl))

/-- A task whose caller has resumed stays as it is. -/
theorem State.Returned.step {t : TaskId} (hr : s.Returned t)
    (h : DocManager.step lex s e = some s') : s'.Returned t := by
  obtain ⟨entry, result, htask, hphase⟩ := hr
  obtain ⟨entry', htask', -, hstep⟩ := step_task h htask
  refine ⟨entry', result, htask', ?_⟩
  have hnot : ∀ {phase : Phase}, entry.payload.phase = phase →
      (∀ result, phase ≠ .returned result) → False :=
    fun hphase' hne => hne result (hphase'.symm.trans hphase)
  generalize entry'.payload = x at hstep
  cases hstep with
  | stay => exact hphase
  | load await _ hphase' => exact (hnot hphase' (by simp)).elim
  | fail x failure _ hstage =>
      rw [Task.stage, hphase] at hstage
      exact absurd rfl hstage
  | skip x r persisted _ _ hphase' =>
      rcases hphase' with hphase' | ⟨await, hphase'⟩ <;> exact (hnot hphase' (by simp)).elim
  | save x c _ _ hphase' =>
      rcases hphase' with hphase' | ⟨await, hphase'⟩ <;> exact (hnot hphase' (by simp)).elim
  | gone _ => simp [State.goneTask, hphase]
  | saved r save sv persisted phase hphase' => exact (hnot hphase' (by simp)).elim
  | refreshReplied r persisted ok hphase' => exact (hnot hphase' (by simp)).elim
  | saveReplied r save sv ok f f' hphase' => exact (hnot hphase' (by simp)).elim
  | saveRejected r save sv redis f f' hphase' => exact (hnot hphase' (by simp)).elim
  | refreshed r persisted hphase' => exact (hnot hphase' (by simp)).elim
  | embedded r persisted job hphase' => exact (hnot hphase' (by simp)).elim
  | returned result hphase' => exact (hnot hphase' (by simp)).elim

/-- The caller of a task resumes with its result. -/
theorem payload_of_resumeTask {t : TaskId} (h : step lex s (.resumeTask t) = some s')
    {entry : ChainTask NodeId Task} (htask : s.queue.task t = some entry)
    {result : Except Failure Persisted} (hphase : entry.payload.phase = .settled result) :
    s'.queue.task t =
      some { entry with payload := { entry.payload with phase := .returned result } } := by
  obtain ⟨entry₁, result₁, s₁, htask₁, hphase₁, -, -, hqueue, -, -, -, -, -, hsubmits⟩ :=
    State.resumeTask_step s h
  rw [htask] at htask₁
  obtain rfl := Option.some.inj htask₁
  rw [hphase] at hphase₁
  cases hphase₁
  have hcan : (s.queue.dropTail t).CanAdvance entry
      { entry.payload with phase := .returned result } := by
    have hsettled : entry.payload.stage = .settled := by rw [Task.stage, hphase]; rfl
    refine ⟨by simp [Phase.stage], fun _ => rfl, fun hqueued => ?_⟩
    rw [hsettled] at hqueued
    cases hqueued
  refine hsubmits.keeps ?_
  rw [hqueue, PromiseChain.advance_task_self (by rw [PromiseChain.dropTail_task, htask]) hcan]

end DocManager

/-! ### The process -/

namespace App

open DocManager (NodeRow TaskId)
open Gateway (Output Role)
open NodeContent (Call CallId NodeContentOperationBody NodeContentOperationResponse Server)

variable {lex : Lexical} {verify : String → Option UserId}
  {hash : NodeContentOperationBody → String} {s s' : State} {e : Event}

/-- What is announced: the update of an append that has returned. -/
theorem announce_cases {g g' : Gateway.State} {t : TaskId} {out : List Output}
    (h : g.announce t = some (g', out)) :
    t ∉ g.announced ∧ ∃ entry persisted u, g.manager.queue.task t = some entry ∧
      entry.payload.phase = .returned (.ok persisted) ∧ entry.payload.update = some u ∧
      g' = { g with announced := insert t g.announced } ∧
      out = [g.broadcastYjsUpdate entry.key u] := by
  unfold Gateway.State.announce at h
  split at h
  · cases h
  · next hnot =>
      split at h
      · cases h
      · next entry htask =>
          split at h
          · next persisted u hphase hupdate =>
              cases h
              exact ⟨hnot, entry, persisted, u, htask, hphase, hupdate, rfl, rfl⟩
          · cases h

/-- What the service does in a step of its own: its calls move, and one of them may submit
its append. -/
theorem moved_of_service {x : Server} {e' : NodeContent.Event}
    (hdriven : drivenService e' = false)
    (h : Server.step lex hash s.server (.service e') = some x) :
    NodeContent.Moved s.service x.service ∧
      ∃ service, x = { s.server with service := service } ∨
        ∃ i, x = ({ s.server with service := service } : Server).appendMarkdown i ∧
          ∀ request version, s.service.calls i ≠ some ⟨request, .appendMarkdown version⟩ := by
  cases e' with
  | redisReply i reply =>
      obtain ⟨service, hservice, rfl⟩ := Option.map_eq_some_iff.mp h
      have hstep : NodeContent.step hash s.service (.redisReply i reply) = some service := hservice
      refine ⟨?_, service, Or.inr ⟨i, rfl, fun _ _ =>
        NodeContent.not_appending_of_redisReply hservice⟩⟩
      rw [NodeContent.Server.appendMarkdown_service]
      exact NodeContent.moved_of_step hstep (by simp)
  | appendReply i result => cases hdriven
  | writeNode nodeId row => cases hdriven
  | setMembership userId workspaceId role => cases hdriven
  | _ =>
      obtain ⟨service, hservice, rfl⟩ := Option.map_eq_some_iff.mp h
      exact ⟨(NodeContent.moved_of_step hservice (by simp)).of_nodes, service, Or.inl rfl⟩

/-- The call `i` awaits the append that the task `t` carries out for it. -/
def State.Awaits (s : State) (t : TaskId) (i : CallId) : Prop :=
  ∃ request version entry, s.service.calls i = some ⟨request, .appendMarkdown version⟩ ∧
    s.gateway.manager.queue.task t = some entry ∧ entry.key = request.nodeId ∧
    entry.payload.kind = .appendMarkdown request.workspaceId request.markdown request.userId

/-- **The invariant.** -/
structure Inv (s : State) : Prop where
  updated : ∀ t entry, s.gateway.manager.queue.task t = some entry → entry.payload.Updated
  announced : ∀ t ∈ s.gateway.announced, s.gateway.manager.Returned t
  fresh : ∀ i call, s.service.calls i = some call → i < s.service.nextCall
  awaits : ∀ t i, s.appends t = some i → s.Awaits t i
  once : ∀ t t' i, s.appends t = some i → s.appends t' = some i → t = t'

theorem inv_init (nodes : NodeId → Option NodeRow)
    (memberships : UserId → WorkspaceId → Option Role) : Inv (.init nodes memberships) where
  updated t entry h := by cases h
  announced t ht := absurd ht (Finset.notMem_empty t)
  fresh i call h := by cases h
  awaits t i h := by cases h
  once t t' i h := by cases h

namespace Inv

/-- The manager takes a few steps. -/
private theorem of_exec (hI : Inv s) {manager : DocManager.State} {xs : List DocManager.Event}
    (h : exec (DocManager.step lex) s.gateway.manager xs = some manager) :
    (∀ t entry, manager.queue.task t = some entry → entry.payload.Updated) ∧
      (∀ t, s.gateway.manager.Returned t → manager.Returned t) ∧
      ∀ t entry, s.gateway.manager.queue.task t = some entry →
        ∃ entry', manager.queue.task t = some entry' ∧ entry'.key = entry.key ∧
          entry'.payload.kind = entry.payload.kind := by
  have hreach : Reachable (DocManager.step lex) s.gateway.manager manager := ⟨xs, h⟩
  refine hreach.invariant (I := fun m =>
    (∀ t entry, m.queue.task t = some entry → entry.payload.Updated) ∧
      (∀ t, s.gateway.manager.Returned t → m.Returned t) ∧
      ∀ t entry, s.gateway.manager.queue.task t = some entry →
        ∃ entry', m.queue.task t = some entry' ∧ entry'.key = entry.key ∧
          entry'.payload.kind = entry.payload.kind)
    ⟨hI.updated, fun _ => id, fun t entry htask => ⟨entry, htask, rfl, rfl⟩⟩ ?_
  rintro m x m' hstep ⟨hU, hR, hT⟩
  refine ⟨fun t entry htask => DocManager.updated_of_step hU hstep htask,
    fun t ht => (hR t ht).step hstep, fun t entry htask => ?_⟩
  obtain ⟨entry₁, htask₁, hkey₁, hkind₁⟩ := hT t entry htask
  obtain ⟨entry₂, htask₂, hkey₂, hnext⟩ := DocManager.step_task hstep htask₁
  exact ⟨entry₂, htask₂, hkey₂.trans hkey₁, hnext.kind.trans hkind₁⟩

/-- The manager takes a few steps, and the rest stays as it is. -/
private theorem of_manager (hI : Inv s) {gateway : Gateway.State} {xs : List DocManager.Event}
    (h : exec (DocManager.step lex) s.gateway.manager xs = some gateway.manager)
    (hannounced : gateway.announced = s.gateway.announced) :
    Inv { s with gateway := gateway } := by
  obtain ⟨hU, hR, hT⟩ := hI.of_exec h
  refine ⟨hU, fun t ht => hR t (hI.announced t (hannounced ▸ ht)), hI.fresh, fun t i hi => ?_,
    hI.once⟩
  obtain ⟨request, version, entry, hcall, htask, hkey, hkind⟩ := hI.awaits t i hi
  obtain ⟨entry', htask', hkey', hkind'⟩ := hT t entry htask
  exact ⟨request, version, entry', hcall, htask', hkey'.trans hkey, hkind'.trans hkind⟩

/-- The calls take a step. -/
private theorem of_moved (hI : Inv s) {service : NodeContent.State}
    (h : NodeContent.Moved s.service service) : Inv { s with service := service } := by
  refine ⟨hI.updated, hI.announced, fun i call hcall => h.fresh hI.fresh hcall, fun t i hi => ?_,
    hI.once⟩
  obtain ⟨request, version, entry, hcall, hrest⟩ := hI.awaits t i hi
  exact ⟨request, version, entry, h.awaiting (hI.fresh i _ hcall) hcall, hrest⟩

/-- A call that awaits no task submits its append. -/
private theorem of_appendMarkdown (hI : Inv s) {i : CallId} (hi : ∀ t, s.appends t ≠ some i) :
    Inv (s.setServer (s.server.appendMarkdown i)) := by
  unfold NodeContent.Server.appendMarkdown
  split
  · next request version hcall =>
      have hstep : exec (DocManager.step .plain) s.gateway.manager
          [.appendMarkdown request.nodeId request.workspaceId request.markdown request.userId] =
          some (s.gateway.manager.runExclusive request.nodeId
            (.appendMarkdown request.workspaceId request.markdown request.userId)) := rfl
      obtain ⟨hU, hR, hT⟩ := hI.of_exec hstep
      have hnew : ∀ {t j}, Function.update s.appends s.gateway.manager.queue.next (some i) t =
          some j → t = s.gateway.manager.queue.next ∧ j = i ∨ s.appends t = some j := by
        intro t j hj
        by_cases ht : t = s.gateway.manager.queue.next
        · subst ht
          rw [Function.update_self] at hj
          exact Or.inl ⟨rfl, (Option.some.inj hj).symm⟩
        · rw [Function.update_of_ne ht] at hj
          exact Or.inr hj
      refine ⟨hU, fun t ht => hR t (hI.announced t ht), hI.fresh, fun t j hj => ?_,
        fun t t' j ht ht' => ?_⟩
      · rcases hnew hj with ⟨rfl, rfl⟩ | hj
        · exact ⟨request, version, _, hcall,
            PromiseChain.submit_task_self s.gateway.manager.queue request.nodeId _ rfl, rfl, rfl⟩
        · obtain ⟨request', version', entry, hcall', htask, hkey, hkind⟩ := hI.awaits t j hj
          obtain ⟨entry', htask', hkey', hkind'⟩ := hT t entry htask
          exact ⟨request', version', entry', hcall', htask', hkey'.trans hkey,
            hkind'.trans hkind⟩
      · rcases hnew ht with ⟨hself, rfl⟩ | hold
        · rcases hnew ht' with ⟨hself', -⟩ | hold'
          · exact hself.trans hself'.symm
          · exact absurd hold' (hi t')
        · rcases hnew ht' with ⟨-, rfl⟩ | hold'
          · exact absurd hold (hi t)
          · exact hI.once t t' j hold hold'
  · exact hI

/-- The append of a call settles, and the manager goes on. -/
private theorem of_resume (hI : Inv s) {x : Server} {t : TaskId} {operationId : ℕ}
    {broadcasts : Bool} (h : s.server.resume lex t operationId broadcasts = some x) :
    Inv (s.setServer x) := by
  obtain ⟨i, entry, result, hi, -, -, hmanager, hservice, happends⟩ := resume_cases h
  have hi : s.appends t = some i := hi
  obtain ⟨hU, hR, hT⟩ := hI.of_exec (exec_singleton hmanager)
  obtain ⟨request, version, phase, hcall, hcalls, hnext, -⟩ :=
    NodeContent.calls_of_appendReply hservice
  have hcall : s.service.calls i = some ⟨request, .appendMarkdown version⟩ := hcall
  have hcalls : x.service.calls = Function.update s.service.calls i (some ⟨request, phase⟩) :=
    hcalls
  have hnext : x.service.nextCall = s.service.nextCall := hnext
  have hold : ∀ {t' j}, x.appends t' = some j → t' ≠ t ∧ s.appends t' = some j := by
    intro t' j hj
    rw [happends] at hj
    by_cases ht : t' = t
    · rw [ht, Function.update_self] at hj
      cases hj
    · rw [Function.update_of_ne ht] at hj
      exact ⟨ht, hj⟩
  refine ⟨hU, fun t' ht' => hR t' (hI.announced t' ht'), fun j call hj => ?_, fun t' j hj => ?_,
    fun t' t'' j hj hj' => hI.once t' t'' j (hold hj).2 (hold hj').2⟩
  · have hj : x.service.calls j = some call := hj
    show j < x.service.nextCall
    rw [hnext]
    by_cases hji : j = i
    · exact hji ▸ hI.fresh i _ hcall
    · rw [hcalls, Function.update_of_ne hji] at hj
      exact hI.fresh j call hj
  · obtain ⟨hne, hj⟩ := hold hj
    have hji : j ≠ i := fun hji => hne (hI.once t' t j hj (hji ▸ hi))
    obtain ⟨request', version', entry', hcall', htask', hkey', hkind'⟩ := hI.awaits t' j hj
    obtain ⟨entry'', htask'', hkey'', hkind''⟩ := hT t' entry' htask'
    refine ⟨request', version', entry'', ?_, htask'', hkey''.trans hkey', hkind''.trans hkind'⟩
    show x.service.calls j = _
    rw [hcalls, Function.update_of_ne hji, hcall']

/-- **Every step keeps the invariant.** -/
theorem step (hI : Inv s) (h : App.step lex verify hash s e = some s') : Inv s' := by
  cases appStep_of_step h with
  | gateway e' gateway he hdriven hmembership hhandle hs' =>
      subst hs'
      have hgateway : Gateway.step lex verify s.gateway e' = some gateway := by
        rw [Gateway.step, hhandle]
        rfl
      refine hI.of_manager (Gateway.exec_manager hgateway) ?_
      rcases Gateway.announced_of_step hgateway with hsame | ⟨t, rfl, -⟩
      · exact hsame
      · cases hdriven
  | membership userId workspaceId role he hs' hout =>
      subst hs'
      exact ⟨hI.updated, hI.announced, hI.fresh, hI.awaits, hI.once⟩
  | service e' x he hdriven hserver hs' hout =>
      subst hs'
      obtain ⟨hmoved, service, rfl | ⟨i, rfl, hi⟩⟩ := moved_of_service hdriven hserver
      · exact hI.of_moved hmoved
      · have hmoved : NodeContent.Moved s.service service := by
          rwa [NodeContent.Server.appendMarkdown_service] at hmoved
        refine (hI.of_moved hmoved).of_appendMarkdown fun t ht => ?_
        obtain ⟨request, version, entry, hcall, -⟩ := hI.awaits t i ht
        exact hi request version hcall
  | resumed t operationId broadcasts x he hresume hs' =>
      have hI' := hI.of_resume hresume
      rcases hs' with ⟨-, hannounce, hs'⟩ | ⟨rfl, -, -⟩
      · obtain ⟨-, entry, persisted, u, htask, hphase, -, hgateway, -⟩ := announce_cases hannounce
        rw [hs', hgateway]
        refine ⟨hI'.updated, fun t' ht' => ?_, hI'.fresh, hI'.awaits, hI'.once⟩
        rcases Finset.mem_insert.mp ht' with rfl | ht'
        · exact ⟨entry, _, htask, hphase⟩
        · exact hI'.announced t' ht'
      · exact hI'
  | restart he hs' hout =>
      subst hs'
      have hrestart : exec (DocManager.step lex) s.gateway.manager [.restart] =
        some s.gateway.manager.restart := rfl
      obtain ⟨hU, hR, -⟩ := hI.of_exec hrestart
      refine ⟨hU, fun t ht => hR t (hI.announced t ht), ?_, ?_, ?_⟩
      · intro i call hcall
        cases hcall
      · intro t i hi
        cases hi
      · intro t t' i hi
        cases hi

end Inv

/-! ### What a call has sent -/

variable (lex verify hash) in
/-- What a step sends on behalf of the call `i`: it resumes with its append. -/
def sentBy (i : CallId) (s : State) : Event → List Output
  | .resume t operationId broadcasts =>
      if s.appends t = some i then
        outputs lex verify hash s (.resume t operationId broadcasts) else []
  | _ => []

variable (lex verify hash) in
/-- What a run sends on behalf of the call `i`. -/
def sentFor (s : State) (es : List Event) (i : CallId) : List Output :=
  trace (step lex verify hash) (sentBy lex verify hash i) s es

variable (lex verify hash) in
/-- The call `i` has resumed once in the run, and the room of the node was sent the update
of its append. -/
def Announced (init : State) (es : List Event) (i : CallId) (nodeId : NodeId) : Prop :=
  ∃ pre t operationId rest s₀ entry u,
    es = pre ++ .resume t operationId true :: rest ∧
      exec (step lex verify hash) init pre = some s₀ ∧ s₀.appends t = some i ∧
      s₀.gateway.manager.queue.task t = some entry ∧ entry.payload.update = some u ∧
      sentFor lex verify hash init es i = [s₀.gateway.broadcastYjsUpdate nodeId u]

variable {init : State} {es : List Event}

private theorem sentFor_concat (hes : exec (step lex verify hash) init es = some s)
    (h : step lex verify hash s e = some s') (i : CallId) :
    sentFor lex verify hash init (es ++ [e]) i =
      sentFor lex verify hash init es i ++ sentBy lex verify hash i s e := by
  rw [sentFor, trace_append [e] hes, trace_singleton h]
  rfl

private theorem Announced.concat {i : CallId} {nodeId : NodeId}
    (hA : Announced lex verify hash init es i nodeId)
    (hes : exec (step lex verify hash) init es = some s)
    (h : step lex verify hash s e = some s') (hnone : sentBy lex verify hash i s e = []) :
    Announced lex verify hash init (es ++ [e]) i nodeId := by
  obtain ⟨pre, t, operationId, rest, s₀, entry, u, rfl, hpre, happends, htask, hupdate, hsent⟩ := hA
  refine ⟨pre, t, operationId, rest ++ [e], s₀, entry, u, by simp, hpre, happends, htask, hupdate,
    ?_⟩
  rw [sentFor_concat hes h, hsent, hnone, List.append_nil]

/-- What each call has sent so far. -/
structure History (lex : Lexical) (verify : String → Option UserId)
    (hash : NodeContentOperationBody → String) (init : State) (es : List Event) (s : State) :
    Prop where
  inv : Inv s
  before : ∀ i call, s.service.calls i = some call → call.phase.beforeApply = true →
    sentFor lex verify hash init es i = []
  after : ∀ i call response, s.service.calls i = some call → call.phase.own = some response →
    response.nodeId = call.request.nodeId ∧ Announced lex verify hash init es i call.request.nodeId
  unborn : ∀ i, s.service.nextCall ≤ i → sentFor lex verify hash init es i = []

namespace History

/-- The calls go on without the end of an append. -/
private theorem of_moved (hH : History lex verify hash init es s)
    (hes : exec (App.step lex verify hash) init es = some s)
    (h : App.step lex verify hash s e = some s')
    (hnone : ∀ i, sentBy lex verify hash i s e = [])
    (hmoved : NodeContent.Moved s.service s'.service) :
    History lex verify hash init (es ++ [e]) s' := by
  have hsent : ∀ i, sentFor lex verify hash init (es ++ [e]) i =
      sentFor lex verify hash init es i := by
    intro i
    rw [sentFor_concat hes h, hnone, List.append_nil]
  refine ⟨hH.inv.step h, fun i call' hcall' hbefore => ?_, fun i call' response hcall' hown => ?_,
    fun i hi => ?_⟩
  · rw [hsent]
    rcases hmoved.call hcall' with ⟨rfl, -⟩ | ⟨call, hcall, -, -, hback⟩
    · exact hH.unborn _ le_rfl
    · exact hH.before i call hcall (hback hbefore)
  · rcases hmoved.call hcall' with ⟨-, hnone'⟩ | ⟨call, hcall, hrequest, hback, -⟩
    · rw [hnone'] at hown
      cases hown
    · rw [hrequest]
      obtain ⟨hnode, hannounced⟩ := hH.after i call response hcall (hback response hown)
      exact ⟨hnode, hannounced.concat hes h (hnone i)⟩
  · rw [hsent]
    exact hH.unborn i (hmoved.nextCall_le.trans hi)

/-- An append that has resolved is announced when its call resumes. -/
private theorem announce_of_resume (hI : Inv s) {x : Server} {t : TaskId}
    {entry : ChainTask NodeId DocManager.Task} {persisted : DocManager.Persisted} {i : CallId}
    (hi : s.appends t = some i) (htask : s.gateway.manager.queue.task t = some entry)
    (hphase : entry.payload.phase = .settled (.ok persisted))
    (hmanager : DocManager.step lex s.gateway.manager (.resumeTask t) = some x.manager) :
    ∃ gateway u, entry.payload.update = some u ∧ (s.setServer x).gateway.announce t =
      some (gateway, [s.gateway.broadcastYjsUpdate entry.key u]) := by
  obtain ⟨request, version, entry₁, -, htask₁, -, hkind⟩ := hI.awaits t i hi
  rw [htask] at htask₁
  obtain rfl := Option.some.inj htask₁
  obtain ⟨u, hu⟩ : ∃ u, entry.payload.update = some u := by
    rcases hI.updated t entry htask _ _ _ hkind with hupdate | hfailed | hqueued | ⟨await, hload⟩
    · exact Option.ne_none_iff_exists'.mp hupdate
    · rw [hphase] at hfailed
      cases hfailed
    · rw [hphase] at hqueued
      cases hqueued
    · rw [hphase] at hload
      cases hload
  have hnot : t ∉ s.gateway.announced := by
    intro ht
    obtain ⟨entry₁, result, htask₁, hreturned⟩ := hI.announced t ht
    rw [htask] at htask₁
    obtain rfl := Option.some.inj htask₁
    rw [hphase] at hreturned
    cases hreturned
  have htask' : (s.setServer x).gateway.manager.queue.task t = _ :=
    DocManager.payload_of_resumeTask hmanager htask hphase
  refine ⟨{ (s.setServer x).gateway with
    announced := insert t (s.setServer x).gateway.announced }, u, hu, ?_⟩
  have hnot' : t ∉ (s.setServer x).gateway.announced := hnot
  simp only [Gateway.State.announce, if_neg hnot', htask', hu]
  rfl

/-- A call resumes with its append. -/
private theorem of_resume (hH : History lex verify hash init es s)
    (hes : exec (App.step lex verify hash) init es = some s) {t : TaskId} {operationId : ℕ}
    {broadcasts : Bool}
    (h : App.step lex verify hash s (.resume t operationId broadcasts) = some s') :
    History lex verify hash init (es ++ [.resume t operationId broadcasts]) s' := by
  have hI := hH.inv
  cases appStep_of_step h with
  | gateway _ _ he => cases he
  | membership _ _ _ he => cases he
  | service _ _ he => cases he
  | restart he => cases he
  | resumed t' operationId' broadcasts' x he hresume hs' =>
  cases he
  obtain ⟨i, entry, result, hi, htask, hphase, hmanager, hservice, -⟩ := resume_cases hresume
  obtain ⟨request, version, phase, hcall, hcalls, hnext, hbefore, hown⟩ :=
    NodeContent.calls_of_appendReply hservice
  have hi : s.appends t = some i := hi
  have hcall : s.service.calls i = some ⟨request, .appendMarkdown version⟩ := hcall
  have hservice' : s'.service = x.service := by
    rcases hs' with ⟨-, -, hs'⟩ | ⟨hs', -, -⟩ <;> rw [hs'] <;> rfl
  have hcalls : s'.service.calls = Function.update s.service.calls i (some ⟨request, phase⟩) := by
    rw [hservice', hcalls]
    rfl
  have hnext : s'.service.nextCall = s.service.nextCall := by
    rw [hservice', hnext]
    rfl
  -- only the call that resumes sends
  have hother : ∀ j, j ≠ i → sentBy lex verify hash j s (.resume t operationId broadcasts) = [] := by
    intro j hj
    have hne : s.appends t ≠ some j := by
      rw [hi]
      exact fun h => hj (Option.some.inj h).symm
    simp only [sentBy, if_neg hne]
  refine ⟨hI.step h, fun j call' hcall' hb => ?_, fun j call' response hcall' hresponse => ?_,
    fun j hj => ?_⟩
  · rw [hcalls] at hcall'
    by_cases hji : j = i
    · subst hji
      rw [Function.update_self] at hcall'
      obtain rfl := Option.some.inj hcall'
      rw [hbefore] at hb
      cases hb
    · rw [Function.update_of_ne hji] at hcall'
      rw [sentFor_concat hes h, hother j hji, hH.before j call' hcall' hb]
      rfl
  · rw [hcalls] at hcall'
    by_cases hji : j = i
    · subst hji
      rw [Function.update_self] at hcall'
      obtain rfl := Option.some.inj hcall'
      obtain ⟨hnode, update, v, updatedAt, operationId', hresult⟩ := hown response hresponse
      obtain ⟨persisted, rfl, rfl⟩ : ∃ persisted, result = .ok persisted ∧ broadcasts = true := by
        cases result with
        | error failure => cases hresult
        | ok persisted =>
            cases hresult
            exact ⟨persisted, rfl, rfl⟩
      obtain ⟨gateway, u, hu, hannounce⟩ := announce_of_resume hI hi htask hphase hmanager
      have hout : outputs lex verify hash s (.resume t operationId true) =
          [s.gateway.broadcastYjsUpdate entry.key u] := by
        rcases hs' with ⟨-, hannounce', -⟩ | ⟨-, -, hnone⟩
        · rw [hannounce] at hannounce'
          exact (congrArg Prod.snd (Option.some.inj hannounce')).symm
        · rw [hnone rfl] at hannounce
          cases hannounce
      obtain ⟨request', version', entry₁, hcall', htask₁, hkey, -⟩ := hI.awaits t j hi
      have htask : s.gateway.manager.queue.task t = some entry := htask
      rw [htask] at htask₁
      obtain rfl := Option.some.inj htask₁
      rw [hcall] at hcall'
      obtain rfl : request = request' :=
        congrArg NodeContent.Call.request (Option.some.inj hcall')
      refine ⟨hnode, es, t, operationId, [], s, entry, u, rfl, hes, hi, htask, hu, ?_⟩
      rw [sentFor_concat hes h, hH.before j _ hcall rfl, List.nil_append]
      simp only [sentBy, if_pos hi]
      rw [hout, hkey]
    · rw [Function.update_of_ne hji] at hcall'
      obtain ⟨hnode, hannounced⟩ := hH.after j call' response hcall' hresponse
      exact ⟨hnode, hannounced.concat hes h (hother j hji)⟩
  · rw [hnext] at hj
    have hji : j ≠ i := by
      rintro rfl
      exact absurd (hI.fresh j _ hcall) (not_lt.mpr hj)
    rw [sentFor_concat hes h, hother j hji, hH.unborn j hj]
    rfl

theorem step (hH : History lex verify hash init es s)
    (hes : exec (App.step lex verify hash) init es = some s)
    (h : App.step lex verify hash s e = some s') :
    History lex verify hash init (es ++ [e]) s' := by
  cases appStep_of_step h with
  | gateway e' gateway he hdriven hmembership hhandle hs' =>
      subst he hs'
      exact hH.of_moved hes h (fun _ => rfl) (.same rfl rfl)
  | membership userId workspaceId role he hs' hout =>
      subst he hs'
      exact hH.of_moved hes h (fun _ => rfl) (.same rfl rfl)
  | service e' x he hdriven hserver hs' hout =>
      subst he hs'
      exact hH.of_moved hes h (fun _ => rfl) (moved_of_service hdriven hserver).1
  | resumed t operationId broadcasts x he hresume hs' =>
      subst he
      exact hH.of_resume hes h
  | restart he hs' hout =>
      subst he hs'
      refine ⟨hH.inv.step h, fun i call hcall => ?_, fun i call response hcall => ?_, fun i hi => ?_⟩
      · cases hcall
      · cases hcall
      · rw [sentFor_concat hes h, hH.unborn i hi]
        rfl

end History

/-- **What is acknowledged has been sent.**  A call that has returned a response of its own
names its node, and has resumed once with its append; what the process has sent on its behalf
is the update of that append, to all who were in the room of the node then. -/
theorem sent_of_returned {nodes : NodeId → Option NodeRow}
    {memberships : UserId → WorkspaceId → Option Role}
    (hes : exec (step lex verify hash) (.init nodes memberships) es = some s) {i : CallId}
    {call : Call} {response : NodeContentOperationResponse} (hcall : s.service.calls i = some call)
    (hphase : call.phase = .returned (.ok (some response))) (hown : response.duplicate = false) :
    response.nodeId = call.request.nodeId ∧
      Announced lex verify hash (.init nodes memberships) es i call.request.nodeId := by
  have hH : History lex verify hash (.init nodes memberships) es s := by
    refine history_invariant (I := History lex verify hash (.init nodes memberships)) ?_
      (fun es s e s' hes hH hstep => hH.step hes hstep) hes
    refine ⟨inv_init nodes memberships, fun i call hcall => ?_, fun i call r hcall => ?_,
      fun _ _ => rfl⟩
    · cases hcall
    · cases hcall
  refine hH.after i call response hcall ?_
  simp [NodeContent.Phase.own, hphase, hown]

/-- The operation of `acknowledgedRun` has been sent to its node. -/
theorem acknowledgedRun_sent :
    Announced .plain Gateway.plainToken (fun _ => "")
      (.init NodeContent.Server.oneNode NodeContent.Server.editors) acknowledgedRun 0 1 := by
  have hrun : (exec (App.step .plain Gateway.plainToken fun _ => "")
      (.init NodeContent.Server.oneNode NodeContent.Server.editors) acknowledgedRun).any
        (fun s => (s.service.calls 0).any fun call => decide (call.request.nodeId = 1) &&
          call.phase.response.any fun response => !response.duplicate) = true := by
    decide +kernel
  obtain ⟨s, hs, hcall⟩ := (Option.any_eq_true _ _).mp hrun
  obtain ⟨call, hcall, hreturned⟩ := (Option.any_eq_true _ _).mp hcall
  rw [Bool.and_eq_true, decide_eq_true_iff] at hreturned
  obtain ⟨hnode, hreturned⟩ := hreturned
  obtain ⟨response, hresponse, hown⟩ := (Option.any_eq_true _ _).mp hreturned
  have hphase : call.phase = .returned (.ok (some response)) := by
    unfold NodeContent.Phase.response at hresponse
    split at hresponse
    · next heq => rw [heq, hresponse]
    · cases hresponse
  rw [← hnode]
  exact (sent_of_returned hs hcall hphase (by simpa using hown)).2

end App

end AideepWebsocket
