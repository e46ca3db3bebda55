import AideepWebsocket.DocManager.Steps
import Mathlib.Algebra.BigOperators.Group.Finset.Basic

/-!
# The calls of flushDoc that flushAll makes

A worker of `flushAll` calls `flushDoc` for one node after the other, so its calls are
tasks of the queue among others, and the record of the `flushAll` (`FlushAllCall`) has to
agree with them.  `flushCall` reads such a call off a task: who made it, for which node,
and whether its promise has settled.

`flushAllStep_of_step` says what a step does to the calls and to the records: nothing
(`SameFlushes`), a `flushAll` starts, a call settles and its worker goes on, or the process
is gone.
-/

namespace AideepWebsocket.DocManager

open Library

variable {lex : Lexical} {s s' : State} {e : Event} {n : NodeId} {call : ℕ}

/-- The step calls `flushAll`. -/
def Event.StartsFlushAll : Event → Prop
  | .flushInterval | .onModuleDestroy => True
  | _ => False

instance : DecidablePred Event.StartsFlushAll := by
  intro e
  unfold Event.StartsFlushAll
  induction e using Event.casesOn <;> infer_instance

/-- The `flushAll` call on whose behalf a task flushes. -/
def TaskKind.flushAll : TaskKind → Option ℕ
  | .flushDoc (.flushAll call) => some call
  | _ => none

/-- The caller of the task has resumed. -/
def Phase.ended : Phase → Bool
  | .returned _ => true
  | _ => false

/-- A call of `flushDoc` by a worker of `flushAll`. -/
structure FlushCall where
  call : ℕ
  nodeId : NodeId
  settled : Bool
  deriving DecidableEq

namespace State

/-- The call that task `t` carries out, if a worker has made it. -/
def flushCall (s : State) (t : TaskId) : Option FlushCall :=
  (s.queue.task t).bind fun entry =>
    entry.payload.kind.flushAll.map fun call => ⟨call, entry.key, entry.payload.phase.ended⟩

/-- The calls that `flushAll` has made and that have not settled. -/
def flushing (s : State) : Finset TaskId :=
  (Finset.range s.queue.next).filter fun t => ∃ x ∈ s.flushCall t, x.settled = false

/-- Those of them that one `flushAll` has made. -/
def flushingOf (s : State) (call : ℕ) : Finset TaskId :=
  (Finset.range s.queue.next).filter fun t => ∃ x ∈ s.flushCall t, x.call = call ∧ x.settled = false

/-- The nodes that a `flushAll` has called `flushDoc` for, in that order. -/
def flushedBy (s : State) (call : ℕ) : List NodeId :=
  (List.range s.queue.next).filterMap fun t =>
    (s.flushCall t).bind fun x => if x.call = call then some x.nodeId else none

/-- All workers of the `flushAll` have ended, and its promise has resolved. -/
def FlushAllResolved (s : State) (call : ℕ) : Prop :=
  (s.flushAlls call).map FlushAllCall.workers = some 0

/-- The workers that have not ended. -/
def flushWorkers (s : State) : ℕ :=
  ∑ call ∈ Finset.range s.nextFlushAll, ((s.flushAlls call).map FlushAllCall.workers).getD 0

/-! ### The calls and the queue -/

theorem flushCall_of_task (h : s'.queue.task = s.queue.task) : s'.flushCall = s.flushCall := by
  funext t
  rw [flushCall, flushCall, h]

theorem flushCall_of_next_le {t : TaskId} (h : s.queue.next ≤ t) : s.flushCall t = none := by
  cases htask : s.queue.task t with
  | none => rw [flushCall, htask]; rfl
  | some entry => exact absurd (s.queue.lt_next htask) (not_lt.mpr h)

/-- A task that goes on stays the call that it was. -/
theorem flushCall_of_advance {c : Queue} {i : TaskId} {entry : ChainTask NodeId Task} {p : Task}
    (hc : c.task = s.queue.task) (htask : s.queue.task i = some entry)
    (hqueue : s'.queue = c.advance i p) (hkind : p.kind = entry.payload.kind)
    (hended : p.phase.ended = entry.payload.phase.ended) : s'.flushCall = s.flushCall := by
  funext t
  cases ht : s.queue.task t with
  | none =>
      have hnone : s'.queue.task t = none := by
        cases ht' : s'.queue.task t with
        | none => rfl
        | some entry' =>
            rw [hqueue] at ht'
            obtain ⟨entry₀, hentry₀, -⟩ := PromiseChain.exists_of_advance ht'
            rw [hc, ht] at hentry₀
            cases hentry₀
      rw [flushCall, flushCall, hnone, ht]
  | some entry₁ =>
      obtain ⟨entry', hentry', hkey, hpay⟩ :=
        PromiseChain.advance_of_task (i := i) (p := p) (hc.symm ▸ ht)
      rw [← hqueue] at hentry'
      rw [flushCall, flushCall, hentry', ht]
      rcases hpay with hpay | ⟨rfl, hpay⟩
      · simp [hpay, hkey]
      · obtain rfl : entry = entry₁ := Option.some.inj (htask.symm.trans ht)
        simp [hpay, hkey, hkind, hended]

/-- A new task may be a new call. -/
theorem flushCall_of_runExclusive {kind : TaskKind}
    (hqueue : s'.queue = (s.runExclusive n kind).queue) :
    s'.flushCall = Function.update s.flushCall s.queue.next
      (kind.flushAll.map fun call => ⟨call, n, false⟩) := by
  funext t
  by_cases ht : t = s.queue.next
  · subst ht
    have htask : s'.queue.task s.queue.next =
        some ⟨n, s.queue.tail n, { kind := kind, phase := .queued }⟩ := by
      rw [hqueue]
      exact PromiseChain.submit_task_self _ _ _ rfl
    rw [Function.update_self, flushCall, htask]
    rfl
  · have htask : s'.queue.task t = s.queue.task t := by
      rw [hqueue]
      exact PromiseChain.submit_task_of_ne _ _ _ rfl ht
    rw [Function.update_of_ne ht, flushCall, flushCall, htask]

/-- What the calls of `flushAll` and their workers are is left alone. -/
structure SameFlushes (s s' : State) : Prop where
  flushAlls : s'.flushAlls = s.flushAlls
  nextFlushAll : s'.nextFlushAll = s.nextFlushAll
  flushCall : s'.flushCall = s.flushCall
  next : s.queue.next ≤ s'.queue.next

namespace SameFlushes

theorem trans {s₁ : State} (h : SameFlushes s s₁) (h' : SameFlushes s₁ s') :
    SameFlushes s s' where
  flushAlls := h'.flushAlls.trans h.flushAlls
  nextFlushAll := h'.nextFlushAll.trans h.nextFlushAll
  flushCall := h'.flushCall.trans h.flushCall
  next := h.next.trans h'.next

theorem of_queue (hcalls : s'.flushAlls = s.flushAlls) (hnext : s'.nextFlushAll = s.nextFlushAll)
    (hqueue : s'.queue = s.queue) : SameFlushes s s' :=
  ⟨hcalls, hnext, flushCall_of_task (by rw [hqueue]), by rw [hqueue]⟩

theorem of_advance {c : Queue} {i : TaskId} {entry : ChainTask NodeId Task} {p : Task}
    (hcalls : s'.flushAlls = s.flushAlls) (hnext : s'.nextFlushAll = s.nextFlushAll)
    (hc : c.task = s.queue.task) (hcnext : c.next = s.queue.next)
    (htask : s.queue.task i = some entry)
    (hqueue : s'.queue = c.advance i p) (hkind : p.kind = entry.payload.kind)
    (hended : p.phase.ended = entry.payload.phase.ended) : SameFlushes s s' :=
  ⟨hcalls, hnext, flushCall_of_advance hc htask hqueue hkind hended, by
    rw [hqueue, PromiseChain.advance_next, hcnext]⟩

/-- A task that no worker has submitted. -/
theorem of_runExclusive {kind : TaskKind} (hcalls : s'.flushAlls = s.flushAlls)
    (hnext : s'.nextFlushAll = s.nextFlushAll)
    (hqueue : s'.queue = (s.runExclusive n kind).queue) (hkind : kind.flushAll = none) :
    SameFlushes s s' := by
  refine ⟨hcalls, hnext, ?_, ?_⟩
  · rw [flushCall_of_runExclusive hqueue, hkind]
    exact Function.update_eq_self_iff.mpr (flushCall_of_next_le le_rfl).symm
  · rw [hqueue]
    exact Nat.le_succ _

end SameFlushes

/-! ### One step -/

private theorem sameFlushes_getOrCreateDoc (s : State) (nodeId : NodeId) (ws : WorkspaceId) :
    (s.getOrCreateDoc nodeId ws).1.flushAlls = s.flushAlls ∧
      (s.getOrCreateDoc nodeId ws).1.nextFlushAll = s.nextFlushAll ∧
      (s.getOrCreateDoc nodeId ws).1.queue = s.queue := by
  unfold getOrCreateDoc
  split
  · exact ⟨rfl, rfl, rfl⟩
  · split <;> exact ⟨rfl, rfl, rfl⟩

private theorem sameFlushes_finishAwait (s : State) (nodeId : NodeId) (await : Await) :
    (s.finishAwait nodeId await).flushAlls = s.flushAlls ∧
      (s.finishAwait nodeId await).nextFlushAll = s.nextFlushAll ∧
      (s.finishAwait nodeId await).queue = s.queue := by
  unfold finishAwait
  split <;> exact ⟨rfl, rfl, rfl⟩

private theorem sameFlushes_handleFlushError (s : State) (nodeId : NodeId) (failure : Failure) :
    (s.handleFlushError nodeId failure).flushAlls = s.flushAlls ∧
      (s.handleFlushError nodeId failure).nextFlushAll = s.nextFlushAll ∧
      (s.handleFlushError nodeId failure).queue = s.queue := by
  unfold handleFlushError
  split <;> exact ⟨rfl, rfl, rfl⟩

private theorem sameFlushes_removeClient (s : State) (nodeId : NodeId) (socketId : SocketId) :
    SameFlushes s (s.removeClient nodeId socketId) := by
  unfold removeClient
  split
  · exact .of_queue rfl rfl rfl
  · dsimp only
    split
    · exact .of_runExclusive rfl rfl rfl rfl
    · exact .of_queue rfl rfl rfl

/-- A flush that starts is the call that it was. -/
private theorem sameFlushes_flushDocLocked {s₁ : State} {t : TaskId}
    {entry : ChainTask NodeId Task} {x : Task} (knownMarkdown : Option String)
    (hcalls : s₁.flushAlls = s.flushAlls) (hnext : s₁.nextFlushAll = s.nextFlushAll)
    (hqueue : s₁.queue = s.queue) (htask : s.queue.task t = some entry)
    (hkind : x.kind = entry.payload.kind) (hended : entry.payload.phase.ended = false) :
    SameFlushes s (s₁.flushDocLocked lex t x n knownMarkdown) := by
  have hadvance : ∀ {s₂ : State} {p : Task}, s₂.flushAlls = s₁.flushAlls →
      s₂.nextFlushAll = s₁.nextFlushAll → s₂.queue = s₁.queue.advance t p → p.kind = x.kind →
      p.phase.ended = false → SameFlushes s s₂ := by
    intro s₂ p hcalls₂ hnext₂ hqueue₂ hp hphase
    exact .of_advance (hcalls₂.trans hcalls) (hnext₂.trans hnext) rfl rfl htask
      (by rw [hqueue₂, hqueue]) (hp.trans hkind) (hphase.trans hended.symm)
  unfold flushDocLocked
  split
  · exact hadvance rfl rfl rfl rfl rfl
  · dsimp only
    split
    · exact hadvance rfl rfl rfl rfl rfl
    · split
      · exact hadvance rfl rfl rfl rfl rfl
      · split <;> exact hadvance rfl rfl rfl rfl rfl

private theorem sameFlushes_startTask {t : TaskId} (h : s.startTask lex t = some s') :
    SameFlushes s s' := by
  obtain ⟨entry, htask, hphase, -, hcase⟩ := startTask_cases s h
  have hended : entry.payload.phase.ended = false := by rw [hphase]; rfl
  rcases hcase with ⟨caller, -, rfl⟩ | ⟨ws, markdown, userId, -, rfl⟩
  · exact sameFlushes_flushDocLocked none rfl rfl rfl htask rfl hended
  · obtain ⟨hcalls, hnext, hqueue⟩ := sameFlushes_getOrCreateDoc s entry.key ws
    exact .of_advance (c := (s.getOrCreateDoc entry.key ws).1.queue) hcalls hnext (by rw [hqueue])
      (by rw [hqueue]) htask rfl rfl hended.symm

private theorem sameFlushes_resumeAppend {t : TaskId} {clientId : ClientId}
    (h : s.resumeAppend lex t clientId = some s') : SameFlushes s s' := by
  obtain ⟨entry, await, ws, markdown, userId, htask, hphase, -, hcase⟩ := resumeAppend_cases s h
  have hended : entry.payload.phase.ended = false := by rw [hphase]; rfl
  obtain ⟨hcalls, hnext, hqueue⟩ := sameFlushes_finishAwait s entry.key await
  rcases hcase with ⟨failure, -, rfl⟩ | ⟨r, result, -, -, ⟨-, rfl⟩ | ⟨r', -, rfl⟩⟩
  · exact .of_advance (c := (s.finishAwait entry.key await).queue) hcalls hnext (by rw [hqueue])
      (by rw [hqueue]) htask rfl rfl hended.symm
  · exact .of_advance (c := (s.finishAwait entry.key await).queue) hcalls hnext (by rw [hqueue])
      (by rw [hqueue]) htask rfl rfl hended.symm
  · exact sameFlushes_flushDocLocked _ hcalls hnext hqueue htask rfl hended

private theorem sameFlushes_continueFlush {t : TaskId} (h : s.continueFlush t = some s') :
    SameFlushes s s' := by
  obtain ⟨entry, htask, hcase⟩ := continueFlush_cases s h
  rcases hcase with ⟨result, rfl, hphase⟩ | ⟨r, save, sv, persisted, hphase, -, hcase⟩
  · have hended : entry.payload.phase.ended = false := by
      rcases hphase with ⟨_, _, hphase, -⟩ | ⟨_, _, hphase, -⟩ | ⟨_, _, _, _, _, hphase, -⟩ <;>
        rw [hphase] <;> rfl
    exact .of_advance rfl rfl rfl rfl htask rfl rfl hended.symm
  · have hended : entry.payload.phase.ended = false := by rw [hphase]; rfl
    rcases hcase with ⟨-, rfl⟩ | ⟨userId, rfl⟩ <;>
      exact .of_advance rfl rfl rfl rfl htask rfl rfl hended.symm

private theorem sameFlushes_saveToRedisReply (s : State) (t : TaskId) (ok : Bool) :
    SameFlushes s (s.saveToRedisReply t ok) := by
  unfold saveToRedisReply
  split
  · exact .of_queue rfl rfl rfl
  · next entry htask =>
      split
      · next hphase =>
          exact .of_advance rfl rfl rfl rfl htask rfl rfl (by rw [hphase]; rfl)
      · next hphase =>
          exact .of_advance rfl rfl rfl rfl htask rfl rfl (by rw [hphase]; rfl)
      · exact .of_queue rfl rfl rfl

private theorem sameFlushes_rejectSave (s : State) (save : SaveId) (c : SaveCall)
    (committed : Bool) (failure : Failure) :
    SameFlushes s (s.rejectSave save c committed failure) := by
  unfold rejectSave
  dsimp only
  split
  · exact .of_queue rfl rfl rfl
  · next entry htask =>
      split
      · next hphase =>
          split
          · exact .of_advance rfl rfl rfl rfl htask rfl rfl (by rw [hphase]; rfl)
          · exact .of_queue rfl rfl rfl
      · exact .of_queue rfl rfl rfl

private theorem sameFlushes_redisReply {reply : Reply} (h : s.redisReply reply = some s') :
    SameFlushes s s' := by
  obtain ⟨cmd, rest, -, hcase⟩ := redisReply_cases s h
  rcases hcase with ⟨l, -, ⟨nodeId, ws, -, rfl⟩ | rfl⟩ | ⟨n, state, t, -, rfl⟩ | ⟨n, -, rfl⟩
  · exact .of_queue rfl rfl rfl
  · exact .of_queue rfl rfl rfl
  · refine (SameFlushes.of_queue ?_ ?_ ?_).trans (sameFlushes_saveToRedisReply _ t _) <;> rfl
  · exact .of_queue rfl rfl rfl

private theorem sameFlushes_updateNodeRow {save : SaveId} {reply : Reply} {now : ℕ}
    (h : s.updateNodeRow save reply now = some s') : SameFlushes s s' := by
  obtain ⟨c, -, -, ⟨-, rfl⟩ | ⟨-, -, rfl⟩ | ⟨row, -, -, ⟨-, rfl⟩ | ⟨-, rfl⟩⟩⟩ :=
    updateNodeRow_cases s h
  · exact sameFlushes_rejectSave ..
  · exact sameFlushes_rejectSave ..
  · exact .of_queue rfl rfl rfl
  · refine (SameFlushes.of_queue ?_ ?_ ?_).trans (sameFlushes_rejectSave ..) <;> rfl

/-- What a step does to the calls of `flushAll`. -/
inductive FlushAllStep (s : State) (e : Event) : State → Prop
  | same {s' : State} (h : SameFlushes s s') : FlushAllStep s e s'
  | started {s' : State} (he : e.StartsFlushAll) (h : SameFlushes s.flushAll s') :
      FlushAllStep s e s'
  /-- A call settles, and its worker takes the next node. -/
  | turned (t : TaskId) (call : ℕ) (n : NodeId) (s₁ : State)
      (hcall : s.flushCall t = some ⟨call, n, false⟩) (hcalls : s₁.flushAlls = s.flushAlls)
      (hnext : s₁.nextFlushAll = s.nextFlushAll)
      (hflushCall : s₁.flushCall = Function.update s.flushCall t (some ⟨call, n, true⟩))
      (hqueue : s₁.queue.next = s.queue.next) : FlushAllStep s e (s₁.nextFlush call)
  | restart (he : e = .restart) : FlushAllStep s e s.restart

/-- The caller of a task resumes: if it is a worker, its call has settled. -/
private theorem flushAllStep_resumeTask {t : TaskId} (h : s.resumeTask t = some s') :
    FlushAllStep s e s' := by
  obtain ⟨entry, result, htask, hphase, hcase⟩ := resumeTask_cases s h
  have hcan : (s.queue.dropTail t).CanAdvance entry
      { entry.payload with phase := .returned result } := by
    have hsettled : entry.payload.stage = .settled := by rw [Task.stage, hphase]; rfl
    refine ⟨by simp [Phase.stage], fun _ => rfl, fun hqueued => ?_⟩
    rw [hsettled] at hqueued
    cases hqueued
  have htask' : (s.queue.dropTail t).task t = some entry := by
    rw [PromiseChain.dropTail_task]
    exact htask
  -- the state in which the caller has resumed, whatever it has done about a failure
  have hafter : ∀ {s₁ : State},
      s₁.queue = (s.queue.dropTail t).advance t { entry.payload with phase := .returned result } →
      s₁.queue.next = s.queue.next ∧ s₁.flushCall = Function.update s.flushCall t
        (entry.payload.kind.flushAll.map fun call => ⟨call, entry.key, true⟩) := by
    intro s₁ hqueue
    refine ⟨by rw [hqueue]; simp, ?_⟩
    funext i
    by_cases hi : i = t
    · subst hi
      rw [Function.update_self, flushCall, hqueue, PromiseChain.advance_task_self htask' hcan]
      rfl
    · rw [Function.update_of_ne hi, flushCall, flushCall, hqueue,
        PromiseChain.advance_task htask' hcan, PromiseChain.setPayload_of_ne hi,
        PromiseChain.dropTail_task]
  -- a task that no worker has submitted
  have hother : ∀ {s₁ : State}, entry.payload.kind.flushAll = none → s₁.flushAlls = s.flushAlls →
      s₁.nextFlushAll = s.nextFlushAll →
      s₁.queue = (s.queue.dropTail t).advance t { entry.payload with phase := .returned result } →
      SameFlushes s s₁ := by
    intro s₁ hkind hcalls hnext hqueue
    obtain ⟨hqnext, hflushCall⟩ := hafter hqueue
    refine ⟨hcalls, hnext, ?_, hqnext.ge⟩
    rw [hflushCall, hkind]
    refine Function.update_eq_self_iff.mpr ?_
    rw [flushCall, htask, Option.bind_some, hkind]
    rfl
  rcases hcase with ⟨ws, markdown, userId, hkind, rfl⟩ | ⟨caller, s₂, hkind, hresult, hcaller⟩
  · exact .same (hother (by rw [hkind]; rfl) rfl rfl rfl)
  · obtain ⟨hcalls, hnext, hqueue⟩ : s₂.flushAlls = s.flushAlls ∧
        s₂.nextFlushAll = s.nextFlushAll ∧ s₂.queue = (s.queue.dropTail t).advance t
          { entry.payload with phase := .returned result } := by
      rcases hresult with ⟨persisted, -, rfl⟩ | ⟨failure, -, rfl⟩
      · exact ⟨rfl, rfl, rfl⟩
      · obtain ⟨hcalls, hnext, hqueue⟩ := sameFlushes_handleFlushError _ entry.key failure
        exact ⟨hcalls, hnext, hqueue⟩
    rcases hcaller with ⟨call, rfl, rfl⟩ | ⟨hnot, rfl⟩
    · obtain ⟨hqnext, hflushCall⟩ := hafter hqueue
      refine .turned t call entry.key s₂ ?_ hcalls hnext ?_ hqnext
      · rw [flushCall, htask, Option.bind_some, hkind, hphase]
        rfl
      · rw [hflushCall, hkind]
        rfl
    · have hnone : entry.payload.kind.flushAll = none := by
        rw [hkind]
        cases caller with
        | flushAll call => exact absurd rfl (hnot call)
        | _ => rfl
      exact .same (hother hnone hcalls hnext hqueue)

/-- A tick of the interval, or the shutdown, is a call of `flushAll`. -/
theorem sameFlushes_of_startsFlushAll (h : step lex s e = some s') (he : e.StartsFlushAll) :
    SameFlushes s.flushAll s' := by
  cases e with
  | flushInterval =>
      simp only [step] at h
      split at h <;> cases h
      exact .of_queue rfl rfl rfl
  | onModuleDestroy =>
      simp only [step] at h
      split at h <;> cases h
      exact .of_queue rfl rfl rfl
  | _ => exact he.elim

/-- **What a step can do** to the calls of `flushAll`. -/
theorem flushAllStep_of_step (h : step lex s e = some s') : FlushAllStep s e s' := by
  cases e with
  | flushInterval => exact .started trivial (sameFlushes_of_startsFlushAll h trivial)
  | onModuleDestroy => exact .started trivial (sameFlushes_of_startsFlushAll h trivial)
  | resumeTask t => exact flushAllStep_resumeTask h
  | restart =>
      cases h
      exact .restart rfl
  | getOrCreateDoc nodeId ws =>
      cases h
      obtain ⟨hcalls, hnext, hqueue⟩ := sameFlushes_getOrCreateDoc s nodeId ws
      exact .same (.of_queue hcalls hnext hqueue)
  | resumeGet get =>
      simp only [step] at h
      split at h
      · cases h
      · next c hget =>
          split at h <;> cases h
          obtain ⟨hcalls, hnext, hqueue⟩ := sameFlushes_finishAwait s c.nodeId c.await
          exact .same (.of_queue hcalls hnext hqueue)
  | removeClient nodeId socketId =>
      cases h
      exact .same (sameFlushes_removeClient s nodeId socketId)
  | appendMarkdown nodeId ws markdown userId =>
      cases h
      exact .same (.of_runExclusive rfl rfl rfl rfl)
  | fireTimer timer =>
      obtain ⟨nodeId, ⟨-, rfl⟩ | ⟨-, rfl⟩⟩ := fireTimer_cases s h
      · exact .same (.of_runExclusive rfl rfl rfl rfl)
      · exact .same (.of_queue rfl rfl rfl)
  | startTask t => exact .same (sameFlushes_startTask h)
  | resumeAppend t clientId => exact .same (sameFlushes_resumeAppend h)
  | continueFlush t => exact .same (sameFlushes_continueFlush h)
  | enqueued t ok =>
      obtain ⟨entry, r, persisted, job, htask, hphase, rfl⟩ := enqueued_cases s h
      exact .same (.of_advance rfl rfl rfl rfl htask rfl rfl (by rw [hphase]; rfl))
  | redisReply reply => exact .same (sameFlushes_redisReply h)
  | updateNodeRow save reply now => exact .same (sameFlushes_updateNodeRow h)
  | attachmentsSynced save ok =>
      obtain ⟨c, persisted, -, -, ⟨-, rfl⟩ | ⟨-, rfl⟩⟩ := attachmentsSynced_cases s h
      · exact .same (.of_queue rfl rfl rfl)
      · exact .same (sameFlushes_rejectSave ..)
  | continueLoad l =>
      obtain ⟨x, -, ⟨-, rfl⟩ | ⟨state, ws, rfl, -⟩⟩ := continueLoad_cases s h <;>
        exact .same (.of_queue rfl rfl rfl)
  | dbReply l ok clientId =>
      obtain ⟨nodeId, ws, -, rfl⟩ := dbReply_cases s h
      exact .same (.of_queue rfl rfl rfl)
  | finishDestroy =>
      obtain ⟨call, -, rfl⟩ := finishDestroy_cases s h
      exact .same (.of_queue rfl rfl rfl)
  | writeNode nodeId row =>
      simp only [step] at h
      split at h <;> cases h
      exact .same (.of_queue rfl rfl rfl)
  | _ =>
      cases h
      exact .same (.of_queue rfl rfl rfl)

end State

end AideepWebsocket.DocManager
