import AideepWebsocket.DocManager.Steps
import AideepWebsocket.Library.Lock

/-!
# The queue of a node as a lock

`runExclusive(nodeId, task)` chains `task` behind the promise that `operations` has for the
node, puts the new promise there, awaits it, and deletes the entry in its `finally` if it
is still its own.  Nothing in it depends on what the tasks do, and it is `Library.Lock`,
with the nodes for its keys and what a promise settles with, a rejection or a value, for
its results:

* `submit` — a call, up to `await current`;
* `start` — the callback of `.then`, once `previous.catch(…)` has settled;
* `settle` — `current` rejects or resolves, any time after that;
* `resume` — the call goes on after its `await`, with the `finally`.

The queue of the manager is that lock, with tasks of two kinds: `lockOf` forgets what they
are and what they await, and a step of the manager is a few moves of it (`moves_of_step`).
A process that ends takes its lock with it, so the runs here have no `restart`.
-/

namespace AideepWebsocket.DocManager

open Library

variable {lex : Lexical} {s s' : State} {e : Event}

/-- What the queue knows of a task. -/
def Phase.turn : Phase → Turn (Except Failure Persisted)
  | .queued => .queued
  | .settled result => .settled result
  | .returned result => .returned result
  | _ => .running

theorem Task.stage_turn (x : Task) : x.phase.turn.stage = x.stage := by
  unfold Task.stage
  cases x.phase <;> rfl

/-- The queue of the manager, with its tasks by what the queue knows of them. -/
def lockOf (c : Queue) : Lock NodeId (Except Failure Persisted) :=
  c.map (fun x => x.phase.turn) Task.stage_turn

/-- The events in which `runExclusive` may be called: `appendMarkdown` and `flushDoc` from
outside, from a timer, and by a worker of `flushAll` whose flush has returned.  The code of
a task runs in none of them. -/
def Event.submits : Event → Bool
  | .appendMarkdown .. | .removeClient .. | .flushInterval | .onModuleDestroy
  | .fireTimer _ | .resumeTask _ => true
  | _ => false

/-! ### A step of the manager -/

/-- What an event may do to the lock. -/
def Turns (e : Event) (c c' : Queue) : Prop :=
  Lock.Moves (fun f => f.submits = true → e.submits = true) (lockOf c) (lockOf c')

section Turns

variable {c c' c₁ c₂ c₃ : Queue} {i : TaskId} {entry : ChainTask NodeId Task}

private theorem Turns.of_eq (h : c' = c) : Turns e c c' := h ▸ .refl _

private theorem Turns.trans (h : Turns e c₁ c₂) (k : Turns e c₂ c₃) : Turns e c₁ c₃ :=
  Lock.Moves.trans h k

private theorem turns_of_moves
    (h : Lock.Moves (fun f => f.submits = false) (lockOf c) (lockOf c')) : Turns e c c' :=
  h.mono fun f hf hsubmits => by rw [hf] at hsubmits; cases hsubmits

private theorem turns_runExclusive (he : e.submits = true) (s : State) (nodeId : NodeId)
    (kind : TaskKind) : Turns e s.queue (s.runExclusive nodeId kind).queue := by
  have hsubmit : lockOf (s.runExclusive nodeId kind).queue =
      (lockOf s.queue).submit nodeId .queued Turn.stage_queued :=
    PromiseChain.map_submit s.queue nodeId _ rfl
  unfold Turns
  rw [hsubmit]
  exact Lock.Moves.submit _ nodeId fun _ => he

/-- A task makes a step. -/
private theorem turns_advance (hentry : c.task i = some entry)
    (hstage : entry.payload.stage ≠ .settled) {x : Task} (hx : x.phase.turn.answer = none) :
    Turns e c (c.advance i x) := by
  have hadvance : lockOf (c.advance i x) = (lockOf c).advance i x.phase.turn :=
    PromiseChain.map_advance c i x
  refine turns_of_moves ?_
  rw [hadvance]
  refine Lock.Moves.advance (PromiseChain.map_task hentry) ?_ hx
  rw [Task.stage_turn]
  exact hstage

/-- The caller of a task resumes. -/
private theorem turns_resume (hentry : c.task i = some entry)
    {result : Except Failure Persisted} (hphase : entry.payload.phase = .settled result) :
    Turns e c ((c.dropTail i).advance i { entry.payload with phase := .returned result }) := by
  have hsettled : entry.payload.stage = .settled := by
    rw [Task.stage, hphase]
    rfl
  have hresume : lockOf ((c.dropTail i).advance i { entry.payload with phase := .returned result }) =
      ((lockOf c).dropTail i).advance i (.returned result) := by
    refine (PromiseChain.map_advance _ i _).trans ?_
    rw [PromiseChain.map_dropTail hentry hsettled]
    rfl
  refine turns_of_moves ?_
  rw [hresume]
  exact Lock.Moves.resume (PromiseChain.map_task hentry) (congrArg Phase.turn hphase)

private theorem turns_nextFlush (he : e.submits = true) (s : State) (call : ℕ) :
    Turns e s.queue (s.nextFlush call).queue := by
  unfold State.nextFlush
  split
  · exact .of_eq rfl
  · split
    · exact turns_runExclusive he _ _ _
    · exact .of_eq rfl

private theorem turns_flushAll (he : e.submits = true) (s : State) :
    Turns e s.queue s.flushAll.queue := by
  apply State.flushAll_induction (P := fun s₁ => Turns e s.queue s₁.queue)
  · exact .of_eq rfl
  · intro s₁ h
    exact h.trans (turns_nextFlush he s₁ _)

/-- `flushDocLocked` is a step of its task. -/
private theorem turns_flushStep {t : TaskId} {x : Task} {n : NodeId}
    (h : s.FlushStep t x n s') (hentry : s.queue.task t = some entry)
    (hstage : entry.payload.stage ≠ .settled) : Turns e s.queue s'.queue := by
  cases h with
  | notLoaded _ => exact turns_advance hentry hstage rfl
  | skip r mem _ _ _ => exact turns_advance hentry hstage rfl
  | throws r mem cmds _ _ _ => exact turns_advance hentry hstage rfl
  | save r mem c _ _ _ _ _ _ _ _ => exact turns_advance hentry hstage rfl

/-- The reply of a store is a step of the task that awaits it, if one does. -/
private theorem turns_rejectSave (s : State) (save : SaveId) (c : SaveCall) (committed : Bool)
    (failure : Failure) :
    Turns e s.queue (s.rejectSave save c committed failure).queue := by
  rcases State.rejectSave_queue s save c committed failure with
    heq | ⟨entry, r, sv, redis, first, hentry, hphase, heq⟩
  · exact .of_eq heq
  · rw [heq]
    exact turns_advance hentry (by simp [Task.stage, hphase, Phase.stage]) rfl

private theorem turns_saveToRedisReply (s : State) (t : TaskId) (ok : Bool) :
    Turns e s.queue (s.saveToRedisReply t ok).queue := by
  rcases State.saveToRedisReply_queue s t ok with heq | ⟨entry, phase, hentry, heq, hcase⟩
  · exact .of_eq heq
  · rw [heq]
    rcases hcase with ⟨r, persisted, hphase, rfl⟩ | ⟨r, save, sv, failure, hphase, rfl⟩
    · exact turns_advance hentry (by simp [Task.stage, hphase, Phase.stage]) rfl
    · exact turns_advance hentry (by simp [Task.stage, hphase, Phase.stage]) rfl

/-- **A step of the manager is a few moves of the lock**, and a submission is one of them
only in the events in which `runExclusive` may be called. -/
theorem turns_of_step (h : step lex s e = some s') (he : e ≠ .restart) :
    Turns e s.queue s'.queue := by
  cases e with
  | getOrCreateDoc nodeId workspaceId =>
      cases h
      exact .of_eq (State.getOrCreateDoc_frame s nodeId workspaceId).2.1
  | resumeGet get =>
      simp only [step] at h
      split at h
      · cases h
      · split at h
        · cases h
        · cases h
          exact .of_eq (by simp [State.removeGet])
  | addClient nodeId socketId =>
      cases h
      exact .of_eq rfl
  | removeClient nodeId socketId =>
      cases h
      unfold State.removeClient
      split
      · exact .of_eq rfl
      · dsimp only
        split
        · exact turns_runExclusive rfl s nodeId _
        · exact .of_eq rfl
  | applyToDoc nodeId update =>
      cases h
      exact .of_eq rfl
  | scheduleSave nodeId userId =>
      cases h
      exact .of_eq rfl
  | appendMarkdown nodeId workspaceId markdown userId =>
      cases h
      exact turns_runExclusive rfl s nodeId _
  | cleanupNode nodeId =>
      cases h
      exact .of_eq rfl
  | flushInterval =>
      simp only [step] at h
      split at h
      · cases h
        exact turns_flushAll rfl s
      · cases h
  | onModuleDestroy =>
      simp only [step] at h
      split at h
      · cases h
        exact turns_flushAll rfl s
      · cases h
  | finishDestroy =>
      obtain ⟨call, -, rfl⟩ := State.finishDestroy_cases s h
      exact .of_eq rfl
  | fireTimer timer =>
      obtain ⟨nodeId, ⟨-, rfl⟩ | ⟨-, rfl⟩⟩ := State.fireTimer_cases s h
      · exact turns_runExclusive rfl { s with mem := s.mem.clearTimeout (some timer) } nodeId _
      · exact .of_eq rfl
  | continueLoad l =>
      obtain ⟨x, -, ⟨-, rfl⟩ | ⟨state, workspaceId, rfl, -⟩⟩ := State.continueLoad_cases s h
      · exact .of_eq rfl
      · exact .of_eq rfl
  | dbReply l ok clientId =>
      obtain ⟨nodeId, workspaceId, -, rfl⟩ := State.dbReply_cases s h
      exact .of_eq rfl
  | startTask t =>
      obtain ⟨entry, hentry, hphase, -, ⟨-, hflush⟩ | ⟨ws, markdown, userId, -, rfl⟩⟩ :=
        State.startTask_step s h
      · exact turns_flushStep hflush hentry (by simp [Task.stage, hphase, Phase.stage])
      · refine Turns.trans (.of_eq (State.getOrCreateDoc_frame s entry.key ws).2.1) ?_
        have hentry' : (s.getOrCreateDoc entry.key ws).1.queue.task t = some entry := by
          rw [(State.getOrCreateDoc_frame s entry.key ws).2.1]
          exact hentry
        exact turns_advance hentry' (by simp [Task.stage, hphase, Phase.stage]) rfl
  | resumeAppend t clientId =>
      obtain ⟨entry, await, ws, markdown, userId, hentry, hphase, -, hcase⟩ :=
        State.resumeAppend_step s h
      have hstage : entry.payload.stage ≠ .settled := by
        simp [Task.stage, hphase, Phase.stage]
      have hqueue : (s.finishAwait entry.key await).queue = s.queue := by simp
      refine Turns.trans (.of_eq hqueue) ?_
      rw [← hqueue] at hentry
      rcases hcase with ⟨failure, -, rfl⟩ | ⟨r, result, mem, -, -, -, ⟨-, rfl⟩ | ⟨-, hflush⟩⟩
      · exact turns_advance hentry hstage rfl
      · exact turns_advance hentry hstage rfl
      · refine Turns.trans ?_ (turns_flushStep hflush hentry hstage)
        exact .of_eq rfl
  | continueFlush t =>
      obtain ⟨entry, mem, phase, hentry, rfl, hcase⟩ := State.continueFlush_step s h
      rcases hcase with ⟨-, r, persisted, hphase, rfl⟩ | ⟨-, ⟨r, persisted, hphase⟩, rfl⟩ |
        ⟨-, r, save, sv, redis, failure, hphase, rfl⟩ |
        ⟨r, save, sv, persisted, hphase, -, -, rfl | ⟨job, rfl⟩⟩ <;>
      exact turns_advance hentry (by simp [Task.stage, hphase, Phase.stage]) rfl
  | enqueued t ok =>
      obtain ⟨entry, r, persisted, job, hentry, hphase, rfl⟩ := State.enqueued_cases s h
      exact turns_advance hentry (by simp [Task.stage, hphase, Phase.stage]) rfl
  | resumeTask t =>
      obtain ⟨entry, result, hentry, hphase, hcase⟩ := State.resumeTask_cases s h
      refine Turns.trans (turns_resume hentry hphase) ?_
      rcases hcase with ⟨ws, markdown, userId, -, rfl⟩ | ⟨caller, s₂, -, hresult, hcaller⟩
      · exact .of_eq rfl
      · have hnext : Turns (.resumeTask t) s₂.queue s'.queue := by
          rcases hcaller with ⟨call, -, rfl⟩ | ⟨-, rfl⟩
          · exact turns_nextFlush rfl s₂ call
          · exact .of_eq rfl
        refine Turns.trans ?_ hnext
        rcases hresult with ⟨persisted, -, rfl⟩ | ⟨failure, -, rfl⟩
        · exact .of_eq rfl
        · exact .of_eq (State.handleFlushError_frame _ entry.key failure).2.2.1
  | redisReply reply =>
      obtain ⟨cmd, rest, -, ⟨l, -, ⟨nodeId, workspaceId, -, rfl⟩ | rfl⟩ |
        ⟨n, state, t, -, rfl⟩ | ⟨n, -, rfl⟩⟩ := State.redisReply_cases s h
      · exact .of_eq rfl
      · exact .of_eq rfl
      · refine Turns.trans ?_ (turns_saveToRedisReply _ t _)
        exact .of_eq rfl
      · exact .of_eq rfl
  | redisExpire nodeId =>
      cases h
      exact .of_eq rfl
  | updateNodeRow save reply now =>
      obtain ⟨c, -, -, ⟨-, rfl⟩ | ⟨-, -, rfl⟩ | ⟨row, -, -, ⟨-, rfl⟩ | ⟨-, rfl⟩⟩⟩ :=
        State.updateNodeRow_cases s h
      · exact turns_rejectSave s save c false _
      · exact turns_rejectSave s save c false _
      · exact .of_eq rfl
      · refine Turns.trans ?_ (turns_rejectSave _ save c true _)
        exact .of_eq rfl
  | attachmentsSynced save ok =>
      obtain ⟨c, persisted, -, -, ⟨-, rfl⟩ | ⟨-, rfl⟩⟩ := State.attachmentsSynced_cases s h
      · exact .of_eq rfl
      · exact turns_rejectSave s save c true _
  | writeNode nodeId row =>
      simp only [step] at h
      split at h
      · cases h
        exact .of_eq rfl
      · cases h
  | deleteNode nodeId =>
      cases h
      exact .of_eq rfl
  | restart => exact absurd rfl he

/-- A run of one process is a run of its lock. -/
theorem moves_of_exec {es : List Event} (hes : exec (step lex) s es = some s')
    (hlive : .restart ∉ es) : Lock.Moves (fun _ => True) (lockOf s.queue) (lockOf s'.queue) := by
  induction es generalizing s with
  | nil =>
      cases hes
      exact .refl _
  | cons e es ih =>
      rw [exec_cons, Option.bind_eq_some_iff] at hes
      obtain ⟨s₁, hstep, hes⟩ := hes
      have hne : e ≠ .restart := fun he => hlive (he ▸ List.mem_cons_self ..)
      refine Lock.Moves.trans ?_ (ih hes fun hmem => hlive (List.mem_cons_of_mem _ hmem))
      exact (turns_of_step hstep hne).mono fun _ _ => trivial

/-! ### Who submits -/

/-- Nobody else submits a task. -/
theorem next_of_not_submits (h : step lex s e = some s') (he : e.submits = false) :
    s'.queue.next = s.queue.next := by
  by_cases hrestart : e = .restart
  · subst hrestart
    cases h
    rfl
  · have hmoves : Lock.Moves (fun f => f.submits = false) (lockOf s.queue) (lockOf s'.queue) := by
      refine (turns_of_step h hrestart).mono fun f hf => ?_
      cases hf' : f.submits with
      | false => rfl
      | true =>
          have hsubmits := hf hf'
          rw [he] at hsubmits
          cases hsubmits
    exact hmoves.next_eq

/-- A step that may submit is not a step of a task: those that have not settled stand where
they stood. -/
theorem task_of_submits (h : step lex s e = some s') (he : e.submits = true)
    (hentry : s.queue.task i = some entry) (hstage : entry.payload.stage ≠ .settled) :
    s'.queue.task i = some entry := by
  cases e with
  | appendMarkdown nodeId workspaceId markdown userId =>
      cases h
      exact State.runExclusive_keeps s hentry
  | removeClient nodeId socketId =>
      cases h
      obtain ⟨mem, -, hsub⟩ := State.submits_removeClient s nodeId socketId
      exact hsub.keeps hentry
  | flushInterval =>
      simp only [step] at h
      split at h
      · cases h
        exact (State.submits_flushAll s).keeps hentry
      · cases h
  | onModuleDestroy =>
      simp only [step] at h
      split at h
      · cases h
        exact (State.submits_flushAll s).keeps hentry
      · cases h
  | fireTimer timer =>
      obtain ⟨nodeId, ⟨-, rfl⟩ | ⟨-, rfl⟩⟩ := State.fireTimer_cases s h
      · exact State.runExclusive_keeps _ hentry
      · exact hentry
  | resumeTask t =>
      obtain ⟨entry₁, result, s₁, hentry₁, hphase, -, -, hqueue, -, -, -, -, -, hsub⟩ :=
        State.resumeTask_step s h
      refine hsub.keeps ?_
      have hne : i ≠ t := by
        rintro rfl
        obtain rfl := Option.some.inj (hentry.symm.trans hentry₁)
        exact hstage (by rw [Task.stage, hphase]; rfl)
      rw [hqueue, PromiseChain.advance_task_of_ne hne, PromiseChain.dropTail_task]
      exact hentry
  | _ => cases he

end Turns

/-! ### The queue is a fair lock -/

/-- **Every sequence of calls of `runExclusive` is served fairly.**

* Whatever the tasks are and whenever they are submitted, start and settle, the lock is
  fair: the tasks of a node run one at a time in the order of the calls, each once; a task
  waits for the older tasks of its node to settle, either way, and for nothing else; each
  caller is given what its own task has settled with; and a node whose callers have all
  resumed has no entry.
* A process that has just started, whatever the stores hold, makes a run of that lock.
* A step of the manager that submits a task is a call from outside, a timer, or a caller
  that has resumed; no task that is queued or running makes it. -/
theorem runExclusive_fair :
    (∀ (ε α : Type) (es : List (Lock.Event NodeId (Except ε α)))
        (c : Lock NodeId (Except ε α)),
      exec Lock.step .empty es = some c → Lock.Fair es c) ∧
    (∀ (lex : Lexical) (s : State) (es : List Event) (s' : State),
      s.queue = .empty → .restart ∉ es → exec (step lex) s es = some s' →
        ∃ fs, exec Lock.step .empty fs = some (lockOf s'.queue)) ∧
    ∀ (lex : Lexical) (s : State) (e : Event) (s' : State), step lex s e = some s' →
      s'.queue.next ≠ s.queue.next → e.submits = true ∧
        ∀ i entry, s.queue.task i = some entry → entry.payload.stage ≠ .settled →
          s'.queue.task i = some entry := by
  refine ⟨fun ε α es c hes => Lock.fair_of_exec hes, ?_, ?_⟩
  · intro lex s es s' hempty hlive hes
    obtain ⟨fs, hfs, -⟩ := moves_of_exec hes hlive
    have hlock : lockOf s.queue = .empty := by
      rw [hempty]
      rfl
    rw [hlock] at hfs
    exact ⟨fs, hfs⟩
  · intro lex s e s' h hnext
    have he : e.submits = true := by
      cases hsubmits : e.submits with
      | true => rfl
      | false => exact absurd (next_of_not_submits h hsubmits) hnext
    exact ⟨he, fun i entry hentry hstage => task_of_submits h he hentry hstage⟩

/-- Two tasks of the node `1` and one of the node `2`.  The first rejects, and the second is
done before that of the other node. -/
def rejectedFirst : List (Lock.Event NodeId (Except String ℕ)) :=
  [.submit 1, .submit 2, .submit 1, .start 0, .start 1, .settle 0 (.error "P2028"), .start 2,
    .resume 0, .settle 2 (.ok 5), .resume 2, .settle 1 (.ok 3), .resume 1]

theorem rejectedFirst_fair :
    (∃ c, exec Lock.step .empty rejectedFirst = some c ∧ Lock.Fair rejectedFirst c ∧
      Lock.starts 1 rejectedFirst = [0, 2] ∧ Lock.answers 0 rejectedFirst = [.error "P2028"] ∧
      Lock.answers 2 rejectedFirst = [.ok 5]) ∧
    (∃ s fs, exec (step .plain) (State.init oneNode)
        [.appendMarkdown 1 7 "text" 9, .startTask 0] = some s ∧
      exec Lock.step .empty fs = some (lockOf s.queue)) ∧
    ∃ s, step .plain (State.init oneNode) (.appendMarkdown 1 7 "text" 9) = some s ∧
      (Event.appendMarkdown 1 7 "text" 9).submits = true ∧
        ∀ i entry, (State.init oneNode).queue.task i = some entry →
          entry.payload.stage ≠ .settled → s.queue.task i = some entry := by
  obtain ⟨hfair, hlock, hsubmits⟩ := runExclusive_fair
  refine ⟨?_, ?_, ?_⟩
  · have hsome : (exec Lock.step .empty rejectedFirst).isSome = true := by decide
    obtain ⟨c, hc⟩ := Option.isSome_iff_exists.mp hsome
    exact ⟨c, hc, hfair _ _ _ c hc, rfl, rfl, rfl⟩
  · have hsome : (exec (step .plain) (State.init oneNode)
        [.appendMarkdown 1 7 "text" 9, .startTask 0]).isSome = true := by decide
    obtain ⟨s, hs⟩ := Option.isSome_iff_exists.mp hsome
    obtain ⟨fs, hfs⟩ := hlock .plain _ _ s rfl (by decide) hs
    exact ⟨s, fs, hs, hfs⟩
  · exact ⟨_, rfl, hsubmits .plain _ _ _ rfl (by decide)⟩

end AideepWebsocket.DocManager
