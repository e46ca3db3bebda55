import AideepWebsocket.DocManager.Steps

/-!
# A flush while its stores work

Between the two calls that a flush makes and its end lie steps of other tasks, of clients
and of the stores.  `StoresWork` says of a step that Redis and the database do what they
are asked in it, and that the row of the task is there; as long as every step is one of
these, a flush that has begun goes its way undisturbed:

* `flushGoes_of_step` — its task stays where it is, learns that a store has taken what it
  was given, or goes on once both have (`FlushGoes`);
* `saveGoes_of_step` — its call of `saveToDb` stays where it is, commits the row or ends
  (`SaveGoes`).
-/

namespace AideepWebsocket.DocManager

open Library

variable {lex : Lexical} {s s' : State} {e : Event} {t : TaskId}

/-- The stores do what they are asked, the row that task `t` updates is there, and the
process goes on. -/
def StoresWork (t : TaskId) (s : State) : Event → Prop
  | .redisReply reply => reply = .ok
  | .updateNodeRow save reply _ =>
      reply = .ok ∧ ∀ c ∈ s.saves save, c.task = t → s.nodes c.nodeId ≠ none
  | .attachmentsSynced _ ok => ok = true
  | .restart => False
  | _ => True

instance (t : TaskId) (s : State) (e : Event) : Decidable (StoresWork t s e) := by
  induction e using Event.casesOn <;> unfold StoresWork <;> infer_instance

/-! ### The task -/

/-- The event takes no part in a task or in a call of `saveToDb`. -/
def Event.Bystands : Event → Prop
  | .startTask _ | .resumeAppend _ _ | .continueFlush _ | .enqueued _ _ | .resumeTask _
  | .redisReply _ | .updateNodeRow _ _ _ | .attachmentsSynced _ _ | .restart => False
  | _ => True

/-- The tasks and the calls that were there go on as they were. -/
structure SameTasks (s s' : State) : Prop where
  task : ∀ {i entry}, s.queue.task i = some entry → s'.queue.task i = some entry
  saves : s'.saves = s.saves

private theorem SameTasks.of_eq (hqueue : s'.queue = s.queue) (hsaves : s'.saves = s.saves) :
    SameTasks s s' :=
  ⟨fun hentry => by rw [hqueue, hentry], hsaves⟩

private theorem SameTasks.of_submits {mem : Memory}
    (h : State.Submits { s with mem := mem } s') : SameTasks s s' :=
  ⟨h.keeps, h.saves⟩

/-- **A bystander** leaves the tasks and the calls alone. -/
private theorem sameTasks_of_bystands (h : step lex s e = some s') (he : e.Bystands) :
    SameTasks s s' := by
  cases e with
  | getOrCreateDoc m ws =>
      cases h
      obtain ⟨-, hqueue, hsaves, -⟩ := State.getOrCreateDoc_frame s m ws
      exact .of_eq hqueue hsaves
  | resumeGet get =>
      simp only [step] at h
      split at h
      · cases h
      · split at h <;> cases h
        exact .of_eq (by simp [State.removeGet]) (by simp [State.removeGet])
  | removeClient m k =>
      cases h
      obtain ⟨mem, -, hsub⟩ := State.submits_removeClient s m k
      exact .of_submits hsub
  | appendMarkdown m ws markdown userId =>
      cases h
      exact ⟨State.runExclusive_keeps s, rfl⟩
  | flushInterval =>
      simp only [step] at h
      split at h <;> cases h
      exact ⟨(State.submits_flushAll s).keeps, (State.submits_flushAll s).saves⟩
  | onModuleDestroy =>
      simp only [step] at h
      split at h <;> cases h
      exact ⟨(State.submits_flushAll s).keeps, (State.submits_flushAll s).saves⟩
  | finishDestroy =>
      obtain ⟨call, -, rfl⟩ := State.finishDestroy_cases s h
      exact .of_eq rfl rfl
  | fireTimer timer =>
      obtain ⟨m, ⟨-, rfl⟩ | ⟨-, rfl⟩⟩ := State.fireTimer_cases s h
      · exact ⟨State.runExclusive_keeps _, rfl⟩
      · exact .of_eq rfl rfl
  | continueLoad l =>
      obtain ⟨x, -, ⟨-, rfl⟩ | ⟨state, ws, rfl, -⟩⟩ := State.continueLoad_cases s h
      · exact .of_eq rfl rfl
      · exact .of_eq rfl rfl
  | dbReply l ok clientId =>
      obtain ⟨m, ws, -, rfl⟩ := State.dbReply_cases s h
      exact .of_eq rfl rfl
  | writeNode m row =>
      simp only [step] at h
      split at h <;> cases h
      exact .of_eq rfl rfl
  | addClient _ _ | applyToDoc _ _ | scheduleSave _ _ | cleanupNode _ | redisExpire _
  | deleteNode _ =>
      cases h
      exact .of_eq rfl rfl
  | _ => exact he.elim

/-- The reply of Redis has reached the flush. -/
def Phase.answered : Phase → Phase
  | .refreshing r persisted none => .refreshing r persisted (some true)
  | .saving r i stateVector none failure => .saving r i stateVector (some true) failure
  | phase => phase

/-- Both stores have answered the flush, if it has called them. -/
def Phase.answeredAll : Phase → Bool
  | .embedding _ _ _ | .settled _ | .returned _ => true
  | _ => false

/-- The flush has begun, and has learnt of no failure. -/
def Phase.unfailed : Phase → Bool
  | .refreshing _ _ redis => redis ≠ some false
  | .saving _ _ _ redis failure => redis ≠ some false ∧ failure = none
  | phase => phase.answeredAll

/-- What a step can do to the flush of task `t` while the stores work. -/
inductive FlushGoes (s : State) (e : Event) (t : TaskId) : Phase → Phase → Prop
  | stay (phase : Phase)
      (hnot : ∀ m state rest, e = .redisReply .ok → s.redis.commands ≠ .set m state t :: rest) :
      FlushGoes s e t phase phase
  | answered (phase : Phase) (m : NodeId) (state : YDoc) (rest : List RedisCommand)
      (he : e = .redisReply .ok) (hcmds : s.redis.commands = .set m state t :: rest) :
      FlushGoes s e t phase phase.answered
  | refreshed (r : DocRef) (persisted : Persisted) (phase : Phase)
      (hphase : phase.answeredAll = true) :
      FlushGoes s e t (.refreshing r persisted (some true)) phase
  | saved (r : DocRef) (i : SaveId) (stateVector : StateVector) (persisted : Persisted)
      (phase : Phase) (hsave : (s.saves i).map SaveCall.phase = some (.resolved persisted))
      (hphase : phase.answeredAll = true) :
      FlushGoes s e t (.saving r i stateVector (some true) none) phase
  | ended (phase phase' : Phase) (hphase : phase.answeredAll = true)
      (hphase' : phase'.answeredAll = true) : FlushGoes s e t phase phase'

/-- The task goes on by a step of `FlushGoes`. -/
def Goes (s : State) (e : Event) (s' : State) (t : TaskId) (entry : ChainTask NodeId Task) :
    Prop :=
  ∃ entry', s'.queue.task t = some entry' ∧ entry'.key = entry.key ∧
    FlushGoes s e t entry.payload.phase entry'.payload.phase

section Goes

variable {entry : ChainTask NodeId Task}

/-- A task is advanced, and it is this one or another. -/
private theorem goes_of_advance {c : Queue} {i : TaskId} {q : Task}
    (hentry : c.task t = some entry)
    (hstay : i ≠ t → FlushGoes s e t entry.payload.phase entry.payload.phase)
    (hgoes : i = t → FlushGoes s e t entry.payload.phase entry.payload.phase ∧
      FlushGoes s e t entry.payload.phase q.phase)
    (hqueue : s'.queue = c.advance i q) : Goes s e s' t entry := by
  obtain ⟨entry', hentry', hkey, hpay⟩ := PromiseChain.advance_of_task (i := i) (p := q) hentry
  refine ⟨entry', by rw [hqueue, hentry'], hkey, ?_⟩
  rcases hpay with hpay | ⟨rfl, hpay⟩
  · rw [hpay]
    by_cases hi : i = t
    · exact (hgoes hi).1
    · exact hstay hi
  · rw [hpay]
    exact (hgoes rfl).2

/-- The reply of Redis reaches the task whose command it answers. -/
private theorem task_saveToRedisReply (hentry : s.queue.task t = some entry) :
    ∃ entry', (s.saveToRedisReply t true).queue.task t = some entry' ∧ entry'.key = entry.key ∧
      entry'.payload.phase = entry.payload.phase.answered := by
  have hadvance : ∀ phase : Phase, phase.stage = .running → entry.payload.stage = .running →
      (s.queue.advance t { entry.payload with phase := phase }).task t =
        some { entry with payload := { entry.payload with phase := phase } } :=
    fun phase hphase hrunning => PromiseChain.advance_task_self hentry
      (PromiseChain.canAdvance_of_running hrunning (by simp [hphase]))
  unfold State.saveToRedisReply
  simp only [hentry]
  cases hphase : entry.payload.phase with
  | refreshing r persisted redis =>
      cases redis with
      | none => exact ⟨_, hadvance _ rfl (by rw [Task.stage, hphase]; rfl), rfl, rfl⟩
      | some ok => exact ⟨entry, hentry, rfl, hphase⟩
  | saving r i stateVector redis failure =>
      cases redis with
      | none => exact ⟨_, hadvance _ rfl (by rw [Task.stage, hphase]; rfl), rfl, rfl⟩
      | some ok => exact ⟨entry, hentry, rfl, hphase⟩
  | _ => exact ⟨entry, hentry, rfl, hphase⟩

private theorem goes_of_redisReply (h : s.redisReply .ok = some s')
    (hentry : s.queue.task t = some entry) : Goes s (.redisReply .ok) s' t entry := by
  obtain ⟨cmd, rest, hcmds, hcase⟩ := State.redisReply_cases s h
  -- the reply may be for another task
  have hstay : (∀ m state, cmd ≠ .set m state t) →
      FlushGoes s (.redisReply .ok) t entry.payload.phase entry.payload.phase := fun hcmd =>
    .stay _ fun m state rest' _ heq => hcmd m state (List.cons.inj (hcmds.symm.trans heq)).1
  rcases hcase with ⟨l, rfl, ⟨m, ws, -, rfl⟩ | rfl⟩ | ⟨m, state, w, rfl, rfl⟩ | ⟨m, rfl, rfl⟩
  · exact ⟨entry, hentry, rfl, hstay fun _ _ heq => by cases heq⟩
  · exact ⟨entry, hentry, rfl, hstay fun _ _ heq => by cases heq⟩
  · let s₁ : State :=
      { s with redis := ⟨Function.update s.redis.store m (some ⟨state, w⟩), rest⟩ }
    by_cases hw : w = t
    · subst hw
      obtain ⟨entry', hentry', hkey, hphase⟩ := task_saveToRedisReply (s := s₁) hentry
      refine ⟨entry', hentry', hkey, ?_⟩
      rw [hphase]
      exact .answered _ m state rest rfl hcmds
    · have hstay := hstay fun m' state' heq => hw (by cases heq; rfl)
      rcases State.saveToRedisReply_queue s₁ w true with hsame | ⟨entry₁, phase, -, hqueue, -⟩
      · exact ⟨entry, (congrArg (fun c : Queue => c.task t) hsame).trans hentry, rfl, hstay⟩
      · exact goes_of_advance hentry (fun _ => hstay) (fun heq => absurd heq hw) hqueue
  · exact ⟨entry, hentry, rfl, hstay fun _ _ heq => by cases heq⟩

private theorem goes_of_updateNodeRow {save : SaveId} {now : ℕ}
    (hrow : ∀ c ∈ s.saves save, c.task = t → s.nodes c.nodeId ≠ none)
    (h : s.updateNodeRow save .ok now = some s') (hentry : s.queue.task t = some entry) :
    Goes s (.updateNodeRow save .ok now) s' t entry := by
  have hstay : FlushGoes s (.updateNodeRow save .ok now) t entry.payload.phase
      entry.payload.phase := .stay _ fun _ _ _ he => by cases he
  obtain ⟨c, hsave, -, ⟨hnot, -⟩ | ⟨-, hnone, rfl⟩ | ⟨row, -, -, ⟨-, rfl⟩ | ⟨hnot, -⟩⟩⟩ :=
    State.updateNodeRow_cases s h
  · cases hnot
  · -- another task has lost its row
    have hother : c.task ≠ t := fun htask => hrow c hsave htask hnone
    rcases State.rejectSave_queue s save c false (.nodeGone c.nodeId) with
      hsame | ⟨entry₁, r, sv, redis, first, -, -, hqueue⟩
    · exact ⟨entry, by rw [hsame, hentry], rfl, hstay⟩
    · exact goes_of_advance hentry (fun _ => hstay) (fun heq => absurd heq hother) hqueue
  · exact ⟨entry, hentry, rfl, hstay⟩
  · exact absurd rfl hnot

private theorem goes_of_continueFlush {i : TaskId} (h : s.continueFlush i = some s')
    (hentry : s.queue.task t = some entry) (hunfailed : entry.payload.phase.unfailed = true) :
    Goes s (.continueFlush i) s' t entry := by
  have hstay : FlushGoes s (.continueFlush i) t entry.payload.phase entry.payload.phase :=
    .stay _ fun _ _ _ he => by cases he
  obtain ⟨entry₁, mem, phase, hentry₁, rfl, hcase⟩ := State.continueFlush_step s h
  refine goes_of_advance hentry (fun _ => hstay) (fun heq => ⟨hstay, ?_⟩) rfl
  subst heq
  obtain rfl : entry = entry₁ := Option.some.inj (hentry.symm.trans hentry₁)
  show FlushGoes s _ i entry.payload.phase phase
  rcases hcase with ⟨-, r, persisted, hphase, rfl⟩ | ⟨-, ⟨r, persisted, hphase⟩, -⟩ |
    ⟨-, r, save, sv, redis, failure, hphase, -⟩ | ⟨r, save, sv, persisted, hphase, hsave, -, hnext⟩
    <;> rw [hphase] at hunfailed ⊢
  · exact .refreshed r persisted _ rfl
  · simp [Phase.unfailed] at hunfailed
  · simp [Phase.unfailed] at hunfailed
  · rcases hnext with rfl | ⟨job, rfl⟩ <;> exact .saved r save sv persisted _ hsave rfl

/-- **What a step does to a flush while the stores work.** -/
theorem flushGoes_of_step (h : step lex s e = some s') (hwork : StoresWork t s e)
    (hentry : s.queue.task t = some entry) (hunfailed : entry.payload.phase.unfailed = true) :
    Goes s e s' t entry := by
  have hstay : ∀ {e : Event}, e ≠ .redisReply .ok →
      FlushGoes s e t entry.payload.phase entry.payload.phase :=
    fun he => .stay _ fun _ _ _ heq => absurd heq he
  -- a task whose flush has not begun is another one
  have hbegun : ∀ {i} {entry₁ : ChainTask NodeId Task}, s.queue.task i = some entry₁ →
      entry₁.payload.phase.unfailed = false → i ≠ t := by
    rintro i entry₁ hentry₁ hphase rfl
    obtain rfl : entry = entry₁ := Option.some.inj (hentry.symm.trans hentry₁)
    rw [hphase] at hunfailed
    cases hunfailed
  cases e with
  | startTask i =>
      obtain ⟨entry₁, hentry₁, hphase, -, hcase⟩ := State.startTask_step s h
      have hi := hbegun hentry₁ (by rw [hphase]; rfl)
      have hadvance : ∃ q, s'.queue = s.queue.advance i q := by
        rcases hcase with ⟨-, hflush⟩ | ⟨ws, markdown, userId, -, rfl⟩
        · cases hflush <;> exact ⟨_, rfl⟩
        · exact ⟨_, by rw [(State.setTask_frame _ _ _).2.2.1,
            (State.getOrCreateDoc_frame s entry₁.key ws).2.1]⟩
      obtain ⟨q, hq⟩ := hadvance
      exact goes_of_advance hentry (fun _ => hstay fun he => by cases he)
        (fun heq => absurd heq hi) hq
  | resumeAppend i clientId =>
      obtain ⟨entry₁, await, ws, markdown, userId, hentry₁, hphase, -, hcase⟩ :=
        State.resumeAppend_step s h
      have hi := hbegun hentry₁ (by rw [hphase]; rfl)
      have hqueue := (State.finishAwait_frame s entry₁.key await).2.1
      have hadvance : ∃ q, s'.queue = s.queue.advance i q := by
        rcases hcase with ⟨failure, -, rfl⟩ | ⟨r, result, mem, -, -, -, ⟨-, rfl⟩ | ⟨-, hflush⟩⟩
        · exact ⟨_, congrArg (fun c : Queue => c.advance i _) hqueue⟩
        · exact ⟨_, congrArg (fun c : Queue => c.advance i _) hqueue⟩
        · cases hflush <;> exact ⟨_, congrArg (fun c : Queue => c.advance i _) hqueue⟩
      obtain ⟨q, hq⟩ := hadvance
      exact goes_of_advance hentry (fun _ => hstay fun he => by cases he)
        (fun heq => absurd heq hi) hq
  | continueFlush i => exact goes_of_continueFlush h hentry hunfailed
  | enqueued i ok =>
      obtain ⟨entry₁, r, persisted, job, hentry₁, hphase, rfl⟩ := State.enqueued_cases s h
      refine goes_of_advance hentry (fun _ => hstay fun he => by cases he)
        (fun heq => ⟨hstay (fun he => by cases he), ?_⟩) rfl
      subst heq
      obtain rfl : entry = entry₁ := Option.some.inj (hentry.symm.trans hentry₁)
      exact .ended _ _ (by rw [hphase]; rfl) rfl
  | resumeTask i =>
      obtain ⟨entry₁, result, s₁, hentry₁, hphase, -, -, hqueue, -, -, -, -, -, hsub⟩ :=
        State.resumeTask_step s h
      have hdropped : (s.queue.dropTail i).task t = some entry := by
        rw [PromiseChain.dropTail_task, hentry]
      have hgoes : Goes s (.resumeTask i) s₁ t entry := by
        refine goes_of_advance hdropped (fun _ => hstay fun he => by cases he)
          (fun heq => ⟨hstay (fun he => by cases he), ?_⟩) hqueue
        subst heq
        obtain rfl : entry = entry₁ := Option.some.inj (hentry.symm.trans hentry₁)
        exact .ended _ _ (by rw [hphase]; rfl) rfl
      obtain ⟨entry', hentry', hkey, hphase'⟩ := hgoes
      exact ⟨entry', hsub.keeps hentry', hkey, hphase'⟩
  | redisReply reply =>
      obtain rfl : reply = .ok := hwork
      exact goes_of_redisReply h hentry
  | updateNodeRow save reply now =>
      obtain ⟨rfl, hrow⟩ := hwork
      exact goes_of_updateNodeRow hrow h hentry
  | attachmentsSynced save ok =>
      obtain rfl : ok = true := hwork
      obtain ⟨c, persisted, -, -, ⟨-, rfl⟩ | ⟨hnot, -⟩⟩ := State.attachmentsSynced_cases s h
      · exact ⟨entry, hentry, rfl, hstay fun he => by cases he⟩
      · cases hnot
  | restart => exact hwork.elim
  | _ =>
      exact ⟨entry, (sameTasks_of_bystands h trivial).task hentry, rfl,
        hstay fun he => by cases he⟩

end Goes

/-! ### The call of the database -/

/-- What a step can do to a call of `saveToDb` while the stores work. -/
inductive SaveGoes (s' : State) (c : SaveCall) : SavePhase → Prop
  | stay : SaveGoes s' c c.phase
  | committed (persisted : Persisted) (hphase : c.phase = .updateNodeRow)
      (hrow : s'.row c.nodeId = some c.state) :
      SaveGoes s' c (.syncNodeAttachments persisted)
  | synced (persisted : Persisted) (hphase : c.phase = .syncNodeAttachments persisted) :
      SaveGoes s' c (.resolved persisted)

/-- Only the database moves a call on. -/
theorem save_of_other {i : SaveId} {c : SaveCall} (h : step lex s e = some s')
    (hupdate : ∀ save reply now, e ≠ .updateNodeRow save reply now)
    (hsync : ∀ save ok, e ≠ .attachmentsSynced save ok) (hrestart : e ≠ .restart)
    (hc : s.saves i = some c) (hi : i < s.nextSave) : s'.saves i = some c := by
  have hflush : ∀ {s₁ : State} {w : TaskId} {x : Task} {m : NodeId}, s₁.FlushStep w x m s' →
      s₁.saves = s.saves → s₁.nextSave = s.nextSave → s'.saves i = some c := by
    intro s₁ w x m hflush hsaves hnext
    rw [← hsaves] at hc
    cases hflush with
    | save r mem c₀ => exact (Function.update_of_ne (hnext ▸ hi.ne) ..).trans hc
    | _ => exact hc
  cases e with
  | startTask w =>
      obtain ⟨entry, -, -, -, hcase⟩ := State.startTask_step s h
      rcases hcase with ⟨-, hstep⟩ | ⟨ws, markdown, userId, -, rfl⟩
      · exact hflush hstep rfl rfl
      · exact (congrFun (State.getOrCreateDoc_frame s entry.key ws).2.2.1 i).trans hc
  | resumeAppend w clientId =>
      obtain ⟨entry, await, ws, markdown, userId, -, -, -, hcase⟩ := State.resumeAppend_step s h
      rcases hcase with ⟨failure, -, rfl⟩ | ⟨r, result, mem, -, -, -, ⟨-, rfl⟩ | ⟨-, hstep⟩⟩
      · simpa using hc
      · simpa using hc
      · exact hflush hstep (by simp) (by simp)
  | continueFlush w =>
      obtain ⟨entry, mem, phase, -, rfl, -⟩ := State.continueFlush_step s h
      exact hc
  | enqueued w ok =>
      obtain ⟨entry, r, persisted, job, -, -, rfl⟩ := State.enqueued_cases s h
      exact hc
  | resumeTask w =>
      obtain ⟨entry, result, s₁, -, -, -, -, -, hsaves, -, -, -, -, hsub⟩ :=
        State.resumeTask_step s h
      rw [hsub.saves, hsaves, hc]
  | redisReply reply =>
      obtain ⟨cmd, rest, -, ⟨l, -, ⟨m, ws, -, rfl⟩ | rfl⟩ | ⟨m, state, w, -, rfl⟩ | ⟨m, -, rfl⟩⟩ :=
        State.redisReply_cases s h
      · exact hc
      · exact hc
      · simpa using hc
      · exact hc
  | updateNodeRow save reply now => exact absurd rfl (hupdate save reply now)
  | attachmentsSynced save ok => exact absurd rfl (hsync save ok)
  | restart => exact absurd rfl hrestart
  | _ => rw [(sameTasks_of_bystands h trivial).saves, hc]

private theorem saveGoes_of_updateNodeRow {i save : SaveId} {now : ℕ} {c : SaveCall}
    (hrow : ∀ c ∈ s.saves save, c.task = t → s.nodes c.nodeId ≠ none)
    (h : s.updateNodeRow save .ok now = some s') (hc : s.saves i = some c) (htask : c.task = t) :
    ∃ phase, s'.saves i = some { c with phase := phase } ∧ SaveGoes s' c phase := by
  obtain ⟨c₀, hsave, hphase, ⟨hnot, -⟩ | ⟨-, hnone, rfl⟩ | ⟨row, -, -, ⟨-, rfl⟩ | ⟨hnot, -⟩⟩⟩ :=
    State.updateNodeRow_cases s h
  · cases hnot
  · have hi : i ≠ save := by
      rintro rfl
      obtain rfl : c = c₀ := Option.some.inj (hc.symm.trans hsave)
      exact hrow c hc htask hnone
    refine ⟨c.phase, ?_, .stay⟩
    rw [(State.rejectSave_frame _ _ _ _ _).2.2.1, Function.update_of_ne hi, hc]
  · by_cases hi : i = save
    · subst hi
      obtain rfl : c = c₀ := Option.some.inj (hc.symm.trans hsave)
      refine ⟨_, Function.update_self .., .committed _ hphase ?_⟩
      simp [State.row, State.setSave, State.writtenRow]
    · exact ⟨c.phase, (Function.update_of_ne hi ..).trans hc, .stay⟩
  · exact absurd rfl hnot

/-- **What a step does to a call of task `t` while the stores work.** -/
theorem saveGoes_of_step {i : SaveId} {c : SaveCall} (h : step lex s e = some s')
    (hwork : StoresWork t s e) (hc : s.saves i = some c) (hi : i < s.nextSave)
    (htask : c.task = t) :
    ∃ phase, s'.saves i = some { c with phase := phase } ∧ SaveGoes s' c phase := by
  by_cases hupdate : ∃ save reply now, e = .updateNodeRow save reply now
  · obtain ⟨save, reply, now, rfl⟩ := hupdate
    obtain ⟨rfl, hrow⟩ := hwork
    exact saveGoes_of_updateNodeRow hrow h hc htask
  · by_cases hsync : ∃ save ok, e = .attachmentsSynced save ok
    · obtain ⟨save, ok, rfl⟩ := hsync
      obtain rfl : ok = true := hwork
      obtain ⟨c₀, persisted, hsave, hphase, ⟨-, rfl⟩ | ⟨hnot, -⟩⟩ :=
        State.attachmentsSynced_cases s h
      · by_cases hi : i = save
        · subst hi
          obtain rfl : c = c₀ := Option.some.inj (hc.symm.trans hsave)
          exact ⟨_, Function.update_self .., .synced persisted hphase⟩
        · exact ⟨c.phase, (Function.update_of_ne hi ..).trans hc, .stay⟩
      · cases hnot
    · have hrestart : e ≠ .restart := by
        rintro rfl
        exact hwork
      have hkept := save_of_other h (fun save reply now he => hupdate ⟨save, reply, now, he⟩)
        (fun save ok he => hsync ⟨save, ok, he⟩) hrestart hc hi
      exact ⟨c.phase, hkept, .stay⟩

end AideepWebsocket.DocManager
