import AideepWebsocket.DocManager.Stores

/-!
# Does a failed append leave a trace?

`appendMarkdown` edits the document in memory and then writes two stores.  When
one of the writes rejects, the append rejects, and its caller releases the claim
so that the command can be repeated; but nothing undoes the edit, and the next
flush of the node persists it.  Only an append that fails *early* — the load
rejects, or the conversion throws — leaves everything as it was.

`rejected_noTrace_iff` states this as an equivalence over runs: a rejected append
has left no trace exactly when it failed early.  A trace is any effect of the
steps that the append takes, or that its save takes on its behalf (`OwnStep`): a
change in a document or a row, a save, a snapshot sent to Redis, a captured
state.  `appended_le_of_exec` adds that the blocks, once in the document, stay
there for the rest of the run.
-/

namespace AideepWebsocket.DocManager

open Library

variable {lex : Lexical} {s s' : State} {e : Event} {nodes : NodeId → Option NodeRow}
  {t : TaskId}

/-! ### Traces -/

/-- The event is a step of task `t`, or of a save that it has made. -/
def OwnStep (s : State) (t : TaskId) : Event → Prop
  | .startTask i | .resumeAppend i _ | .continueFlush i | .enqueued i _ | .resumeTask i => i = t
  | .updateNodeRow save _ _ | .attachmentsSynced save _ => ∃ c ∈ s.saves save, c.task = t
  | _ => False

/-- The step leaves no trace of task `t`: not in the document of its node, and not
in what is or will be stored. -/
structure Untouched (s s' : State) (t : TaskId) : Prop where
  doc : ∀ {entry r}, s.queue.task t = some entry → s.mem.docs entry.key = some r →
    (s'.mem.heap r).doc = (s.mem.heap r).doc
  rows : ∀ n, s'.row n = s.row n
  saves : s'.nextSave = s.nextSave
  snapshots : ∀ {n state}, Snapshot s' n state t → Snapshot s n state t
  captured : ∀ {entry}, s'.queue.task t = some entry → entry.payload.captured = none

/-- No step of the run leaves a trace of task `t`. -/
def NoTrace (lex : Lexical) (nodes : NodeId → Option NodeRow) (es : List Event) (t : TaskId) :
    Prop :=
  Along (step lex) (fun s e s' => OwnStep s t e → Untouched s s' t) (State.init nodes) es

/-- At the end of the run the append of task `t` has rejected. -/
def RejectedAppend (lex : Lexical) (nodes : NodeId → Option NodeRow) (es : List Event)
    (t : TaskId) : Prop :=
  ∃ fin entry failure ws markdown userId, exec (step lex) (State.init nodes) es = some fin ∧
    fin.queue.task t = some entry ∧ entry.payload.kind = .appendMarkdown ws markdown userId ∧
    (entry.payload.phase = .settled (.error failure) ∨
      entry.payload.phase = .returned (.error failure))

/-- The load that the append of task `t` awaits has resolved with the object at
`r`, and the conversion succeeds on its document. -/
def Converts (lex : Lexical) (s : State) (t : TaskId) (clientId : ClientId) (n : NodeId)
    (r : DocRef) (result : AppendResult) : Prop :=
  ∃ entry await ws markdown userId, s.queue.task t = some entry ∧ entry.key = n ∧
    entry.payload.phase = .loadingDoc await ∧
    entry.payload.kind = .appendMarkdown ws markdown userId ∧
    s.awaited await = some (.ok r) ∧
    lex.append clientId (s.mem.heap r).doc markdown = some result

/-- The append fails early: whenever the run resumes it, its load has rejected or
its conversion throws — or else its node has left `docs`, and the append throws on
the missing entry. -/
def FailsEarly (lex : Lexical) (nodes : NodeId → Option NodeRow) (es : List Event) (t : TaskId) :
    Prop :=
  Along (step lex) (fun s e _ => ∀ clientId n r result, e = .resumeAppend t clientId →
    Converts lex s t clientId n r result → s.mem.docs n = none) (State.init nodes) es

/-! ### Tasks keep what they are -/

theorem task_of_exec {fin : State} {es : List Event} (hes : exec (step lex) s es = some fin)
    {entry : ChainTask NodeId Task} (ht : s.queue.task t = some entry) :
    ∃ entry', fin.queue.task t = some entry' ∧ entry'.key = entry.key ∧
      entry'.payload.kind = entry.payload.kind := by
  induction es generalizing s entry with
  | nil =>
      cases hes
      exact ⟨entry, ht, rfl, rfl⟩
  | cons e es ih =>
      rw [exec_cons, Option.bind_eq_some_iff] at hes
      obtain ⟨s₁, hstep, hes⟩ := hes
      obtain ⟨entry₁, ht₁, hkey₁, htask⟩ := step_task hstep ht
      obtain ⟨entry', ht', hkey, hkind⟩ := ih hes ht₁
      exact ⟨entry', ht', hkey.trans hkey₁, hkind.trans htask.kind⟩

/-- In every state before `fin`, task `t` is the append it is in `fin`. -/
def IsAppend (s : State) (t : TaskId) : Prop :=
  ∀ {entry}, s.queue.task t = some entry →
    ∃ ws markdown userId, entry.payload.kind = .appendMarkdown ws markdown userId

private theorem isAppend_of_exec {fin : State} {es : List Event}
    (hes : exec (step lex) s es = some fin) (hfin : IsAppend fin t) : IsAppend s t := by
  intro entry ht
  obtain ⟨entry', ht', -, hkind⟩ := task_of_exec hes ht
  obtain ⟨ws, markdown, userId, hkind'⟩ := hfin ht'
  exact ⟨ws, markdown, userId, hkind.symm.trans hkind'⟩

/-! ### An append that fails early -/

/-- The append has made no save and captured nothing. -/
structure Unbegun (s : State) (t : TaskId) : Prop where
  saves : ∀ {i c}, s.saves i = some c → c.task ≠ t
  captured : ∀ {entry}, s.queue.task t = some entry → entry.payload.captured = none

/-- Whose snapshot a task has captured changes only when its flush begins. -/
theorem TaskStep.captured_eq {i : TaskId} {entry : ChainTask NodeId Task} {x : Task}
    (h : TaskStep s e s' i entry x)
    (he : ¬ (e = .startTask i ∨ ∃ clientId, e = .resumeAppend i clientId)) :
    x.captured = entry.payload.captured := by
  cases h with
  | fail x f _ _ _ hcaptured =>
      rcases hcaptured with hsame | ⟨-, hevent, -⟩
      · exact hsame
      · exact absurd hevent he
  | skip x r p _ hevent => exact absurd hevent he
  | save x c _ hevent => exact absurd hevent he
  | gone _ =>
      unfold State.goneTask
      split <;> rfl
  | _ => rfl

/-- A task that is advanced without a capture has captured nothing still. -/
private theorem captured_of_advance (hU : Unbegun s t) {q : Queue} {x : Task}
    {entry entry' : ChainTask NodeId Task} (htask : s.queue.task t = some entry)
    (ht : (q.advance t x).task t = some entry') (hq : q.task = s.queue.task)
    (hx : x.captured = entry.payload.captured) : entry'.payload.captured = none := by
  obtain ⟨entry₁, hentry₁, -, hpay⟩ := PromiseChain.exists_of_advance ht
  rw [hq, htask] at hentry₁
  cases hentry₁
  rcases hpay with hpay | ⟨-, hpay⟩ <;> rw [hpay]
  · exact hU.captured htask
  · exact hx.trans (hU.captured htask)

/-- A step that leaves documents, rows, saves and snapshots alone. -/
private theorem untouched_of_frame
    (hdoc : ∀ {entry r}, s.queue.task t = some entry → s.mem.docs entry.key = some r →
      (s'.mem.heap r).doc = (s.mem.heap r).doc)
    (hnodes : s'.nodes = s.nodes) (hnext : s'.nextSave = s.nextSave)
    (hstore : s'.redis.store = s.redis.store)
    (hsets : ∀ {n state w}, .set n state w ∈ s'.redis.commands →
      .set n state w ∈ s.redis.commands)
    (hcaptured : ∀ {entry}, s'.queue.task t = some entry → entry.payload.captured = none) :
    Untouched s s' t where
  doc := hdoc
  rows n := by rw [State.row, State.row, hnodes]
  saves := hnext
  snapshots hs := by
    rcases hs with hs | hs
    · exact Or.inl (hsets hs)
    · exact Or.inr (hstore ▸ hs)
  captured := hcaptured

private theorem untouched_of_startTask (hU : Unbegun s t) (hA : IsAppend s t)
    (h : s.startTask lex t = some s') : Untouched s s' t := by
  obtain ⟨entry, htask, -, -, ⟨⟨caller, hkind⟩, -⟩ | ⟨ws, markdown, userId, -, rfl⟩⟩ :=
    State.startTask_step s h
  · obtain ⟨ws, markdown, userId, hkind'⟩ := hA htask
    rw [hkind] at hkind'
    cases hkind'
  · obtain ⟨hmem, hqueue, hsaves, hnext, hnodes, hstore, hsets⟩ :=
      State.getOrCreateDoc_frame s entry.key ws
    refine untouched_of_frame (fun _ _ => hmem.doc _) hnodes hnext hstore hsets fun ht => ?_
    exact captured_of_advance hU htask ht (by rw [hqueue]) rfl

private theorem untouched_of_resumeAppend (hU : Unbegun s t) {clientId : ClientId}
    (h : s.resumeAppend lex t clientId = some s')
    (hearly : ∀ n r result, Converts lex s t clientId n r result → s.mem.docs n = none) :
    Untouched s s' t := by
  obtain ⟨entry, await, ws, markdown, userId, htask, hphase, hkind, hcase⟩ :=
    State.resumeAppend_step s h
  rcases hcase with ⟨failure, -, rfl⟩ | ⟨r, result, mem, hawait, hresult, hedit, hflush⟩
  · refine untouched_of_frame (by simp) (by simp) (by simp) (by simp) (by simp) fun ht => ?_
    exact captured_of_advance hU htask ht (by simp) rfl
  · have hnone := hearly entry.key r result
      ⟨entry, await, ws, markdown, userId, htask, rfl, hphase, hkind, hawait, hresult⟩
    rcases hflush with ⟨-, rfl⟩ | ⟨hsome, -⟩
    · refine untouched_of_frame (fun {entry' q} ht hq => ?_) (by simp) (by simp) (by simp)
        (by simp) fun ht => ?_
      · rw [htask] at ht
        cases ht
        rw [hnone] at hq
        cases hq
      · exact captured_of_advance hU htask ht (by simp) rfl
    · exact absurd hnone hsome

private theorem untouched_of_continueFlush (hU : Unbegun s t)
    (h : s.continueFlush t = some s') : Untouched s s' t := by
  obtain ⟨entry, mem, phase, htask, rfl, hcase⟩ := State.continueFlush_step s h
  refine untouched_of_frame (fun {_ r} _ _ => ?_) rfl rfl rfl id fun ht => ?_
  · show (mem.heap r).doc = _
    rcases hcase with ⟨rfl, -⟩ | ⟨rfl, -⟩ | ⟨rfl, -⟩ | ⟨r', save, sv, p, -, -, hrecord, -⟩
    · rfl
    · rfl
    · rfl
    · exact hrecord.doc r
  · exact captured_of_advance hU htask ht rfl rfl

private theorem untouched_of_enqueued (hU : Unbegun s t) {ok : Bool}
    (h : s.enqueued t ok = some s') : Untouched s s' t := by
  obtain ⟨entry, r, persisted, job, htask, -, rfl⟩ := State.enqueued_cases s h
  refine untouched_of_frame (fun _ _ => rfl) rfl rfl rfl id fun ht => ?_
  exact captured_of_advance hU htask ht rfl rfl

private theorem untouched_of_resumeTask (hU : Unbegun s t) (h : s.resumeTask t = some s') :
    Untouched s s' t := by
  obtain ⟨entry, result, s₁, htask, -, hmem, -, hqueue, -, hnext, hnodes, hstore, hcmds, hsub⟩ :=
    State.resumeTask_step s h
  refine untouched_of_frame (fun _ _ => ?_) (hsub.nodes.trans hnodes) (hsub.nextSave.trans hnext)
    (by rw [hsub.redis, hstore]) (fun hset => ?_) fun ht => ?_
  · rw [hsub.mem, hmem.heap]
  · rw [hsub.redis] at hset
    rcases hcmds with hcmds | hcmds <;> simpa [hcmds] using hset
  · rcases hsub.fresh ht with ht | ⟨-, caller, hpay⟩
    · rw [hqueue] at ht
      exact captured_of_advance hU htask ht (by simp) rfl
    · rw [hpay]

/-- An own step of an append that has not begun, and does not take effect now,
leaves no trace. -/
private theorem untouched_of_ownStep (hU : Unbegun s t) (hA : IsAppend s t)
    (h : step lex s e = some s') (hown : OwnStep s t e)
    (hearly : ∀ clientId n r result, e = .resumeAppend t clientId →
      Converts lex s t clientId n r result → s.mem.docs n = none) : Untouched s s' t := by
  cases e with
  | startTask i =>
      obtain rfl : i = t := hown
      exact untouched_of_startTask hU hA h
  | resumeAppend i clientId =>
      obtain rfl : i = t := hown
      exact untouched_of_resumeAppend hU h fun n r result => hearly clientId n r result rfl
  | continueFlush i =>
      obtain rfl : i = t := hown
      exact untouched_of_continueFlush hU h
  | enqueued i ok =>
      obtain rfl : i = t := hown
      exact untouched_of_enqueued hU h
  | resumeTask i =>
      obtain rfl : i = t := hown
      exact untouched_of_resumeTask hU h
  | updateNodeRow save reply now =>
      obtain ⟨c, hc, htask⟩ := hown
      exact absurd htask (hU.saves hc)
  | attachmentsSynced save ok =>
      obtain ⟨c, hc, htask⟩ := hown
      exact absurd htask (hU.saves hc)
  | _ => cases hown

/-- What leaves no trace at its own steps has not begun. -/
private theorem unbegun_step (hU : Unbegun s t) (h : step lex s e = some s')
    (huntouched : OwnStep s t e → Untouched s s' t) : Unbegun s' t := by
  have hown : (e = .startTask t ∨ ∃ clientId, e = .resumeAppend t clientId) → OwnStep s t e := by
    rintro (rfl | ⟨clientId, rfl⟩) <;> rfl
  refine ⟨fun {i c} hc htask => ?_, fun {entry} ht => ?_⟩
  · rcases save_of_step h hc with ⟨c₀, hc₀, hsame, -⟩ | ⟨-, hcall⟩
    · refine hU.saves hc₀ ?_
      rw [hsame] at htask
      exact htask
    · have hnext := (huntouched (hown (htask ▸ hcall.event))).saves
      rw [hcall.nextSave] at hnext
      exact absurd hnext (Nat.succ_ne_self _)
  · by_cases he : e = .startTask t ∨ ∃ clientId, e = .resumeAppend t clientId
    · exact (huntouched (hown he)).captured ht
    · rcases (step_queue h).task ht with ⟨entry₀, hentry₀, -, hstep⟩ | ⟨-, kind, hpay⟩
      · rw [hstep.captured_eq he]
        exact hU.captured hentry₀
      · rw [hpay]

private theorem unbegun_init : Unbegun (State.init nodes) t where
  saves hc := by cases hc
  captured ht := by cases ht

/-! ### An append that takes effect -/

/-- What an append does once its conversion has succeeded: it edits the document,
and flushes it if the node is still managed. -/
private theorem resume_of_converts {clientId : ClientId} {n : NodeId} {r : DocRef}
    {result : AppendResult} (h : step lex s (.resumeAppend t clientId) = some s')
    (hconv : Converts lex s t clientId n r result) :
    ∃ (entry : ChainTask NodeId Task) (s₁ : State) (x : Task), s.queue.task t = some entry ∧
      entry.payload.stage = .running ∧ s₁.queue = s.queue ∧ s.mem.Edits s₁.mem r result.added ∧
      ((s.mem.docs n = none ∧
          s' = s₁.setTask t { x with phase := .settled (.error .undefinedEntry) }) ∨
        (s.mem.docs n ≠ none ∧ s₁.FlushStep t x n s')) := by
  obtain ⟨entry, await, ws, markdown, userId, htask, rfl, hphase, hkind, hawait, hresult⟩ := hconv
  obtain ⟨entry₁, await₁, ws₁, markdown₁, userId₁, htask₁, hphase₁, hkind₁, hcase⟩ :=
    State.resumeAppend_step s h
  rw [htask] at htask₁
  cases htask₁
  rw [hphase] at hphase₁
  cases hphase₁
  rw [hkind] at hkind₁
  cases hkind₁
  have hrun : entry.payload.stage = .running := by simp [Task.stage, hphase, Phase.stage]
  rcases hcase with ⟨failure, hfailed | ⟨r₁, hok, hnone⟩, -⟩ |
    ⟨r₁, result₁, mem, hok, hresult₁, hedit, hflush⟩
  · rw [hawait] at hfailed
    cases hfailed
  · rw [hawait] at hok
    cases hok
    rw [hresult] at hnone
    cases hnone
  · rw [hawait] at hok
    cases hok
    rw [hresult] at hresult₁
    cases hresult₁
    exact ⟨entry, { s.finishAwait entry.key await with mem := mem }, _, htask, hrun, by simp,
      hedit, hflush⟩

/-- An append that takes effect on a managed node captures a state in that very
step. -/
private theorem not_untouched_of_converts {clientId : ClientId} {n : NodeId} {r : DocRef}
    {result : AppendResult} (h : step lex s (.resumeAppend t clientId) = some s')
    (hconv : Converts lex s t clientId n r result) (huntouched : Untouched s s' t) :
    s.mem.docs n = none := by
  obtain ⟨entry, s₁, x, htask, hrun, hqueue, hedit, ⟨hnone, -⟩ | ⟨hsome, hflush⟩⟩ :=
    resume_of_converts h hconv
  · exact hnone
  · exfalso
    have hcapture : ∀ {p : Task} {d : YDoc}, s'.queue = s₁.queue.advance t p →
        p.stage ≠ .queued → p.captured = some d → False := by
      intro p d hadvance hstage hcaptured
      have ht : s'.queue.task t = some { entry with payload := p } := by
        rw [hadvance, hqueue]
        exact PromiseChain.advance_task_self htask
          (PromiseChain.canAdvance_of_running hrun hstage)
      have hnone := huntouched.captured ht
      rw [show p.captured = some d from hcaptured] at hnone
      cases hnone
    cases hflush with
    | notLoaded hdocs => exact hsome (hedit.docs ▸ hdocs)
    | skip r₁ mem₁ => exact hcapture rfl (by simp [Phase.stage]) rfl
    | throws r₁ mem₁ cmds => exact hcapture rfl (by simp [Phase.stage]) rfl
    | save r₁ mem₁ c => exact hcapture rfl (by simp [Phase.stage]) rfl

/-- **The blocks stay.**  What an append has added to the managed document is in
that document at the end of every run… -/
theorem appended_le_of_exec (hI : Inv s) {clientId : ClientId} {n : NodeId} {r : DocRef}
    {result : AppendResult} (hconv : Converts lex s t clientId n r result)
    (hdocs : s.mem.docs n = some r) (h : step lex s (.resumeAppend t clientId) = some s')
    {fin : State} {es : List Event} (hes : exec (step lex) s' es = some fin) :
    result.added ≤ (fin.mem.heap r).doc := by
  have hedited : result.added ≤ (s'.mem.heap r).doc := by
    obtain ⟨entry, s₁, x, -, -, -, hedit, hflush⟩ := resume_of_converts h hconv
    have hadded : result.added ≤ (s₁.mem.heap r).doc := by
      rw [hedit.doc, if_pos rfl]
      exact le_sup_right
    rcases hflush with ⟨-, rfl⟩ | ⟨-, hflush⟩
    · exact hadded
    · exact hadded.trans (hflush.sameDocs.doc r).ge
  have hr : r < s'.mem.nextRef := (hI.docs_lt hdocs).trans_le (nextRef_le_of_step h)
  -- a document only grows
  clear h
  induction es generalizing s' with
  | nil =>
      cases hes
      exact hedited
  | cons e es ih =>
      rw [exec_cons, Option.bind_eq_some_iff] at hes
      obtain ⟨s₁, hstep, hes⟩ := hes
      exact ih hes (hedited.trans (doc_le_of_step hstep hr))
        (hr.trans_le (nextRef_le_of_step hstep))

/-- …and in every snapshot that a later flush saves of it. -/
theorem appended_saved (hI : Inv s) {clientId : ClientId} {n : NodeId} {r : DocRef}
    {result : AppendResult} (hconv : Converts lex s t clientId n r result)
    (hdocs : s.mem.docs n = some r) (h : step lex s (.resumeAppend t clientId) = some s')
    {fin fin' : State} {es : List Event} (hes : exec (step lex) s' es = some fin)
    (hstep : step lex fin e = some fin') {c : SaveCall} (hcall : SaveCalled fin e fin' c)
    (href : c.ref = r) : result.added ≤ c.state := by
  have hes' : exec (step lex) s' (es ++ [e]) = some fin' := by
    rw [exec_concat, hes, Option.bind_some, hstep]
  have hle := appended_le_of_exec hI hconv hdocs h hes'
  rw [hcall.state, href]
  exact hle

/-! ### The equivalence -/

/-- **A rejected append has left no trace exactly when it failed early**: its
load rejected, or its conversion threw, before the document was changed. -/
theorem rejected_noTrace_iff (lex : Lexical) (nodes : NodeId → Option NodeRow)
    (es : List Event) (t : TaskId) :
    (RejectedAppend lex nodes es t → NoTrace lex nodes es t) ↔
      (RejectedAppend lex nodes es t → FailsEarly lex nodes es t) := by
  refine imp_congr_right fun hrejected => ?_
  obtain ⟨fin, entry, failure, ws, markdown, userId, hfin, hentry, hkind, -⟩ := hrejected
  have hA : Along (step lex) (fun s _ _ => IsAppend s t) (State.init nodes) es := by
    rw [along_iff_forall_split]
    rintro pre e rest s s' rfl hpre hstep
    rw [exec_append, hpre] at hfin
    refine isAppend_of_exec hfin fun {entry'} hentry' => ?_
    rw [hentry] at hentry'
    cases hentry'
    exact ⟨ws, markdown, userId, hkind⟩
  constructor
  · intro h
    refine h.mono_step ?_
    rintro s e s' hstep huntouched clientId n r result rfl hconv
    exact not_untouched_of_converts hstep hconv (huntouched rfl)
  · intro h
    refine along_of_invariant (I := fun s => Unbegun s t) ?_ unbegun_init (hA.and h)
    rintro s e s' hstep hU ⟨hA, hearly⟩
    have huntouched := fun hown => untouched_of_ownStep hU hA hstep hown hearly
    exact ⟨unbegun_step hU hstep huntouched, huntouched⟩

/-- An append whose snapshot Redis refuses, while the row commits. -/
def failedAppendRun : List Event :=
  (openNode ++ [.appendMarkdown 1 7 "x" 9, .startTask 0]) ++
    [.resumeAppend 0 4, .redisReply .failed, .updateNodeRow 0 .ok 10, .continueFlush 0]

/-- The append has rejected, and its block is in the document and in the row. -/
theorem failedAppendRun_leaves_trace :
    RejectedAppend .plain oneNode failedAppendRun 0 ∧
      ¬ NoTrace .plain oneNode failedAppendRun 0 ∧
      (exec (step .plain) (State.init oneNode) failedAppendRun).any (fun s =>
        s.mem.getDoc 1 = some ⟨{(4, 0)}, ∅⟩ ∧ s.row 1 = some ⟨{(4, 0)}, ∅⟩) = true := by
  refine ⟨?_, fun h => ?_, by decide +kernel⟩
  · have hrun : (exec (step .plain) (State.init oneNode) failedAppendRun).any (fun s =>
        (s.queue.task 0).any fun entry => entry.payload.kind = .appendMarkdown 7 "x" 9 ∧
          entry.payload.phase.failed = true) = true := by
      decide +kernel
    obtain ⟨fin, hfin, hrun⟩ := (Option.any_eq_true _ _).mp hrun
    obtain ⟨entry, hentry, hrun⟩ := (Option.any_eq_true _ _).mp hrun
    obtain ⟨hkind, hphase⟩ := of_decide_eq_true hrun
    obtain ⟨failure, hfailed⟩ := Phase.exists_of_failed hphase
    exact ⟨fin, entry, failure, 7, "x", 9, hfin, hentry, hkind, hfailed⟩
  · have hrun : (exec (step .plain) (State.init oneNode)
        (openNode ++ [.appendMarkdown 1 7 "x" 9, .startTask 0])).any (fun s =>
        (s.queue.task 0).any (fun entry => s.mem.docs entry.key = some 0) ∧
          (step .plain s (.resumeAppend 0 4)).any fun s' =>
            (s.mem.heap 0).doc = ⊥ ∧ (s'.mem.heap 0).doc = ⟨{(4, 0)}, ∅⟩) = true := by
      decide +kernel
    obtain ⟨s, hs, hrun⟩ := (Option.any_eq_true _ _).mp hrun
    obtain ⟨hmanaged, hrun⟩ := of_decide_eq_true hrun
    obtain ⟨entry, htask, hmanaged⟩ := (Option.any_eq_true _ _).mp hmanaged
    obtain ⟨s', hs', hrun⟩ := (Option.any_eq_true _ _).mp hrun
    obtain ⟨hbefore, hafter⟩ := of_decide_eq_true hrun
    have huntouched : Untouched s s' 0 := h.at_step hs hs' rfl
    have hdoc := huntouched.doc htask (of_decide_eq_true hmanaged)
    rw [hbefore, hafter] at hdoc
    exact absurd hdoc (by decide)

end AideepWebsocket.DocManager
