import AideepWebsocket.DocManager.Steps

/-!
# Flushes that do not ask the database

A flush that finds its document as it was saved last only refreshes the TTL of the
cache, and resolves with the version of that save.  `Skips` says of a state in which a
flush is about to start that it will be such a one; `skips_iff` is that it says so
exactly.
-/

namespace AideepWebsocket.DocManager

open Library

variable {lex : Lexical} {s s' : State} {e : Event} {n : NodeId}

/-- The flush only refreshes the TTL of the cache. -/
def Phase.refreshes : Phase → Bool
  | .refreshing _ _ _ => true
  | _ => false

/-- The document of the node is as it was saved last. -/
def Memory.UpToDate (m : Memory) (n : NodeId) : Prop :=
  ∃ r ∈ m.docs n, (m.heap r).unchanged = true

instance (m : Memory) (n : NodeId) : Decidable (m.UpToDate n) := by
  unfold Memory.UpToDate
  infer_instance

namespace State

/-- The task is a flush of the node that does not ask the database. -/
def Refreshing (s : State) (n : NodeId) (t : TaskId) : Prop :=
  ∃ entry ∈ s.queue.task t, entry.key = n ∧ entry.payload.phase.refreshes = true

/-- The node whose flush starts in this step, and the documents as the flush finds
them. -/
def flushed (lex : Lexical) (s : State) : Event → Option (NodeId × Memory)
  | .startTask t =>
      (s.queue.task t).bind fun entry =>
        match entry.payload.kind with
        | .flushDoc _ => some (entry.key, s.mem)
        | .appendMarkdown _ _ _ => none
  | .resumeAppend t clientId =>
      (s.queue.task t).bind fun entry =>
        match entry.payload.phase, entry.payload.kind with
        | .loadingDoc await, .appendMarkdown _ markdown _ =>
            match s.awaited await with
            | some (.ok r) =>
                (lex.append clientId (s.mem.heap r).doc markdown).map fun result =>
                  (entry.key, s.mem.modify r fun d =>
                    { d with doc := applyUpdate d.doc result.added })
            | _ => none
        | _, _ => none
  | _ => none

/-- A flush of the node starts in this step, and finds a document. -/
def Flushes (lex : Lexical) (s : State) (e : Event) (n : NodeId) : Prop :=
  ∃ p ∈ s.flushed lex e, p.1 = n ∧ p.2.docs n ≠ none

/-- A flush of the node starts in this step, and has nothing to save. -/
def Skips (lex : Lexical) (s : State) (e : Event) (n : NodeId) : Prop :=
  ∃ p ∈ s.flushed lex e, p.1 = n ∧ p.2.UpToDate n

instance (lex : Lexical) (s : State) (e : Event) (n : NodeId) : Decidable (s.Flushes lex e n) := by
  unfold Flushes
  infer_instance

instance (lex : Lexical) (s : State) (e : Event) (n : NodeId) : Decidable (s.Skips lex e n) := by
  unfold Skips
  infer_instance

end State

/-- A flush starts on what `docs` holds. -/
theorem State.docs_of_flushed {mem : Memory} (h : s.flushed lex e = some (n, mem)) :
    mem.docs = s.mem.docs := by
  unfold State.flushed at h
  split at h
  · obtain ⟨entry, -, h⟩ := Option.bind_eq_some_iff.mp h
    split at h <;> cases h
    rfl
  · obtain ⟨entry, -, h⟩ := Option.bind_eq_some_iff.mp h
    split at h
    · split at h
      · obtain ⟨result, -, heq⟩ := Option.map_eq_some_iff.mp h
        cases heq
        rfl
      · cases h
    · cases h
  · cases h

/-- A flush that has nothing to save has a document. -/
theorem State.Skips.flushes (h : s.Skips lex e n) : s.Flushes lex e n := by
  obtain ⟨p, hflushed, hn, r, hdocs, -⟩ := h
  exact ⟨p, hflushed, hn, Option.ne_none_iff_exists'.mpr ⟨r, hdocs⟩⟩

theorem State.Flushes.docs (h : s.Flushes lex e n) : s.mem.docs n ≠ none := by
  obtain ⟨⟨m, mem⟩, hflushed, rfl, hdocs⟩ := h
  rwa [State.docs_of_flushed hflushed] at hdocs

theorem Memory.SameDocs.upToDate {m m' : Memory} (h : m.SameDocs m') :
    m'.UpToDate n ↔ m.UpToDate n := by
  unfold Memory.UpToDate
  rw [h.docs]
  exact exists_congr fun r => and_congr_right fun _ => by rw [h.unchanged]

/-! ### A task that takes up a flush -/

/-- A task that has been advanced to a phase that is not one of a flush carries out none. -/
private theorem flushed_of_advance {c : Queue} {t : TaskId} {p : Task}
    {entry entry' : ChainTask NodeId Task} (htask : s.queue.task t = some entry)
    (hqueue : c = s.queue.advance t p) (hp : p.phase.flushed = none)
    (hphase : entry.payload.phase.flushed = none) (hentry' : c.task t = some entry') :
    entry'.payload.phase.flushed = none := by
  rw [hqueue] at hentry'
  obtain ⟨entry₁, hentry₁, -, hcase⟩ := PromiseChain.exists_of_advance hentry'
  obtain rfl : entry = entry₁ := Option.some.inj (htask.symm.trans hentry₁)
  rcases hcase with hsame | ⟨-, hnew⟩
  · rw [hsame, hphase]
  · rw [hnew, hp]

private theorem flushed_of_startTask {t : TaskId} {r : DocRef}
    {entry entry' : ChainTask NodeId Task}
    (h : s.startTask lex t = some s') (htask : s.queue.task t = some entry)
    (hentry' : s'.queue.task t = some entry') (hr : entry'.payload.phase.flushed = some r) :
    ∃ mem, s.flushed lex (.startTask t) = some (entry.key, mem) ∧ mem.SameDocs s'.mem := by
  obtain ⟨entry₁, htask₁, hphase, -, hcase⟩ := State.startTask_step s h
  obtain rfl : entry = entry₁ := Option.some.inj (htask.symm.trans htask₁)
  rcases hcase with ⟨⟨caller, hkind⟩, hflush⟩ | ⟨ws, markdown, userId, hkind, rfl⟩
  · exact ⟨s.mem, by simp [State.flushed, htask, hkind], hflush.sameDocs⟩
  · -- the task has become an append that awaits its document
    have hqueue := (State.getOrCreateDoc_frame s entry.key ws).2.1
    have hnot := flushed_of_advance (s := s) htask
      (p := { entry.payload with phase := .loadingDoc (s.getOrCreateDoc entry.key ws).2 })
      (by rw [State.setTask_frame _ _ _ |>.2.2.1, hqueue]) rfl (by rw [hphase]; rfl) hentry'
    rw [hnot] at hr
    cases hr

/-- Two edits of a document by the same update leave the same. -/
private theorem Memory.Edits.sameDocs {m m₁ m₂ : Memory} {r : DocRef} {u : YDoc}
    (h₁ : m.Edits m₁ r u) (h₂ : m.Edits m₂ r u) : m₁.SameDocs m₂ where
  docs := by rw [h₁.docs, h₂.docs]
  nextRef := by rw [h₁.nextRef, h₂.nextRef]
  doc q := by rw [h₁.doc, h₂.doc]
  lastSavedStateVector q := by rw [h₁.lastSavedStateVector, h₂.lastSavedStateVector]
  lastPersisted q := by rw [h₁.lastPersisted, h₂.lastPersisted]

private theorem flushed_of_resumeAppend {t : TaskId} {clientId : ClientId} {r : DocRef}
    {entry entry' : ChainTask NodeId Task} (h : s.resumeAppend lex t clientId = some s')
    (htask : s.queue.task t = some entry) (hentry' : s'.queue.task t = some entry')
    (hr : entry'.payload.phase.flushed = some r) :
    ∃ mem, s.flushed lex (.resumeAppend t clientId) = some (entry.key, mem) ∧
      mem.SameDocs s'.mem := by
  obtain ⟨entry₁, await, ws, markdown, userId, htask₁, hphase, hkind, hcase⟩ :=
    State.resumeAppend_step s h
  obtain rfl : entry = entry₁ := Option.some.inj (htask.symm.trans htask₁)
  -- a task that has failed carries out no flush
  have hfailed : ∀ {s₁ : State} {p : Task} {failure : Failure}, s₁.queue = s.queue →
      s' ≠ s₁.setTask t { p with phase := .settled (.error failure) } := by
    intro s₁ p failure hqueue hs'
    subst hs'
    have hnot := flushed_of_advance htask
      (p := { p with phase := .settled (.error failure) })
      (by rw [(State.setTask_frame _ _ _).2.2.1, hqueue]) rfl (by rw [hphase]; rfl) hentry'
    rw [hnot] at hr
    cases hr
  rcases hcase with ⟨failure, -, hs'⟩ | ⟨q, result, mem, hawait, hresult, hedit, hflush⟩
  · exact absurd hs' (hfailed (by simp))
  · rcases hflush with ⟨-, hs'⟩ | ⟨-, hflush⟩
    · exact absurd hs' (hfailed (by simp))
    · refine ⟨s.mem.modify q fun d => { d with doc := applyUpdate d.doc result.added }, ?_, ?_⟩
      · simp [State.flushed, htask, hphase, hkind, hawait, hresult]
      · exact ((Memory.edits_modify s.mem q result.added).sameDocs hedit).trans hflush.sameDocs

/-- **A task takes up a flush** on the documents that the flush finds. -/
theorem flushed_of_flushes {t : TaskId} {r : DocRef} {entry entry' : ChainTask NodeId Task}
    (h : step lex s e = some s') (he : e = .startTask t ∨ ∃ clientId, e = .resumeAppend t clientId)
    (htask : s.queue.task t = some entry) (hentry' : s'.queue.task t = some entry')
    (hr : entry'.payload.phase.flushed = some r) :
    ∃ mem, s.flushed lex e = some (entry.key, mem) ∧ mem.SameDocs s'.mem := by
  rcases he with rfl | ⟨clientId, rfl⟩
  · exact flushed_of_startTask h htask hentry' hr
  · exact flushed_of_resumeAppend h htask hentry' hr

/-- No row is written in a step in which a flush starts. -/
theorem row_of_start {t : TaskId} (h : step lex s e = some s')
    (he : e = .startTask t ∨ ∃ clientId, e = .resumeAppend t clientId) (n : NodeId) :
    s'.row n = s.row n := by
  cases step_saves h with
  | same _ _ hrow =>
      rcases hrow n with hsame | ⟨rfl, -⟩
      · exact hsame
      · rcases he with he | ⟨clientId, he⟩ <;> cases he
  | call c hcall => exact hcall.row n
  | commit save c reply now phase hcommit =>
      rw [hcommit] at he
      rcases he with he | ⟨clientId, he⟩ <;> cases he
  | move save c phase _ _ _ _ _ _ hrow => exact hrow n
  | restart _ _ _ hrow => exact hrow n

/-- A flush that calls `saveToDb` has found the document that it saves. -/
theorem SaveCalled.flushed {c : SaveCall} (hcall : SaveCalled s e s' c)
    (h : step lex s e = some s') :
    ∃ mem, s.flushed lex e = some (c.nodeId, mem) ∧ mem.SameDocs s'.mem := by
  obtain ⟨entry, hentry, hkey, -⟩ := hcall.before
  obtain ⟨entry', hentry', -, hphase', -⟩ := hcall.task
  rw [← hkey]
  exact flushed_of_flushes h hcall.event hentry hentry' (by rw [hphase']; rfl)

theorem SaveCalled.flushes {c : SaveCall} (hcall : SaveCalled s e s' c)
    (h : step lex s e = some s') : s.Flushes lex e c.nodeId := by
  obtain ⟨mem, hflushed, hmem⟩ := hcall.flushed h
  refine ⟨(c.nodeId, mem), hflushed, rfl, ?_⟩
  rw [← hmem.docs, hcall.docs]
  exact Option.some_ne_none c.ref

/-- A task that takes up refreshing has found its document up to date. -/
private theorem TaskStep.of_refreshes {i : TaskId} {entry : ChainTask NodeId Task} {x : Task}
    (h : TaskStep s e s' i entry x) (hx : x.phase.refreshes = true)
    (hentry : entry.payload.phase.refreshes ≠ true) : s'.mem.UpToDate entry.key ∧
      (e = .startTask i ∨ ∃ clientId, e = .resumeAppend i clientId) ∧
      x.phase.flushed ≠ none := by
  cases h with
  | stay => exact absurd hx hentry
  | skip x r persisted _ he _ hphase' hdocs hunchanged _ _ =>
      exact ⟨⟨r, hdocs, hunchanged⟩, he, by rw [hphase']; exact Option.some_ne_none r⟩
  | refreshReplied r persisted ok hphase => exact absurd (by rw [hphase]; rfl) hentry
  | fail x failure _ _ hphase' _ _ _ =>
      rw [hphase'] at hx
      cases hx
  | save x c _ _ _ hphase' _ _ _ _ _ _ _ =>
      rw [hphase'] at hx
      cases hx
  | saved r save sv persisted phase _ _ hphase' _ =>
      rcases hphase' with rfl | ⟨job, rfl⟩ <;> cases hx
  | gone _ =>
      obtain ⟨result, hresult⟩ := phase_goneTask entry.payload
      rw [hresult] at hx
      cases hx
  | _ => cases hx

/-! ### A step that flushes -/

/-- The exports of the document that a flush asks for, if it starts in this step,
return.  An append knows the markdown already. -/
def ExportsReturn (lex : Lexical) : Event → YDoc → Prop
  | .startTask _, doc => lex.toMarkdown doc ≠ none ∧ lex.attachmentContent doc ≠ none
  | _, doc => lex.attachmentContent doc ≠ none

instance (lex : Lexical) (e : Event) (doc : YDoc) : Decidable (ExportsReturn lex e doc) := by
  unfold ExportsReturn
  split <;> infer_instance

/-- **A step that flushes.**  Task `t` calls `flushDocLocked` in a state that differs from
`s` in its documents only, and has these as `mem` does. -/
inductive FlushCalled (lex : Lexical) (s : State) (e : Event) (t : TaskId) (n : NodeId)
    (mem : Memory) : State → Prop
  | intro (s₁ : State) (x : Task) (knownMarkdown : Option String)
      (hknown : e = .startTask t ∧ knownMarkdown = none ∨
        ∃ clientId markdown, e = .resumeAppend t clientId ∧ knownMarkdown = some markdown)
      (entry : ChainTask NodeId Task) (htask : s.queue.task t = some entry)
      (hkey : entry.key = n)
      (hphase : entry.payload.phase = .queued ∨ ∃ await, entry.payload.phase = .loadingDoc await)
      (hcan : ∀ q : Task, q.stage ≠ .queued → s.queue.CanAdvance entry q)
      (hqueue : s₁.queue = s.queue) (hsaves : s₁.saves = s.saves) (hredis : s₁.redis = s.redis)
      (hmem : mem.SameDocs s₁.mem) :
      FlushCalled lex s e t n mem (s₁.flushDocLocked lex t x n knownMarkdown)

private theorem flushCalled_of_startTask {t : TaskId} {mem : Memory}
    (h : s.startTask lex t = some s') (hflushed : s.flushed lex (.startTask t) = some (n, mem)) :
    FlushCalled lex s (.startTask t) t n mem s' := by
  obtain ⟨entry, htask, hphase, hready, hcase⟩ := State.startTask_cases s h
  rcases hcase with ⟨caller, hkind, rfl⟩ | ⟨ws, markdown, userId, hkind, -⟩
  · simp only [State.flushed, htask, hkind, Option.bind_some, Option.some.injEq,
      Prod.mk.injEq] at hflushed
    obtain ⟨rfl, rfl⟩ := hflushed
    have hqueued : entry.payload.stage = .queued := by simp [Task.stage, hphase, Phase.stage]
    exact .intro s _ _ (Or.inl ⟨rfl, rfl⟩) entry htask rfl (Or.inl hphase)
      (fun q hq => PromiseChain.canAdvance_of_ready hqueued hready hq) rfl rfl rfl (.refl _)
  · simp [State.flushed, htask, hkind] at hflushed

private theorem flushCalled_of_resumeAppend {t : TaskId} {clientId : ClientId} {mem : Memory}
    (h : s.resumeAppend lex t clientId = some s')
    (hflushed : s.flushed lex (.resumeAppend t clientId) = some (n, mem))
    (hdocs : mem.docs n ≠ none) : FlushCalled lex s (.resumeAppend t clientId) t n mem s' := by
  obtain ⟨entry, await, ws, markdown, userId, htask, hphase, hkind, hcase⟩ :=
    State.resumeAppend_cases s h
  rcases hcase with ⟨failure, hawait | ⟨r, hawait, hresult⟩, -⟩ | ⟨r, result, hawait, hresult, hcase⟩
  · simp [State.flushed, htask, hphase, hkind, hawait] at hflushed
  · simp [State.flushed, htask, hphase, hkind, hawait, hresult] at hflushed
  · simp only [State.flushed, htask, hphase, hkind, hawait, hresult, Option.bind_some,
      Option.map_some, Option.some.injEq, Prod.mk.injEq] at hflushed
    obtain ⟨rfl, rfl⟩ := hflushed
    rcases hcase with ⟨hnone, -⟩ | ⟨q, -, rfl⟩
    · exact absurd hnone hdocs
    · have hrunning : entry.payload.stage = .running := by
        simp [Task.stage, hphase, Phase.stage]
      -- the flags that the append sets do not count
      exact .intro _ _ _ (Or.inr ⟨clientId, _, rfl, rfl⟩) entry htask rfl (Or.inr ⟨await, hphase⟩)
        (fun x hx => PromiseChain.canAdvance_of_running hrunning hx) (by simp) (by simp)
        (by simp) (Memory.sameDocs_modify _ q
          (fun d => { d with dirtyForEmbed := true, lastEditorUserId := some userId })
          (fun _ => rfl) (fun _ => rfl) fun _ => rfl)

theorem flushCalled_of_step {t : TaskId} {mem : Memory} (h : step lex s e = some s')
    (he : e = .startTask t ∨ ∃ clientId, e = .resumeAppend t clientId)
    (hflushed : s.flushed lex e = some (n, mem)) (hdocs : mem.docs n ≠ none) :
    FlushCalled lex s e t n mem s' := by
  rcases he with rfl | ⟨clientId, rfl⟩
  · exact flushCalled_of_startTask h hflushed
  · exact flushCalled_of_resumeAppend h hflushed hdocs

/-- A flush that has started leaves the documents as it has found them. -/
theorem FlushCalled.sameDocs {t : TaskId} {mem : Memory} (h : FlushCalled lex s e t n mem s') :
    mem.SameDocs s'.mem := by
  obtain ⟨s₁, x, knownMarkdown, -, -, -, -, -, -, -, -, -, hmem⟩ := h
  exact hmem.trans (State.flushDocLocked_step s₁ t x n knownMarkdown).sameDocs

/-- **A flush saves what it finds**, if there is something to save and its exports
return. -/
theorem FlushCalled.saves {t : TaskId} {mem : Memory} {r : DocRef}
    (h : FlushCalled lex s e t n mem s') (hdocs : mem.docs n = some r)
    (hchanged : (mem.heap r).unchanged = false) (hexports : ExportsReturn lex e (mem.heap r).doc) :
    ∃ i c, s'.saves i = some c ∧ c.nodeId = n ∧ c.ref = r ∧ c.phase = .updateNodeRow ∧
      c.state = (mem.heap r).doc := by
  obtain ⟨s₁, x, knownMarkdown, hknown, entry, -, -, -, -, -, -, -, hmem⟩ := h
  have hdocs₁ : s₁.mem.docs n = some r := by rw [hmem.docs, hdocs]
  have hchanged₁ : (s₁.mem.heap r).unchanged = false := by rw [hmem.unchanged, hchanged]
  rw [← hmem.doc r] at hexports ⊢
  -- the markdown is known, or its export returns
  obtain ⟨markdown, hmarkdown⟩ :
      ∃ markdown, (knownMarkdown.orElse fun _ => lex.toMarkdown (s₁.mem.heap r).doc) =
        some markdown := by
    rcases hknown with ⟨rfl, rfl⟩ | ⟨clientId, markdown, -, rfl⟩
    · exact Option.ne_none_iff_exists'.mp hexports.1
    · exact ⟨markdown, rfl⟩
  obtain ⟨content, hcontent⟩ :
      ∃ content, lex.attachmentContent (s₁.mem.heap r).doc = some content := by
    refine Option.ne_none_iff_exists'.mp ?_
    rcases hknown with ⟨rfl, -⟩ | ⟨clientId, markdown, rfl, -⟩
    · exact hexports.2
    · exact hexports
  unfold State.flushDocLocked
  simp only [hdocs₁, hchanged₁, hmarkdown, hcontent, encodeStateAsUpdate_empty,
    Bool.false_eq_true, if_false]
  exact ⟨s₁.nextSave, _, Function.update_self .., rfl, rfl, rfl, rfl⟩

/-- A flush that finds its document as it was saved last does not ask the database. -/
private theorem flushDocLocked_skip (lex : Lexical) (t : TaskId) (x : Task)
    (knownMarkdown : Option String) (hsaved : s.mem.UpToDate n) :
    ∃ q : Task, q.phase.refreshes = true ∧ q.stage ≠ .queued ∧
      (s.flushDocLocked lex t x n knownMarkdown).queue = s.queue.advance t q := by
  obtain ⟨r, hdocs, hunchanged⟩ := hsaved
  have hdocs : s.mem.docs n = some r := hdocs
  unfold State.flushDocLocked
  simp only [hdocs, hunchanged, if_true]
  exact ⟨_, rfl, by simp [Phase.stage], rfl⟩

/-- …so its task takes up refreshing. -/
private theorem FlushCalled.refreshing {t : TaskId} {mem : Memory}
    (h : FlushCalled lex s e t n mem s') (hsaved : mem.UpToDate n) :
    s'.Refreshing n t ∧ ¬ s.Refreshing n t := by
  obtain ⟨s₁, x, knownMarkdown, -, entry, htask, rfl, hphase, hcan, hs₁, -, -, hmem⟩ := h
  obtain ⟨q, hq, hstage, hqueue⟩ :=
    flushDocLocked_skip lex t x knownMarkdown (hmem.upToDate.mpr hsaved)
  constructor
  · refine ⟨{ entry with payload := q }, ?_, rfl, hq⟩
    rw [hqueue, hs₁]
    exact PromiseChain.advance_task_self htask (hcan q hstage)
  · rintro ⟨entry₁, htask₁, -, hrefreshes⟩
    obtain rfl : entry = entry₁ := Option.some.inj (htask.symm.trans htask₁)
    rcases hphase with hphase | ⟨await, hphase⟩ <;>
      · rw [hphase] at hrefreshes
        cases hrefreshes

/-- **A flush takes up refreshing exactly if it skips.** -/
theorem skips_iff (h : step lex s e = some s') :
    (∃ t, s'.Refreshing n t ∧ ¬ s.Refreshing n t) ↔ s.Skips lex e n := by
  constructor
  · rintro ⟨t, ⟨entry', hentry', rfl, hrefreshes⟩, hnot⟩
    rcases (step_queue h).task hentry' with ⟨entry, htask, hkey, htaskStep⟩ | ⟨-, kind, hnew⟩
    · have hbefore : entry.payload.phase.refreshes ≠ true := fun hr =>
        hnot ⟨entry, htask, hkey.symm, hr⟩
      obtain ⟨hsaved, he, hflushed⟩ := htaskStep.of_refreshes hrefreshes hbefore
      obtain ⟨r, hr⟩ := Option.ne_none_iff_exists'.mp hflushed
      obtain ⟨mem, hmem, hsame⟩ := flushed_of_flushes h he htask hentry' hr
      rw [hkey]
      exact ⟨(entry.key, mem), hmem, rfl, hsame.upToDate.mp hsaved⟩
    · rw [hnew] at hrefreshes
      cases hrefreshes
  · rintro ⟨⟨m, mem⟩, hflushed, rfl, hsaved⟩
    have hflushed : s.flushed lex e = some (m, mem) := hflushed
    have hdocs : mem.docs m ≠ none := by
      obtain ⟨r, hdocs, -⟩ := hsaved
      exact Option.ne_none_iff_exists'.mpr ⟨r, hdocs⟩
    cases e with
    | startTask t =>
        exact ⟨t, (flushCalled_of_step h (Or.inl rfl) hflushed hdocs).refreshing hsaved⟩
    | resumeAppend t clientId =>
        exact ⟨t, (flushCalled_of_step h (Or.inr ⟨clientId, rfl⟩) hflushed hdocs).refreshing hsaved⟩
    | _ => cases hflushed

end AideepWebsocket.DocManager
