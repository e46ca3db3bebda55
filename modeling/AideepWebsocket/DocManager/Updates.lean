import AideepWebsocket.DocManager.Ownership

/-!
# What is added to a managed document, and by whom

Two things add to the document of a managed node: a sync message that the
gateway applies to it, and an append.  The update that an append has made goes
with its task until the caller broadcasts it, which it does only if the append
succeeds.

* `holds_of_step` — a change that the document holds after a step was there
  before, or came with a sync message, or is in the update of an append that has
  just resumed;
* `State.Carries` — the append `t` has edited the node `n` by `u`, and has not
  failed;
* `State.Carries.step` — it goes on carrying it, unless its flush fails or the
  process ends.

The last section says the same of the runs that a step of the gateway makes, none
of which resumes an append.
-/

namespace AideepWebsocket.DocManager

open Library

variable {lex : Lexical} {s s' : State} {e : Event}

/-- The append `t` has edited the document of `n` by the update `u`. -/
def State.Edited (s : State) (t : TaskId) (n : NodeId) (u : YDoc) : Prop :=
  ∃ entry, s.queue.task t = some entry ∧ entry.key = n ∧ entry.payload.update = some u

/-- The append `t` has edited the document of `n` by `u`, and has not failed: it
has returned, or will return, `u` to its caller. -/
def State.Carries (s : State) (t : TaskId) (n : NodeId) (u : YDoc) : Prop :=
  ∃ entry, s.queue.task t = some entry ∧ entry.key = n ∧ entry.payload.update = some u ∧
    entry.payload.phase.failed = false

/-- The task `t` has not edited a document and then failed. -/
def State.Spared (s : State) (t : TaskId) : Prop :=
  ∀ entry ∈ s.queue.task t, entry.payload.update ≠ none → entry.payload.phase.failed = false

instance (s : State) (t : TaskId) : Decidable (s.Spared t) := by
  unfold State.Spared
  infer_instance

theorem State.Carries.edited {t : TaskId} {n : NodeId} {u : YDoc} (h : s.Carries t n u) :
    s.Edited t n u :=
  h.imp fun _ hentry => ⟨hentry.1, hentry.2.1, hentry.2.2.1⟩

theorem State.Edited.carries {t : TaskId} {n : NodeId} {u : YDoc} (h : s.Edited t n u)
    (hspared : s.Spared t) : s.Carries t n u := by
  obtain ⟨entry, htask, hkey, hupdate⟩ := h
  exact ⟨entry, htask, hkey, hupdate, hspared entry htask (by simp [hupdate])⟩

/-! ### Before an append resumes it has no update -/

/-- A task that has not got its document yet has made no update. -/
def Unedited (s : State) : Prop :=
  ∀ t entry, s.queue.task t = some entry →
    (entry.payload.phase = .queued ∨ ∃ await, entry.payload.phase = .loadingDoc await) →
    entry.payload.update = none

theorem unedited_init (nodes : NodeId → Option NodeRow) : Unedited (State.init nodes) := by
  intro t entry htask
  cases htask

theorem TaskStep.unedited {i : TaskId} {entry : ChainTask NodeId Task} {x : Task}
    (h : TaskStep s e s' i entry x)
    (hbefore : (entry.payload.phase = .queued ∨
      ∃ await, entry.payload.phase = .loadingDoc await) → entry.payload.update = none)
    (hx : x.phase = .queued ∨ ∃ await, x.phase = .loadingDoc await) : x.update = none := by
  -- the other steps lead to a phase that comes later
  have hlater : ∀ {ph : Phase}, x.phase = ph → (ph ≠ .queued ∧ ∀ await, ph ≠ .loadingDoc await) →
      x.update = none := by
    rintro ph hph ⟨hqueued, hloading⟩
    rcases hx with hx | ⟨await, hx⟩
    · exact absurd (hph.symm.trans hx) hqueued
    · exact absurd (hph.symm.trans hx) (hloading await)
  cases h with
  | stay => exact hbefore hx
  | load await _ hphase => exact hbefore (Or.inl hphase)
  | fail x failure _ _ hphase' => exact hlater hphase' ⟨by simp, by simp⟩
  | skip x r persisted _ _ _ hphase' => exact hlater hphase' ⟨by simp, by simp⟩
  | save x c _ _ _ hphase' => exact hlater hphase' ⟨by simp, by simp⟩
  | saved r save sv persisted phase _ _ hphase' =>
      rcases hphase' with rfl | ⟨job, rfl⟩ <;> exact hlater rfl ⟨by simp, by simp⟩
  | gone _ =>
      have hsettled := State.stage_goneTask entry.payload
      unfold Task.stage at hsettled
      rcases hx with hx | ⟨await, hx⟩ <;> simp [hx, Phase.stage] at hsettled
  | _ => exact hlater rfl ⟨by simp, by simp⟩

theorem Unedited.step (hU : Unedited s) (h : DocManager.step lex s e = some s') :
    Unedited s' := by
  intro t entry' htask hphase
  rcases (step_queue h).task htask with ⟨entry, hentry, -, hstep⟩ | ⟨-, kind, hpayload⟩
  · exact hstep.unedited (hU t entry hentry) hphase
  · rw [hpayload]

/-! ### An append resumes -/

/-- The task of a flush goes on with the update it has made. -/
private theorem State.FlushStep.advance {t : TaskId} {x : Task} {n : NodeId}
    (h : s.FlushStep t x n s') :
    ∃ p, s'.queue = s.queue.advance t p ∧ p.stage ≠ .queued ∧ p.update = x.update := by
  cases h with
  | notLoaded => exact ⟨_, rfl, by simp [Task.stage, Phase.stage], rfl⟩
  | skip r mem => exact ⟨_, rfl, by simp [Task.stage, Phase.stage], rfl⟩
  | throws r mem cmds => exact ⟨_, rfl, by simp [Task.stage, Phase.stage], rfl⟩
  | save r mem c => exact ⟨_, rfl, by simp [Task.stage, Phase.stage], rfl⟩

private theorem State.FlushStep.edited {t : TaskId} {x : Task} {n : NodeId} {u : YDoc}
    {entry : ChainTask NodeId Task} (h : s.FlushStep t x n s')
    (htask : s.queue.task t = some entry) (hrunning : entry.payload.stage = .running)
    (hkey : entry.key = n) (hupdate : x.update = some u) : s'.Edited t n u := by
  obtain ⟨p, hqueue, hp, hpupdate⟩ := h.advance
  refine ⟨{ entry with payload := p }, ?_, hkey, hpupdate.trans hupdate⟩
  rw [hqueue]
  exact PromiseChain.advance_task_self htask (PromiseChain.canAdvance_of_running hrunning hp)

/-- **What an append adds** to a managed document is in its update. -/
private theorem holds_of_resumeAppend (hO : Owned s) {t : TaskId} {clientId : ClientId}
    (h : step lex s (.resumeAppend t clientId) = some s') {n : NodeId} {r : DocRef}
    (hdocs : s.mem.docs n = some r) {x : Change} (hx : (s'.mem.heap r).doc.Holds x) :
    (s.mem.heap r).doc.Holds x ∨ ∃ u, s'.Edited t n u ∧ u.Holds x := by
  obtain ⟨entry, await, ws, markdown, userId, htask, hphase, -, hcase⟩ :=
    State.resumeAppend_step s h
  rcases hcase with ⟨failure, -, rfl⟩ | ⟨r', result, mem, hawait, -, hedit, hflush⟩
  · exact Or.inl (by simpa using hx)
  · have hrunning : entry.payload.stage = .running := by simp [Task.stage, hphase, Phase.stage]
    have hsame : mem.SameDocs s'.mem := by
      rcases hflush with ⟨-, rfl⟩ | ⟨-, hflush⟩
      · exact .refl _
      · exact hflush.sameDocs
    rw [hsame.doc, hedit.doc] at hx
    split at hx
    · next hr =>
        subst hr
        -- the object is of the node that the append is for
        have hnode : n = entry.key :=
          (hO.awaited (awaiting_of_task htask hphase) hawait).node hdocs
        subst hnode
        rcases hflush with ⟨hnone, -⟩ | ⟨-, hflush⟩
        · rw [hdocs] at hnone
          cases hnone
        · have hle := le_apply_encodeStateAsUpdate
            (applyUpdate (s.mem.heap r).doc result.added) (s.mem.heap r).doc
          rcases YDoc.holds_sup.mp (YDoc.le_iff_holds.mp hle x hx) with hold | hnew
          · exact Or.inl hold
          · exact Or.inr ⟨_, hflush.edited (by simpa using htask) hrunning rfl rfl, hnew⟩
    · exact Or.inl hx

/-- **Where a change comes from.** -/
theorem holds_of_step (hI : Inv s) (hO : Owned s) (h : step lex s e = some s') {n : NodeId}
    {r : DocRef} (hdocs : s.mem.docs n = some r) {x : Change}
    (hx : (s'.mem.heap r).doc.Holds x) :
    (s.mem.heap r).doc.Holds x ∨ (∃ u, e = .applyToDoc n u ∧ u.Holds x) ∨
      ∃ t clientId u, e = .resumeAppend t clientId ∧ s'.Edited t n u ∧ u.Holds x := by
  cases step_mem h with
  | same hmem =>
      rw [hmem.doc] at hx
      exact Or.inl hx
  | edit r' u horigin hmem =>
      rcases horigin with ⟨m, rfl, hm⟩ | ⟨t, clientId, entry, await, rfl, -, -, -⟩
      · rw [hmem.doc] at hx
        split at hx
        · next hr =>
            subst hr
            obtain rfl := hI.docs_inj hm hdocs
            exact (YDoc.holds_sup.mp hx).imp_right fun hu => Or.inl ⟨u, rfl, hu⟩
        · exact Or.inl hx
      · exact (holds_of_resumeAppend hO h hdocs hx).imp_right fun ⟨u, hu⟩ =>
          Or.inr ⟨t, clientId, u, rfl, hu⟩
  | put l y doc ws _ _ _ hmem =>
      have hput : s'.mem.heap r = s.mem.heap r := by
        rw [hmem]
        exact Function.update_of_ne (hI.docs_lt hdocs).ne ..
      rw [hput] at hx
      exact Or.inl hx
  | remove hmem =>
      rw [hmem.heap] at hx
      exact Or.inl hx
  | saved t entry r' save sv p _ _ _ hmem =>
      rw [hmem.doc] at hx
      exact Or.inl hx

/-! ### What becomes of an update -/

/-- A task rejects only when it starts, when its document is there, or when its
flush resumes. -/
private theorem TaskStep.failed {i : TaskId} {entry : ChainTask NodeId Task} {x : Task}
    (h : TaskStep s e s' i entry x) (hbefore : entry.payload.phase.failed = false) :
    x.phase.failed = false ∨ e = .startTask i ∨ (∃ clientId, e = .resumeAppend i clientId) ∨
      e = .continueFlush i ∨ e = .restart := by
  cases h with
  | stay => exact Or.inl hbefore
  | fail x failure _ _ _ _ _ he =>
      rcases he with he | he | he
      · exact Or.inr (Or.inl he)
      · exact Or.inr (Or.inr (Or.inl he))
      · exact Or.inr (Or.inr (Or.inr (Or.inl he)))
  | skip x r persisted _ _ _ hphase' => exact Or.inl (by rw [hphase']; rfl)
  | save x c _ _ _ hphase' => exact Or.inl (by rw [hphase']; rfl)
  | saved r save sv persisted phase _ _ hphase' =>
      rcases hphase' with rfl | ⟨job, rfl⟩ <;> exact Or.inl rfl
  | returned result hphase =>
      rw [hphase] at hbefore
      cases result with
      | error failure => cases hbefore
      | ok persisted => exact Or.inl rfl
  | gone he => exact Or.inr (Or.inr (Or.inr (Or.inr he)))
  | _ => exact Or.inl rfl

/-- **An update stays with its task** until the flush of the append fails or the
process ends. -/
theorem State.Carries.step {t : TaskId} {n : NodeId} {u : YDoc} (hc : s.Carries t n u)
    (hU : Unedited s) (h : DocManager.step lex s e = some s') :
    s'.Carries t n u ∨ (e = .continueFlush t ∧ ¬ s'.Spared t) ∨ e = .restart := by
  obtain ⟨entry, htask, hkey, hupdate, hfailed⟩ := hc
  obtain ⟨entry', htask', hkey', hstep⟩ := step_task h htask
  -- the task has an update, so it is past the phases in which an append starts
  have hpast : entry.payload.phase ≠ .queued ∧ ∀ await, entry.payload.phase ≠ .loadingDoc await := by
    constructor
    · intro hphase
      rw [hU t entry htask (Or.inl hphase)] at hupdate
      cases hupdate
    · intro await hphase
      rw [hU t entry htask (Or.inr ⟨await, hphase⟩)] at hupdate
      cases hupdate
  have hnotStart : e ≠ .startTask t := by
    rintro rfl
    obtain ⟨entry₁, htask₁, hphase, -⟩ := State.startTask_step s h
    rw [htask] at htask₁
    cases htask₁
    exact hpast.1 hphase
  have hnotAppend : ∀ clientId, e ≠ .resumeAppend t clientId := by
    rintro clientId rfl
    obtain ⟨entry₁, await, ws, markdown, userId, htask₁, hphase, -⟩ := State.resumeAppend_step s h
    rw [htask] at htask₁
    cases htask₁
    exact hpast.2 await hphase
  have hupdate' : entry'.payload.update = some u := (hstep.update hnotAppend).trans hupdate
  cases hfailed' : entry'.payload.phase.failed with
  | false => exact Or.inl ⟨entry', htask', hkey'.trans hkey, hupdate', hfailed'⟩
  | true =>
      rcases hstep.failed hfailed with hnot | he | ⟨clientId, he⟩ | he | he
      · rw [hfailed'] at hnot
        cases hnot
      · exact absurd he hnotStart
      · exact absurd he (hnotAppend clientId)
      · refine Or.inr (Or.inl ⟨he, fun hspared => ?_⟩)
        have hnot := hspared entry' htask' (by simp [hupdate'])
        rw [hfailed'] at hnot
        cases hnot
      · exact Or.inr (Or.inr he)

/-! ### The managed document contains the updates -/

/-- A task that has not failed had not failed before. -/
theorem TaskStep.failed_before {i : TaskId} {entry : ChainTask NodeId Task} {x : Task}
    (h : TaskStep s e s' i entry x) (hx : x.phase.failed = false) :
    entry.payload.phase.failed = false := by
  cases hbefore : entry.payload.phase.failed with
  | false => rfl
  | true =>
      have hsettled : entry.payload.stage = .settled := by
        revert hbefore
        unfold Task.stage
        cases entry.payload.phase with
        | settled result => intro _; rfl
        | returned result => intro _; rfl
        | _ => intro hbefore; cases hbefore
      -- only a settled task whose caller resumes moves, and it keeps its result
      cases h with
      | stay => rw [hbefore] at hx; cases hx
      | returned result hphase =>
          rw [hphase] at hbefore
          cases result with
          | error failure => cases hx
          | ok persisted => cases hbefore
      | gone _ =>
          unfold State.goneTask at hx
          split at hx
          · rw [hbefore] at hx; cases hx
          · next result hphase =>
              rw [hphase] at hbefore
              cases result with
              | error failure => cases hx
              | ok persisted => cases hbefore
          · cases hx
      | fail x failure _ hstage => exact absurd hsettled hstage
      | skip x r p _ _ hphase =>
          rcases hphase with hphase | ⟨await, hphase⟩ <;> rw [hphase] at hbefore <;> cases hbefore
      | save x c _ _ hphase =>
          rcases hphase with hphase | ⟨await, hphase⟩ <;> rw [hphase] at hbefore <;> cases hbefore
      | load await _ hphase => rw [hphase] at hbefore; cases hbefore
      | refreshReplied r p ok hphase => rw [hphase] at hbefore; cases hbefore
      | saveReplied r save sv ok f f' hphase => rw [hphase] at hbefore; cases hbefore
      | saveRejected r save sv redis f f' hphase => rw [hphase] at hbefore; cases hbefore
      | refreshed r p hphase => rw [hphase] at hbefore; cases hbefore
      | saved r save sv p phase hphase => rw [hphase] at hbefore; cases hbefore
      | embedded r p job hphase => rw [hphase] at hbefore; cases hbefore

/-- What a task carries it carried before, unless it is an append that has just
resumed. -/
theorem State.Carries.before {t : TaskId} {n : NodeId} {u : YDoc} (hc : s'.Carries t n u)
    (h : DocManager.step lex s e = some s') :
    s.Carries t n u ∨ ∃ clientId, e = .resumeAppend t clientId := by
  by_cases hresume : ∃ clientId, e = .resumeAppend t clientId
  · exact Or.inr hresume
  obtain ⟨entry', htask', hkey, hupdate, hfailed⟩ := hc
  rcases (step_queue h).task htask' with ⟨entry, htask, hkey', hstep⟩ | ⟨-, kind, hpayload⟩
  · have hsame := hstep.update fun clientId he => hresume ⟨clientId, he⟩
    exact Or.inl ⟨entry, htask, hkey'.symm.trans hkey, hsame.symm.trans hupdate,
      hstep.failed_before hfailed⟩
  · rw [hpayload] at hupdate
    cases hupdate

/-- The object that the append `t` will edit. -/
def State.editedRef (s : State) (t : TaskId) : Option DocRef :=
  (s.queue.task t).bind fun entry =>
    match entry.payload.phase with
    | .loadingDoc await =>
        match s.awaited await with
        | some (.ok r) => some r
        | _ => none
    | _ => none

/-- The object that the append `t` will edit is the managed one of its node. -/
def State.EditsManaged (s : State) (t : TaskId) : Prop :=
  ∀ r ∈ s.editedRef t, ∀ entry ∈ s.queue.task t, ∀ r' ∈ s.mem.docs entry.key, r' = r

instance (s : State) (t : TaskId) : Decidable (s.EditsManaged t) := by
  unfold State.EditsManaged
  infer_instance

/-- The document that the load `l` has found contains the update of every append
to its node, less those in `announced` and those that have failed. -/
def State.LoadsUpdates (s : State) (announced : Finset TaskId) (l : LoadId) : Prop :=
  ∀ x ∈ s.loader.loads l, ∀ doc ∈ x.phase.document, ∀ t < s.queue.next, t ∉ announced →
    ∀ entry ∈ s.queue.task t, entry.key = x.nodeId → entry.payload.phase.failed = false →
      ∀ u ∈ entry.payload.update, u ≤ doc

instance (s : State) (announced : Finset TaskId) (l : LoadId) :
    Decidable (s.LoadsUpdates announced l) := by
  unfold State.LoadsUpdates
  infer_instance

/-- **The managed document of a node contains the update of every append to it**,
less those in `announced` and those that have failed. -/
def State.Contains (s : State) (announced : Finset TaskId) : Prop :=
  ∀ t n u r, s.Carries t n u → t ∉ announced → s.mem.docs n = some r → u ≤ (s.mem.heap r).doc

private theorem queue_setTask {s₁ : State} (h : s₁.queue = s.queue) (t : TaskId) (x : Task) :
    (s₁.setTask t x).queue = s.queue.advance t x :=
  congrArg (fun q => PromiseChain.advance q t x) h

/-- When an append resumes, the object that it edits contains its update. -/
theorem le_of_resumeAppend (hU : Unedited s) {t : TaskId} {clientId : ClientId} {n : NodeId}
    {u : YDoc} (h : step lex s (.resumeAppend t clientId) = some s') (hc : s'.Edited t n u) :
    ∃ r entry, s.editedRef t = some r ∧ s.queue.task t = some entry ∧ entry.key = n ∧
      u ≤ (s'.mem.heap r).doc := by
  obtain ⟨entry, await, ws, markdown, userId, htask, hphase, -, hcase⟩ :=
    State.resumeAppend_step s h
  have hrunning : entry.payload.stage = .running := by simp [Task.stage, hphase, Phase.stage]
  -- the task after the step, whichever way it has gone on
  have hadvance : ∀ {p : Task}, s'.queue = s.queue.advance t p → p.stage ≠ .queued →
      entry.key = n ∧ p.update = some u := by
    intro p hqueue hp
    obtain ⟨entry', htask', hkey, hupdate⟩ := hc
    rw [hqueue, PromiseChain.advance_task_self htask
      (PromiseChain.canAdvance_of_running hrunning hp)] at htask'
    obtain rfl := Option.some.inj htask'
    exact ⟨hkey, hupdate⟩
  have hfinish : (s.finishAwait entry.key await).queue = s.queue := by simp
  rcases hcase with ⟨failure, -, rfl⟩ | ⟨r, result, mem, hawait, -, hedit, hflush⟩
  · obtain ⟨-, hupdate⟩ := hadvance (queue_setTask hfinish t _) (by simp [Task.stage, Phase.stage])
    rw [hU t entry htask (Or.inr ⟨await, hphase⟩)] at hupdate
    cases hupdate
  · have hedited : s.editedRef t = some r := by
      simp [State.editedRef, htask, hphase, hawait]
    have hdoc : (s'.mem.heap r).doc = (s.mem.heap r).doc ⊔ result.added := by
      have hsame : mem.SameDocs s'.mem := by
        rcases hflush with ⟨-, rfl⟩ | ⟨-, hflush⟩
        · exact .refl _
        · exact hflush.sameDocs
      rw [hsame.doc, hedit.doc, if_pos rfl]
    have hnode : entry.key = n ∧ some (encodeStateAsUpdate
        (applyUpdate (s.mem.heap r).doc result.added) (encodeStateVector (s.mem.heap r).doc)) =
          some u := by
      rcases hflush with ⟨-, rfl⟩ | ⟨-, hflush⟩
      · exact hadvance (queue_setTask hfinish t _) (by simp [Task.stage, Phase.stage])
      · obtain ⟨p, hqueue, hp, hpupdate⟩ := hflush.advance
        obtain ⟨hkey, hupdate⟩ := hadvance (by simpa using hqueue) hp
        exact ⟨hkey, hpupdate.symm.trans hupdate⟩
    refine ⟨r, entry, hedited, htask, hnode.1, ?_⟩
    rw [hdoc, ← Option.some.inj hnode.2]
    exact encodeStateAsUpdate_le _ _

/-- A managed document was managed before, or a load has put it there. -/
theorem docs_or_put_of_step (h : step lex s e = some s') {n : NodeId} {r : DocRef}
    (hdocs : s'.mem.docs n = some r) :
    s.mem.docs n = some r ∨ ∃ l x doc, e = .continueLoad l ∧ s.loader.loads l = some x ∧
      x.nodeId = n ∧ x.phase.document = some doc ∧ (s'.mem.heap r).doc = doc := by
  cases step_mem h with
  | same hmem =>
      rw [hmem.docs] at hdocs
      exact Or.inl hdocs
  | edit r' u _ hmem =>
      rw [hmem.docs] at hdocs
      exact Or.inl hdocs
  | put l x doc ws he hload hdoc hmem =>
      rw [hmem] at hdocs ⊢
      by_cases hn : n = x.nodeId
      · subst hn
        obtain rfl : s.mem.nextRef = r := by simpa [Memory.put] using hdocs
        exact Or.inr ⟨l, x, doc, he, hload, rfl, hdoc, by simp [Memory.put, ManagedDoc.loaded]⟩
      · exact Or.inl (by simpa [Memory.put, hn] using hdocs)
  | remove hmem =>
      rcases hmem.docs n with hsame | hnone
      · rw [hsame] at hdocs
        exact Or.inl hdocs
      · rw [hnone] at hdocs
        cases hdocs
  | saved t entry r' save sv p _ _ _ hmem =>
      rw [hmem.docs] at hdocs
      exact Or.inl hdocs

/-- **Containment is kept** as long as appends edit the managed object and loads
find the updates that have not been announced. -/
theorem State.Contains.step {announced : Finset TaskId} (hC : s.Contains announced)
    (hI : Inv s) (hU : Unedited s) (h : DocManager.step lex s e = some s')
    (hedit : ∀ t clientId, e = .resumeAppend t clientId → s.EditsManaged t)
    (hload : ∀ l, e = .continueLoad l → s.LoadsUpdates announced l) : s'.Contains announced := by
  intro t n u r hc ht hdocs
  rcases docs_or_put_of_step h hdocs with hold | ⟨l, x, doc, rfl, hl, rfl, hdoc, heq⟩
  · rcases hc.before h with hbefore | ⟨clientId, rfl⟩
    · exact (hC t n u r hbefore ht hold).trans (doc_le_of_step h (hI.docs_lt hold))
    · obtain ⟨r', entry, hedited, htask, rfl, hle⟩ := le_of_resumeAppend hU h hc.edited
      obtain rfl := hedit t clientId rfl r' hedited entry htask r hold
      exact hle
  · rcases hc.before h with ⟨entry, htask, hkey, hupdate, hfailed⟩ | ⟨clientId, he⟩
    · rw [heq]
      exact hload l rfl x hl doc hdoc t (s.queue.lt_next htask) ht entry htask hkey hfailed u
        hupdate
    · cases he

/-! ### Runs -/

/-- The invariants of the manager, together. -/
structure ManagerInv (s : State) : Prop where
  inv : Inv s
  load : LoadInv s
  owned : Owned s
  unedited : Unedited s

theorem managerInv_init (nodes : NodeId → Option NodeRow) : ManagerInv (State.init nodes) :=
  ⟨inv_init nodes, loadInv_init nodes, owned_init nodes, unedited_init nodes⟩

theorem ManagerInv.step (hM : ManagerInv s) (h : DocManager.step lex s e = some s') :
    ManagerInv s' :=
  ⟨hM.inv.step h, hM.load.step h, hM.owned.step hM.inv hM.load h, hM.unedited.step h⟩

section Runs

variable {es : List Event}

theorem ManagerInv.exec (hM : ManagerInv s) (h : exec (DocManager.step lex) s es = some s') :
    ManagerInv s' :=
  Reachable.invariant ⟨es, h⟩ hM fun _ _ _ hstep hM => hM.step hstep

/-- An object that already exists and is managed after a run was managed before. -/
theorem docs_of_exec (h : exec (DocManager.step lex) s es = some s') {n : NodeId} {r : DocRef}
    (hr : r < s.mem.nextRef) (hdocs : s'.mem.docs n = some r) : s.mem.docs n = some r := by
  induction es generalizing s with
  | nil =>
      cases h
      exact hdocs
  | cons e es ih =>
      rw [exec_cons, Option.bind_eq_some_iff] at h
      obtain ⟨s₁, hstep, h⟩ := h
      rcases docs_of_step hstep (ih h (hr.trans_le (nextRef_le_of_step hstep))) with hold | hnew
      · exact hold
      · exact absurd hnew.1 hr.ne

theorem nextRef_le_of_exec (h : exec (DocManager.step lex) s es = some s') :
    s.mem.nextRef ≤ s'.mem.nextRef :=
  Reachable.invariant (I := fun s' => s.mem.nextRef ≤ s'.mem.nextRef) ⟨es, h⟩ le_rfl
    fun _ _ _ hstep hle => hle.trans (nextRef_le_of_step hstep)

/-- A run that resumes no append adds to a managed document what it applies to
it. -/
theorem holds_of_exec (hM : ManagerInv s) (h : exec (DocManager.step lex) s es = some s')
    (hes : ∀ t clientId, .resumeAppend t clientId ∉ es) {n : NodeId} {r : DocRef}
    (hdocs : s.mem.docs n = some r) (hdocs' : s'.mem.docs n = some r) {x : Change}
    (hx : (s'.mem.heap r).doc.Holds x) :
    (s.mem.heap r).doc.Holds x ∨ ∃ u, .applyToDoc n u ∈ es ∧ u.Holds x := by
  induction es generalizing s with
  | nil =>
      cases h
      exact Or.inl hx
  | cons e es ih =>
      rw [exec_cons, Option.bind_eq_some_iff] at h
      obtain ⟨s₁, hstep, h⟩ := h
      have hdocs₁ : s₁.mem.docs n = some r :=
        docs_of_exec h ((hM.inv.docs_lt hdocs).trans_le (nextRef_le_of_step hstep)) hdocs'
      have hrest : ∀ t clientId, .resumeAppend t clientId ∉ es := fun t clientId hmem =>
        hes t clientId (List.mem_cons_of_mem _ hmem)
      rcases ih (hM.step hstep) h hrest hdocs₁ with hx₁ | ⟨u, hmem, hu⟩
      · rcases holds_of_step hM.inv hM.owned hstep hdocs hx₁ with
          hold | ⟨u, rfl, hu⟩ | ⟨t, clientId, u, rfl, -⟩
        · exact Or.inl hold
        · exact Or.inr ⟨u, List.mem_cons_self, hu⟩
        · exact absurd List.mem_cons_self (hes t clientId)
      · exact Or.inr ⟨u, List.mem_cons_of_mem _ hmem, hu⟩

/-- A run in which no flush resumes and the process does not end leaves every
update with its task. -/
theorem State.Carries.exec {t : TaskId} {n : NodeId} {u : YDoc} (hc : s.Carries t n u)
    (hM : ManagerInv s) (h : Library.exec (DocManager.step lex) s es = some s')
    (hflush : ∀ t, .continueFlush t ∉ es) (hrestart : .restart ∉ es) : s'.Carries t n u := by
  induction es generalizing s with
  | nil =>
      cases h
      exact hc
  | cons e es ih =>
      rw [exec_cons, Option.bind_eq_some_iff] at h
      obtain ⟨s₁, hstep, h⟩ := h
      have hrest : ∀ t, .continueFlush t ∉ es := fun t hmem =>
        hflush t (List.mem_cons_of_mem _ hmem)
      rcases hc.step hM.unedited hstep with hc₁ | ⟨rfl, -⟩ | rfl
      · exact ih hc₁ (hM.step hstep) h hrest fun hmem => hrestart (List.mem_cons_of_mem _ hmem)
      · exact absurd List.mem_cons_self (hflush t)
      · exact absurd List.mem_cons_self hrestart

/-- The task `t` has settled. -/
def State.Settled (s : State) (t : TaskId) : Prop :=
  ∃ entry, s.queue.task t = some entry ∧ entry.payload.stage = .settled

theorem State.Settled.exec {t : TaskId} (hs : s.Settled t)
    (h : Library.exec (DocManager.step lex) s es = some s') : s'.Settled t := by
  refine Reachable.invariant (I := fun s => s.Settled t) ⟨es, h⟩ hs ?_
  rintro s₁ e s₂ hstep ⟨entry, htask, hstage⟩
  obtain ⟨entry', htask', -, hnext⟩ := step_task hstep htask
  exact ⟨entry', htask', hnext.of_settled hstage⟩

/-- An append that resumes had not settled. -/
theorem not_settled_of_resumeAppend {t : TaskId} {clientId : ClientId}
    (h : step lex s (.resumeAppend t clientId) = some s') : ¬ s.Settled t := by
  rintro ⟨entry, htask, hstage⟩
  obtain ⟨entry₁, await, ws, markdown, userId, htask₁, hphase, -⟩ := State.resumeAppend_step s h
  rw [htask] at htask₁
  cases htask₁
  simp [Task.stage, hphase, Phase.stage] at hstage

end Runs

end AideepWebsocket.DocManager
