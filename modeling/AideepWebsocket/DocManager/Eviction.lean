import AideepWebsocket.DocManager.Closing
import AideepWebsocket.DocManager.FlushSteps
import AideepWebsocket.DocManager.Keys
import AideepWebsocket.DocManager.Ownership

/-!
# Is a document dropped with unsaved edits?

`evictDoc` looks at the client count of the entry and at nothing else, and
`onModuleDestroy` clears `docs` after one round of flushes.  Neither asks whether
the document has been saved.  It may not have been: an edit may have come after
the last flush took its snapshot (a message from a socket that has left), the flush
may have failed, or it may still be queued.

`drops_keep` says when nothing is lost, in terms of what happens between the last leave
(or the start of the shutdown) and the removal, while the node is `Closing`: no sync
message edits the document, the flush that was submitted then has started before the
idle timer fires, and nothing that this flush needs fails.  Then every change of a
dropped document is in a state committed for the node, or in a snapshot that was captured
before and has not failed by the end of the run.

The invariant is `ClosingInv`: a document that is about to be removed waits for a flush,
or is `Covered`, its changes being saved or in the transaction of a save that is under
way.  What a transaction of a document that is gone still has to write is kept until it
commits (`kept_of_exec`).
-/

namespace AideepWebsocket.DocManager

open Library

variable {lex : Lexical} {s s' : State} {e : Event} {nodes : NodeId → Option NodeRow}
  {n : NodeId} {r : DocRef}

/-! ### What is saved, and what is dropped -/

/-- `saveToDb` has committed the change for the node: before the run began, or
in the run. -/
def Saved (nodes : NodeId → Option NodeRow) (s : State) (n : NodeId) (x : Change) : Prop :=
  (∃ row, (nodes n).bind NodeRow.yjsState = some row ∧ row.Holds x) ∨
    ∃ i c, s.saves i = some c ∧ c.nodeId = n ∧ c.phase.committed = true ∧ c.state.Holds x

/-- In the step from `s` the idle timer, or the end of `onModuleDestroy`, removes
the object at `r` from `docs`. -/
structure Dropped (s : State) (e : Event) (s' : State) (n : NodeId) (r : DocRef) : Prop where
  event : (∃ timer, e = .fireTimer timer ∧ s.mem.timers timer = some (.idle n)) ∨
    e = .finishDestroy
  before : s.mem.docs n = some r
  after : s'.mem.docs n = none

/-- Every change of a dropped document is saved, or in the snapshot of a save
that was made before and that, at the end `fin` of the run, has committed or is
still under way. -/
def DropKeeps (nodes : NodeId → Option NodeRow) (n : NodeId) (fin s : State) (e : Event)
    (s' : State) : Prop :=
  ∀ r, Dropped s e s' n r → ∀ x, (s.mem.heap r).doc.Holds x → Saved nodes s n x ∨
    ∃ i c c', s.saves i = some c ∧ c.nodeId = n ∧ c.state.Holds x ∧ fin.saves i = some c' ∧
      (c'.phase.committed = true ∨ c'.phase.pending = true)

/-! ### The condition -/

/-- The object that the call saves is no longer managed, or is about to be removed. -/
def State.Retires (s : State) (c : SaveCall) : Prop :=
  s.mem.docs c.nodeId ≠ some c.ref ∨ s.Closing c.nodeId

/-- A flush that starts in this step saves the managed document of `n`: its exports
return; or, if it has nothing to save, the row has what its test cannot see. -/
def FlushSaves (lex : Lexical) (n : NodeId) (s : State) (e : Event) : Prop :=
  ∀ p ∈ s.flushed lex e, p.1 = n → ∀ r ∈ p.2.docs n,
    if (p.2.heap r).unchanged then
      (s.row n).any (fun row => invisible (p.2.heap r).doc ≤ row) = true
    else ExportsReturn lex e (p.2.heap r).doc

/-- The condition on a step.  While the node is closing, no sync message edits its
document, no load brings it back into a process that is shutting down, and its flushes
save; the transaction of a save of what is removed is executed; and an idle timer that
removes the document is the one that was set when the last client left, and finds the
flush of that moment started. -/
def FlushedInTime (lex : Lexical) (n : NodeId) (s : State) (e : Event) (_ : State) : Prop :=
  match e with
  | .applyToDoc m _ => m = n → ¬ s.Closing n
  | .startTask _ | .resumeAppend _ _ => s.Closing n → FlushSaves lex n s e
  | .updateNodeRow i reply _ => ∀ c ∈ s.saves i, c.nodeId = n → c.phase = .updateNodeRow →
      s.Retires c → reply.executed = true ∧ s.nodes n ≠ none
  | .fireTimer timer => s.mem.timers timer = some (.idle n) → ∀ r ∈ s.mem.docs n,
      (s.mem.heap r).clients = ∅ →
        (s.mem.heap r).idleTimer.isSome = true ∧ ¬ s.Queued n (.flushDoc .lastLeave)
  | .continueLoad l => ∀ x ∈ s.loader.loads l, x.nodeId = n → x.phase.document ≠ none →
      s.shutdown.isFlushing = false
  | .restart => ∀ i < s.nextSave, ∀ c ∈ s.saves i, c.nodeId = n → c.phase = .updateNodeRow →
      ¬ s.Retires c
  | _ => True

instance (s : State) (c : SaveCall) : Decidable (s.Retires c) := by
  unfold State.Retires
  infer_instance

instance (lex : Lexical) (n : NodeId) (s : State) (e : Event) :
    Decidable (FlushSaves lex n s e) := by
  unfold FlushSaves
  infer_instance

instance (lex : Lexical) (n : NodeId) (s : State) (e : Event) (s' : State) :
    Decidable (FlushedInTime lex n s e s') := by
  unfold FlushedInTime
  -- `casesOn` puts no equation about the event into the instance
  induction e using Event.casesOn <;> infer_instance

/-! ### What is covered -/

/-- The row is what some `saveToDb` has committed. -/
def RowSaved (nodes : NodeId → Option NodeRow) (n : NodeId) (s : State) : Prop :=
  ∀ {row x}, s.row n = some row → row.Holds x → Saved nodes s n x

/-- The change is in the transaction of a save of the object at `r`. -/
def Writing (s : State) (n : NodeId) (r : DocRef) (x : Change) : Prop :=
  ∃ i c, s.saves i = some c ∧ c.nodeId = n ∧ c.ref = r ∧ c.phase = .updateNodeRow ∧
    c.state.Holds x

/-- Every change of the object at `r` is saved, or is being written. -/
def Covered (nodes : NodeId → Option NodeRow) (s : State) (n : NodeId) (r : DocRef) : Prop :=
  ∀ x, (s.mem.heap r).doc.Holds x → Saved nodes s n x ∨ Writing s n r x

theorem Saved.of_step (h : step lex s e = some s') (hI : Inv s) {x : Change}
    (hx : Saved nodes s n x) : Saved nodes s' n x := by
  rcases hx with hrow | ⟨i, c, hc, hnode, hcommitted, hx⟩
  · exact Or.inl hrow
  · obtain ⟨phase, hc', hcommitted'⟩ := save_keeps_of_step h hc (hI.save_lt hc)
    exact Or.inr ⟨i, _, hc', hnode, hcommitted' hcommitted, hx⟩

private theorem rowSaved_step (hI : Inv s) (hR : RowSaved nodes n s)
    (h : step lex s e = some s') : RowSaved nodes n s' := by
  intro row x hrow hx
  rcases row_of_step h hrow with hrow | ⟨i, c, phase, -, -, hnode, rfl, hcommitted, hc'⟩
  · exact (hR hrow hx).of_step h hI
  · exact Or.inr ⟨i, _, hc', hnode, hcommitted, hx⟩

/-- A flush that is rightly skipped has captured nothing that is not saved. -/
private theorem saved_of_skip (hI' : Inv s') (hR' : RowSaved nodes n s') {row : YDoc}
    (hdocs : s'.mem.docs n = some r) (hunchanged : (s'.mem.heap r).unchanged = true)
    (hrow : s'.row n = some row) (hle : invisible (s'.mem.heap r).doc ≤ row) {x : Change}
    (hx : (s'.mem.heap r).doc.Holds x) : Saved nodes s' n x := by
  have hsv : (s'.mem.heap r).lastSavedStateVector =
      some (encodeStateVector (s'.mem.heap r).doc) := by
    simp only [ManagedDoc.unchanged, Bool.and_eq_true, beq_iff_eq] at hunchanged
    exact hunchanged.2
  obtain ⟨i, c, hc, href, hcommitted, hstate⟩ := hI'.recorded (hI'.docs_lt hdocs) hsv
  have hnode : c.nodeId = n := hI'.ref_node hdocs hc href
  -- what the vector shows is in the recorded save, the rest in the row
  have hsplit : (s'.mem.heap r).doc ≤ c.state ⊔ row :=
    le_of_encodeStateVector_eq hstate.symm le_sup_left (hle.trans le_sup_right)
  have hholds := YDoc.le_iff_holds.mp hsplit x hx
  rcases YDoc.holds_sup.mp hholds with hx | hx
  · exact Or.inr ⟨i, c, hc, hnode, hcommitted, hx⟩
  · exact hR' hrow hx

/-- **A flush that saves covers the document** that it finds. -/
private theorem covered_of_flushed (hI' : Inv s') (hR' : RowSaved nodes n s')
    (h : step lex s e = some s') {t : TaskId} {mem : Memory}
    (he : e = .startTask t ∨ ∃ clientId, e = .resumeAppend t clientId)
    (hflushed : s.flushed lex e = some (n, mem)) (hsaves : FlushSaves lex n s e)
    (hdocs : s.mem.docs n = some r) : Covered nodes s' n r := by
  have hfound : mem.docs n = some r := by rw [State.docs_of_flushed hflushed, hdocs]
  have hcalled := flushCalled_of_step h he hflushed (by rw [hfound]; exact Option.some_ne_none r)
  have hsame : mem.SameDocs s'.mem := hcalled.sameDocs
  have hsaved := hsaves (n, mem) hflushed rfl r hfound
  intro x hx
  cases hunchanged : (mem.heap r).unchanged with
  | true =>
      rw [if_pos hunchanged] at hsaved
      obtain ⟨row, hrow, hle⟩ := (Option.any_eq_true _ _).mp hsaved
      refine Or.inl (saved_of_skip hI' hR' (by rw [hsame.docs, hfound])
        (by rw [hsame.unchanged, hunchanged]) (by rw [row_of_start h he, hrow]) ?_ hx)
      rw [hsame.doc]
      exact of_decide_eq_true hle
  | false =>
      rw [if_neg (by simp [hunchanged])] at hsaved
      obtain ⟨i, c, hc, hnode, href, hphase, hstate⟩ := hcalled.saves hfound hunchanged hsaved
      refine Or.inr ⟨i, c, hc, hnode, href, hphase, ?_⟩
      rw [hstate, ← hsame.doc]
      exact hx

/-- The document of a node changes by a sync message, or in a step in which a flush of the
node starts. -/
private theorem doc_of_step (hI : Inv s) (hO : Owned s) (h : step lex s e = some s')
    (hdocs : s.mem.docs n = some r) (hedit : ∀ u, e ≠ .applyToDoc n u)
    (hflush : ∀ mem, s.flushed lex e ≠ some (n, mem)) :
    (s'.mem.heap r).doc = (s.mem.heap r).doc := by
  cases step_mem h with
  | same hmem => exact hmem.doc r
  | edit q u horigin hmem =>
      rcases horigin with ⟨m, rfl, hm⟩ | ⟨t, clientId, entry, await, rfl, htask, hphase, hawait⟩
      · rw [hmem.doc]
        split
        · next hr =>
            subst hr
            obtain rfl := hI.docs_inj hm hdocs
            exact absurd rfl (hedit u)
        · rfl
      · -- the flush of the append starts, so the append is for another node
        obtain ⟨entry₁, await₁, ws, markdown, userId, htask₁, hphase₁, hkind, hcase⟩ :=
          State.resumeAppend_step s h
        obtain rfl : entry = entry₁ := Option.some.inj (htask.symm.trans htask₁)
        rcases hcase with ⟨failure, -, rfl⟩ | ⟨q', result, mem, hawait', hresult, hedit', hflush'⟩
        · simp
        · have hne : r ≠ q' := by
            rintro rfl
            have hnode : n = entry.key :=
              (hO.awaited (awaiting_of_task htask hphase₁) hawait').node hdocs
            subst hnode
            exact hflush _ (by simp [State.flushed, htask, hphase₁, hkind, hawait', hresult]; rfl)
          have hsame : mem.SameDocs s'.mem := by
            rcases hflush' with ⟨-, rfl⟩ | ⟨-, hflush'⟩
            · exact .refl _
            · exact hflush'.sameDocs
          rw [hsame.doc, hedit'.doc, if_neg hne]
  | put l y doc ws _ _ _ hmem =>
      rw [hmem]
      exact congrArg ManagedDoc.doc (Function.update_of_ne (hI.docs_lt hdocs).ne ..)
  | remove hmem => rw [hmem.heap]
  | saved t entry q save sv p _ _ _ hmem => rw [hmem.doc]

/-- **What is being written is written**: the transaction of a save of an object that is
removed, or is about to be, stays under way or commits. -/
private theorem transaction_of_retired (hI : Inv s) (h : step lex s e = some s')
    (hG : FlushedInTime lex n s e s') {i : SaveId} {c : SaveCall} (hc : s.saves i = some c)
    (hnode : c.nodeId = n) (hphase : c.phase = .updateNodeRow) (hretires : s.Retires c) :
    ∃ phase, s'.saves i = some { c with phase := phase } ∧
      (phase.committed = true ∨ phase = .updateNodeRow) := by
  have hstays : s'.saves i = some c → ∃ phase, s'.saves i = some { c with phase := phase } ∧
      (phase.committed = true ∨ phase = .updateNodeRow) := fun hc' =>
    ⟨c.phase, hc', Or.inr hphase⟩
  by_cases hupdate : ∃ save reply now, e = .updateNodeRow save reply now
  · obtain ⟨save, reply, now, rfl⟩ := hupdate
    obtain ⟨c₀, hsave, -, hcase⟩ := State.updateNodeRow_cases s h
    by_cases hi : i = save
    · subst hi
      obtain rfl : c = c₀ := Option.some.inj (hc.symm.trans hsave)
      obtain ⟨hexecuted, hrow⟩ := hG c hc hnode hphase hretires
      rcases hcase with ⟨hnot, -⟩ | ⟨-, hnone, -⟩ | ⟨row, -, -, ⟨-, rfl⟩ | ⟨-, rfl⟩⟩
      · rw [hexecuted] at hnot
        cases hnot
      · exact absurd (hnode ▸ hnone) hrow
      · exact ⟨_, Function.update_self .., Or.inl rfl⟩
      · refine ⟨.rejected true, ?_, Or.inl rfl⟩
        rw [(State.rejectSave_frame _ _ _ _ _).2.2.1, Function.update_self]
    · refine hstays ?_
      rcases hcase with ⟨-, rfl⟩ | ⟨-, -, rfl⟩ | ⟨row, -, -, ⟨-, rfl⟩ | ⟨-, rfl⟩⟩
      · rw [(State.rejectSave_frame _ _ _ _ _).2.2.1, Function.update_of_ne hi, hc]
      · rw [(State.rejectSave_frame _ _ _ _ _).2.2.1, Function.update_of_ne hi, hc]
      · exact (Function.update_of_ne hi ..).trans hc
      · rw [(State.rejectSave_frame _ _ _ _ _).2.2.1, Function.update_of_ne hi]
        exact hc
  by_cases hsync : ∃ save ok, e = .attachmentsSynced save ok
  · obtain ⟨save, ok, rfl⟩ := hsync
    obtain ⟨c₀, persisted, hsave, hphase₀, hcase⟩ := State.attachmentsSynced_cases s h
    have hi : i ≠ save := by
      rintro rfl
      obtain rfl : c = c₀ := Option.some.inj (hc.symm.trans hsave)
      rw [hphase] at hphase₀
      cases hphase₀
    refine hstays ?_
    rcases hcase with ⟨-, rfl⟩ | ⟨-, rfl⟩
    · exact (Function.update_of_ne hi ..).trans hc
    · rw [(State.rejectSave_frame _ _ _ _ _).2.2.1, Function.update_of_ne hi, hc]
  have hrestart : e ≠ .restart := by
    rintro rfl
    exact hG i (hI.save_lt hc) c hc hnode hphase hretires
  exact hstays (save_of_other h (fun save reply now he => hupdate ⟨save, reply, now, he⟩)
    (fun save ok he => hsync ⟨save, ok, he⟩) hrestart hc (hI.save_lt hc))

/-- A change that is being written goes on being so, or is saved. -/
private theorem saved_or_writing_of_step (hI : Inv s) (h : step lex s e = some s')
    (hG : FlushedInTime lex n s e s') (hclosing : s.Closing n) {x : Change}
    (hx : Writing s n r x) : Saved nodes s' n x ∨ Writing s' n r x := by
  obtain ⟨i, c, hc, hnode, href, hphase, hx⟩ := hx
  obtain ⟨phase, hc', hcommitted | hwriting⟩ :=
    transaction_of_retired hI h hG hc hnode hphase (Or.inr (hnode ▸ hclosing))
  · exact Or.inl (Or.inr ⟨i, _, hc', hnode, hcommitted, hx⟩)
  · exact Or.inr ⟨i, _, hc', hnode, href, hwriting, hx⟩

private theorem event_of_flushed {p : NodeId × Memory} (h : s.flushed lex e = some p) :
    ∃ t, e = .startTask t ∨ ∃ clientId, e = .resumeAppend t clientId := by
  cases e with
  | startTask t => exact ⟨t, Or.inl rfl⟩
  | resumeAppend t clientId => exact ⟨t, Or.inr ⟨clientId, rfl⟩⟩
  | _ => cases h

private theorem FlushedInTime.flushSaves (hG : FlushedInTime lex n s e s') (hclosing : s.Closing n)
    {t : TaskId} (he : e = .startTask t ∨ ∃ clientId, e = .resumeAppend t clientId) :
    FlushSaves lex n s e := by
  rcases he with rfl | ⟨clientId, rfl⟩ <;> exact hG hclosing

/-- **A document that is closing stays covered.** -/
private theorem covered_step (hI : Inv s) (hI' : Inv s') (hO : Owned s)
    (hR' : RowSaved nodes n s') (h : step lex s e = some s') (hG : FlushedInTime lex n s e s')
    (hdocs : s.mem.docs n = some r) (hclosing : s.Closing n) (hC : Covered nodes s n r) :
    Covered nodes s' n r := by
  by_cases hflush : ∃ mem, s.flushed lex e = some (n, mem)
  · obtain ⟨mem, hflushed⟩ := hflush
    obtain ⟨t, he⟩ := event_of_flushed hflushed
    exact covered_of_flushed hI' hR' h he hflushed (hG.flushSaves hclosing he) hdocs
  · have hdoc : (s'.mem.heap r).doc = (s.mem.heap r).doc := by
      refine doc_of_step hI hO h hdocs ?_ fun mem hflushed => hflush ⟨mem, hflushed⟩
      rintro u rfl
      exact hG rfl hclosing
    intro x hx
    rcases hC x (hdoc ▸ hx) with hsaved | hwriting
    · exact Or.inl (hsaved.of_step h hI)
    · exact saved_or_writing_of_step hI h hG hclosing hwriting

/-! ### The invariant -/

/-- A document that is about to be removed waits for the flush that was submitted then,
or is covered. -/
structure ClosingInv (nodes : NodeId → Option NodeRow) (n : NodeId) (s : State) : Prop where
  left : ∀ {r}, s.mem.docs n = some r → (s.mem.heap r).left = true →
    s.Queued n (.flushDoc .lastLeave) ∨ Covered nodes s n r
  flushing : ∀ {r call}, s.mem.docs n = some r → s.shutdown = .flushing call →
    s.Due call n ∨ Covered nodes s n r

/-- What holds in the runs that meet the condition. -/
structure DropInv (nodes : NodeId → Option NodeRow) (n : NodeId) (s : State) : Prop where
  manager : ManagerInv s
  keys : s.mem.KeysInv
  flushAll : s.FlushAllInv
  row : RowSaved nodes n s
  closing : ClosingInv nodes n s

theorem dropInv_init (nodes : NodeId → Option NodeRow) (n : NodeId) :
    DropInv nodes n (State.init nodes) where
  manager := managerInv_init nodes
  keys := Memory.keysInv_of_none (fun _ => rfl) rfl
  flushAll := State.flushAllInv_init nodes
  row hrow hx := Or.inl ⟨_, hrow, hx⟩
  closing := ⟨fun h => (by cases h), fun h => (by cases h)⟩

/-- A flush that waits goes on waiting, or covers the document when it starts. -/
private theorem covered_of_start (hI' : Inv s') (hR' : RowSaved nodes n s')
    (h : step lex s e = some s') (hG : FlushedInTime lex n s e s') (hclosing : s.Closing n)
    (hdocs : s.mem.docs n = some r) (hdocs' : s'.mem.docs n = some r)
    (hstart : (∃ t mem, e = .startTask t ∧ s.flushed lex e = some (n, mem)) ∨ e = .restart) :
    Covered nodes s' n r := by
  rcases hstart with ⟨t, mem, he, hflushed⟩ | rfl
  · exact covered_of_flushed hI' hR' h (Or.inl he) hflushed
      (hG.flushSaves hclosing (Or.inl he)) hdocs
  · cases h
    cases hdocs'

private theorem closingInv_step (hD : DropInv nodes n s) (hI' : Inv s')
    (hR' : RowSaved nodes n s') (h : step lex s e = some s')
    (hG : FlushedInTime lex n s e s') : ClosingInv nodes n s' where
  left := by
    intro r hdocs' hleft'
    rcases left_of_step hD.manager.inv h hdocs' hleft' with ⟨hdocs, hleft⟩ | hqueued
    · have hclosing : s.Closing n := Or.inl ⟨r, hdocs, hleft⟩
      rcases hD.closing.left hdocs hleft with hqueued | hcovered
      · exact (queued_of_step h hqueued).imp_right
          (covered_of_start hI' hR' h hG hclosing hdocs hdocs')
      · exact Or.inr (covered_step hD.manager.inv hI' hD.manager.owned hR' h hG hdocs hclosing
          hcovered)
    · exact Or.inl hqueued
  flushing := by
    intro r call hdocs' hflushing'
    rcases State.shutdown_of_step h hflushing' with hflushing | ⟨rfl, rfl, rfl⟩
    · have hclosing : s.Closing n := Or.inr (by rw [hflushing]; rfl)
      rcases docs_or_put_of_step h hdocs' with hdocs | ⟨l, x, doc, rfl, hload, hnode, hdoc, -⟩
      · rcases hD.closing.flushing hdocs hflushing with hdue | hcovered
        · exact (due_of_step hD.flushAll h hdue).imp_right
            (covered_of_start hI' hR' h hG hclosing hdocs hdocs')
        · exact Or.inr (covered_step hD.manager.inv hI' hD.manager.owned hR' h hG hdocs hclosing
            hcovered)
      · -- a load does not end while the process shuts down
        have hnot := hG x hload hnode (by rw [hdoc]; exact Option.some_ne_none doc)
        rw [hflushing] at hnot
        cases hnot
    · -- the shutdown takes what is managed
      have hmem : s.onModuleDestroy.mem = s.mem := mem_of_keepsMemory h trivial
      rw [hmem] at hdocs'
      have hkey : n ∈ s.mem.keys := (hD.keys.mem_iff n).mpr (by
        rw [hdocs']
        exact Option.some_ne_none r)
      exact Or.inl (State.due_of_flushAll hkey)

private theorem dropInv_step (hD : DropInv nodes n s) (h : step lex s e = some s')
    (hG : FlushedInTime lex n s e s') : DropInv nodes n s' := by
  have hM' := hD.manager.step h
  have hR' : RowSaved nodes n s' := rowSaved_step hD.manager.inv hD.row h
  exact ⟨hM', keysInv_of_step h hD.keys, hD.flushAll.step (State.flushAllStep_of_step h), hR',
    closingInv_step hD hM'.inv hR' h hG⟩

/-! ### Nothing is lost -/

/-- What `evictDoc` removes has no clients. -/
private theorem clients_of_evicted {timer : TimerId} (h : step lex s (.fireTimer timer) = some s')
    (htimer : s.mem.timers timer = some (.idle n)) (hdocs : s.mem.docs n = some r)
    (hgone : s'.mem.docs n = none) : (s.mem.heap r).clients = ∅ := by
  by_contra hclients
  have hmem : s'.mem = s.mem.clearTimeout (some timer) := by
    obtain ⟨m, ⟨hkind, -⟩ | ⟨hkind, rfl⟩⟩ := State.fireTimer_cases s h <;>
      cases htimer.symm.trans hkind
    have hdocs : (s.mem.clearTimeout (some timer)).docs n = some r := hdocs
    simp only [Memory.evictDoc, hdocs]
    exact if_neg hclients
  rw [hmem] at hgone
  have hdocs : (s.mem.clearTimeout (some timer)).docs n = some r := hdocs
  rw [hdocs] at hgone
  cases hgone

/-- **A document that is removed is covered**, and has been closing. -/
private theorem covered_of_dropped (hD : DropInv nodes n s) (h : step lex s e = some s')
    (hG : FlushedInTime lex n s e s') (hdrop : Dropped s e s' n r) :
    s.Closing n ∧ Covered nodes s n r := by
  rcases hdrop.event with ⟨timer, rfl, htimer⟩ | rfl
  · -- the idle timer fires
    have hclients := clients_of_evicted h htimer hdrop.before hdrop.after
    obtain ⟨hidle, hstarted⟩ := hG htimer r hdrop.before hclients
    have hleft : (s.mem.heap r).left = true := by simp [ManagedDoc.left, hclients, hidle]
    exact ⟨Or.inl ⟨r, hdrop.before, hleft⟩,
      (hD.closing.left hdrop.before hleft).resolve_left hstarted⟩
  · -- `docs` is cleared, once the `flushAll` has resolved
    simp only [step, State.finishDestroy] at h
    split at h
    · next call hshutdown =>
        split at h
        · next hresolved =>
            refine ⟨Or.inr (by rw [hshutdown]; rfl), ?_⟩
            exact (hD.closing.flushing hdrop.before hshutdown).resolve_left
              (State.not_due_of_resolved hD.flushAll hresolved)
        · cases h
    · cases h

/-- A save of an object that is gone has committed at the end of the run, or is still
under way. -/
private theorem kept_of_exec {fin : State} {es : List Event} (hI : Inv s)
    (hes : exec (step lex) s es = some fin)
    (hG : Along (step lex) (FlushedInTime lex n) s es) {i : SaveId} {c : SaveCall}
    (hc : s.saves i = some c) (hnode : c.nodeId = n) (hgone : s.mem.docs n ≠ some c.ref)
    (hkept : c.phase.committed = true ∨ c.phase = .updateNodeRow) :
    ∃ c', fin.saves i = some c' ∧ (c'.phase.committed = true ∨ c'.phase.pending = true) := by
  induction es generalizing s c with
  | nil =>
      cases hes
      exact ⟨c, hc, hkept.imp_right fun hphase => by rw [hphase]; rfl⟩
  | cons e es ih =>
      rw [exec_cons, Option.bind_eq_some_iff] at hes
      obtain ⟨s₁, hstep, hes⟩ := hes
      obtain ⟨hG₁, hrest⟩ := along_cons.mp hG s₁ hstep
      -- an object that is gone does not come back
      have hgone₁ : s₁.mem.docs n ≠ some c.ref := by
        intro hback
        rcases docs_of_step hstep hback with hdocs | ⟨hnew, -, -⟩
        · exact hgone hdocs
        · exact absurd hnew (hI.ref_lt hc).ne
      obtain ⟨phase, hc₁, hkept₁⟩ : ∃ phase, s₁.saves i = some { c with phase := phase } ∧
          (phase.committed = true ∨ phase = .updateNodeRow) := by
        rcases hkept with hcommitted | hphase
        · obtain ⟨phase, hc₁, hstill⟩ := save_keeps_of_step hstep hc (hI.save_lt hc)
          exact ⟨phase, hc₁, Or.inl (hstill hcommitted)⟩
        · exact transaction_of_retired hI hstep hG₁ hc hnode hphase (Or.inl (hnode ▸ hgone))
      exact ih (hI.step hstep) hes hrest hc₁ hnode hgone₁ hkept₁

/-- **No document of the node is dropped with unsaved edits**, in every run in which,
from the last leave or the shutdown on, no sync message edits the document, the flush
that was submitted then starts in time, and nothing that its flushes need fails. -/
theorem drops_keep (lex : Lexical) (nodes : NodeId → Option NodeRow) (n : NodeId)
    (es : List Event) (h : Along (step lex) (FlushedInTime lex n) (State.init nodes) es) :
    ∀ fin ∈ exec (step lex) (State.init nodes) es,
      Along (step lex) (DropKeeps nodes n fin) (State.init nodes) es := by
  intro fin hfin
  rw [along_iff_forall_split]
  rintro pre e rest s s' rfl hpre hstep
  obtain ⟨hbefore, hafter⟩ := (along_append hpre).mp h
  obtain ⟨hG, hrest⟩ := along_cons.mp hafter s' hstep
  -- the invariant holds before the step
  have hD : DropInv nodes n s :=
    exec_invariant (I := DropInv nodes n) (fun _ _ _ hstep₁ hD₁ hG₁ => dropInv_step hD₁ hstep₁ hG₁)
      hpre (dropInv_init nodes n) hbefore
  have hend : exec (step lex) s' rest = some fin := by
    have hfin : exec (step lex) (State.init nodes) (pre ++ e :: rest) = some fin := hfin
    rw [exec_append, hpre, Option.bind_some, exec_cons, hstep] at hfin
    exact hfin
  intro r hdrop x hx
  obtain ⟨hclosing, hcovered⟩ := covered_of_dropped hD hstep hG hdrop
  refine (hcovered x hx).imp_right ?_
  rintro ⟨i, c, hc, hnode, rfl, hphase, hx⟩
  obtain ⟨phase, hc', hkept⟩ := transaction_of_retired hD.manager.inv hstep hG hc hnode hphase
    (Or.inr (hnode ▸ hclosing))
  obtain ⟨c', hc', hkept'⟩ := kept_of_exec (hD.manager.inv.step hstep) hend hrest hc' hnode
    (by rw [hdrop.after]; exact Option.some_ne_none _ |>.symm) hkept
  exact ⟨i, c, c', hc, hnode, hx, hc', hkept'⟩

/-- An edit is flushed when the last client leaves, and then the document is
evicted. -/
def evictedRun : List Event :=
  openNode ++ [.applyToDoc 1 ⟨{(3, 0)}, ∅⟩, .scheduleSave 1 (some 9), .removeClient 1 5,
    .startTask 0] ++ flushSaved 0 0 ++ [.fireTimer 1]

theorem evictedRun_keeps :
    (exec (step .plain) (State.init oneNode) evictedRun).isSome = true ∧
      ∀ fin ∈ exec (step .plain) (State.init oneNode) evictedRun,
        Along (step .plain) (DropKeeps oneNode 1 fin) (State.init oneNode) evictedRun :=
  ⟨by decide +kernel, drops_keep .plain oneNode 1 evictedRun (by decide +kernel)⟩

/-- The last client has left and its flush is done; then an edit comes from a
socket that is no longer joined, and the idle timer fires before the save
timer. -/
def lateEditRun : List Event :=
  openNode ++ [.removeClient 1 5, .startTask 0, .redisReply .ok, .updateNodeRow 0 .ok 10,
    .attachmentsSynced 0 true, .continueFlush 0, .resumeTask 0,
    .applyToDoc 1 ⟨{(3, 0)}, ∅⟩, .scheduleSave 1 (some 9)]

theorem lateEditRun_loses :
    ∃ fin, exec (step .plain) (State.init oneNode) (lateEditRun ++ [.fireTimer 0]) = some fin ∧
      ¬ Along (step .plain) (DropKeeps oneNode 1 fin) (State.init oneNode)
        (lateEditRun ++ [.fireTimer 0]) := by
  have hrun : (exec (step .plain) (State.init oneNode) lateEditRun).any (fun s =>
      (step .plain s (.fireTimer 0)).any fun s' =>
        s.mem.timers 0 = some (.idle 1) ∧ s.mem.docs 1 = some 0 ∧ s'.mem.docs 1 = none ∧
        (s.mem.heap 0).doc = ⟨{(3, 0)}, ∅⟩ ∧
        s.nextSave = 1 ∧ (s.saves 0).map SaveCall.state = some ⊥) = true := by
    decide +kernel
  obtain ⟨s, hs, hrun⟩ := (Option.any_eq_true _ _).mp hrun
  obtain ⟨s', hs', hrun⟩ := (Option.any_eq_true _ _).mp hrun
  obtain ⟨htimer, hbefore, hafter, hdoc, hnext, hsave⟩ := of_decide_eq_true hrun
  have hfin : exec (step .plain) (State.init oneNode) (lateEditRun ++ [.fireTimer 0]) =
      some s' := by rw [exec_concat, hs, Option.bind_some, hs']
  refine ⟨s', hfin, fun h => ?_⟩
  have hI : Inv s := inv_of_reachable ⟨lateEditRun, hs⟩
  -- the only save was made of the empty document
  have hempty : ∀ {i c x}, s.saves i = some c → ¬ c.state.Holds (.insert x) := by
    intro i c x hc hx
    obtain rfl : i = 0 := Nat.lt_one_iff.mp (hnext ▸ hI.save_lt hc)
    rw [hc] at hsave
    rw [Option.some.inj hsave] at hx
    simp [YDoc.Holds] at hx
  have hkeeps := h.at_step hs hs' 0 ⟨Or.inl ⟨0, rfl, htimer⟩, hbefore, hafter⟩
    (.insert (3, 0)) (by rw [hdoc]; decide)
  rcases hkeeps with (⟨row, hrow, -⟩ | ⟨i, c, hc, -, -, hx⟩) | ⟨i, c, c', hc, -, hx, -⟩
  · cases hrow
  · exact hempty hc hx
  · exact hempty hc hx

end AideepWebsocket.DocManager
