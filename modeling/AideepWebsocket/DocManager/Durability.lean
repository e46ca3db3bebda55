import AideepWebsocket.DocManager.Invariant
import AideepWebsocket.DocManager.Skips

/-!
# Is a flush that resolves durable?

A flush that resolves should leave in `yjs_state` everything the document held
when the flush started.  Two things can prevent it.

* The *skip branch* compares state vectors.  A state vector shows the integrated
  structs and nothing else, so a document may differ from what was saved last in
  changes that are `invisible`: deletions, and structs that wait for a
  predecessor.
* The *row is overwritten*, not merged.  A save whose flush has already rejected
  (see `DocManager.Serial`) may commit its older snapshot after a newer one.

`durable` shows that there is no third: in a run in which no flush is skipped
over invisible changes that the row lacks, no older save commits after a newer
one, and no row is deleted, every flush that resolves — skipped or saving, on
its own or inside `appendMarkdown` — leaves the row with all that it captured.
-/

namespace AideepWebsocket.DocManager

open Library

variable {lex : Lexical} {s s' : State} {e : Event}

/-- In this step the flush that task `t` carries out for node `n` finds nothing to
save in the object at `r`. -/
def Skips (s s' : State) (t : TaskId) (n : NodeId) (r : DocRef) : Prop :=
  ∃ entry entry' persisted, s.queue.task t = some entry ∧ entry.key = n ∧
    entry.payload.phase.flushed = none ∧ s'.queue.task t = some entry' ∧
    entry'.payload.phase = .refreshing r persisted none

/-- In this step the promise of task `t` of node `n` resolves, after its flush
has captured a state. -/
def Resolves (s s' : State) (t : TaskId) (n : NodeId) (captured : Option YDoc) : Prop :=
  ∃ entry entry' persisted, s.queue.task t = some entry ∧ entry.key = n ∧
    entry.payload.stage ≠ .settled ∧ s'.queue.task t = some entry' ∧
    entry'.payload.phase = .settled (.ok persisted) ∧ entry'.payload.captured = captured

/-- A flush that resolves leaves all it captured in the row, and a flush that is
skipped has nothing to add to the row. -/
structure Durable (s s' : State) : Prop where
  resolves : ∀ {t n captured}, Resolves s s' t n captured →
    ∃ state row, captured = some state ∧ s'.row n = some row ∧ state ≤ row
  skips : ∀ {t n r}, Skips s s' t n r →
    ∃ row, s'.row n = some row ∧ (s'.mem.heap r).doc ≤ row

/-! ### The condition -/

/-- A flush that starts in this step, and has nothing to save, finds no invisible
changes that the row lacks. -/
def SkipsVisible (lex : Lexical) (s : State) (e : Event) : Prop :=
  ∀ p ∈ s.flushed lex e, ∀ r ∈ p.2.docs p.1, (p.2.heap r).unchanged = true →
    ∀ row ∈ s.row p.1, invisible (p.2.heap r).doc ≤ row

/-- No save of the node has committed that is newer than save `i`. -/
def CommitsNewest (s : State) (i : SaveId) : Prop :=
  ∀ c ∈ s.saves i, ∀ j < s.nextSave, ∀ d ∈ s.saves j,
    d.nodeId = c.nodeId → d.phase.committed = true → j ≤ i

/-- The condition on a step: a flush is not skipped over invisible changes that
the row lacks, a save does not commit after a newer one, and no row is
deleted. -/
def DurableStep (lex : Lexical) (s : State) (e : Event) (_ : State) : Prop :=
  match e with
  | .startTask _ | .resumeAppend _ _ => SkipsVisible lex s e
  | .updateNodeRow i reply _ => reply.executed = true → CommitsNewest s i
  | .deleteNode _ => False
  | _ => True

instance (lex : Lexical) (s : State) (e : Event) : Decidable (SkipsVisible lex s e) := by
  unfold SkipsVisible
  infer_instance

instance (s : State) (i : SaveId) : Decidable (CommitsNewest s i) := by
  unfold CommitsNewest
  infer_instance

instance (lex : Lexical) (s : State) (e : Event) (s' : State) :
    Decidable (DurableStep lex s e s') := by
  unfold DurableStep
  -- `casesOn` puts no equation about the event into the instance
  induction e using Event.casesOn <;> infer_instance

/-- What is invisible in the document of a flush that has just been skipped is in the
row. -/
private theorem DurableStep.invisible_le {t : TaskId} {entry entry' : ChainTask NodeId Task}
    {r : DocRef} {p : Persisted} {row : YDoc} (hG : DurableStep lex s e s')
    (h : step lex s e = some s') (he : e = .startTask t ∨ ∃ clientId, e = .resumeAppend t clientId)
    (ht : s.queue.task t = some entry) (ht' : s'.queue.task t = some entry')
    (hphase : entry'.payload.phase = .refreshing r p none)
    (hdocs : s'.mem.docs entry.key = some r) (hunchanged : (s'.mem.heap r).unchanged = true)
    (hrow : s'.row entry.key = some row) : invisible (s'.mem.heap r).doc ≤ row := by
  obtain ⟨mem, hflushed, hmem⟩ := flushed_of_flushes h he ht ht' (by rw [hphase]; rfl)
  have hvisible : SkipsVisible lex s e := by
    rcases he with rfl | ⟨clientId, rfl⟩ <;> exact hG
  rw [row_of_start h he] at hrow
  rw [hmem.doc]
  exact hvisible (entry.key, mem) hflushed r (hmem.docs ▸ hdocs) (hmem.unchanged r ▸ hunchanged)
    row hrow

private theorem DurableStep.keepsRows (hG : DurableStep lex s e s') (n : NodeId) :
    e ≠ .deleteNode n := by
  rintro rfl
  exact hG

/-! ### The invariant of the runs that meet the condition -/

/-- The row holds the newest of the committed snapshots. -/
def RowLatest (s : State) : Prop :=
  ∀ {i c}, s.saves i = some c → c.phase.committed = true →
    ∃ j d, s.saves j = some d ∧ d.nodeId = c.nodeId ∧ d.phase.committed = true ∧ i ≤ j ∧
      s.row c.nodeId = some d.state

/-- While a flush of an object is carried out, no save of its node is made of a
later object. -/
def FlushedLast (s : State) : Prop :=
  ∀ {t entry r i c}, s.queue.task t = some entry → entry.payload.phase.flushed = some r →
    s.saves i = some c → c.nodeId = entry.key → c.ref ≤ r

/-- `state` is contained in a committed snapshot of the object at `r`. -/
def Committed (s : State) (n : NodeId) (r : DocRef) (state : YDoc) : Prop :=
  ∃ i c, s.saves i = some c ∧ c.nodeId = n ∧ c.ref = r ∧ c.phase.committed = true ∧
    state ≤ c.state

/-- What a flush has captured is committed, once it no longer awaits its save. -/
def FlushedCommitted (s : State) : Prop :=
  ∀ {t entry r}, s.queue.task t = some entry → entry.payload.phase.flushed = some r →
    (∀ r' save sv redis failure, entry.payload.phase ≠ .saving r' save sv redis failure) →
    ∃ state, entry.payload.captured = some state ∧ Committed s entry.key r state

theorem Committed.of_step (h : step lex s e = some s') (hI : Inv s) {n : NodeId} {r : DocRef}
    {state : YDoc} (hc : Committed s n r state) : Committed s' n r state := by
  obtain ⟨i, c, hi, hnode, href, hcommitted, hle⟩ := hc
  obtain ⟨phase, hi', hcommitted'⟩ := save_keeps_of_step h hi (hI.save_lt hi)
  exact ⟨i, _, hi', hnode, href, hcommitted' hcommitted, hle⟩

/-- What a task that awaits a save has captured is committed when the save has
resolved. -/
private theorem committed_of_saving (hI : Inv s) {t : TaskId} {entry : ChainTask NodeId Task}
    {r : DocRef} {save : SaveId} {sv : StateVector} {redis : Option Bool}
    {failure : Option Failure} {p : Persisted} (ht : s.queue.task t = some entry)
    (hphase : entry.payload.phase = .saving r save sv redis failure)
    (hsave : (s.saves save).map SaveCall.phase = some (.resolved p)) :
    ∃ state, entry.payload.captured = some state ∧ Committed s entry.key r state := by
  obtain ⟨c, hc, -, href, hnode, -, hcaptured⟩ := hI.saving ht hphase
  have hcommitted : c.phase.committed = true := by
    rw [hc] at hsave
    rw [Option.some.inj hsave]
    rfl
  exact ⟨c.state, hcaptured, save, c, hc, hnode, href, hcommitted, le_rfl⟩

private theorem rowLatest_step (hI : Inv s) (hL : RowLatest s) (h : step lex s e = some s')
    (hG : DurableStep lex s e s') : RowLatest s' := by
  intro i c' hc' hcommitted'
  -- a save that was committed before, and the row is what it was
  have hkeep : ∀ c, s.saves i = some c → c.phase.committed = true → c.nodeId = c'.nodeId →
      s'.row c'.nodeId = s.row c'.nodeId →
      ∃ j d, s'.saves j = some d ∧ d.nodeId = c'.nodeId ∧ d.phase.committed = true ∧ i ≤ j ∧
        s'.row c'.nodeId = some d.state := by
    intro c hc hcommitted hnode hrow
    obtain ⟨j, d, hd, hdnode, hdcommitted, hij, hstate⟩ := hL hc hcommitted
    obtain ⟨phase, hd', hdcommitted'⟩ := save_keeps_of_step h hd (hI.save_lt hd)
    refine ⟨j, _, hd', hdnode.trans hnode, hdcommitted' hdcommitted, hij, ?_⟩
    rw [hrow, ← hnode]
    exact hstate
  cases step_saves h with
  | same hsaves _ hrow =>
      rw [hsaves] at hc'
      refine hkeep c' hc' hcommitted' rfl ?_
      rcases hrow c'.nodeId with hrow | ⟨he, -⟩
      · exact hrow
      · exact absurd he (hG.keepsRows _)
  | call c₀ hcall =>
      rw [hcall.saves] at hc'
      by_cases hi : i = s.nextSave
      · subst hi
        rw [Function.update_self] at hc'
        cases hc'
        rw [hcall.phase] at hcommitted'
        cases hcommitted'
      · rw [Function.update_of_ne hi] at hc'
        exact hkeep c' hc' hcommitted' rfl (hcall.row _)
  | commit save c₀ reply now phase he hexecuted hsave hphase hcommitted hsaves _ hrow =>
      have hnew : s'.saves save = some { c₀ with phase := phase } := by
        rw [hsaves, Function.update_self]
      by_cases hnode : c'.nodeId = c₀.nodeId
      · refine ⟨save, _, hnew, hnode.symm, hcommitted, ?_, by rw [hrow, if_pos hnode]⟩
        by_cases hi : i = save
        · exact hi.le
        · rw [hsaves, Function.update_of_ne hi] at hc'
          subst he
          exact hG hexecuted c₀ hsave i (hI.save_lt hc') c' hc' hnode hcommitted'
      · have hi : i ≠ save := by
          rintro rfl
          rw [hnew] at hc'
          cases hc'
          exact hnode rfl
        rw [hsaves, Function.update_of_ne hi] at hc'
        exact hkeep c' hc' hcommitted' rfl (by rw [hrow, if_neg hnode])
  | move save c₀ phase hsave _ _ hcommitted hsaves _ hrow =>
      by_cases hi : i = save
      · subst hi
        rw [hsaves, Function.update_self] at hc'
        cases hc'
        exact hkeep c₀ hsave (hcommitted ▸ hcommitted') rfl (hrow _)
      · rw [hsaves, Function.update_of_ne hi] at hc'
        exact hkeep c' hc' hcommitted' rfl (hrow _)
  | restart _ hsaves _ hrow =>
      rw [hsaves] at hc'
      obtain ⟨c, hc, hsame⟩ := Option.map_eq_some_iff.mp hc'
      split at hsame <;> subst hsame
      · exact hkeep c hc hcommitted' rfl (hrow _)
      · exact hkeep c hc hcommitted' rfl (hrow _)

/-- A task that carries out a flush did so before, or has just captured the
document that `docs` holds. -/
theorem flushed_of_step (h : step lex s e = some s') {t : TaskId}
    {entry' : ChainTask NodeId Task} {r : DocRef} (ht : s'.queue.task t = some entry')
    (hr : entry'.payload.phase.flushed = some r) :
    (∃ entry, s.queue.task t = some entry ∧ entry'.key = entry.key ∧
      entry.payload.phase.flushed = some r) ∨ s'.mem.docs entry'.key = some r := by
  rcases (step_queue h).task ht with ⟨entry, hentry, hkey, hstep⟩ | ⟨-, kind, hpay⟩
  · rcases hstep.flushes hr with ⟨hflushed, -⟩ | ⟨-, -, hdocs, -⟩
    · exact Or.inl ⟨entry, hentry, hkey, hflushed⟩
    · exact Or.inr (hkey ▸ hdocs)
  · rw [hpay] at hr
    cases hr

theorem flushedLast_step (hI' : Inv s') (hF : FlushedLast s)
    (h : step lex s e = some s') : FlushedLast s' := by
  intro t entry' r i c' ht hr hc' hnode
  rcases flushed_of_step h ht hr with ⟨entry, hentry, hkey, hflushed⟩ | hdocs
  · rcases save_of_step h hc' with ⟨c, hc, hsame, -⟩ | ⟨rfl, hcall⟩
    · rw [hsame] at hnode ⊢
      exact hF (c := c) hentry hflushed hc (hnode.trans hkey)
    · -- a save made meanwhile is made by the running task itself
      obtain ⟨entry₀, hentry₀, hkey₀, hphase₀, -⟩ := hcall.task
      have hrun : entry'.payload.stage = .running := Phase.stage_of_flushed hr
      have hrun₀ : entry₀.payload.stage = .running := by simp [Task.stage, hphase₀, Phase.stage]
      have heq := s'.queue.running_unique hentry₀ hrun₀ ht hrun (hnode.symm.trans hkey₀.symm)
      rw [heq, ht] at hentry₀
      cases hentry₀
      rw [hphase₀] at hr
      exact (Option.some.inj hr).le
  · exact hI'.ref_le hdocs hc' hnode

/-- A skipped flush has nothing to add to the row. -/
private theorem committed_of_skip (hI' : Inv s') (hL' : RowLatest s') {n : NodeId} {r : DocRef}
    (hdocs : s'.mem.docs n = some r) (hunchanged : (s'.mem.heap r).unchanged = true)
    (hvisible : ∀ {row}, s'.row n = some row → invisible (s'.mem.heap r).doc ≤ row) :
    ∃ row, s'.row n = some row ∧ (s'.mem.heap r).doc ≤ row ∧
      Committed s' n r (s'.mem.heap r).doc := by
  have hsv : (s'.mem.heap r).lastSavedStateVector =
      some (encodeStateVector (s'.mem.heap r).doc) := by
    simp only [ManagedDoc.unchanged, Bool.and_eq_true, beq_iff_eq] at hunchanged
    exact hunchanged.2
  obtain ⟨i, c, hc, href, hcommitted, hstate⟩ := hI'.recorded (hI'.docs_lt hdocs) hsv
  have hnode := hI'.ref_node hdocs hc href
  obtain ⟨j, d, hd, hdnode, hdcommitted, hij, hrow⟩ := hL' hc hcommitted
  rw [hnode] at hdnode hrow
  -- the row holds a snapshot of the same object, taken no earlier
  obtain ⟨hrefs, hstates⟩ := hI'.order hc hd (hnode.trans hdnode.symm) hij
  have hdref : d.ref = r :=
    le_antisymm (hI'.ref_le hdocs hd hdnode) (href ▸ hrefs)
  have hle : (s'.mem.heap r).doc ≤ d.state :=
    le_of_encodeStateVector_eq hstate.symm (hstates (href.trans hdref.symm)) (hvisible hrow)
  exact ⟨d.state, hrow, hle, j, d, hd, hdnode, hdref, hdcommitted, hle⟩

private theorem flushedCommitted_step (hI : Inv s) (hI' : Inv s') (hL' : RowLatest s')
    (hC : FlushedCommitted s) (h : step lex s e = some s') (hG : DurableStep lex s e s') :
    FlushedCommitted s' := by
  intro t entry' r ht hr hsaving
  rcases (step_queue h).task ht with ⟨entry, hentry, hkey, hstep⟩ | ⟨-, kind, hpay⟩
  · rcases hstep.flushes hr with ⟨hflushed, hcaptured, -⟩ |
      ⟨he, -, hdocs, hcaptured, ⟨p, hphase', hunchanged⟩ | ⟨c, -, -, -, -, -, hphase'⟩⟩
    · -- the flush goes on: its save has resolved by now, if it awaited one
      have hbefore : ∃ state, entry.payload.captured = some state ∧
          Committed s entry.key r state := by
        by_cases hawaits : ∃ r' save sv redis failure,
            entry.payload.phase = .saving r' save sv redis failure
        · obtain ⟨r', save, sv, redis, failure, hphase⟩ := hawaits
          obtain rfl : r' = r := by
            rw [hphase] at hflushed
            exact Option.some.inj hflushed
          rcases hstep.of_saving hphase with
            hsettled | ⟨redis', failure', hphase'⟩ | ⟨p, job, -, hsave⟩
          · rw [Task.stage, Phase.stage_of_flushed hr] at hsettled
            cases hsettled
          · exact absurd hphase' (hsaving _ _ _ _ _)
          · exact committed_of_saving hI hentry hphase hsave
        · exact hC hentry hflushed fun r' save sv redis failure hphase =>
            hawaits ⟨r', save, sv, redis, failure, hphase⟩
      obtain ⟨state, hstate, hcommitted⟩ := hbefore
      exact ⟨state, hcaptured.trans hstate, hkey ▸ hcommitted.of_step h hI⟩
    · obtain ⟨row, -, -, hcommitted⟩ := committed_of_skip hI' hL' hdocs hunchanged
        fun hrow => hG.invisible_le h he hentry ht hphase' hdocs hunchanged hrow
      exact ⟨_, hcaptured, hkey ▸ hcommitted⟩
    · exact absurd hphase' (hsaving _ _ _ _ _)
  · rw [hpay] at hr
    cases hr

/-- What is committed of an object whose flush is under way is in the row. -/
private theorem le_row_of_committed (hI : Inv s) (hI' : Inv s') (hL' : RowLatest s')
    (hF : FlushedLast s) (h : step lex s e = some s') {t : TaskId}
    {entry : ChainTask NodeId Task} {r : DocRef} {state : YDoc}
    (hentry : s.queue.task t = some entry) (hr : entry.payload.phase.flushed = some r)
    (hc : Committed s entry.key r state) :
    ∃ row, s'.row entry.key = some row ∧ state ≤ row := by
  obtain ⟨i, c, hi, hnode, href, hcommitted, hle⟩ := hc.of_step h hI
  obtain ⟨j, d, hd, hdnode, hdcommitted, hij, hrow⟩ := hL' hi hcommitted
  rw [hnode] at hdnode hrow
  obtain ⟨hrefs, hstates⟩ := hI'.order hi hd (hnode.trans hdnode.symm) hij
  have hdref : d.ref ≤ r := by
    rcases save_of_step h hd with ⟨d₀, hd₀, hsame, -⟩ | ⟨-, hcall⟩
    · rw [hsame] at hdnode ⊢
      exact hF (c := d₀) hentry hr hd₀ hdnode
    · rw [hcall.phase] at hdcommitted
      cases hdcommitted
  have heq : c.ref = d.ref := le_antisymm hrefs (href ▸ hdref)
  exact ⟨d.state, hrow, hle.trans (hstates heq)⟩

private theorem durable_step (hI : Inv s) (hI' : Inv s') (hL' : RowLatest s')
    (hF : FlushedLast s) (hC : FlushedCommitted s) (h : step lex s e = some s')
    (hG : DurableStep lex s e s') : Durable s s' where
  resolves := by
    rintro t n captured ⟨entry, entry', p, hentry, rfl, hstage, hentry', hphase', rfl⟩
    obtain ⟨entry₁, hentry₁, hkey, hstep⟩ := step_task h hentry
    rw [hentry'] at hentry₁
    cases hentry₁
    obtain ⟨hcaptured, r, hr, hresolved⟩ := hstep.resolved hstage hphase'
    have hcommitted : ∃ state, entry.payload.captured = some state ∧
        Committed s entry.key r state := by
      by_cases hawaits : ∃ r' save sv redis failure,
          entry.payload.phase = .saving r' save sv redis failure
      · obtain ⟨r', save, sv, redis, failure, hphase⟩ := hawaits
        obtain rfl : r' = r := by
          rw [hphase] at hr
          exact Option.some.inj hr
        exact committed_of_saving hI hentry hphase (hresolved hphase)
      · exact hC hentry hr fun r' save sv redis failure hphase =>
          hawaits ⟨r', save, sv, redis, failure, hphase⟩
    obtain ⟨state, hstate, hcommitted⟩ := hcommitted
    obtain ⟨row, hrow, hle⟩ := le_row_of_committed hI hI' hL' hF h hentry hr hcommitted
    exact ⟨state, row, hcaptured.trans hstate, hrow, hle⟩
  skips := by
    rintro t n r ⟨entry, entry', p, hentry, rfl, hnone, hentry', hphase'⟩
    obtain ⟨entry₁, hentry₁, hkey, hstep⟩ := step_task h hentry
    rw [hentry'] at hentry₁
    cases hentry₁
    rcases hstep.flushes (r := r) (by rw [hphase']; rfl) with ⟨hflushed, -⟩ |
      ⟨he, -, hdocs, -, ⟨p', -, hunchanged⟩ | ⟨c, -, -, -, -, -, hsave⟩⟩
    · rw [hnone] at hflushed
      cases hflushed
    · obtain ⟨row, hrow, hle, -⟩ := committed_of_skip hI' hL' hdocs hunchanged
        fun hrow => hG.invisible_le h he hentry hentry' hphase' hdocs hunchanged hrow
      exact ⟨row, hrow, hle⟩
    · rw [hphase'] at hsave
      cases hsave

/-- **A flush that resolves is durable**, in every run whose steps meet the
condition: no flush is skipped over invisible changes that the row lacks, no
older save commits after a newer one, and no row is deleted. -/
theorem durable (lex : Lexical) (nodes : NodeId → Option NodeRow) (es : List Event)
    (h : Along (step lex) (DurableStep lex) (State.init nodes) es) :
    Along (step lex) (fun s _ s' => Durable s s') (State.init nodes) es := by
  refine along_of_invariant
    (I := fun s => Inv s ∧ RowLatest s ∧ FlushedLast s ∧ FlushedCommitted s) ?_ ?_ h
  · rintro s e s' hstep ⟨hI, hL, hF, hC⟩ hG
    have hI' := hI.step hstep
    have hL' : RowLatest s' := rowLatest_step hI hL hstep hG
    exact ⟨⟨hI', hL', flushedLast_step hI' hF hstep,
      flushedCommitted_step hI hI' hL' hC hstep hG⟩, durable_step hI hI' hL' hF hC hstep hG⟩
  · refine ⟨inv_init nodes, ?_, ?_, ?_⟩
    · intro i c hc
      cases hc
    · intro t entry r i c ht
      cases ht
    · intro t entry r ht
      cases ht

/-- An edit is saved, and a second one; both flushes resolve. -/
def savedRun : List Event :=
  openNode ++ editAndFlush ⟨{(3, 0)}, ∅⟩ 0 0 ++ flushSaved 0 0 ++
    editAndFlush ⟨{(3, 1)}, {(3, 0)}⟩ 1 1 ++ flushSaved 1 1

theorem savedRun_durable :
    (exec (step .plain) (State.init oneNode) savedRun).isSome = true ∧
      Along (step .plain) (fun s _ s' => Durable s s') (State.init oneNode) savedRun :=
  ⟨by decide +kernel, durable .plain oneNode savedRun (by decide +kernel)⟩

/-- An insertion is saved; then its deletion is flushed, and the flush is
skipped. -/
def skippedRun : List Event :=
  openNode ++ editAndFlush ⟨{(3, 0)}, ∅⟩ 0 0 ++ flushSaved 0 0 ++
    editAndFlush ⟨∅, {(3, 0)}⟩ 1 1 ++ [.redisReply .ok]

theorem skippedRun_not_durable :
    ¬ Along (step .plain) (fun s _ s' => Durable s s') (State.init oneNode)
      (skippedRun ++ [.continueFlush 1]) := by
  intro h
  have hrun : (exec (step .plain) (State.init oneNode) skippedRun).any (fun s =>
      (step .plain s (.continueFlush 1)).any fun s' =>
        ((s.queue.task 1).any fun entry => entry.key = 1 ∧ entry.payload.stage = .running) &&
        ((s'.queue.task 1).any fun entry =>
          entry.payload.captured = some ⟨{(3, 0)}, {(3, 0)}⟩ ∧
            entry.payload.phase.resolved = true) &&
        s'.row 1 = some ⟨{(3, 0)}, ∅⟩) = true := by
    decide +kernel
  obtain ⟨s, hs, hrun⟩ := (Option.any_eq_true _ _).mp hrun
  obtain ⟨s', hs', hrun⟩ := (Option.any_eq_true _ _).mp hrun
  rw [Bool.and_eq_true, Bool.and_eq_true, decide_eq_true_eq] at hrun
  obtain ⟨⟨hbefore, hafter⟩, hrow⟩ := hrun
  obtain ⟨entry, hentry, hrunning⟩ := (Option.any_eq_true _ _).mp hbefore
  obtain ⟨entry', hentry', hsettled⟩ := (Option.any_eq_true _ _).mp hafter
  rw [decide_eq_true_eq] at hrunning hsettled
  obtain ⟨hkey, hrunning⟩ := hrunning
  obtain ⟨hcaptured, hphase⟩ := hsettled
  have hresolves : Resolves s s' 1 1 (some ⟨{(3, 0)}, {(3, 0)}⟩) := by
    obtain ⟨persisted, hok⟩ := Phase.exists_of_resolved hphase
    exact ⟨entry, entry', persisted, hentry, hkey, by rw [hrunning]; decide, hentry', hok,
      hcaptured⟩
  have hdurable : Durable s s' := h.at_step hs hs'
  obtain ⟨state, row, hstate, hrow', hle⟩ := hdurable.resolves hresolves
  rw [hrow] at hrow'
  cases hstate
  cases hrow'
  -- the row lacks the deletion
  exact absurd hle (by decide)

end AideepWebsocket.DocManager
