import AideepWebsocket.DocManager.Steps

/-!
# The invariant of YjsDocManager

What holds in every reachable state, whatever the order of calls, timers and
replies, and whatever fails.  The invariant `Inv` relates three things:

* the objects in memory and the saves made of them: a save is a snapshot of its
  object, which has only grown since (`state_le`); the saves of a node follow
  the objects of the node, and within one object they grow (`order`);
* the tasks and the saves they await (`saving`, `awaited`);
* the record in an object and the row: what `lastSavedStateVector` records has
  been committed (`recorded`).

The invariant says nothing yet about the *row*: which of the committed saves it
holds depends on the run.
-/

namespace AideepWebsocket.DocManager

open Library

variable {lex : Lexical} {s s' : State} {e : Event}

/-! ### One step, seen from a document, an entry of `docs`, a save -/

/-- Names of documents are not given twice. -/
theorem nextRef_le_of_step (h : step lex s e = some s') : s.mem.nextRef ≤ s'.mem.nextRef := by
  cases step_mem h with
  | same hmem => exact hmem.nextRef.ge
  | edit r u _ hmem => exact hmem.nextRef.ge
  | put l x doc ws _ _ _ hmem =>
      rw [hmem]
      exact Nat.le_succ _
  | remove hmem => exact hmem.nextRef.ge
  | saved t entry r save sv p _ _ _ hmem => exact hmem.nextRef.ge

/-- Names of saves are not given twice. -/
theorem nextSave_le_of_step (h : step lex s e = some s') : s.nextSave ≤ s'.nextSave := by
  cases step_saves h with
  | same _ hnext => exact hnext.ge
  | call c hcall => exact hcall.nextSave ▸ Nat.le_succ _
  | commit save c reply now phase _ _ _ _ _ _ hnext => exact hnext.ge
  | move save c phase _ _ _ _ _ hnext => exact hnext.ge
  | restart _ _ hnext => exact hnext.ge

/-- A document only grows. -/
theorem doc_le_of_step (h : step lex s e = some s') {r : DocRef} (hr : r < s.mem.nextRef) :
    (s.mem.heap r).doc ≤ (s'.mem.heap r).doc := by
  cases step_mem h with
  | same hmem => exact (hmem.doc r).ge
  | edit r' u _ hmem => exact hmem.le_doc r
  | put l x doc ws _ _ _ hmem =>
      have hput : (s'.mem.heap r) = s.mem.heap r := by
        rw [hmem]
        exact Function.update_of_ne hr.ne ..
      rw [hput]
  | remove hmem => rw [hmem.heap]
  | saved t entry r' save sv p _ _ _ hmem => exact (hmem.doc r).ge

/-- An entry of `docs` was there before, or is the new object of a load. -/
theorem docs_of_step (h : step lex s e = some s') {n : NodeId} {r : DocRef}
    (hr : s'.mem.docs n = some r) :
    s.mem.docs n = some r ∨
      r = s.mem.nextRef ∧ s'.mem.nextRef = s.mem.nextRef + 1 ∧
        (∀ m, m ≠ n → s'.mem.docs m = s.mem.docs m) := by
  cases step_mem h with
  | same hmem =>
      rw [hmem.docs] at hr
      exact Or.inl hr
  | edit r' u _ hmem =>
      rw [hmem.docs] at hr
      exact Or.inl hr
  | put l x doc ws _ _ _ hmem =>
      rw [hmem] at hr ⊢
      by_cases hn : n = x.nodeId
      · subst hn
        have hself : (s.mem.put x.nodeId (ManagedDoc.loaded doc ws)).docs x.nodeId =
            some s.mem.nextRef := Function.update_self ..
        rw [hself] at hr
        cases hr
        exact Or.inr ⟨rfl, rfl, fun m hm => Function.update_of_ne hm ..⟩
      · have hother : (s.mem.put x.nodeId (ManagedDoc.loaded doc ws)).docs n = s.mem.docs n :=
          Function.update_of_ne hn ..
        rw [hother] at hr
        exact Or.inl hr
  | remove hmem =>
      rcases hmem.docs n with hn | hn <;> rw [hn] at hr
      · exact Or.inl hr
      · cases hr
  | saved t entry r' save sv p _ _ _ hmem =>
      rw [hmem.docs] at hr
      exact Or.inl hr

/-- A call of the state after was there before, with the same snapshot, or is
the call just made. -/
theorem save_of_step (h : step lex s e = some s') {i : SaveId} {c' : SaveCall}
    (hc : s'.saves i = some c') :
    (∃ c, s.saves i = some c ∧ c' = { c with phase := c'.phase } ∧
      (c.phase.committed = true → c'.phase.committed = true) ∧
      (c'.phase.pending = true → c.phase.pending = true)) ∨
    (i = s.nextSave ∧ SaveCalled s e s' c') := by
  have hupdate : ∀ (j : SaveId) (c : SaveCall) (phase : SavePhase), s.saves j = some c →
      (c.phase.committed = true → phase.committed = true) →
      (phase.pending = true → c.phase.pending = true) →
      s'.saves = Function.update s.saves j (some { c with phase := phase }) →
      ∃ c, s.saves i = some c ∧ c' = { c with phase := c'.phase } ∧
        (c.phase.committed = true → c'.phase.committed = true) ∧
        (c'.phase.pending = true → c.phase.pending = true) := by
    intro j c phase hj hcommitted hpending hsaves
    rw [hsaves] at hc
    by_cases hij : i = j
    · subst hij
      rw [Function.update_self] at hc
      cases hc
      exact ⟨c, hj, rfl, hcommitted, hpending⟩
    · rw [Function.update_of_ne hij] at hc
      exact ⟨c', hc, rfl, id, id⟩
  cases step_saves h with
  | same hsaves _ _ =>
      rw [hsaves] at hc
      exact Or.inl ⟨c', hc, rfl, id, id⟩
  | call c hcall =>
      rw [hcall.saves] at hc
      by_cases hi : i = s.nextSave
      · subst hi
        rw [Function.update_self] at hc
        cases hc
        exact Or.inr ⟨rfl, hcall⟩
      · rw [Function.update_of_ne hi] at hc
        exact Or.inl ⟨c', hc, rfl, id, id⟩
  | commit save c reply now phase _ _ hsave hphase hcommitted hsaves =>
      exact Or.inl (hupdate save c phase hsave (fun _ => hcommitted)
        (fun _ => by rw [hphase]; rfl) hsaves)
  | move save c phase hsave hpending _ hcommitted hsaves =>
      exact Or.inl (hupdate save c phase hsave (fun hc => hcommitted.trans hc)
        (fun _ => hpending) hsaves)
  | restart _ hsaves =>
      rw [hsaves] at hc
      obtain ⟨c, hc₀, hc'⟩ := Option.map_eq_some_iff.mp hc
      refine Or.inl ⟨c, hc₀, ?_⟩
      split at hc' <;> subst hc'
      · exact ⟨rfl, id, by simp [SavePhase.pending]⟩
      · exact ⟨rfl, id, id⟩

/-- A call is never forgotten, its snapshot never changes, and once committed it
stays so. -/
theorem save_keeps_of_step (h : step lex s e = some s') {i : SaveId} {c : SaveCall}
    (hc : s.saves i = some c) (hi : i < s.nextSave) :
    ∃ phase, s'.saves i = some { c with phase := phase } ∧
      (c.phase.committed = true → phase.committed = true) := by
  have hupdate : ∀ (j : SaveId) (c₀ : SaveCall) (phase : SavePhase), s.saves j = some c₀ →
      (c₀.phase.committed = true → phase.committed = true) →
      s'.saves = Function.update s.saves j (some { c₀ with phase := phase }) →
      ∃ phase, s'.saves i = some { c with phase := phase } ∧
        (c.phase.committed = true → phase.committed = true) := by
    intro j c₀ phase hj hcommitted hsaves
    rw [hsaves]
    by_cases hij : i = j
    · subst hij
      rw [hc] at hj
      cases hj
      exact ⟨phase, Function.update_self .., hcommitted⟩
    · exact ⟨c.phase, by rw [Function.update_of_ne hij, hc], id⟩
  cases step_saves h with
  | same hsaves _ _ => exact ⟨c.phase, by rw [hsaves, hc], id⟩
  | call c' hcall =>
      exact ⟨c.phase, by rw [hcall.saves, Function.update_of_ne hi.ne, hc], id⟩
  | commit save c₀ reply now phase _ _ hsave _ hcommitted hsaves =>
      exact hupdate save c₀ phase hsave (fun _ => hcommitted) hsaves
  | move save c₀ phase hsave _ _ hcommitted hsaves =>
      exact hupdate save c₀ phase hsave (fun hc => hcommitted.trans hc) hsaves
  | restart _ hsaves =>
      rw [hsaves, hc]
      dsimp only [Option.map_some]
      split
      · exact ⟨_, rfl, id⟩
      · exact ⟨c.phase, rfl, id⟩

/-- A transaction that is under way was under way before, or belongs to the call
just made. -/
theorem transaction_of_step (h : step lex s e = some s') {i : SaveId} {c : SaveCall}
    (hc : s'.saves i = some c) (hphase : c.phase = .updateNodeRow) :
    s.saves i = some c ∨ i = s.nextSave ∧ SaveCalled s e s' c := by
  have hupdate : ∀ (j : SaveId) (c₀ : SaveCall) (phase : SavePhase), phase ≠ .updateNodeRow →
      s'.saves = Function.update s.saves j (some { c₀ with phase := phase }) →
      s.saves i = some c := by
    intro j c₀ phase hne hsaves
    rw [hsaves] at hc
    by_cases hij : i = j
    · subst hij
      rw [Function.update_self] at hc
      cases hc
      exact absurd hphase hne
    · rwa [Function.update_of_ne hij] at hc
  cases step_saves h with
  | same hsaves _ _ => exact Or.inl (hsaves ▸ hc)
  | call c₀ hcall =>
      have hsaves := hcall.saves
      by_cases hi : i = s.nextSave
      · subst hi
        rw [hsaves, Function.update_self] at hc
        cases hc
        exact Or.inr ⟨rfl, hcall⟩
      · rw [hsaves, Function.update_of_ne hi] at hc
        exact Or.inl hc
  | commit save c₀ reply now phase _ _ _ _ hcommitted hsaves =>
      exact Or.inl (hupdate save c₀ phase (by rintro rfl; cases hcommitted) hsaves)
  | move save c₀ phase _ _ hne _ hsaves => exact Or.inl (hupdate save c₀ phase hne hsaves)
  | restart _ hsaves =>
      rw [hsaves] at hc
      obtain ⟨c₀, hc₀, hc'⟩ := Option.map_eq_some_iff.mp hc
      split at hc' <;> subst hc'
      · cases hphase
      · exact Or.inl hc₀

/-- The row holds what it held before, or the snapshot of the save that has just
committed. -/
theorem row_of_step (h : step lex s e = some s') {n : NodeId} {row : YDoc}
    (hrow : s'.row n = some row) :
    s.row n = some row ∨ ∃ i c phase, s.saves i = some c ∧ c.phase = .updateNodeRow ∧
      c.nodeId = n ∧ row = c.state ∧ phase.committed = true ∧
      s'.saves i = some { c with phase := phase } := by
  cases step_saves h with
  | same _ _ hrows =>
      rcases hrows n with hn | ⟨-, hn⟩ <;> rw [hn] at hrow
      · exact Or.inl hrow
      · cases hrow
  | call c hcall => exact Or.inl (hcall.row n ▸ hrow)
  | commit save c reply now phase _ _ hsave hphase hcommitted hsaves _ hrows =>
      rw [hrows] at hrow
      split at hrow
      · next hn =>
          exact Or.inr ⟨save, c, phase, hsave, hphase, hn.symm, (Option.some.inj hrow).symm,
            hcommitted, by rw [hsaves, Function.update_self]⟩
      · exact Or.inl hrow
  | move save c phase _ _ _ _ _ _ hrows => exact Or.inl (hrows n ▸ hrow)
  | restart _ _ _ hrows => exact Or.inl (hrows n ▸ hrow)

/-- The workspace of a node is written by other writers only. -/
theorem workspace_of_step (h : step lex s e = some s') {n : NodeId} {row : NodeRow}
    (hrow : s'.nodes n = some row) :
    (∃ row₀, s.nodes n = some row₀ ∧ row₀.workspaceId = row.workspaceId) ∨
      e = .writeNode n row := by
  have hsame : s'.nodes = s.nodes → ∃ row₀, s.nodes n = some row₀ ∧
      row₀.workspaceId = row.workspaceId := fun hnodes => ⟨row, hnodes ▸ hrow, rfl⟩
  cases step_cases h with
  | schedule _ hsub => exact Or.inl (hsame hsub.nodes)
  | submitAppend _ _ _ _ _ hs' => exact Or.inl (hsame (by rw [hs']; rfl))
  | get _ _ _ _ hwork => exact Or.inl (hsame hwork.nodes)
  | resumeGet _ _ _ _ _ _ hwork => exact Or.inl (hsame hwork.nodes)
  | loadMoved _ _ _ _ _ _ hwork => exact Or.inl (hsame hwork.nodes)
  | put _ _ _ _ _ _ _ _ hwork => exact Or.inl (hsame hwork.nodes)
  | edit _ _ _ _ _ _ hwork => exact Or.inl (hsame hwork.nodes)
  | remove _ hwork => exact Or.inl (hsame hwork.nodes)
  | startFlush _ _ _ _ _ _ _ _ hflush => exact Or.inl (hsame hflush.stores.1)
  | startAppend _ _ _ _ _ _ _ _ _ _ hwork => exact Or.inl (hsame hwork.nodes)
  | appendFailed _ _ _ _ _ _ _ _ _ _ _ _ _ _ hwork => exact Or.inl (hsame hwork.nodes)
  | appended _ _ _ _ _ _ _ _ _ _ s₁ _ _ _ _ _ _ _ hwork _ _ _ hflush =>
      refine Or.inl (hsame ?_)
      rcases hflush with ⟨-, rfl⟩ | ⟨-, hflush⟩
      · exact hwork.nodes
      · exact hflush.stores.1.trans hwork.nodes
  | continueFlush _ _ _ _ _ _ hs' => exact Or.inl (hsame (by rw [hs']; rfl))
  | embedded _ _ _ _ _ _ _ _ hwork => exact Or.inl (hsame hwork.nodes)
  | returned _ _ _ _ _ _ _ _ hwork _ hsub => exact Or.inl (hsame (hsub.nodes.trans hwork.nodes))
  | redisSet _ _ _ _ _ _ _ hs' => exact Or.inl (hsame (by rw [hs']; simp))
  | uncached _ _ _ _ hwork => exact Or.inl (hsame hwork.nodes)
  | commit save c _ now row₀ _ _ _ _ hrow₀ hs' =>
      -- the row that is written keeps its workspace
      have hnodes : s'.nodes = Function.update s.nodes c.nodeId
          (some (State.writtenRow row₀ c now)) := by
        rcases hs' with rfl | rfl <;> simp
      rw [hnodes] at hrow
      by_cases hn : n = c.nodeId
      · subst hn
        rw [Function.update_self] at hrow
        cases hrow
        exact Or.inl ⟨row₀, hrow₀, rfl⟩
      · rw [Function.update_of_ne hn] at hrow
        exact Or.inl ⟨row, hrow, rfl⟩
  | saveMoved _ _ _ hcase =>
      refine Or.inl (hsame ?_)
      rcases hcase with ⟨-, failure, rfl⟩ | ⟨persisted, -, rfl | rfl⟩ <;> simp
  | otherWriter _ _ _ hwriter =>
      rcases hwriter hrow with hrow | he
      · exact Or.inl ⟨row, hrow, rfl⟩
      · exact Or.inr he
  | restart _ hs' => exact Or.inl (hsame (by rw [hs']; rfl))

/-- What an object records as saved changes only when a flush of it ends; a new
object records nothing. -/
theorem record_of_step (h : step lex s e = some s') {r : DocRef} (hr : r < s'.mem.nextRef)
    {sv : StateVector} (hsv : (s'.mem.heap r).lastSavedStateVector = some sv) :
    (r < s.mem.nextRef ∧ (s.mem.heap r).lastSavedStateVector = some sv) ∨
    ∃ t entry save persisted, s.queue.task t = some entry ∧
      entry.payload.phase = .saving r save sv (some true) none ∧
      (s.saves save).map SaveCall.phase = some (.resolved persisted) := by
  cases step_mem h with
  | same hmem =>
      rw [hmem.lastSavedStateVector] at hsv
      exact Or.inl ⟨hmem.nextRef ▸ hr, hsv⟩
  | edit r' u _ hmem =>
      rw [hmem.lastSavedStateVector] at hsv
      exact Or.inl ⟨hmem.nextRef ▸ hr, hsv⟩
  | put l x doc ws _ _ _ hmem =>
      rw [hmem] at hr hsv
      have hr' : r < s.mem.nextRef + 1 := hr
      rcases Nat.lt_succ_iff_lt_or_eq.mp hr' with hlt | rfl
      · have hother : (s.mem.put x.nodeId (ManagedDoc.loaded doc ws)).heap r = s.mem.heap r :=
          Function.update_of_ne hlt.ne ..
        rw [hother] at hsv
        exact Or.inl ⟨hlt, hsv⟩
      · have hself : (s.mem.put x.nodeId (ManagedDoc.loaded doc ws)).heap s.mem.nextRef =
            ManagedDoc.loaded doc ws := Function.update_self ..
        rw [hself] at hsv
        cases hsv
  | remove hmem =>
      rw [hmem.heap] at hsv
      exact Or.inl ⟨hmem.nextRef ▸ hr, hsv⟩
  | saved t entry r' save sv' p htask hphase hsave hmem =>
      rw [hmem.lastSavedStateVector] at hsv
      by_cases hrr : r = r'
      · rw [if_pos hrr] at hsv
        cases hsv
        exact Or.inr ⟨t, entry, save, p, htask, hrr ▸ hphase, hsave⟩
      · rw [if_neg hrr] at hsv
        exact Or.inl ⟨hmem.nextRef ▸ hr, hsv⟩

/-- A task that awaits a save in the state after awaited it before, or its flush
has just made the call. -/
theorem saving_of_step (h : step lex s e = some s') {t : TaskId}
    {entry' : ChainTask NodeId Task} (ht : s'.queue.task t = some entry')
    {r : DocRef} {save : SaveId} {sv : StateVector} {redis : Option Bool}
    {failure : Option Failure} (hphase : entry'.payload.phase = .saving r save sv redis failure) :
    (∃ entry redis₀ failure₀, s.queue.task t = some entry ∧ entry'.key = entry.key ∧
      entry.payload.phase = .saving r save sv redis₀ failure₀ ∧
      entry'.payload.captured = entry.payload.captured) ∨
    ∃ c, s'.saves save = some c ∧ c.task = t ∧ c.ref = r ∧ c.nodeId = entry'.key ∧
      sv = encodeStateVector c.state ∧ entry'.payload.captured = some c.state := by
  rcases (step_queue h).task ht with ⟨entry, hentry, hkey, hstep⟩ | ⟨-, kind, hpay⟩
  · rcases hstep.flushes (r := r) (by rw [hphase]; rfl) with
      ⟨-, hcaptured, hbefore⟩ | ⟨-, -, -, hcaptured, ⟨p, hskip, -⟩ |
        ⟨c, hc, href, hnode, htask, hstate, hsave⟩⟩
    · obtain ⟨redis₀, failure₀, hphase₀⟩ := hbefore hphase
      exact Or.inl ⟨entry, redis₀, failure₀, hentry, hkey, hphase₀, hcaptured⟩
    · rw [hphase] at hskip
      cases hskip
    · rw [hphase] at hsave
      cases hsave
      exact Or.inr ⟨c, hc, htask, href, hnode.trans hkey.symm, rfl, hstate ▸ hcaptured⟩
  · rw [hpay] at hphase
    cases hphase

/-! ### The invariant -/

/-- **The invariant.** -/
structure Inv (s : State) : Prop where
  docs_lt : ∀ {n r}, s.mem.docs n = some r → r < s.mem.nextRef
  docs_inj : ∀ {n m r}, s.mem.docs n = some r → s.mem.docs m = some r → n = m
  save_lt : ∀ {i c}, s.saves i = some c → i < s.nextSave
  ref_lt : ∀ {i c}, s.saves i = some c → c.ref < s.mem.nextRef
  /-- The saves of the object that `docs` holds are saves of that node… -/
  ref_node : ∀ {n r i c}, s.mem.docs n = some r → s.saves i = some c → c.ref = r → c.nodeId = n
  /-- …and no save of the node was made of a later object. -/
  ref_le : ∀ {n r i c}, s.mem.docs n = some r → s.saves i = some c → c.nodeId = n → c.ref ≤ r
  state_le : ∀ {i c}, s.saves i = some c → c.state ≤ (s.mem.heap c.ref).doc
  /-- Later saves of a node are of later objects, or of later states of one. -/
  order : ∀ {i j c d}, s.saves i = some c → s.saves j = some d → c.nodeId = d.nodeId → i ≤ j →
    c.ref ≤ d.ref ∧ (c.ref = d.ref → c.state ≤ d.state)
  /-- What a task that awaits a save has captured. -/
  saving : ∀ {t entry r save sv redis failure}, s.queue.task t = some entry →
    entry.payload.phase = .saving r save sv redis failure →
    ∃ c, s.saves save = some c ∧ c.task = t ∧ c.ref = r ∧ c.nodeId = entry.key ∧
      sv = encodeStateVector c.state ∧ entry.payload.captured = some c.state
  /-- What an object records as saved has been committed. -/
  recorded : ∀ {r sv}, r < s.mem.nextRef →
    (s.mem.heap r).lastSavedStateVector = some sv →
    ∃ i c, s.saves i = some c ∧ c.ref = r ∧ c.phase.committed = true ∧
      encodeStateVector c.state = sv

/-- At the start nothing is managed. -/
theorem inv_init (nodes : NodeId → Option NodeRow) : Inv (State.init nodes) where
  docs_lt h := by cases h
  docs_inj h := by cases h
  save_lt h := by cases h
  ref_lt h := by cases h
  ref_node h := by cases h
  ref_le h := by cases h
  state_le h := by cases h
  order h := by cases h
  saving h := by cases h
  recorded h := by cases h

namespace Inv

/-- A document in the map has been made. -/
private theorem docs_lt_step (hI : Inv s) (h : step lex s e = some s') {n : NodeId} {r : DocRef}
    (hr : s'.mem.docs n = some r) : r < s'.mem.nextRef := by
  rcases docs_of_step h hr with hr | ⟨rfl, hnext, -⟩
  · exact (hI.docs_lt hr).trans_le (nextRef_le_of_step h)
  · rw [hnext]
    exact Nat.lt_succ_self _

/-- No two nodes share a document. -/
private theorem docs_inj_step (hI : Inv s) (h : step lex s e = some s') {n m : NodeId}
    {r : DocRef} (hn : s'.mem.docs n = some r) (hm : s'.mem.docs m = some r) : n = m := by
  by_contra hne
  rcases docs_of_step h hn with hn' | ⟨rfl, -, hother⟩
  · rcases docs_of_step h hm with hm' | ⟨rfl, -, -⟩
    · exact hne (hI.docs_inj hn' hm')
    · exact absurd (hI.docs_lt hn') (lt_irrefl _)
  · rw [hother m (Ne.symm hne)] at hm
    exact absurd (hI.docs_lt hm) (lt_irrefl _)

/-- A save is of a document that has been made. -/
private theorem ref_lt_step (hI : Inv s) (h : step lex s e = some s') {i : SaveId} {c : SaveCall}
    (hc : s'.saves i = some c) : c.ref < s'.mem.nextRef := by
  rcases save_of_step h hc with ⟨c₀, hc₀, hsame, -⟩ | ⟨-, hcall⟩
  · have hlt := (hI.ref_lt hc₀).trans_le (nextRef_le_of_step h)
    rw [hsame]
    exact hlt
  · exact hI.docs_lt_step h hcall.docs

/-- A save of a managed document is one of its node. -/
private theorem ref_node_step (hI : Inv s) (h : step lex s e = some s') {n : NodeId} {r : DocRef}
    {i : SaveId} {c : SaveCall} (hr : s'.mem.docs n = some r) (hc : s'.saves i = some c)
    (href : c.ref = r) : c.nodeId = n := by
  rcases save_of_step h hc with ⟨c₀, hc₀, hsame, -⟩ | ⟨-, hcall⟩
  · rw [hsame] at href ⊢
    rcases docs_of_step h hr with hr' | ⟨rfl, -, -⟩
    · exact hI.ref_node (c := c₀) hr' hc₀ href
    · -- a new object has no saves
      exact absurd (hI.ref_lt hc₀) (by rw [show c₀.ref = s.mem.nextRef from href]; exact lt_irrefl _)
  · have hdocs := hcall.docs
    rw [href] at hdocs
    exact hI.docs_inj_step h hdocs hr

/-- A save is of the document that is managed now, or of an older one. -/
private theorem ref_le_step (hI : Inv s) (h : step lex s e = some s') {n : NodeId} {r : DocRef}
    {i : SaveId} {c : SaveCall} (hr : s'.mem.docs n = some r) (hc : s'.saves i = some c)
    (hn : c.nodeId = n) : c.ref ≤ r := by
  rcases save_of_step h hc with ⟨c₀, hc₀, hsame, -⟩ | ⟨-, hcall⟩
  · rw [hsame] at hn ⊢
    rcases docs_of_step h hr with hr' | ⟨rfl, -, -⟩
    · exact hI.ref_le (c := c₀) hr' hc₀ hn
    · exact (hI.ref_lt hc₀).le
  · have hdocs := hcall.docs
    rw [hn, hr] at hdocs
    exact (Option.some.inj hdocs).ge

/-- What a save carries its document still holds. -/
private theorem state_le_step (hI : Inv s) (h : step lex s e = some s') {i : SaveId}
    {c : SaveCall} (hc : s'.saves i = some c) : c.state ≤ (s'.mem.heap c.ref).doc := by
  rcases save_of_step h hc with ⟨c₀, hc₀, hsame, -⟩ | ⟨-, hcall⟩
  · have hle := (hI.state_le hc₀).trans (doc_le_of_step h (hI.ref_lt hc₀))
    rw [hsame]
    exact hle
  · exact hcall.state.le

/-- Saves of a node are ordered as their documents, and as what these held. -/
private theorem order_step (hI : Inv s) (h : step lex s e = some s') {i j : SaveId}
    {c d : SaveCall} (hc : s'.saves i = some c) (hd : s'.saves j = some d)
    (hnode : c.nodeId = d.nodeId) (hij : i ≤ j) :
    c.ref ≤ d.ref ∧ (c.ref = d.ref → c.state ≤ d.state) := by
  rcases save_of_step h hd with ⟨d₀, hd₀, hsame, -⟩ | ⟨rfl, hcall⟩
  · rcases save_of_step h hc with ⟨c₀, hc₀, hsame', -⟩ | ⟨rfl, -⟩
    · rw [hsame, hsame'] at hnode ⊢
      exact hI.order (c := c₀) (d := d₀) hc₀ hd₀ hnode hij
    · -- the call just made is the youngest
      exact absurd (hI.save_lt hd₀) (not_lt.mpr hij)
  · refine ⟨hI.ref_le_step h hcall.docs hc hnode, fun href => ?_⟩
    rw [hcall.state, ← href]
    exact hI.state_le_step h hc

/-- A task that waits for its save waits for one of its own document. -/
private theorem saving_step (hI : Inv s) (h : step lex s e = some s') {t : TaskId}
    {entry : ChainTask NodeId Task} {r : DocRef} {save : SaveId} {sv : StateVector}
    {redis : Option Bool} {failure : Option Failure} (ht : s'.queue.task t = some entry)
    (hphase : entry.payload.phase = .saving r save sv redis failure) :
    ∃ c, s'.saves save = some c ∧ c.task = t ∧ c.ref = r ∧ c.nodeId = entry.key ∧
      sv = encodeStateVector c.state ∧ entry.payload.captured = some c.state := by
  rcases saving_of_step h ht hphase with
    ⟨entry₀, redis₀, failure₀, hentry₀, hkey, hphase₀, hcaptured⟩ | hnew
  · obtain ⟨c, hc, htask, href, hnode, hsv, hcap⟩ := hI.saving hentry₀ hphase₀
    obtain ⟨phase, hc', -⟩ := save_keeps_of_step h hc (hI.save_lt hc)
    exact ⟨_, hc', htask, href, hnode.trans hkey.symm, hsv, hcaptured.trans hcap⟩
  · exact hnew

/-- A recorded state vector is that of a save. -/
private theorem recorded_step (hI : Inv s) (h : step lex s e = some s') {r : DocRef}
    {sv : StateVector} (hr : r < s'.mem.nextRef)
    (hsv : (s'.mem.heap r).lastSavedStateVector = some sv) :
    ∃ i c, s'.saves i = some c ∧ c.ref = r ∧ c.phase.committed = true ∧
      encodeStateVector c.state = sv := by
  have hkeep : ∀ {i c}, s.saves i = some c → c.ref = r → c.phase.committed = true →
      encodeStateVector c.state = sv → ∃ i c, s'.saves i = some c ∧ c.ref = r ∧
        c.phase.committed = true ∧ encodeStateVector c.state = sv := by
    intro i c hc href hcommitted hstate
    obtain ⟨phase, hc', hcommitted'⟩ := save_keeps_of_step h hc (hI.save_lt hc)
    exact ⟨i, _, hc', href, hcommitted' hcommitted, hstate⟩
  rcases record_of_step h hr hsv with ⟨hlt, hsv₀⟩ |
    ⟨t, entry, save, persisted, htask, hphase, hsave⟩
  · obtain ⟨i, c, hc, href, hcommitted, hstate⟩ := hI.recorded hlt hsv₀
    exact hkeep hc href hcommitted hstate
  · obtain ⟨c, hc, -, href, -, hstate, -⟩ := hI.saving htask hphase
    have hcommitted : c.phase.committed = true := by
      rw [hc] at hsave
      rw [Option.some.inj hsave]
      rfl
    exact hkeep hc href hcommitted hstate.symm

/-- Every step keeps the invariant. -/
theorem step (hI : Inv s) (h : step lex s e = some s') : Inv s' where
  docs_lt := hI.docs_lt_step h
  docs_inj := hI.docs_inj_step h
  save_lt hc := by
    rcases save_of_step h hc with ⟨c₀, hc₀, -⟩ | ⟨rfl, hcall⟩
    · exact (hI.save_lt hc₀).trans_le (nextSave_le_of_step h)
    · rw [hcall.nextSave]
      exact Nat.lt_succ_self _
  ref_lt := hI.ref_lt_step h
  ref_node := hI.ref_node_step h
  ref_le := hI.ref_le_step h
  state_le := hI.state_le_step h
  order := hI.order_step h
  saving := hI.saving_step h
  recorded := hI.recorded_step h

end Inv

/-- The invariant holds in every reachable state. -/
theorem inv_of_reachable {nodes : NodeId → Option NodeRow}
    (h : Reachable (step lex) (State.init nodes) s) : Inv s :=
  h.invariant (inv_init nodes) fun _ _ _ hstep hI => hI.step hstep

end AideepWebsocket.DocManager
