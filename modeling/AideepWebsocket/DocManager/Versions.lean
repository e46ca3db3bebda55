import AideepWebsocket.DocManager.Durability
import AideepWebsocket.DocManager.Commits
import AideepWebsocket.DocManager.Stores
import AideepWebsocket.DocManager.Serial
import AideepWebsocket.DocManager.Updates

/-!
# Versions without a change

A flush skips its save when the state vector of the document is the one it has saved
last.  What it has saved last is a field of the managed entry, and every load makes a
new entry in which it is empty.  So the first flush after a load always saves, also
when the row holds the document already.

* `VersionEarned` — an update of the row writes a state that the row does not hold;
* `FirstSaveChanges` — the first save of an entry has something to write;
* `Smooth` — no row is deleted, and no call of a flush has failed.

In a smooth run at most one save of a node is on its way, and it is awaited by the
task that runs (`FlowInv`).  `EarnInv` relates the record of an entry to the row: they
agree, unless the task that runs is about to bring the record up to date.
-/

namespace AideepWebsocket.DocManager

open Library

variable {lex : Lexical} {s s' : State} {e : Event} {n : NodeId}

/-- The entry has been saved since it was loaded. -/
def ManagedDoc.saved (d : ManagedDoc) : Bool :=
  d.lastPersisted.isSome && d.lastSavedStateVector.isSome

/-- **No version without a change.**  When a transaction of `updateNodeRow` commits, the
row does not hold the state that it writes. -/
def VersionEarned (s : State) (e : Event) : Prop :=
  match e with
  | .updateNodeRow i reply _ => reply.executed = true → ∀ c ∈ s.saves i,
      ∀ row ∈ s.nodes c.nodeId, row.yjsState ≠ some c.state
  | _ => True

/-- If the step calls `saveToDb` for an entry that has not been saved since it was
loaded, the row does not hold its document. -/
def FirstSaveChanges (s s' : State) : Prop :=
  s'.nextSave = s.nextSave + 1 → ∀ c ∈ s'.saves s.nextSave,
    (s'.mem.heap c.ref).saved = false → s.row c.nodeId ≠ some c.state

/-- The call has failed. -/
def SavePhase.failed : SavePhase → Bool
  | .rejected _ => true
  | _ => false

/-- The flush has learnt that one of its calls has failed. -/
def Phase.learntFailure : Phase → Bool
  | .saving _ _ _ _ (some _) => true
  | _ => false

/-- No `saveToDb` has failed, and no flush has learnt of a failure. -/
def State.Unfailed (s : State) : Prop :=
  (∀ i < s.nextSave, ∀ c ∈ s.saves i, c.phase.failed = false) ∧
    ∀ t < s.queue.next, ∀ entry ∈ s.queue.task t, entry.payload.phase.learntFailure = false

/-- The event deletes a row. -/
def Event.deletes : Event → Bool
  | .deleteNode _ => true
  | _ => false

/-- **A step of a run without failures.** -/
def Smooth (e : Event) (s' : State) : Prop := e.deletes = false ∧ s'.Unfailed

instance (s : State) (e : Event) : Decidable (VersionEarned s e) := by
  induction e using Event.casesOn <;> unfold VersionEarned <;> infer_instance

instance (s s' : State) : Decidable (FirstSaveChanges s s') := by
  unfold FirstSaveChanges
  infer_instance

instance (s : State) : Decidable s.Unfailed := by
  unfold State.Unfailed
  infer_instance

instance (e : Event) (s' : State) : Decidable (Smooth e s') := by
  unfold Smooth
  infer_instance

theorem unfailed_init (nodes : NodeId → Option NodeRow) : (State.init nodes).Unfailed :=
  ⟨fun _ hi => absurd hi (Nat.not_lt_zero _), fun _ ht => absurd ht (Nat.not_lt_zero _)⟩

theorem State.Unfailed.save (hU : s.Unfailed) (hI : Inv s) {i : SaveId} {c : SaveCall}
    (hc : s.saves i = some c) : c.phase.failed = false :=
  hU.1 i (hI.save_lt hc) c hc

theorem State.Unfailed.saving (hU : s.Unfailed) {t : TaskId} {entry : ChainTask NodeId Task}
    (hentry : s.queue.task t = some entry) {r : DocRef} {i : SaveId} {sv : StateVector}
    {redis : Option Bool} {failure : Option Failure}
    (hphase : entry.payload.phase = .saving r i sv redis failure) : failure = none := by
  have hnot := hU.2 t (s.queue.lt_next hentry) entry hentry
  rw [hphase] at hnot
  cases failure with
  | none => rfl
  | some failure => cases hnot

/-! ### A flush ends after its save -/

/-- A task that awaits a save goes on awaiting it, or the save has resolved and is
recorded. -/
private theorem saving_stays (hU : s.Unfailed) (h : step lex s e = some s') {t : TaskId}
    {entry : ChainTask NodeId Task} (hentry : s.queue.task t = some entry) {r : DocRef}
    {i : SaveId} {sv : StateVector} {redis : Option Bool} {failure : Option Failure}
    (hphase : entry.payload.phase = .saving r i sv redis failure) :
    (∃ entry' redis' failure', s'.queue.task t = some entry' ∧ entry'.key = entry.key ∧
      entry'.payload.phase = .saving r i sv redis' failure') ∨
    ((∃ persisted, (s.saves i).map SaveCall.phase = some (.resolved persisted)) ∧
      (s'.mem.heap r).lastSavedStateVector = some sv) ∨
    e = .restart := by
  obtain ⟨entry', hentry', hkey, hstep⟩ := step_task h hentry
  have hcontinue : e = .continueFlush t →
      (∃ persisted, (s.saves i).map SaveCall.phase = some (.resolved persisted)) ∧
        (s'.mem.heap r).lastSavedStateVector = some sv := by
    rintro rfl
    obtain ⟨entry₁, mem, phase, hentry₁, rfl, hcase⟩ := State.continueFlush_step s h
    rw [hentry] at hentry₁
    obtain rfl := Option.some.inj hentry₁
    rcases hcase with ⟨-, q, p, hq, -⟩ | ⟨-, ⟨q, p, hq⟩, -⟩ | ⟨-, q, save, sv', redis', f, hq, -⟩ |
      ⟨q, save, sv', p, hq, hsave, hrecords, -⟩ <;> rw [hphase] at hq
    · cases hq
    · cases hq
    · cases hq
      cases hU.saving hentry hphase
    · cases hq
      refine ⟨⟨p, hsave⟩, ?_⟩
      show (mem.heap r).lastSavedStateVector = some sv
      rw [hrecords.lastSavedStateVector, if_pos rfl]
  generalize hx : entry'.payload = x at hstep
  cases hstep with
  | stay => exact Or.inl ⟨entry', _, _, hentry', hkey, by rw [hx, hphase]⟩
  | load await _ hbefore => rw [hphase] at hbefore; cases hbefore
  | fail x f _ _ _ _ _ he =>
      rcases he with rfl | ⟨clientId, rfl⟩ | he
      · obtain ⟨entry₁, hentry₁, hqueued, -⟩ := State.startTask_step s h
        rw [hentry] at hentry₁
        obtain rfl := Option.some.inj hentry₁
        rw [hphase] at hqueued
        cases hqueued
      · obtain ⟨entry₁, await, ws, markdown, userId, hentry₁, hloading, -⟩ :=
          State.resumeAppend_step s h
        rw [hentry] at hentry₁
        obtain rfl := Option.some.inj hentry₁
        rw [hphase] at hloading
        cases hloading
      · exact Or.inr (Or.inl (hcontinue he))
  | skip x q p _ _ hbefore =>
      rw [hphase] at hbefore
      rcases hbefore with hbefore | ⟨await, hbefore⟩ <;> cases hbefore
  | save x c _ _ hbefore =>
      rw [hphase] at hbefore
      rcases hbefore with hbefore | ⟨await, hbefore⟩ <;> cases hbefore
  | refreshReplied q p ok hbefore => rw [hphase] at hbefore; cases hbefore
  | saveReplied q save sv' ok f f' hbefore _ =>
      rw [hphase] at hbefore
      cases hbefore
      exact Or.inl ⟨entry', _, _, hentry', hkey, by rw [hx]⟩
  | saveRejected q save sv' redis' first f hbefore =>
      rw [hphase] at hbefore
      cases hbefore
      exact Or.inl ⟨entry', _, _, hentry', hkey, by rw [hx]⟩
  | refreshed q p hbefore => rw [hphase] at hbefore; cases hbefore
  | saved q save sv' p phase hbefore _ _ he => exact Or.inr (Or.inl (hcontinue he))
  | embedded q p job hbefore => rw [hphase] at hbefore; cases hbefore
  | returned result hbefore => rw [hphase] at hbefore; cases hbefore
  | gone he => exact Or.inr (Or.inr he)

/-- A task that awaits a committed save did so before. -/
private theorem saving_before (hI : Inv s) (h : step lex s e = some s') {t : TaskId}
    {entry' : ChainTask NodeId Task} (hentry' : s'.queue.task t = some entry') {r : DocRef}
    {i : SaveId} {sv : StateVector} {redis : Option Bool} {failure : Option Failure}
    (hphase : entry'.payload.phase = .saving r i sv redis failure) {c : SaveCall}
    (hc : s'.saves i = some c) (hcommitted : c.phase.committed = true) :
    ∃ entry redis₀ failure₀, s.queue.task t = some entry ∧ entry'.key = entry.key ∧
      entry.payload.phase = .saving r i sv redis₀ failure₀ := by
  rcases (step_queue h).task hentry' with ⟨entry, hentry, hkey, hstep⟩ | ⟨-, kind, hpay⟩
  · rcases hstep.flushes (r := r) (by rw [hphase]; rfl) with
      ⟨-, -, hbefore⟩ | ⟨-, -, -, -, ⟨p, hskip, -⟩ | ⟨c', hc', -, -, -, -, hsave⟩⟩
    · obtain ⟨redis₀, failure₀, hphase₀⟩ := hbefore hphase
      exact ⟨entry, redis₀, failure₀, hentry, hkey, hphase₀⟩
    · rw [hphase] at hskip
      cases hskip
    · rw [hphase] at hsave
      cases hsave
      rcases save_of_step h hc with ⟨c₀, hc₀, -⟩ | ⟨-, hcall⟩
      · exact absurd (hI.save_lt hc₀) (Nat.lt_irrefl _)
      · rw [hcall.phase] at hcommitted
        cases hcommitted
  · rw [hpay] at hphase
    cases hphase

/-! ### One save at a time -/

/-- A task of the node awaits a save that has committed. -/
def State.Recording (s : State) (n : NodeId) : Prop :=
  ∃ t entry r i sv redis failure c, s.queue.task t = some entry ∧ entry.key = n ∧
    entry.payload.phase = .saving r i sv redis failure ∧ s.saves i = some c ∧
    c.phase.committed = true

/-- **The saves of a smooth run**: the task that runs awaits them, and the one that it
awaits is in the row once it has committed. -/
structure FlowInv (s : State) : Prop where
  inv : Inv s
  last : FlushedLast s
  unfailed : s.Unfailed
  awaited : ∀ {i c}, s.saves i = some c → c.phase.pending = true →
    ∃ entry r sv redis failure, s.queue.task c.task = some entry ∧ entry.key = c.nodeId ∧
      entry.payload.phase = .saving r i sv redis failure
  current : ∀ {t entry r i sv redis failure c state}, s.queue.task t = some entry →
    entry.payload.phase = .saving r i sv redis failure → s.saves i = some c →
    c.phase.committed = true → s.row entry.key = some state → state = c.state

theorem flowInv_init (nodes : NodeId → Option NodeRow) : FlowInv (State.init nodes) where
  inv := inv_init nodes
  last := by intro t entry r i c hentry; cases hentry
  unfailed := unfailed_init nodes
  awaited h := by cases h
  current h := by cases h

private theorem running_of_saving {entry : ChainTask NodeId Task} {r : DocRef} {i : SaveId}
    {sv : StateVector} {redis : Option Bool} {failure : Option Failure}
    (hphase : entry.payload.phase = .saving r i sv redis failure) :
    entry.payload.stage = .running := by
  rw [Task.stage, hphase]
  rfl

namespace FlowInv

/-- A pending save is the one that the running task of its node awaits. -/
theorem save_unique (hF : FlowInv s) {t : TaskId} {entry : ChainTask NodeId Task} {r : DocRef}
    {i j : SaveId} {sv : StateVector} {redis : Option Bool} {failure : Option Failure}
    {c : SaveCall} (hentry : s.queue.task t = some entry)
    (hphase : entry.payload.phase = .saving r i sv redis failure) (hc : s.saves j = some c)
    (hpending : c.phase.pending = true) (hnode : c.nodeId = entry.key) : j = i := by
  obtain ⟨entry₁, r₁, sv₁, redis₁, failure₁, hentry₁, hkey₁, hphase₁⟩ := hF.awaited hc hpending
  have heq := s.queue.running_unique hentry₁ (running_of_saving hphase₁) hentry
    (running_of_saving hphase) (hnode.symm.trans hkey₁.symm)
  rw [heq, hentry] at hentry₁
  obtain rfl := Option.some.inj hentry₁
  rw [hphase] at hphase₁
  cases hphase₁
  rfl

private theorem awaited_step (hF : FlowInv s) (h : step lex s e = some s') {i : SaveId}
    {c' : SaveCall} (hc' : s'.saves i = some c') (hpending' : c'.phase.pending = true) :
    ∃ entry r sv redis failure, s'.queue.task c'.task = some entry ∧ entry.key = c'.nodeId ∧
      entry.payload.phase = .saving r i sv redis failure := by
  rcases save_of_step h hc' with ⟨c, hc, hsame, -, hbefore⟩ | ⟨rfl, hcall⟩
  · have htask : c'.task = c.task := by rw [hsame]
    have hnode : c'.nodeId = c.nodeId := by rw [hsame]
    obtain ⟨entry, r, sv, redis, failure, hentry, hkey, hphase⟩ :=
      hF.awaited hc (hbefore hpending')
    rcases saving_stays hF.unfailed h hentry hphase with
      ⟨entry', redis', failure', hentry', hkey', hphase'⟩ | ⟨⟨p, hresolved⟩, -⟩ | rfl
    · exact ⟨entry', r, sv, redis', failure', htask ▸ hentry', by rw [hkey', hkey, hnode],
        hphase'⟩
    · -- the save that it awaits is pending, not resolved
      have hpending := hbefore hpending'
      rw [hc] at hresolved
      rw [Option.some.inj hresolved] at hpending
      cases hpending
    · cases h
      obtain ⟨c₀, hc₀, hc₁⟩ := Option.map_eq_some_iff.mp hc'
      split at hc₁
      · subst hc₁
        cases hpending'
      · next hnot =>
          subst hc₁
          exact absurd hpending' hnot
  · obtain ⟨entry, hentry, hkey, hphase, -⟩ := hcall.task
    exact ⟨entry, _, _, _, _, hentry, hkey, hphase⟩

private theorem current_step (hF : FlowInv s) (h : step lex s e = some s') {t : TaskId}
    {entry' : ChainTask NodeId Task} {r : DocRef} {i : SaveId} {sv : StateVector}
    {redis : Option Bool} {failure : Option Failure} {c' : SaveCall} {state : YDoc}
    (hentry' : s'.queue.task t = some entry')
    (hphase' : entry'.payload.phase = .saving r i sv redis failure)
    (hc' : s'.saves i = some c') (hcommitted' : c'.phase.committed = true)
    (hrow' : s'.row entry'.key = some state) : state = c'.state := by
  obtain ⟨entry, redis₀, failure₀, hentry, hkey, hphase⟩ :=
    saving_before hF.inv h hentry' hphase' hc' hcommitted'
  rw [hkey] at hrow'
  -- the save was committed before, and the row has not been written since
  have hkeep : ∀ {c}, s.saves i = some c → c.phase.committed = true → c.state = c'.state →
      s'.row entry.key = s.row entry.key → state = c'.state := by
    intro c hc hcommitted hstate hrow
    rw [← hstate]
    exact hF.current hentry hphase hc hcommitted (hrow ▸ hrow')
  cases step_saves h with
  | same hsaves _ hrows =>
      rcases hrows entry.key with hrow | ⟨-, hnone⟩
      · exact hkeep (hsaves ▸ hc') hcommitted' rfl hrow
      · rw [hnone] at hrow'
        cases hrow'
  | call c hcall =>
      rw [hcall.saves] at hc'
      by_cases hi : i = s.nextSave
      · rw [hi, Function.update_self] at hc'
        obtain rfl := Option.some.inj hc'
        rw [hcall.phase] at hcommitted'
        cases hcommitted'
      · rw [Function.update_of_ne hi] at hc'
        exact hkeep hc' hcommitted' rfl (hcall.row _)
  | commit save c reply now phase _ _ hsave hpending _ hsaves _ hrows =>
      have hnode : ∃ d, s.saves i = some d ∧ d.nodeId = entry.key := by
        obtain ⟨d, hd, -, -, hnode, -⟩ := hF.inv.saving hentry hphase
        exact ⟨d, hd, hnode⟩
      by_cases hi : i = save
      · subst hi
        rw [hsaves, Function.update_self] at hc'
        obtain rfl := Option.some.inj hc'
        obtain ⟨d, hd, hnode⟩ := hnode
        rw [hsave] at hd
        obtain rfl := Option.some.inj hd
        rw [hrows, if_pos hnode.symm] at hrow'
        exact (Option.some.inj hrow').symm
      · rw [hsaves, Function.update_of_ne hi] at hc'
        refine hkeep hc' hcommitted' rfl ?_
        rw [hrows, if_neg]
        intro hkey
        refine hi (hF.save_unique hentry hphase hsave ?_ hkey.symm).symm
        rw [hpending]
        rfl
  | move save c phase hsave _ _ hcommitted hsaves _ hrows =>
      by_cases hi : i = save
      · subst hi
        rw [hsaves, Function.update_self] at hc'
        obtain rfl := Option.some.inj hc'
        exact hkeep hsave (hcommitted ▸ hcommitted') rfl (hrows _)
      · rw [hsaves, Function.update_of_ne hi] at hc'
        exact hkeep hc' hcommitted' rfl (hrows _)
  | restart _ hsaves _ hrows =>
      rw [hsaves] at hc'
      obtain ⟨c, hc, hsame⟩ := Option.map_eq_some_iff.mp hc'
      split at hsame <;> subst hsame
      · exact hkeep hc hcommitted' rfl (hrows _)
      · exact hkeep hc hcommitted' rfl (hrows _)

theorem step (hF : FlowInv s) (h : DocManager.step lex s e = some s') (hU' : s'.Unfailed) :
    FlowInv s' where
  inv := hF.inv.step h
  last := flushedLast_step (hF.inv.step h) hF.last h
  unfailed := hU'
  awaited := hF.awaited_step h
  current := hF.current_step h

end FlowInv

/-! ### The record and the row -/

/-- **What a save writes is new, and what an entry records is in the row**, unless the
record is about to be brought up to date. -/
structure EarnInv (s : State) : Prop where
  fresh : ∀ {i c}, s.saves i = some c → c.phase = .updateNodeRow →
    s.row c.nodeId ≠ some c.state
  recorded : ∀ {n r sv state}, s.mem.docs n = some r →
    (s.mem.heap r).lastSavedStateVector = some sv → s.row n = some state →
    encodeStateVector state = sv ∨ s.Recording n

theorem earnInv_init (nodes : NodeId → Option NodeRow) : EarnInv (State.init nodes) where
  fresh h := by cases h
  recorded h := by cases h

namespace EarnInv

/-- The flush that is about to record its save is a flush of the managed entry, if this
entry has been saved at all. -/
private theorem ref_of_recording (hF : FlowInv s) {t : TaskId} {entry : ChainTask NodeId Task}
    {r r₀ : DocRef} {i : SaveId} {sv sv₀ : StateVector} {redis : Option Bool}
    {failure : Option Failure} (hr : s.mem.docs n = some r)
    (hsv : (s.mem.heap r).lastSavedStateVector = some sv)
    (hentry : s.queue.task t = some entry) (hkey : entry.key = n)
    (hphase : entry.payload.phase = .saving r₀ i sv₀ redis failure) : r = r₀ := by
  obtain ⟨c, hc, -, href, hnode, -⟩ := hF.inv.saving hentry hphase
  obtain ⟨j, d, hd, hdref, -, -⟩ := hF.inv.recorded (hF.inv.docs_lt hr) hsv
  have hdnode : d.nodeId = n := hF.inv.ref_node hr hd hdref
  apply le_antisymm
  · rw [← hdref]
    exact hF.last hentry (by rw [hphase]; rfl) hd (hdnode.trans hkey.symm)
  · rw [← href]
    exact hF.inv.ref_le hr hc (hnode.trans hkey)

private theorem recorded_step (hF : FlowInv s) (hI' : Inv s') (hE : EarnInv s)
    (h : step lex s e = some s') {r : DocRef} {sv : StateVector} {state : YDoc}
    (hr : s'.mem.docs n = some r) (hsv : (s'.mem.heap r).lastSavedStateVector = some sv)
    (hrow : s'.row n = some state) : encodeStateVector state = sv ∨ s'.Recording n := by
  have hrestart : e ≠ .restart := by
    rintro rfl
    cases h
    cases hr
  -- a task that awaits a committed save is still there, or has recorded it
  have hgoes : ∀ {t entry r₀ i sv₀ redis failure c}, s.queue.task t = some entry →
      entry.key = n → entry.payload.phase = .saving r₀ i sv₀ redis failure →
      (∃ c', s'.saves i = some c' ∧ c'.phase.committed = true) → s.saves i = some c →
      s'.Recording n ∨ (∃ persisted, c.phase = .resolved persisted) ∧
        (s'.mem.heap r₀).lastSavedStateVector = some sv₀ := by
    rintro t entry r₀ i sv₀ redis failure c hentry hkey hphase ⟨c', hc', hcommitted⟩ hc
    rcases saving_stays hF.unfailed h hentry hphase with
      ⟨entry', redis', failure', hentry', hkey', hphase'⟩ | ⟨⟨p, hresolved⟩, hrecord⟩ | he
    · exact Or.inl ⟨t, entry', r₀, i, sv₀, redis', failure', c', hentry', hkey'.trans hkey,
        hphase', hc', hcommitted⟩
    · rw [hc] at hresolved
      exact Or.inr ⟨⟨p, Option.some.inj hresolved⟩, hrecord⟩
    · exact absurd he hrestart
  rcases docs_of_step h hr with hold | ⟨rfl, -⟩
  · rcases row_of_step h hrow with hsame | ⟨i, c, phase, hc, hphase, hnode, -, hcommitted, hc'⟩
    · rcases record_of_step h (hI'.docs_lt hr) hsv with
        ⟨-, hsv₀⟩ | ⟨t, entry, i, p, hentry, hphase, hresolved⟩
      · rcases hE.recorded hold hsv₀ hsame with
          heq | ⟨t, entry, r₀, i, sv₀, redis, failure, c, hentry, hkey, hphase, hc, hcommitted⟩
        · exact Or.inl heq
        · obtain ⟨phase', hc', hcommitted'⟩ :=
            save_keeps_of_step h hc (hF.inv.save_lt hc)
          rcases hgoes hentry hkey hphase ⟨_, hc', hcommitted' hcommitted⟩ hc with
            hrecording | ⟨-, hrecord⟩
          · exact Or.inr hrecording
          · obtain rfl := ref_of_recording hF hold hsv₀ hentry hkey hphase
            rw [hsv] at hrecord
            obtain rfl := Option.some.inj hrecord
            obtain ⟨d, hd, -, -, -, hvector, -⟩ := hF.inv.saving hentry hphase
            rw [hc] at hd
            obtain rfl := Option.some.inj hd
            have hstate : state = c.state :=
              hF.current hentry hphase hc hcommitted (hkey ▸ hsame)
            exact Or.inl (hstate ▸ hvector.symm)
      · -- the record has just been written
        obtain ⟨c, hc, -, href, hnode, hvector, -⟩ := hF.inv.saving hentry hphase
        have hkey : entry.key = n := hnode.symm.trans (hF.inv.ref_node hold hc href)
        have hcommitted : c.phase.committed = true := by
          rw [hc] at hresolved
          rw [Option.some.inj hresolved]
          rfl
        have hstate : state = c.state :=
          hF.current hentry hphase hc hcommitted (hkey ▸ hsame)
        exact Or.inl (hstate ▸ hvector.symm)
    · -- a save of the node has just committed
      obtain ⟨entry, r₀, sv₀, redis, failure, hentry, hkey, hsaving⟩ :=
        hF.awaited hc (by rw [hphase]; rfl)
      rcases hgoes hentry (hkey.trans hnode) hsaving ⟨_, hc', hcommitted⟩ hc with
        hrecording | ⟨⟨p, hresolved⟩, -⟩
      · exact Or.inr hrecording
      · rw [hphase] at hresolved
        cases hresolved
  · -- a new entry records nothing
    obtain ⟨i, c', hc', href, hcommitted, -⟩ := hI'.recorded (hI'.docs_lt hr) hsv
    rcases save_of_step h hc' with ⟨c, hc, hsame, -⟩ | ⟨-, hcall⟩
    · have hlt := hF.inv.ref_lt hc
      rw [hsame] at href
      exact absurd hlt (Nat.not_lt.mpr href.ge)
    · rw [hcall.phase] at hcommitted
      cases hcommitted

private theorem fresh_step (hF : FlowInv s) (hF' : FlowInv s') (hE : EarnInv s)
    (hrecorded : ∀ {n r sv state}, s'.mem.docs n = some r →
      (s'.mem.heap r).lastSavedStateVector = some sv → s'.row n = some state →
      encodeStateVector state = sv ∨ s'.Recording n)
    (h : step lex s e = some s') (hG : FirstSaveChanges s s') {i : SaveId} {c : SaveCall}
    (hc' : s'.saves i = some c) (hphase : c.phase = .updateNodeRow) :
    s'.row c.nodeId ≠ some c.state := by
  have hpending : c.phase.pending = true := by
    rw [hphase]
    rfl
  rcases transaction_of_step h hc' hphase with hc | ⟨rfl, hcall⟩
  · intro hrow
    rcases row_of_step h hrow with hsame | ⟨j, d, phase, hd, hdphase, hnode, -, hcommitted, hd'⟩
    · exact hE.fresh hc hphase hsame
    · obtain ⟨entry, r, sv, redis, failure, hentry, hkey, hsaving⟩ := hF.awaited hc hpending
      obtain rfl := hF.save_unique hentry hsaving hd (by rw [hdphase]; rfl)
        (hnode.trans hkey.symm)
      rw [hc'] at hd'
      obtain rfl := Option.some.inj hd'
      rw [show phase = .updateNodeRow from hphase] at hcommitted
      cases hcommitted
  · intro hrow
    by_cases hsaved : (s'.mem.heap c.ref).saved = true
    · obtain ⟨hpersisted, hsv⟩ := Bool.and_eq_true_iff.mp hsaved
      obtain ⟨sv, hsv⟩ := Option.isSome_iff_exists.mp hsv
      rcases hrecorded hcall.docs hsv hrow with heq | hrecording
      · -- then the flush would have been skipped
        have hunchanged : (s'.mem.heap c.ref).unchanged = true := by
          rw [ManagedDoc.unchanged, hpersisted, hsv, ← hcall.state, heq]
          simp
        rw [hcall.changed] at hunchanged
        cases hunchanged
      · obtain ⟨t, entry, r, j, sv', redis, failure, d, hentry, hkey, hsaving, hd, hcommitted⟩ :=
          hrecording
        obtain rfl := hF'.save_unique hentry hsaving hc' hpending hkey.symm
        rw [hc'] at hd
        obtain rfl := Option.some.inj hd
        rw [hphase] at hcommitted
        cases hcommitted
    · exact hG hcall.nextSave c hc' (Bool.not_eq_true _ ▸ hsaved) (hcall.row _ ▸ hrow)

theorem step (hF : FlowInv s) (hF' : FlowInv s') (hE : EarnInv s)
    (h : DocManager.step lex s e = some s') (hG : FirstSaveChanges s s') : EarnInv s' where
  fresh := hE.fresh_step hF hF' (hE.recorded_step hF hF'.inv h) h hG
  recorded := hE.recorded_step hF hF'.inv h

theorem versionEarned (hE : EarnInv s) (h : DocManager.step lex s e = some s') :
    VersionEarned s e := by
  cases e with
  | updateNodeRow i reply now =>
      intro hexecuted c hc row hrow hstate
      refine hE.fresh hc (phase_of_updateNodeRow h hc) ?_
      rw [State.row, Option.mem_def.mp hrow]
      exact hstate
  | _ => trivial

end EarnInv

/-! ### A save that has nothing to write -/

/-- The save is on its way, and the row holds the state that it is going to write. -/
def State.Idles (s : State) (i : SaveId) : Prop :=
  ∃ c, s.saves i = some c ∧ c.phase = .updateNodeRow ∧ s.row c.nodeId = some c.state

/-- In a smooth run such a save stays on its way for as long as every version is
earned. -/
private theorem idles_of_step (hF : FlowInv s) (h : step lex s e = some s')
    (hsmooth : Smooth e s') (hP : VersionEarned s e) {i : SaveId} (hidle : s.Idles i) :
    s'.Idles i := by
  obtain ⟨c, hc, hphase, hrow⟩ := hidle
  have hpending : c.phase.pending = true := by
    rw [hphase]
    rfl
  have hunfailed : ∀ {c'}, s'.saves i = some c' → c'.phase.failed = false :=
    hsmooth.2.save (hF.inv.step h)
  cases step_saves h with
  | same hsaves _ hrows =>
      refine ⟨c, hsaves ▸ hc, hphase, ?_⟩
      rcases hrows c.nodeId with hsame | ⟨he, -⟩
      · rw [hsame, hrow]
      · rw [he] at hsmooth
        cases hsmooth.1
  | call d hcall =>
      refine ⟨c, ?_, hphase, by rw [hcall.row, hrow]⟩
      rw [hcall.saves, Function.update_of_ne (hF.inv.save_lt hc).ne, hc]
  | commit save d reply now phase he hexecuted hsave hdphase _ hsaves _ hrows =>
      by_cases hnode : c.nodeId = d.nodeId
      · obtain ⟨entry, r, sv, redis, failure, hentry, hkey, hsaving⟩ := hF.awaited hc hpending
        obtain rfl := hF.save_unique hentry hsaving hsave (by rw [hdphase]; rfl)
          (hnode.symm.trans hkey.symm)
        rw [hc] at hsave
        obtain rfl := Option.some.inj hsave
        obtain ⟨row, hrow₀, hstate⟩ := Option.bind_eq_some_iff.mp hrow
        subst he
        exact absurd hstate (hP hexecuted c hc row hrow₀)
      · have hi : i ≠ save := by
          rintro rfl
          rw [hc] at hsave
          exact hnode (congrArg SaveCall.nodeId (Option.some.inj hsave))
        refine ⟨c, ?_, hphase, ?_⟩
        · rw [hsaves, Function.update_of_ne hi, hc]
        · rw [hrows, if_neg hnode, hrow]
  | move save d phase hsave _ hne hcommitted hsaves _ hrows =>
      by_cases hi : i = save
      · subst hi
        rw [hc] at hsave
        obtain rfl := Option.some.inj hsave
        have hfailed := hunfailed (by rw [hsaves, Function.update_self])
        rw [hphase] at hcommitted
        cases phase with
        | updateNodeRow => exact absurd rfl hne
        | syncNodeAttachments p => cases hcommitted
        | resolved p => cases hcommitted
        | rejected committed => cases hfailed
      · refine ⟨c, ?_, hphase, by rw [hrows, hrow]⟩
        rw [hsaves, Function.update_of_ne hi, hc]
  | restart _ hsaves =>
      have hfailed := hunfailed (by rw [hsaves, hc, Option.map_some, if_pos hpending])
      cases hfailed

/-- No `saveToDb` call is on its way. -/
def State.Saved (s : State) : Prop := ∀ i c, s.saves i = some c → c.phase.pending = false

private theorem idles_of_exec (hF : FlowInv s) {es : List Event}
    (hes : exec (step lex) s es = some s')
    (hsmooth : Along (step lex) (fun _ e s' => Smooth e s') s es)
    (hP : Along (step lex) (fun s e _ => VersionEarned s e) s es) {i : SaveId}
    (hidle : s.Idles i) : s'.Idles i := by
  induction es generalizing s with
  | nil =>
      obtain rfl := Option.some.inj hes
      exact hidle
  | cons e es ih =>
      rw [exec_cons, Option.bind_eq_some_iff] at hes
      obtain ⟨s₁, hstep, hes⟩ := hes
      obtain ⟨hsmooth₁, hsmooth⟩ := hsmooth s₁ hstep
      obtain ⟨hP₁, hP⟩ := hP s₁ hstep
      exact ih (hF.step hstep hsmooth₁.2) hes hsmooth hP
        (idles_of_step hF hstep hsmooth₁ hP₁ hidle)

/-- In a smooth run that has saved everything, every first save had something to
write if every version was earned. -/
private theorem firstSaveChanges_of_earned (hF : FlowInv s) {es : List Event}
    (hes : exec (step lex) s es = some s') (hsaved : s'.Saved)
    (hsmooth : Along (step lex) (fun _ e s' => Smooth e s') s es)
    (hP : Along (step lex) (fun s e _ => VersionEarned s e) s es) :
    Along (step lex) (fun s _ s' => FirstSaveChanges s s') s es := by
  induction es generalizing s with
  | nil => trivial
  | cons e es ih =>
      rw [exec_cons, Option.bind_eq_some_iff] at hes
      obtain ⟨s₁, hstep, hes⟩ := hes
      obtain ⟨hsmooth₁, hsmooth⟩ := hsmooth s₁ hstep
      obtain ⟨-, hP⟩ := hP s₁ hstep
      have hF₁ := hF.step hstep hsmooth₁.2
      have hchanges : FirstSaveChanges s s₁ := by
        intro hnext c hc _ hrow
        have hcall := saveCalled_of_step hstep hnext hc
        have hidle : s₁.Idles s.nextSave := ⟨c, hc, hcall.phase, by rw [hcall.row, hrow]⟩
        obtain ⟨d, hd, hphase, -⟩ := idles_of_exec hF₁ hes hsmooth hP hidle
        have hdone := hsaved _ d hd
        rw [hphase] at hdone
        cases hdone
      intro s₂ hstep₂
      rw [hstep] at hstep₂
      obtain rfl := Option.some.inj hstep₂
      exact ⟨hchanges, ih hF₁ hes hsmooth hP⟩

/-! ### Runs without edits -/

/-- The event edits a document, or is another writer of the table. -/
def Event.edits : Event → Bool
  | .applyToDoc _ _ | .resumeAppend _ _ | .writeNode _ _ | .deleteNode _ => true
  | _ => false

/-- **Nothing has been edited**: of a node whose row holds a state, this state is all
there is, in memory and in Redis, and no save has committed. -/
structure StillInv (nodes : NodeId → Option NodeRow) (s : State) : Prop where
  rows : s.nodes = nodes
  docs : ∀ {n r state}, s.mem.docs n = some r → s.row n = some state →
    (s.mem.heap r).doc = state
  snapshots : ∀ {n snapshot w state}, Snapshot s n snapshot w → s.row n = some state →
    snapshot = state
  loads : ∀ {l x doc state}, s.loader.loads l = some x → x.phase.document = some doc →
    s.row x.nodeId = some state → doc = state
  saves : ∀ {i c state}, s.saves i = some c → s.row c.nodeId = some state → c.state = state
  uncommitted : ∀ {i c}, s.saves i = some c → c.phase.committed = false

namespace StillInv

variable {nodes : NodeId → Option NodeRow}

theorem init : StillInv nodes (State.init nodes) where
  rows := rfl
  docs h := by cases h
  snapshots h := by rcases h with h | h <;> cases h
  loads h := by cases h
  saves h := by cases h
  uncommitted h := by cases h

/-- No transaction commits: it would write the state that the row holds. -/
private theorem not_committed (hS : StillInv nodes s)
    (hstate : ∀ n row, nodes n = some row → row.yjsState ≠ none) (hP : VersionEarned s e)
    {i : SaveId} {reply : Reply} {now : ℕ} {c : SaveCall} {row : NodeRow}
    (he : e = .updateNodeRow i reply now) (hexecuted : reply.executed = true)
    (hc : s.saves i = some c) (hrow : s.nodes c.nodeId = some row) : False := by
  subst he
  obtain ⟨state, hrowState⟩ : ∃ state, row.yjsState = some state :=
    Option.ne_none_iff_exists'.mp (hstate c.nodeId row (hS.rows ▸ hrow))
  have hrow' : s.row c.nodeId = some state := by
    rw [State.row, hrow]
    exact hrowState
  refine hP hexecuted c hc row hrow ?_
  rw [hS.saves hc hrow', hrowState]

private theorem nodes_step (hS : StillInv nodes s)
    (hstate : ∀ n row, nodes n = some row → row.yjsState ≠ none) (hP : VersionEarned s e)
    (h : DocManager.step lex s e = some s') (hedits : e.edits = false) :
    s'.nodes = s.nodes := by
  funext n
  rcases row_cases h n with hsame | ⟨row, rfl, -⟩ | ⟨rfl, -⟩ |
    ⟨save, reply, now, c, row, hupdated⟩
  · exact hsame
  · cases hedits
  · cases hedits
  · exact (hS.not_committed hstate hP hupdated.event hupdated.executed hupdated.save
      (hupdated.node ▸ hupdated.before)).elim

/-- Without edits a document stays what it is. -/
private theorem doc_eq_of_step (h : DocManager.step lex s e = some s')
    (hedits : e.edits = false) {r : DocRef} (hr : r < s.mem.nextRef) :
    (s'.mem.heap r).doc = (s.mem.heap r).doc := by
  cases step_mem h with
  | same hmem => exact hmem.doc r
  | edit q u horigin _ =>
      rcases horigin with ⟨n, rfl, -⟩ | ⟨t, clientId, entry, await, rfl, -⟩ <;> cases hedits
  | put l x doc ws _ _ _ hmem =>
      rw [hmem]
      exact congrArg ManagedDoc.doc (Function.update_of_ne hr.ne ..)
  | remove hmem => rw [hmem.heap]
  | saved t entry q save sv p _ _ _ hmem => exact hmem.doc r

/-- What a load goes on to read of a node is the state of its row. -/
private theorem document_of_moves (hS : StillInv nodes s) {l : LoadId} {x : Load}
    {phase : LoadPhase} {doc state : YDoc} (hmoves : s.LoadMoves lex e l x phase)
    (hdoc : phase.document = some doc) (hrow : s.row x.nodeId = some state) : doc = state := by
  cases hmoves with
  | redis reply rest _ _ _ =>
      split at hdoc
      · cases hcached : s.redis.store x.nodeId with
        | none =>
            rw [hcached] at hdoc
            cases hdoc
        | some cached =>
            rw [hcached] at hdoc
            obtain rfl := Option.some.inj hdoc
            exact hS.snapshots (w := cached.writer) (Or.inr hcached) hrow
      · cases hdoc
  | miss => cases hdoc
  | db ok clientId _ _ =>
      split at hdoc
      · obtain ⟨row, hnode, hrowState⟩ := Option.bind_eq_some_iff.mp hrow
        simp only [State.loadFromDb, hnode, Option.map_some, hrowState] at hdoc
        exact (Option.some.inj hdoc).symm
      · cases hdoc

theorem step (hS : StillInv nodes s) (hI : Inv s)
    (hstate : ∀ n row, nodes n = some row → row.yjsState ≠ none) (hP : VersionEarned s e)
    (h : DocManager.step lex s e = some s') (hedits : e.edits = false) :
    StillInv nodes s' := by
  have hnodes := hS.nodes_step hstate hP h hedits
  have hrows : ∀ n, s'.row n = s.row n := fun n => by rw [State.row, hnodes, State.row]
  have hdocs : ∀ {n r state}, s'.mem.docs n = some r → s'.row n = some state →
      (s'.mem.heap r).doc = state := by
    intro n r state hr hrow
    rw [hrows] at hrow
    rcases docs_or_put_of_step h hr with hold | ⟨l, x, doc, -, hload, rfl, hdoc, hput⟩
    · rw [doc_eq_of_step h hedits (hI.docs_lt hold)]
      exact hS.docs hold hrow
    · rw [hput]
      exact hS.loads hload hdoc hrow
  refine ⟨hnodes.trans hS.rows, hdocs, ?_, ?_, ?_, ?_⟩
  · intro n snapshot w state hsnapshot hrow
    rcases snapshot_of_step h hsnapshot with hold | hsent
    · exact hS.snapshots hold (hrows n ▸ hrow)
    · obtain ⟨r, hr, rfl⟩ := hsent.docs
      exact hdocs hr hrow
  · intro l x' doc state hx' hdoc hrow
    rw [hrows] at hrow
    rcases load_of_step h hx' with ⟨x, hx, hnode, hcase⟩ | hfirst
    · rw [← hnode] at hrow
      rcases hcase with hsame | hmoves | ⟨r, hresolved⟩
      · exact hS.loads hx (hsame ▸ hdoc) hrow
      · exact hS.document_of_moves hmoves hdoc hrow
      · rw [hresolved] at hdoc
        cases hdoc
    · rw [hfirst] at hdoc
      cases hdoc
  · intro i c' state hc' hrow
    rcases save_of_step h hc' with ⟨c, hc, hsame, -⟩ | ⟨-, hcall⟩
    · have hnode : c'.nodeId = c.nodeId := by rw [hsame]
      have hsnapshot : c'.state = c.state := by rw [hsame]
      rw [hrows, hnode] at hrow
      rw [hsnapshot]
      exact hS.saves hc hrow
    · rw [hcall.state]
      exact hdocs hcall.docs hrow
  · intro i c' hc'
    cases step_saves h with
    | same hsaves => exact hS.uncommitted (hsaves ▸ hc')
    | call c hcall =>
        rw [hcall.saves] at hc'
        by_cases hi : i = s.nextSave
        · rw [hi, Function.update_self] at hc'
          obtain rfl := Option.some.inj hc'
          rw [hcall.phase]
          rfl
        · rw [Function.update_of_ne hi] at hc'
          exact hS.uncommitted hc'
    | commit save c reply now phase he hexecuted hsave _ _ _ _ hwritten =>
        -- the row that it has written would be there
        have hrow : s'.row c.nodeId = some c.state := by rw [hwritten, if_pos rfl]
        rw [hrows] at hrow
        obtain ⟨row, hrow, -⟩ := Option.bind_eq_some_iff.mp hrow
        exact (hS.not_committed hstate hP he hexecuted hsave hrow).elim
    | move save c phase hsave _ _ hcommitted hsaves =>
        rw [hsaves] at hc'
        by_cases hi : i = save
        · rw [hi, Function.update_self] at hc'
          obtain rfl := Option.some.inj hc'
          exact hcommitted.trans (hS.uncommitted hsave)
        · rw [Function.update_of_ne hi] at hc'
          exact hS.uncommitted hc'
    | restart _ hsaves =>
        rw [hsaves] at hc'
        obtain ⟨c, hc, hsame⟩ := Option.map_eq_some_iff.mp hc'
        have hold := hS.uncommitted hc
        split at hsame <;> subst hsame <;> exact hold

end StillInv

/-! ### Runs -/

/-- **Versions are earned** in every smooth run in which the first save after each load
has something to write; in one that has saved everything, only then.  And if no document
has been edited, the table is what it was: no save has committed, so no attachments have
been synced. -/
theorem versionsEarned (lex : Lexical) {nodes : NodeId → Option NodeRow}
    (hstate : ∀ n row, nodes n = some row → row.yjsState ≠ none) {es : List Event}
    (hsmooth : Along (step lex) (fun _ e s' => Smooth e s') (State.init nodes) es) :
    (Along (step lex) (fun s _ s' => FirstSaveChanges s s') (State.init nodes) es →
      Along (step lex) (fun s e _ => VersionEarned s e) (State.init nodes) es) ∧
    (∀ s', exec (step lex) (State.init nodes) es = some s' → s'.Saved →
      Along (step lex) (fun s e _ => VersionEarned s e) (State.init nodes) es →
      Along (step lex) (fun s _ s' => FirstSaveChanges s s') (State.init nodes) es) ∧
    (Along (step lex) (fun s _ s' => FirstSaveChanges s s') (State.init nodes) es →
      Along (step lex) (fun _ e _ => e.edits = false) (State.init nodes) es →
      ∀ s', exec (step lex) (State.init nodes) es = some s' →
        s'.nodes = nodes ∧ ∀ i c, s'.saves i = some c → c.phase.committed = false) := by
  have hearned : Along (step lex) (fun s _ s' => FirstSaveChanges s s') (State.init nodes) es →
      Along (step lex) (fun s e _ => VersionEarned s e) (State.init nodes) es := by
    intro hG
    refine along_of_invariant (I := fun s => FlowInv s ∧ EarnInv s) ?_
      ⟨flowInv_init nodes, earnInv_init nodes⟩ (hsmooth.and hG)
    rintro s e s' h ⟨hF, hE⟩ ⟨hsmooth, hG⟩
    have hF' := hF.step h hsmooth.2
    exact ⟨⟨hF', hE.step hF hF' h hG⟩, hE.versionEarned h⟩
  refine ⟨hearned, fun s' hes hsaved hP => ?_, fun hG hedits s' hes => ?_⟩
  · exact firstSaveChanges_of_earned (flowInv_init nodes) hes hsaved hsmooth hP
  · have hstill : Along (step lex) (fun _ _ s' => StillInv nodes s') (State.init nodes) es := by
      refine along_of_invariant (I := fun s => Inv s ∧ StillInv nodes s) ?_
        ⟨inv_init nodes, StillInv.init⟩ ((hearned hG).and hedits)
      rintro s e s' h ⟨hI, hS⟩ ⟨hP, hedits⟩
      have hS' := hS.step hI hstate hP h hedits
      exact ⟨⟨hI.step h, hS'⟩, hS'⟩
    have hlast : StillInv nodes s' := hstill.state StillInv.init hes
    exact ⟨hlast.rows, fun i c => hlast.uncommitted⟩

/-- A table with one node, whose row holds a state. -/
def savedNode (n : NodeId) : Option NodeRow :=
  if n = 1 then some ⟨some ⟨{(3, 0)}, ∅⟩, none, 4, 0, 7, none⟩ else none

theorem savedNode_state (n : NodeId) (row : NodeRow) (h : savedNode n = some row) :
    row.yjsState ≠ none := by
  unfold savedNode at h
  split at h
  · rw [← Option.some.inj h]
    exact Option.some_ne_none _
  · cases h

/-- The document is opened, edited, and saved. -/
def editedOnce : List Event :=
  openNode ++ editAndFlush ⟨{(3, 1)}, ∅⟩ 0 0 ++ flushSaved 0 0

theorem editedOnce_earned :
    (exec (step .plain) (State.init savedNode) editedOnce).isSome = true ∧
      Along (step .plain) (fun s e _ => VersionEarned s e) (State.init savedNode) editedOnce :=
  ⟨by decide +kernel,
    (versionsEarned .plain savedNode_state (show Along (step .plain)
      (fun _ e s' => Smooth e s') (State.init savedNode) editedOnce by decide +kernel)).1
      (by decide +kernel)⟩

/-- The document is opened and closed. -/
def openAndClose : List Event :=
  openNode ++ [.removeClient 1 5, .startTask 0, .redisReply .ok, .updateNodeRow 0 .ok 10,
    .attachmentsSynced 0 true, .continueFlush 0, .resumeTask 0]

/-- The row holds the document already, and its version goes from 4 to 5. -/
theorem openAndClose_counts :
    Along (step .plain) (fun _ e s' => Smooth e s' ∧ e.edits = false) (State.init savedNode)
        openAndClose ∧
      (exec (step .plain) (State.init savedNode) openAndClose).any (fun s =>
        (s.nodes 1).any fun row => row.version = 5) = true ∧
      ¬ Along (step .plain) (fun s e _ => VersionEarned s e) (State.init savedNode)
        openAndClose := by
  decide +kernel

end AideepWebsocket.DocManager
