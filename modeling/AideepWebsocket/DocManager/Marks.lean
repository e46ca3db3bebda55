import AideepWebsocket.DocManager.Invariant

/-!
# Marks and timers

Two things tell the manager that there is something left to do for a managed
document: the mark `dirtyForEmbed`, and a live save timer.  This module says what
a step does to them.

* `TimerInv` — the timers that an entry refers to are of its node, so that
  clearing the timers of one node leaves those of another alone;
* `Calm` — the steps that only add marks, and clear no save timer;
* `MarkStep` — the other steps: a save is scheduled, a save timer fires, a
  document is put or dropped, a flush starts, a flush resumes.
-/

namespace AideepWebsocket.DocManager

open Library

namespace Memory

variable {m m' m₁ m₂ : Memory}

/-! ### Timers -/

/-- Live timers have been set before, and those that a managed entry refers to
are of its node. -/
structure TimerInv (m : Memory) : Prop where
  live : ∀ {timer kind}, m.timers timer = some kind → timer < m.nextTimer
  saveSet : ∀ {n r timer}, m.docs n = some r → (m.heap r).saveTimer = some timer →
    timer < m.nextTimer
  idleSet : ∀ {n r timer}, m.docs n = some r → (m.heap r).idleTimer = some timer →
    timer < m.nextTimer
  save : ∀ {n r timer kind}, m.docs n = some r → (m.heap r).saveTimer = some timer →
    m.timers timer = some kind → kind = .save n
  idle : ∀ {n r timer kind}, m.docs n = some r → (m.heap r).idleTimer = some timer →
    m.timers timer = some kind → kind = .idle n

/-- Without documents and timers there is nothing to say. -/
theorem timerInv_of_none (hdocs : ∀ n, m.docs n = none) (htimers : ∀ timer, m.timers timer = none) :
    TimerInv m where
  live h := by simp [htimers] at h
  saveSet h := by simp [hdocs] at h
  idleSet h := by simp [hdocs] at h
  save h := by simp [hdocs] at h
  idle h := by simp [hdocs] at h

/-- One timer is cleared at most. -/
theorem clearTimeout_timers (m : Memory) (cleared : Option TimerId) (timer : TimerId) :
    (m.clearTimeout cleared).timers timer =
      if cleared = some timer then none else m.timers timer := by
  cases cleared with
  | none => simp [clearTimeout]
  | some t =>
      by_cases ht : t = timer
      · subst ht
        simp [clearTimeout]
      · simp [clearTimeout, ht, Function.update_of_ne (Ne.symm ht)]

@[simp] theorem clearTimeout_rest (m : Memory) (cleared : Option TimerId) :
    (m.clearTimeout cleared).docs = m.docs ∧ (m.clearTimeout cleared).heap = m.heap ∧
      (m.clearTimeout cleared).nextTimer = m.nextTimer ∧
      (m.clearTimeout cleared).nextRef = m.nextRef := by
  cases cleared <;> exact ⟨rfl, rfl, rfl, rfl⟩

/-- Timers are cleared and entries lose them, or are dropped. -/
theorem TimerInv.shrink (hT : TimerInv m)
    (hdocs : ∀ {n r}, m'.docs n = some r → m.docs n = some r)
    (hnext : m'.nextTimer = m.nextTimer)
    (htimers : ∀ {timer kind}, m'.timers timer = some kind → m.timers timer = some kind)
    (hsave : ∀ {r timer}, (m'.heap r).saveTimer = some timer →
      (m.heap r).saveTimer = some timer)
    (hidle : ∀ {r timer}, (m'.heap r).idleTimer = some timer →
      (m.heap r).idleTimer = some timer) : TimerInv m' where
  live h := hnext ▸ hT.live (htimers h)
  saveSet hr h := hnext ▸ hT.saveSet (hdocs hr) (hsave h)
  idleSet hr h := hnext ▸ hT.idleSet (hdocs hr) (hidle h)
  save hr h hlive := hT.save (hdocs hr) (hsave h) (htimers hlive)
  idle hr h hlive := hT.idle (hdocs hr) (hidle h) (htimers hlive)

/-- The entry at `r` is assigned to, and its timers are left alone. -/
theorem TimerInv.modify (hT : TimerInv m) (r : DocRef) {f : ManagedDoc → ManagedDoc}
    (hsave : ∀ d, (f d).saveTimer = d.saveTimer ∨ (f d).saveTimer = none)
    (hidle : ∀ d, (f d).idleTimer = d.idleTimer ∨ (f d).idleTimer = none) :
    TimerInv (m.modify r f) := by
  refine hT.shrink id rfl id ?_ ?_
  · intro q timer h
    by_cases hq : q = r
    · subst hq
      rcases hsave (m.heap q) with hsame | hnone
      · simpa [Memory.modify, hsame] using h
      · simp [Memory.modify, hnone] at h
    · simpa [Memory.modify, hq] using h
  · intro q timer h
    by_cases hq : q = r
    · subst hq
      rcases hidle (m.heap q) with hsame | hnone
      · simpa [Memory.modify, hsame] using h
      · simp [Memory.modify, hnone] at h
    · simpa [Memory.modify, hq] using h

/-- A timer that is gone fires for nobody. -/
theorem TimerInv.clearTimeout (hT : TimerInv m) (cleared : Option TimerId) :
    TimerInv (m.clearTimeout cleared) := by
  obtain ⟨hdocs, hheap, hnext, -⟩ := clearTimeout_rest m cleared
  refine hT.shrink (by rw [hdocs]; exact id) hnext ?_
    (by rw [hheap]; exact id) (by rw [hheap]; exact id)
  intro timer kind h
  rw [clearTimeout_timers] at h
  split at h
  · cases h
  · exact h

/-- A new timer, to which the entry of its node refers. -/
theorem TimerInv.arm (hT : TimerInv m)
    (hinj : ∀ {n n' r}, m.docs n = some r → m.docs n' = some r → n = n') {n : NodeId}
    {r : DocRef} (hr : m.docs n = some r) {timer : Timer} {f : ManagedDoc → ManagedDoc}
    (hf : (timer = .save n ∧ ∀ d, (f d).saveTimer = some m.nextTimer ∧
        (f d).idleTimer = d.idleTimer) ∨
      timer = .idle n ∧ ∀ d, (f d).saveTimer = d.saveTimer ∧
        (f d).idleTimer = some m.nextTimer) :
    TimerInv ((m.setTimeout timer).modify r f) := by
  have hother : ∀ {q}, q ≠ r → (((m.setTimeout timer).modify r f).heap q) = m.heap q :=
    fun hq => Function.update_of_ne hq ..
  have hself : ((m.setTimeout timer).modify r f).heap r = f (m.heap r) :=
    Function.update_self ..
  have hnew : ((m.setTimeout timer).modify r f).timers m.nextTimer = some timer :=
    Function.update_self ..
  have hold : ∀ {t}, t ≠ m.nextTimer →
      ((m.setTimeout timer).modify r f).timers t = m.timers t :=
    fun ht => Function.update_of_ne ht ..
  -- an entry refers to the new timer, or to one it referred to before
  have hsave : ∀ {n' q t}, m.docs n' = some q →
      (((m.setTimeout timer).modify r f).heap q).saveTimer = some t →
      (t = m.nextTimer ∧ n' = n ∧ timer = .save n) ∨
        (m.heap q).saveTimer = some t ∧ t < m.nextTimer := by
    intro n' q t hq ht
    by_cases hqr : q = r
    · subst hqr
      rw [hself] at ht
      rcases hf with ⟨hkind, hf⟩ | ⟨-, hf⟩
      · rw [(hf _).1] at ht
        exact Or.inl ⟨(Option.some.inj ht).symm, hinj hq hr, hkind⟩
      · rw [(hf _).1] at ht
        exact Or.inr ⟨ht, hT.saveSet hq ht⟩
    · rw [hother hqr] at ht
      exact Or.inr ⟨ht, hT.saveSet hq ht⟩
  have hidle : ∀ {n' q t}, m.docs n' = some q →
      (((m.setTimeout timer).modify r f).heap q).idleTimer = some t →
      (t = m.nextTimer ∧ n' = n ∧ timer = .idle n) ∨
        (m.heap q).idleTimer = some t ∧ t < m.nextTimer := by
    intro n' q t hq ht
    by_cases hqr : q = r
    · subst hqr
      rw [hself] at ht
      rcases hf with ⟨-, hf⟩ | ⟨hkind, hf⟩
      · rw [(hf _).2] at ht
        exact Or.inr ⟨ht, hT.idleSet hq ht⟩
      · rw [(hf _).2] at ht
        exact Or.inl ⟨(Option.some.inj ht).symm, hinj hq hr, hkind⟩
    · rw [hother hqr] at ht
      exact Or.inr ⟨ht, hT.idleSet hq ht⟩
  constructor
  · intro t kind ht
    by_cases heq : t = m.nextTimer
    · rw [heq]
      exact Nat.lt_succ_self _
    · rw [hold heq] at ht
      exact Nat.lt_succ_of_lt (hT.live ht)
  · intro n' q t hq ht
    rcases hsave hq ht with ⟨rfl, -, -⟩ | ⟨-, hlt⟩
    · exact Nat.lt_succ_self _
    · exact Nat.lt_succ_of_lt hlt
  · intro n' q t hq ht
    rcases hidle hq ht with ⟨rfl, -, -⟩ | ⟨-, hlt⟩
    · exact Nat.lt_succ_self _
    · exact Nat.lt_succ_of_lt hlt
  · intro n' q t kind hq ht hlive
    rcases hsave hq ht with ⟨rfl, rfl, rfl⟩ | ⟨ht, hlt⟩
    · rw [hnew] at hlive
      exact (Option.some.inj hlive).symm
    · rw [hold hlt.ne] at hlive
      exact hT.save hq ht hlive
  · intro n' q t kind hq ht hlive
    rcases hidle hq ht with ⟨rfl, rfl, rfl⟩ | ⟨ht, hlt⟩
    · rw [hnew] at hlive
      exact (Option.some.inj hlive).symm
    · rw [hold hlt.ne] at hlive
      exact hT.idle hq ht hlive

/-- A document that has been loaded has no timer. -/
theorem TimerInv.put (hT : TimerInv m) (hlt : ∀ {n r}, m.docs n = some r → r < m.nextRef)
    (n : NodeId) (doc : YDoc) (ws : WorkspaceId) :
    TimerInv (m.put n (ManagedDoc.loaded doc ws)) := by
  -- a managed entry is an old one, or refers to no timer
  have hentry : ∀ {n' q}, (m.put n (ManagedDoc.loaded doc ws)).docs n' = some q →
      (m.docs n' = some q ∧ (m.put n (ManagedDoc.loaded doc ws)).heap q = m.heap q) ∨
        (m.put n (ManagedDoc.loaded doc ws)).heap q = ManagedDoc.loaded doc ws := by
    intro n' q hq
    by_cases hn : n' = n
    · subst hn
      obtain rfl : m.nextRef = q := by simpa [Memory.put] using hq
      exact Or.inr (Function.update_self ..)
    · have hold : m.docs n' = some q := by simpa [Memory.put, hn] using hq
      exact Or.inl ⟨hold, Function.update_of_ne (hlt hold).ne ..⟩
  constructor
  · exact hT.live
  · intro n' q t hq ht
    rcases hentry hq with ⟨hold, heq⟩ | heq
    · rw [heq] at ht
      exact hT.saveSet hold ht
    · rw [heq] at ht
      cases ht
  · intro n' q t hq ht
    rcases hentry hq with ⟨hold, heq⟩ | heq
    · rw [heq] at ht
      exact hT.idleSet hold ht
    · rw [heq] at ht
      cases ht
  · intro n' q t kind hq ht hlive
    rcases hentry hq with ⟨hold, heq⟩ | heq
    · rw [heq] at ht
      exact hT.save hold ht hlive
    · rw [heq] at ht
      cases ht
  · intro n' q t kind hq ht hlive
    rcases hentry hq with ⟨hold, heq⟩ | heq
    · rw [heq] at ht
      exact hT.idle hold ht hlive
    · rw [heq] at ht
      cases ht

/-! ### Marks -/

/-- The entry is marked as edited, by a known user. -/
def Marked (m : Memory) (r : DocRef) : Prop :=
  (m.heap r).dirtyForEmbed = true ∧ (m.heap r).lastEditorUserId ≠ none

instance (m : Memory) (r : DocRef) : Decidable (m.Marked r) :=
  inferInstanceAs (Decidable (_ ∧ _))

/-- Marks are only added, and no save timer is cleared. -/
structure Calm (m m' : Memory) : Prop where
  docs : m'.docs = m.docs
  timerInv : TimerInv m'
  marked : ∀ {r}, m.Marked r → m'.Marked r
  timers : ∀ {timer n}, m.timers timer = some (.save n) → m'.timers timer = some (.save n)

/-- Nothing has been done. -/
theorem Calm.refl (hT : TimerInv m) : Calm m m := ⟨rfl, hT, id, id⟩

/-- Two such changes make one. -/
theorem Calm.trans (h : Calm m m₁) (k : Calm m₁ m₂) : Calm m m₂ :=
  ⟨k.docs.trans h.docs, k.timerInv, k.marked ∘ h.marked, k.timers ∘ h.timers⟩

/-- A change that leaves the timers and the marks of a document alone. -/
theorem calm_modify (hT : TimerInv m) (r : DocRef) {f : ManagedDoc → ManagedDoc}
    (hsave : ∀ d, (f d).saveTimer = d.saveTimer)
    (hidle : ∀ d, (f d).idleTimer = d.idleTimer ∨ (f d).idleTimer = none)
    (hdirty : ∀ d, d.dirtyForEmbed = true → (f d).dirtyForEmbed = true)
    (heditor : ∀ d, d.lastEditorUserId ≠ none → (f d).lastEditorUserId ≠ none) :
    Calm m (m.modify r f) := by
  refine ⟨rfl, hT.modify r (fun d => Or.inl (hsave d)) hidle, ?_, id⟩
  intro q hq
  by_cases hqr : q = r
  · subst hqr
    exact ⟨by simpa [modify] using hdirty _ hq.1, by simpa [modify] using heditor _ hq.2⟩
  · simpa [Marked, modify, hqr] using hq

/-- Clearing a timer that is no save timer. -/
theorem calm_clearTimeout (hT : TimerInv m) {cleared : Option TimerId}
    (h : ∀ timer n, cleared = some timer → m.timers timer ≠ some (.save n)) :
    Calm m (m.clearTimeout cleared) := by
  obtain ⟨hdocs, hheap, -, -⟩ := clearTimeout_rest m cleared
  refine ⟨hdocs, hT.clearTimeout cleared, ?_, ?_⟩
  · intro r hr
    unfold Marked
    rw [hheap]
    exact hr
  · intro timer n htimer
    rw [clearTimeout_timers, if_neg fun heq => h timer n heq htimer]
    exact htimer

/-- The idle timer is no save timer. -/
theorem calm_cancelIdle (hT : TimerInv m) {n : NodeId} {r : DocRef} (hr : m.docs n = some r) :
    Calm m (m.cancelIdle r) := by
  unfold cancelIdle
  split
  · exact .refl hT
  · next timer htimer =>
      have hclear : Calm m (m.clearTimeout (some timer)) := by
        refine calm_clearTimeout hT fun t n' ht hlive => ?_
        obtain rfl := Option.some.inj ht
        cases hT.idle hr htimer hlive
      exact hclear.trans (calm_modify hclear.timerInv r (fun _ => rfl) (fun _ => Or.inr rfl)
        (fun _ h => h) (fun _ h => h))

/-- `setTimeout` with the idle timer of an entry. -/
theorem calm_armIdle (hT : TimerInv m)
    (hinj : ∀ {n n' r}, m.docs n = some r → m.docs n' = some r → n = n') {n : NodeId}
    {r : DocRef} (hr : m.docs n = some r) :
    Calm m ((m.setTimeout (.idle n)).modify r fun d => { d with idleTimer := some m.nextTimer }) := by
  refine ⟨rfl, hT.arm hinj hr (Or.inr ⟨rfl, fun _ => ⟨rfl, rfl⟩⟩), ?_, ?_⟩
  · intro q hq
    by_cases hqr : q = r
    · subst hqr
      simpa [Marked, modify, setTimeout] using hq
    · simpa [Marked, modify, setTimeout, hqr] using hq
  · intro timer n' htimer
    exact (Function.update_of_ne (hT.live htimer).ne ..).trans htimer

/-- The start of a flush: the save timer of the entry is cleared. -/
def startFlush (m : Memory) (r : DocRef) : Memory :=
  (m.clearTimeout (m.heap r).saveTimer).modify r fun d => { d with saveTimer := none }

/-- The skip branch of a flush clears the mark. -/
def clearMark (m : Memory) (r : DocRef) : Memory :=
  m.modify r fun d => { d with dirtyForEmbed := false }

/-- A flush that starts clears one save timer. -/
theorem TimerInv.startFlush (hT : TimerInv m) (r : DocRef) : TimerInv (m.startFlush r) :=
  (hT.clearTimeout _).modify r (fun _ => Or.inr rfl) fun _ => Or.inl rfl

@[simp] theorem docs_startFlush (m : Memory) (r : DocRef) : (m.startFlush r).docs = m.docs :=
  (clearTimeout_rest m _).1

theorem TimerInv.clearMark (hT : TimerInv m) (r : DocRef) : TimerInv (m.clearMark r) :=
  hT.modify r (fun _ => Or.inl rfl) fun _ => Or.inl rfl

/-- It does not clear the mark of an edit. -/
theorem marked_startFlush {r q : DocRef} (h : m.Marked q) : (m.startFlush r).Marked q := by
  obtain ⟨-, hheap, -, -⟩ := clearTimeout_rest m (m.heap r).saveTimer
  by_cases hqr : q = r
  · subst hqr
    simpa [Memory.startFlush, Marked, modify, hheap] using h
  · simpa [Memory.startFlush, Marked, modify, hheap, hqr] using h

/-- Clearing the mark of one document leaves those of the others. -/
theorem marked_clearMark {r q : DocRef} (hqr : q ≠ r) (h : m.Marked q) :
    (m.clearMark r).Marked q := by
  simpa [Memory.clearMark, Marked, modify, hqr] using h

/-- A flush clears save timers of its own node only. -/
theorem timers_startFlush (hT : TimerInv m) {n n' : NodeId} {r : DocRef}
    (hr : m.docs n' = some r) (hn : n ≠ n') {timer : TimerId}
    (h : m.timers timer = some (.save n)) : (m.startFlush r).timers timer = some (.save n) := by
  show (m.clearTimeout (m.heap r).saveTimer).timers timer = some (.save n)
  rw [clearTimeout_timers, if_neg]
  · exact h
  · intro hsave
    exact hn (Timer.save.inj (hT.save hr hsave h))

/-- The debounce replaces the timer before it. -/
theorem TimerInv.scheduleSave (hT : TimerInv m)
    (hinj : ∀ {n n' r}, m.docs n = some r → m.docs n' = some r → n = n') (n : NodeId)
    (userId : Option UserId) : TimerInv (m.scheduleSave n userId) := by
  unfold Memory.scheduleSave
  cases hr : m.docs n with
  | none => exact hT
  | some r =>
      obtain ⟨hdocs, hheap, hnext, -⟩ := clearTimeout_rest m (m.heap r).saveTimer
      have hcleared := hT.clearTimeout (m.heap r).saveTimer
      refine hcleared.arm (by rw [hdocs]; exact hinj) (by rw [hdocs]; exact hr)
        (Or.inl ⟨rfl, fun d => ⟨?_, rfl⟩⟩)
      rw [hnext]

/-- What is left of the save timers of the other nodes. -/
theorem timers_scheduleSave (hT : TimerInv m) {n n' : NodeId} {userId : Option UserId}
    (hn : n ≠ n') {timer : TimerId} (h : m.timers timer = some (.save n)) :
    (m.scheduleSave n' userId).timers timer = some (.save n) := by
  unfold Memory.scheduleSave
  cases hr : m.docs n' with
  | none => exact h
  | some r =>
      obtain ⟨-, -, hnext, -⟩ := clearTimeout_rest m (m.heap r).saveTimer
      show Function.update (m.clearTimeout (m.heap r).saveTimer).timers
        (m.clearTimeout (m.heap r).saveTimer).nextTimer (some (.save n')) timer = _
      rw [hnext, Function.update_of_ne (hT.live h).ne, clearTimeout_timers, if_neg]
      · exact h
      · intro hsave
        exact hn (Timer.save.inj (hT.save hr hsave h))

/-- Scheduling a save marks, and never clears. -/
theorem marked_scheduleSave {n : NodeId} {userId : Option UserId} {q : DocRef}
    (h : m.Marked q) : (m.scheduleSave n userId).Marked q := by
  unfold Memory.scheduleSave
  cases m.docs n with
  | none => exact h
  | some r =>
      obtain ⟨-, hheap, -, -⟩ := clearTimeout_rest m (m.heap r).saveTimer
      by_cases hqr : q = r
      · subst hqr
        refine ⟨by simp [modify, setTimeout], ?_⟩
        cases userId with
        | none => simpa [modify, setTimeout, hheap] using h.2
        | some u => simp [modify, setTimeout]
      · simpa [Marked, modify, setTimeout, hheap, hqr] using h

/-- The timers of a document go with it. -/
theorem TimerInv.drop (hT : TimerInv m) (n : NodeId) : TimerInv (m.drop n) := by
  unfold Memory.drop
  cases m.docs n with
  | none => exact hT
  | some r =>
      have hcleared := (hT.clearTimeout (m.heap r).saveTimer).clearTimeout (m.heap r).idleTimer
      refine hcleared.shrink (fun {n' q} hq => ?_) rfl id id id
      by_cases hn : n' = n
      · subst hn
        simp at hq
      · simpa [hn] using hq

/-- Dropping a node clears the timers of that node only. -/
theorem timers_drop (hT : TimerInv m) {n n' : NodeId} (hn : n ≠ n') {timer : TimerId}
    (h : m.timers timer = some (.save n)) : (m.drop n').timers timer = some (.save n) := by
  unfold Memory.drop
  cases hr : m.docs n' with
  | none => exact h
  | some r =>
      show ((m.clearTimeout (m.heap r).saveTimer).clearTimeout (m.heap r).idleTimer).timers timer
        = some (.save n)
      rw [clearTimeout_timers, if_neg, clearTimeout_timers, if_neg]
      · exact h
      · intro hsave
        exact hn (Timer.save.inj (hT.save hr hsave h))
      · intro hidle
        cases hT.idle hr hidle h

theorem drop_rest (m : Memory) (n : NodeId) :
    (m.drop n).docs n = none ∧ (m.drop n).heap = m.heap := by
  unfold Memory.drop
  cases hr : m.docs n with
  | none => exact ⟨hr, rfl⟩
  | some r =>
      obtain ⟨-, hheap, -, -⟩ := clearTimeout_rest m (m.heap r).saveTimer
      obtain ⟨-, hheap', -, -⟩ :=
        clearTimeout_rest (m.clearTimeout (m.heap r).saveTimer) (m.heap r).idleTimer
      exact ⟨Function.update_self .., hheap'.trans hheap⟩

end Memory

/-! ### One step -/

variable {lex : Lexical} {s s' : State} {e : Event}

/-- What a step does to marks and timers. -/
inductive MarkStep (s : State) (e : Event) (s' : State) : Prop
  | calm (hcalm : s.mem.Calm s'.mem) (he : ∀ t clientId, e ≠ .resumeAppend t clientId := by simp)
  /-- An append ends without a flush: it has not edited a document, or finds no
  entry to mark. -/
  | appendEnded (t : TaskId) (entry : ChainTask NodeId Task)
      (he : ∃ clientId, e = .resumeAppend t clientId) (htask : s.queue.task t = some entry)
      (hcalm : s.mem.Calm s'.mem)
      (hnone : s.mem.docs entry.key = none ∨
        ∃ entry', s'.queue.task t = some entry' ∧ entry'.payload.update = entry.payload.update)
  | scheduleSave (n : NodeId) (userId : Option UserId) (he : e = .scheduleSave n userId)
      (hmem : s'.mem = s.mem.scheduleSave n userId)
  | drop (m : Memory) (n : NodeId) (hcalm : s.mem.Calm m) (hmem : s'.mem = m.drop n)
      (he : ∀ t clientId, e ≠ .resumeAppend t clientId := by simp)
  | gone (hinv : s'.mem.TimerInv) (hdocs : ∀ n, s'.mem.docs n = none)
      (he : ∀ t clientId, e ≠ .resumeAppend t clientId := by simp)
  | fired (timer : TimerId) (n : NodeId) (htimer : s.mem.timers timer = some (.save n))
      (hmem : s'.mem = s.mem.clearTimeout (some timer))
      (hqueue : s'.queue = (s.flushDoc n .saveTimer).queue)
      (he : ∀ t clientId, e ≠ .resumeAppend t clientId := by simp)
  | put (n : NodeId) (doc : YDoc) (ws : WorkspaceId)
      (hmem : s'.mem = s.mem.put n (ManagedDoc.loaded doc ws))
      (he : ∀ t clientId, e ≠ .resumeAppend t clientId := by simp)
  /-- A flush starts; an append has edited and marked the document before. -/
  | flush (t : TaskId) (entry : ChainTask NodeId Task) (r : DocRef) (m : Memory)
      (he : e = .startTask t ∨ ∃ clientId, e = .resumeAppend t clientId)
      (htask : s.queue.task t = some entry)
      (hwaiting : entry.payload.phase = .queued ∨ ∃ await, entry.payload.phase = .loadingDoc await)
      (hbegun : ∃ entry', s'.queue.task t = some entry' ∧ entry'.key = entry.key ∧
        entry'.payload.captured ≠ none) (hcalm : s.mem.Calm m)
      (hdocs : m.docs entry.key = some r)
      (hmark : (∃ clientId, e = .resumeAppend t clientId) → m.Marked r)
      (hmem : s'.mem =
        if (m.heap r).unchanged then (m.startFlush r).clearMark r else m.startFlush r)
      (hskip : (m.heap r).unchanged = true → ∃ entry' persisted,
        s'.queue.task t = some entry' ∧ entry'.key = entry.key ∧
          entry'.payload.phase = .refreshing r persisted none)
  /-- A flush resumes after its save. -/
  | saved (t : TaskId) (entry : ChainTask NodeId Task) (r : DocRef) (save : SaveId)
      (sv : StateVector) (persisted : Persisted) (he : e = .continueFlush t)
      (htask : s.queue.task t = some entry)
      (hphase : entry.payload.phase = .saving r save sv (some true) none)
      (hsave : (s.saves save).map SaveCall.phase = some (.resolved persisted))
      (hinv : s'.mem.TimerInv) (hdocs : s'.mem.docs = s.mem.docs)
      (htimers : s'.mem.timers = s.mem.timers)
      (hmarked : ∀ q ≠ r, s.mem.Marked q → s'.mem.Marked q)

private theorem MarkStep.of_mem (hT : s.mem.TimerInv) (h : s'.mem = s.mem)
    (he : ∀ t clientId, e ≠ .resumeAppend t clientId := by simp) : MarkStep s e s' :=
  .calm (by rw [h]; exact .refl hT) he

/-- What a flush does to the memory when it starts. -/
theorem mem_flushDocLocked (s : State) (t : TaskId) (x : Task) {n : NodeId} {r : DocRef}
    (hr : s.mem.docs n = some r) (knownMarkdown : Option String) :
    (s.flushDocLocked lex t x n knownMarkdown).mem =
      if (s.mem.heap r).unchanged then (s.mem.startFlush r).clearMark r
      else s.mem.startFlush r := by
  unfold State.flushDocLocked
  rw [hr]
  dsimp only
  split
  · rfl
  · split
    · rfl
    · split <;> rfl

/-- The task of a flush has captured a state, and refreshes the cache if the
document is unchanged. -/
private theorem task_flushDocLocked (lex : Lexical) (s : State) {t : TaskId} (x : Task)
    {entry : ChainTask NodeId Task} {r : DocRef} (htask : s.queue.task t = some entry)
    (hcan : ∀ p : Task, p.stage ≠ .queued → s.queue.CanAdvance entry p)
    (hr : s.mem.docs entry.key = some r) (knownMarkdown : Option String) :
    ∃ entry', (s.flushDocLocked lex t x entry.key knownMarkdown).queue.task t = some entry' ∧
      entry'.key = entry.key ∧ entry'.payload.captured ≠ none ∧
      ((s.mem.heap r).unchanged = true →
        ∃ persisted, entry'.payload.phase = .refreshing r persisted none) := by
  unfold State.flushDocLocked
  rw [hr]
  have hadvance : ∀ p : Task, p.stage ≠ .queued →
      (s.queue.advance t p).task t = some { entry with payload := p } :=
    fun p hp => PromiseChain.advance_task_self htask (hcan p hp)
  dsimp only
  split
  · exact ⟨_, hadvance _ (by simp [Phase.stage]), rfl, by simp, fun _ => ⟨_, rfl⟩⟩
  · next hchanged =>
      have hnot : (s.mem.heap r).unchanged = true → False := hchanged
      split
      · exact ⟨_, hadvance _ (by simp [Task.stage, Phase.stage]), rfl, by simp,
          fun h => (hnot h).elim⟩
      · split
        · exact ⟨_, hadvance _ (by simp [Task.stage, Phase.stage]), rfl, by simp,
            fun h => (hnot h).elim⟩
        · exact ⟨_, hadvance _ (by simp [Phase.stage]), rfl, by simp, fun h => (hnot h).elim⟩

/-- A flush starts from the memory of `s₁`. -/
private theorem marks_flush {s₁ : State} {t : TaskId} {x : Task} {entry : ChainTask NodeId Task}
    {r : DocRef} {knownMarkdown : Option String}
    (he : e = .startTask t ∨ ∃ clientId, e = .resumeAppend t clientId)
    (htask : s.queue.task t = some entry)
    (hwaiting : entry.payload.phase = .queued ∨ ∃ await, entry.payload.phase = .loadingDoc await)
    (hqueue : s₁.queue = s.queue) (hcalm : s.mem.Calm s₁.mem)
    (hr : s₁.mem.docs entry.key = some r)
    (hmark : (∃ clientId, e = .resumeAppend t clientId) → s₁.mem.Marked r)
    (hcan : ∀ p : Task, p.stage ≠ .queued → s.queue.CanAdvance entry p) :
    MarkStep s e (s₁.flushDocLocked lex t x entry.key knownMarkdown) := by
  have htask₁ := htask
  rw [← hqueue] at htask₁ hcan
  obtain ⟨entry', htask', hkey, hcaptured, hskip⟩ :=
    task_flushDocLocked lex s₁ x htask₁ hcan hr knownMarkdown
  refine .flush t entry r s₁.mem he htask hwaiting ⟨entry', htask', hkey, hcaptured⟩ hcalm hr
    hmark (mem_flushDocLocked s₁ t x hr knownMarkdown) fun hunchanged => ?_
  obtain ⟨persisted, hphase⟩ := hskip hunchanged
  exact ⟨entry', persisted, htask', hkey, hphase⟩

/-- A task that starts may start its flush. -/
private theorem marks_startTask {t : TaskId} (hT : s.mem.TimerInv)
    (h : s.startTask lex t = some s') : MarkStep s (.startTask t) s' := by
  obtain ⟨entry, htask, hphase, hready, hcase⟩ := State.startTask_cases s h
  rcases hcase with ⟨caller, -, rfl⟩ | ⟨ws, markdown, userId, -, rfl⟩
  · cases hr : s.mem.docs entry.key with
    | none =>
        refine .of_mem hT ?_
        rw [State.flushDocLocked, hr]
        rfl
    | some r =>
        refine marks_flush (Or.inl rfl) htask (Or.inl hphase) rfl (.refl hT) hr ?_
          fun p hp => ?_
        · rintro ⟨clientId, he⟩
          cases he
        · exact PromiseChain.canAdvance_of_ready
            (by simp [Task.stage, hphase, Phase.stage]) hready hp
  · show MarkStep s _ _
    unfold State.getOrCreateDoc
    split
    · next r hr =>
        exact .calm (Memory.calm_cancelIdle hT hr)
    · split
      · exact .of_mem hT rfl
      · exact .of_mem hT rfl

/-- An append marks what it has applied, and starts its flush. -/
private theorem marks_resumeAppend {t : TaskId} {clientId : ClientId} (hT : s.mem.TimerInv)
    (h : s.resumeAppend lex t clientId = some s') :
    MarkStep s (.resumeAppend t clientId) s' := by
  obtain ⟨entry, await, ws, markdown, userId, htask, hphase, -, hcase⟩ :=
    State.resumeAppend_cases s h
  have hcan : ∀ p : Task, p.stage ≠ .queued → s.queue.CanAdvance entry p := fun p hp =>
    PromiseChain.canAdvance_of_running (by simp [Task.stage, hphase, Phase.stage]) hp
  rcases hcase with ⟨failure, -, rfl⟩ | ⟨r, result, -, -, hcase⟩
  · have hcalm : s.mem.Calm (s.finishAwait entry.key await).mem := by
      rw [(State.finishAwait_frame s entry.key await).1]
      exact .refl hT
    refine .appendEnded t entry ⟨clientId, rfl⟩ htask hcalm (Or.inr
      ⟨{ entry with payload := { entry.payload with phase := .settled (.error failure) } },
        ?_, rfl⟩)
    show ((s.finishAwait entry.key await).queue.advance t _).task t = _
    rw [(State.finishAwait_frame s entry.key await).2.1]
    exact PromiseChain.advance_task_self htask (hcan _ (by simp [Phase.stage]))
  · have hedit : s.mem.Calm (s.mem.modify r fun d =>
        { d with doc := applyUpdate (s.mem.heap r).doc result.added }) :=
      Memory.calm_modify hT r (fun _ => rfl) (fun _ => Or.inl rfl) (fun _ h => h) (fun _ h => h)
    rcases hcase with ⟨hnone, rfl⟩ | ⟨r', hr', rfl⟩
    · exact .appendEnded t entry ⟨clientId, rfl⟩ htask hedit (Or.inl hnone)
    · have hmark := hedit.trans (Memory.calm_modify hedit.timerInv r'
        (f := fun d => { d with dirtyForEmbed := true, lastEditorUserId := some userId })
        (fun _ => rfl) (fun _ => Or.inl rfl) (fun _ _ => rfl) (fun _ _ => by simp))
      exact marks_flush (Or.inr ⟨clientId, rfl⟩) htask (Or.inr ⟨await, hphase⟩) (by simp) hmark
        hr' (fun _ => ⟨by simp [Memory.modify], by simp [Memory.modify]⟩) hcan

/-- A flush that has been stored clears the mark. -/
private theorem marks_continueFlush {t : TaskId} (hT : s.mem.TimerInv)
    (h : s.continueFlush t = some s') : MarkStep s (.continueFlush t) s' := by
  obtain ⟨entry, htask, ⟨result, rfl, -⟩ | ⟨r, save, sv, persisted, hphase, hsave, hcase⟩⟩ :=
    State.continueFlush_cases s h
  · exact .of_mem hT rfl
  · -- the record of the save leaves marks and timers alone
    have hrecord : s.mem.Calm (s.mem.modify r fun d =>
        { d with lastSavedStateVector := some sv, lastPersisted := some persisted }) :=
      Memory.calm_modify hT r (fun _ => rfl) (fun _ => Or.inl rfl) (fun _ h => h) (fun _ h => h)
    rcases hcase with ⟨-, rfl⟩ | ⟨userId, rfl⟩
    · exact .saved t entry r save sv persisted rfl htask hphase hsave
        hrecord.timerInv rfl rfl fun q _ hmarked => hrecord.marked hmarked
    · refine .saved t entry r save sv persisted rfl htask hphase hsave
        (hrecord.timerInv.clearMark r) rfl rfl ?_
      intro q hq hmarked
      exact Memory.marked_clearMark hq (hrecord.marked hmarked)

/-- The caller of a flush may drop the document. -/
private theorem marks_resumeTask {t : TaskId} (hT : s.mem.TimerInv)
    (h : s.resumeTask t = some s') : MarkStep s (.resumeTask t) s' := by
  obtain ⟨entry, -, hmem | ⟨-, hmem⟩⟩ := State.mem_resumeTask s h
  · exact .of_mem hT hmem
  · exact .drop s.mem entry.key (.refl hT) hmem

/-- **Marks and timers**, one step. -/
theorem step_marks (hI : Inv s) (hT : s.mem.TimerInv) (h : step lex s e = some s') :
    MarkStep s e s' := by
  have hcalm : ∀ r f, (∀ d : ManagedDoc, (f d).saveTimer = d.saveTimer ∧
      (f d).idleTimer = d.idleTimer ∧ (f d).dirtyForEmbed = d.dirtyForEmbed ∧
        (f d).lastEditorUserId = d.lastEditorUserId) → s.mem.Calm (s.mem.modify r f) :=
    fun r f hf => Memory.calm_modify hT r (fun d => (hf d).1) (fun d => Or.inl (hf d).2.1)
      (fun d hd => by rw [(hf d).2.2.1]; exact hd) (fun d hd => by rw [(hf d).2.2.2]; exact hd)
  cases e with
  | getOrCreateDoc n ws =>
      cases h
      show MarkStep s _ ((s.getOrCreateDoc n ws).1.addGet n (s.getOrCreateDoc n ws).2)
      unfold State.getOrCreateDoc
      split
      · next r hr => exact .calm (Memory.calm_cancelIdle hT hr)
      · split
        · exact .of_mem hT rfl
        · exact .of_mem hT rfl
  | addClient n socket =>
      cases h
      cases hr : s.mem.docs n with
      | none => exact .of_mem hT (by simp [Memory.addClient, hr])
      | some r =>
          refine .calm ?_
          rw [show s.mem.addClient n socket = s.mem.modify r fun d =>
            { d with clients := insert socket d.clients } by simp [Memory.addClient, hr]]
          exact hcalm r (fun d => { d with clients := insert socket d.clients })
            fun _ => ⟨rfl, rfl, rfl, rfl⟩
  | applyToDoc n u =>
      cases h
      cases hr : s.mem.docs n with
      | none => exact .of_mem hT (by simp [Memory.applyToDoc, hr])
      | some r =>
          refine .calm ?_
          rw [show s.mem.applyToDoc n u = s.mem.modify r fun d =>
            { d with doc := applyUpdate d.doc u } by simp [Memory.applyToDoc, hr]]
          exact hcalm r (fun d => { d with doc := applyUpdate d.doc u })
            fun _ => ⟨rfl, rfl, rfl, rfl⟩
  | removeClient n socket =>
      cases h
      unfold State.removeClient
      cases hr : s.mem.docs n with
      | none => exact .of_mem hT rfl
      | some r =>
          have hleave : s.mem.Calm (s.mem.modify r fun d =>
              { d with clients := d.clients.erase socket }) :=
            hcalm r _ fun _ => ⟨rfl, rfl, rfl, rfl⟩
          dsimp only
          split
          · exact .calm (hleave.trans (Memory.calm_armIdle hleave.timerInv
              (by rw [hleave.docs]; exact hI.docs_inj) (by rw [hleave.docs]; exact hr)))
          · exact .calm hleave
  | scheduleSave n userId =>
      cases h
      exact .scheduleSave n userId rfl rfl
  | cleanupNode n =>
      cases h
      exact .drop s.mem n (.refl hT) rfl
  | finishDestroy =>
      obtain ⟨call, -, rfl⟩ := State.finishDestroy_cases s h
      exact .gone (hT.shrink (fun hq => by cases hq) rfl id id id) fun _ => rfl
  | fireTimer timer =>
      obtain ⟨n, ⟨htimer, rfl⟩ | ⟨htimer, rfl⟩⟩ := State.fireTimer_cases s h
      · exact .fired timer n htimer rfl rfl
      · have hclear : s.mem.Calm (s.mem.clearTimeout (some timer)) := by
          refine Memory.calm_clearTimeout hT fun t n' ht => ?_
          obtain rfl := Option.some.inj ht
          rw [htimer]
          simp
        rcases (s.mem.clearTimeout (some timer)).evictDoc_cases n with ⟨hkept, -⟩ | ⟨hdrop, -⟩
        · exact .calm (hclear.trans (by rw [hkept]; exact .refl hclear.timerInv))
        · exact .drop _ n hclear hdrop
  | continueLoad l =>
      obtain ⟨x, -, ⟨-, rfl⟩ | ⟨state, ws, rfl, -⟩⟩ := State.continueLoad_cases s h
      · exact .of_mem hT rfl
      · exact .put _ _ _ rfl
  | startTask t => exact marks_startTask hT h
  | resumeAppend t clientId => exact marks_resumeAppend hT h
  | continueFlush t => exact marks_continueFlush hT h
  | resumeTask t => exact marks_resumeTask hT h
  | restart =>
      cases h
      exact .gone (Memory.timerInv_of_none (fun _ => rfl) fun _ => rfl) fun _ => rfl
  | _ => exact .of_mem hT (mem_of_keepsMemory h trivial)

/-- A mark that a resumed flush finds becomes an embedding job. -/
theorem embedding_of_continueFlush {t : TaskId} (h : s.continueFlush t = some s')
    {entry : ChainTask NodeId Task} (htask : s.queue.task t = some entry) {r : DocRef}
    {save : SaveId} {sv : StateVector}
    (hphase : entry.payload.phase = .saving r save sv (some true) none) (hmarked : s.mem.Marked r) :
    ∃ entry' persisted job, s'.queue.task t = some entry' ∧ entry'.key = entry.key ∧
      entry'.payload.phase = .embedding r persisted job := by
  obtain ⟨entry₁, htask₁, ⟨result, -, hcase⟩ | ⟨q, save', sv', persisted, hphase', -, hcase⟩⟩ :=
    State.continueFlush_cases s h
  · obtain rfl : entry = entry₁ := Option.some.inj (htask.symm.trans htask₁)
    rw [hphase] at hcase
    rcases hcase with ⟨_, _, hphase, -⟩ | ⟨_, _, hphase, -⟩ | ⟨_, _, _, _, _, hphase, -⟩ <;>
      cases hphase
  · obtain rfl : entry = entry₁ := Option.some.inj (htask.symm.trans htask₁)
    cases hphase.symm.trans hphase'
    rcases hcase with ⟨hnot, -⟩ | ⟨userId, rfl⟩
    · exact absurd (hnot hmarked.1) hmarked.2
    · exact ⟨_, persisted, _, PromiseChain.advance_task_self htask
        (PromiseChain.canAdvance_of_running (by simp [Task.stage, hphase, Phase.stage])
          (by simp [Phase.stage])), rfl, rfl⟩

/-- **Timers and documents know each other**, at every step. -/
theorem timerInv_of_step (hI : Inv s) (hT : s.mem.TimerInv) (h : step lex s e = some s') :
    s'.mem.TimerInv := by
  cases step_marks hI hT h with
  | calm hcalm _ => exact hcalm.timerInv
  | appendEnded t entry _ _ hcalm _ => exact hcalm.timerInv
  | scheduleSave n userId _ hmem =>
      rw [hmem]
      exact hT.scheduleSave hI.docs_inj n userId
  | drop m n hcalm hmem _ =>
      rw [hmem]
      exact hcalm.timerInv.drop n
  | gone hinv _ _ => exact hinv
  | fired timer n _ hmem _ _ =>
      rw [hmem]
      exact hT.clearTimeout _
  | put n doc ws hmem _ =>
      rw [hmem]
      exact hT.put hI.docs_lt n doc ws
  | flush t entry r m _ _ _ _ hcalm _ _ hmem _ =>
      rw [hmem]
      split
      · exact (hcalm.timerInv.startFlush r).clearMark r
      · exact hcalm.timerInv.startFlush r
  | saved t entry r save sv persisted _ _ _ _ hinv _ _ _ => exact hinv

end AideepWebsocket.DocManager
