import Mathlib.Order.Nat
import Mathlib.Tactic.ByContra

/-!
# A mutual-exclusion queue made of a chain of promises

The pattern: a map holds, for each key, the promise of the task submitted last.
A new task remembers that promise as its *previous* one, becomes the map's
entry, and runs once the previous promise has settled, whichever way it
settled.  When a task's own promise settles, its submitter removes the map's
entry if it is still that task's.

Nothing in the pattern names a lock holder.  That the tasks of a key exclude one
another follows from two facts about the map: an entry is the key's youngest
task, and a missing entry means that no task of the key is outstanding.

`PromiseChain K P stage` carries both as fields, for keys `K` and tasks whose
state is a value of `P`; `stage` projects that value to one of the three stages
a chained task goes through.  The operations `submit`, `advance`, `dropTail` and
`abort` are the only ways to build one, so a system whose state contains a
`PromiseChain` has the exclusion law (`running_unique`) and the submission order
(`settled_of_lt`) in every state, reachable or not.
-/

namespace AideepWebsocket.Library

universe u v

/-- Where a chained task stands: waiting for its predecessor, running, or
settled. -/
inductive Stage
  | queued
  | running
  | settled
  deriving DecidableEq

/-- A submitted task: its key, the promise that was the key's tail when it was
submitted, and its state. -/
structure ChainTask (K : Type u) (P : Type v) where
  key : K
  previous : Option ℕ
  payload : P

/-- The chained queue.  Tasks are numbered in the order of their submission. -/
structure PromiseChain (K : Type u) (P : Type v) (stage : P → Stage) where
  task : ℕ → Option (ChainTask K P)
  next : ℕ
  tail : K → Option ℕ
  lt_next : ∀ {i t}, task i = some t → i < next
  /-- The map's entry is a task of its key… -/
  tail_key : ∀ {k q}, tail k = some q → ∃ t, task q = some t ∧ t.key = k
  /-- …and the youngest one. -/
  le_tail : ∀ {k q i t}, tail k = some q → task i = some t → t.key = k → i ≤ q
  /-- A key without an entry has no outstanding task. -/
  settled_of_tail_none : ∀ {k i t}, tail k = none → task i = some t → t.key = k →
    stage t.payload = .settled
  previous_lt : ∀ {i t p}, task i = some t → t.previous = some p → p < i
  previous_key : ∀ {i t p}, task i = some t → t.previous = some p →
    ∃ t', task p = some t' ∧ t'.key = t.key
  /-- No task of the key was submitted between a task and its previous one. -/
  le_previous : ∀ {i t p j t'}, task i = some t → t.previous = some p →
    task j = some t' → t'.key = t.key → j < i → j ≤ p
  settled_of_previous_none : ∀ {i t j t'}, task i = some t → t.previous = none →
    task j = some t' → t'.key = t.key → j < i → stage t'.payload = .settled
  /-- A task that has left the queue has seen its previous one settle. -/
  previous_settled : ∀ {i t p t'}, task i = some t → stage t.payload ≠ .queued →
    t.previous = some p → task p = some t' → stage t'.payload = .settled

namespace PromiseChain

variable {K : Type u} {P : Type v} {stage : P → Stage}

/-! ### Exclusion and order -/

/-- **Submission order.**  A task that has left the queue finds every older task
of its key settled. -/
theorem settled_of_lt (c : PromiseChain K P stage) {i j : ℕ} {t t' : ChainTask K P}
    (ht : c.task i = some t) (hstarted : stage t.payload ≠ .queued)
    (ht' : c.task j = some t') (hkey : t'.key = t.key) (hlt : j < i) :
    stage t'.payload = .settled := by
  induction i using Nat.strongRecOn generalizing t with
  | ind i ih =>
      cases hprev : t.previous with
      | none => exact c.settled_of_previous_none ht hprev ht' hkey hlt
      | some p =>
          obtain ⟨tp, htp, hpkey⟩ := c.previous_key ht hprev
          have hsettled := c.previous_settled ht hstarted hprev htp
          rcases Nat.lt_or_eq_of_le (c.le_previous ht hprev ht' hkey hlt) with hjp | rfl
          · exact ih p (c.previous_lt ht hprev) htp (by rw [hsettled]; decide)
              (hkey.trans hpkey.symm) hjp
          · rw [htp] at ht'
            cases ht'
            exact hsettled

/-- **Mutual exclusion.**  At most one task of a key is running. -/
theorem running_unique (c : PromiseChain K P stage) {i j : ℕ} {t t' : ChainTask K P}
    (ht : c.task i = some t) (hrun : stage t.payload = .running)
    (ht' : c.task j = some t') (hrun' : stage t'.payload = .running)
    (hkey : t'.key = t.key) : i = j := by
  rcases lt_trichotomy i j with hlt | heq | hlt
  · have := c.settled_of_lt ht' (by rw [hrun']; decide) ht hkey.symm hlt
    rw [hrun] at this
    cases this
  · exact heq
  · have := c.settled_of_lt ht (by rw [hrun]; decide) ht' hkey hlt
    rw [hrun'] at this
    cases this

/-- A running task is older than no task of its key that has left the queue. -/
theorem le_of_running (c : PromiseChain K P stage) {i j : ℕ} {t t' : ChainTask K P}
    (ht : c.task i = some t) (hrun : stage t.payload = .running)
    (ht' : c.task j = some t') (hstarted : stage t'.payload ≠ .queued)
    (hkey : t'.key = t.key) : j ≤ i := by
  by_contra hlt
  have := c.settled_of_lt ht' hstarted ht hkey.symm (not_le.mp hlt)
  rw [hrun] at this
  cases this

/-- A queue is what it holds. -/
theorem ext_of_eq {c c' : PromiseChain K P stage} (htask : c'.task = c.task)
    (hnext : c'.next = c.next) (htail : c'.tail = c.tail) : c' = c := by
  cases c
  cases c'
  cases htask
  cases hnext
  cases htail
  rfl

/-! ### Operations -/

/-- The queue before any submission. -/
def empty : PromiseChain K P stage where
  task _ := none
  next := 0
  tail _ := none
  lt_next := by simp
  tail_key := by simp
  le_tail := by simp
  settled_of_tail_none := by simp
  previous_lt := by simp
  previous_key := by simp
  le_previous := by simp
  settled_of_previous_none := by simp
  previous_settled := by simp

instance : Inhabited (PromiseChain K P stage) := ⟨empty⟩

/-- The predecessor of a task has settled, or it had none. -/
def ready (c : PromiseChain K P stage) (t : ChainTask K P) : Bool :=
  match t.previous with
  | none => true
  | some p => (c.task p).all fun t' => stage t'.payload = .settled

theorem settled_of_ready {c : PromiseChain K P stage} {t t' : ChainTask K P} {p : ℕ}
    (h : c.ready t = true) (hprev : t.previous = some p) (hp : c.task p = some t') :
    stage t'.payload = .settled := by
  simpa [ready, hprev, hp] using h

/-- Everything before a task that is ready has settled. -/
theorem settled_of_lt_of_ready {c : PromiseChain K P stage} {i j : ℕ} {t t' : ChainTask K P}
    (ht : c.task i = some t) (hready : c.ready t = true) (ht' : c.task j = some t')
    (hkey : t'.key = t.key) (hlt : j < i) : stage t'.payload = .settled := by
  cases hprev : t.previous with
  | none => exact c.settled_of_previous_none ht hprev ht' hkey hlt
  | some q =>
      obtain ⟨tq, htq, hqkey⟩ := c.previous_key ht hprev
      have hq := settled_of_ready hready hprev htq
      rcases Nat.lt_or_eq_of_le (c.le_previous ht hprev ht' hkey hlt) with hjq | rfl
      · exact c.settled_of_lt htq (by rw [hq]; decide) ht' (hkey.trans hqkey.symm) hjq
      · rw [htq] at ht'
        cases ht'
        exact hq

/-- **Whom a task waits for**: the older tasks of its key, and nobody else. -/
theorem ready_iff {c : PromiseChain K P stage} {i : ℕ} {t : ChainTask K P}
    (ht : c.task i = some t) :
    c.ready t = true ↔ ∀ j t', j < i → c.task j = some t' → t'.key = t.key →
      stage t'.payload = .settled := by
  constructor
  · intro hready j t' hlt ht' hkey
    exact settled_of_lt_of_ready ht hready ht' hkey hlt
  · intro hall
    unfold ready
    cases hprev : t.previous with
    | none => rfl
    | some p =>
        obtain ⟨tp, htp, hkey⟩ := c.previous_key ht hprev
        have hsettled := hall p tp (c.previous_lt ht hprev) htp hkey
        simp [htp, hsettled]

section Submit

variable [DecidableEq K]

/-- Submit a task behind the current tail of its key. -/
def submit (c : PromiseChain K P stage) (k : K) (p : P) (hp : stage p = .queued) :
    PromiseChain K P stage where
  task := Function.update c.task c.next (some ⟨k, c.tail k, p⟩)
  next := c.next + 1
  tail := Function.update c.tail k (some c.next)
  lt_next := by
    intro i t h
    by_cases hi : i = c.next
    · omega
    · rw [Function.update_of_ne hi] at h
      exact Nat.lt_succ_of_lt (c.lt_next h)
  tail_key := by
    intro k' q h
    by_cases hk : k' = k
    · subst hk
      rw [Function.update_self] at h
      cases h
      exact ⟨_, Function.update_self .., rfl⟩
    · rw [Function.update_of_ne hk] at h
      obtain ⟨t, ht, hkey⟩ := c.tail_key h
      exact ⟨t, by rw [Function.update_of_ne (c.lt_next ht).ne]; exact ht, hkey⟩
  le_tail := by
    intro k' q i t h ht hkey
    by_cases hk : k' = k
    · subst hk
      rw [Function.update_self] at h
      cases h
      by_cases hi : i = c.next
      · exact hi.le
      · rw [Function.update_of_ne hi] at ht
        exact (c.lt_next ht).le
    · rw [Function.update_of_ne hk] at h
      by_cases hi : i = c.next
      · subst hi
        rw [Function.update_self] at ht
        cases ht
        exact absurd hkey.symm hk
      · rw [Function.update_of_ne hi] at ht
        exact c.le_tail h ht hkey
  settled_of_tail_none := by
    intro k' i t h ht hkey
    by_cases hk : k' = k
    · subst hk
      rw [Function.update_self] at h
      cases h
    · rw [Function.update_of_ne hk] at h
      by_cases hi : i = c.next
      · subst hi
        rw [Function.update_self] at ht
        cases ht
        exact absurd hkey.symm hk
      · rw [Function.update_of_ne hi] at ht
        exact c.settled_of_tail_none h ht hkey
  previous_lt := by
    intro i t q ht hprev
    by_cases hi : i = c.next
    · subst hi
      rw [Function.update_self] at ht
      cases ht
      obtain ⟨t', ht', -⟩ := c.tail_key hprev
      exact c.lt_next ht'
    · rw [Function.update_of_ne hi] at ht
      exact c.previous_lt ht hprev
  previous_key := by
    intro i t q ht hprev
    have key : ∃ t', c.task q = some t' ∧ t'.key = t.key := by
      by_cases hi : i = c.next
      · subst hi
        rw [Function.update_self] at ht
        cases ht
        exact c.tail_key hprev
      · rw [Function.update_of_ne hi] at ht
        exact c.previous_key ht hprev
    obtain ⟨t', ht', hkey⟩ := key
    exact ⟨t', by rw [Function.update_of_ne (c.lt_next ht').ne]; exact ht', hkey⟩
  le_previous := by
    intro i t q j t' ht hprev ht' hkey hlt
    have hj : j ≠ c.next := by
      rintro rfl
      by_cases hi : i = c.next
      · omega
      · rw [Function.update_of_ne hi] at ht
        exact absurd (c.lt_next ht) (by omega)
    rw [Function.update_of_ne hj] at ht'
    by_cases hi : i = c.next
    · subst hi
      rw [Function.update_self] at ht
      cases ht
      exact c.le_tail hprev ht' hkey
    · rw [Function.update_of_ne hi] at ht
      exact c.le_previous ht hprev ht' hkey hlt
  settled_of_previous_none := by
    intro i t j t' ht hprev ht' hkey hlt
    have hj : j ≠ c.next := by
      rintro rfl
      by_cases hi : i = c.next
      · omega
      · rw [Function.update_of_ne hi] at ht
        exact absurd (c.lt_next ht) (by omega)
    rw [Function.update_of_ne hj] at ht'
    by_cases hi : i = c.next
    · subst hi
      rw [Function.update_self] at ht
      cases ht
      exact c.settled_of_tail_none hprev ht' hkey
    · rw [Function.update_of_ne hi] at ht
      exact c.settled_of_previous_none ht hprev ht' hkey hlt
  previous_settled := by
    intro i t q t' ht hstarted hprev ht'
    by_cases hi : i = c.next
    · subst hi
      rw [Function.update_self] at ht
      cases ht
      exact absurd hp hstarted
    · rw [Function.update_of_ne hi] at ht
      have hq : q < c.next := (c.previous_lt ht hprev).trans (c.lt_next ht)
      rw [Function.update_of_ne hq.ne] at ht'
      exact c.previous_settled ht hstarted hprev ht'

variable (c : PromiseChain K P stage) (k : K) (p : P) (hp : stage p = .queued)

@[simp] theorem submit_next : (c.submit k p hp).next = c.next + 1 := rfl

theorem submit_task_self :
    (c.submit k p hp).task c.next = some ⟨k, c.tail k, p⟩ :=
  Function.update_self ..

theorem submit_task_of_ne {i : ℕ} (hi : i ≠ c.next) :
    (c.submit k p hp).task i = c.task i :=
  Function.update_of_ne hi ..

/-- A submission leaves every older task as it was. -/
theorem submit_task_of_some {i : ℕ} {t : ChainTask K P} (ht : c.task i = some t) :
    (c.submit k p hp).task i = some t := by
  rw [submit_task_of_ne c k p hp (c.lt_next ht).ne, ht]

/-- What is in the queue after a submission was there before, or is the task
just submitted. -/
theorem task_of_submit {i : ℕ} {t : ChainTask K P}
    (ht : (c.submit k p hp).task i = some t) :
    c.task i = some t ∨ i = c.next ∧ t = ⟨k, c.tail k, p⟩ := by
  by_cases hi : i = c.next
  · subst hi
    rw [submit_task_self] at ht
    exact Or.inr ⟨rfl, (Option.some.inj ht).symm⟩
  · rw [submit_task_of_ne c k p hp hi] at ht
    exact Or.inl ht

end Submit

/-- A task may take the state `p` next: it leaves the queue only when its
predecessor has settled, it does not go back to the queue, and once settled it
stays settled. -/
def CanAdvance (c : PromiseChain K P stage) (t : ChainTask K P) (p : P) : Prop :=
  stage p ≠ .queued ∧ (stage t.payload = .settled → stage p = .settled) ∧
    (stage t.payload = .queued → c.ready t = true)

instance (c : PromiseChain K P stage) (t : ChainTask K P) (p : P) :
    Decidable (c.CanAdvance t p) :=
  inferInstanceAs (Decidable (_ ∧ _))

/-- The map of tasks with task `i` in state `p`. -/
def setPayload (f : ℕ → Option (ChainTask K P)) (i : ℕ) (p : P) :
    ℕ → Option (ChainTask K P) :=
  fun j => if j = i then (f i).map fun t => { t with payload := p } else f j

theorem setPayload_self {f : ℕ → Option (ChainTask K P)} {i : ℕ} {t : ChainTask K P}
    (ht : f i = some t) (p : P) :
    setPayload f i p i = some { t with payload := p } := by
  simp [setPayload, ht]

theorem setPayload_of_ne {f : ℕ → Option (ChainTask K P)} {i j : ℕ} (h : j ≠ i)
    (p : P) : setPayload f i p j = f j := by
  simp [setPayload, h]

/-- A task of the updated map is the task of the old one, up to the state of
task `i`. -/
theorem exists_of_setPayload {f : ℕ → Option (ChainTask K P)} {i j : ℕ} {p : P}
    {t' : ChainTask K P} (h : setPayload f i p j = some t') :
    ∃ t, f j = some t ∧ t.key = t'.key ∧ t.previous = t'.previous ∧
      (j = i ∧ t'.payload = p ∨ j ≠ i ∧ t' = t) := by
  by_cases hj : j = i
  · subst hj
    simp only [setPayload, if_true, Option.map_eq_some_iff] at h
    obtain ⟨t, ht, rfl⟩ := h
    exact ⟨t, ht, rfl, rfl, Or.inl ⟨rfl, rfl⟩⟩
  · rw [setPayload_of_ne hj] at h
    exact ⟨t', h, rfl, rfl, Or.inr ⟨hj, rfl⟩⟩

/-- Settled tasks stay settled under a permitted change of state. -/
theorem settled_setPayload {c : PromiseChain K P stage} {i j : ℕ} {p : P}
    {t₀ t t' : ChainTask K P} (ht₀ : c.task i = some t₀) (hcan : c.CanAdvance t₀ p)
    (ht : c.task j = some t) (hset : stage t.payload = .settled)
    (h : setPayload c.task i p j = some t') : stage t'.payload = .settled := by
  obtain ⟨t₁, ht₁, -, -, ⟨rfl, hp⟩ | ⟨-, rfl⟩⟩ := exists_of_setPayload h
  · rw [ht₀] at ht
    cases ht
    rw [hp]
    exact hcan.2.1 hset
  · rw [ht] at ht₁
    cases ht₁
    exact hset

/-- Put task `i` in state `p`, if it may take it. -/
def advance (c : PromiseChain K P stage) (i : ℕ) (p : P) : PromiseChain K P stage :=
  match h : c.task i with
  | none => c
  | some t =>
      if hcan : c.CanAdvance t p then
        { task := setPayload c.task i p
          next := c.next
          tail := c.tail
          lt_next := by
            intro j t' ht'
            obtain ⟨t₁, ht₁, -⟩ := exists_of_setPayload ht'
            exact c.lt_next ht₁
          tail_key := by
            intro k q hq
            obtain ⟨t₁, ht₁, hkey⟩ := c.tail_key hq
            by_cases hqi : q = i
            · subst hqi
              exact ⟨_, setPayload_self ht₁ p, hkey⟩
            · exact ⟨t₁, by rw [setPayload_of_ne hqi]; exact ht₁, hkey⟩
          le_tail := by
            intro k q j t' hq ht' hkey
            obtain ⟨t₁, ht₁, hkey₁, -⟩ := exists_of_setPayload ht'
            exact c.le_tail hq ht₁ (hkey₁.trans hkey)
          settled_of_tail_none := by
            intro k j t' hk ht' hkey
            obtain ⟨t₁, ht₁, hkey₁, -⟩ := exists_of_setPayload ht'
            exact settled_setPayload h hcan ht₁
              (c.settled_of_tail_none hk ht₁ (hkey₁.trans hkey)) ht'
          previous_lt := by
            intro j t' q ht' hprev
            obtain ⟨t₁, ht₁, -, hprev₁, -⟩ := exists_of_setPayload ht'
            exact c.previous_lt ht₁ (hprev₁.trans hprev)
          previous_key := by
            intro j t' q ht' hprev
            obtain ⟨t₁, ht₁, hkey₁, hprev₁, -⟩ := exists_of_setPayload ht'
            obtain ⟨t₂, ht₂, hkey₂⟩ := c.previous_key ht₁ (hprev₁.trans hprev)
            by_cases hqi : q = i
            · subst hqi
              exact ⟨_, setPayload_self ht₂ p, hkey₂.trans hkey₁⟩
            · exact ⟨t₂, by rw [setPayload_of_ne hqi]; exact ht₂, hkey₂.trans hkey₁⟩
          le_previous := by
            intro j t' q l t'' ht' hprev ht'' hkey hlt
            obtain ⟨t₁, ht₁, hkey₁, hprev₁, -⟩ := exists_of_setPayload ht'
            obtain ⟨t₂, ht₂, hkey₂, -⟩ := exists_of_setPayload ht''
            exact c.le_previous ht₁ (hprev₁.trans hprev) ht₂
              (hkey₂.trans (hkey.trans hkey₁.symm)) hlt
          settled_of_previous_none := by
            intro j t' l t'' ht' hprev ht'' hkey hlt
            obtain ⟨t₁, ht₁, hkey₁, hprev₁, -⟩ := exists_of_setPayload ht'
            obtain ⟨t₂, ht₂, hkey₂, -⟩ := exists_of_setPayload ht''
            exact settled_setPayload h hcan ht₂
              (c.settled_of_previous_none ht₁ (hprev₁.trans hprev) ht₂
                (hkey₂.trans (hkey.trans hkey₁.symm)) hlt) ht''
          previous_settled := by
            intro j t' q t'' ht' hstarted hprev ht''
            obtain ⟨t₁, ht₁, -, hprev₁, hcase⟩ := exists_of_setPayload ht'
            obtain ⟨t₂, ht₂, -⟩ := exists_of_setPayload ht''
            refine settled_setPayload h hcan ht₂ ?_ ht''
            have hprev' : t₁.previous = some q := hprev₁.trans hprev
            rcases hcase with ⟨rfl, -⟩ | ⟨-, rfl⟩
            · -- the task that moves: it was running, or it was ready
              rw [h] at ht₁
              cases ht₁
              by_cases hq : stage t.payload = .queued
              · exact settled_of_ready (hcan.2.2 hq) hprev' ht₂
              · exact c.previous_settled h hq hprev' ht₂
            · exact c.previous_settled ht₁ hstarted hprev' ht₂ }
      else c

section Advance

variable {c : PromiseChain K P stage} {i : ℕ} {t : ChainTask K P} {p : P}

theorem advance_task (ht : c.task i = some t) (hcan : c.CanAdvance t p) :
    (c.advance i p).task = setPayload c.task i p := by
  unfold advance
  split
  · next h => rw [ht] at h; cases h
  · next t' h =>
      rw [ht] at h
      cases h
      rw [dif_pos hcan]

/-- A task that may not take the state, or is not there, is left alone. -/
theorem advance_of_not_can (h : ∀ t, c.task i = some t → ¬ c.CanAdvance t p) :
    c.advance i p = c := by
  unfold advance
  split
  · rfl
  · next t ht => rw [dif_neg (h t ht)]

theorem advance_task_self (ht : c.task i = some t) (hcan : c.CanAdvance t p) :
    (c.advance i p).task i = some { t with payload := p } := by
  rw [advance_task ht hcan, setPayload_self ht]

@[simp] theorem advance_next (c : PromiseChain K P stage) (i : ℕ) (p : P) :
    (c.advance i p).next = c.next := by
  unfold advance
  split
  · rfl
  · split <;> rfl

@[simp] theorem advance_tail (c : PromiseChain K P stage) (i : ℕ) (p : P) :
    (c.advance i p).tail = c.tail := by
  unfold advance
  split
  · rfl
  · split <;> rfl

/-- **What `advance` can do.**  A task of the new queue is a task of the old one,
and its state is unchanged unless it is task `i`. -/
theorem exists_of_advance {j : ℕ} {t' : ChainTask K P}
    (h : (c.advance i p).task j = some t') :
    ∃ t, c.task j = some t ∧ t'.key = t.key ∧
      (t'.payload = t.payload ∨ j = i ∧ t'.payload = p) := by
  by_cases hcan : ∃ t, c.task i = some t ∧ c.CanAdvance t p
  · obtain ⟨t, ht, hcan⟩ := hcan
    rw [advance_task ht hcan] at h
    obtain ⟨t₀, ht₀, hkey, -, ⟨hj, hp⟩ | ⟨-, rfl⟩⟩ := exists_of_setPayload h
    · exact ⟨t₀, ht₀, hkey.symm, Or.inr ⟨hj, hp⟩⟩
    · exact ⟨t', ht₀, rfl, Or.inl rfl⟩
  · rw [advance_of_not_can fun t ht hcan' => hcan ⟨t, ht, hcan'⟩] at h
    exact ⟨t', h, rfl, Or.inl rfl⟩

/-- The tasks of a queue survive `advance`, task `i` perhaps in a new state. -/
theorem advance_of_task {j : ℕ} {t : ChainTask K P} (h : c.task j = some t) :
    ∃ t', (c.advance i p).task j = some t' ∧ t'.key = t.key ∧
      (t'.payload = t.payload ∨ j = i ∧ t'.payload = p) := by
  by_cases hcan : ∃ t, c.task i = some t ∧ c.CanAdvance t p
  · obtain ⟨t₀, ht₀, hcan⟩ := hcan
    rw [advance_task ht₀ hcan]
    by_cases hj : j = i
    · subst hj
      exact ⟨_, setPayload_self h p, rfl, Or.inr ⟨rfl, rfl⟩⟩
    · exact ⟨t, by rw [setPayload_of_ne hj, h], rfl, Or.inl rfl⟩
  · rw [advance_of_not_can fun t ht hcan' => hcan ⟨t, ht, hcan'⟩]
    exact ⟨t, h, rfl, Or.inl rfl⟩

/-- A running task may take any state that is not `queued`. -/
theorem canAdvance_of_running (hrun : stage t.payload = .running)
    (hp : stage p ≠ .queued) : c.CanAdvance t p :=
  ⟨hp, by simp [hrun], by simp [hrun]⟩

/-- A queued task whose predecessor has settled may leave the queue. -/
theorem canAdvance_of_ready (hq : stage t.payload = .queued) (hready : c.ready t = true)
    (hp : stage p ≠ .queued) : c.CanAdvance t p :=
  ⟨hp, by simp [hq], fun _ => hready⟩

theorem advance_task_of_ne {j : ℕ} (hj : j ≠ i) : (c.advance i p).task j = c.task j := by
  by_cases hcan : ∃ t, c.task i = some t ∧ c.CanAdvance t p
  · obtain ⟨t, ht, hcan⟩ := hcan
    rw [advance_task ht hcan, setPayload_of_ne hj]
  · rw [advance_of_not_can fun t ht hcan' => hcan ⟨t, ht, hcan'⟩]

/-- A task that takes the state it is in. -/
theorem advance_self (ht : c.task i = some t) : c.advance i t.payload = c := by
  by_cases hcan : c.CanAdvance t t.payload
  · refine ext_of_eq ?_ (advance_next c i _) (advance_tail c i _)
    rw [advance_task ht hcan]
    funext j
    by_cases hj : j = i
    · subst hj
      rw [setPayload_self ht, ht]
    · rw [setPayload_of_ne hj]
  · refine advance_of_not_can fun t' ht' hcan' => hcan ?_
    obtain rfl := Option.some.inj (ht.symm.trans ht')
    exact hcan'

/-- A task that runs in between. -/
theorem advance_advance {q : P} (ht : c.task i = some t) (hp : c.CanAdvance t p)
    (hrun : stage p = .running) (hq : c.CanAdvance t q) :
    (c.advance i p).advance i q = c.advance i q := by
  have hq' : (c.advance i p).CanAdvance { t with payload := p } q :=
    canAdvance_of_running hrun hq.1
  refine ext_of_eq ?_ ?_ ?_
  · rw [advance_task ht hq, advance_task (advance_task_self ht hp) hq', advance_task ht hp]
    funext j
    by_cases hj : j = i
    · subst hj
      rw [setPayload_self ht, setPayload_self (setPayload_self ht p)]
    · rw [setPayload_of_ne hj, setPayload_of_ne hj, setPayload_of_ne hj]
  · rw [advance_next, advance_next, advance_next]
  · rw [advance_tail, advance_tail, advance_tail]

/-- A task that may leave the queue, or already has, finds no other task of its
key running. -/
theorem eq_of_running_of_canAdvance {j : ℕ} {t' : ChainTask K P} (ht : c.task i = some t)
    (hcan : c.CanAdvance t p) (hstage : stage t.payload ≠ .settled)
    (ht' : c.task j = some t') (hrun : stage t'.payload = .running) (hkey : t'.key = t.key) :
    j = i := by
  cases hq : stage t.payload with
  | settled => exact absurd hq hstage
  | running => exact c.running_unique ht' hrun ht hq hkey.symm
  | queued =>
      rcases lt_trichotomy j i with hlt | heq | hlt
      · have hsettled := settled_of_lt_of_ready ht (hcan.2.2 hq) ht' hkey hlt
        rw [hrun] at hsettled
        cases hsettled
      · exact heq
      · have hsettled := c.settled_of_lt ht' (by rw [hrun]; decide) ht hkey.symm hlt
        rw [hq] at hsettled
        cases hsettled

end Advance

/-- The submitter of the settled task `i` resumes: the map forgets the task if
it is still the tail of its key. -/
def dropTail [DecidableEq K] (c : PromiseChain K P stage) (i : ℕ) :
    PromiseChain K P stage :=
  match h : c.task i with
  | none => c
  | some t =>
      if hdrop : stage t.payload = .settled ∧ c.tail t.key = some i then
        { c with
          tail := Function.update c.tail t.key none
          tail_key := by
            intro k q hq
            by_cases hk : k = t.key
            · subst hk
              rw [Function.update_self] at hq
              cases hq
            · rw [Function.update_of_ne hk] at hq
              exact c.tail_key hq
          le_tail := by
            intro k q j t' hq ht' hkey
            by_cases hk : k = t.key
            · subst hk
              rw [Function.update_self] at hq
              cases hq
            · rw [Function.update_of_ne hk] at hq
              exact c.le_tail hq ht' hkey
          settled_of_tail_none := by
            intro k j t' hk' ht' hkey
            by_cases hk : k = t.key
            · -- the dropped tail is the key's youngest task and it has settled
              subst hk
              have hle := c.le_tail hdrop.2 ht' hkey
              rcases Nat.lt_or_eq_of_le hle with hlt | rfl
              · exact c.settled_of_lt h (by rw [hdrop.1]; decide) ht' hkey hlt
              · rw [h] at ht'
                cases ht'
                exact hdrop.1
            · rw [Function.update_of_ne hk] at hk'
              exact c.settled_of_tail_none hk' ht' hkey }
      else c

@[simp] theorem dropTail_task [DecidableEq K] (c : PromiseChain K P stage) (i : ℕ) :
    (c.dropTail i).task = c.task := by
  unfold dropTail
  split
  · rfl
  · split <;> rfl

@[simp] theorem dropTail_next [DecidableEq K] (c : PromiseChain K P stage) (i : ℕ) :
    (c.dropTail i).next = c.next := by
  unfold dropTail
  split
  · rfl
  · split <;> rfl

/-- What is left of the map. -/
theorem dropTail_tail [DecidableEq K] {c : PromiseChain K P stage} {i : ℕ} {t : ChainTask K P}
    (ht : c.task i = some t) (hsettled : stage t.payload = .settled) :
    (c.dropTail i).tail =
      if c.tail t.key = some i then Function.update c.tail t.key none else c.tail := by
  unfold dropTail
  split
  · next h => rw [ht] at h; cases h
  · next t' h =>
      obtain rfl := Option.some.inj (ht.symm.trans h)
      by_cases htail : c.tail t.key = some i
      · rw [dif_pos ⟨hsettled, htail⟩, if_pos htail]
      · rw [dif_neg fun hdrop => htail hdrop.2, if_neg htail]

/-- The process that ran the tasks is gone: every task is settled by `f`, and
the map is empty. -/
def abort (c : PromiseChain K P stage) (f : P → P) (hf : ∀ p, stage (f p) = .settled) :
    PromiseChain K P stage where
  task i := (c.task i).map fun t => { t with payload := f t.payload }
  next := c.next
  tail _ := none
  lt_next := by
    intro i t h
    obtain ⟨t', ht', -⟩ := Option.map_eq_some_iff.mp h
    exact c.lt_next ht'
  tail_key := by simp
  le_tail := by simp
  settled_of_tail_none := by
    intro k i t _ h _
    obtain ⟨t', -, rfl⟩ := Option.map_eq_some_iff.mp h
    exact hf _
  previous_lt := by
    intro i t p h hprev
    obtain ⟨t', ht', rfl⟩ := Option.map_eq_some_iff.mp h
    exact c.previous_lt ht' hprev
  previous_key := by
    intro i t p h hprev
    obtain ⟨t', ht', rfl⟩ := Option.map_eq_some_iff.mp h
    obtain ⟨t₂, ht₂, hkey⟩ := c.previous_key ht' hprev
    exact ⟨_, Option.map_eq_some_iff.mpr ⟨t₂, ht₂, rfl⟩, hkey⟩
  le_previous := by
    intro i t p j t₂ h hprev h₂ hkey hlt
    obtain ⟨t', ht', rfl⟩ := Option.map_eq_some_iff.mp h
    obtain ⟨t₂', ht₂', rfl⟩ := Option.map_eq_some_iff.mp h₂
    exact c.le_previous ht' hprev ht₂' hkey hlt
  settled_of_previous_none := by
    intro i t j t₂ _ _ h₂ _ _
    obtain ⟨t₂', -, rfl⟩ := Option.map_eq_some_iff.mp h₂
    exact hf _
  previous_settled := by
    intro i t p t₂ _ _ _ h₂
    obtain ⟨t₂', -, rfl⟩ := Option.map_eq_some_iff.mp h₂
    exact hf _

/-! ### Other views of the tasks -/

section Map

universe w

variable {P' : Type w} {stage' : P' → Stage}

/-- The same queue, with less said about the tasks. -/
def map (c : PromiseChain K P stage) (f : P → P') (hf : ∀ p, stage' (f p) = stage p) :
    PromiseChain K P' stage' where
  task i := (c.task i).map fun t => ⟨t.key, t.previous, f t.payload⟩
  next := c.next
  tail := c.tail
  lt_next := by
    intro i t h
    obtain ⟨t₀, ht₀, -⟩ := Option.map_eq_some_iff.mp h
    exact c.lt_next ht₀
  tail_key := by
    intro k q hq
    obtain ⟨t₀, ht₀, hkey⟩ := c.tail_key hq
    exact ⟨_, Option.map_eq_some_iff.mpr ⟨t₀, ht₀, rfl⟩, hkey⟩
  le_tail := by
    intro k q i t hq h hkey
    obtain ⟨t₀, ht₀, rfl⟩ := Option.map_eq_some_iff.mp h
    exact c.le_tail hq ht₀ hkey
  settled_of_tail_none := by
    intro k i t hk h hkey
    obtain ⟨t₀, ht₀, rfl⟩ := Option.map_eq_some_iff.mp h
    exact (hf _).trans (c.settled_of_tail_none hk ht₀ hkey)
  previous_lt := by
    intro i t p h hprev
    obtain ⟨t₀, ht₀, rfl⟩ := Option.map_eq_some_iff.mp h
    exact c.previous_lt ht₀ hprev
  previous_key := by
    intro i t p h hprev
    obtain ⟨t₀, ht₀, rfl⟩ := Option.map_eq_some_iff.mp h
    obtain ⟨t₁, ht₁, hkey⟩ := c.previous_key ht₀ hprev
    exact ⟨_, Option.map_eq_some_iff.mpr ⟨t₁, ht₁, rfl⟩, hkey⟩
  le_previous := by
    intro i t p j t' h hprev h' hkey hlt
    obtain ⟨t₀, ht₀, rfl⟩ := Option.map_eq_some_iff.mp h
    obtain ⟨t₁, ht₁, rfl⟩ := Option.map_eq_some_iff.mp h'
    exact c.le_previous ht₀ hprev ht₁ hkey hlt
  settled_of_previous_none := by
    intro i t j t' h hprev h' hkey hlt
    obtain ⟨t₀, ht₀, rfl⟩ := Option.map_eq_some_iff.mp h
    obtain ⟨t₁, ht₁, rfl⟩ := Option.map_eq_some_iff.mp h'
    exact (hf _).trans (c.settled_of_previous_none ht₀ hprev ht₁ hkey hlt)
  previous_settled := by
    intro i t p t' h hstarted hprev h'
    obtain ⟨t₀, ht₀, rfl⟩ := Option.map_eq_some_iff.mp h
    obtain ⟨t₁, ht₁, rfl⟩ := Option.map_eq_some_iff.mp h'
    exact (hf _).trans (c.previous_settled ht₀ (hf t₀.payload ▸ hstarted) hprev ht₁)

variable {c : PromiseChain K P stage} {f : P → P'} {hf : ∀ p, stage' (f p) = stage p}

theorem map_task (ht : c.task i = some t) :
    (c.map f hf).task i = some ⟨t.key, t.previous, f t.payload⟩ := by
  show (c.task i).map _ = _
  rw [ht]
  rfl

theorem ready_map (t : ChainTask K P) :
    (c.map f hf).ready ⟨t.key, t.previous, f t.payload⟩ = c.ready t := by
  unfold ready
  cases t.previous with
  | none => rfl
  | some p =>
      show ((c.task p).map _).all _ = (c.task p).all _
      cases c.task p with
      | none => rfl
      | some t' => simp [hf]

/-- A task that changes, in the other view. -/
theorem setPayload_map (g : ℕ → Option (ChainTask K P)) (i : ℕ) (p : P) :
    (fun j => (setPayload g i p j).map fun t => (⟨t.key, t.previous, f t.payload⟩ :
      ChainTask K P')) =
      setPayload (fun j => (g j).map fun t => ⟨t.key, t.previous, f t.payload⟩) i (f p) := by
  funext j
  by_cases hj : j = i
  · subst hj
    simp only [setPayload, if_true]
    cases g j <;> rfl
  · rw [setPayload_of_ne hj, setPayload_of_ne hj]

theorem canAdvance_map {p : P} :
    (c.map f hf).CanAdvance ⟨t.key, t.previous, f t.payload⟩ (f p) ↔ c.CanAdvance t p := by
  unfold CanAdvance
  rw [hf, hf, ready_map]

/-! The operations do the same in both views. -/

variable (c)

theorem map_submit [DecidableEq K] (k : K) (p : P) (hp : stage p = .queued) :
    (c.submit k p hp).map f hf = (c.map f hf).submit k (f p) ((hf p).trans hp) := by
  refine ext_of_eq ?_ rfl rfl
  funext i
  show ((c.submit k p hp).task i).map _ = _
  by_cases hi : i = c.next
  · subst hi
    rw [submit_task_self]
    exact (submit_task_self (c.map f hf) k (f p) _).symm
  · rw [submit_task_of_ne c k p hp hi]
    exact (submit_task_of_ne (c.map f hf) k (f p) _ hi).symm

theorem map_advance (i : ℕ) (p : P) :
    (c.advance i p).map f hf = (c.map f hf).advance i (f p) := by
  by_cases hcan : ∃ t, c.task i = some t ∧ c.CanAdvance t p
  · obtain ⟨t, ht, hcan⟩ := hcan
    refine ext_of_eq ?_ ?_ ?_
    · rw [advance_task (map_task ht) (canAdvance_map.mpr hcan)]
      show (fun j => ((c.advance i p).task j).map _) = _
      rw [advance_task ht hcan, setPayload_map]
      rfl
    · rw [advance_next]
      exact advance_next c i p
    · rw [advance_tail]
      exact advance_tail c i p
  · rw [advance_of_not_can fun t ht hcan' => hcan ⟨t, ht, hcan'⟩, advance_of_not_can]
    intro t' ht' hcan'
    obtain ⟨t, ht, rfl⟩ := Option.map_eq_some_iff.mp ht'
    exact hcan ⟨t, ht, canAdvance_map.mp hcan'⟩

variable {c} in
theorem map_dropTail [DecidableEq K] (ht : c.task i = some t)
    (hsettled : stage t.payload = .settled) :
    (c.dropTail i).map f hf = (c.map f hf).dropTail i := by
  refine ext_of_eq ?_ ?_ ?_
  · show (fun j => ((c.dropTail i).task j).map _) = _
    rw [dropTail_task, dropTail_task]
    rfl
  · rw [dropTail_next]
    exact dropTail_next c i
  · rw [dropTail_tail (map_task ht) ((hf _).trans hsettled)]
    exact dropTail_tail ht hsettled

end Map

end PromiseChain

end AideepWebsocket.Library
