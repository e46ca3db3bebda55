import AideepWebsocket.Library.PromiseChain
import AideepWebsocket.Library.Run
import Mathlib.Algebra.Group.Action.Defs
import Mathlib.Algebra.Order.BigOperators.Group.Finset

/-!
# A chain of promises is a fair lock

`PromiseChain` has the exclusion law in every state.  This module is about its runs.
Anybody may submit a task for any key at any time; a task whose turn it is starts, some
time after that its promise settles, and some time after that its caller goes on with
what it has settled with.

A run has a history for each key: the tasks that were submitted (`submissions`) and
those that have started (`starts`); and one for each task: what its promise has settled
with (`settlements`) and what its caller was given (`answers`).  `Logged` says how the
state of the lock has them; `Fair` is what a run guarantees, and every run does
(`fair_of_exec`).
-/

namespace AideepWebsocket.Library

universe u v

/-- Where a task stands; `R` is what its promise settles with. -/
inductive Turn (R : Type v)
  | queued
  | running
  | settled (result : R)
  /-- The caller has been given the result. -/
  | returned (result : R)

namespace Turn

variable {R : Type v}

def stage : Turn R → Stage
  | queued => .queued
  | running => .running
  | settled _ | returned _ => .settled

theorem stage_queued : (queued : Turn R).stage = .queued := rfl

/-- What the promise has settled with. -/
def result : Turn R → Option R
  | settled result | returned result => some result
  | _ => none

/-- What the caller was given. -/
def answer : Turn R → Option R
  | returned result => some result
  | _ => none

/-- The steps that a task has made. -/
def steps : Turn R → ℕ
  | queued => 1
  | running => 2
  | settled _ => 3
  | returned _ => 4

theorem steps_le (x : Turn R) : x.steps ≤ 4 := by
  cases x <;> simp [steps]

end Turn

/-- A lock for each key of `K`. -/
abbrev Lock (K : Type u) (R : Type v) := PromiseChain K (Turn R) Turn.stage

namespace Lock

variable {K : Type u} {R : Type v}

inductive Event (K : Type u) (R : Type v)
  | submit (k : K)
  | start (i : ℕ)
  | settle (i : ℕ) (result : R)
  | resume (i : ℕ)

/-- The event submits a task. -/
def Event.submits : Event K R → Bool
  | .submit _ => true
  | _ => false

variable [DecidableEq K]

/-- One step of the lock.  A task starts once the promise before it has settled, either
way; the caller that resumes removes the entry of the key if it is its own. -/
def step (c : Lock K R) : Event K R → Option (Lock K R)
  | .submit k => some (c.submit k .queued Turn.stage_queued)
  | .start i =>
      match c.task i with
      | some ⟨k, previous, .queued⟩ =>
          if c.ready ⟨k, previous, .queued⟩ then some (c.advance i .running) else none
      | _ => none
  | .settle i result =>
      match c.task i with
      | some ⟨_, _, .running⟩ => some (c.advance i (.settled result))
      | _ => none
  | .resume i =>
      match c.task i with
      | some ⟨_, _, .settled result⟩ => some ((c.dropTail i).advance i (.returned result))
      | _ => none

variable {c c' : Lock K R} {e : Event K R} {i : ℕ} {t : ChainTask K (Turn R)}

/-- A task goes on. -/
inductive Goes (c : Lock K R) (t : ChainTask K (Turn R)) : Event K R → ℕ → Turn R → Prop
  | start {i : ℕ} (hqueued : t.payload = .queued) (hready : c.ready t = true) :
      Goes c t (.start i) i .running
  | settle {i : ℕ} {result : R} (hrunning : t.payload = .running) :
      Goes c t (.settle i result) i (.settled result)
  | resume {i : ℕ} {result : R} (hsettled : t.payload = .settled result) :
      Goes c t (.resume i) i (.returned result)

/-- What a step leaves when task `i` goes on to `x`. -/
structure Went (c : Lock K R) (i : ℕ) (t : ChainTask K (Turn R)) (x : Turn R)
    (c' : Lock K R) : Prop where
  before : c.task i = some t
  task : c'.task = PromiseChain.setPayload c.task i x
  next : c'.next = c.next
  tail : c'.tail = if x.answer.isSome ∧ c.tail t.key = some i then
    Function.update c.tail t.key none else c.tail

/-- **What a step can do.** -/
theorem step_cases (h : step c e = some c') :
    (∃ k, e = .submit k ∧ c' = c.submit k .queued Turn.stage_queued) ∨
      ∃ i t x, Goes c t e i x ∧ Went c i t x c' := by
  cases e with
  | submit k => exact Or.inl ⟨k, rfl, (Option.some.inj h).symm⟩
  | start i =>
      simp only [step] at h
      split at h
      · next k previous htask =>
          split at h
          · next hready =>
              cases h
              have hcan := PromiseChain.canAdvance_of_ready (p := .running) rfl hready nofun
              refine Or.inr ⟨i, _, _, .start rfl hready, htask, ?_, ?_, ?_⟩
              · exact PromiseChain.advance_task htask hcan
              · exact PromiseChain.advance_next c i _
              · exact PromiseChain.advance_tail c i _
          · cases h
      · cases h
  | settle i result =>
      simp only [step] at h
      split at h
      · next k previous htask =>
          cases h
          have hcan : c.CanAdvance ⟨k, previous, .running⟩ (.settled result) :=
            PromiseChain.canAdvance_of_running rfl nofun
          refine Or.inr ⟨i, _, _, .settle rfl, htask, ?_, ?_, ?_⟩
          · exact PromiseChain.advance_task htask hcan
          · exact PromiseChain.advance_next c i _
          · exact PromiseChain.advance_tail c i _
      · cases h
  | resume i =>
      simp only [step] at h
      split at h
      · next k previous result htask =>
          cases h
          have htask' : (c.dropTail i).task i = some ⟨k, previous, .settled result⟩ := by
            rw [PromiseChain.dropTail_task, htask]
          have hcan : (c.dropTail i).CanAdvance ⟨k, previous, .settled result⟩
              (.returned result) := ⟨nofun, fun _ => rfl, nofun⟩
          refine Or.inr ⟨i, _, _, .resume rfl, htask, ?_, ?_, ?_⟩
          · rw [PromiseChain.advance_task htask' hcan, PromiseChain.dropTail_task]
          · rw [PromiseChain.advance_next, PromiseChain.dropTail_next]
          · rw [PromiseChain.advance_tail, PromiseChain.dropTail_tail htask rfl]
            by_cases htail : c.tail k = some i
            · rw [if_pos htail, if_pos ⟨rfl, htail⟩]
            · rw [if_neg htail, if_neg fun h => htail h.2]
      · cases h

/-! ### Histories -/

/-- The task that a step submits for the key. -/
def submitted (k : K) (x : Lock K R × Event K R) : Option ℕ :=
  match x.2 with
  | .submit k' => if k' = k then some x.1.next else none
  | _ => none

/-- The task of the key that a step starts. -/
def started (k : K) (x : Lock K R × Event K R) : Option ℕ :=
  match x.2 with
  | .start i => if (x.1.task i).any (fun t => t.key = k) then some i else none
  | _ => none

/-- What the promise of the task settles with in a step. -/
def settledWith (i : ℕ) (x : Lock K R × Event K R) : Option R :=
  match x.2 with
  | .settle j result => if j = i then some result else none
  | _ => none

/-- What the caller of the task is given in a step. -/
def answeredWith (i : ℕ) (x : Lock K R × Event K R) : Option R :=
  match x.2 with
  | .resume j => if j = i then (x.1.task j).bind fun t => t.payload.result else none
  | _ => none

/-- The steps of a run of a lock that nobody has used. -/
def history (es : List (Event K R)) : List (Lock K R × Event K R) := path step .empty es

def submissions (k : K) (es : List (Event K R)) : List ℕ := (history es).filterMap (submitted k)

def starts (k : K) (es : List (Event K R)) : List ℕ := (history es).filterMap (started k)

def settlements (i : ℕ) (es : List (Event K R)) : List R := (history es).filterMap (settledWith i)

def answers (i : ℕ) (es : List (Event K R)) : List R := (history es).filterMap (answeredWith i)

/-- A further step. -/
theorem history_concat {es : List (Event K R)} (hes : exec step .empty es = some c)
    (h : step c e = some c') : history (es ++ [e]) = history es ++ [(c, e)] := by
  rw [history, path_append [e] hes, path_cons [] h]
  rfl

/-! ### The history and the state -/

/-- The tasks of a key, in the order of their submission. -/
def ofKey (c : Lock K R) (k : K) : List ℕ :=
  (List.range c.next).filter fun i => (c.task i).any fun t => t.key = k

/-- The task has left the queue. -/
def hasStarted (c : Lock K R) (i : ℕ) : Bool :=
  (c.task i).any fun t => t.payload.stage ≠ .queued

/-- The state of the lock has its history. -/
structure Logged (es : List (Event K R)) (c : Lock K R) : Prop where
  submissions : ∀ k, Lock.submissions k es = c.ofKey k
  starts : ∀ k, Lock.starts k es = (c.ofKey k).filter c.hasStarted
  settlements : ∀ i, Lock.settlements i es = ((c.task i).bind fun t => t.payload.result).toList
  answers : ∀ i, Lock.answers i es = ((c.task i).bind fun t => t.payload.answer).toList
  next : es.countP Event.submits = c.next
  length : es.length = ∑ i ∈ Finset.range c.next, ((c.task i).map fun t => t.payload.steps).getD 0
  /-- The entry of a key is a task whose caller has not resumed. -/
  entry : ∀ {k i t}, c.tail k = some i → c.task i = some t → t.payload.answer = none

theorem mem_ofKey {k : K} : i ∈ c.ofKey k ↔ ∃ t, c.task i = some t ∧ t.key = k := by
  rw [ofKey, List.mem_filter, List.mem_range, Option.any_eq_true]
  constructor
  · rintro ⟨-, t, ht, hkey⟩
    exact ⟨t, ht, of_decide_eq_true hkey⟩
  · rintro ⟨t, ht, hkey⟩
    exact ⟨c.lt_next ht, t, ht, decide_eq_true hkey⟩

theorem sorted_ofKey (c : Lock K R) (k : K) : (c.ofKey k).Pairwise (· < ·) :=
  List.pairwise_lt_range.filter _

theorem logged_empty : Logged ([] : List (Event K R)) (.empty : Lock K R) where
  submissions _ := rfl
  starts _ := rfl
  settlements _ := rfl
  answers _ := rfl
  next := rfl
  length := rfl
  entry h := by cases h

/-! ### A submission -/

section Submit

variable (c : Lock K R) (k : K)

/-- What a new task has in common with none is as it was. -/
private theorem view_submit {B : Type*} (view : Option (ChainTask K (Turn R)) → B)
    (hview : ∀ previous, view (some ⟨k, previous, .queued⟩) = view none) (i : ℕ) :
    view ((c.submit k .queued Turn.stage_queued).task i) = view (c.task i) := by
  by_cases hi : i = c.next
  · subst hi
    have hnone : c.task c.next = none := by
      cases htask : c.task c.next with
      | none => rfl
      | some t => exact absurd (c.lt_next htask) (lt_irrefl _)
    rw [PromiseChain.submit_task_self, hnone, hview]
  · rw [PromiseChain.submit_task_of_ne c k _ Turn.stage_queued hi]

private theorem hasStarted_submit :
    hasStarted (c.submit k .queued Turn.stage_queued) = c.hasStarted := by
  funext i
  exact view_submit c k (fun o => o.any fun t => t.payload.stage ≠ .queued) (fun _ => rfl) i

private theorem ofKey_submit (k' : K) : ofKey (c.submit k .queued Turn.stage_queued) k' =
    c.ofKey k' ++ if k = k' then [c.next] else [] := by
  have hold : ∀ i ∈ List.range c.next,
      (((c.submit k .queued Turn.stage_queued).task i).any fun t => decide (t.key = k')) =
        (c.task i).any fun t => decide (t.key = k') := by
    intro i hi
    rw [PromiseChain.submit_task_of_ne c k _ Turn.stage_queued (List.mem_range.mp hi).ne]
  rw [ofKey, PromiseChain.submit_next, List.range_succ, List.filter_append,
    List.filter_congr hold, List.filter_singleton, PromiseChain.submit_task_self]
  by_cases hk : k = k' <;> simp [ofKey, hk]

variable {c} {es : List (Event K R)}

private theorem Logged.submit (hL : Logged es c) (hes : exec step .empty es = some c) :
    Logged (es ++ [.submit k]) (c.submit k .queued Turn.stage_queued) := by
  have hhistory : history (es ++ [.submit k]) = history es ++ [(c, .submit k)] :=
    history_concat hes rfl
  refine ⟨fun k' => ?_, fun k' => ?_, fun i => ?_, fun i => ?_, ?_, ?_, ?_⟩
  · rw [Lock.submissions, hhistory, List.filterMap_append, ofKey_submit, ← hL.submissions k']
    refine congrArg (Lock.submissions k' es ++ ·) ?_
    by_cases hk : k = k' <;> simp [submitted, hk]
  · have hlast : ¬ c.hasStarted c.next = true := by
      rw [← hasStarted_submit c k, hasStarted, PromiseChain.submit_task_self]
      exact nofun
    rw [Lock.starts, hhistory, List.filterMap_append, ofKey_submit, hasStarted_submit,
      List.filter_append, ← hL.starts k']
    refine congrArg (Lock.starts k' es ++ ·) ?_
    by_cases hk : k = k' <;> simp [started, hk, hlast]
  · rw [Lock.settlements, hhistory, List.filterMap_append, view_submit c k
      (fun o => (o.bind fun t => t.payload.result).toList) (fun _ => rfl), ← hL.settlements i]
    exact List.append_nil _
  · rw [Lock.answers, hhistory, List.filterMap_append, view_submit c k
      (fun o => (o.bind fun t => t.payload.answer).toList) (fun _ => rfl), ← hL.answers i]
    exact List.append_nil _
  · rw [List.countP_append, hL.next]
    rfl
  · have hold : ∀ i ∈ Finset.range c.next,
        (((c.submit k .queued Turn.stage_queued).task i).map fun t => t.payload.steps).getD 0 =
          ((c.task i).map fun t => t.payload.steps).getD 0 := by
      intro i hi
      rw [PromiseChain.submit_task_of_ne c k _ Turn.stage_queued (Finset.mem_range.mp hi).ne]
    rw [List.length_append, hL.length, PromiseChain.submit_next,
      Finset.sum_range_succ, Finset.sum_congr rfl hold, PromiseChain.submit_task_self]
    rfl
  · intro k' i t htail ht
    rcases PromiseChain.task_of_submit c k _ Turn.stage_queued ht with hold | ⟨-, rfl⟩
    · by_cases hk : k' = k
      · subst hk
        obtain rfl : c.next = i :=
          Option.some.inj ((Function.update_self k' _ c.tail).symm.trans htail)
        exact absurd (c.lt_next hold) (lt_irrefl _)
      · exact hL.entry ((Function.update_of_ne hk _ _).symm.trans htail) hold
    · rfl

end Submit

/-! ### A task goes on -/

namespace Went

variable {x : Turn R}

theorem task_self (h : Went c i t x c') : c'.task i = some { t with payload := x } := by
  rw [h.task, PromiseChain.setPayload_self h.before]

theorem task_of_ne (h : Went c i t x c') {j : ℕ} (hj : j ≠ i) : c'.task j = c.task j := by
  rw [h.task, PromiseChain.setPayload_of_ne hj]

/-- What the task has kept is as it was. -/
private theorem view (h : Went c i t x c') {B : Type*} (view : Option (ChainTask K (Turn R)) → B)
    (hview : view (some { t with payload := x }) = view (some t)) (j : ℕ) :
    view (c'.task j) = view (c.task j) := by
  by_cases hj : j = i
  · subst hj
    rw [h.task_self, h.before, hview]
  · rw [h.task_of_ne hj]

theorem ofKey_eq (h : Went c i t x c') (k : K) : c'.ofKey k = c.ofKey k := by
  rw [ofKey, ofKey, h.next]
  exact List.filter_congr fun j _ => h.view (fun o => o.any fun t => t.key = k) rfl j

theorem hasStarted_of_ne (h : Went c i t x c') {j : ℕ} (hj : j ≠ i) :
    c'.hasStarted j = c.hasStarted j := by
  rw [hasStarted, hasStarted, h.task_of_ne hj]

/-- One step more has been made. -/
theorem steps_eq (h : Went c i t x c') (hx : x.steps = t.payload.steps + 1) :
    ∑ j ∈ Finset.range c'.next, ((c'.task j).map fun t => t.payload.steps).getD 0 =
      (∑ j ∈ Finset.range c.next, ((c.task j).map fun t => t.payload.steps).getD 0) + 1 := by
  have hi : i ∈ Finset.range c.next := Finset.mem_range.mpr (c.lt_next h.before)
  have hold : ∀ j ∈ (Finset.range c.next).erase i,
      ((c'.task j).map fun t => t.payload.steps).getD 0 =
        ((c.task j).map fun t => t.payload.steps).getD 0 := by
    intro j hj
    rw [h.task_of_ne (Finset.ne_of_mem_erase hj)]
  rw [h.next, ← Finset.add_sum_erase _ _ hi, ← Finset.add_sum_erase _ _ hi,
    Finset.sum_congr rfl hold, h.task_self, h.before]
  simp only [Option.map_some, Option.getD_some, hx]
  omega

end Went

/-- A list that is sorted gets its last element. -/
private theorem filter_eq_concat {l : List ℕ} {p q : ℕ → Bool} (hl : l.Pairwise (· < ·))
    (hi : i ∈ l) (hq : ∀ j, q j = true ↔ p j = true ∨ j = i)
    (hlt : ∀ j ∈ l, p j = true → j < i) : l.filter q = l.filter p ++ [i] := by
  have hsorted : (l.filter p ++ [i]).Pairwise (· < ·) := by
    refine List.pairwise_append.mpr ⟨hl.filter _, List.pairwise_singleton .., ?_⟩
    intro a ha b hb
    obtain rfl := List.mem_singleton.mp hb
    obtain ⟨hmem, hp⟩ := List.mem_filter.mp ha
    exact hlt a hmem hp
  have hperm : (l.filter q).Perm (l.filter p ++ [i]) := by
    refine (List.perm_ext_iff_of_nodup (hl.filter _).nodup hsorted.nodup).mpr fun a => ?_
    rw [List.mem_filter, List.mem_append, List.mem_filter, List.mem_singleton, hq a]
    constructor
    · rintro ⟨hmem, hp | rfl⟩
      · exact Or.inl ⟨hmem, hp⟩
      · exact Or.inr rfl
    · rintro (⟨hmem, hp⟩ | rfl)
      · exact ⟨hmem, Or.inl hp⟩
      · exact ⟨hi, Or.inr rfl⟩
  exact hperm.eq_of_pairwise (fun a b _ _ hab hba => (lt_asymm hab hba).elim) (hl.filter _) hsorted

section Goes

variable {x : Turn R} {es : List (Event K R)}

/-- No younger task of the key has started before a task that is queued. -/
private theorem lt_of_hasStarted (ht : c.task i = some t) (hqueued : t.payload = .queued) {j : ℕ}
    (hj : j ∈ c.ofKey t.key) (hstarted : c.hasStarted j = true) : j < i := by
  obtain ⟨t', ht', hkey⟩ := mem_ofKey.mp hj
  have hleft : t'.payload.stage ≠ .queued := by
    rw [hasStarted, ht'] at hstarted
    exact of_decide_eq_true hstarted
  rcases lt_trichotomy j i with hlt | rfl | hlt
  · exact hlt
  · obtain rfl := Option.some.inj (ht.symm.trans ht')
    exact absurd (congrArg Turn.stage hqueued) hleft
  · have hsettled := c.settled_of_lt ht' hleft ht hkey.symm hlt
    rw [hqueued] at hsettled
    cases hsettled

/-- A task that starts is the last of its key that has. -/
private theorem starts_of_goes (hgoes : Goes c t e i x) (hwent : Went c i t x c') (k : K) :
    (c.ofKey k).filter c'.hasStarted =
      (c.ofKey k).filter c.hasStarted ++ [(c, e)].filterMap (started k) := by
  have hsame (hview : decide (x.stage ≠ .queued) = decide (t.payload.stage ≠ .queued)) :
      (c.ofKey k).filter c'.hasStarted = (c.ofKey k).filter c.hasStarted ++ [] := by
    rw [List.append_nil]
    refine List.filter_congr fun j _ => ?_
    by_cases hj : j = i
    · subst hj
      rw [hasStarted, hasStarted, hwent.task_self, hwent.before]
      exact hview
    · exact hwent.hasStarted_of_ne hj
  cases hgoes with
  | start hqueued hready =>
      by_cases hkey : t.key = k
      · subst hkey
        have hlast : [(c, Event.start i)].filterMap (started t.key) = [i] := by
          simp [started, hwent.before]
        rw [hlast]
        refine filter_eq_concat (sorted_ofKey c t.key) (mem_ofKey.mpr ⟨t, hwent.before, rfl⟩)
          (fun j => ?_) fun j hj => lt_of_hasStarted hwent.before hqueued hj
        by_cases hj : j = i
        · subst hj
          refine iff_of_true ?_ (Or.inr rfl)
          rw [hasStarted, hwent.task_self]
          rfl
        · rw [hwent.hasStarted_of_ne hj, or_iff_left hj]
      · have hnone : [(c, Event.start i)].filterMap (started k) = [] := by
          simp [started, hwent.before, hkey]
        rw [hnone, List.append_nil]
        refine List.filter_congr fun j hj => hwent.hasStarted_of_ne ?_
        rintro rfl
        obtain ⟨t', ht', hkey'⟩ := mem_ofKey.mp hj
        obtain rfl := Option.some.inj (hwent.before.symm.trans ht')
        exact hkey hkey'
  | settle hrunning =>
      refine hsame ?_
      rw [hrunning]
      rfl
  | resume hsettled =>
      refine hsame ?_
      rw [hsettled]
      rfl

private theorem settlements_of_goes (hgoes : Goes c t e i x) (hwent : Went c i t x c') (j : ℕ) :
    ((c'.task j).bind fun t => t.payload.result).toList =
      ((c.task j).bind fun t => t.payload.result).toList ++ [(c, e)].filterMap (settledWith j) := by
  have hsame (hview : x.result = t.payload.result) :
      ((c'.task j).bind fun t => t.payload.result).toList =
        ((c.task j).bind fun t => t.payload.result).toList ++ [] := by
    rw [List.append_nil]
    exact congrArg Option.toList (hwent.view (fun o => o.bind fun t => t.payload.result) hview j)
  cases hgoes with
  | start hqueued hready =>
      refine hsame ?_
      rw [hqueued]
      rfl
  | settle hrunning =>
      by_cases hj : i = j
      · subst hj
        simp [settledWith, hwent.task_self, hwent.before, hrunning, Turn.result]
      · simp [settledWith, hj, hwent.task_of_ne (Ne.symm hj)]
  | resume hsettled =>
      refine hsame ?_
      rw [hsettled]
      rfl

private theorem answers_of_goes (hgoes : Goes c t e i x) (hwent : Went c i t x c') (j : ℕ) :
    ((c'.task j).bind fun t => t.payload.answer).toList =
      ((c.task j).bind fun t => t.payload.answer).toList ++ [(c, e)].filterMap (answeredWith j) := by
  have hsame (hview : x.answer = t.payload.answer) :
      ((c'.task j).bind fun t => t.payload.answer).toList =
        ((c.task j).bind fun t => t.payload.answer).toList ++ [] := by
    rw [List.append_nil]
    exact congrArg Option.toList (hwent.view (fun o => o.bind fun t => t.payload.answer) hview j)
  cases hgoes with
  | start hqueued hready =>
      refine hsame ?_
      rw [hqueued]
      rfl
  | settle hrunning =>
      refine hsame ?_
      rw [hrunning]
      rfl
  | resume hsettled =>
      by_cases hj : i = j
      · subst hj
        simp [answeredWith, hwent.task_self, hwent.before, hsettled, Turn.answer, Turn.result]
      · simp [answeredWith, hj, hwent.task_of_ne (Ne.symm hj)]

/-- The caller that resumes leaves no entry of its own. -/
private theorem entry_of_went (hL : Logged es c) (hwent : Went c i t x c') {k : K} {j : ℕ}
    {t' : ChainTask K (Turn R)} (htail : c'.tail k = some j) (ht' : c'.task j = some t') :
    t'.payload.answer = none := by
  have hold : c.tail k = some j ∧ (x.answer.isSome = true → c.tail t.key = some i → k ≠ t.key) := by
    rw [hwent.tail] at htail
    split at htail
    · by_cases hk : k = t.key
      · subst hk
        rw [Function.update_self] at htail
        cases htail
      · rw [Function.update_of_ne hk] at htail
        exact ⟨htail, fun _ _ => hk⟩
    · next hnot => exact ⟨htail, fun hanswer hown => absurd ⟨hanswer, hown⟩ hnot⟩
  by_cases hj : j = i
  · subst hj
    obtain rfl := Option.some.inj (hwent.task_self.symm.trans ht')
    obtain ⟨t₀, ht₀, hkey⟩ := c.tail_key hold.1
    obtain rfl := Option.some.inj (hwent.before.symm.trans ht₀)
    cases hanswer : x.answer with
    | none => rfl
    | some result =>
        exact absurd hkey.symm (hold.2 (by rw [hanswer]; rfl) (hkey ▸ hold.1))
  · rw [hwent.task_of_ne hj] at ht'
    exact hL.entry hold.1 ht'

private theorem Logged.goes (hL : Logged es c) (hes : exec step .empty es = some c)
    (h : step c e = some c') (hgoes : Goes c t e i x) (hwent : Went c i t x c') :
    Logged (es ++ [e]) c' := by
  have hhistory : history (es ++ [e]) = history es ++ [(c, e)] := history_concat hes h
  refine ⟨fun k => ?_, fun k => ?_, fun j => ?_, fun j => ?_, ?_, ?_, entry_of_went hL hwent⟩
  · rw [Lock.submissions, hhistory, List.filterMap_append, hwent.ofKey_eq, ← hL.submissions k]
    cases hgoes <;> exact List.append_nil _
  · rw [Lock.starts, hhistory, List.filterMap_append, hwent.ofKey_eq, starts_of_goes hgoes hwent,
      ← hL.starts k]
    rfl
  · rw [Lock.settlements, hhistory, List.filterMap_append, settlements_of_goes hgoes hwent,
      ← hL.settlements j]
    rfl
  · rw [Lock.answers, hhistory, List.filterMap_append, answers_of_goes hgoes hwent, ← hL.answers j]
    rfl
  · rw [List.countP_append, hL.next, hwent.next]
    cases hgoes <;> rfl
  · have hsteps : x.steps = t.payload.steps + 1 := by
      cases hgoes with
      | start hpayload _ => rw [hpayload]; rfl
      | settle hpayload => rw [hpayload]; rfl
      | resume hpayload => rw [hpayload]; rfl
    rw [List.length_append, hL.length, hwent.steps_eq hsteps]
    rfl

end Goes

/-- Every run has its history. -/
theorem logged_of_exec {es : List (Event K R)} (hes : exec step .empty es = some c) :
    Logged es c := by
  refine history_invariant logged_empty ?_ hes
  intro es c e c' hes hL h
  rcases step_cases h with ⟨k, rfl, rfl⟩ | ⟨i, t, x, hgoes, hwent⟩
  · exact hL.submit k hes
  · exact hL.goes hes h hgoes hwent

/-! ### Fairness -/

/-- Nothing is left to do: no task is running, none may start, and no caller is to
resume. -/
def Quiet (c : Lock K R) : Prop :=
  (∀ i t, c.task i = some t → t.payload ≠ .running) ∧
    ∀ i, step c (.start i) = none ∧ step c (.resume i) = none

/-- **What a run guarantees.** -/
structure Fair (es : List (Event K R)) (c : Lock K R) : Prop where
  /-- The tasks of a key run one at a time… -/
  alone : ∀ i j t t', c.task i = some t → c.task j = some t' → t'.key = t.key →
    t.payload = .running → t'.payload = .running → i = j
  /-- …in the order of their submission, none twice. -/
  inOrder : ∀ k, starts k es <+: submissions k es
  nodup : ∀ k, (submissions k es).Nodup
  /-- A task may start as soon as the older ones of its key have settled, with whatever
  result, and whatever the other keys do. -/
  start_iff : ∀ i, (∃ c', step c (.start i) = some c') ↔
    ∃ t, c.task i = some t ∧ t.payload = .queued ∧
      ∀ j t', j < i → c.task j = some t' → t'.key = t.key → t'.payload.stage = .settled
  /-- A promise settles once, and its caller is given what it has settled with, once. -/
  own : ∀ i, (settlements i es).length ≤ 1 ∧ answers i es <+: settlements i es
  /-- A submission is followed by three steps at most… -/
  length_le : es.length ≤ 4 * es.countP Event.submits
  /-- …and when nothing is left to do, every task has run, and its caller has resumed. -/
  done : Quiet c → ∀ k, starts k es = submissions k es ∧
    ∀ i ∈ submissions k es, ∃ result, settlements i es = [result] ∧ answers i es = [result]
  /-- A key whose callers have resumed has no entry. -/
  noEntry : ∀ k, (∀ i ∈ submissions k es, answers i es ≠ []) → c.tail k = none

/-- A task may start when its predecessor has settled, and not before. -/
private theorem can_start_iff : (∃ c', step c (.start i) = some c') ↔
    ∃ t, c.task i = some t ∧ t.payload = .queued ∧ c.ready t = true := by
  constructor
  · rintro ⟨c', h⟩
    rcases step_cases h with ⟨k, he, -⟩ | ⟨j, t, x, hgoes, hwent⟩
    · cases he
    · cases hgoes with
      | start hqueued hready => exact ⟨t, hwent.before, hqueued, hready⟩
  · rintro ⟨⟨k, previous, payload⟩, ht, rfl, hready⟩
    exact ⟨c.advance i .running, by simp only [step, ht, if_pos hready]⟩

/-- When nothing is left to do, everybody has been answered. -/
private theorem returned_of_quiet (hquiet : Quiet c) (ht : c.task i = some t) :
    ∃ result, t.payload = .returned result := by
  induction i using Nat.strongRecOn generalizing t with
  | ind i ih =>
      obtain ⟨k, previous, payload⟩ := t
      cases payload with
      | returned result => exact ⟨result, rfl⟩
      | running => exact absurd rfl (hquiet.1 i _ ht)
      | settled result =>
          have hresume := (hquiet.2 i).2
          simp only [step, ht] at hresume
          cases hresume
      | queued =>
          have hready : c.ready ⟨k, previous, .queued⟩ = true := by
            refine (PromiseChain.ready_iff ht).mpr fun j t' hlt ht' _ => ?_
            obtain ⟨result, hresult⟩ := ih j hlt ht'
            rw [hresult]
            rfl
          obtain ⟨c', hstart⟩ := can_start_iff.mpr ⟨_, ht, rfl, hready⟩
          rw [(hquiet.2 i).1] at hstart
          cases hstart

/-- A sorted list that keeps what is before every element it keeps, keeps a prefix. -/
private theorem filter_prefix {p : ℕ → Bool} {l : List ℕ}
    (hl : l.Pairwise fun a b => p b = true → p a = true) : l.filter p <+: l := by
  induction l with
  | nil => exact List.prefix_rfl
  | cons a l ih =>
      obtain ⟨hfirst, hrest⟩ := List.pairwise_cons.mp hl
      by_cases ha : p a = true
      · rw [List.filter_cons_of_pos ha]
        exact (List.prefix_cons_inj a).mpr (ih hrest)
      · have hnone : (a :: l).filter p = [] := by
          rw [List.filter_cons_of_neg ha]
          exact List.filter_eq_nil_iff.mpr fun b hb hpb => ha (hfirst b hb hpb)
        rw [hnone]
        exact List.nil_prefix

/-- A promise that is older than a task of its key that has started has started. -/
private theorem hasStarted_of_lt {k : K} {a b : ℕ} (ha : a ∈ c.ofKey k) (hb : b ∈ c.ofKey k)
    (hlt : a < b) (hstarted : c.hasStarted b = true) : c.hasStarted a = true := by
  obtain ⟨t, ht, hkey⟩ := mem_ofKey.mp ha
  obtain ⟨t', ht', hkey'⟩ := mem_ofKey.mp hb
  have hleft : t'.payload.stage ≠ .queued := by
    rw [hasStarted, ht'] at hstarted
    exact of_decide_eq_true hstarted
  have hsettled := c.settled_of_lt ht' hleft ht (hkey.trans hkey'.symm) hlt
  rw [hasStarted, ht]
  exact decide_eq_true (by rw [hsettled]; decide)

/-- **Every run is fair.** -/
theorem fair_of_exec {es : List (Event K R)} (hes : exec step .empty es = some c) : Fair es c := by
  have hL := logged_of_exec hes
  refine ⟨?_, fun k => ?_, fun k => ?_, fun i => ?_, fun i => ?_, ?_, fun hquiet k => ?_,
    fun k hall => ?_⟩
  · intro i j t t' ht ht' hkey hrun hrun'
    exact c.running_unique ht (by rw [hrun]; rfl) ht' (by rw [hrun']; rfl) hkey
  · rw [hL.starts, hL.submissions]
    exact filter_prefix ((sorted_ofKey c k).imp_of_mem hasStarted_of_lt)
  · rw [hL.submissions]
    exact (sorted_ofKey c k).nodup
  · rw [can_start_iff]
    refine exists_congr fun t => and_congr_right fun ht => and_congr_right fun _ => ?_
    exact PromiseChain.ready_iff ht
  · rw [hL.settlements, hL.answers]
    cases c.task i with
    | none => exact ⟨Nat.zero_le 1, List.prefix_rfl⟩
    | some t =>
        cases ht : t.payload <;> simp [Turn.result, Turn.answer, ht]
  · have hle : ∀ i ∈ Finset.range c.next,
        ((c.task i).map fun t => t.payload.steps).getD 0 ≤ 4 := by
      intro i _
      cases c.task i with
      | none => exact Nat.zero_le 4
      | some t => exact t.payload.steps_le
    have hsum := Finset.sum_le_card_nsmul _ _ _ hle
    rw [Finset.card_range, smul_eq_mul, ← hL.length, ← hL.next] at hsum
    omega
  · rw [hL.starts, hL.submissions]
    constructor
    · refine List.filter_eq_self.mpr fun i hi => ?_
      obtain ⟨t, ht, -⟩ := mem_ofKey.mp hi
      obtain ⟨result, hresult⟩ := returned_of_quiet hquiet ht
      rw [hasStarted, ht]
      exact decide_eq_true (by rw [hresult]; exact nofun)
    · intro i hi
      obtain ⟨t, ht, -⟩ := mem_ofKey.mp hi
      obtain ⟨result, hresult⟩ := returned_of_quiet hquiet ht
      refine ⟨result, ?_, ?_⟩
      · rw [hL.settlements, ht, Option.bind_some, hresult]
        rfl
      · rw [hL.answers, ht, Option.bind_some, hresult]
        rfl
  · cases htail : c.tail k with
    | none => rfl
    | some i =>
        obtain ⟨t, ht, hkey⟩ := c.tail_key htail
        have hi : i ∈ Lock.submissions k es := hL.submissions k ▸ mem_ofKey.mpr ⟨t, ht, hkey⟩
        refine absurd ?_ (hall i hi)
        rw [hL.answers, ht, Option.bind_some, hL.entry htail ht]
        rfl

/-! ### Systems with a lock

A system that has a lock makes moves of it, several or none in a step of its own. -/

/-- The second lock is what some events, all of the kind `P`, leave of the first. -/
def Moves (P : Event K R → Prop) (c c' : Lock K R) : Prop :=
  ∃ es, exec step c es = some c' ∧ ∀ e ∈ es, P e

namespace Moves

variable {P Q : Event K R → Prop} {c₁ c₂ c₃ : Lock K R}

theorem refl (c : Lock K R) : Moves P c c :=
  ⟨[], rfl, nofun⟩

theorem of_step (h : step c e = some c') (he : P e) : Moves P c c' := by
  refine ⟨[e], ?_, fun e' he' => ?_⟩
  · rw [exec_cons, h]
    rfl
  · rw [List.mem_singleton.mp he']
    exact he

theorem trans (h : Moves P c₁ c₂) (k : Moves P c₂ c₃) : Moves P c₁ c₃ := by
  obtain ⟨es, hes, hP⟩ := h
  obtain ⟨fs, hfs, hP'⟩ := k
  refine ⟨es ++ fs, ?_, fun e he => ?_⟩
  · rw [exec_append, hes]
    exact hfs
  · rcases List.mem_append.mp he with he | he
    · exact hP e he
    · exact hP' e he

theorem mono (hPQ : ∀ e, P e → Q e) (h : Moves P c c') : Moves Q c c' := by
  obtain ⟨es, hes, hP⟩ := h
  exact ⟨es, hes, fun e he => hPQ e (hP e he)⟩

/-- Only a submission makes a new task. -/
theorem next_eq (h : Moves (fun e => e.submits = false) c c') : c'.next = c.next := by
  obtain ⟨es, hes, hP⟩ := h
  induction es generalizing c with
  | nil => rw [Option.some.inj hes]
  | cons e es ih =>
      rw [exec_cons, Option.bind_eq_some_iff] at hes
      obtain ⟨c₁, hstep, hes⟩ := hes
      rw [ih hes fun e' he' => hP e' (List.mem_cons_of_mem _ he')]
      rcases step_cases hstep with ⟨k, rfl, -⟩ | ⟨i, t, x, -, hwent⟩
      · exact absurd (hP _ (List.mem_cons_self ..)) Bool.noConfusion
      · exact hwent.next

theorem submit (c : Lock K R) (k : K) (hP : P (.submit k)) :
    Moves P c (c.submit k .queued Turn.stage_queued) :=
  of_step rfl hP

/-- A task goes on as far as it may, without its caller. -/
theorem advance (ht : c.task i = some t) (ht' : t.payload.stage ≠ .settled) {x : Turn R}
    (hx : x.answer = none) : Moves (fun e => e.submits = false) c (c.advance i x) := by
  by_cases hcan : c.CanAdvance t x
  · obtain ⟨k, previous, payload⟩ := t
    cases payload with
    | settled _ => exact absurd rfl ht'
    | returned _ => exact absurd rfl ht'
    | queued =>
        have hready : c.ready ⟨k, previous, .queued⟩ = true := hcan.2.2 rfl
        have hstart : Moves (fun e => e.submits = false) c (c.advance i .running) := by
          refine of_step (e := .start i) ?_ rfl
          simp only [step, ht, if_pos hready]
        cases x with
        | queued => exact absurd rfl hcan.1
        | returned _ => cases hx
        | running => exact hstart
        | settled result =>
            have hrun : c.CanAdvance ⟨k, previous, .queued⟩ .running :=
              PromiseChain.canAdvance_of_ready rfl hready nofun
            rw [← PromiseChain.advance_advance ht hrun rfl hcan]
            refine hstart.trans (of_step (e := .settle i result) ?_ rfl)
            simp only [step, PromiseChain.advance_task_self ht hrun]
    | running =>
        cases x with
        | queued => exact absurd rfl hcan.1
        | returned _ => cases hx
        | running =>
            rw [PromiseChain.advance_self ht]
            exact refl c
        | settled result =>
            refine of_step (e := .settle i result) ?_ rfl
            simp only [step, ht]
  · rw [PromiseChain.advance_of_not_can]
    · exact refl c
    · intro t₁ ht₁ hcan₁
      obtain rfl := Option.some.inj (ht.symm.trans ht₁)
      exact hcan hcan₁

/-- The caller of a task resumes. -/
theorem resume (ht : c.task i = some t) {result : R} (hsettled : t.payload = .settled result) :
    Moves (fun e => e.submits = false) c ((c.dropTail i).advance i (.returned result)) := by
  obtain ⟨k, previous, payload⟩ := t
  obtain rfl : payload = .settled result := hsettled
  refine of_step (e := .resume i) ?_ rfl
  simp only [step, ht]

end Moves

end Lock

end AideepWebsocket.Library
