import AideepWebsocket.Library.Run
import Mathlib.Logic.Function.Basic

/-!
# Rows at READ COMMITTED

A table that transactions share at the isolation level READ COMMITTED.  A row has
the version that was committed last and, once a transaction has written it, the
version of this transaction, which nobody else sees.

* A read takes no lock and sees the version committed last, or the transaction's own
  (`Table.see`).
* A write takes the lock of the row, and keeps it until the transaction ends; where
  another transaction has it, the write waits, that is, the step is not enabled.
* A commit makes the transaction's versions the committed ones; a rollback drops them.

Between the write and the commit the lock protects the row (`held_step`, `held_exec`).
Between a read and the write nothing does: a transaction that writes back what it has
read keeps the rows of others exactly when nobody has committed in between
(`commit_keeps_iff`).

The rules are stated for any system whose steps are operations on a table, each on
behalf of one transaction (`Serves`).
-/

namespace AideepWebsocket.Library

universe u v w

/-- A table of rows `V` with keys `K`, shared by transactions `T`. -/
structure Table (T : Type u) (K : Type v) (V : Type w) where
  committed : K → Option V
  /-- The transaction that has written the row, and its version. -/
  uncommitted : K → Option (T × Option V)

namespace Table

variable {T : Type u} {K : Type v} {V : Type w} {tab tab' : Table T K V} {t : T} {k : K}
  {v : Option V}

/-- A table in which no transaction has written. -/
def init (rows : K → Option V) : Table T K V := ⟨rows, fun _ => none⟩

/-- What changes a table; a write stores a row, or deletes it. -/
inductive Op (T : Type u) (K : Type v) (V : Type w)
  | write (t : T) (k : K) (v : Option V)
  | commit (t : T)
  | rollback (t : T)

/-- The transaction that the operation belongs to. -/
def Op.owner : Op T K V → T
  | .write t _ _ => t
  | .commit t => t
  | .rollback t => t

/-- The operation as one of the transaction that `f` names. -/
def Op.map {T' : Type*} (f : T' → T) : Op T' K V → Op T K V
  | .write t k v => .write (f t) k v
  | .commit t => .commit (f t)
  | .rollback t => .rollback (f t)

@[simp] theorem Op.owner_map {T' : Type*} (f : T' → T) (op : Op T' K V) :
    (op.map f).owner = f op.owner := by
  cases op <;> rfl

/-- A transaction has written no row. -/
def Idle (tab : Table T K V) (t : T) : Prop := ∀ k v, tab.uncommitted k ≠ some (t, v)

theorem idle_init (rows : K → Option V) (t : T) : (init rows : Table T K V).Idle t := by
  intro k v h
  cases h

variable [DecidableEq T]

/-- What a statement of `t` sees of a row. -/
def see (tab : Table T K V) (t : T) (k : K) : Option V :=
  match tab.uncommitted k with
  | some (owner, v) => if owner = t then v else tab.committed k
  | none => tab.committed k

/-- The lock of the row is free, or `t` has it. -/
def grants (tab : Table T K V) (t : T) (k : K) : Bool :=
  (tab.uncommitted k).all fun version => version.1 = t

/-- The versions that are left when `t` ends. -/
def release (tab : Table T K V) (t : T) (k : K) : Option (T × Option V) :=
  (tab.uncommitted k).filter fun version => version.1 ≠ t

theorem release_of_held {owner : T} (h : tab.uncommitted k = some (owner, v))
    (ht : owner ≠ t) : tab.release t k = some (owner, v) := by
  simp [release, h, ht]

theorem idle_release (tab : Table T K V) (t : T) (k : K) (v : Option V) :
    tab.release t k ≠ some (t, v) := by
  intro h
  have hne := Option.filter_eq_some_iff.mp h
  exact absurd rfl (of_decide_eq_true hne.2)

theorem see_of_held (h : tab.uncommitted k = some (t, v)) : tab.see t k = v := by
  simp [see, h]

/-- A transaction that has not written a row sees the version committed last. -/
theorem see_of_unheld (h : ∀ v, tab.uncommitted k ≠ some (t, v)) :
    tab.see t k = tab.committed k := by
  unfold see
  split
  · next owner v hheld =>
      rw [if_neg]
      rintro rfl
      exact h v hheld
  · rfl

variable [DecidableEq K]

def step (tab : Table T K V) : Op T K V → Option (Table T K V)
  | .write t k v =>
      if tab.grants t k then
        some { tab with uncommitted := Function.update tab.uncommitted k (some (t, v)) }
      else none
  | .commit t => some ⟨tab.see t, tab.release t⟩
  | .rollback t => some { tab with uncommitted := tab.release t }

/-- A commit writes the versions of the transaction, and no other row. -/
theorem committed_commit (h : tab.step (.commit t) = some tab') (k : K) :
    tab'.committed k = tab.see t k := by
  obtain rfl := Option.some.inj h
  rfl

/-! ### The lock -/

/-- **The lock.**  While `t` has written a row, the operations of others leave both
versions of it alone. -/
theorem held_step (hheld : tab.uncommitted k = some (t, v)) {op : Op T K V}
    (h : tab.step op = some tab') (hop : op.owner ≠ t) :
    tab'.uncommitted k = some (t, v) ∧ tab'.committed k = tab.committed k := by
  cases op with
  | write owner k' v' =>
      have howner : owner ≠ t := hop
      rw [step] at h
      split at h
      · next hgrants =>
          obtain rfl := Option.some.inj h
          have hk : k ≠ k' := by
            rintro rfl
            rw [grants, hheld] at hgrants
            exact howner (of_decide_eq_true hgrants).symm
          exact ⟨(Function.update_of_ne hk ..).trans hheld, rfl⟩
      · cases h
  | commit owner =>
      have howner : owner ≠ t := hop
      obtain rfl := Option.some.inj h
      refine ⟨release_of_held hheld howner.symm, ?_⟩
      apply see_of_unheld
      intro v' hv'
      rw [hheld] at hv'
      exact howner (congrArg Prod.fst (Option.some.inj hv')).symm
  | rollback owner =>
      have howner : owner ≠ t := hop
      obtain rfl := Option.some.inj h
      exact ⟨release_of_held hheld howner.symm, rfl⟩

/-- The operations of others do not make it write. -/
theorem Idle.step (hidle : tab.Idle t) {op : Op T K V} (h : tab.step op = some tab')
    (hop : op.owner ≠ t) : tab'.Idle t := by
  have hrelease : ∀ owner k v, tab.release owner k ≠ some (t, v) := by
    intro owner k v hv
    exact hidle k v (Option.filter_eq_some_iff.mp hv).1
  cases op with
  | write owner k' v' =>
      have howner : owner ≠ t := hop
      rw [Table.step] at h
      split at h
      · obtain rfl := Option.some.inj h
        intro k v hv
        by_cases hk : k = k'
        · subst hk
          change Function.update tab.uncommitted k _ k = _ at hv
          rw [Function.update_self] at hv
          exact howner (congrArg Prod.fst (Option.some.inj hv))
        · exact hidle k v ((Function.update_of_ne hk ..).symm.trans hv)
      · cases h
  | commit owner =>
      obtain rfl := Option.some.inj h
      exact hrelease owner
  | rollback owner =>
      obtain rfl := Option.some.inj h
      exact hrelease owner

/-- A transaction that has ended holds nothing. -/
theorem idle_of_ended {op : Op T K V} (hop : op = .commit t ∨ op = .rollback t)
    (h : tab.step op = some tab') : tab'.Idle t := by
  rcases hop with rfl | rfl <;> obtain rfl := Option.some.inj h <;> exact idle_release tab t

/-! ### Systems over a table -/

section System

variable {S E : Type*} {sys : S → E → Option S} {table : S → Table T K V} {owner : E → T}
  {s s₁ s₂ s₃ : S} {es : List E}

/-- Every step of the system leaves the table alone, or is an operation on it on behalf
of the transaction that the event belongs to. -/
def Serves (sys : S → E → Option S) (table : S → Table T K V) (owner : E → T) : Prop :=
  ∀ s e s', sys s e = some s' →
    table s' = table s ∨ ∃ op : Op T K V, op.owner = owner e ∧ (table s).step op = some (table s')

/-- **The lock, over runs.** -/
theorem held_exec (hserves : Serves sys table owner)
    (hheld : (table s).uncommitted k = some (t, v)) (hes : exec sys s es = some s₁)
    (howner : ∀ e ∈ es, owner e ≠ t) :
    (table s₁).uncommitted k = some (t, v) ∧ (table s₁).committed k = (table s).committed k := by
  induction es generalizing s with
  | nil =>
      obtain rfl := Option.some.inj hes
      exact ⟨hheld, rfl⟩
  | cons e es ih =>
      rw [exec_cons, Option.bind_eq_some_iff] at hes
      obtain ⟨s', hstep, hes⟩ := hes
      obtain ⟨hheld', hsame⟩ : (table s').uncommitted k = some (t, v) ∧
          (table s').committed k = (table s).committed k := by
        rcases hserves s e s' hstep with htable | ⟨op, hop, htable⟩
        · rw [htable]
          exact ⟨hheld, rfl⟩
        · exact held_step hheld htable (hop ▸ howner e List.mem_cons_self)
      obtain ⟨hlast, hcommitted⟩ :=
        ih hheld' hes fun x hx => howner x (List.mem_cons_of_mem _ hx)
      exact ⟨hlast, hcommitted.trans hsame⟩

/-- What a transaction has written is what its commit leaves, and until then the row
stays as it was. -/
theorem committed_of_written (hserves : Serves sys table owner) {written : Option V}
    (hwrite : (table s).step (.write t k written) = some (table s₁))
    (hes : exec sys s₁ es = some s₂) (howner : ∀ e ∈ es, owner e ≠ t)
    (hcommit : (table s₂).step (.commit t) = some (table s₃)) :
    (table s₃).committed k = written ∧ (table s₂).committed k = (table s).committed k := by
  rw [step] at hwrite
  split at hwrite
  · have htable := (Option.some.inj hwrite).symm
    have hheld : (table s₁).uncommitted k = some (t, written) := by
      rw [htable]
      exact Function.update_self ..
    obtain ⟨hheld₂, hsame⟩ := held_exec hserves hheld hes howner
    refine ⟨?_, ?_⟩
    · rw [committed_commit hcommit, see_of_held hheld₂]
    · rw [hsame, htable]
  · cases hwrite

/-- **Lost updates.**  A transaction writes a version of a row with the part `g` of an
earlier read, and commits.  The commit leaves the part of the row as the others have it
if and only if nobody had changed it when the row was written. -/
theorem commit_keeps_iff {W : Type*} (g : Option V → W) (hserves : Serves sys table owner)
    {read written : Option V} (hg : g written = g read)
    (hwrite : (table s).step (.write t k written) = some (table s₁))
    (hes : exec sys s₁ es = some s₂) (howner : ∀ e ∈ es, owner e ≠ t)
    (hcommit : (table s₂).step (.commit t) = some (table s₃)) :
    g ((table s₃).committed k) = g ((table s₂).committed k) ↔
      g ((table s).committed k) = g read := by
  obtain ⟨hlast, hsame⟩ := committed_of_written hserves hwrite hes howner hcommit
  rw [hlast, hsame, hg]
  exact eq_comm

end System

end Table

end AideepWebsocket.Library
