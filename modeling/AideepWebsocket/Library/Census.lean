import Mathlib.Algebra.BigOperators.Group.Finset.Basic
import Mathlib.Algebra.BigOperators.Ring.Nat
import Mathlib.Tactic.Ring

/-!
# How many are under way

A table holds what is under way, under numbers that are given out in turn.  `census p f n`
counts the entries below `n` with the property `p`.  What is done to the table is of three
kinds, and there is a rule for each: an entry is opened under the next number
(`census_open`), an entry goes on or is closed (`census_update`), and all are closed
(`census_none`).
-/

namespace AideepWebsocket.Library

variable {α : Type*} (p : α → Bool) (f : ℕ → Option α)

/-- One for an entry with the property. -/
def tally (x : Option α) : ℕ := if x.any p then 1 else 0

@[simp] theorem tally_none : tally p none = 0 := rfl

/-- The number of entries below `n` with the property. -/
def census (n : ℕ) : ℕ := ∑ i ∈ Finset.range n, tally p (f i)

@[simp] theorem census_zero : census p f 0 = 0 := rfl

variable {p f}

/-- An entry goes on, or is closed. -/
theorem census_update {i n : ℕ} (hi : i < n) (y : Option α) :
    census p (Function.update f i y) n + tally p (f i) = census p f n + tally p y := by
  have hmem : i ∈ Finset.range n := Finset.mem_range.mpr hi
  have hrest : ∑ j ∈ (Finset.range n).erase i, tally p (Function.update f i y j) =
      ∑ j ∈ (Finset.range n).erase i, tally p (f j) :=
    Finset.sum_congr rfl fun j hj => by rw [Function.update_of_ne (Finset.ne_of_mem_erase hj)]
  have hnew := Finset.add_sum_erase _ (fun j => tally p (Function.update f i y j)) hmem
  have hold := Finset.add_sum_erase _ (fun j => tally p (f j)) hmem
  rw [census, census, ← hnew, ← hold, hrest]
  simp only [Function.update_self]
  ring

/-- An entry is opened under the next number. -/
theorem census_open (n : ℕ) (y : Option α) :
    census p (Function.update f n y) (n + 1) = census p f n + tally p y := by
  rw [census, Finset.sum_range_succ, Function.update_self]
  congr 1
  exact Finset.sum_congr rfl fun i hi => by
    rw [Function.update_of_ne (Finset.mem_range.mp hi).ne]

/-- All entries are closed. -/
theorem census_none (n : ℕ) : census p (fun _ => none) n = 0 := by
  simp [census]

end AideepWebsocket.Library
