import Mathlib.Data.Finset.Card
import Mathlib.Data.Finset.Image
import Mathlib.Data.Finset.Lattice.Fold
import Mathlib.Data.Nat.Find
import Mathlib.Order.Lattice.Nat

/-!
# Version vectors of item sets

A replica numbers the items it creates by a clock of its own, so a set of items
is a finite set of pairs `(actor, clock)`.  Items are integrated in clock order:
an item whose predecessor has not arrived is kept, but *pending*.  The version
vector of a set names, for each actor, the next clock it expects.

Two facts are used about the projection from item sets to their vectors:

* it determines the integrated items (`integrated_eq_of_vector_eq`) and nothing
  else — the pending items are not seen by it;
* what a peer must be sent is what lies at or above its vector
  (`subset_union_missing`).
-/

namespace AideepWebsocket.Library.VersionVector

universe u

variable {A : Type u} [DecidableEq A]

/-- The next clock expected of an actor: the length of the gap-free run of its
items that starts at clock `0`. -/
def clock (s : Finset (A × ℕ)) (a : A) : ℕ :=
  Nat.findGreatest (fun k => ∀ j < k, (a, j) ∈ s) s.card

/-- The gap-free run of an actor's items is no longer than the set. -/
theorem le_card_of_forall_mem {s : Finset (A × ℕ)} {a : A} {k : ℕ}
    (h : ∀ j < k, (a, j) ∈ s) : k ≤ s.card := by
  have hsub : (Finset.range k).image (fun j => (a, j)) ⊆ s := by
    intro x hx
    obtain ⟨j, hj, rfl⟩ := Finset.mem_image.mp hx
    exact h j (Finset.mem_range.mp hj)
  have hcard := Finset.card_le_card hsub
  rwa [Finset.card_image_of_injective _ (fun i j hij => (Prod.mk.inj hij).2),
    Finset.card_range] at hcard

/-- A clock is below the next expected one when no item up to it is missing. -/
theorem lt_clock_iff {s : Finset (A × ℕ)} {a : A} {k : ℕ} :
    k < clock s a ↔ ∀ j ≤ k, (a, j) ∈ s := by
  constructor
  · intro hk j hj
    have hspec : ∀ j < clock s a, (a, j) ∈ s :=
      Nat.findGreatest_spec (P := fun k => ∀ j < k, (a, j) ∈ s) (Nat.zero_le _)
        (fun j hj => absurd hj (Nat.not_lt_zero j))
    exact hspec j (hj.trans_lt hk)
  · intro h
    have hall : ∀ j < k + 1, (a, j) ∈ s := fun j hj => h j (Nat.lt_succ_iff.mp hj)
    exact Nat.le_findGreatest (le_card_of_forall_mem hall) hall

theorem mem_of_lt_clock {s : Finset (A × ℕ)} {a : A} {k : ℕ} (h : k < clock s a) :
    (a, k) ∈ s :=
  lt_clock_iff.mp h k le_rfl

/-- **The version vector**: the actors with at least one integrated item, each
with its next clock. -/
def vector (s : Finset (A × ℕ)) : Finset (A × ℕ) :=
  ((s.image Prod.fst).image fun a => (a, clock s a)).filter fun x => 0 < x.2

theorem mem_vector {s : Finset (A × ℕ)} {a : A} {n : ℕ} :
    (a, n) ∈ vector s ↔ n = clock s a ∧ 0 < n := by
  simp only [vector, Finset.mem_filter, Finset.mem_image, Prod.mk.injEq]
  constructor
  · rintro ⟨⟨b, -, rfl, rfl⟩, hpos⟩
    exact ⟨rfl, hpos⟩
  · rintro ⟨rfl, hpos⟩
    exact ⟨⟨a, ⟨(a, 0), mem_of_lt_clock hpos, rfl⟩, rfl, rfl⟩, hpos⟩

/-- Vectors are equal exactly when all clocks are. -/
theorem vector_eq_iff {s t : Finset (A × ℕ)} :
    vector s = vector t ↔ ∀ a, clock s a = clock t a := by
  constructor
  · intro h a
    rcases Nat.eq_zero_or_pos (clock s a) with hs | hs
    · rcases Nat.eq_zero_or_pos (clock t a) with ht | ht
      · rw [hs, ht]
      · have : (a, clock t a) ∈ vector s := h ▸ mem_vector.mpr ⟨rfl, ht⟩
        exact (mem_vector.mp this).1.symm
    · have : (a, clock s a) ∈ vector t := h ▸ mem_vector.mpr ⟨rfl, hs⟩
      exact (mem_vector.mp this).1
  · intro h
    ext ⟨a, n⟩
    rw [mem_vector, mem_vector, h]

/-- The items that have no gap below them. -/
def integrated (s : Finset (A × ℕ)) : Finset (A × ℕ) :=
  s.filter fun x => x.2 < clock s x.1

/-- The items that wait for a predecessor. -/
def pending (s : Finset (A × ℕ)) : Finset (A × ℕ) :=
  s.filter fun x => clock s x.1 ≤ x.2

theorem mem_integrated {s : Finset (A × ℕ)} {x : A × ℕ} :
    x ∈ integrated s ↔ x.2 < clock s x.1 := by
  simp only [integrated, Finset.mem_filter, and_iff_right_iff_imp]
  exact fun h => mem_of_lt_clock h

/-- Every item is integrated or pending. -/
theorem mem_integrated_or_pending {s : Finset (A × ℕ)} {x : A × ℕ} (hx : x ∈ s) :
    x ∈ integrated s ∨ x ∈ pending s := by
  rcases lt_or_ge x.2 (clock s x.1) with h | h
  · exact Or.inl (mem_integrated.mpr h)
  · exact Or.inr (Finset.mem_filter.mpr ⟨hx, h⟩)

theorem integrated_subset (s : Finset (A × ℕ)) : integrated s ⊆ s :=
  Finset.filter_subset _ _

/-- Sets of different actors do not wait for each other. -/
theorem integrated_union {s t : Finset (A × ℕ)} (h : ∀ x ∈ s, ∀ y ∈ t, x.1 ≠ y.1) :
    integrated (s ∪ t) = integrated s ∪ integrated t := by
  ext ⟨a, k⟩
  simp only [mem_integrated, Finset.mem_union, lt_clock_iff]
  constructor
  · intro hall
    rcases hall k le_rfl with hs | ht
    · exact Or.inl fun j hj => (hall j hj).resolve_right fun hj' => h _ hs _ hj' rfl
    · exact Or.inr fun j hj => (hall j hj).resolve_left fun hj' => h _ hj' _ ht rfl
  · rintro (hs | ht) j hj
    · exact Or.inl (hs j hj)
    · exact Or.inr (ht j hj)

/-- **The vector determines the integrated items.** -/
theorem integrated_eq_of_vector_eq {s t : Finset (A × ℕ)} (h : vector s = vector t) :
    integrated s = integrated t := by
  ext x
  rw [mem_integrated, mem_integrated, vector_eq_iff.mp h]

/-- Against a set that has everything of another with the same vector, only the
pending items remain to be compared. -/
theorem subset_of_vector_eq {s t u : Finset (A × ℕ)} (h : vector s = vector t) (htu : t ⊆ u)
    (hpending : pending s ⊆ u) : s ⊆ u := by
  intro x hx
  rcases mem_integrated_or_pending hx with hint | hpen
  · rw [integrated_eq_of_vector_eq h] at hint
    exact htu (integrated_subset t hint)
  · exact hpending hpen

/-! ### What a peer is missing -/

/-- The clock a vector records for an actor; `0` when it does not name it. -/
def lookup (v : Finset (A × ℕ)) (a : A) : ℕ :=
  (v.filter fun x => x.1 = a).sup Prod.snd

/-- A vector records the clocks it was made from. -/
theorem lookup_vector (s : Finset (A × ℕ)) (a : A) :
    lookup (vector s) a = clock s a := by
  apply le_antisymm
  · refine Finset.sup_le fun x hx => ?_
    obtain ⟨hmem, rfl⟩ := Finset.mem_filter.mp hx
    exact (mem_vector.mp hmem).1.le
  · rcases Nat.eq_zero_or_pos (clock s a) with h | h
    · omega
    · exact Finset.le_sup (f := Prod.snd) (b := (a, clock s a))
        (Finset.mem_filter.mpr ⟨mem_vector.mpr ⟨rfl, h⟩, rfl⟩)

/-- The items at or above a vector. -/
def missing (s v : Finset (A × ℕ)) : Finset (A × ℕ) :=
  s.filter fun x => lookup v x.1 ≤ x.2

theorem missing_subset (s v : Finset (A × ℕ)) : missing s v ⊆ s :=
  Finset.filter_subset _ _

/-- A peer that is sent what lies above its own vector has everything. -/
theorem subset_union_missing (s t : Finset (A × ℕ)) :
    s ⊆ t ∪ missing s (vector t) := by
  intro x hx
  rw [Finset.mem_union]
  rcases lt_or_ge x.2 (clock t x.1) with h | h
  · exact Or.inl (mem_of_lt_clock h)
  · refine Or.inr (Finset.mem_filter.mpr ⟨hx, ?_⟩)
    rw [lookup_vector]
    exact h

@[simp] theorem missing_empty (s : Finset (A × ℕ)) : missing s ∅ = s := by
  simp [missing, lookup]

end AideepWebsocket.Library.VersionVector
