import Mathlib.Data.Finset.Sort
import Mathlib.Data.List.Perm.Subperm

/-!
# Replicated sequences

The elements of a replicated sequence have names, and a replica is the set of the names
that it holds.  An `Arrangement` says in which order a set is read.  It carries the two
facts that make the replicas of a sequence agree: every element is read once, and an
element that arrives does not move those that are there (`stable`).

What is read of a merge follows without a look at the order.  Replicas that have no name
in common contribute all they have (`read_union_perm`), so **a merge reads as before
exactly if the other replica has nothing to read** (`read_union_eq_iff`): a sequence never
notices that two elements of different names are alike.
-/

namespace AideepWebsocket.Library

universe u v

/-- The order in which the elements of a set are read. -/
structure Arrangement (I : Type u) where
  list : Finset I → List I
  nodup : ∀ s, (list s).Nodup
  mem : ∀ {s i}, i ∈ list s ↔ i ∈ s
  /-- What is added does not move what is there. -/
  stable : ∀ {s t}, s ⊆ t → (list s).Sublist (list t)

namespace Arrangement

variable {I : Type u} {α : Type v}

/-- A linear order of the names arranges every set of them. -/
def ofLinearOrder (I : Type u) [LinearOrder I] : Arrangement I where
  list s := s.sort (· ≤ ·)
  nodup s := s.sort_nodup (· ≤ ·)
  mem := Finset.mem_sort (· ≤ ·)
  stable := by
    intro s t hst
    refine List.sublist_of_subperm_of_pairwise ((s.sort_nodup (· ≤ ·)).subperm fun i hi => ?_)
      (s.pairwise_sort (· ≤ ·)) (t.pairwise_sort (· ≤ ·))
    exact (Finset.mem_sort (· ≤ ·)).mpr (hst ((Finset.mem_sort (· ≤ ·)).mp hi))

variable (a : Arrangement I) (content : I → Option α) {s t : Finset I}

/-- What is read of a set: some names stand for no element. -/
def read (s : Finset I) : List α := (a.list s).filterMap content

/-- One name is read as its element. -/
theorem read_singleton (i : I) : a.read content {i} = (content i).toList := by
  have hlist : a.list {i} = [i] := by
    refine List.perm_singleton.mp ((List.perm_ext_iff_of_nodup (a.nodup _)
      (List.nodup_singleton i)).mpr fun j => ?_)
    rw [a.mem, Finset.mem_singleton, List.mem_singleton]
  rw [read, hlist]
  cases hcontent : content i <;> simp [hcontent]

/-- What has been read is still read, in its order. -/
theorem read_sublist (hst : s ⊆ t) : (a.read content s).Sublist (a.read content t) :=
  (a.stable hst).filterMap content

variable [DecidableEq I]

theorem list_union_perm (h : Disjoint s t) :
    (a.list (s ∪ t)).Perm (a.list s ++ a.list t) := by
  have hnodup : (a.list s ++ a.list t).Nodup := by
    refine List.Nodup.append (a.nodup s) (a.nodup t) fun i hs ht => ?_
    exact Finset.disjoint_left.mp h (a.mem.mp hs) (a.mem.mp ht)
  refine (List.perm_ext_iff_of_nodup (a.nodup _) hnodup).mpr fun i => ?_
  rw [List.mem_append, a.mem, a.mem, a.mem, Finset.mem_union]

/-- **Replicas without a common name** contribute all they have to a merge. -/
theorem read_union_perm (h : Disjoint s t) :
    (a.read content (s ∪ t)).Perm (a.read content s ++ a.read content t) := by
  unfold read
  rw [← List.filterMap_append]
  exact (a.list_union_perm h).filterMap content

/-- **A merge reads as before exactly if the other replica has nothing to read.** -/
theorem read_union_eq_iff (h : Disjoint s t) :
    a.read content (s ∪ t) = a.read content s ↔ a.read content t = [] := by
  have hlength := (a.read_union_perm content h).length_eq
  rw [List.length_append] at hlength
  constructor
  · intro hsame
    rw [hsame] at hlength
    exact List.eq_nil_of_length_eq_zero (by omega)
  · intro hnil
    rw [hnil, List.length_nil, Nat.add_zero] at hlength
    exact ((a.read_sublist content Finset.subset_union_left).eq_of_length hlength.symm).symm

end Arrangement

end AideepWebsocket.Library
