import Mathlib.Data.List.Basic

/-!
# Readers and mergers

A text that is read item by item: what the last items have brought stays open
until the reader sees that it is complete, and only then is it emitted.  An item
that closes whatever is open and opens nothing of its own *separates* the text
before it from the text after it, which are then read as if there were only one
of them (`read_separated`).

What has been emitted may afterwards be merged with its neighbours, an element
with the next one of its kind.  At the seam of two lists this does nothing
(`merge_append_of_apart`), or it puts something bigger in the place of the first
element of the second list (`merge_append_of_meets`).
-/

namespace AideepWebsocket.Library

universe u v w

/-! ### Readers -/

/-- A machine that reads items of `ι` and emits elements of `ο`; what is open is
a state of `σ`. -/
structure Reader (σ : Type u) (ι : Type v) (ο : Type w) where
  /-- Nothing is open. -/
  start : σ
  /-- What is open after an item, and the elements that it has closed. -/
  next : σ → ι → σ × List ο
  /-- The elements that the end of the text closes. -/
  finish : σ → List ο

namespace Reader

variable {σ : Type u} {ι : Type v} {ο : Type w} (R : Reader σ ι ο)

/-- What is open once the items have been read. -/
def opened : σ → List ι → σ
  | o, [] => o
  | o, item :: items => opened (R.next o item).1 items

/-- The elements of the items, of which the first belongs to what is open. -/
def readFrom : σ → List ι → List ο
  | o, [] => R.finish o
  | o, item :: items => (R.next o item).2 ++ readFrom (R.next o item).1 items

/-- The elements of a text. -/
def read (items : List ι) : List ο := R.readFrom R.start items

/-- An item closes what is open and opens nothing. -/
def Separates (o : σ) (item : ι) : Prop := R.next o item = (R.start, R.finish o)

variable {R}

/-- What is open before the first list is closed at the separator. -/
theorem readFrom_separated {item : ι} {xs : List ι} {o : σ}
    (h : R.Separates (R.opened o xs) item) (ys : List ι) :
    R.readFrom o (xs ++ item :: ys) = R.readFrom o xs ++ R.read ys := by
  induction xs generalizing o with
  | nil =>
    have hnext : R.next o item = (R.start, R.finish o) := h
    show (R.next o item).2 ++ R.readFrom (R.next o item).1 ys = R.finish o ++ R.read ys
    rw [hnext]
    rfl
  | cons x xs ih =>
    have hrest := ih (o := (R.next o x).1) h
    rw [List.cons_append, readFrom, hrest, readFrom, List.append_assoc]

/-- **What an item separates is read apart.** -/
theorem read_separated {item : ι} {xs : List ι} (h : R.Separates (R.opened R.start xs) item)
    (ys : List ι) : R.read (xs ++ item :: ys) = R.read xs ++ R.read ys :=
  readFrom_separated h ys

/-- What every step emits is what is read. -/
theorem forall_mem_readFrom {P : ο → Prop} (hnext : ∀ o item, ∀ x ∈ (R.next o item).2, P x)
    (hfinish : ∀ o, ∀ x ∈ R.finish o, P x) (items : List ι) (o : σ) :
    ∀ x ∈ R.readFrom o items, P x := by
  induction items generalizing o with
  | nil => exact hfinish o
  | cons item items ih =>
    intro x hx
    rcases List.mem_append.mp hx with hx | hx
    · exact hnext o item x hx
    · exact ih _ x hx

end Reader

/-! ### Mergers -/

/-- Elements that have a kind are joined with a neighbour of that kind. -/
structure Merger (α : Type u) (κ : Type v) where
  kind : α → Option κ
  join : α → α → α
  /-- What two elements are joined to is of their kind. -/
  kind_join : ∀ {a b k}, kind a = some k → kind b = some k → kind (join a b) = some k

namespace Merger

variable {α : Type u} {κ : Type v} (M : Merger α κ)

/-- The two have the same kind. -/
def Meets (a b : α) : Prop := ∃ k, M.kind a = some k ∧ M.kind b = some k

instance [DecidableEq κ] (a b : α) : Decidable (M.Meets a b) :=
  decidable_of_iff (M.kind a = M.kind b ∧ (M.kind a).isSome) <| by
    constructor
    · rintro ⟨hsame, hsome⟩
      obtain ⟨k, hk⟩ := Option.isSome_iff_exists.mp hsome
      exact ⟨k, hk, hsame ▸ hk⟩
    · rintro ⟨k, ha, hb⟩
      exact ⟨ha.trans hb.symm, by rw [ha]; rfl⟩

/-- The last element of one list and the first of another are not of one kind. -/
def Apart (xs ys : List α) : Prop := ∀ a ∈ xs.getLast?, ∀ b ∈ ys.head?, ¬ M.Meets a b

/-- An element that is joined with the next one is bigger than that one was. -/
def Grows (size : α → ℕ) (a : α) : Prop := ∀ b, M.Meets a b → size b < size (M.join a b)

variable {M}

/-- What is joined is of the kind of its second part. -/
theorem kind_join_of_meets {a b : α} (h : M.Meets a b) : M.kind (M.join a b) = M.kind b := by
  obtain ⟨k, ha, hb⟩ := h
  rw [M.kind_join ha hb, hb]

/-- Only the kinds matter. -/
theorem Meets.congr {a a' b b' : α} (h : M.Meets a b) (ha : M.kind a' = M.kind a)
    (hb : M.kind b' = M.kind b) : M.Meets a' b' := by
  obtain ⟨k, hk, hk'⟩ := h
  exact ⟨k, ha.trans hk, hb.trans hk'⟩

variable [DecidableEq κ]

variable (M) in
/-- An element before a list of merged ones. -/
def put (a : α) : List α → List α
  | [] => [a]
  | b :: bs => if M.Meets a b then M.join a b :: bs else a :: b :: bs

variable (M) in
/-- Neighbours of one kind are joined. -/
def merge (xs : List α) : List α := xs.foldr M.put []

@[simp] theorem merge_nil : M.merge [] = [] := rfl

/-- An element is put before the merged rest. -/
theorem merge_cons (x : α) (xs : List α) : M.merge (x :: xs) = M.put x (M.merge xs) := rfl

/-- The elements of the first list are put before the merged second one. -/
theorem merge_append (xs ys : List α) : M.merge (xs ++ ys) = xs.foldr M.put (M.merge ys) :=
  List.foldr_append

theorem put_of_meets {a b : α} (h : M.Meets a b) (bs : List α) :
    M.put a (b :: bs) = M.join a b :: bs := if_pos h

theorem put_of_not_meets {a b : α} (h : ¬ M.Meets a b) (bs : List α) :
    M.put a (b :: bs) = a :: b :: bs := if_neg h

/-- What is put is there. -/
theorem put_ne_nil (x : α) (zs : List α) : M.put x zs ≠ [] := by
  cases zs with
  | nil => exact List.cons_ne_nil x []
  | cons z zs =>
    rw [put]
    split <;> exact List.cons_ne_nil _ _

/-- Nothing is merged into nothing. -/
theorem merge_eq_nil_iff {xs : List α} : M.merge xs = [] ↔ xs = [] := by
  cases xs with
  | nil => simp
  | cons x xs => simp [merge_cons, put_ne_nil]

/-- An element meets the first one at most. -/
theorem put_append (x : α) {zs : List α} (hzs : zs ≠ []) (ws : List α) :
    M.put x (zs ++ ws) = M.put x zs ++ ws := by
  obtain ⟨z, zs, rfl⟩ := List.exists_cons_of_ne_nil hzs
  rw [List.cons_append, put, put]
  split <;> rfl

/-- What holds of the elements and of those they are joined to holds of the merged
ones. -/
theorem forall_mem_merge {P : α → Prop}
    (hjoin : ∀ {a b}, M.Meets a b → P a → P b → P (M.join a b)) {xs : List α}
    (hxs : ∀ x ∈ xs, P x) : ∀ x ∈ M.merge xs, P x := by
  induction xs with
  | nil => exact hxs
  | cons x xs ih =>
    rw [List.forall_mem_cons] at hxs
    have hrest := ih hxs.2
    rw [merge_cons]
    cases hmerge : M.merge xs with
    | nil => exact List.forall_mem_singleton.mpr hxs.1
    | cons y ys =>
      rw [hmerge, List.forall_mem_cons] at hrest
      rw [put]
      split
      next hmeets => exact List.forall_mem_cons.mpr ⟨hjoin hmeets hxs.1 hrest.1, hrest.2⟩
      next => exact List.forall_mem_cons.mpr ⟨hxs.1, List.forall_mem_cons.mpr hrest⟩

/-- The last element keeps its kind when something is put before it. -/
theorem kind_getLast_put (x : α) {zs : List α} {z : α} (hz : z ∈ zs.getLast?) :
    ∃ y ∈ (M.put x zs).getLast?, M.kind y = M.kind z := by
  match zs, hz with
  | [w], hz =>
    obtain rfl : w = z := Option.some.inj hz
    rw [put]
    split
    next hmeets => exact ⟨_, rfl, kind_join_of_meets hmeets⟩
    next => exact ⟨w, rfl, rfl⟩
  | v :: w :: ws, hz =>
    rw [put]
    split
    all_goals exact ⟨z, hz, rfl⟩

/-- Put one by one, elements that are apart from a list meet none of it. -/
theorem foldr_put_of_apart {xs zs : List α} (h : M.Apart (M.merge xs) zs) :
    xs.foldr M.put zs = M.merge xs ++ zs := by
  induction xs with
  | nil => rfl
  | cons x xs ih =>
    rw [merge_cons] at h
    rw [List.foldr_cons, merge_cons]
    by_cases hxs : M.merge xs = []
    · rw [hxs, put] at h ⊢
      rw [merge_eq_nil_iff.mp hxs, List.foldr_nil]
      cases zs with
      | nil => rfl
      | cons z zs => exact put_of_not_meets (h x rfl z rfl) zs
    · have hapart : M.Apart (M.merge xs) zs := by
        intro l hl z hz hmeets
        obtain ⟨y, hy, hkind⟩ := kind_getLast_put (M := M) x hl
        exact h y hy z hz (hmeets.congr hkind rfl)
      rw [ih hapart, put_append x hxs]

/-- **Apart, they are merged apart**: nothing happens at the seam. -/
theorem merge_append_of_apart {xs ys : List α} (h : M.Apart (M.merge xs) (M.merge ys)) :
    M.merge (xs ++ ys) = M.merge xs ++ M.merge ys := by
  rw [merge_append, foldr_put_of_apart h]

/-- Otherwise the last of them grows around the first of the list. -/
theorem foldr_put_of_meets {size : α → ℕ} {xs : List α} (hgrows : ∀ x ∈ xs, M.Grows size x)
    {l z : α} (hl : l ∈ (M.merge xs).getLast?) (hmeets : M.Meets l z) (zs : List α) :
    ∃ c, xs.foldr M.put (z :: zs) = (M.merge xs).dropLast ++ c :: zs ∧ M.kind c = M.kind z ∧
      size z < size c := by
  induction xs generalizing l with
  | nil => exact absurd hl (Option.not_mem_none l)
  | cons x xs ih =>
    rw [List.forall_mem_cons] at hgrows
    rw [merge_cons] at hl ⊢
    rw [List.foldr_cons]
    by_cases hxs : M.merge xs = []
    · rw [hxs] at hl ⊢
      obtain rfl : x = l := Option.some.inj hl
      rw [merge_eq_nil_iff.mp hxs, List.foldr_nil, put_of_meets hmeets]
      exact ⟨_, rfl, kind_join_of_meets hmeets, hgrows.1 z hmeets⟩
    obtain ⟨ms, m, hms⟩ : ∃ ms m, M.merge xs = ms ++ [m] :=
      ⟨_, _, (List.dropLast_append_getLast hxs).symm⟩
    have hm : m ∈ (M.merge xs).getLast? := by rw [hms]; exact List.getLast?_concat
    obtain ⟨y, hy, hkind⟩ := kind_getLast_put (M := M) x hm
    obtain rfl : y = l := Option.mem_unique hy hl
    obtain ⟨c, hc, hkindc, hsize⟩ := ih hgrows.2 hm (hmeets.congr hkind.symm rfl)
    rw [hc, hms, List.dropLast_concat]
    have hcm : M.kind c = M.kind m := by
      obtain ⟨k, hk, hz⟩ := hmeets
      rw [hkindc, hz, ← hkind, hk]
    cases ms with
    | cons n ns =>
      -- The seam is further on.
      have hne : n :: ns ≠ [] := List.cons_ne_nil n ns
      rw [put_append x hne, put_append x hne, List.dropLast_concat]
      exact ⟨c, rfl, hkindc, hsize⟩
    | nil =>
      by_cases hx : M.Meets x m
      · have hxc : M.Meets x c := hx.congr rfl hcm
        rw [List.nil_append, List.nil_append, put_of_meets hx, put_of_meets hxc]
        exact ⟨_, rfl, (kind_join_of_meets hxc).trans hkindc, Nat.lt_trans hsize (hgrows.1 c hxc)⟩
      · have hxc : ¬ M.Meets x c := fun h => hx (h.congr rfl hcm.symm)
        rw [List.nil_append, List.nil_append, put_of_not_meets hx, put_of_not_meets hxc]
        exact ⟨c, rfl, hkindc, hsize⟩

/-- **Where two of one kind meet**, the first element of the second list has become
bigger. -/
theorem merge_append_of_meets {size : α → ℕ} {xs ys zs : List α}
    (hgrows : ∀ x ∈ xs, M.Grows size x) {l z : α} (hl : l ∈ (M.merge xs).getLast?)
    (hz : M.merge ys = z :: zs) (hmeets : M.Meets l z) :
    ∃ c, M.merge (xs ++ ys) = (M.merge xs).dropLast ++ c :: zs ∧ size z < size c := by
  obtain ⟨c, hc, -, hsize⟩ := foldr_put_of_meets hgrows hl hmeets zs
  exact ⟨c, by rw [merge_append, hz, hc], hsize⟩

end Merger

end AideepWebsocket.Library
