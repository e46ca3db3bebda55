import Mathlib.Logic.Function.Basic

/-!
# Values as text

A **codec** writes the values of a type as texts of another and reads them back; the round
trip is a field of it, so whatever is written with a codec is told apart by its text.

The second half is about names that are put together with a separator.  Two names of
different kinds differ if neither of their beginnings continues the other
(`append_ne_append`), and a part that does not contain the separator can be split off
(`append_cons_inj`).
-/

namespace AideepWebsocket.Library

universe u v

/-- A way of writing values of `α` as texts of `τ`, which can be read back. -/
structure Codec (α : Type u) (τ : Type v) where
  write : α → τ
  read : τ → Option α
  read_write : ∀ a, read (write a) = some a

namespace Codec

variable {α : Type u} {τ : Type v}

/-- Different values are written differently. -/
theorem write_injective (c : Codec α τ) : Function.Injective c.write := by
  intro a b h
  have hread := c.read_write a
  rw [h, c.read_write b] at hread
  exact (Option.some.inj hread).symm

/-- A text tells which value has been written. -/
theorem write_inj (c : Codec α τ) {a b : α} : c.write a = c.write b ↔ a = b :=
  c.write_injective.eq_iff

end Codec

/-! ### Names -/

variable {α : Type u}

/-- What begins differently is different. -/
theorem append_ne_append {p q x y : List α} (h : ¬ p <+: q) (h' : ¬ q <+: p) :
    p ++ x ≠ q ++ y := by
  intro heq
  have hp : p <+: q ++ y := ⟨x, heq⟩
  have hq : q <+: q ++ y := List.prefix_append q y
  rcases Nat.le_total p.length q.length with hle | hle
  · exact h (List.prefix_of_prefix_length_le hp hq hle)
  · exact h' (List.prefix_of_prefix_length_le hq hp hle)

/-- A part without the separator ends at the first one. -/
theorem append_cons_inj {c : α} {x y x' y' : List α} (hx : c ∉ x) (hy : c ∉ y)
    (h : x ++ c :: x' = y ++ c :: y') : x = y ∧ x' = y' := by
  induction x generalizing y with
  | nil =>
      cases y with
      | nil => exact ⟨rfl, (List.cons.inj h).2⟩
      | cons a y =>
          obtain ⟨rfl, -⟩ := List.cons.inj h
          exact absurd List.mem_cons_self hy
  | cons a x ih =>
      cases y with
      | nil =>
          obtain ⟨rfl, -⟩ := List.cons.inj h
          exact absurd List.mem_cons_self hx
      | cons b y =>
          obtain ⟨rfl, htail⟩ := List.cons.inj h
          obtain ⟨heq, hrest⟩ := ih (fun hc => hx (List.mem_cons_of_mem _ hc))
            (fun hc => hy (List.mem_cons_of_mem _ hc)) htail
          exact ⟨by rw [heq], hrest⟩

end AideepWebsocket.Library
