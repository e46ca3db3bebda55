import Mathlib.Algebra.GroupWithZero.Nat
import Mathlib.Data.List.DropRight

/-!
# Strings of JavaScript

The operations on strings that the source calls, with the whitespace of
`String.prototype.trim`, which is also that of `\s` in a regular expression.
-/

namespace AideepWebsocket.Library

/-- What `String.prototype.trim` strips. -/
def isWhitespace (c : Char) : Bool :=
  [0x9, 0xA, 0xB, 0xC, 0xD, 0x20, 0xA0, 0x1680, 0x2028, 0x2029, 0x202F, 0x205F, 0x3000,
    0xFEFF].contains c.toNat || (0x2000 ≤ c.toNat && c.toNat ≤ 0x200A)

/-- `!markdown.trim()`. -/
def blank (markdown : String) : Bool := markdown.toList.all isWhitespace

/-- `String.prototype.length`, in UTF-16 code units. -/
def utf16Length (s : String) : ℕ :=
  (s.toList.map fun c => if c.toNat < 0x10000 then 1 else 2).sum

/-- `s.replace(/\s+$/, '')`. -/
def trimEnd (s : String) : String := String.ofList (s.toList.rdropWhile isWhitespace)

@[simp] theorem trimEnd_empty : trimEnd "" = "" := by
  simp [trimEnd]

/-- `s.split('\n')`. -/
def lines (s : String) : List String := (s.toList.splitOn '\n').map String.ofList

/-- A line break splits the text before it from the text after it. -/
theorem lines_append (s t : String) : lines (s ++ "\n" ++ t) = lines s ++ lines t := by
  have h : (s ++ "\n" ++ t).toList = s.toList ++ '\n' :: t.toList := by simp
  rw [lines, h, List.splitOn_append_cons_self, List.map_append]
  rfl

@[simp] theorem lines_empty : lines "" = [""] := by
  simp [lines]

end AideepWebsocket.Library
