import Mathlib.Data.Bool.AllAny
import Mathlib.Data.Nat.Notation

/-!
# JSON

The trees that `JSON.parse` yields, and the text that `JSON.stringify` makes of
them.  Two facts about that text are of use to whoever searches it instead of the
tree: a string value stands in it between its quotes (`quote_infix_stringify`), and
no control character does (`le_of_mem_stringify`).
-/

namespace AideepWebsocket.Library

/-- A JSON value; a number is kept as the literal that JavaScript prints. -/
inductive Json
  | null
  | bool (b : Bool)
  | number (literal : String)
  | string (s : String)
  | array (items : List Json)
  | object (fields : List (String × Json))

namespace Json

/-- `!value`. -/
def falsy : Json → Bool
  | null => true
  | bool b => !b
  | number literal => literal == "0"
  | string s => s == ""
  | array _ | object _ => false

/-- A character inside of a string literal. -/
def escape (c : Char) : List Char :=
  match c.toNat with
  | 0x22 => ['\\', '"']
  | 0x5C => ['\\', '\\']
  | 0x08 => ['\\', 'b']
  | 0x0C => ['\\', 'f']
  | 0x0A => ['\\', 'n']
  | 0x0D => ['\\', 'r']
  | 0x09 => ['\\', 't']
  | n =>
      if n < 0x20 then ['\\', 'u', '0', '0', (n / 16).digitChar, (n % 16).digitChar]
      else [c]

/-- A string literal. -/
def quote (s : String) : List Char := '"' :: s.toList.flatMap escape ++ ['"']

mutual

/-- `JSON.stringify`. -/
def stringify : Json → List Char
  | null => "null".toList
  | bool true => "true".toList
  | bool false => "false".toList
  | number literal => literal.toList
  | string s => quote s
  | array items => '[' :: stringifyItems items ++ [']']
  | object fields => '{' :: stringifyFields fields ++ ['}']

def stringifyItems : List Json → List Char
  | [] => []
  | [item] => item.stringify
  | item :: items => item.stringify ++ ',' :: stringifyItems items

def stringifyFields : List (String × Json) → List Char
  | [] => []
  | [(name, value)] => quote name ++ ':' :: value.stringify
  | (name, value) :: fields =>
      quote name ++ ':' :: value.stringify ++ ',' :: stringifyFields fields

end

/-! ### Fields and templates -/

/-- `value.name`; `none` is `undefined`. -/
def get (name : String) : Json → Option Json
  | object fields => (fields.find? fun field => field.1 = name).map Prod.snd
  | _ => none

mutual

/-- `String(value)`; an array is its items, joined with commas. -/
def text : Json → String
  | null => "null"
  | bool b => toString b
  | number literal => literal
  | string s => s
  | array items => ",".intercalate (textOfItems items)
  | object _ => "[object Object]"

def textOfItems : List Json → List String
  | [] => []
  | null :: items => "" :: textOfItems items
  | item :: items => item.text :: textOfItems items

end

/-! ### The values of a tree -/

mutual

/-- The string values of a tree; the names of its fields are none. -/
def strings : Json → List String
  | string s => [s]
  | array items => stringsOfItems items
  | object fields => stringsOfFields fields
  | _ => []

def stringsOfItems : List Json → List String
  | [] => []
  | item :: items => item.strings ++ stringsOfItems items

def stringsOfFields : List (String × Json) → List String
  | [] => []
  | (_, value) :: fields => value.strings ++ stringsOfFields fields

end

mutual

/-- The literals of the numbers of a tree. -/
def numbers : Json → List String
  | number literal => [literal]
  | array items => numbersOfItems items
  | object fields => numbersOfFields fields
  | _ => []

def numbersOfItems : List Json → List String
  | [] => []
  | item :: items => item.numbers ++ numbersOfItems items

def numbersOfFields : List (String × Json) → List String
  | [] => []
  | (_, value) :: fields => value.numbers ++ numbersOfFields fields

end

/-- The numbers of a tree are literals that JavaScript prints: `-1`, `0.5`, `1e+21`. -/
def NumbersPrinted (content : Json) : Prop :=
  ∀ literal ∈ content.numbers, ∀ c ∈ literal.toList, c.isDigit ∨ c ∈ ['-', '+', '.', 'e']

/-- The numbers of an array are those of its items. -/
theorem numbersPrinted_array_cons {item : Json} {items : List Json} :
    (array (item :: items)).NumbersPrinted ↔
      item.NumbersPrinted ∧ (array items).NumbersPrinted := List.forall_mem_append

/-- The numbers of an object are those of its values. -/
theorem numbersPrinted_object_cons {name : String} {value : Json} {fields : List (String × Json)} :
    (object ((name, value) :: fields)).NumbersPrinted ↔
      value.NumbersPrinted ∧ (object fields).NumbersPrinted := List.forall_mem_append

/-! ### The text of a tree -/

/-- A hexadecimal digit is no control character. -/
private theorem digitChar_toNat {n : ℕ} (h : n < 16) : 0x20 ≤ n.digitChar.toNat := by
  revert n
  decide

/-- Only quotes, backslashes and control characters are escaped. -/
theorem escape_eq_self {c : Char} (hcontrol : 0x20 ≤ c.toNat) (hquote : c ≠ '"')
    (hbackslash : c ≠ '\\') : escape c = [c] := by
  have h22 : c.toNat ≠ 0x22 := fun h => hquote (Char.toNat_inj.mp h)
  have h5C : c.toNat ≠ 0x5C := fun h => hbackslash (Char.toNat_inj.mp h)
  unfold escape
  split <;> try omega
  exact if_neg (by omega)

/-- An escape has no control characters. -/
theorem le_of_mem_escape {c d : Char} (h : d ∈ escape c) : 0x20 ≤ d.toNat := by
  unfold escape at h
  split at h
  case h_8 n _ _ _ _ _ _ _ =>
    split at h
    · rename_i hn
      simp only [List.mem_cons, List.not_mem_nil, or_false] at h
      rcases h with rfl | rfl | rfl | rfl | rfl | rfl
      all_goals first | decide | exact digitChar_toNat (by omega)
    · obtain rfl := List.mem_singleton.mp h
      omega
  all_goals
    simp only [List.mem_cons, List.not_mem_nil, or_false] at h
    rcases h with rfl | rfl <;> decide

/-- A quoted string has no control character. -/
theorem le_of_mem_quote {s : String} {c : Char} (h : c ∈ quote s) : 0x20 ≤ c.toNat := by
  rcases List.mem_append.mp h with h | h
  · rcases List.mem_cons.mp h with rfl | h
    · decide
    · obtain ⟨d, -, hd⟩ := List.mem_flatMap.mp h
      exact le_of_mem_escape hd
  · obtain rfl := List.mem_singleton.mp h
    decide

/-- A string of which nothing is escaped stands between the quotes as it is. -/
theorem quote_of_escape {s : String} (h : ∀ c ∈ s.toList, escape c = [c]) :
    quote s = '"' :: s.toList ++ ['"'] := by
  have hself : s.toList.flatMap escape = s.toList := by
    rw [List.flatMap_def, List.map_congr_left h, ← List.flatMap_def]
    exact List.flatMap_singleton' _
  rw [quote, hself]

mutual

/-- A string value stands in the text, between its quotes. -/
theorem quote_infix_stringify {v : String} (content : Json) (h : v ∈ content.strings) :
    quote v <:+: content.stringify := by
  cases content with
  | string s =>
      obtain rfl := List.mem_singleton.mp h
      exact List.infix_rfl
  | array items =>
      have hitems := quote_infix_stringifyItems items h
      exact (hitems.trans (List.suffix_cons ..).isInfix).trans (List.prefix_append ..).isInfix
  | object fields =>
      have hfields := quote_infix_stringifyFields fields h
      exact (hfields.trans (List.suffix_cons ..).isInfix).trans (List.prefix_append ..).isInfix
  | null | bool | number => cases h

/-- A string in an item is in the text of the array. -/
theorem quote_infix_stringifyItems {v : String} (items : List Json)
    (h : v ∈ stringsOfItems items) : quote v <:+: stringifyItems items := by
  cases items with
  | nil => cases h
  | cons item items =>
      cases items with
      | nil =>
          rcases List.mem_append.mp h with h | h
          · exact quote_infix_stringify item h
          · cases h
      | cons next items =>
          rcases List.mem_append.mp h with h | h
          · exact (quote_infix_stringify item h).trans (List.prefix_append ..).isInfix
          · have hrest := quote_infix_stringifyItems (next :: items) h
            exact hrest.trans ((List.suffix_cons ..).trans (List.suffix_append ..)).isInfix

/-- A string in a value is in the text of the object. -/
theorem quote_infix_stringifyFields {v : String} (fields : List (String × Json))
    (h : v ∈ stringsOfFields fields) : quote v <:+: stringifyFields fields := by
  cases fields with
  | nil => cases h
  | cons field fields =>
      obtain ⟨name, value⟩ := field
      have hfield (hv : v ∈ value.strings) : quote v <:+: quote name ++ ':' :: value.stringify :=
        (quote_infix_stringify value hv).trans
          ((List.suffix_cons ..).trans (List.suffix_append ..)).isInfix
      cases fields with
      | nil =>
          rcases List.mem_append.mp h with h | h
          · exact hfield h
          · cases h
      | cons next fields =>
          rcases List.mem_append.mp h with h | h
          · exact (hfield h).trans (List.prefix_append ..).isInfix
          · have hrest := quote_infix_stringifyFields (next :: fields) h
            exact hrest.trans ((List.suffix_cons ..).trans (List.suffix_append ..)).isInfix

end

/-- A number has no control character. -/
private theorem le_of_mem_literal {literal : String} {c : Char}
    (hliteral : ∀ d ∈ literal.toList, d.isDigit ∨ d ∈ ['-', '+', '.', 'e'])
    (h : c ∈ literal.toList) : 0x20 ≤ c.toNat := by
  rcases hliteral c h with hdigit | hmem
  · have hge : 0x30 ≤ c.toNat := (Char.isDigit_iff_toNat.mp hdigit).1
    omega
  · simp only [List.mem_cons, List.not_mem_nil, or_false] at hmem
    rcases hmem with rfl | rfl | rfl | rfl <;> decide

private theorem le_of_mem_all {text : List Char} {c : Char}
    (hall : text.all (fun d => 0x20 ≤ d.toNat) = true) (h : c ∈ text) : 0x20 ≤ c.toNat :=
  List.all_iff_forall_prop.mp hall c h

/-- Text between two delimiters, or around one. -/
private theorem le_of_mem_append_cons {text text' : List Char} {c delimiter : Char}
    (hdelimiter : 0x20 ≤ delimiter.toNat) (htext : c ∈ text → 0x20 ≤ c.toNat)
    (htext' : c ∈ text' → 0x20 ≤ c.toNat) (h : c ∈ text ++ delimiter :: text') :
    0x20 ≤ c.toNat := by
  rcases List.mem_append.mp h with h | h
  · exact htext h
  · rcases List.mem_cons.mp h with rfl | h
    · exact hdelimiter
    · exact htext' h

mutual

/-- The text of a tree has no control characters. -/
theorem le_of_mem_stringify {c : Char} (content : Json) (hnumbers : content.NumbersPrinted)
    (h : c ∈ content.stringify) : 0x20 ≤ c.toNat := by
  cases content with
  | null => exact le_of_mem_all (by decide) h
  | bool b => cases b <;> exact le_of_mem_all (by decide) h
  | number literal => exact le_of_mem_literal (hnumbers literal (List.mem_singleton_self _)) h
  | string s => exact le_of_mem_quote h
  | array items =>
      rcases List.mem_cons.mp h with rfl | h
      · decide
      · exact le_of_mem_append_cons (by decide) (le_of_mem_stringifyItems items hnumbers)
          (absurd · List.not_mem_nil) h
  | object fields =>
      rcases List.mem_cons.mp h with rfl | h
      · decide
      · exact le_of_mem_append_cons (by decide) (le_of_mem_stringifyFields fields hnumbers)
          (absurd · List.not_mem_nil) h

/-- Neither has the text of an array. -/
theorem le_of_mem_stringifyItems {c : Char} (items : List Json)
    (hnumbers : (array items).NumbersPrinted) (h : c ∈ stringifyItems items) :
    0x20 ≤ c.toNat := by
  cases items with
  | nil => cases h
  | cons item items =>
      obtain ⟨hitem, hitems⟩ := numbersPrinted_array_cons.mp hnumbers
      cases items with
      | nil => exact le_of_mem_stringify item hitem h
      | cons next items =>
          exact le_of_mem_append_cons (by decide) (le_of_mem_stringify item hitem)
            (le_of_mem_stringifyItems (next :: items) hitems) h

/-- Neither has the text of an object. -/
theorem le_of_mem_stringifyFields {c : Char} (fields : List (String × Json))
    (hnumbers : (object fields).NumbersPrinted) (h : c ∈ stringifyFields fields) :
    0x20 ≤ c.toNat := by
  cases fields with
  | nil => cases h
  | cons field fields =>
      obtain ⟨name, value⟩ := field
      obtain ⟨hvalue, hfields⟩ := numbersPrinted_object_cons.mp hnumbers
      have hfield : c ∈ quote name ++ ':' :: value.stringify → 0x20 ≤ c.toNat :=
        le_of_mem_append_cons (by decide) le_of_mem_quote (le_of_mem_stringify value hvalue)
      cases fields with
      | nil => exact hfield h
      | cons next fields =>
          exact le_of_mem_append_cons (by decide) hfield
            (le_of_mem_stringifyFields (next :: fields) hfields) h

end

end Json

end AideepWebsocket.Library
