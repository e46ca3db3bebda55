import AideepWebsocket.Library.Json
import Mathlib.Data.List.TakeWhile

/-!
# Reading JSON

`JSON.parse`, as a parser by recursive descent.  It reads whitespace between the tokens,
every escape of a string, and the last of several fields of one name.

* A string is read as code units, of which a high and a low surrogate make one character; a
  surrogate on its own becomes U+FFFD, as it does where text is encoded in UTF-8.
* A number is kept as the literal that JavaScript prints for it.  Which literal that is, for
  another spelling of the number, is a matter of floating point: `numeral` says so.

The parser is fuelled, and twice the length of the text is enough, whatever the text
(`parse_eq_some_iff`).  What `JSON.stringify` prints is read back (`parse_stringify`).
-/

namespace AideepWebsocket.Library.Json

/-! ### Characters -/

/-- Whitespace between two tokens. -/
def isSpace (c : Char) : Bool := [' ', '\t', '\n', '\r'].contains c

/-- White space is skipped. -/
def skip (text : List Char) : List Char := text.dropWhile isSpace

/-- The code unit that a backslash and this character stand for. -/
def unescape : Char → Option ℕ
  | '"' => some 0x22
  | '\\' => some 0x5C
  | '/' => some 0x2F
  | 'b' => some 0x08
  | 'f' => some 0x0C
  | 'n' => some 0x0A
  | 'r' => some 0x0D
  | 't' => some 0x09
  | _ => none

/-- The value of a hexadecimal digit. -/
def hexValue (c : Char) : Option ℕ :=
  if c.isDigit then some (c.toNat - 0x30)
  else if 'a' ≤ c ∧ c ≤ 'f' then some (c.toNat - 0x57)
  else if 'A' ≤ c ∧ c ≤ 'F' then some (c.toNat - 0x37)
  else none

/-- The code unit of `\uabcd`. -/
def codeUnit (a b c d : Char) : Option ℕ := do
  return (((← hexValue a) * 16 + (← hexValue b)) * 16 + (← hexValue c)) * 16 + (← hexValue d)

/-! ### Strings -/

/-- The inside of a string literal, up to its closing quote: what the characters and the
escapes stand for, and the text behind the quote. -/
def parseUnits : List Char → Option (List ℕ × List Char)
  | [] => none
  | '"' :: rest => some ([], rest)
  | '\\' :: 'u' :: a :: b :: c :: d :: rest => do
      let unit ← codeUnit a b c d
      let (units, rest) ← parseUnits rest
      return (unit :: units, rest)
  | '\\' :: c :: rest => do
      let unit ← unescape c
      let (units, rest) ← parseUnits rest
      return (unit :: units, rest)
  | c :: rest =>
      if c.toNat < 0x20 then none
      else do
        let (units, rest) ← parseUnits rest
        return (c.toNat :: units, rest)

/-- The first half of a surrogate pair. -/
def isHigh (unit : ℕ) : Bool := 0xD800 ≤ unit && unit < 0xDC00

/-- The second half. -/
def isLow (unit : ℕ) : Bool := 0xDC00 ≤ unit && unit < 0xE000

/-- The characters that code units are. -/
def charsOf : List ℕ → List Char
  | [] => []
  | [unit] => [if isHigh unit || isLow unit then '\uFFFD' else Char.ofNat unit]
  | unit :: next :: units =>
      if isHigh unit && isLow next then
        Char.ofNat (0x10000 + (unit - 0xD800) * 0x400 + (next - 0xDC00)) :: charsOf units
      else
        (if isHigh unit || isLow unit then '\uFFFD' else Char.ofNat unit) ::
          charsOf (next :: units)

/-- A string literal, behind its opening quote. -/
def parseString (text : List Char) : Option (String × List Char) :=
  (parseUnits text).map fun p => (String.ofList (charsOf p.1), p.2)

/-! ### Numbers -/

/-- The digits before the point; a leading zero stands alone. -/
def integerPart : List Char → Option (List Char × List Char)
  | [] => none
  | '0' :: rest => some (['0'], rest)
  | c :: rest =>
      if c.isDigit then some (c :: rest.takeWhile Char.isDigit, rest.dropWhile Char.isDigit)
      else none

/-- One digit or more. -/
def digitsPart (text : List Char) : Option (List Char × List Char) :=
  if text.takeWhile Char.isDigit = [] then none
  else some (text.takeWhile Char.isDigit, text.dropWhile Char.isDigit)

/-- An optional point, with digits. -/
def fractionPart : List Char → Option (List Char × List Char)
  | '.' :: rest => (digitsPart rest).map fun p => ('.' :: p.1, p.2)
  | rest => some ([], rest)

/-- An optional sign. -/
def signPart : List Char → List Char × List Char
  | '+' :: rest => (['+'], rest)
  | '-' :: rest => (['-'], rest)
  | rest => ([], rest)

/-- An optional exponent. -/
def exponentPart : List Char → Option (List Char × List Char)
  | [] => some ([], [])
  | c :: rest =>
      if c = 'e' ∨ c = 'E' then
        (digitsPart (signPart rest).2).map fun p => (c :: (signPart rest).1 ++ p.1, p.2)
      else some ([], c :: rest)

/-- The number literal at the head of a text, and the text behind it. -/
def parseLiteral (text : List Char) : Option (List Char × List Char) := do
  let sign := if text.head? = some '-' then ['-'] else []
  let (integer, rest) ← integerPart (text.drop sign.length)
  let (fraction, rest) ← fractionPart rest
  let (exponent, rest) ← exponentPart rest
  return (sign ++ integer ++ fraction ++ exponent, rest)

/-! ### Values -/

/-- A field of an object is assigned: a name that has been assigned keeps its place. -/
def assign (fields : List (String × Json)) (field : String × Json) : List (String × Json) :=
  if fields.any fun f => f.1 = field.1 then
    fields.map fun f => if f.1 = field.1 then field else f
  else fields ++ [field]

section Parser

variable (numeral : String → String)

mutual

/-- A value at the head of a text, and the text behind it. -/
def parseValue : ℕ → List Char → Option (Json × List Char)
  | 0, _ => none
  | fuel + 1, text =>
      match skip text with
      | 'n' :: 'u' :: 'l' :: 'l' :: rest => some (null, rest)
      | 't' :: 'r' :: 'u' :: 'e' :: rest => some (bool true, rest)
      | 'f' :: 'a' :: 'l' :: 's' :: 'e' :: rest => some (bool false, rest)
      | '"' :: rest => (parseString rest).map fun p => (string p.1, p.2)
      | '[' :: rest =>
          match skip rest with
          | ']' :: rest => some (array [], rest)
          | rest => (parseItems fuel rest).map fun p => (array p.1, p.2)
      | '{' :: rest =>
          match skip rest with
          | '}' :: rest => some (object [], rest)
          | rest => (parseFields fuel rest).map fun p => (object (p.1.foldl assign []), p.2)
      | rest =>
          (parseLiteral rest).map fun p => (number (numeral (String.ofList p.1)), p.2)

/-- The items of an array, up to its closing bracket. -/
def parseItems : ℕ → List Char → Option (List Json × List Char)
  | 0, _ => none
  | fuel + 1, text => do
      let (item, rest) ← parseValue fuel text
      match skip rest with
      | ',' :: rest => (parseItems fuel rest).map fun p => (item :: p.1, p.2)
      | ']' :: rest => some ([item], rest)
      | _ => none

/-- The fields of an object as they are written, up to its closing brace. -/
def parseFields : ℕ → List Char → Option (List (String × Json) × List Char)
  | 0, _ => none
  | fuel + 1, text =>
      match skip text with
      | '"' :: rest => do
          let (name, rest) ← parseString rest
          match skip rest with
          | ':' :: rest => do
              let (value, rest) ← parseValue fuel rest
              match skip rest with
              | ',' :: rest => (parseFields fuel rest).map fun p => ((name, value) :: p.1, p.2)
              | '}' :: rest => some ([(name, value)], rest)
              | _ => none
          | _ => none
      | _ => none

end

/-- `JSON.parse`; `none` if it throws a `SyntaxError`. -/
def parse (text : List Char) : Option Json :=
  match parseValue numeral (2 * text.length) text with
  | some (value, rest) => if skip rest = [] then some value else none
  | none => none

end Parser

/-! ### What is read is behind -/

/-- A character that is read makes the text shorter. -/
theorem length_of_skip {text rest : List Char} {c : Char} (h : skip text = c :: rest) :
    rest.length < text.length := by
  have hle : (skip text).length ≤ text.length := List.length_dropWhile_le ..
  rwa [h] at hle

/-- White space that is skipped does not make it longer. -/
theorem length_skip_le (text : List Char) : (skip text).length ≤ text.length :=
  List.length_dropWhile_le ..

theorem length_skip_lt {text rest : List Char} {c : Char} (h : skip text = c :: rest) :
    (skip rest).length < text.length :=
  (length_skip_le rest).trans_lt (length_of_skip h)

/-- The closing quote at least has been read. -/
theorem length_parseUnits_lt {text rest : List Char} {units : List ℕ}
    (h : parseUnits text = some (units, rest)) : rest.length < text.length := by
  fun_induction parseUnits text generalizing units with
  | case1 => cases h
  | case2 rest' =>
      cases h
      exact Nat.lt_succ_self _
  | case3 a b c d rest' ih =>
      obtain ⟨unit, -, h⟩ := Option.bind_eq_some_iff.mp h
      obtain ⟨⟨units', r⟩, hr, h⟩ := Option.bind_eq_some_iff.mp h
      cases h
      have hlt := ih hr
      simp only [List.length_cons]
      omega
  | case4 c rest' hc ih =>
      obtain ⟨unit, -, h⟩ := Option.bind_eq_some_iff.mp h
      obtain ⟨⟨units', r⟩, hr, h⟩ := Option.bind_eq_some_iff.mp h
      cases h
      have hlt := ih hr
      simp only [List.length_cons]
      omega
  | case5 => cases h
  | case6 c rest' h1 h2 h3 h4 ih =>
      obtain ⟨⟨units', r⟩, hr, h⟩ := Option.bind_eq_some_iff.mp h
      cases h
      exact (ih hr).trans (Nat.lt_succ_self _)

/-- So it has been when the units are characters. -/
theorem length_parseString_lt {text rest : List Char} {s : String}
    (h : parseString text = some (s, rest)) : rest.length < text.length := by
  obtain ⟨⟨units, r⟩, hr, heq⟩ := Option.map_eq_some_iff.mp h
  cases heq
  exact length_parseUnits_lt hr

/-- What is read off a text was at its front. -/
theorem eq_of_digitsPart {text digits rest : List Char}
    (h : digitsPart text = some (digits, rest)) : text = digits ++ rest := by
  unfold digitsPart at h
  split at h <;> cases h
  exact List.takeWhile_append_dropWhile.symm

theorem eq_of_integerPart {text digits rest : List Char}
    (h : integerPart text = some (digits, rest)) : text = digits ++ rest ∧ digits ≠ [] := by
  unfold integerPart at h
  split at h
  · cases h
  · cases h
    exact ⟨rfl, fun heq => by cases heq⟩
  · split at h <;> cases h
    exact ⟨congrArg _ List.takeWhile_append_dropWhile.symm, fun heq => by cases heq⟩

theorem eq_of_fractionPart {text fraction rest : List Char}
    (h : fractionPart text = some (fraction, rest)) : text = fraction ++ rest := by
  unfold fractionPart at h
  split at h
  · obtain ⟨⟨digits, r⟩, hr, heq⟩ := Option.map_eq_some_iff.mp h
    cases heq
    rw [eq_of_digitsPart hr]
    rfl
  · cases h
    rfl

theorem eq_signPart (text : List Char) : text = (signPart text).1 ++ (signPart text).2 := by
  unfold signPart
  split <;> rfl

theorem eq_of_exponentPart {text exponent rest : List Char}
    (h : exponentPart text = some (exponent, rest)) : text = exponent ++ rest := by
  unfold exponentPart at h
  split at h
  · cases h
    rfl
  · next c r =>
      split at h
      · obtain ⟨⟨digits, r'⟩, hr, heq⟩ := Option.map_eq_some_iff.mp h
        cases heq
        have hdigits := eq_of_digitsPart hr
        show c :: r = c :: ((signPart r).1 ++ digits) ++ r'
        rw [List.cons_append, List.append_assoc, ← hdigits, ← eq_signPart]
      · cases h
        rfl

/-- A literal is at the front of its text, and not empty. -/
theorem eq_of_parseLiteral {text literal rest : List Char}
    (h : parseLiteral text = some (literal, rest)) : text = literal ++ rest ∧ literal ≠ [] := by
  obtain ⟨⟨integer, r₁⟩, hinteger, h⟩ := Option.bind_eq_some_iff.mp h
  obtain ⟨⟨fraction, r₂⟩, hfraction, h⟩ := Option.bind_eq_some_iff.mp h
  obtain ⟨⟨exponent, r₃⟩, hexponent, h⟩ := Option.bind_eq_some_iff.mp h
  obtain ⟨hdrop, hne⟩ := eq_of_integerPart hinteger
  have hrest := eq_of_fractionPart hfraction
  have hrest' := eq_of_exponentPart hexponent
  cases h
  constructor
  · have hsign : text = (if text.head? = some '-' then ['-'] else []) ++
        text.drop (if text.head? = some '-' then ['-'] else []).length := by
      cases text with
      | nil => rfl
      | cons c text =>
          by_cases hc : c = '-'
          · subst hc
            rfl
          · simp [hc]
    rw [hdrop, hrest, hrest'] at hsign
    exact hsign.trans (by simp only [List.append_assoc])
  · simp [hne]

theorem length_parseLiteral_lt {text literal rest : List Char}
    (h : parseLiteral text = some (literal, rest)) : rest.length < text.length := by
  obtain ⟨heq, hne⟩ := eq_of_parseLiteral h
  have hpos := List.length_pos_iff.mpr hne
  rw [heq, List.length_append]
  omega

/-- Every value takes a character at least. -/
theorem length_parse_lt {numeral : String → String} {fuel : ℕ} :
    (∀ {text rest value}, parseValue numeral fuel text = some (value, rest) →
      rest.length < text.length) ∧
    (∀ {text rest items}, parseItems numeral fuel text = some (items, rest) →
      rest.length < text.length) ∧
    ∀ {text rest fields}, parseFields numeral fuel text = some (fields, rest) →
      rest.length < text.length := by
  induction fuel with
  | zero =>
      refine ⟨fun h => ?_, fun h => ?_, fun h => ?_⟩ <;> cases h
  | succ fuel ih =>
      obtain ⟨ihValue, ihItems, ihFields⟩ := ih
      refine ⟨fun {text rest value} h => ?_, fun {text rest items} h => ?_,
        fun {text rest fields} h => ?_⟩
      · rw [parseValue] at h
        split at h
        -- the three words
        iterate 3
          next r hskip =>
            cases h
            have hlt := length_of_skip hskip
            simp only [List.length_cons] at hlt
            omega
        · next r hskip =>
            simp only [Option.map_eq_some_iff, Prod.exists, Prod.mk.injEq] at h
            obtain ⟨s, r', hr, -, rfl⟩ := h
            exact (length_parseString_lt hr).trans (length_of_skip hskip)
        · next r hskip =>
            split at h
            · next r' hskip' =>
                cases h
                exact (length_of_skip hskip').trans (length_of_skip hskip)
            · simp only [Option.map_eq_some_iff, Prod.exists, Prod.mk.injEq] at h
              obtain ⟨items, r', hr, -, rfl⟩ := h
              exact (ihItems hr).trans (length_skip_lt hskip)
        · next r hskip =>
            split at h
            · next r' hskip' =>
                cases h
                exact (length_of_skip hskip').trans (length_of_skip hskip)
            · simp only [Option.map_eq_some_iff, Prod.exists, Prod.mk.injEq] at h
              obtain ⟨fields, r', hr, -, rfl⟩ := h
              exact (ihFields hr).trans (length_skip_lt hskip)
        · simp only [Option.map_eq_some_iff, Prod.exists, Prod.mk.injEq] at h
          obtain ⟨literal, r', hr, -, rfl⟩ := h
          exact (length_parseLiteral_lt hr).trans_le (length_skip_le text)
      · rw [parseItems] at h
        obtain ⟨⟨item, r⟩, hr, h⟩ := Option.bind_eq_some_iff.mp h
        have hlt := ihValue hr
        dsimp only at h
        split at h
        · next r' hskip =>
            simp only [Option.map_eq_some_iff, Prod.exists, Prod.mk.injEq] at h
            obtain ⟨items, r'', hr'', -, rfl⟩ := h
            exact ((ihItems hr'').trans (length_of_skip hskip)).trans hlt
        · next r' hskip =>
            cases h
            exact (length_of_skip hskip).trans hlt
        · cases h
      · rw [parseFields] at h
        split at h
        · next r hskip =>
            obtain ⟨⟨name, r₁⟩, hname, h⟩ := Option.bind_eq_some_iff.mp h
            have hlt := (length_parseString_lt hname).trans (length_of_skip hskip)
            dsimp only at h
            split at h
            · next r₂ hcolon =>
                obtain ⟨⟨value, r₃⟩, hvalue, h⟩ := Option.bind_eq_some_iff.mp h
                have hlt := ((ihValue hvalue).trans (length_of_skip hcolon)).trans hlt
                dsimp only at h
                split at h
                · next r₄ hcomma =>
                    simp only [Option.map_eq_some_iff, Prod.exists, Prod.mk.injEq] at h
                    obtain ⟨fields, r₅, hfields, -, rfl⟩ := h
                    exact ((ihFields hfields).trans (length_of_skip hcomma)).trans hlt
                · next r₄ hbrace =>
                    cases h
                    exact (length_of_skip hbrace).trans hlt
                · cases h
            · cases h
        · cases h

/-! ### The fuel -/

/-- **The fuel is enough**: more of it changes nothing. -/
theorem parse_stable {numeral : String → String} {fuel : ℕ} :
    (∀ {text}, 2 * text.length ≤ fuel →
      parseValue numeral (fuel + 1) text = parseValue numeral fuel text) ∧
    (∀ {text}, 2 * text.length < fuel →
      parseItems numeral (fuel + 1) text = parseItems numeral fuel text) ∧
    ∀ {text}, 2 * text.length < fuel →
      parseFields numeral (fuel + 1) text = parseFields numeral fuel text := by
  induction fuel with
  | zero =>
      refine ⟨fun {text} h => ?_, fun h => ?_, fun h => ?_⟩
      · obtain rfl : text = [] := List.length_eq_zero_iff.mp (by omega)
        rfl
      · cases h
      · cases h
  | succ fuel ih =>
      obtain ⟨ihValue, ihItems, ihFields⟩ := ih
      refine ⟨fun {text} h => ?_, fun {text} h => ?_, fun {text} h => ?_⟩
      · rw [parseValue, parseValue]
        split
        iterate 4 rfl
        · next r hskip =>
            have hlt := length_skip_lt hskip
            split
            · rfl
            · rw [ihItems (by omega)]
        · next r hskip =>
            have hlt := length_skip_lt hskip
            split
            · rfl
            · rw [ihFields (by omega)]
        · rfl
      · rw [parseItems, parseItems, ihValue (by omega)]
        cases hr : parseValue numeral fuel text with
        | none => rfl
        | some p =>
            obtain ⟨item, r⟩ := p
            have hlt := length_parse_lt.1 hr
            simp only [Option.bind_eq_bind, Option.bind_some]
            split
            · next r' hskip =>
                have hlt' := length_of_skip hskip
                rw [ihItems (by omega)]
            · rfl
            · rfl
      · rw [parseFields, parseFields]
        split
        · next r hskip =>
            cases hname : parseString r with
            | none => rfl
            | some p =>
                obtain ⟨name, r₁⟩ := p
                have hlt := (length_parseString_lt hname).trans (length_of_skip hskip)
                simp only [Option.bind_eq_bind, Option.bind_some]
                split
                · next r₂ hcolon =>
                    have hlt := (length_of_skip hcolon).trans hlt
                    rw [ihValue (by omega)]
                    cases hvalue : parseValue numeral fuel r₂ with
                    | none => rfl
                    | some p =>
                        obtain ⟨value, r₃⟩ := p
                        have hlt := (length_parse_lt.1 hvalue).trans hlt
                        simp only [Option.bind_some]
                        split
                        · next r₄ hcomma =>
                            have hlt := (length_of_skip hcomma).trans hlt
                            rw [ihFields (by omega)]
                        · rfl
                        · rfl
                · rfl
        · rfl

/-- More fuel than twice the length of the text changes nothing. -/
private theorem parseValue_eq {numeral : String → String} {text : List Char} {fuel : ℕ}
    (h : 2 * text.length ≤ fuel) :
    parseValue numeral fuel text = parseValue numeral (2 * text.length) text := by
  induction fuel, h using Nat.le_induction with
  | base => rfl
  | succ fuel hle ih => rw [parse_stable.1 hle, ih]

/-- With enough fuel, the whole text is read as the value. -/
def Reads (numeral : String → String) (text : List Char) (value : Json) : Prop :=
  ∃ n, ∀ fuel, n ≤ fuel → ∃ rest, parseValue numeral fuel text = some (value, rest) ∧ skip rest = []

/-- **The fuel is no limit**: what is parsed is what is read with enough of it. -/
theorem parse_eq_some_iff {numeral : String → String} {text : List Char} {value : Json} :
    parse numeral text = some value ↔ Reads numeral text value := by
  unfold parse
  constructor
  · intro h
    split at h
    · next value' rest hvalue =>
        split at h <;> cases h
        next hrest =>
          exact ⟨2 * text.length, fun fuel hfuel =>
            ⟨rest, (parseValue_eq hfuel).trans hvalue, hrest⟩⟩
    · cases h
  · rintro ⟨n, h⟩
    obtain ⟨rest, hvalue, hrest⟩ := h (n + 2 * text.length) (Nat.le_add_right _ _)
    rw [← parseValue_eq (Nat.le_add_left _ n), hvalue]
    exact if_pos hrest

/-! ### Literals that are printed -/

/-- Nothing behind a value, or the next punctuation. -/
def Stops (rest : List Char) : Prop := ∀ c, rest.head? = some c → c ∈ [',', ']', '}']

/-- Where a literal stops there is no digit. -/
private theorem Stops.not_digit {rest : List Char} (h : Stops rest) :
    rest.takeWhile Char.isDigit = [] ∧ rest.dropWhile Char.isDigit = rest := by
  cases rest with
  | nil => exact ⟨rfl, rfl⟩
  | cons c rest =>
      have hc : c.isDigit = false := by
        have hmem := h c rfl
        simp only [List.mem_cons, List.not_mem_nil, or_false] at hmem
        rcases hmem with rfl | rfl | rfl <;> rfl
      exact ⟨List.takeWhile_cons_of_neg (by simp [hc]), List.dropWhile_cons_of_neg (by simp [hc])⟩

private theorem digits_append {rest : List Char} (hrest : Stops rest) (text : List Char) :
    (text ++ rest).takeWhile Char.isDigit = text.takeWhile Char.isDigit ∧
      (text ++ rest).dropWhile Char.isDigit = text.dropWhile Char.isDigit ++ rest := by
  induction text with
  | nil => exact hrest.not_digit
  | cons c text ih =>
      obtain ⟨htake, hdrop⟩ := ih
      cases hc : c.isDigit with
      | true => simp [hc, htake, hdrop]
      | false => simp [hc]

private theorem digitsPart_append {text digits r rest : List Char} (hrest : Stops rest)
    (h : digitsPart text = some (digits, r)) :
    digitsPart (text ++ rest) = some (digits, r ++ rest) := by
  obtain ⟨htake, hdrop⟩ := digits_append hrest text
  unfold digitsPart at h ⊢
  rw [htake, hdrop]
  split at h <;> cases h
  next hne => rw [if_neg hne]

private theorem integerPart_append {text digits r rest : List Char} (hrest : Stops rest)
    (h : integerPart text = some (digits, r)) :
    integerPart (text ++ rest) = some (digits, r ++ rest) := by
  unfold integerPart at h
  split at h
  · cases h
  · cases h
    rfl
  · next c text hc =>
      obtain ⟨htake, hdrop⟩ := digits_append hrest text
      split at h <;> cases h
      next hdigit =>
        rw [List.cons_append, integerPart, if_pos hdigit, htake, hdrop]
        exact hc

private theorem fractionPart_append {text fraction r rest : List Char} (hrest : Stops rest)
    (h : fractionPart text = some (fraction, r)) :
    fractionPart (text ++ rest) = some (fraction, r ++ rest) := by
  unfold fractionPart at h
  split at h
  · simp only [Option.map_eq_some_iff, Prod.exists, Prod.mk.injEq] at h
    obtain ⟨digits, r', hdigits, rfl, rfl⟩ := h
    rw [List.cons_append, fractionPart, digitsPart_append hrest hdigits]
    rfl
  · next hdot =>
      cases h
      rw [fractionPart]
      rintro t heq
      cases text with
      | nil =>
          have hmem := hrest '.' (by rw [show rest = '.' :: t from heq]; rfl)
          simp at hmem
      | cons c text =>
          obtain ⟨rfl, -⟩ := List.cons.inj heq
          exact hdot text rfl

private theorem signPart_append {text rest : List Char} (h : (signPart text).2 ≠ []) :
    signPart (text ++ rest) = ((signPart text).1, (signPart text).2 ++ rest) := by
  cases text with
  | nil => exact absurd rfl h
  | cons c text =>
      by_cases hplus : c = '+'
      · subst hplus
        rfl
      · by_cases hminus : c = '-'
        · subst hminus
          rfl
        · rw [List.cons_append, signPart, signPart]
          all_goals simp [hplus, hminus]

private theorem exponentPart_append {text exponent r rest : List Char} (hrest : Stops rest)
    (h : exponentPart text = some (exponent, r)) :
    exponentPart (text ++ rest) = some (exponent, r ++ rest) := by
  cases text with
  | nil =>
      cases h
      cases rest with
      | nil => rfl
      | cons c rest =>
          have hmem := hrest c rfl
          have hc : ¬ (c = 'e' ∨ c = 'E') := by
            rintro (rfl | rfl) <;> simp at hmem
          rw [List.nil_append, exponentPart, if_neg hc]
  | cons c text =>
      rw [exponentPart] at h
      rw [List.cons_append, exponentPart]
      split at h
      · next hc =>
          rw [if_pos hc]
          simp only [Option.map_eq_some_iff, Prod.exists, Prod.mk.injEq] at h
          obtain ⟨digits, r', hdigits, rfl, rfl⟩ := h
          have hne : (signPart text).2 ≠ [] := by
            intro hnil
            rw [hnil] at hdigits
            cases hdigits
          rw [signPart_append hne, digitsPart_append hrest hdigits]
          rfl
      · next hc =>
          cases h
          rw [if_neg hc]
          rfl

/-- A literal ends where nothing continues it. -/
theorem parseLiteral_append {text literal r rest : List Char} (hrest : Stops rest)
    (h : parseLiteral text = some (literal, r)) :
    parseLiteral (text ++ rest) = some (literal, r ++ rest) := by
  obtain ⟨⟨integer, r₁⟩, hinteger, h⟩ := Option.bind_eq_some_iff.mp h
  obtain ⟨⟨fraction, r₂⟩, hfraction, h⟩ := Option.bind_eq_some_iff.mp h
  obtain ⟨⟨exponent, r₃⟩, hexponent, h⟩ := Option.bind_eq_some_iff.mp h
  cases h
  have hne : text ≠ [] := by
    rintro rfl
    cases hinteger
  have hhead : (text ++ rest).head? = text.head? := by
    rw [List.head?_append, List.head?_eq_some_head hne]
    rfl
  have hdrop (n : ℕ) (hn : n ≤ 1) : (text ++ rest).drop n = text.drop n ++ rest := by
    have hpos := List.length_pos_iff.mpr hne
    exact List.drop_append_of_le_length (by omega)
  unfold parseLiteral
  dsimp only
  rw [hhead, hdrop _ (by split <;> simp), integerPart_append hrest hinteger]
  simp only [Option.bind_eq_bind, Option.bind_some]
  rw [fractionPart_append hrest hfraction]
  simp only [Option.bind_some]
  rw [exponentPart_append hrest hexponent]
  rfl

/-- A literal begins with a digit or a minus sign. -/
theorem head_of_parseLiteral {c : Char} {text : List Char} {p : List Char × List Char}
    (h : parseLiteral (c :: text) = some p) : c = '-' ∨ c.isDigit = true := by
  by_cases hc : c = '-'
  · exact Or.inl hc
  · refine Or.inr ?_
    obtain ⟨⟨integer, r₁⟩, hinteger, -⟩ := Option.bind_eq_some_iff.mp h
    rw [if_neg (by simpa using hc)] at hinteger
    change integerPart (c :: text) = _ at hinteger
    unfold integerPart at hinteger
    split at hinteger
    · next heq => cases heq
    · next heq =>
        obtain ⟨rfl, -⟩ := List.cons.inj heq
        rfl
    · next heq =>
        obtain ⟨rfl, rfl⟩ := List.cons.inj heq
        split at hinteger
        · assumption
        · cases hinteger

/-! ### Strings that are printed -/

private theorem hexValue_digitChar {n : ℕ} (h : n < 16) : hexValue n.digitChar = some n := by
  revert n
  decide

/-- An escape is read as the character that it stands for. -/
private theorem parseUnits_escape (c : Char) (rest : List Char) :
    parseUnits (escape c ++ rest) =
      (parseUnits rest).map fun p => (c.toNat :: p.1, p.2) := by
  have hmap (unit : ℕ) :
      ((parseUnits rest).bind fun p => some (unit :: p.1, p.2)) =
        (parseUnits rest).map fun p => (unit :: p.1, p.2) := by
    cases parseUnits rest <;> rfl
  unfold escape
  split
  case h_8 n h1 h2 h3 h4 h5 h6 h7 =>
    split
    · next hlt =>
        have hhigh := hexValue_digitChar (n := c.toNat / 16) (by omega)
        have hlow := hexValue_digitChar (n := c.toNat % 16) (by omega)
        have hunit : codeUnit '0' '0' (c.toNat / 16).digitChar (c.toNat % 16).digitChar =
            some c.toNat := by
          have hzero : hexValue '0' = some 0 := rfl
          simp only [codeUnit, hzero, hhigh, hlow, Option.bind_eq_bind, Option.bind_some,
            Option.pure_def, Option.some.injEq]
          omega
        simp only [List.cons_append, List.nil_append]
        rw [parseUnits, hunit]
        exact hmap _
    · next hge =>
        have hquote : c ≠ '"' := by
          rintro rfl
          exact h1 rfl
        have hbackslash : c ≠ '\\' := by
          rintro rfl
          exact h2 rfl
        rw [List.singleton_append, parseUnits.eq_def]
        split
        · next heq => cases heq
        · next heq => exact absurd (List.cons.inj heq).1 hquote
        · next heq => exact absurd (List.cons.inj heq).1 hbackslash
        · next heq => exact absurd (List.cons.inj heq).1 hbackslash
        · next heq =>
            obtain ⟨rfl, rfl⟩ := List.cons.inj heq
            rw [if_neg (by omega)]
            exact hmap _
  all_goals
    next heq =>
      rw [heq]
      exact hmap _

/-- A string that has been escaped is read up to its quote. -/
theorem parseUnits_escapes (s rest : List Char) :
    parseUnits (s.flatMap escape ++ '"' :: rest) = some (s.map Char.toNat, rest) := by
  induction s with
  | nil => rfl
  | cons c s ih =>
      rw [List.flatMap_cons, List.append_assoc, parseUnits_escape, ih]
      rfl

/-- A character is not a surrogate. -/
private theorem scalar_toNat (c : Char) :
    isHigh c.toNat = false ∧ isLow c.toNat = false := by
  have hvalid : c.toNat < 0xD800 ∨ (0xDFFF < c.toNat ∧ c.toNat < 0x110000) := c.valid
  unfold isHigh isLow
  rcases hvalid with h | ⟨h, -⟩
  all_goals
    constructor <;> simp only [Bool.and_eq_false_iff, decide_eq_false_iff_not] <;> omega

/-- The code units of characters are read as these. -/
theorem charsOf_map_toNat (s : List Char) : charsOf (s.map Char.toNat) = s := by
  induction s with
  | nil => rfl
  | cons c s ih =>
      obtain ⟨hhigh, hlow⟩ := scalar_toNat c
      cases s with
      | nil => simp [charsOf, hhigh, hlow]
      | cons d s =>
          rw [List.map_cons] at ih
          rw [List.map_cons, List.map_cons, charsOf, ih]
          simp [hhigh, hlow]

/-- A quoted string is read back. -/
theorem parseString_quote (s : String) (rest : List Char) :
    parseString (s.toList.flatMap escape ++ '"' :: rest) = some (s, rest) := by
  rw [parseString, parseUnits_escapes, Option.map_some, charsOf_map_toNat, String.ofList_toList]

/-! ### Trees that are printed -/

mutual

/-- No object of the tree has two fields of one name. -/
def distinct : Json → Bool
  | array items => distinctItems items
  | object fields => decide (fields.map Prod.fst).Nodup && distinctFields fields
  | _ => true

def distinctItems : List Json → Bool
  | [] => true
  | item :: items => item.distinct && distinctItems items

def distinctFields : List (String × Json) → Bool
  | [] => true
  | (_, value) :: fields => value.distinct && distinctFields fields

end

/-- A tree as JavaScript prints it: its numbers are written in the way in which it writes
them, and the fields of an object have different names. -/
structure Printed (numeral : String → String) (content : Json) : Prop where
  literal : ∀ literal ∈ content.numbers, parseLiteral literal.toList = some (literal.toList, [])
  numeral : ∀ literal ∈ content.numbers, numeral literal = literal
  distinct : content.distinct = true

variable {numeral : String → String}

/-- An array is printed as its items are. -/
theorem printed_array_cons {item : Json} {items : List Json} :
    (array (item :: items)).Printed numeral ↔
      item.Printed numeral ∧ (array items).Printed numeral := by
  have hnumbers (l : String) : l ∈ (array (item :: items)).numbers ↔
      l ∈ item.numbers ∨ l ∈ (array items).numbers := List.mem_append
  have hdistinct : (array (item :: items)).distinct = true ↔
      item.distinct = true ∧ (array items).distinct = true := Bool.and_eq_true_iff
  constructor
  · intro h
    obtain ⟨hitem, hitems⟩ := hdistinct.mp h.distinct
    exact ⟨⟨fun l hl => h.literal l ((hnumbers l).mpr (Or.inl hl)),
        fun l hl => h.numeral l ((hnumbers l).mpr (Or.inl hl)), hitem⟩,
      ⟨fun l hl => h.literal l ((hnumbers l).mpr (Or.inr hl)),
        fun l hl => h.numeral l ((hnumbers l).mpr (Or.inr hl)), hitems⟩⟩
  · rintro ⟨hitem, hitems⟩
    refine ⟨fun l hl => ?_, fun l hl => ?_, hdistinct.mpr ⟨hitem.distinct, hitems.distinct⟩⟩
    · rcases (hnumbers l).mp hl with hl | hl
      · exact hitem.literal l hl
      · exact hitems.literal l hl
    · rcases (hnumbers l).mp hl with hl | hl
      · exact hitem.numeral l hl
      · exact hitems.numeral l hl

/-- An object is printed as its values are, under names that are all different. -/
theorem printed_object_cons {name : String} {value : Json} {fields : List (String × Json)} :
    (object ((name, value) :: fields)).Printed numeral ↔
      name ∉ fields.map Prod.fst ∧ value.Printed numeral ∧ (object fields).Printed numeral := by
  have hnumbers (l : String) : l ∈ (object ((name, value) :: fields)).numbers ↔
      l ∈ value.numbers ∨ l ∈ (object fields).numbers := List.mem_append
  have hdistinct : (object ((name, value) :: fields)).distinct = true ↔
      name ∉ fields.map Prod.fst ∧ value.distinct = true ∧ (object fields).distinct = true := by
    simp only [distinct, distinctFields, List.map_cons, List.nodup_cons, Bool.and_eq_true,
      decide_eq_true_eq]
    exact ⟨fun ⟨⟨hname, hnodup⟩, hvalue, hfields⟩ => ⟨hname, hvalue, hnodup, hfields⟩,
      fun ⟨hname, hvalue, hnodup, hfields⟩ => ⟨⟨hname, hnodup⟩, hvalue, hfields⟩⟩
  constructor
  · intro h
    obtain ⟨hname, hvalue, hfields⟩ := hdistinct.mp h.distinct
    exact ⟨hname, ⟨fun l hl => h.literal l ((hnumbers l).mpr (Or.inl hl)),
        fun l hl => h.numeral l ((hnumbers l).mpr (Or.inl hl)), hvalue⟩,
      ⟨fun l hl => h.literal l ((hnumbers l).mpr (Or.inr hl)),
        fun l hl => h.numeral l ((hnumbers l).mpr (Or.inr hl)), hfields⟩⟩
  · rintro ⟨hname, hvalue, hfields⟩
    refine ⟨fun l hl => ?_, fun l hl => ?_,
      hdistinct.mpr ⟨hname, hvalue.distinct, hfields.distinct⟩⟩
    · rcases (hnumbers l).mp hl with hl | hl
      · exact hvalue.literal l hl
      · exact hfields.literal l hl
    · rcases (hnumbers l).mp hl with hl | hl
      · exact hvalue.numeral l hl
      · exact hfields.numeral l hl

theorem printed_string (text : String) : (string text).Printed numeral :=
  ⟨fun _ hliteral => (by cases hliteral), fun _ hliteral => (by cases hliteral), rfl⟩

theorem printed_null : null.Printed numeral :=
  ⟨fun _ hliteral => (by cases hliteral), fun _ hliteral => (by cases hliteral), rfl⟩

theorem printed_nil : (object []).Printed numeral :=
  ⟨fun _ hliteral => (by cases hliteral), fun _ hliteral => (by cases hliteral), rfl⟩

theorem printed_string_cons {name text : String} {fields : List (String × Json)}
    (hname : name ∉ fields.map Prod.fst) (h : (object fields).Printed numeral) :
    (object ((name, string text) :: fields)).Printed numeral :=
  printed_object_cons.mpr ⟨hname, printed_string text, h⟩

/-- The names of the fields of an object are different. -/
private theorem nodup_of_printed {fields : List (String × Json)}
    (h : (object fields).Printed numeral) : (fields.map Prod.fst).Nodup := by
  have hdistinct := h.distinct
  simp only [distinct, Bool.and_eq_true, decide_eq_true_eq] at hdistinct
  exact hdistinct.1

private theorem stringifyItems_cons (item next : Json) (items : List Json) :
    stringifyItems (item :: next :: items) =
      item.stringify ++ ',' :: stringifyItems (next :: items) := rfl

private theorem stringifyFields_cons (name : String) (value : Json) (next : String × Json)
    (fields : List (String × Json)) :
    stringifyFields ((name, value) :: next :: fields) =
      quote name ++ ':' :: value.stringify ++ ',' :: stringifyFields (next :: fields) := rfl

/-- What is printed begins with no space, and with no closing bracket. -/
theorem head_stringify (content : Json) (h : content.Printed numeral) :
    ∃ c text, content.stringify = c :: text ∧ isSpace c = false ∧ c ≠ ']' := by
  cases content with
  | null => exact ⟨_, _, rfl, rfl, by decide⟩
  | bool b => cases b <;> exact ⟨_, _, rfl, rfl, by decide⟩
  | string s => exact ⟨_, _, rfl, rfl, by decide⟩
  | array items => exact ⟨_, _, rfl, rfl, by decide⟩
  | object fields => exact ⟨_, _, rfl, rfl, by decide⟩
  | number literal =>
      have hliteral := h.literal literal (List.mem_singleton_self _)
      cases htext : literal.toList with
      | nil =>
          rw [htext] at hliteral
          cases hliteral
      | cons c text =>
          rw [htext] at hliteral
          refine ⟨c, text, htext, ?_⟩
          rcases head_of_parseLiteral hliteral with rfl | hdigit
          · exact ⟨rfl, by decide⟩
          · have hrange := Char.isDigit_iff_toNat.mp hdigit
            constructor
            · simp only [isSpace, List.contains_eq_mem, decide_eq_false_iff_not, List.mem_cons,
                List.not_mem_nil, or_false]
              rintro (rfl | rfl | rfl | rfl) <;> cases hdigit
            · rintro rfl
              cases hdigit

private theorem head_stringifyItems {item : Json} {items : List Json}
    (h : (array (item :: items)).Printed numeral) :
    ∃ c text, stringifyItems (item :: items) = c :: text ∧ isSpace c = false ∧ c ≠ ']' := by
  obtain ⟨c, text, htext, hhead⟩ := head_stringify item (printed_array_cons.mp h).1
  cases items with
  | nil => exact ⟨c, text, htext, hhead⟩
  | cons next items =>
      refine ⟨c, text ++ ',' :: stringifyItems (next :: items), ?_, hhead⟩
      rw [stringifyItems_cons, htext]
      rfl

private theorem head_stringifyFields (name : String) (value : Json)
    (fields : List (String × Json)) :
    ∃ text, stringifyFields ((name, value) :: fields) = '"' :: text := by
  cases fields with
  | nil => exact ⟨_, rfl⟩
  | cons next fields => exact ⟨_, rfl⟩

/-- Something is always printed. -/
theorem length_stringify_pos (content : Json) (h : content.Printed numeral) :
    0 < content.stringify.length := by
  obtain ⟨c, text, htext, -⟩ := head_stringify content h
  rw [htext]
  exact Nat.succ_pos _

/-- A number literal is read as one. -/
private theorem parseValue_literal {literal rest : List Char} (hrest : Stops rest) (fuel : ℕ)
    (h : parseLiteral literal = some (literal, [])) :
    parseValue numeral (fuel + 1) (literal ++ rest) =
      some (number (numeral (String.ofList literal)), rest) := by
  cases literal with
  | nil => cases h
  | cons c text =>
      have hdigit := head_of_parseLiteral h
      have hspace : isSpace c = false := by
        simp only [isSpace, List.contains_eq_mem, decide_eq_false_iff_not, List.mem_cons,
          List.not_mem_nil, or_false]
        rintro (rfl | rfl | rfl | rfl) <;> rcases hdigit with hdigit | hdigit <;> cases hdigit
      have hskip : skip (c :: text ++ rest) = c :: text ++ rest := by
        rw [List.cons_append, skip, List.dropWhile_cons_of_neg (by simp [hspace])]
      rw [parseValue, hskip]
      split
      case h_7 => rw [parseLiteral_append hrest h]; rfl
      all_goals
        next heq =>
          obtain ⟨rfl, -⟩ := List.cons.inj heq
          rcases hdigit with hdigit | hdigit <;> cases hdigit

private theorem stops_cons {c : Char} (h : c ∈ [',', ']', '}']) (rest : List Char) :
    Stops (c :: rest) := by
  intro d hd
  cases hd
  exact h

/-- Fields with different names are assigned in their order. -/
theorem foldl_assign {fields : List (String × Json)} :
    ∀ {assigned : List (String × Json)}, ((assigned ++ fields).map Prod.fst).Nodup →
      fields.foldl assign assigned = assigned ++ fields := by
  induction fields with
  | nil =>
      intro assigned _
      rw [List.append_nil]
      rfl
  | cons field fields ih =>
      intro assigned hnodup
      have hnew : (assigned.any fun f => f.1 = field.1) = false := by
        rw [List.map_append, List.nodup_append] at hnodup
        rw [List.any_eq_false]
        intro f hf
        have hne := hnodup.2.2 f.1 (List.mem_map_of_mem hf) field.1
          (List.mem_map_of_mem List.mem_cons_self)
        simpa using hne
      have hassign : assign assigned field = assigned ++ [field] := by
        rw [assign, hnew]
        rfl
      rw [List.foldl_cons, hassign, ih (by rwa [List.append_assoc])]
      rw [List.append_assoc]
      rfl

/-- An array that has an item. -/
private theorem parseValue_bracket {fuel : ℕ} {text t r : List Char} {c : Char}
    (hskip : skip text = '[' :: t) (ht : skip t = c :: r) (hc : c ≠ ']') :
    parseValue numeral (fuel + 1) text =
      (parseItems numeral fuel (c :: r)).map fun p => (array p.1, p.2) := by
  rw [parseValue, hskip]
  split
  case h_5 heq =>
    obtain rfl := (List.cons.inj heq).2
    rw [ht]
    split
    · next heq => exact absurd (List.cons.inj heq).1 hc
    · rfl
  case h_7 hne _ => exact absurd rfl (hne t)
  all_goals next heq => cases heq

/-- An object that has a field. -/
private theorem parseValue_brace {fuel : ℕ} {text t r : List Char}
    (hskip : skip text = '{' :: t) (ht : skip t = '"' :: r) :
    parseValue numeral (fuel + 1) text =
      (parseFields numeral fuel ('"' :: r)).map fun p => (object (p.1.foldl assign []), p.2) := by
  rw [parseValue, hskip]
  split
  case h_6 heq =>
    obtain rfl := (List.cons.inj heq).2
    rw [ht]
    rfl
  case h_7 hne => exact absurd rfl (hne t)
  all_goals next heq => cases heq

mutual

/-- A tree is read back from its text, whatever follows. -/
theorem parseValue_stringify (content : Json) (h : content.Printed numeral) (fuel : ℕ)
    (hfuel : 2 * content.stringify.length ≤ fuel) {rest : List Char} (hrest : Stops rest) :
    parseValue numeral fuel (content.stringify ++ rest) = some (content, rest) := by
  have hpos := length_stringify_pos content h
  obtain ⟨fuel, rfl⟩ : ∃ n, fuel = n + 1 := ⟨fuel - 1, by omega⟩
  cases content with
  | null => rfl
  | bool b => cases b <;> rfl
  | number literal =>
      have hmem := List.mem_singleton_self literal
      have hliteral : parseValue numeral (fuel + 1) (literal.toList ++ rest) = _ :=
        parseValue_literal hrest fuel (h.literal literal hmem)
      rw [String.ofList_toList, h.numeral literal hmem] at hliteral
      exact hliteral
  | string s =>
      have hskip : skip (quote s ++ rest) = '"' :: (s.toList.flatMap escape ++ '"' :: rest) := by
        rw [quote, List.append_assoc]
        rfl
      rw [stringify, parseValue, hskip]
      simp only [parseString_quote, Option.map_some]
  | array items =>
      cases items with
      | nil => rfl
      | cons item items =>
          have hskip : skip ((array (item :: items)).stringify ++ rest) =
              '[' :: (stringifyItems (item :: items) ++ ']' :: rest) := by
            rw [stringify, List.append_assoc]
            rfl
          obtain ⟨c, text, htext, hspace, hbracket⟩ := head_stringifyItems h
          have hitems := parseItems_stringify (item :: items) (List.cons_ne_nil _ _) h
            fuel (by
              simp only [stringify, List.length_cons, List.length_append] at hfuel
              omega) rest
          have hhead : skip (stringifyItems (item :: items) ++ ']' :: rest) =
              c :: (text ++ ']' :: rest) := by
            rw [htext, List.cons_append, skip, List.dropWhile_cons_of_neg (by simp [hspace])]
          rw [parseValue_bracket hskip hhead hbracket, ← List.cons_append, ← htext, hitems]
          rfl
  | object fields =>
      cases fields with
      | nil => rfl
      | cons field fields =>
          obtain ⟨name, value⟩ := field
          have hskip : skip ((object ((name, value) :: fields)).stringify ++ rest) =
              '{' :: (stringifyFields ((name, value) :: fields) ++ '}' :: rest) := by
            rw [stringify, List.append_assoc]
            rfl
          obtain ⟨text, htext⟩ := head_stringifyFields name value fields
          have hfields := parseFields_stringify ((name, value) :: fields)
            (List.cons_ne_nil _ _) h fuel (by
              simp only [stringify, List.length_cons, List.length_append] at hfuel
              omega) rest
          have hhead : skip (stringifyFields ((name, value) :: fields) ++ '}' :: rest) =
              '"' :: (text ++ '}' :: rest) := by
            rw [htext]
            rfl
          rw [parseValue_brace hskip hhead, ← List.cons_append, ← htext, hfields]
          rw [Option.map_some, foldl_assign (by exact nodup_of_printed h)]
          rfl

/-- The items of an array are. -/
theorem parseItems_stringify (items : List Json) (hne : items ≠ [])
    (h : (array items).Printed numeral) (fuel : ℕ)
    (hfuel : 2 * (stringifyItems items).length < fuel) (rest : List Char) :
    parseItems numeral fuel (stringifyItems items ++ ']' :: rest) = some (items, rest) := by
  obtain ⟨fuel, rfl⟩ : ∃ n, fuel = n + 1 := ⟨fuel - 1, by omega⟩
  cases items with
  | nil => exact absurd rfl hne
  | cons item items =>
      obtain ⟨hitem, hitems⟩ := printed_array_cons.mp h
      cases items with
      | nil =>
          have hvalue := parseValue_stringify item hitem fuel
            (by simp only [stringifyItems] at hfuel; omega) (stops_cons (c := ']') (by simp) rest)
          rw [stringifyItems, parseItems, hvalue]
          rfl
      | cons next items =>
          rw [stringifyItems_cons, List.length_append, List.length_cons] at hfuel
          have hvalue := parseValue_stringify item hitem fuel (by omega)
            (stops_cons (c := ',') (by simp) (stringifyItems (next :: items) ++ ']' :: rest))
          have hrest := parseItems_stringify (next :: items) (List.cons_ne_nil _ _) hitems
            fuel (by omega) rest
          rw [stringifyItems_cons, List.append_assoc, List.cons_append, parseItems, hvalue]
          show ((parseItems numeral fuel (stringifyItems (next :: items) ++ ']' :: rest)).map _) = _
          rw [hrest]
          rfl

/-- The fields of an object are. -/
theorem parseFields_stringify (fields : List (String × Json)) (hne : fields ≠ [])
    (h : (object fields).Printed numeral) (fuel : ℕ)
    (hfuel : 2 * (stringifyFields fields).length < fuel) (rest : List Char) :
    parseFields numeral fuel (stringifyFields fields ++ '}' :: rest) = some (fields, rest) := by
  obtain ⟨fuel, rfl⟩ : ∃ n, fuel = n + 1 := ⟨fuel - 1, by omega⟩
  cases fields with
  | nil => exact absurd rfl hne
  | cons field fields =>
      obtain ⟨name, value⟩ := field
      obtain ⟨-, hprinted, hfields⟩ := printed_object_cons.mp h
      have hname (text : List Char) :
          skip (quote name ++ text) = '"' :: (name.toList.flatMap escape ++ '"' :: text) := by
        rw [quote, List.append_assoc]
        rfl
      cases fields with
      | nil =>
          have hvalue := parseValue_stringify value hprinted fuel
            (by simp only [stringifyFields, List.length_append, List.length_cons] at hfuel; omega)
            (stops_cons (c := '}') (by simp) rest)
          rw [stringifyFields, List.append_assoc, List.cons_append, parseFields, hname]
          simp only [parseString_quote, Option.bind_eq_bind, Option.bind_some]
          show ((parseValue numeral fuel (value.stringify ++ '}' :: rest)).bind _) = _
          rw [hvalue]
          rfl
      | cons next fields =>
          rw [stringifyFields_cons] at hfuel
          simp only [List.length_append, List.length_cons] at hfuel
          have hvalue := parseValue_stringify value hprinted fuel (by omega)
            (stops_cons (c := ',') (by simp) (stringifyFields (next :: fields) ++ '}' :: rest))
          have hrest := parseFields_stringify (next :: fields) (List.cons_ne_nil _ _) hfields
            fuel (by omega) rest
          rw [stringifyFields_cons, List.append_assoc, List.append_assoc, List.cons_append,
            parseFields, hname]
          simp only [parseString_quote, Option.bind_eq_bind, Option.bind_some]
          show ((parseValue numeral fuel (value.stringify ++
            ',' :: (stringifyFields (next :: fields) ++ '}' :: rest))).bind _) = _
          rw [hvalue]
          show ((parseFields numeral fuel
            (stringifyFields (next :: fields) ++ '}' :: rest)).map _) = _
          rw [hrest]
          rfl

end

/-- **What `JSON.stringify` prints, `JSON.parse` reads back.** -/
theorem parse_stringify (content : Json) (h : content.Printed numeral) :
    parse numeral content.stringify = some content := by
  have hvalue :=
    parseValue_stringify content h _ le_rfl (show Stops [] from fun c hc => by cases hc)
  rw [List.append_nil] at hvalue
  rw [parse, hvalue]
  rfl

/-! ### Natural numbers -/

/-- A number is written without leading zeros. -/
private theorem exists_toDigits {n : ℕ} (hn : 0 < n) :
    ∃ c rest, Nat.toDigits 10 n = c :: rest ∧ c ≠ '0' := by
  induction n using Nat.strong_induction_on with
  | _ n ih =>
    rcases Nat.lt_or_ge n 10 with hlt | hge
    · refine ⟨n.digitChar, [], Nat.toDigits_of_lt_base hlt, ?_⟩
      have hall : ∀ n : Fin 10, 0 < n.val → n.val.digitChar ≠ '0' := by decide
      exact hall ⟨n, hlt⟩ hn
    · obtain ⟨c, rest, heq, hc⟩ := ih (n / 10) (Nat.div_lt_self hn (by decide)) (by omega)
      exact ⟨c, rest ++ [(n % 10).digitChar],
        by rw [Nat.toDigits_of_base_le (by decide) hge, heq, List.cons_append], hc⟩

/-- The decimal digits of a number are a literal. -/
theorem parseLiteral_repr (n : ℕ) :
    parseLiteral n.repr.toList = some (n.repr.toList, []) := by
  rw [Nat.toList_repr]
  rcases Nat.eq_zero_or_pos n with rfl | hn
  · rw [Nat.toDigits_zero]
    rfl
  · obtain ⟨c, rest, heq, hc⟩ := exists_toDigits hn
    have hdigits : ∀ d ∈ c :: rest, d.isDigit = true := fun d hd =>
      Nat.isDigit_of_mem_toDigits (by decide) (by decide) (heq ▸ hd)
    obtain ⟨hdigit, hrest⟩ := List.forall_mem_cons.mp hdigits
    have hsign : c ≠ '-' := by
      rintro rfl
      exact absurd hdigit (by decide)
    have hinteger : integerPart (c :: rest) = some (c :: rest, []) := by
      unfold integerPart
      split
      · next h => cases h
      · next h =>
          obtain ⟨rfl, -⟩ := List.cons.inj h
          exact absurd rfl hc
      · next d tail _ h =>
          obtain ⟨rfl, rfl⟩ := List.cons.inj h
          rw [if_pos hdigit, List.takeWhile_eq_self_iff.mpr hrest,
            List.dropWhile_eq_nil_iff.mpr hrest]
    rw [heq, parseLiteral]
    simp only [List.head?_cons, Option.some.injEq, if_neg hsign, List.length_nil, List.drop_zero,
      hinteger, Option.bind_eq_bind, Option.bind_some, List.nil_append]
    simp [fractionPart, exponentPart]

theorem printed_repr {n : ℕ} (h : numeral n.repr = n.repr) : (number n.repr).Printed numeral := by
  refine ⟨fun literal hliteral => ?_, fun literal hliteral => ?_, rfl⟩
  · obtain rfl := List.mem_singleton.mp hliteral
    exact parseLiteral_repr n
  · obtain rfl := List.mem_singleton.mp hliteral
    exact h

end AideepWebsocket.Library.Json
