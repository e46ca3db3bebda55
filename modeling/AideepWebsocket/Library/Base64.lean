import Mathlib.Data.List.Basic
import Mathlib.Data.List.TakeWhile

/-!
# Base64

`Buffer.toString('base64')` and `Buffer.from(text, 'base64')`.  The encoder pads to groups of
four characters.  The decoder is lenient: it takes both alphabets, passes over every other
byte and stops at the first `=`; bits that fill no byte are dropped.  Of a code unit above
`U+00FF` it sees the low byte, so that `U+0141` is as good as an `A`.

So decoding is a retraction of encoding and not its inverse (`decode_encode`), and what is
encoded is empty only if the bytes are (`encode_eq_nil`).
-/

namespace AideepWebsocket.Library.Base64

/-- The 64 digits, in order. -/
def alphabet : List Char :=
  "ABCDEFGHIJKLMNOPQRSTUVWXYZabcdefghijklmnopqrstuvwxyz0123456789+/".toList

/-- The character of a sextet. -/
def digit (n : ℕ) : Char := alphabet.getD n 'A'

/-- The digit that a character stands for, in the alphabet of either kind. -/
def value (c : Char) : Option ℕ :=
  if c = '-' then some 62
  else if c = '_' then some 63
  else alphabet.idxOf? c

/-- What the decoder sees of a character: the low byte of each of its code units. -/
def lowBytes (c : Char) : List Char :=
  if c.toNat < 0x10000 then [.ofNat (c.toNat % 0x100)]
  else
    [.ofNat ((c.toNat - 0x10000) / 0x400 % 0x100), .ofNat ((c.toNat - 0x10000) % 0x400 % 0x100)]

/-! ### Bytes and digits -/

/-- The digits of some bytes, without the padding. -/
def sextets : List UInt8 → List ℕ
  | [] => []
  | [a] => [a.toNat / 4, a.toNat % 4 * 16]
  | [a, b] => [a.toNat / 4, a.toNat % 4 * 16 + b.toNat / 16, b.toNat % 16 * 4]
  | a :: b :: c :: rest =>
      a.toNat / 4 :: (a.toNat % 4 * 16 + b.toNat / 16) :: (b.toNat % 16 * 4 + c.toNat / 64) ::
        c.toNat % 64 :: sextets rest

/-- How much is missing from the last group. -/
def padding : List UInt8 → List Char
  | [] => []
  | [_] => ['=', '=']
  | [_, _] => ['=']
  | _ :: _ :: _ :: rest => padding rest

/-- The bytes that digits make up. -/
def pack : List ℕ → List UInt8
  | a :: b :: c :: d :: rest =>
      .ofNat (a * 4 + b / 16) :: .ofNat (b % 16 * 16 + c / 4) :: .ofNat (c % 4 * 64 + d) ::
        pack rest
  | [a, b, c] => [.ofNat (a * 4 + b / 16), .ofNat (b % 16 * 16 + c / 4)]
  | [a, b] => [.ofNat (a * 4 + b / 16)]
  | _ => []

/-- `bytes.toString('base64')`. -/
def encode (bytes : List UInt8) : List Char := (sextets bytes).map digit ++ padding bytes

/-- `Buffer.from(text, 'base64')`. -/
def decode (text : List Char) : List UInt8 :=
  pack (((text.flatMap lowBytes).takeWhile (· ≠ '=')).filterMap value)

example : encode [77, 97] = ['T', 'W', 'E', '='] := by decide

example : decode ['T', ' ', 'W', 'E'] = [77, 97] := by decide

example : decode ['\u0154', 'W', 'E'] = decode ['T', 'W', 'E'] := by decide

/-! ### The round trip -/

/-- Each digit stands for six bits. -/
theorem sextets_lt (bytes : List UInt8) : ∀ n ∈ sextets bytes, n < 64 := by
  fun_induction sextets bytes with
  | case1 => simp
  | case2 a =>
      have ha := a.toNat_lt
      simp only [List.mem_cons, List.not_mem_nil, or_false]
      omega
  | case3 a b =>
      have ha := a.toNat_lt
      have hb := b.toNat_lt
      simp only [List.mem_cons, List.not_mem_nil, or_false]
      omega
  | case4 a b c rest ih =>
      have ha := a.toNat_lt
      have hb := b.toNat_lt
      have hc := c.toNat_lt
      simp only [List.mem_cons]
      rintro n (rfl | rfl | rfl | rfl | hn)
      · omega
      · omega
      · omega
      · omega
      · exact ih n hn

/-- The bits of the bytes come back in their order; those that pad a group are dropped. -/
theorem pack_sextets (bytes : List UInt8) : pack (sextets bytes) = bytes := by
  have hbyte : ∀ (a : UInt8) (n : ℕ), n = a.toNat → UInt8.ofNat n = a := by
    rintro a n rfl
    exact UInt8.ofNat_toNat
  fun_induction sextets bytes with
  | case1 => rfl
  | case2 a =>
      have ha := a.toNat_lt
      rw [pack, hbyte a _ (by omega)]
  | case3 a b =>
      have ha := a.toNat_lt
      have hb := b.toNat_lt
      rw [pack, hbyte a _ (by omega), hbyte b _ (by omega)]
  | case4 a b c rest ih =>
      have ha := a.toNat_lt
      have hb := b.toNat_lt
      have hc := c.toNat_lt
      rw [pack, hbyte a _ (by omega), hbyte b _ (by omega), hbyte c _ (by omega), ih]

/-- A character that is written is read as the digit it was written for. -/
private theorem value_digit {n : ℕ} (hn : n < 64) : value (digit n) = some n := by
  have hall : ∀ n : Fin 64, value (digit n) = some n.val := by decide +kernel
  exact hall ⟨n, hn⟩

/-- Padding is no digit. -/
private theorem digit_ne_pad {n : ℕ} (hn : n < 64) : digit n ≠ '=' := by
  have hall : ∀ n : Fin 64, digit n ≠ '=' := by decide +kernel
  exact hall ⟨n, hn⟩

/-- Padding is where the decoder stops. -/
private theorem takeWhile_padding (bytes : List UInt8) :
    (padding bytes).takeWhile (· ≠ '=') = [] := by
  fun_induction padding bytes with
  | case1 => rfl
  | case2 => rfl
  | case3 => rfl
  | case4 _ _ _ _ ih => exact ih

/-- The digits of a text are read in their order, and none is passed over. -/
private theorem filterMap_digits {digits : List ℕ} (h : ∀ n ∈ digits, n < 64) :
    (digits.map digit).filterMap value = digits := by
  induction digits with
  | nil => rfl
  | cons n digits ih =>
      rw [List.forall_mem_cons] at h
      rw [List.map_cons, List.filterMap_cons_some (value_digit h.1), ih h.2]

/-- Nothing that is encoded is beyond a byte. -/
private theorem flatMap_lowBytes (bytes : List UInt8) :
    (encode bytes).flatMap lowBytes = encode bytes := by
  have hdigit : ∀ n : Fin 64, lowBytes (digit n) = [digit n] := by decide +kernel
  have hpad : lowBytes '=' = ['='] := by decide +kernel
  have hpadding : ∀ c ∈ padding bytes, lowBytes c = [c] := by
    fun_induction padding bytes with
    | case1 => simp
    | case2 => simp [hpad]
    | case3 => simp [hpad]
    | case4 _ _ _ _ ih => exact ih
  have hself : ∀ c ∈ encode bytes, lowBytes c = [c] := by
    intro c hc
    rcases List.mem_append.mp hc with hc | hc
    · obtain ⟨n, hn, rfl⟩ := List.mem_map.mp hc
      exact hdigit ⟨n, sextets_lt bytes n hn⟩
    · exact hpadding c hc
  exact (List.flatMap_congr hself).trans (List.flatMap_singleton' _)

/-- **What is encoded is decoded.** -/
theorem decode_encode (bytes : List UInt8) : decode (encode bytes) = bytes := by
  have hlt := sextets_lt bytes
  have hdigits : ∀ c ∈ (sextets bytes).map digit, decide (c ≠ '=') = true := by
    rw [List.forall_mem_map]
    intro n hn
    exact decide_eq_true (digit_ne_pad (hlt n hn))
  rw [decode, flatMap_lowBytes, encode, List.takeWhile_append_of_pos hdigits, takeWhile_padding,
    List.append_nil, filterMap_digits hlt, pack_sextets]

/-- Only nothing is encoded as the empty text. -/
theorem encode_eq_nil {bytes : List UInt8} : encode bytes = [] ↔ bytes = [] := by
  constructor
  · intro h
    rw [← decode_encode bytes, h]
    rfl
  · rintro rfl
    rfl

end AideepWebsocket.Library.Base64
