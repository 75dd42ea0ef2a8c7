import Mathlib.Tactic

set_option autoImplicit false

/-!
# Base64 with padding

A codec is an encoder and a decoder that inverts it. `standard` is the one of RFC 4648 §4,
whose decoder takes canonical padded text only.
-/
namespace Tethra.Base64Strings

structure Base64 where
  encode : List UInt8 → String
  decode : String → Except String (List UInt8)
  decode_encode : ∀ bytes, decode (encode bytes) = .ok bytes

def alphabet : List Char :=
  ['A', 'B', 'C', 'D', 'E', 'F', 'G', 'H', 'I', 'J', 'K', 'L', 'M', 'N', 'O', 'P', 'Q', 'R', 'S',
    'T', 'U', 'V', 'W', 'X', 'Y', 'Z', 'a', 'b', 'c', 'd', 'e', 'f', 'g', 'h', 'i', 'j', 'k', 'l',
    'm', 'n', 'o', 'p', 'q', 'r', 's', 't', 'u', 'v', 'w', 'x', 'y', 'z', '0', '1', '2', '3', '4',
    '5', '6', '7', '8', '9', '+', '/']

def symbol (sextet : ℕ) : Char := alphabet.getD sextet '='

def sextet? (c : Char) : Option ℕ :=
  let i := alphabet.idxOf c
  if i < 64 then some i else none

theorem sextet?_symbol (i : ℕ) (h : i < 64) : sextet? (symbol i) = some i := by
  revert i
  decide

theorem symbol_ne_pad (i : ℕ) (h : i < 64) : symbol i ≠ '=' := by
  revert i
  decide

def encodeChars : List UInt8 → List Char
  | [] => []
  | [a] => [symbol (a.toNat / 4), symbol (a.toNat % 4 * 16), '=', '=']
  | [a, b] => [symbol (a.toNat / 4), symbol (a.toNat % 4 * 16 + b.toNat / 16),
      symbol (b.toNat % 16 * 4), '=']
  | a :: b :: c :: rest =>
      symbol (a.toNat / 4) :: symbol (a.toNat % 4 * 16 + b.toNat / 16) ::
        symbol (b.toNat % 16 * 4 + c.toNat / 64) :: symbol (c.toNat % 64) :: encodeChars rest

def decodeChars : List Char → Option (List UInt8)
  | [] => some []
  | [w, x, '=', '='] => do
      let i ← sextet? w
      let j ← sextet? x
      if j % 16 = 0 then some [UInt8.ofNat (i * 4 + j / 16)] else none
  | [w, x, y, '='] => do
      let i ← sextet? w
      let j ← sextet? x
      let k ← sextet? y
      if k % 4 = 0 then
        some [UInt8.ofNat (i * 4 + j / 16), UInt8.ofNat (j % 16 * 16 + k / 4)]
      else none
  | w :: x :: y :: z :: rest => do
      let i ← sextet? w
      let j ← sextet? x
      let k ← sextet? y
      let l ← sextet? z
      let bytes ← decodeChars rest
      some (UInt8.ofNat (i * 4 + j / 16) :: UInt8.ofNat (j % 16 * 16 + k / 4) ::
        UInt8.ofNat (k % 4 * 64 + l) :: bytes)
  | _ => none

private theorem byte_eq {a : UInt8} {n : ℕ} (h : n = a.toNat) : UInt8.ofNat n = a := by
  rw [h, UInt8.ofNat_toNat]

theorem decodeChars_encodeChars (bytes : List UInt8) :
    decodeChars (encodeChars bytes) = some bytes := by
  induction bytes using encodeChars.induct with
  | case1 => rfl
  | case2 a =>
    have ha := a.toNat_lt
    rw [encodeChars, decodeChars, sextet?_symbol _ (by omega), sextet?_symbol _ (by omega)]
    have hpad : a.toNat % 4 * 16 % 16 = 0 := by omega
    simp only [Option.bind_eq_bind, Option.bind_some, hpad, ↓reduceIte]
    rw [byte_eq (a := a) (by omega)]
  | case3 a b =>
    have ha := a.toNat_lt
    have hb := b.toNat_lt
    rw [encodeChars, decodeChars, sextet?_symbol _ (by omega), sextet?_symbol _ (by omega),
      sextet?_symbol _ (by omega)]
    · have hpad : b.toNat % 16 * 4 % 4 = 0 := by omega
      simp only [Option.bind_eq_bind, Option.bind_some, hpad, ↓reduceIte]
      rw [byte_eq (a := a) (by omega), byte_eq (a := b) (by omega)]
    · exact fun h => symbol_ne_pad _ (by omega) h
  | case4 a b c rest ih =>
    have ha := a.toNat_lt
    have hb := b.toNat_lt
    have hc := c.toNat_lt
    rw [encodeChars, decodeChars, sextet?_symbol _ (by omega), sextet?_symbol _ (by omega),
      sextet?_symbol _ (by omega), sextet?_symbol _ (by omega), ih]
    · simp only [Option.bind_eq_bind, Option.bind_some]
      rw [byte_eq (a := a) (by omega), byte_eq (a := b) (by omega), byte_eq (a := c) (by omega)]
    · exact fun _ h => absurd h (symbol_ne_pad _ (by omega))
    · exact fun h => absurd h (symbol_ne_pad _ (by omega))

def standard : Base64 where
  encode bytes := String.ofList (encodeChars bytes)
  decode text :=
    match decodeChars text.toList with
    | some bytes => .ok bytes
    | none => .error "Invalid symbol or padding."
  decode_encode bytes := by
    rw [String.toList_ofList, decodeChars_encodeChars]

/-- `standard`, which recalls the texts of some bytes without reading them. -/
def recalling (known : List (List UInt8)) : Base64 where
  encode := standard.encode
  decode text :=
    match known.find? fun bytes => standard.encode bytes = text with
    | some bytes => .ok bytes
    | none => standard.decode text
  decode_encode bytes := by
    split
    · rename_i found hfound
      have heq : standard.encode found = standard.encode bytes := by
        simpa using List.find?_some hfound
      have hdecode := standard.decode_encode found
      rw [heq, standard.decode_encode] at hdecode
      exact hdecode.symm
    · exact standard.decode_encode bytes

theorem standard_eq_recalling (known : List (List UInt8)) : standard = recalling known := by
  have hdecode : standard.decode = (recalling known).decode := by
    funext text
    change _ = match known.find? fun bytes => standard.encode bytes = text with
      | some bytes => _
      | none => _
    split
    · rename_i found hfound
      have heq : standard.encode found = text := by simpa using List.find?_some hfound
      rw [← heq, standard.decode_encode]
    · rfl
  exact (Base64.mk.injEq ..).mpr ⟨rfl, hdecode⟩

end Tethra.Base64Strings
