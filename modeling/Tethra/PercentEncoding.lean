import Mathlib.Data.List.Basic
import Mathlib.Data.UInt
import Mathlib.Tactic

set_option autoImplicit false

/-!
# Percent encoding

A byte is written as itself or as a percent sign and two hexadecimal digits. A query is a list
of encoded names and values.
-/
namespace Tethra.PercentEncoding

def hexDigit (n : ℕ) : Char :=
  ['0', '1', '2', '3', '4', '5', '6', '7', '8', '9', 'A', 'B', 'C', 'D', 'E', 'F'].getD n '0'

def hexValue (c : Char) : Option ℕ :=
  if '0' ≤ c ∧ c ≤ '9' then some (c.toNat - 48)
  else if 'A' ≤ c ∧ c ≤ 'F' then some (c.toNat - 55)
  else if 'a' ≤ c ∧ c ≤ 'f' then some (c.toNat - 87)
  else none

def escape (b : UInt8) : List Char := ['%', hexDigit (b.toNat / 16), hexDigit (b.toNat % 16)]

/-- A percent sign without two digits stands for itself. -/
def decode : List Char → List UInt8
  | [] => []
  | [c] => String.utf8EncodeChar c
  | [c, d] => String.utf8EncodeChar c ++ String.utf8EncodeChar d
  | c :: high :: low :: rest =>
    match (if c = '%' then hexValue high else none), hexValue low with
    | some h, some l => UInt8.ofNat (16 * h + l) :: decode rest
    | _, _ => String.utf8EncodeChar c ++ decode (high :: low :: rest)

theorem hexValue_hexDigit (n : ℕ) (h : n < 16) : hexValue (hexDigit n) = some n := by
  interval_cases n <;> decide

theorem hexDigit_mem (n : ℕ) (h : n < 16) :
    hexDigit n ∈ ['0', '1', '2', '3', '4', '5', '6', '7', '8', '9', 'A', 'B', 'C', 'D', 'E', 'F'] := by
  interval_cases n <;> decide

theorem decode_escape (b : UInt8) (rest : List Char) :
    decode (escape b ++ rest) = b :: decode rest := by
  have hlt : b.toNat < 256 := b.toNat_lt
  change decode ('%' :: hexDigit (b.toNat / 16) :: hexDigit (b.toNat % 16) :: rest) = _
  rw [decode, if_pos rfl, hexValue_hexDigit _ (by omega), hexValue_hexDigit _ (by omega)]
  have hback : 16 * (b.toNat / 16) + b.toNat % 16 = b.toNat := Nat.div_add_mod _ _
  simp only [hback, UInt8.ofNat_toNat]

theorem decode_cons {c : Char} (hc : c ≠ '%') (rest : List Char) :
    decode (c :: rest) = String.utf8EncodeChar c ++ decode rest := by
  match rest with
  | [] => simp [decode]
  | [d] => simp [decode]
  | high :: low :: rest => rw [decode, if_neg hc]

section Encoding
variable (safe : UInt8 → Bool)

def encodeByte (b : UInt8) : List Char :=
  if safe b then [Char.ofNat b.toNat] else escape b

def encode (bytes : List UInt8) : List Char := bytes.flatMap (encodeByte safe)

/-- The bytes written as themselves are letters of the text and no percent signs. -/
def Admits (safe : UInt8 → Bool) : Prop := ∀ b, safe b = true → b.toNat < 128 ∧ b ≠ 37

variable {safe}

theorem code_ofNat {n : ℕ} (h : n < 128) : (Char.ofNat n).toNat = n := by
  have hvalid : n.isValidChar := Or.inl (by omega)
  rw [Char.ofNat, dif_pos hvalid]
  rfl

theorem utf8EncodeChar_ofNat {n : ℕ} (h : n < 128) :
    String.utf8EncodeChar (Char.ofNat n) = [UInt8.ofNat n] := by
  have hval : (Char.ofNat n).val.toNat = n := code_ofNat h
  unfold String.utf8EncodeChar
  simp only [hval]
  rw [if_pos (by omega)]

theorem decode_encodeByte (hsafe : Admits safe) (b : UInt8) (rest : List Char) :
    decode (encodeByte safe b ++ rest) = b :: decode rest := by
  unfold encodeByte
  cases hb : safe b with
  | false => exact decode_escape b rest
  | true =>
    obtain ⟨hlt, hne⟩ := hsafe b hb
    have hchar : Char.ofNat b.toNat ≠ '%' := by
      intro h
      have hcode := congrArg Char.toNat h
      rw [code_ofNat hlt] at hcode
      exact hne (UInt8.toNat_inj.1 hcode)
    rw [if_pos rfl, List.singleton_append, decode_cons hchar, utf8EncodeChar_ofNat hlt,
      UInt8.ofNat_toNat, List.singleton_append]

theorem decode_encode (hsafe : Admits safe) (bytes : List UInt8) (rest : List Char) :
    decode (encode safe bytes ++ rest) = bytes ++ decode rest := by
  induction bytes with
  | nil => rfl
  | cons b bytes ih =>
    have hcons : encode safe (b :: bytes) = encodeByte safe b ++ encode safe bytes := rfl
    rw [hcons, List.append_assoc, decode_encodeByte hsafe, ih, List.cons_append]

/-- What no byte is written with stands nowhere in an encoded text. -/
theorem not_mem_encode {c : Char} (hescape : ∀ b, c ∉ escape b)
    (hsafe : ∀ b, safe b = true → Char.ofNat b.toNat ≠ c) (bytes : List UInt8) :
    c ∉ encode safe bytes := by
  induction bytes with
  | nil => simp [encode]
  | cons b bytes ih =>
    have hcons : encode safe (b :: bytes) = encodeByte safe b ++ encode safe bytes := rfl
    rw [hcons, List.mem_append, not_or]
    refine ⟨?_, ih⟩
    unfold encodeByte
    cases hb : safe b with
    | false => exact hescape b
    | true =>
      rw [if_pos rfl, List.mem_singleton]
      exact fun h => hsafe b hb h.symm

theorem not_mem_escape {c : Char} (hsign : c ≠ '%')
    (hdigit : c ∉ ['0', '1', '2', '3', '4', '5', '6', '7', '8', '9', 'A', 'B', 'C', 'D', 'E', 'F'])
    (b : UInt8) : c ∉ escape b := by
  have hlt : b.toNat < 256 := b.toNat_lt
  intro h
  simp only [escape, List.mem_cons, List.not_mem_nil, or_false] at h
  obtain h | h | h := h
  · exact hsign h
  · exact hdigit (h ▸ hexDigit_mem _ (by omega))
  · exact hdigit (h ▸ hexDigit_mem _ (by omega))

end Encoding

/-! ## Queries -/

section Queries
variable {α : Type} (readText : List UInt8 → α)

/-- A plus sign is a blank. -/
def blank (c : Char) : Char := if c = '+' then ' ' else c

def decodePart (part : List Char) : α := readText (decode (part.map blank))

/-- The name up to the first equals sign, and the value behind it. -/
def decodePair (pair : List Char) : α × α :=
  (decodePart readText (pair.takeWhile (· ≠ '=')),
    decodePart readText ((pair.dropWhile (· ≠ '=')).drop 1))

def parseQuery (query : List Char) : List (α × α) :=
  ((query.splitOn '&').filter fun pair => !pair.isEmpty).map (decodePair readText)

variable {readText}

theorem map_blank {part : List Char} (h : '+' ∉ part) : part.map blank = part := by
  induction part with
  | nil => rfl
  | cons c part ih =>
    rw [List.mem_cons, not_or] at h
    rw [List.map_cons, ih h.2, blank, if_neg (Ne.symm h.1)]

/-- The bytes written as themselves separate nothing. -/
structure Separable (safe : UInt8 → Bool) : Prop where
  admits : Admits safe
  amp : safe 38 = false
  plus : safe 43 = false
  equals : safe 61 = false

theorem Separable.not_mem {safe : UInt8 → Bool} (h : Separable safe) {b : UInt8} {c : Char}
    (hb : safe b = false) (hc : c.toNat = b.toNat) (hsign : c ≠ '%')
    (hdigit : c ∉ ['0', '1', '2', '3', '4', '5', '6', '7', '8', '9', 'A', 'B', 'C', 'D', 'E', 'F'])
    (bytes : List UInt8) : c ∉ encode safe bytes := by
  refine not_mem_encode (not_mem_escape hsign hdigit) (fun a ha heq => ?_) bytes
  obtain ⟨hlt, -⟩ := h.admits a ha
  have hcode := congrArg Char.toNat heq
  rw [code_ofNat hlt, hc] at hcode
  rw [UInt8.toNat_inj.1 hcode, hb] at ha
  cases ha

theorem decodePart_encode {safe : UInt8 → Bool} (h : Separable safe) (bytes : List UInt8) :
    decodePart readText (encode safe bytes) = readText bytes := by
  have hplus : '+' ∉ encode safe bytes := h.not_mem h.plus rfl (by decide) (by decide) bytes
  have hdecode := decode_encode h.admits bytes []
  rw [List.append_nil, decode, List.append_nil] at hdecode
  rw [decodePart, map_blank hplus, hdecode]

theorem decodePair_encode {safe : UInt8 → Bool} (h : Separable safe) (name value : List UInt8) :
    decodePair readText (encode safe name ++ '=' :: encode safe value) =
      (readText name, readText value) := by
  have hequals : ∀ c ∈ encode safe name, decide (c ≠ '=') = true := by
    intro c hc
    refine decide_eq_true ?_
    rintro rfl
    exact h.not_mem h.equals rfl (by decide) (by decide) name hc
  unfold decodePair
  rw [List.takeWhile_append_of_pos hequals, List.dropWhile_append_of_pos hequals]
  simp [decodePart_encode h]

variable (readText) in
/-- One name with its value reads back. -/
theorem parseQuery_encode {safe : UInt8 → Bool} (h : Separable safe) (name value : List UInt8) :
    parseQuery readText (encode safe name ++ '=' :: encode safe value) =
      [(readText name, readText value)] := by
  have hamp : ∀ bytes, '&' ∉ encode safe bytes := h.not_mem h.amp rfl (by decide) (by decide)
  have hall : '&' ∉ encode safe name ++ '=' :: encode safe value := by
    simp [hamp]
  unfold parseQuery
  rw [List.splitOn_eq_singleton hall]
  simp [decodePair_encode h]

end Queries

end Tethra.PercentEncoding
