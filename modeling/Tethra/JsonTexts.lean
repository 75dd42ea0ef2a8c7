import Tethra.DeviceAuth
import Tethra.SessionFleets

set_option autoImplicit false

/-!
# Compact JSON texts

The text of a value in one line, and a codec for a list of values whose strings need no escapes
and whose texts differ.
-/
namespace Tethra.JsonTexts
open AuthenticatedEncryption JsonValues RepositoryRequests VaultCrypto VaultRecords VaultTypes
open DeviceAuth (ascii)

/-! ## Equality -/

mutual

def decEqJson : (a b : Json) → Decidable (a = b)
  | .null, .null => isTrue rfl
  | .bool a, .bool b => decidable_of_iff (a = b) (by simp)
  | .number a, .number b => decidable_of_iff (a = b) (by simp)
  | .string a, .string b => decidable_of_iff (a = b) (by simp)
  | .array a, .array b =>
    have := decEqItems a b
    decidable_of_iff (a = b) (by simp)
  | .object a, .object b =>
    have := decEqEntries a b
    decidable_of_iff (a = b) (by simp)
  | .null, .bool _ | .null, .number _ | .null, .string _ | .null, .array _ | .null, .object _
  | .bool _, .null | .bool _, .number _ | .bool _, .string _ | .bool _, .array _
  | .bool _, .object _ | .number _, .null | .number _, .bool _ | .number _, .string _
  | .number _, .array _ | .number _, .object _ | .string _, .null | .string _, .bool _
  | .string _, .number _ | .string _, .array _ | .string _, .object _ | .array _, .null
  | .array _, .bool _ | .array _, .number _ | .array _, .string _ | .array _, .object _
  | .object _, .null | .object _, .bool _ | .object _, .number _ | .object _, .string _
  | .object _, .array _ => isFalse nofun

def decEqItems : (a b : List Json) → Decidable (a = b)
  | [], [] => isTrue rfl
  | a :: as, b :: bs =>
    have := decEqJson a b
    have := decEqItems as bs
    decidable_of_iff (a = b ∧ as = bs) (by simp)
  | [], _ :: _ | _ :: _, [] => isFalse nofun

def decEqEntries : (a b : List (String × Json)) → Decidable (a = b)
  | [], [] => isTrue rfl
  | (key, a) :: as, (key', b) :: bs =>
    have := decEqJson a b
    have := decEqEntries as bs
    decidable_of_iff ((key = key' ∧ a = b) ∧ as = bs) (by simp)
  | [], _ :: _ | _ :: _, [] => isFalse nofun

end

instance : DecidableEq Json := decEqJson

/-! ## Texts -/

def quote (s : String) : List Char := '\"' :: (s.toList ++ ['\"'])

def number : ℤ → List Char
  | .ofNat n => Nat.toDigits 10 n
  | .negSucc n => '-' :: Nat.toDigits 10 (n + 1)

mutual

def render : Json → List Char
  | .null => ['n', 'u', 'l', 'l']
  | .bool true => ['t', 'r', 'u', 'e']
  | .bool false => ['f', 'a', 'l', 's', 'e']
  | .number n => number n
  | .string s => quote s
  | .array items => '[' :: renderItems items
  | .object entries => '\x7b' :: renderEntries entries

def renderItems : List Json → List Char
  | [] => [']']
  | [v] => render v ++ [']']
  | v :: items => render v ++ ',' :: renderItems items

def renderEntries : List (String × Json) → List Char
  | [] => ['\x7d']
  | [(key, v)] => quote key ++ ':' :: render v ++ ['\x7d']
  | (key, v) :: entries => quote key ++ ':' :: render v ++ ',' :: renderEntries entries

end

def toBytes (v : Json) : Bytes := (render v).map fun c => UInt8.ofNat c.toNat

/-- Values with texts of their own. -/
structure Samples where
  values : List Json
  distinct : ∀ v ∈ values, ∀ w ∈ values, toBytes v = toBytes w → v = w

namespace Samples
variable (samples : Samples)

def toVec (v : Json) : Except String Bytes :=
  if v ∈ samples.values then .ok (toBytes v) else .error "not a sample"

def fromSlice (bytes : Bytes) : Except String Json :=
  match samples.values.find? fun v => toBytes v = bytes with
  | some v => .ok v
  | none => .error "not a sample"

theorem fromSlice_toVec (v : Json) (bytes : Bytes) (h : samples.toVec v = .ok bytes) :
    samples.fromSlice bytes = .ok v := by
  unfold toVec at h
  split at h
  · rename_i hv
    cases h
    unfold fromSlice
    cases hfind : samples.values.find? fun w => decide (toBytes w = toBytes v) with
    | none =>
      have hnone := List.find?_eq_none.1 hfind v hv
      simp at hnone
    | some w =>
      have hw := List.find?_some hfind
      exact congrArg _ (samples.distinct w (List.mem_of_find?_eq_some hfind) v hv
        (of_decide_eq_true hw))
  · cases h

/-- The transparent cipher, and these texts. -/
def externals (decodeSecretKey : String → Option String → Except String PublicKey)
    (parseSshConfig : String → Except Error (List SshConfigHost)) : Externals where
  aead := transparent KEY_LEN
  texts := SessionFleets.sampleTexts
  toVec := samples.toVec
  fromSlice := samples.fromSlice
  fromSlice_toVec := samples.fromSlice_toVec
  decodeSecretKey := decodeSecretKey
  parseSshConfig := parseSshConfig

end Samples

end Tethra.JsonTexts
