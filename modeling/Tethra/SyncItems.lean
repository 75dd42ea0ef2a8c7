import Tethra.Base64Strings
import Tethra.StampedRegisters
import Tethra.VaultTypes

set_option autoImplicit false

/-! # Sync items, cursors and last-write-wins -/
namespace Tethra.SyncItems
open AuthenticatedEncryption Base64Strings StampedRegisters VaultTypes

structure SyncCursor where
  asStr : String
  deriving DecidableEq, Repr

def isDecimal (digits : List Char) : Bool := !digits.isEmpty && digits.all Char.isDigit

def stripPlus : List Char → List Char
  | '+' :: rest => rest
  | all => all

/-- `str::parse::<u64>`: decimal digits after at most one plus sign, in range. -/
def parseU64 (text : String) : Option UInt64 :=
  if isDecimal (stripPlus text.toList) ∧ Nat.ofDigitChars 10 (stripPlus text.toList) 0 < 2 ^ 64 then
    some (UInt64.ofNat (Nat.ofDigitChars 10 (stripPlus text.toList) 0))
  else none

namespace SyncCursor

/-- `SyncCursor::default`. -/
def default : SyncCursor := ⟨""⟩

def parseRevision (cursor : SyncCursor) : UInt64 := (parseU64 cursor.asStr).getD 0

def fromRevision (revision : UInt64) : SyncCursor := ⟨toString revision.toNat⟩

end SyncCursor

private theorem isDecimal_toDigits (n : ℕ) : isDecimal (Nat.toDigits 10 n) = true := by
  have hne : Nat.toDigits 10 n ≠ [] := Nat.toDigits_ne_nil
  have hall : (Nat.toDigits 10 n).all Char.isDigit = true := by
    rw [List.all_eq_true]
    intro c hc
    exact Nat.isDigit_of_mem_toDigits (by decide) (by decide) hc
  simp [isDecimal, hne, hall]

private theorem stripPlus_toDigits (n : ℕ) :
    stripPlus (Nat.toDigits 10 n) = Nat.toDigits 10 n := by
  cases h : Nat.toDigits 10 n with
  | nil => rfl
  | cons c rest =>
    have hc : c.isDigit = true := by
      have hmem : c ∈ Nat.toDigits 10 n := by rw [h]; exact List.mem_cons_self
      exact Nat.isDigit_of_mem_toDigits (by decide) (by decide) hmem
    have hplus : c ≠ '+' := by
      rintro rfl
      revert hc
      decide
    unfold stripPlus
    split
    · rename_i he
      exact absurd (List.cons.inj he).1 hplus
    · rfl

@[simp] theorem parseRevision_fromRevision (revision : UInt64) :
    (SyncCursor.fromRevision revision).parseRevision = revision := by
  have hlist : (toString revision.toNat).toList = Nat.toDigits 10 revision.toNat :=
    Nat.toList_repr
  unfold SyncCursor.parseRevision SyncCursor.fromRevision parseU64
  rw [hlist, stripPlus_toDigits, isDecimal_toDigits, Nat.ofDigitChars_toDigits (by decide)
    (by decide), if_pos ⟨rfl, revision.toNat_lt⟩]
  simp

@[simp] theorem parseRevision_default : SyncCursor.default.parseRevision = 0 := by
  have hlist : ("" : String).toList = [] := rfl
  unfold SyncCursor.parseRevision SyncCursor.default parseU64
  rw [hlist]
  rfl

/-- The row shape every backend stores. -/
structure SyncItem where
  id : Uuid
  kind : String
  version : UInt64
  updatedAt : DateTime
  deleted : Bool
  nonce : String
  ciphertext : String
  deriving DecidableEq

structure RekeyFrom where
  previousSalt : Bytes
  previousArgon2 : Argon2Params
  previousWrappedVaultKey : EncryptedBlob
  attestation : EncryptedBlob
  deriving DecidableEq

structure SyncedVaultHeader where
  salt : Bytes
  argon2 : Argon2Params
  wrappedVaultKey : EncryptedBlob
  createdAt : DateTime
  rekeyFrom : Option RekeyFrom
  deriving DecidableEq

def winsOver (incoming : SyncItem) (row : ItemRow) : Bool :=
  if incoming.version ≠ row.version then incoming.version > row.version
  else if incoming.updatedAt ≠ row.updatedAt then incoming.updatedAt > row.updatedAt
  else false

def itemWinsOver (incoming other : SyncItem) : Bool :=
  if incoming.version ≠ other.version then incoming.version > other.version
  else if incoming.updatedAt ≠ other.updatedAt then incoming.updatedAt > other.updatedAt
  else false

section Encoding
variable (b64 : Base64)

def syncItemFromRow (row : ItemRow) : SyncItem where
  id := row.id
  kind := row.kind.asStr
  version := row.version
  updatedAt := row.updatedAt
  deleted := row.deleted
  nonce := b64.encode row.blob.nonce
  ciphertext := b64.encode row.blob.ciphertext

def decodeField (name text : String) : Except Error Bytes :=
  match b64.decode text with
  | .ok bytes => .ok bytes
  | .error e => .error (.invalidArgument ("invalid sync " ++ name ++ ": " ++ e))

def itemRowFromSync (item : SyncItem) : Except Error ItemRow := do
  let kind ← ItemKind.parse item.kind
  let nonce ← decodeField b64 "nonce" item.nonce
  let ciphertext ← decodeField b64 "ciphertext" item.ciphertext
  pure ⟨item.id, kind, item.version, item.updatedAt, item.deleted, false, ⟨nonce, ciphertext⟩⟩

variable {b64}

theorem decodeField_encode (name : String) (bytes : Bytes) :
    decodeField b64 name (b64.encode bytes) = .ok bytes := by
  rw [decodeField, b64.decode_encode]

/-- A row comes back from its item with the `local_only` flag cleared. -/
@[simp] theorem itemRowFromSync_syncItemFromRow (b64 : Base64) (row : ItemRow) :
    itemRowFromSync b64 (syncItemFromRow b64 row) = .ok { row with localOnly := false } := by
  rw [itemRowFromSync, syncItemFromRow]
  simp only [ItemKind.parse_asStr, decodeField_encode]
  rfl

theorem itemRowFromSync_eq_ok {item : SyncItem} {row : ItemRow}
    (h : itemRowFromSync b64 item = .ok row) :
    row.id = item.id ∧ ItemKind.parse item.kind = .ok row.kind ∧ row.version = item.version ∧
      row.updatedAt = item.updatedAt ∧ row.deleted = item.deleted ∧ row.localOnly = false ∧
      b64.decode item.nonce = .ok row.blob.nonce ∧
      b64.decode item.ciphertext = .ok row.blob.ciphertext := by
  unfold itemRowFromSync decodeField at h
  cases hk : ItemKind.parse item.kind with
  | error e => rw [hk] at h; cases h
  | ok kind =>
    cases hn : b64.decode item.nonce with
    | error e => rw [hk, hn] at h; cases h
    | ok nonce =>
      cases hc : b64.decode item.ciphertext with
      | error e => rw [hk, hn, hc] at h; cases h
      | ok ciphertext =>
        rw [hk, hn, hc] at h
        cases h
        exact ⟨rfl, rfl, rfl, rfl, rfl, rfl, rfl, rfl⟩

/-- Two rows with one sync item differ in their `local_only` flag at most. -/
theorem syncItemFromRow_inj {row row' : ItemRow}
    (h : syncItemFromRow b64 row = syncItemFromRow b64 row') :
    { row with localOnly := false } = { row' with localOnly := false } := by
  have hrow := itemRowFromSync_syncItemFromRow b64 row
  rw [h, itemRowFromSync_syncItemFromRow] at hrow
  exact (Except.ok.inj hrow).symm

end Encoding

/-! ## The order of writes -/

/-- Version first, then time. -/
abbrev Stamp := ℕ ×ₗ ℤ

def stampOf (version : UInt64) (updatedAt : DateTime) : Stamp := toLex (version.toNat, updatedAt)

def SyncItem.stamp (item : SyncItem) : Stamp := stampOf item.version item.updatedAt

def rowStamp (row : ItemRow) : Stamp := stampOf row.version row.updatedAt

theorem stampOf_lt {v w : UInt64} {s t : DateTime} :
    stampOf v s < stampOf w t ↔ v < w ∨ v = w ∧ s < t := by
  rw [stampOf, stampOf, Prod.Lex.toLex_lt_toLex, UInt64.lt_iff_toNat_lt, UInt64.toNat_inj]

private theorem newer_iff {v w : UInt64} {s t : DateTime} :
    (if v ≠ w then decide (v > w) else if s ≠ t then decide (s > t) else false) = true ↔
      stampOf w t < stampOf v s := by
  rw [stampOf_lt]
  by_cases hv : v = w
  · by_cases ht : s = t
    · simp [hv, ht]
    · simp [hv, ht]
  · simp [hv, Ne.symm hv]

/-- `wins_over` is the order of stamps. -/
theorem winsOver_iff (incoming : SyncItem) (row : ItemRow) :
    winsOver incoming row = true ↔ rowStamp row < incoming.stamp := newer_iff

theorem itemWinsOver_iff (incoming other : SyncItem) :
    itemWinsOver incoming other = true ↔ other.stamp < incoming.stamp := newer_iff

@[simp] theorem stamp_syncItemFromRow (b64 : Base64) (row : ItemRow) :
    (syncItemFromRow b64 row).stamp = rowStamp row := rfl

theorem rowStamp_of_itemRowFromSync {b64 : Base64} {item : SyncItem} {row : ItemRow}
    (h : itemRowFromSync b64 item = .ok row) : rowStamp row = item.stamp := by
  obtain ⟨-, -, hv, ht, -⟩ := itemRowFromSync_eq_ok h
  rw [rowStamp, SyncItem.stamp, hv, ht]

end Tethra.SyncItems
