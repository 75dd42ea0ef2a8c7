import Tethra.AuthenticatedEncryption
import Tethra.KeyedTables

set_option autoImplicit false

/-! Identifiers, keys, headers and encrypted rows of the vault. -/
namespace Tethra.VaultTypes
open AuthenticatedEncryption KeyedTables

inductive Error where
  | identityNotFound (id : Bytes)
  | io (message : String)
  | sftp (message : String)
  | invalidKey (message : String)
  | invalidArgument (message : String)
  | sshConfig (message : String)
  | transferCancelled
  | vaultLocked
  | vaultAlreadyExists
  | vaultNotFound
  | incorrectPassword
  | recoveryUnavailable
  | hostNotFound (id : Bytes)
  | crypto (message : String)
  | database (message : String)
  | platform (message : String)
  | sync (message : String)
  | unsupported (message : String)
  | other (message : String)
  deriving DecidableEq, Repr

/-- A block of equal bytes. -/
def Block.fill (n : ℕ) (b : UInt8) : Block n := ⟨List.replicate n b, List.length_replicate⟩

structure Uuid where
  asBytes : Block 16
  deriving DecidableEq

theorem length_lastByte (b : UInt8) : (List.replicate 15 0 ++ [b]).length = 16 := rfl

/-- An identifier that is zero but for its last byte. -/
def Uuid.lastByte (b : UInt8) : Uuid := ⟨List.replicate 15 0 ++ [b], length_lastByte b⟩

def hexByte (b : UInt8) : List Char := [Nat.digitChar (b.toNat / 16), Nat.digitChar (b.toNat % 16)]

/-- Lower-case hexadecimal in the groups 8-4-4-4-12. -/
def Uuid.display (id : Uuid) : String :=
  let hex := id.asBytes.1.flatMap hexByte
  let group := fun (start stop : ℕ) => (hex.take stop).drop start
  String.ofList (group 0 8 ++ '-' :: group 8 12 ++ '-' :: group 12 16 ++ '-' :: group 16 20 ++
    '-' :: group 20 32)

/-- `DateTime<Utc>` in nanoseconds. -/
abbrev DateTime := ℤ

/-- `Instant` and `Duration` in nanoseconds. -/
abbrev Instant := ℕ

abbrev KEY_LEN : ℕ := 32
abbrev SALT_LEN : ℕ := 16
abbrev NONCE_LEN : ℕ := 24

abbrev KeyBytes := Block KEY_LEN

structure VaultKey where
  expose : KeyBytes
  deriving DecidableEq

structure EncryptedBlob where
  nonce : Bytes
  ciphertext : Bytes
  deriving DecidableEq

structure Argon2Params where
  memoryKib : UInt32
  timeCost : UInt32
  parallelism : UInt32
  deriving DecidableEq

/-- `Argon2Params::default`. -/
def Argon2Params.default : Argon2Params := ⟨65536, 3, 4⟩

structure DerivedKeys where
  masterKey : KeyBytes
  encKey : KeyBytes
  authKey : KeyBytes

inductive ItemKind where
  | host
  | identity
  | project
  | runningSession
  | apiKey
  deriving DecidableEq, Repr

def ItemKind.asStr : ItemKind → String
  | .host => "host"
  | .identity => "identity"
  | .project => "project"
  | .runningSession => "running_session"
  | .apiKey => "api_key"

def ItemKind.parse (value : String) : Except Error ItemKind :=
  match value with
  | "host" => .ok .host
  | "identity" => .ok .identity
  | "project" => .ok .project
  | "running_session" => .ok .runningSession
  | "api_key" => .ok .apiKey
  | other => .error (.invalidArgument ("unknown item kind: " ++ other))

theorem ItemKind.parse_asStr (kind : ItemKind) : ItemKind.parse kind.asStr = .ok kind := by
  cases kind <;> rfl

structure VaultHeader where
  salt : Bytes
  argon2 : Argon2Params
  wrappedVaultKey : EncryptedBlob
  recoveryWrappedVaultKey : Option EncryptedBlob
  createdAt : DateTime
  deriving DecidableEq

structure ItemRow where
  id : Uuid
  kind : ItemKind
  version : UInt64
  updatedAt : DateTime
  deleted : Bool
  localOnly : Bool
  blob : EncryptedBlob
  deriving DecidableEq

/-- The `vault_meta` row and the `items` table. -/
structure VaultDb where
  header : Option VaultHeader
  items : Table ItemRow Uuid ItemRow.id

namespace VaultDb

def empty : VaultDb := ⟨none, Table.empty⟩

def wipe (_ : VaultDb) : VaultDb := empty

def hasHeader (db : VaultDb) : Bool := db.header.isSome

def writeHeader (db : VaultDb) (header : VaultHeader) : VaultDb := { db with header := some header }

def readHeader (db : VaultDb) : Except Error VaultHeader :=
  match db.header with
  | some header => .ok header
  | none => .error .vaultNotFound

def upsertItem (db : VaultDb) (row : ItemRow) : VaultDb := { db with items := db.items.put row }

def upsertItemsTransaction (db : VaultDb) (rows : List ItemRow) : VaultDb :=
  rows.foldl upsertItem db

def getItem (db : VaultDb) (id : Uuid) : Option ItemRow := db.items.get id

/-- `ORDER BY updated_at DESC`. -/
def listItems (db : VaultDb) (kind : ItemKind) (includeDeleted : Bool) : List ItemRow :=
  (db.items.rows.filter fun row =>
    decide (row.kind = kind) && (includeDeleted || !row.deleted)).insertionSort
      fun a b => b.updatedAt ≤ a.updatedAt

theorem mem_listItems (db : VaultDb) (kind : ItemKind) (includeDeleted : Bool) (row : ItemRow) :
    row ∈ db.listItems kind includeDeleted ↔
      db.getItem row.id = some row ∧ row.kind = kind ∧ (includeDeleted ∨ ¬ row.deleted) := by
  rw [listItems, List.mem_insertionSort, List.mem_filter, Table.mem_rows_iff]
  simp [getItem]

@[simp] theorem getItem_upsertItem (db : VaultDb) (row : ItemRow) (id : Uuid) :
    (db.upsertItem row).getItem id = if id = row.id then some row else db.getItem id :=
  Table.get_put db.items row id

theorem getItem_id {db : VaultDb} {id : Uuid} {row : ItemRow} (h : db.getItem id = some row) :
    row.id = id :=
  Table.get_key h

@[simp] theorem header_upsertItem (db : VaultDb) (row : ItemRow) :
    (db.upsertItem row).header = db.header := rfl

@[simp] theorem getItem_writeHeader (db : VaultDb) (header : VaultHeader) (id : Uuid) :
    (db.writeHeader header).getItem id = db.getItem id := rfl

@[simp] theorem items_writeHeader (db : VaultDb) (header : VaultHeader) :
    (db.writeHeader header).items = db.items := rfl

@[simp] theorem header_writeHeader (db : VaultDb) (header : VaultHeader) :
    (db.writeHeader header).header = some header := rfl

end VaultDb
end Tethra.VaultTypes
