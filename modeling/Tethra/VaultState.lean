import Tethra.StatefulActions
import Tethra.VaultCrypto

set_option autoImplicit false

/-!
# The vault of one device

Database, keyring entry, lock state and idle timeout, with the operations of the vault
module. Clocks, fresh identifiers, random bytes and storage failures come from a `World`:
every read of it takes the next entry.
-/
namespace Tethra.VaultState
open AuthenticatedEncryption StatefulActions VaultTypes VaultCrypto
open StatefulActions.Action (fail read update ofExcept attempt mapError)

inductive PlatformError where
  | unsupported
  | failed (message : String)

/-- `Error::from(PlatformError)`. -/
def PlatformError.toError : PlatformError → Error
  | .unsupported => .platform "unsupported on this platform"
  | .failed message => .platform message

structure World where
  now : Instant
  utcNow : DateTime
  draws : ℕ
  uuidAt : ℕ → Uuid
  nonceAt : ℕ → Block NONCE_LEN
  saltAt : ℕ → Block SALT_LEN
  keyAt : ℕ → KeyBytes
  dbFaultAt : ℕ → Option Error
  keyringFaultAt : ℕ → Option PlatformError

/-- Constant supplies, a stopped clock and no failures. -/
def World.quiet : World where
  now := 0
  utcNow := 0
  draws := 0
  uuidAt _ := ⟨Block.fill 16 0⟩
  nonceAt _ := Block.fill NONCE_LEN 0
  saltAt _ := Block.fill SALT_LEN 0
  keyAt _ := Block.fill KEY_LEN 0
  dbFaultAt _ := none
  keyringFaultAt _ := none

inductive LockState where
  | locked
  | unlocked (vaultKey : VaultKey) (authKey : KeyBytes) (lastActivity : Instant)

/-- `Duration::MAX`. -/
def IDLE_LOCK_DISABLED : Instant := (2 ^ 64 - 1) * 10 ^ 9 + 999999999

structure Vault where
  db : VaultDb
  /-- The keyring entry under `RECOVERY_SECRET_KEY`. -/
  recoverySecret : Option Bytes
  state : LockState
  idleTimeout : Instant
  world : World

structure VaultStatus where
  exist : Bool
  unlocked : Bool
  recoveryAvailable : Bool
  deriving DecidableEq

abbrev VaultM (α : Type) := Action Vault Error α

/-- The next entry of one of the world's supplies. -/
def draw {α : Type} (supply : World → ℕ → α) : VaultM α := fun v =>
  (.ok (supply v.world v.world.draws), { v with world.draws := v.world.draws + 1 })

def withDb {α : Type} (f : VaultDb → Except Error α) : VaultM α := do
  match ← draw World.dbFaultAt with
  | some e => fail e
  | none => do
    let db ← read Vault.db
    ofExcept (f db)

def withDbMut (f : VaultDb → VaultDb) : VaultM Unit := do
  match ← draw World.dbFaultAt with
  | some e => fail e
  | none => update fun v => { v with db := f v.db }

/-- The keyring fails or answers. -/
def keyring : VaultM (Option PlatformError) := draw World.keyringFaultAt

def LockState.isUnlocked : LockState → Bool
  | .locked => false
  | .unlocked _ _ _ => true

def LockState.expired (state : LockState) (now timeout : Instant) : Bool :=
  match state with
  | .unlocked _ _ lastActivity => timeout ≤ now - lastActivity
  | .locked => false

def touchIdle : VaultM Unit := update fun v =>
  if v.idleTimeout = IDLE_LOCK_DISABLED then v
  else if v.state.expired v.world.now v.idleTimeout then { v with state := .locked }
  else v

def requireKey : VaultM VaultKey := do
  touchIdle
  match ← read Vault.state with
  | .locked => fail .vaultLocked
  | .unlocked vaultKey authKey _ => do
    update fun v => { v with state := .unlocked vaultKey authKey v.world.now }
    pure vaultKey

def authKey : VaultM KeyBytes := do
  touchIdle
  match ← read Vault.state with
  | .locked => fail .vaultLocked
  | .unlocked vaultKey authKey _ => do
    update fun v => { v with state := .unlocked vaultKey authKey v.world.now }
    pure authKey

def isUnlocked : VaultM Bool := do
  touchIdle
  read fun v => v.state.isUnlocked

def lock : VaultM Unit := update fun v => { v with state := .locked }

def setUnlocked (vaultKey : VaultKey) (authKey : KeyBytes) : VaultM Unit :=
  update fun v => { v with state := .unlocked vaultKey authKey v.world.now }

def recoveryAvailable : VaultM Bool := do
  let header ← withDb VaultDb.readHeader
  pure header.recoveryWrappedVaultKey.isSome

/-- `status` after the idle timer has been touched. -/
def currentStatus : VaultM VaultStatus := do
  let exist ← withDb fun db => .ok db.hasHeader
  let available ← (if exist then recoveryAvailable else pure false)
  let unlocked ← read fun v => v.state.isUnlocked
  pure ⟨exist, unlocked, available⟩

def status : VaultM VaultStatus := do
  touchIdle
  currentStatus

/-- Clamped to between a minute and a day; zero disables the lock. -/
def setIdleTimeoutSecs (secs : ℕ) : VaultM Unit := update fun v =>
  { v with idleTimeout :=
      if secs = 0 then IDLE_LOCK_DISABLED else (max 60 (min secs (24 * 60 * 60))) * 10 ^ 9 }

/-- Argon2id and HKDF: the derived keys or the library's error text. -/
abbrev Kdf := Bytes → Bytes → Argon2Params → Except String DerivedKeys

section Operations
variable (aead : Aead KeyBytes) (kdf : Kdf)

def deriveKeys (password salt : Bytes) (params : Argon2Params) : Except Error DerivedKeys :=
  if salt.length ≠ SALT_LEN then
    .error (.crypto ("salt must be " ++ toString SALT_LEN ++ " bytes, got " ++
      toString salt.length))
  else
    match kdf password salt params with
    | .ok derived => .ok derived
    | .error message => .error (.crypto message)

def installRecoveryKey (vaultKey : VaultKey) : VaultM EncryptedBlob := do
  let recovery ← draw World.keyAt
  match ← keyring with
  | some .unsupported => fail (.unsupported "keyring unavailable")
  | some other => fail other.toError
  | none => do
    update fun v => { v with recoverySecret := some recovery.1 }
    let nonce ← draw World.nonceAt
    ofExcept (wrapKey aead recovery nonce vaultKey)

/-- A keyring that is missing or fails leaves the vault without recovery. -/
def tryRecoveryKey (vaultKey : VaultKey) : VaultM (Option EncryptedBlob) := do
  match ← attempt (installRecoveryKey aead vaultKey) with
  | .ok blob => pure (some blob)
  | .error (.platform _) => pure none
  | .error (.unsupported _) => pure none
  | .error other => fail other

def create (password : Bytes) (enableRecovery : Bool) : VaultM VaultStatus := do
  let exist ← withDb fun db => .ok db.hasHeader
  if exist then fail .vaultAlreadyExists else do
    let salt ← draw World.saltAt
    let derived ← ofExcept (deriveKeys kdf password salt.1 .default)
    let vaultKey : VaultKey ← VaultKey.mk <$> draw World.keyAt
    let nonce ← draw World.nonceAt
    let wrapped ← ofExcept (wrapKey aead derived.encKey nonce vaultKey)
    let recoveryWrapped ← (if enableRecovery then tryRecoveryKey aead vaultKey else pure none)
    let createdAt ← read fun v => v.world.utcNow
    withDbMut fun db => db.writeHeader ⟨salt.1, .default, wrapped, recoveryWrapped, createdAt⟩
    setUnlocked vaultKey derived.authKey
    status

def reset : VaultM VaultStatus := do
  lock
  withDbMut VaultDb.wipe
  match ← keyring with
  | some _ => pure ()
  | none => update fun v => { v with recoverySecret := none }
  status

/-- The header, or `VaultNotFound` before anything else is tried. -/
def existingHeader : VaultM VaultHeader := withDb VaultDb.readHeader

def unlock (password : Bytes) : VaultM VaultStatus := do
  let header ← existingHeader
  let derived ← ofExcept (deriveKeys kdf password header.salt header.argon2)
  let vaultKey ← ofExcept (unwrapKey aead derived.encKey header.wrappedVaultKey)
  setUnlocked vaultKey derived.authKey
  status

/-- Wrap the vault key under a new password and store the header with its other fields kept. -/
def rewrap (header : VaultHeader) (vaultKey : VaultKey) (newPassword : Bytes) : VaultM Unit := do
  let salt ← draw World.saltAt
  let derived ← ofExcept (deriveKeys kdf newPassword salt.1 .default)
  let nonce ← draw World.nonceAt
  let wrapped ← ofExcept (wrapKey aead derived.encKey nonce vaultKey)
  withDbMut fun db => db.writeHeader
    { header with salt := salt.1, argon2 := .default, wrappedVaultKey := wrapped }
  setUnlocked vaultKey derived.authKey

def recoverWithNewPassword (newPassword : Bytes) : VaultM VaultStatus := do
  let header ← existingHeader
  match header.recoveryWrappedVaultKey with
  | none => fail .recoveryUnavailable
  | some recoveryBlob => do
    match ← keyring with
    | some e => fail e.toError
    | none => do
      match ← read Vault.recoverySecret with
      | none => fail .recoveryUnavailable
      | some recoveryKey =>
        if h : recoveryKey.length = KEY_LEN then do
          let vaultKey ← mapError (fun _ => .recoveryUnavailable)
            (ofExcept (unwrapKey aead ⟨recoveryKey, h⟩ recoveryBlob))
          rewrap aead kdf header vaultKey newPassword
          status
        else fail .recoveryUnavailable

def changePassword (current newPassword : Bytes) : VaultM Unit := do
  let header ← withDb VaultDb.readHeader
  let derived ← ofExcept (deriveKeys kdf current header.salt header.argon2)
  let vaultKey ← ofExcept (unwrapKey aead derived.encKey header.wrappedVaultKey)
  rewrap aead kdf header vaultKey newPassword

end Operations

/-! ## What the operations leave alone -/

section Frames

theorem leaves_draw {α γ : Type} {f : Vault → γ} (hf : ∀ v n, f { v with world.draws := n } = f v)
    (supply : World → ℕ → α) : (draw supply).Leaves f := fun v => hf v _

theorem leaves_withDb {α γ : Type} {f : Vault → γ}
    (hf : ∀ v n, f { v with world.draws := n } = f v) (g : VaultDb → Except Error α) :
    (withDb g).Leaves f := by
  refine (leaves_draw hf _).bind fun fault => ?_
  cases fault with
  | some e => exact Action.Leaves.fail e
  | none => exact (Action.Leaves.read _).bind fun db => Action.Leaves.ofExcept _

theorem withDb_eq_ok {α : Type} {g : VaultDb → Except Error α} {v w : Vault} {a : α}
    (h : withDb g v = (.ok a, w)) :
    g v.db = .ok a ∧ w = { v with world.draws := v.world.draws + 1 } := by
  obtain ⟨fault, t, ht, h⟩ := Action.bind_eq_ok.1 h
  cases ht
  cases hf : v.world.dbFaultAt v.world.draws with
  | some e =>
    rw [hf] at h
    exact (Action.fail_eq_ok.1 h).elim
  | none =>
    rw [hf] at h
    obtain ⟨db, u, hdb, h⟩ := Action.bind_eq_ok.1 h
    obtain ⟨rfl, rfl⟩ := Action.read_eq_ok.1 hdb
    obtain ⟨hg, rfl⟩ := Action.ofExcept_eq_ok.1 h
    exact ⟨hg, rfl⟩

theorem withDb_calm {α : Type} {g : VaultDb → Except Error α} {v : Vault} {a : α}
    (hf : v.world.dbFaultAt v.world.draws = none) (hg : g v.db = .ok a) :
    withDb g v = (.ok a, { v with world.draws := v.world.draws + 1 }) := by
  change (match v.world.dbFaultAt v.world.draws with
    | some e => Action.fail e
    | none => read Vault.db >>= fun db => ofExcept (g db) : VaultM α) _ = _
  rw [hf]
  change (g v.db, _) = _
  rw [hg]

theorem withDbMut_fault {g : VaultDb → VaultDb} {v : Vault} {e : Error}
    (hf : v.world.dbFaultAt v.world.draws = some e) :
    withDbMut g v = (.error e, { v with world.draws := v.world.draws + 1 }) := by
  change (match v.world.dbFaultAt v.world.draws with
    | some e => Action.fail e
    | none => update _ : VaultM Unit) _ = _
  rw [hf]
  rfl

theorem withDbMut_calm {g : VaultDb → VaultDb} {v : Vault}
    (hf : v.world.dbFaultAt v.world.draws = none) :
    withDbMut g v = (.ok (), { v with db := g v.db, world.draws := v.world.draws + 1 }) := by
  change (match v.world.dbFaultAt v.world.draws with
    | some e => Action.fail e
    | none => update _ : VaultM Unit) _ = _
  rw [hf]
  rfl

theorem withDbMut_cases (g : VaultDb → VaultDb) (v : Vault) :
    (∃ e, withDbMut g v = (.error e, { v with world.draws := v.world.draws + 1 })) ∨
      withDbMut g v = (.ok (), { v with db := g v.db, world.draws := v.world.draws + 1 }) := by
  cases hf : v.world.dbFaultAt v.world.draws with
  | some e => exact Or.inl ⟨e, withDbMut_fault hf⟩
  | none => exact Or.inr (withDbMut_calm hf)

theorem leaves_withDbMut {γ : Type} {f : Vault → γ} {g : VaultDb → VaultDb}
    (hdraw : ∀ v n, f { v with world.draws := n } = f v)
    (hg : ∀ v n, f { v with db := g v.db, world.draws := n } = f v) : (withDbMut g).Leaves f := by
  intro v
  obtain ⟨e, he⟩ | hok := withDbMut_cases g v
  · rw [he]
    exact hdraw v _
  · rw [hok]
    exact hg v _

theorem keeps_withDbMut {I : Vault → Prop} (g : VaultDb → VaultDb)
    (hdraw : ∀ v n, I v → I { v with world.draws := n })
    (hg : ∀ v n, I v → I { v with db := g v.db, world.draws := n }) :
    (withDbMut g).Keeps I := by
  intro v hv
  obtain ⟨e, he⟩ | hok := withDbMut_cases g v
  · rw [he]
    exact hdraw v _ hv
  · rw [hok]
    exact hg v _ hv

theorem leaves_touchIdle {γ : Type} {f : Vault → γ} (hf : ∀ v x, f { v with state := x } = f v) :
    touchIdle.Leaves f := by
  intro v
  unfold touchIdle update
  dsimp only
  split
  · rfl
  · split
    · exact hf v _
    · rfl

theorem leaves_requireKey {γ : Type} {f : Vault → γ}
    (hf : ∀ v x, f { v with state := x } = f v) : requireKey.Leaves f := by
  refine (leaves_touchIdle hf).bind fun _ => (Action.Leaves.read _).bind fun state => ?_
  cases state with
  | locked => exact Action.Leaves.fail _
  | unlocked vaultKey authKey t =>
    exact (Action.Leaves.update fun v => hf v _).bind fun _ => Action.Leaves.pure _

theorem leaves_isUnlocked {γ : Type} {f : Vault → γ}
    (hf : ∀ v x, f { v with state := x } = f v) : isUnlocked.Leaves f :=
  (leaves_touchIdle hf).bind fun _ => Action.Leaves.read _

theorem leaves_currentStatus {γ : Type} {f : Vault → γ}
    (hdraw : ∀ v n, f { v with world.draws := n } = f v) : currentStatus.Leaves f := by
  refine (leaves_withDb hdraw _).bind fun exist => ?_
  refine Action.Leaves.bind ?_ fun available => (Action.Leaves.read _).bind fun unlocked =>
    Action.Leaves.pure _
  split
  · exact (leaves_withDb hdraw _).bind fun header => Action.Leaves.pure _
  · exact Action.Leaves.pure _

theorem leaves_status {γ : Type} {f : Vault → γ} (hstate : ∀ v x, f { v with state := x } = f v)
    (hdraw : ∀ v n, f { v with world.draws := n } = f v) : status.Leaves f :=
  (leaves_touchIdle hstate).bind fun _ => leaves_currentStatus hdraw

theorem touchIdle_run (v : Vault) : (touchIdle v).1 = .ok () := rfl

/-- Touching the idle timer leaves the state or locks it. -/
theorem touchIdle_state (v : Vault) :
    (touchIdle v).2.state = v.state ∨ (touchIdle v).2.state = .locked := by
  unfold touchIdle update
  dsimp only
  split
  · exact Or.inl rfl
  · split
    · exact Or.inr rfl
    · exact Or.inl rfl

theorem status_state (v : Vault) :
    (status v).2.state = v.state ∨ (status v).2.state = .locked := by
  have hrest : (status v).2.state = (touchIdle v).2.state :=
    leaves_currentStatus (f := Vault.state) (fun _ _ => rfl) (touchIdle v).2
  rw [hrest]
  exact touchIdle_state v

theorem requireKey_eq_ok {v w : Vault} {vaultKey : VaultKey} (h : requireKey v = (.ok vaultKey, w)) :
    ∃ authKey t, v.state = .unlocked vaultKey authKey t ∧
      w = { v with state := .unlocked vaultKey authKey v.world.now } := by
  obtain ⟨_, t, ht, h⟩ := Action.bind_eq_ok.1 h
  obtain ⟨state, u, hu, h⟩ := Action.bind_eq_ok.1 h
  obtain ⟨hstate, rfl⟩ := Action.read_eq_ok.1 hu
  cases state with
  | locked => exact (Action.fail_eq_ok.1 h).elim
  | unlocked key auth last =>
    obtain ⟨_, x, hx, h⟩ := Action.bind_eq_ok.1 h
    obtain ⟨rfl, rfl⟩ := Action.pure_eq_ok.1 h
    obtain rfl := Action.update_eq_ok.1 hx
    have hv : t = v := by
      unfold touchIdle at ht
      obtain rfl := Action.update_eq_ok.1 ht
      split
      · rfl
      · split
        · rename_i hne hexp
          rw [if_neg hne, if_pos hexp] at hstate
          cases hstate
        · rfl
    rw [hv] at hstate ⊢
    exact ⟨auth, last, hstate, rfl⟩

/-- The rows are as they were, and an unlocked vault has the key it had. -/
def SameRows (v w : Vault) : Prop :=
  w.db.items = v.db.items ∧ ∀ vaultKey auth t, w.state = .unlocked vaultKey auth t →
    ∃ auth' t', v.state = .unlocked vaultKey auth' t'

theorem SameRows.refl (v : Vault) : SameRows v v := ⟨rfl, fun _ auth t h => ⟨auth, t, h⟩⟩

theorem SameRows.trans {u v w : Vault} (h : SameRows u v) (h' : SameRows v w) : SameRows u w := by
  refine ⟨h'.1.trans h.1, fun vaultKey auth t hw => ?_⟩
  obtain ⟨auth', t', hv⟩ := h'.2 vaultKey auth t hw
  exact h.2 vaultKey auth' t' hv

theorem sameRows_bind {α β : Type} {m : VaultM α} {f : α → VaultM β} (hm : m.Within SameRows)
    (hf : ∀ a, (f a).Within SameRows) : (m >>= f).Within SameRows :=
  Action.Within.bind (R := SameRows) (fun h h' => h.trans h') hm hf

theorem sameRows_of_leaves {α : Type} {m : VaultM α}
    (hm : m.Leaves fun v => (v.db.items, v.state)) : m.Within SameRows := by
  intro v
  have hsame : ((m v).2.db.items, (m v).2.state) = (v.db.items, v.state) := hm v
  rw [Prod.mk.injEq] at hsame
  refine ⟨hsame.1, fun vaultKey auth t h => ⟨auth, t, ?_⟩⟩
  rw [← hsame.2]
  exact h

theorem sameRows_draw {α : Type} (supply : World → ℕ → α) : (draw supply).Within SameRows :=
  sameRows_of_leaves (leaves_draw (fun _ _ => rfl) supply)

theorem sameRows_withDb {α : Type} (g : VaultDb → Except Error α) :
    (withDb g).Within SameRows :=
  sameRows_of_leaves (leaves_withDb (fun _ _ => rfl) g)

theorem sameRows_writeHeader (header : VaultHeader) :
    (withDbMut fun db => db.writeHeader header).Within SameRows :=
  sameRows_of_leaves (leaves_withDbMut (fun _ _ => rfl) fun _ _ => rfl)

theorem sameRows_touchIdle : touchIdle.Within SameRows := by
  intro v
  have hdb : (touchIdle v).2.db = v.db := leaves_touchIdle (f := Vault.db) (fun _ _ => rfl) v
  refine ⟨by rw [hdb], fun vaultKey auth t h => ?_⟩
  obtain hsame | hlocked := touchIdle_state v
  · exact ⟨auth, t, by rw [← hsame]; exact h⟩
  · rw [hlocked] at h
    cases h

theorem sameRows_isUnlocked : isUnlocked.Within SameRows :=
  sameRows_bind sameRows_touchIdle fun _ => SameRows.refl

theorem sameRows_requireKey : requireKey.Within SameRows := by
  intro v
  have hdb : (requireKey v).2.db = v.db := leaves_requireKey (f := Vault.db) (fun _ _ => rfl) v
  refine ⟨by rw [hdb], fun vaultKey auth t h => ?_⟩
  rcases he : requireKey v with ⟨r, w⟩
  rw [he] at h
  cases r with
  | ok key =>
    obtain ⟨auth', t', hstate, rfl⟩ := requireKey_eq_ok he
    cases h
    exact ⟨auth, t', hstate⟩
  | error e =>
    obtain ht | ⟨_, u, hu, hrest⟩ := Action.bind_eq_error.1 he
    · cases ht
    · have htouch := sameRows_touchIdle v
      rw [hu] at htouch
      obtain hread | ⟨state, x, hread, hrest⟩ := Action.bind_eq_error.1 hrest
      · cases hread
      · obtain ⟨hstate, rfl⟩ := Action.read_eq_ok.1 hread
        cases state with
        | locked =>
          cases hrest
          exact htouch.2 vaultKey auth t h
        | unlocked key auth' t' =>
          obtain hup | ⟨_, y, -, hpure⟩ := Action.bind_eq_error.1 hrest
          · cases hup
          · cases hpure

end Frames
end Tethra.VaultState
