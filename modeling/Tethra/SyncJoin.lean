import Tethra.SyncEngine

set_option autoImplicit false

/-!
# Joining a sync server

`sync_join_http` as one program: the settings are applied, the device authenticates, and the
vault adopts the shared header, after a confirmed reset where it holds another one.
-/
namespace Tethra.SyncJoin
open AtomicPrograms AuthenticatedEncryption StatefulActions
open SyncEngine SyncFileBackend SyncItems VaultCrypto VaultState VaultTypes
open StatefulActions.Action (update ofExcept)
open AtomicPrograms.Program (lift fail)

structure VaultHeaderPublic where
  salt : Bytes
  argon2 : Argon2Params

/-- The HTTP backend with the calls that need no session, and the settings file. -/
structure JoinBackend (β : Type) extends SyncBackend β where
  saveSettings : Action β Error Unit
  setAuthKey : KeyBytes → Action β Error Unit
  enroll : Action β Error Unit
  ensureSession : Action β Error Unit
  fetchVaultHeaderPublic : Action β Error VaultHeaderPublic

def MISMATCH_NEEDS_RESET : String := "VAULT_MISMATCH_NEEDS_RESET"

section Programs
variable {β : Type} (aead : Aead KeyBytes) (kdf : Kdf) (backend : JoinBackend β)

/-- Each of the two statements of `wipe` may fail. -/
def resetVault : EngineM β Unit := do
  onVault lock
  onVault (withDbMut fun db => { db with items := VaultDb.empty.items })
  onVault (withDbMut fun db => { db with header := none })
  match ← onVault keyring with
  | some _ => pure ()
  | none => onVault (update fun v => { v with recoverySecret := none })
  let _ ← onVault status
  pure ()

/-- Nothing here makes the caller fail. -/
def wireVaultAuth : EngineM β Unit := do
  match ← onVault (Action.attempt authKey) with
  | .error _ => pure ()
  | .ok key => do
    let _ ← onBackend (Action.attempt (backend.setAuthKey key))
    let _ ← onBackend (Action.attempt backend.enroll)
    pure ()

def applySettings : EngineM β Unit := do
  onBackend backend.saveSettings
  setCursor .default
  wireVaultAuth backend
  let _ ← (bootstrapFromBackendIfNeeded backend.toSyncBackend).attempt
  pure ()

def authenticate (password : Bytes) : EngineM β Unit := do
  let header ← onBackend backend.fetchVaultHeaderPublic
  let derived ← lift (ofExcept (deriveKeys kdf password header.salt header.argon2))
  onBackend (backend.setAuthKey derived.authKey)
  match ← onBackend (Action.attempt backend.ensureSession) with
  | .ok _ => pure ()
  | .error _ => do
    let _ ← onBackend (Action.attempt backend.enroll)
    onBackend backend.ensureSession

/-- Whether the header of another vault is in the way. -/
def mismatched (adopted : Bool) : EngineM β Bool := do
  if adopted then pure false
  else do
    let current ← onVault status
    if current.exist then do
      let same ← headerMatchesBackend aead backend.toSyncBackend
      pure (!same)
    else pure false

def adopt (resetExisting : Option Bool) : EngineM β Bool := do
  let adopted ← bootstrapFromBackendIfNeeded backend.toSyncBackend
  if ← mismatched aead backend adopted then
    if resetExisting = some true then do
      resetVault
      bootstrapFromBackendIfNeeded backend.toSyncBackend
    else fail (.other MISMATCH_NEEDS_RESET)
  else pure adopted

def syncJoinHttp (password : Option Bytes) (resetExisting : Option Bool) :
    EngineM β (Bool × Bool) := do
  applySettings backend
  match password.filter fun p => !p.isEmpty with
  | some p => authenticate kdf backend p
  | none => pure ()
  let adopted ← adopt aead backend resetExisting
  let current ← onVault status
  pure (adopted, current.exist)

end Programs

/-! ## What a failing call leaves -/

/-- The vault's header and rows. -/
def rows {β : Type} (s : Engine × β) : VaultDb := s.1.vault.db

section Actions
variable {β : Type}

/-- A call that fails has not changed the rows. -/
def Harmless {γ : Type} (m : Action (Engine × β) Error γ) : Prop :=
  ∀ s e, (m s).1 = .error e → rows (m s).2 = rows s

theorem harmless_of_leaves {γ : Type} {m : VaultM γ} (hm : m.Leaves Vault.db) :
    Harmless (vaultAction m : Action (Engine × β) Error γ) :=
  fun s _ _ => hm s.1.vault

theorem harmless_withDbMut (g : VaultDb → VaultDb) :
    Harmless (vaultAction (withDbMut g) : Action (Engine × β) Error Unit) := by
  intro s e he
  change (withDbMut g s.1.vault).1 = .error e at he
  change (withDbMut g s.1.vault).2.db = s.1.vault.db
  obtain ⟨_, h⟩ | h := withDbMut_cases g s.1.vault
  · rw [h]
  · rw [h] at he
    cases he

theorem harmless_backendAction {γ : Type} (m : Action β Error γ) :
    Harmless (backendAction m : Action (Engine × β) Error γ) := fun _ _ _ => rfl

theorem harmless_attempt {γ : Type} (m : Action (Engine × β) Error γ) : Harmless m.attempt := by
  intro s e he
  cases he

abbrev EachHarmless {α : Type} (p : EngineM β α) : Prop := p.Each fun m => Harmless m

theorem each_onVault {γ : Type} {m : VaultM γ} (hm : m.Leaves Vault.db) :
    EachHarmless (onVault m : EngineM β γ) := Program.Each.lift (harmless_of_leaves hm)

theorem each_withDbMut (g : VaultDb → VaultDb) :
    EachHarmless (onVault (withDbMut g) : EngineM β Unit) :=
  Program.Each.lift (harmless_withDbMut g)

theorem each_onBackend {γ : Type} (m : Action β Error γ) :
    EachHarmless (onBackend m : EngineM β γ) := Program.Each.lift (harmless_backendAction m)

theorem each_ofExcept {γ : Type} (r : Except Error γ) :
    EachHarmless (lift (ofExcept r) : EngineM β γ) := Program.Each.lift fun _ _ _ => rfl

theorem each_fail {γ : Type} (e : Error) : EachHarmless (fail e : EngineM β γ) :=
  Program.Each.lift fun _ _ _ => rfl

theorem each_status : EachHarmless (onVault status : EngineM β VaultStatus) :=
  each_onVault (leaves_status (fun _ _ => rfl) fun _ _ => rfl)

theorem each_exportSyncHeader : EachHarmless (exportSyncHeader : EngineM β SyncedVaultHeader) :=
  (each_onVault (leaves_withDb (fun _ _ => rfl) _)).bind fun _ => .pure _

theorem each_importSyncHeader (header : SyncedVaultHeader) :
    EachHarmless (importSyncHeader header : EngineM β Unit) := by
  refine (each_onVault (leaves_withDb (fun _ _ => rfl) _)).bind fun exist => ?_
  split
  · exact each_fail _
  · exact each_withDbMut _

section Programs
variable (aead : Aead KeyBytes) (kdf : Kdf) (backend : JoinBackend β)

theorem each_bootstrap :
    EachHarmless (bootstrapFromBackendIfNeeded backend.toSyncBackend) := by
  refine each_status.bind fun current => ?_
  split
  · exact .pure _
  · refine (each_onBackend _).bind fun header => ?_
    cases header with
    | none => exact .pure _
    | some header => exact (each_importSyncHeader header).bind fun _ => .pure _

theorem each_headerMatchesBackend :
    EachHarmless (headerMatchesBackend aead backend.toSyncBackend) := by
  refine (each_onBackend _).bind fun remote => ?_
  cases remote with
  | none => exact .pure _
  | some remote =>
    refine each_exportSyncHeader.bind fun header => ?_
    split
    · exact .pure _
    · refine (each_onVault (leaves_isUnlocked fun _ _ => rfl)).bind fun unlocked => ?_
      split
      · refine Program.Each.bind (Program.Each.lift fun s e he => ?_) fun key => ?_
        · cases he
        · cases key with
          | ok key => exact each_ofExcept _
          | error e => exact .pure _
      · exact .pure _

theorem each_resetVault : EachHarmless (resetVault : EngineM β Unit) := by
  refine (each_onVault fun _ => rfl).bind fun _ => (each_withDbMut _).bind fun _ =>
    (each_withDbMut _).bind fun _ =>
      (each_onVault (leaves_draw (fun _ _ => rfl) _)).bind fun fault => ?_
  cases fault with
  | some _ => exact each_status.bind fun _ => .pure _
  | none => exact (each_onVault fun _ => rfl).bind fun _ => each_status.bind fun _ => .pure _

theorem each_applySettings : EachHarmless (applySettings backend) := by
  refine (each_onBackend _).bind fun _ => Program.Each.bind (Program.Each.lift fun _ _ _ => rfl)
    fun _ => Program.Each.bind ?_ fun _ => (Program.Each.attempt harmless_attempt _).bind
      fun _ => .pure _
  refine Program.Each.bind (Program.Each.lift fun s e he => by cases he) fun key => ?_
  cases key with
  | error e => exact .pure _
  | ok key => exact (each_onBackend _).bind fun _ => (each_onBackend _).bind fun _ => .pure _

theorem each_authenticate (password : Bytes) :
    EachHarmless (authenticate kdf backend password) := by
  refine (each_onBackend _).bind fun header => (each_ofExcept _).bind fun derived =>
    (each_onBackend _).bind fun _ => (each_onBackend _).bind fun session => ?_
  cases session with
  | ok _ => exact .pure _
  | error e => exact (each_onBackend _).bind fun _ => each_onBackend _

theorem each_adopt (resetExisting : Option Bool) :
    EachHarmless (adopt aead backend resetExisting) := by
  refine (each_bootstrap backend).bind fun adopted => Program.Each.bind ?_ fun mismatch => ?_
  · unfold mismatched
    split
    · exact .pure _
    · refine each_status.bind fun current => ?_
      split
      · exact (each_headerMatchesBackend aead backend).bind fun _ => .pure _
      · exact .pure _
  · split
    · split
      · exact each_resetVault.bind fun _ => each_bootstrap backend
      · exact each_fail _
    · exact .pure _

theorem each_syncJoinHttp (password : Option Bytes) (resetExisting : Option Bool) :
    EachHarmless (syncJoinHttp aead kdf backend password resetExisting) := by
  refine (each_applySettings backend).bind fun _ => ?_
  cases password.filter fun p => !p.isEmpty with
  | some p =>
    exact (each_authenticate kdf backend p).bind fun _ =>
      (each_adopt aead backend resetExisting).bind fun _ => each_status.bind fun _ => .pure _
  | none =>
    exact (each_adopt aead backend resetExisting).bind fun _ => each_status.bind fun _ => .pure _

end Programs
end Actions

/-! ## Joining and the local rows -/

/-- The shared header is served once; then the network is gone. -/
def unreliable (header : SyncedVaultHeader) : JoinBackend ℕ where
  pull since := fun n => (.ok ([], since), n)
  push _ := fun n => (.ok .default, n)
  getHeader := fun n => (if n = 0 then .ok (some header) else .error (.sync "connection reset"), n + 1)
  putHeader _ := fun n => (.ok (), n)
  saveSettings := fun n => (.ok (), n)
  setAuthKey _ := fun n => (.ok (), n)
  enroll := fun n => (.ok (), n)
  ensureSession := fun n => (.ok (), n)
  fetchVaultHeaderPublic := fun n => (.ok ⟨header.salt, header.argon2⟩, n)

def ownHeader : VaultHeader := ⟨[1], .default, ⟨[1], [1]⟩, none, 0⟩

/-- A device with a vault of its own. -/
def ownVault : Engine × ℕ :=
  (⟨⟨VaultDb.empty.writeHeader ownHeader, none, .locked, IDLE_LOCK_DISABLED, World.quiet⟩, .default⟩,
    0)

end Tethra.SyncJoin
