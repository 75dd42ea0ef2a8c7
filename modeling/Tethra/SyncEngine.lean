import Tethra.AtomicPrograms
import Tethra.SyncFileBackend
import Tethra.VaultState

set_option autoImplicit false

/-!
# The sync engine

Each access to the vault and each call of the backend is one atomic action.
-/
namespace Tethra.SyncEngine
open AtomicPrograms AuthenticatedEncryption Base64Strings StatefulActions
open SyncFileBackend SyncItems VaultCrypto VaultState VaultTypes
open StatefulActions.Action (read update ofExcept focus)
open AtomicPrograms.Program (lift fail)

def MISMATCH_MESSAGE : String :=
  "this device's vault was created separately from the synced vault; " ++
    "reset this device's vault and join the sync server before unlocking"

/-- The wrapped key and its KDF inputs match; `rekey_from` and `created_at` are ignored. -/
def sameVault (a b : SyncedVaultHeader) : Bool :=
  decide (a.salt = b.salt) && decide (a.argon2 = b.argon2) &&
    decide (a.wrappedVaultKey = b.wrappedVaultKey)

def headerMatchesPrevious (header : SyncedVaultHeader) (rekey : RekeyFrom) : Bool :=
  decide (header.salt = rekey.previousSalt) && decide (header.argon2 = rekey.previousArgon2) &&
    decide (header.wrappedVaultKey = rekey.previousWrappedVaultKey)

def attestationPlaintext (header : SyncedVaultHeader) : Bytes :=
  header.salt ++ header.wrappedVaultKey.nonce ++ header.wrappedVaultKey.ciphertext

def exportHeader (header : VaultHeader) : SyncedVaultHeader :=
  ⟨header.salt, header.argon2, header.wrappedVaultKey, header.createdAt, none⟩

def importHeader (header : SyncedVaultHeader) : VaultHeader :=
  ⟨header.salt, header.argon2, header.wrappedVaultKey, none, header.createdAt⟩

/-- The wrap of `header`, the recovery wrap of `old`. -/
def adoptHeader (old : VaultHeader) (header : SyncedVaultHeader) : VaultHeader :=
  { old with
    salt := header.salt
    argon2 := header.argon2
    wrappedVaultKey := header.wrappedVaultKey
    createdAt := header.createdAt }

section Attestations
variable (aead : Aead KeyBytes)

def buildRekeyFrom (previous next : SyncedVaultHeader) (vaultKey : VaultKey)
    (nonce : Block NONCE_LEN) : Except Error RekeyFrom := do
  let attestation ← sealWithVaultKey aead vaultKey nonce REKEY_AAD (attestationPlaintext next)
  pure ⟨previous.salt, previous.argon2, previous.wrappedVaultKey, attestation⟩

def verifyRekeyAttestation (vaultKey : VaultKey) (previous next : SyncedVaultHeader) :
    Except Error Bool :=
  match next.rekeyFrom with
  | none => .ok false
  | some rekey =>
    if headerMatchesPrevious previous rekey then do
      let opened ← openWithVaultKey aead vaultKey REKEY_AAD rekey.attestation
      pure (decide (opened = attestationPlaintext next))
    else .ok false

end Attestations

structure Engine where
  vault : Vault
  cursor : SyncCursor

structure SyncReport where
  pulled : UInt32
  applied : UInt32
  pushed : UInt32
  cursor : SyncCursor

section Engines
variable {β : Type}

abbrev EngineM (β α : Type) := Program (Engine × β) Error α

def vaultAction {α : Type} (m : VaultM α) : Action (Engine × β) Error α :=
  focus (fun s => s.1.vault) (fun v s => ({ s.1 with vault := v }, s.2)) m

def backendAction {α : Type} (m : Action β Error α) : Action (Engine × β) Error α :=
  focus Prod.snd (fun b s => (s.1, b)) m

def onVault {α : Type} (m : VaultM α) : EngineM β α := lift (vaultAction m)

def onBackend {α : Type} (m : Action β Error α) : EngineM β α := lift (backendAction m)

def getCursor : EngineM β SyncCursor := lift (read fun s => s.1.cursor)

def setCursor (cursor : SyncCursor) : EngineM β Unit :=
  lift (update fun s => ({ s.1 with cursor := cursor }, s.2))

def exportSyncHeader : EngineM β SyncedVaultHeader := do
  let header ← onVault (withDb VaultDb.readHeader)
  pure (exportHeader header)

def importSyncHeader (header : SyncedVaultHeader) : EngineM β Unit := do
  let exist ← onVault (withDb fun db => .ok db.hasHeader)
  if exist then fail .vaultAlreadyExists
  else onVault (withDbMut fun db => db.writeHeader (importHeader header))

def adoptSyncHeader (header : SyncedVaultHeader) : EngineM β Unit := do
  let old ← onVault (withDb VaultDb.readHeader)
  onVault (withDbMut fun db => db.writeHeader (adoptHeader old header))

def SYNC_KINDS : List ItemKind := [.host, .identity, .project, .runningSession, .apiKey]

/-- Every row of a listed kind that is not `local_only`, tombstones included. -/
def syncEligible (db : VaultDb) : List ItemRow :=
  SYNC_KINDS.flatMap fun kind => (db.listItems kind true).filter fun row => !row.localOnly

def listSyncEligibleItems : EngineM β (List ItemRow) := do
  let _ ← onVault requireKey
  onVault (withDb fun db => .ok (syncEligible db))

def shouldApply (item : SyncItem) : Option ItemRow → Bool
  | some row => if row.localOnly then false else winsOver item row
  | none => true

section Apply
variable (b64 : Base64)

def applyItems : UInt32 → List SyncItem → EngineM β UInt32
  | applied, [] => pure applied
  | applied, item :: items => do
    let row ← onVault (withDb fun db => .ok (db.getItem item.id))
    if shouldApply item row then do
      let row ← lift (ofExcept (itemRowFromSync b64 item))
      onVault (withDbMut fun db => db.upsertItem row)
      applyItems (applied + 1) items
    else applyItems applied items

end Apply

section Backends
variable (aead : Aead KeyBytes) (b64 : Base64) (backend : SyncBackend β)

/-- What `publish_header` does about the header it found. -/
def publishOver (header : SyncedVaultHeader) : Option SyncedVaultHeader → EngineM β Unit
  | some remote =>
    if sameVault remote header then pure ()
    else match header.rekeyFrom with
      | some rekey =>
        if headerMatchesPrevious remote rekey then onBackend (backend.putHeader header)
        else fail (.sync MISMATCH_MESSAGE)
      | none => fail (.sync MISMATCH_MESSAGE)
  | none => onBackend (backend.putHeader header)

def publishHeader : EngineM β Unit := do
  let header ← exportSyncHeader
  let remote ← onBackend backend.getHeader
  publishOver backend header remote

def publishPasswordRekey (previous : SyncedVaultHeader) : EngineM β Unit := do
  let vaultKey ← onVault requireKey
  let next ← exportSyncHeader
  let nonce ← onVault (draw World.nonceAt)
  let rekey ← lift (ofExcept (buildRekeyFrom aead previous next vaultKey nonce))
  onBackend (backend.putHeader { next with rekeyFrom := some rekey })

def headerMatchesBackend : EngineM β Bool := do
  match ← onBackend backend.getHeader with
  | none => pure true
  | some remote => do
    let header ← exportSyncHeader
    if sameVault remote header then pure true
    else if ← onVault isUnlocked then
      match ← onVault (Action.attempt requireKey) with
      | .ok key => lift (ofExcept (verifyRekeyAttestation aead key header remote))
      | .error _ => pure false
    else pure false

def bootstrapFromBackendIfNeeded : EngineM β Bool := do
  let current ← onVault status
  if current.exist then pure false
  else
    match ← onBackend backend.getHeader with
    | none => pure false
    | some header => do
      importSyncHeader header
      pure true

def adoptRemoteRekeyIfNeeded : EngineM β Unit := do
  match ← onBackend backend.getHeader with
  | none => pure ()
  | some remote => do
    let header ← exportSyncHeader
    if sameVault remote header then pure ()
    else do
      let vaultKey ← onVault requireKey
      if ← lift (ofExcept (verifyRekeyAttestation aead vaultKey header remote)) then
        adoptSyncHeader remote
      else pure ()

/-- The later of the two cursors of one sync. -/
def laterCursor (push remote : SyncCursor) : SyncCursor :=
  if push.parseRevision > remote.parseRevision then push else remote

/-- Pull, apply, push and advance the cursor. -/
def exchangeItems : EngineM β SyncReport := do
  let since ← getCursor
  let (items, remoteCursor) ← onBackend (backend.pull since)
  let applied ← applyItems b64 0 items
  let rows ← listSyncEligibleItems
  let outgoing := rows.map (syncItemFromRow b64)
  let pushCursor ← onBackend (backend.push outgoing)
  let next := laterCursor pushCursor remoteCursor
  setCursor next
  pure ⟨UInt32.ofNat items.length, applied, UInt32.ofNat outgoing.length, next⟩

def syncNowInner : EngineM β SyncReport := do
  adoptRemoteRekeyIfNeeded aead backend
  publishHeader backend
  exchangeItems b64 backend

def syncNow : EngineM β SyncReport := do
  if ← onVault isUnlocked then syncNowInner aead b64 backend
  else fail .vaultLocked

end Backends

theorem onVault_run {α : Type} (m : VaultM α) (s : Engine × β) :
    (onVault m).run s =
      ((m s.1.vault).1, ({ s.1 with vault := (m s.1.vault).2 }, s.2)) := by
  rw [onVault, Program.run_lift]
  rfl

theorem onBackend_run {α : Type} (m : Action β Error α) (s : Engine × β) :
    (onBackend m).run s = ((m s.2).1, (s.1, (m s.2).2)) := by
  rw [onBackend, Program.run_lift]
  rfl

theorem onBackend_eq_ok {α : Type} {m : Action β Error α} {s t : Engine × β} {a : α}
    (h : (onBackend m).run s = (.ok a, t)) : m s.2 = (.ok a, t.2) ∧ t.1 = s.1 := by
  rw [onBackend_run, Prod.mk.injEq] at h
  obtain ⟨hok, rfl⟩ := h
  exact ⟨Prod.ext hok rfl, rfl⟩

theorem readHeader_eq_ok {db : VaultDb} {header : VaultHeader} :
    db.readHeader = .ok header ↔ db.header = some header := by
  unfold VaultDb.readHeader
  cases db.header <;> simp

/-- A read of the local header. -/
theorem readHeader_ends (s : Engine × β) :
    (onVault (withDb VaultDb.readHeader) : EngineM β VaultHeader).run.Ends (fun r t =>
      t.1.vault.db = s.1.vault.db ∧ t.1.vault.state = s.1.vault.state ∧
        t.1.cursor = s.1.cursor ∧ t.2 = s.2 ∧
        ∀ old, r = .ok old → s.1.vault.db.header = some old) s := by
  rw [Action.Ends, onVault_run]
  refine ⟨leaves_withDb (f := Vault.db) (fun _ _ => rfl) _ _,
    leaves_withDb (f := Vault.state) (fun _ _ => rfl) _ _, rfl, rfl, fun old hold => ?_⟩
  exact readHeader_eq_ok.1 (withDb_eq_ok (Prod.ext hold rfl)).1

theorem exportSyncHeader_ends (s : Engine × β) :
    (exportSyncHeader : EngineM β SyncedVaultHeader).run.Ends (fun r t =>
      t.1.vault.db = s.1.vault.db ∧ t.1.vault.state = s.1.vault.state ∧
        t.1.cursor = s.1.cursor ∧ t.2 = s.2 ∧
        ∀ header, r = .ok header →
          ∃ old, s.1.vault.db.header = some old ∧ header = exportHeader old) s := by
  rw [exportSyncHeader, Program.run_bind]
  refine Action.Ends.bind (readHeader_ends s) ?_ ?_
  · rintro old t ⟨hdb, hstate, hcursor, hbackend, hold⟩
    exact ⟨hdb, hstate, hcursor, hbackend, fun header he => ⟨old, hold old rfl, by cases he; rfl⟩⟩
  · rintro e t ⟨hdb, hstate, hcursor, hbackend, -⟩
    exact ⟨hdb, hstate, hcursor, hbackend, fun header he => by cases he⟩

theorem sameVault_iff {a b : SyncedVaultHeader} :
    sameVault a b = true ↔
      a.salt = b.salt ∧ a.argon2 = b.argon2 ∧ a.wrappedVaultKey = b.wrappedVaultKey := by
  simp [sameVault, and_assoc]

theorem headerMatchesPrevious_iff {header : SyncedVaultHeader} {rekey : RekeyFrom} :
    headerMatchesPrevious header rekey = true ↔ header.salt = rekey.previousSalt ∧
      header.argon2 = rekey.previousArgon2 ∧
      header.wrappedVaultKey = rekey.previousWrappedVaultKey := by
  simp [headerMatchesPrevious, and_assoc]

theorem sameVault_refl (a : SyncedVaultHeader) : sameVault a a = true :=
  sameVault_iff.2 ⟨rfl, rfl, rfl⟩

theorem verifyRekeyAttestation_eq_ok_true {aead : Aead KeyBytes} {vaultKey : VaultKey}
    {previous next : SyncedVaultHeader} :
    verifyRekeyAttestation aead vaultKey previous next = .ok true ↔
      ∃ rekey, next.rekeyFrom = some rekey ∧ headerMatchesPrevious previous rekey = true ∧
        openWithVaultKey aead vaultKey REKEY_AAD rekey.attestation =
          .ok (attestationPlaintext next) := by
  unfold verifyRekeyAttestation
  cases hr : next.rekeyFrom with
  | none => simp
  | some rekey =>
    cases hm : headerMatchesPrevious previous rekey with
    | false => simp [hm]
    | true =>
      cases ho : openWithVaultKey aead vaultKey REKEY_AAD rekey.attestation with
      | error e => simp [hm, ho, bind, Except.bind]
      | ok opened =>
        simp [hm, ho, bind, Except.bind, pure, Except.pure]

theorem buildRekeyFrom_eq_ok {aead : Aead KeyBytes} {previous next : SyncedVaultHeader}
    {vaultKey : VaultKey} {nonce : Block NONCE_LEN} {rekey : RekeyFrom} :
    buildRekeyFrom aead previous next vaultKey nonce = .ok rekey ↔
      headerMatchesPrevious previous rekey = true ∧
        sealWithVaultKey aead vaultKey nonce REKEY_AAD (attestationPlaintext next) =
          .ok rekey.attestation := by
  unfold buildRekeyFrom
  rw [headerMatchesPrevious_iff]
  cases hs : sealWithVaultKey aead vaultKey nonce REKEY_AAD (attestationPlaintext next) with
  | error e => simp [bind, Except.bind]
  | ok attestation =>
    cases rekey
    simp only [bind, Except.bind, pure, Except.pure, Except.ok.injEq, RekeyFrom.mk.injEq]
    tauto

end Engines
end Tethra.SyncEngine
