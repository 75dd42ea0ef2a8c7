import Tethra.Failures
import Tethra.VaultKeys

set_option autoImplicit false

/-!
# The errors of a sync

Only the check of the published header reports a mismatch; the vault, the directory and the
exchange of items fail in other ways, and leave the headers alone.
-/
namespace Tethra.SyncErrors
open AtomicPrograms AuthenticatedEncryption Base64Strings Failures StatefulActions SyncEngine
open SyncFileBackend SyncItems VaultCrypto VaultKeys VaultState VaultTypes

section Errors

def Other (e : Error) : Prop := e ≠ .sync MISMATCH_MESSAGE

/-- The directory reports no mismatch. -/
abbrev FileFails {α : Type} (m : FileM α) : Prop := Fails (fun _ => True) Other m

theorem fails_other (message : String) : Other (.other message) := fun h => by cases h

theorem fails_io : FileFails FileBackend.io := by
  intro f _
  refine ⟨trivial, fun e h => ?_⟩
  unfold FileBackend.io at h
  split at h
  · cases h
    exact fun h => by cases h
  · cases h

theorem fails_atomicWriteJson (write : FileBackend → FileBackend) :
    FileFails (FileBackend.atomicWriteJson write) :=
  fails_io.bind fun _ _ _ => ⟨trivial, fun _ h => by cases h⟩

theorem fails_ensureLayout : FileFails FileBackend.ensureLayout := by
  refine fails_io.bind fun _ => (Fails.read _).bind fun manifest => ?_
  cases manifest with
  | some _ => exact Fails.pure _
  | none => exact fails_atomicWriteJson _

theorem fails_readManifest : FileFails FileBackend.readManifest := by
  refine (Fails.read _).bind fun manifest => ?_
  cases manifest with
  | none => exact Fails.pure _
  | some content =>
    refine fails_io.bind fun _ => ?_
    cases content with
    | ok manifest => exact Fails.pure _
    | error e => exact Fails.fail (fails_other _)

theorem fails_readEntries (entries : List ItemFile) : FileFails (FileBackend.readEntries entries) := by
  induction entries with
  | nil => exact Fails.pure _
  | cons entry entries ih =>
    refine fails_io.bind fun _ => ih.bind fun out => ?_
    cases entry.content with
    | ok item => exact Fails.pure _
    | error e => exact Fails.pure _

theorem fails_pull (since : SyncCursor) : FileFails (FileBackend.pull since) := by
  refine fails_ensureLayout.bind fun _ => fails_readManifest.bind fun manifest => ?_
  refine Fails.bind ?_ fun items => Fails.pure _
  split
  · exact Fails.pure _
  · exact (Fails.read _).bind fun entries => fails_io.bind fun _ => fails_readEntries entries

theorem fails_isWinner (incoming : SyncItem) : FileFails (FileBackend.isWinner incoming) := by
  refine (Fails.read _).bind fun file => ?_
  cases file with
  | none => exact Fails.pure _
  | some file =>
    refine fails_io.bind fun _ => ?_
    cases file.content with
    | ok existing => exact Fails.pure _
    | error e => exact Fails.fail (fails_other _)

theorem fails_pushItems (changed : Bool) (items : List SyncItem) :
    FileFails (FileBackend.pushItems changed items) := by
  induction items generalizing changed with
  | nil => exact Fails.pure _
  | cons incoming items ih =>
    refine (fails_isWinner incoming).bind fun wins => ?_
    cases wins with
    | true => exact (fails_atomicWriteJson _).bind fun _ => ih true
    | false => exact ih changed

theorem fails_bumpRevision : FileFails FileBackend.bumpRevision :=
  fails_readManifest.bind fun _ => (fails_atomicWriteJson _).bind fun _ => Fails.pure _

theorem fails_push (items : List SyncItem) : FileFails (FileBackend.push items) := by
  rw [FileBackend.push_eq]
  refine fails_ensureLayout.bind fun _ => (fails_pushItems false items).bind fun changed => ?_
  refine Fails.bind ?_ fun manifest => Fails.pure _
  split
  · exact fails_bumpRevision
  · exact fails_readManifest

theorem fails_getHeader : FileFails FileBackend.getHeader := by
  refine fails_ensureLayout.bind fun _ => (Fails.read _).bind fun header => ?_
  cases header with
  | none => exact Fails.pure _
  | some content =>
    refine fails_io.bind fun _ => ?_
    cases content with
    | ok header => exact Fails.pure _
    | error e => exact Fails.fail (fails_other _)

theorem fails_putHeader (header : SyncedVaultHeader) : FileFails (FileBackend.putHeader header) :=
  fails_ensureLayout.bind fun _ => (fails_atomicWriteJson _).bind fun _ =>
    fails_bumpRevision.bind fun _ => Fails.pure _

/-- The database reports no mismatch. -/
def Storage (v : Vault) : Prop := ∀ n e, v.world.dbFaultAt n = some e → Other e

abbrev VaultFails {α : Type} (m : VaultM α) : Prop := Fails Storage Other m

theorem storage_of_leaves {α : Type} {m : VaultM α} (hm : m.Leaves fun v => v.world.dbFaultAt)
    {v : Vault} (hv : Storage v) : Storage (m v).2 := by
  have hsame : (m v).2.world.dbFaultAt = v.world.dbFaultAt := hm v
  unfold Storage
  rw [hsame]
  exact hv

theorem fails_withDb {α : Type} {g : VaultDb → Except Error α}
    (hg : ∀ db e, g db = .error e → Other e) : VaultFails (withDb g) := by
  intro v hv
  refine ⟨storage_of_leaves (leaves_withDb (f := fun v => v.world.dbFaultAt) (fun _ _ => rfl) g) hv,
    fun e h => ?_⟩
  cases hfault : v.world.dbFaultAt v.world.draws with
  | some fault =>
    have hdraw : draw World.dbFaultAt v =
        (.ok (some fault), { v with world.draws := v.world.draws + 1 }) := by
      rw [← hfault]
      rfl
    rw [withDb, Action.bind_ok hdraw] at h
    cases h
    exact hv _ _ hfault
  | none =>
    have hdraw : draw World.dbFaultAt v =
        (.ok none, { v with world.draws := v.world.draws + 1 }) := by
      rw [← hfault]
      rfl
    rw [withDb, Action.bind_ok hdraw] at h
    exact hg _ _ h

theorem fails_withDbMut (g : VaultDb → VaultDb) : VaultFails (withDbMut g) := by
  intro v hv
  cases hfault : v.world.dbFaultAt v.world.draws with
  | some fault =>
    rw [withDbMut_fault hfault]
    exact ⟨hv, fun e h => by cases h; exact hv _ _ hfault⟩
  | none =>
    rw [withDbMut_calm hfault]
    exact ⟨hv, fun e h => by cases h⟩

theorem fails_requireKey : VaultFails requireKey := by
  intro v hv
  refine ⟨storage_of_leaves (leaves_requireKey (f := fun v => v.world.dbFaultAt) fun _ _ => rfl) hv,
    fun e h => ?_⟩
  have hlocked : e = .vaultLocked := by
    obtain ht | ⟨_, u, hu, hrest⟩ := Action.bind_eq_error.1 (Prod.ext h rfl)
    · cases ht
    · obtain hread | ⟨state, x, hread, hrest⟩ := Action.bind_eq_error.1 hrest
      · cases hread
      · cases state with
        | locked => cases hrest; rfl
        | unlocked key auth t =>
          obtain hup | ⟨_, y, -, hpure⟩ := Action.bind_eq_error.1 hrest
          · cases hup
          · cases hpure
  rw [hlocked]
  exact fun h => by cases h

theorem fails_isUnlocked : VaultFails isUnlocked := fun _ hv =>
  ⟨storage_of_leaves (leaves_isUnlocked (f := fun v => v.world.dbFaultAt) fun _ _ => rfl) hv,
    fun _ h => by cases h⟩

/-- What the actions of a sync are, but for the refusal of a header. -/
abbrev EngineFails {α : Type} (m : Action (Engine × FileBackend) Error α) : Prop :=
  Fails (fun s => Storage s.1.vault) Other m

theorem fails_vaultAction {α : Type} {m : VaultM α} (hm : VaultFails m) :
    EngineFails (vaultAction (β := FileBackend) m) := fun s hs => hm s.1.vault hs

theorem fails_backendAction {α : Type} {m : FileM α} (hm : FileFails m) :
    EngineFails (backendAction m) := fun s hs => ⟨hs, (hm s.2 trivial).2⟩

theorem itemRowFromSync_error {b64 : Base64} {item : SyncItem} {e : Error}
    (h : itemRowFromSync b64 item = .error e) : Other e := by
  have hfield : ∀ name text e, decodeField b64 name text = .error e → Other e := by
    intro name text e he
    unfold decodeField at he
    split at he
    · cases he
    · cases he
      exact fun h => by cases h
  unfold itemRowFromSync at h
  cases hkind : ItemKind.parse item.kind with
  | error e' =>
    rw [hkind] at h
    cases h
    unfold ItemKind.parse at hkind
    split at hkind
    all_goals cases hkind
    exact fun h => by cases h
  | ok kind =>
    cases hnonce : decodeField b64 "nonce" item.nonce with
    | error e' =>
      rw [hkind, hnonce] at h
      cases h
      exact hfield _ _ _ hnonce
    | ok nonce =>
      cases htext : decodeField b64 "ciphertext" item.ciphertext with
      | error e' =>
        rw [hkind, hnonce, htext] at h
        cases h
        exact hfield _ _ _ htext
      | ok ciphertext =>
        rw [hkind, hnonce, htext] at h
        cases h

/-- Both headers are as they were, and an unlocked vault has the key it had. -/
def Steady (s t : Engine × FileBackend) : Prop :=
  t.1.vault.db.header = s.1.vault.db.header ∧ t.2.header = s.2.header ∧
    ∀ key auth i, t.1.vault.state = .unlocked key auth i →
      ∃ auth' i', s.1.vault.state = .unlocked key auth' i'

theorem Steady.refl (s : Engine × FileBackend) : Steady s s :=
  ⟨rfl, rfl, fun _ auth i h => ⟨auth, i, h⟩⟩

theorem Steady.trans {s t u : Engine × FileBackend} (h : Steady s t) (h' : Steady t u) :
    Steady s u := by
  refine ⟨h'.1.trans h.1, h'.2.1.trans h.2.1, fun key auth i hu => ?_⟩
  obtain ⟨auth', i', ht⟩ := h'.2.2 key auth i hu
  exact h.2.2 key auth' i' ht

/-- An action of a sync that reports no mismatch and leaves both headers alone. -/
def Plain {α : Type} (m : Action (Engine × FileBackend) Error α) : Prop :=
  EngineFails m ∧ m.Within Steady

theorem plain_read {α : Type} (f : Engine × FileBackend → α) : Plain (Action.read f) :=
  ⟨Fails.read f, Steady.refl⟩

theorem plain_ofExcept {α : Type} {r : Except Error α} (hr : ∀ e, r = .error e → Other e) :
    Plain (Action.ofExcept r) := ⟨Fails.ofExcept hr, Steady.refl⟩

theorem plain_withDb {α : Type} {g : VaultDb → Except Error α}
    (hg : ∀ db e, g db = .error e → Other e) : Plain (vaultAction (withDb g)) := by
  refine ⟨fails_vaultAction (fails_withDb hg), fun s => ?_⟩
  obtain ⟨hdb, hstate⟩ := reads_withDb g s.1.vault
  exact ⟨congrArg VaultDb.header hdb, rfl, fun key auth i h => ⟨auth, i, hstate.symm.trans h⟩⟩

theorem plain_requireKey : Plain (vaultAction requireKey) := by
  refine ⟨fails_vaultAction fails_requireKey, fun s => ⟨?_, rfl, (sameRows_requireKey s.1.vault).2⟩⟩
  exact congrArg VaultDb.header (leaves_requireKey (f := Vault.db) (fun _ _ => rfl) s.1.vault)

theorem plain_upsert (row : ItemRow) : Plain (vaultAction (withDbMut fun db => db.upsertItem row)) := by
  refine ⟨fails_vaultAction (fails_withDbMut _), fun s => ?_⟩
  have hstate : (withDbMut (fun db => db.upsertItem row) s.1.vault).2.state = s.1.vault.state :=
    leaves_withDbMut (f := Vault.state) (fun _ _ => rfl) (fun _ _ => rfl) s.1.vault
  refine ⟨?_, rfl, fun key auth i h => ⟨auth, i, hstate.symm.trans h⟩⟩
  exact leaves_withDbMut (f := fun v => v.db.header) (fun _ _ => rfl) (fun _ _ => rfl) s.1.vault

theorem plain_backend {α : Type} {m : FileM α} (hm : FileFails m)
    (hheader : ∀ f, (m f).2.header = f.header) : Plain (backendAction m) :=
  ⟨fails_backendAction hm, fun s => ⟨rfl, hheader s.2, fun _ auth i h => ⟨auth, i, h⟩⟩⟩

variable {b64 : Base64}

theorem each_applyItems (applied : UInt32) (items : List SyncItem) :
    (applyItems b64 applied items : EngineM FileBackend UInt32).Each Plain := by
  induction items generalizing applied with
  | nil => exact Program.Each.pure _
  | cons item items ih =>
    refine Program.Each.bind (Program.Each.lift (plain_withDb fun _ _ h => by cases h))
      fun row => ?_
    split
    · refine Program.Each.bind (Program.Each.lift (plain_ofExcept fun e => itemRowFromSync_error))
        fun row => ?_
      exact Program.Each.bind (Program.Each.lift (plain_upsert row)) fun _ => ih _
    · exact ih _

theorem each_exchangeItems : (exchangeItems b64 fileBackend).Each Plain := by
  have hpull : ∀ since f, (FileBackend.pull since f).2.header = f.header := fun since f =>
    FileBackend.header_of_stored (FileBackend.leaves_pull since f)
  have hpush : ∀ items f, (FileBackend.push items f).2.header = f.header := fun items f => by
    obtain ⟨done, -, hoff, -⟩ := FileBackend.push_spec items f
    exact hoff.header
  refine Program.Each.bind (Program.Each.lift (plain_read _)) fun since => ?_
  refine Program.Each.bind (Program.Each.lift (plain_backend (fails_pull since) (hpull since)))
    fun pulled => ?_
  refine Program.Each.bind (each_applyItems 0 pulled.1) fun applied => ?_
  refine Program.Each.bind (Program.Each.bind (Program.Each.lift plain_requireKey) fun _ =>
    Program.Each.lift (plain_withDb fun _ _ h => by cases h)) fun rows => ?_
  refine Program.Each.bind (Program.Each.lift (plain_backend (fails_push _) (hpush _)))
    fun pushCursor => ?_
  refine Program.Each.bind (Program.Each.lift ⟨fun _ hs => ⟨hs, fun _ h => by cases h⟩, fun s => ?_⟩)
    fun _ => Program.Each.pure _
  exact ⟨rfl, rfl, fun _ auth i h => ⟨auth, i, h⟩⟩

theorem readHeader_error (db : VaultDb) (e : Error) (h : db.readHeader = .error e) : Other e := by
  unfold VaultDb.readHeader at h
  split at h
  · cases h
  · cases h
    exact fun h => by cases h

theorem each_exportSyncHeader :
    (exportSyncHeader : EngineM FileBackend SyncedVaultHeader).Each EngineFails :=
  Program.Each.bind (Program.Each.lift (fails_vaultAction (fails_withDb readHeader_error)))
    fun _ => Program.Each.pure _

theorem verifyRekeyAttestation_error {aead : Aead KeyBytes} {vaultKey : VaultKey}
    {previous next : SyncedVaultHeader} {e : Error}
    (h : verifyRekeyAttestation aead vaultKey previous next = .error e) : Other e := by
  unfold verifyRekeyAttestation at h
  split at h
  · cases h
  · split at h
    · rename_i rekey _ _
      cases hopen : openWithVaultKey aead vaultKey REKEY_AAD rekey.attestation with
      | ok opened =>
        rw [hopen] at h
        cases h
      | error e' =>
        rw [hopen] at h
        cases h
        unfold openWithVaultKey decryptRaw at hopen
        split at hopen
        · cases hopen
          exact fun h => by cases h
        · split at hopen
          · cases hopen
          · cases hopen
            exact fun h => by cases h
    · cases h

theorem each_adoptRemoteRekey (aead : Aead KeyBytes) :
    (adoptRemoteRekeyIfNeeded aead fileBackend).Each EngineFails := by
  refine Program.Each.bind (Program.Each.lift (fails_backendAction fails_getHeader))
    fun found => ?_
  cases found with
  | none => exact Program.Each.pure _
  | some remote =>
    refine Program.Each.bind each_exportSyncHeader fun header => ?_
    split
    · exact Program.Each.pure _
    · refine Program.Each.bind (Program.Each.lift (fails_vaultAction fails_requireKey))
        fun key => ?_
      refine Program.Each.bind (Program.Each.lift
        (Fails.ofExcept fun e => verifyRekeyAttestation_error)) fun verified => ?_
      split
      · refine Program.Each.bind (Program.Each.lift
          (fails_vaultAction (fails_withDb readHeader_error))) fun old => ?_
        exact Program.Each.lift (fails_vaultAction (fails_withDbMut _))
      · exact Program.Each.pure _

end Errors

end Tethra.SyncErrors
