import Tethra.SecretFleets
import Tethra.VaultKeys

set_option autoImplicit false

/-!
# Runs of vault operations on several devices

Operations run one at a time, each on one device. A header that a device publishes after
a password change is kept with the key the device held.
-/
namespace Tethra.KeyConsistency
open AtomicPrograms AuthenticatedEncryption JsonValues StatefulActions SyncEngine SyncItems
open RepositoryRequests SyncFileBackend VaultCrypto VaultKeys VaultRepository VaultState VaultTypes
open StatefulActions.Action (fail read update ofExcept bind_ok bind_error)

/-! ## Engine operations on a device alone -/

section Device
variable {β α γ : Type}

/-- An engine program on one device's vault, with the backend it talks to. -/
def onDevice (b : β) (p : EngineM β α) : VaultM α := fun v =>
  ((p.run (⟨v, .default⟩, b)).1, (p.run (⟨v, .default⟩, b)).2.1.vault)

theorem onDevice_onVault_bind (b : β) (m : VaultM γ) (f : γ → EngineM β α) :
    onDevice b (onVault m >>= f) = m >>= fun a => onDevice b (f a) := by
  funext v
  rcases hm : m v with ⟨r, w⟩
  have hl : (onVault m).run (⟨v, .default⟩, b) = (r, (⟨w, .default⟩, b)) := by
    rw [onVault_run]
    change ((m v).1, ((⟨(m v).2, .default⟩ : Engine), b)) = _
    rw [hm]
  have hrun : (onVault m >>= f).run (⟨v, .default⟩, b) =
      ((onVault m).run >>= fun a => (f a).run) (⟨v, .default⟩, b) := by rw [Program.run_bind]
  cases r with
  | ok a =>
    refine Eq.trans ?_ (bind_ok hm).symm
    change (_, ((onVault m >>= f).run (⟨v, .default⟩, b)).2.1.vault) = _
    rw [hrun, bind_ok hl]
    rfl
  | error e =>
    refine Eq.trans ?_ (bind_error hm).symm
    change (((onVault m >>= f).run (⟨v, .default⟩, b)).1, _) = _
    rw [hrun, bind_error hl]

theorem onDevice_onVault (b : β) (m : VaultM α) : onDevice b (onVault m) = m := by
  funext v
  unfold onDevice
  rw [onVault_run]

theorem onDevice_fail (b : β) (e : Error) : onDevice b (Program.fail e : EngineM β α) = fail e := by
  funext v
  unfold onDevice
  rw [Program.run_fail]
  rfl

/-- A backend that keeps the last header put. -/
def headerSlot : SyncBackend (Option SyncedVaultHeader) where
  pull since := pure ([], since)
  push _ := pure .default
  getHeader := read id
  putHeader header := update fun _ => some header

/-- What a device publishes, with the key it holds. -/
def published (aead : Aead KeyBytes) (previous : SyncedVaultHeader) (v : Vault) :
    List (VaultKey × SyncedVaultHeader) :=
  match ((publishPasswordRekey aead headerSlot previous).run (⟨v, .default⟩, none)).2 with
  | (engine, some header) =>
    match engine.vault.state with
    | .unlocked vaultKey _ _ => [(vaultKey, header)]
    | .locked => []
  | (_, none) => []

end Device

section Runs
variable (x : Externals) (kdf : Kdf) {D : Type} [DecidableEq D]

inductive Operation : Type 1 where
  | create (password : Bytes) (enableRecovery : Bool)
  | unlock (password : Bytes)
  | lock
  | changePassword (current newPassword : Bytes)
  | recoverWithNewPassword (newPassword : Bytes)
  | reset
  | importSyncHeader (header : SyncedVaultHeader)
  | adoptSyncHeader (header : SyncedVaultHeader)
  | put {α : Type} (f : Format α) (id : Uuid) (kind : ItemKind) (version : UInt64)
      (localOnly deleted : Bool) (value : α)
  | publishPasswordRekey (previous : SyncedVaultHeader)
  | isUnlocked
  | setIdleTimeoutSecs (secs : ℕ)

def ignoring {α : Type} (m : VaultM α) : VaultM Unit := fun v => ((m v).1.map fun _ => (), (m v).2)

def perform : Operation → VaultM Unit
  | .create password enableRecovery => ignoring (create x.aead kdf password enableRecovery)
  | .unlock password => ignoring (unlock x.aead kdf password)
  | .lock => lock
  | .changePassword current newPassword => changePassword x.aead kdf current newPassword
  | .recoverWithNewPassword newPassword => ignoring (recoverWithNewPassword x.aead kdf newPassword)
  | .reset => ignoring reset
  | .importSyncHeader header => onDevice () (importSyncHeader header)
  | .adoptSyncHeader header => onDevice () (adoptSyncHeader header)
  | .put f id kind version localOnly deleted value =>
    (putEncryptedJson x f id kind version localOnly deleted value).run
  | .publishPasswordRekey previous =>
    onDevice none (publishPasswordRekey x.aead headerSlot previous)
  | .isUnlocked => ignoring isUnlocked
  | .setIdleTimeoutSecs secs => setIdleTimeoutSecs secs

structure Fleet (D : Type) where
  vaults : D → Vault
  published : List (VaultKey × SyncedVaultHeader)

inductive Step (D : Type) : Type 1 where
  | operate (d : D) (op : Operation)
  | wait (d : D) (time : Instant)
  /-- The keyring entry is lost or replaced. -/
  | keyring (d : D) (secret : Option Bytes)

def Fleet.setVault (d : D) (v : Vault) (s : Fleet D) : Fleet D :=
  { s with vaults := Function.update s.vaults d v }

def publishes (v : Vault) : Operation → List (VaultKey × SyncedVaultHeader)
  | .publishPasswordRekey previous => published x.aead previous v
  | _ => []

def exec (s : Fleet D) : Step D → Fleet D
  | .operate d op =>
    { (s.setVault d (perform x kdf op (s.vaults d)).2) with
      published := publishes x (s.vaults d) op ++ s.published }
  | .wait d time =>
    s.setVault d { s.vaults d with world.now := (s.vaults d).world.now + time }
  | .keyring d secret => s.setVault d { s.vaults d with recoverySecret := secret }

def run (s : Fleet D) (steps : List (Step D)) : Fleet D := steps.foldl (exec x kdf) s

/-- A header is adopted from a device of the same vault: it was published by a holder of the
key that the stored header wraps. -/
def Siblings (s : Fleet D) : Step D → Prop
  | .operate d (.adoptSyncHeader header) => ∃ own vaultKey, (s.vaults d).db.header = some own ∧
      Wraps x.aead kdf own vaultKey ∧ (vaultKey, header) ∈ s.published
  | _ => True

def Along : Fleet D → List (Step D) → Prop
  | _, [] => True
  | s, step :: steps => Siblings x kdf s step ∧ Along (exec x kdf s step) steps

/-- No vault has been set up and nothing published. -/
structure Fresh (s : Fleet D) : Prop where
  bare : ∀ d, Bare (s.vaults d)
  published : s.published = []

end Runs

/-! ## Import, adoption and item writes -/

section Specs
variable {x : Externals} {kdf : Kdf} {v w : Vault}

theorem importSyncHeader_eq (header : SyncedVaultHeader) :
    onDevice () (importSyncHeader header) = (do
      checkMissing
      withDbMut fun db => db.writeHeader (importHeader header)) := by
  unfold importSyncHeader checkMissing
  rw [onDevice_onVault_bind, Action.bind_assoc]
  congr 1
  funext exist
  cases exist with
  | true => exact onDevice_fail () _
  | false => exact onDevice_onVault () _

theorem importSyncHeader_spec {header : SyncedVaultHeader} {r : Except Error Unit}
    (h : onDevice () (importSyncHeader header) v = (r, w)) :
    (∃ e, r = .error e ∧ Untouched v w) ∨ (r = .ok () ∧ v.db.header = none ∧
      w.db = v.db.writeHeader (importHeader header) ∧ w.state = v.state) := by
  rw [importSyncHeader_eq] at h
  obtain hfail | ⟨_, v1, hmissing, hv1, h⟩ := reads_then reads_checkMissing h
  · exact Or.inl hfail
  obtain ⟨e, he⟩ | hok := withDbMut_cases (fun db => db.writeHeader (importHeader header)) v1
  · rw [he] at h
    cases h
    exact Or.inl ⟨e, rfl, hv1⟩
  · rw [hok] at h
    cases h
    exact Or.inr ⟨rfl, checkMissing_ok hmissing,
      congrArg (fun db : VaultDb => db.writeHeader _) hv1.1, hv1.2⟩

theorem adoptSyncHeader_spec {header : SyncedVaultHeader} {r : Except Error Unit}
    (h : onDevice () (adoptSyncHeader header) v = (r, w)) :
    (∃ e, r = .error e ∧ Untouched v w) ∨ (r = .ok () ∧ ∃ old, v.db.header = some old ∧
      w.db = v.db.writeHeader (adoptHeader old header) ∧ w.state = v.state) := by
  unfold adoptSyncHeader at h
  rw [onDevice_onVault_bind] at h
  obtain hfail | ⟨old, v1, hold, hv1, h⟩ := reads_then (reads_withDb _) h
  · exact Or.inl hfail
  rw [onDevice_onVault] at h
  obtain ⟨e, he⟩ | hok := withDbMut_cases (fun db => db.writeHeader (adoptHeader old header)) v1
  · rw [he] at h
    cases h
    exact Or.inl ⟨e, rfl, hv1⟩
  · rw [hok] at h
    cases h
    exact Or.inr ⟨rfl, old, readHeader_run hold, congrArg (fun db : VaultDb => db.writeHeader _) hv1.1,
      hv1.2⟩

/-- Locked, or unlocked with the same keys. -/
def SameLock (v w : Vault) : Prop :=
  (v.state = .locked ∧ w.state = .locked) ∨ ∃ vaultKey authKey t t',
    v.state = .unlocked vaultKey authKey t ∧ w.state = .unlocked vaultKey authKey t'

/-- Header, items and lock state are as they were; only the time of the last use may differ. -/
def Unchanged (v w : Vault) : Prop := w.db = v.db ∧ SameLock v w

/-- The idle timer had run out, and locked the vault. -/
def IdleLocked (v w : Vault) : Prop :=
  w.db = v.db ∧ v.state.expired v.world.now v.idleTimeout = true ∧ w.state = .locked

theorem SameLock.of_eq (h : w.state = v.state) : SameLock v w := by
  cases hv : v.state with
  | locked => exact Or.inl ⟨hv, h.trans hv⟩
  | unlocked vaultKey authKey t => exact Or.inr ⟨vaultKey, authKey, t, t, hv, h.trans hv⟩

theorem Unchanged.of_untouched (h : Untouched v w) : Unchanged v w := ⟨h.1, .of_eq h.2⟩

theorem Unchanged.untouched {u : Vault} (h : Unchanged v u) (h' : Untouched u w) :
    Unchanged v w := by
  obtain ⟨hdb, hlock⟩ := h
  refine ⟨h'.1.trans hdb, ?_⟩
  obtain ⟨hv, hu⟩ | ⟨vaultKey, authKey, t, t', hv, hu⟩ := hlock
  · exact Or.inl ⟨hv, h'.2.trans hu⟩
  · exact Or.inr ⟨vaultKey, authKey, t, t', hv, h'.2.trans hu⟩

theorem touchIdle_cases (v : Vault) : (touchIdle v).2.db = v.db ∧
    ((touchIdle v).2.state = v.state ∨
      (v.state.expired v.world.now v.idleTimeout = true ∧ (touchIdle v).2.state = .locked)) := by
  unfold touchIdle update
  dsimp only
  split
  · exact ⟨rfl, Or.inl rfl⟩
  · split
    case isTrue hexpired => exact ⟨rfl, Or.inr ⟨hexpired, rfl⟩⟩
    case isFalse => exact ⟨rfl, Or.inl rfl⟩

/-- The key in memory, or nothing but the idle timer. -/
theorem requireKey_spec {r : Except Error VaultKey} (h : requireKey v = (r, w)) :
    (∃ e, r = .error e ∧ (Unchanged v w ∨ IdleLocked v w)) ∨
      ∃ vaultKey authKey t t', r = .ok vaultKey ∧ v.state = .unlocked vaultKey authKey t ∧
        w.state = .unlocked vaultKey authKey t' ∧ w.db = v.db := by
  cases r with
  | ok vaultKey =>
    obtain ⟨authKey, t, hstate, rfl⟩ := requireKey_eq_ok h
    exact Or.inr ⟨vaultKey, authKey, t, _, rfl, hstate, rfl, rfl⟩
  | error e =>
    refine Or.inl ⟨e, rfl, ?_⟩
    have htouched := touchIdle_cases v
    obtain ht | ⟨_, u, hu, hrest⟩ := Action.bind_eq_error.1 h
    · cases ht
    rw [hu] at htouched
    obtain ⟨hdb, hstate⟩ := htouched
    obtain hread | ⟨state, u', hread, hrest⟩ := Action.bind_eq_error.1 hrest
    · cases hread
    obtain ⟨hlock, rfl⟩ := Action.read_eq_ok.1 hread
    cases state with
    | unlocked key authKey t =>
      obtain hup | ⟨_, y, -, hpure⟩ := Action.bind_eq_error.1 hrest
      · cases hup
      · cases hpure
    | locked =>
      cases hrest
      obtain hsame | ⟨hexpired, hlocked⟩ := hstate
      · exact Or.inl ⟨hdb, .of_eq hsame⟩
      · exact Or.inr ⟨hdb, hexpired, hlocked⟩

/-- A write seals the row with the key in memory. -/
theorem put_spec (hi : Ideal x.aead) {α : Type} {f : Format α} {id : Uuid} {kind : ItemKind}
    {version : UInt64} {localOnly deleted : Bool} {value : α} {r : Except Error Unit}
    (h : (putEncryptedJson x f id kind version localOnly deleted value).run v = (r, w)) :
    (∃ e, r = .error e ∧ (Unchanged v w ∨ IdleLocked v w)) ∨
      (r = .ok () ∧ ∃ vaultKey authKey t t' row, v.state = .unlocked vaultKey authKey t ∧
        w.state = .unlocked vaultKey authKey t' ∧ w.db = v.db.upsertItem row ∧
        Readable x.aead vaultKey row) := by
  unfold putEncryptedJson at h
  simp only [Program.run_bind, Program.run_lift] at h
  rcases hkey : requireKey v with ⟨q, v1⟩
  obtain ⟨e, rfl, hfail⟩ | ⟨vaultKey, authKey, t, t', rfl, hv, hv1, hdb⟩ := requireKey_spec hkey
  · rw [bind_error hkey] at h
    cases h
    exact Or.inl ⟨e, rfl, hfail⟩
  rw [bind_ok hkey] at h
  have hsame : Unchanged v v1 := ⟨hdb, Or.inr ⟨vaultKey, authKey, t, t', hv, hv1⟩⟩
  obtain ⟨e, he, hw⟩ | ⟨plaintext, v2, -, hv2, h⟩ := reads_then (reads_ofExcept _) h
  · exact Or.inl ⟨e, he, Or.inl (hsame.untouched hw)⟩
  obtain ⟨e, he, hw⟩ | ⟨nonce, v3, -, hv3, h⟩ := hv2.step (reads_draw _) h
  · exact Or.inl ⟨e, he, Or.inl (hsame.untouched hw)⟩
  obtain ⟨e, he, hw⟩ | ⟨blob, v4, hseal, hv4, h⟩ := hv3.step (reads_ofExcept _) h
  · exact Or.inl ⟨e, he, Or.inl (hsame.untouched hw)⟩
  obtain ⟨e, he, hw⟩ | ⟨updatedAt, v5, -, hrest, h⟩ := hv4.step (reads_read _) h
  · exact Or.inl ⟨e, he, Or.inl (hsame.untouched hw)⟩
  obtain ⟨e, he⟩ | hok := withDbMut_cases (fun db =>
    db.upsertItem ⟨id, kind, version, updatedAt, deleted, localOnly, blob⟩) v5
  · rw [he] at h
    cases h
    exact Or.inl ⟨e, rfl, Or.inl (hsame.untouched hrest)⟩
  · rw [hok] at h
    cases h
    refine Or.inr ⟨rfl, vaultKey, authKey, t, t', _, hv, hrest.2.trans hv1,
      congrArg (fun db : VaultDb => db.upsertItem _) (hrest.1.trans hdb), plaintext, ?_⟩
    exact decryptRaw_encryptRaw hi.correct (Action.ofExcept_eq_ok.1 hseal).1

/-- A step of an engine program that leaves vault and backend alone. -/
def Idles {β α : Type} (m : Action (Engine × β) Error α) : Prop :=
  ∀ s, Untouched s.1.vault (m s).2.1.vault ∧ (m s).2.2 = s.2

theorem idles_onVault {β α : Type} {m : VaultM α} (hm : Reads m) :
    Idles (onVault m : EngineM β α).run := by
  intro s
  rw [onVault_run]
  exact ⟨hm s.1.vault, rfl⟩

theorem idles_exportSyncHeader {β : Type} :
    Idles (exportSyncHeader : EngineM β SyncedVaultHeader).run := by
  intro s
  obtain ⟨hdb, hstate, -, hbackend, -⟩ := exportSyncHeader_ends (β := β) s
  exact ⟨⟨hdb, hstate⟩, hbackend⟩

theorem idles_then {β α γ : Type} {m : Action (Engine × β) Error γ}
    {f : γ → Action (Engine × β) Error α} (hm : Idles m) {s t : Engine × β} {r : Except Error α}
    (h : (m >>= f) s = (r, t)) :
    (∃ e, r = .error e ∧ Untouched s.1.vault t.1.vault ∧ t.2 = s.2) ∨
      ∃ a u, m s = (.ok a, u) ∧ Untouched s.1.vault u.1.vault ∧ u.2 = s.2 ∧ f a u = (r, t) := by
  have hidle := hm s
  rcases hrun : m s with ⟨q, u⟩
  rw [hrun] at hidle
  cases q with
  | error e =>
    rw [bind_error hrun] at h
    cases h
    exact Or.inl ⟨e, rfl, hidle⟩
  | ok a =>
    rw [bind_ok hrun] at h
    exact Or.inr ⟨a, u, rfl, hidle.1, hidle.2, h⟩

/-- What is published is the stored header of an unlocked vault. -/
theorem publishPasswordRekey_spec {aead : Aead KeyBytes} {previous : SyncedVaultHeader}
    {r : Except Error Unit} {t : Engine × Option SyncedVaultHeader}
    (h : (publishPasswordRekey aead headerSlot previous).run (⟨v, .default⟩, none) = (r, t)) :
    (∃ e, r = .error e ∧ t.2 = none ∧ (Unchanged v t.1.vault ∨ IdleLocked v t.1.vault)) ∨
      (r = .ok () ∧ Unchanged v t.1.vault ∧ ∃ vaultKey authKey t' old rekey,
        t.1.vault.state = .unlocked vaultKey authKey t' ∧ v.db.header = some old ∧
        t.2 = some { exportHeader old with rekeyFrom := some rekey }) := by
  unfold publishPasswordRekey at h
  simp only [Program.run_bind, Program.run_lift] at h
  rcases hkey : requireKey v with ⟨q, v1⟩
  have hrun : (onVault requireKey : EngineM (Option SyncedVaultHeader) VaultKey).run
      (⟨v, .default⟩, none) = (q, (⟨v1, .default⟩, none)) := by
    rw [onVault_run]
    change ((requireKey v).1, ((⟨(requireKey v).2, .default⟩ : Engine), none)) = _
    rw [hkey]
  obtain ⟨e, rfl, hfail⟩ | ⟨vaultKey, authKey, t0, t1, rfl, hv, hv1, hdb⟩ := requireKey_spec hkey
  · rw [bind_error hrun] at h
    cases h
    exact Or.inl ⟨e, rfl, rfl, hfail⟩
  rw [bind_ok hrun] at h
  have hsame : Unchanged v v1 := ⟨hdb, Or.inr ⟨vaultKey, authKey, t0, t1, hv, hv1⟩⟩
  obtain ⟨e, he, hw, hslot⟩ | ⟨next, s2, hnext, hs2, hslot2, h⟩ := idles_then idles_exportSyncHeader h
  · exact Or.inl ⟨e, he, hslot, Or.inl (hsame.untouched hw)⟩
  have hstored := exportSyncHeader_ends
    ((⟨v1, .default⟩, none) : Engine × Option SyncedVaultHeader)
  unfold Action.Ends at hstored
  rw [hnext] at hstored
  obtain ⟨-, -, -, -, hold⟩ := hstored
  obtain ⟨old, hheader, rfl⟩ := hold next rfl
  obtain ⟨e, he, hw, hslot⟩ | ⟨nonce, s3, -, hs3, hslot3, h⟩ :=
    idles_then (idles_onVault (reads_draw _)) h
  · exact Or.inl ⟨e, he, hslot.trans hslot2, Or.inl (hsame.untouched (hs2.trans hw))⟩
  obtain ⟨e, he, hw, hslot⟩ | ⟨rekey, s4, -, hs4, hslot4, h⟩ :=
    idles_then (m := ofExcept _) (fun s => ⟨.refl _, rfl⟩) h
  · exact Or.inl ⟨e, he, (hslot.trans hslot3).trans hslot2,
      Or.inl (hsame.untouched ((hs2.trans hs3).trans hw))⟩
  rw [onBackend_run] at h
  cases h
  have hrest := (hs2.trans hs3).trans hs4
  refine Or.inr ⟨rfl, hsame.untouched hrest, vaultKey, authKey, t1, old, rekey, hrest.2.trans hv1,
    ?_, rfl⟩
  rw [← hdb]
  exact hheader

end Specs

/-! ## The invariant over runs -/

section Invariant
variable {x : Externals} {kdf : Kdf} {D : Type} [DecidableEq D] {v w : Vault}

theorem Sound.of_unchanged (h : Sound x.aead kdf v) (hw : Unchanged v w) : Sound x.aead kdf w := by
  obtain ⟨hdb, ⟨-, hlocked⟩ | ⟨key, authKey, t, t', hv, hunlocked⟩⟩ := hw
  · exact h.locked hdb hlocked
  · refine h.of_same hdb (Or.inr fun key' authKey' t'' hstate => ?_)
    rw [hunlocked] at hstate
    cases hstate
    exact ⟨authKey, t, hv⟩

theorem Sound.of_failed (h : Sound x.aead kdf v) (hw : Unchanged v w ∨ IdleLocked v w) :
    Sound x.aead kdf w := by
  obtain hw | ⟨hdb, -, hlocked⟩ := hw
  · exact Sound.of_unchanged h hw
  · exact h.locked hdb hlocked

theorem Sound.imported (h : Sound x.aead kdf v) {header : SyncedVaultHeader}
    (hnone : v.db.header = none) (hdb : w.db = v.db.writeHeader (importHeader header))
    (hstate : w.state = v.state) : Sound x.aead kdf w := by
  obtain ⟨hlocked, hrows⟩ := h.bare hnone
  have hstored : w.db.header = some (importHeader header) := by rw [hdb]; rfl
  constructor
  case bare =>
    intro hbare
    rw [hstored] at hbare
    cases hbare
  case key =>
    intro key authKey t hw
    rw [hstate, hlocked] at hw
    cases hw
  case recovery =>
    intro header' key hheader' hrecovers
    rw [hstored] at hheader'
    cases hheader'
    obtain ⟨blob, recovery, hblob, -⟩ := hrecovers
    cases hblob
  case rows =>
    intro header' key _ _ row hrow
    rw [hdb] at hrow
    change row ∈ v.db.items.rows at hrow
    rw [hrows] at hrow
    cases hrow

theorem Sound.written (hi : Ideal x.aead) (h : Sound x.aead kdf v) {vaultKey : VaultKey}
    {authKey : KeyBytes} {t t' : Instant} {row : ItemRow}
    (hv : v.state = .unlocked vaultKey authKey t) (hw : w.state = .unlocked vaultKey authKey t')
    (hdb : w.db = v.db.upsertItem row) (hrow : Readable x.aead vaultKey row) :
    Sound x.aead kdf w := by
  obtain ⟨header, hheader, hwraps⟩ := h.key vaultKey authKey t hv
  have hstored : w.db.header = some header := by rw [hdb]; exact hheader
  constructor
  case bare =>
    intro hbare
    rw [hstored] at hbare
    cases hbare
  case key =>
    intro key authKey' t'' hstate
    rw [hw] at hstate
    cases hstate
    exact ⟨header, hstored, hwraps⟩
  case recovery =>
    intro header' key hheader' hrecovers
    rw [hstored] at hheader'
    cases hheader'
    exact h.recovery header key hheader hrecovers
  case rows =>
    intro header' key hheader' hkey other hother
    rw [hstored] at hheader'
    cases hheader'
    rw [hwraps.unique hi hkey]
    rw [hdb, KeyedTables.Table.mem_rows_iff] at hother
    have hget := VaultDb.getItem_upsertItem v.db row other.id
    unfold VaultDb.getItem at hget
    rw [hother] at hget
    by_cases hid : other.id = row.id
    · rw [if_pos hid] at hget
      cases hget
      exact hrow
    · rw [if_neg hid] at hget
      exact h.rows header vaultKey hheader hwraps other
        ((KeyedTables.Table.mem_rows_iff _ _).2 hget.symm)

theorem Sound.adopted (hi : Ideal x.aead) (h : Sound x.aead kdf v) {old : VaultHeader}
    {header : SyncedVaultHeader} {vaultKey : VaultKey} (hold : v.db.header = some old)
    (hwraps : Wraps x.aead kdf old vaultKey) (hnext : Wraps x.aead kdf (importHeader header) vaultKey)
    (hdb : w.db = v.db.writeHeader (adoptHeader old header)) (hstate : w.state = v.state) :
    Sound x.aead kdf w := by
  have hadopted : Wraps x.aead kdf (adoptHeader old header) vaultKey := hnext
  refine h.rewritten hi hold hwraps hadopted rfl hdb ?_
  intro key authKey t hw
  rw [hstate] at hw
  obtain ⟨header', hheader', hkey⟩ := h.key key authKey t hw
  rw [hold] at hheader'
  cases hheader'
  exact hwraps.unique hi hkey

/-- Every vault is sound and every published header wraps its publisher's key. -/
structure FleetSound (x : Externals) (kdf : Kdf) (s : Fleet D) : Prop where
  vaults : ∀ d, Sound x.aead kdf (s.vaults d)
  published : ∀ vaultKey header, (vaultKey, header) ∈ s.published →
    Wraps x.aead kdf (importHeader header) vaultKey

omit [DecidableEq D] in
theorem Fresh.sound {s : Fleet D} (h : Fresh s) : FleetSound x kdf s where
  vaults d := (h.bare d).sound
  published vaultKey header hmem := by
    rw [h.published] at hmem
    cases hmem

theorem FleetSound.setVault {s : Fleet D} (h : FleetSound x kdf s) {d : D}
    (hv : Sound x.aead kdf v) : FleetSound x kdf (s.setVault d v) where
  vaults e := by
    change Sound x.aead kdf (Function.update s.vaults d v e)
    by_cases he : e = d
    · subst he
      rw [Function.update_self]
      exact hv
    · rw [Function.update_of_ne he]
      exact h.vaults e
  published := h.published

/-- One operation on one device, whatever its outcome. -/
theorem Sound.perform (hi : Ideal x.aead) (h : Sound x.aead kdf v) (op : Operation)
    (hadopt : ∀ header, op = .adoptSyncHeader header → ∃ own vaultKey, v.db.header = some own ∧
      Wraps x.aead kdf own vaultKey ∧ Wraps x.aead kdf (importHeader header) vaultKey) :
    Sound x.aead kdf (perform x kdf op v).2 := by
  cases op with
  | create password enableRecovery => exact h.create hi rfl
  | unlock password => exact h.unlock rfl
  | lock => exact h.locked rfl rfl
  | changePassword current newPassword => exact h.changePassword hi rfl
  | recoverWithNewPassword newPassword => exact h.recoverWithNewPassword hi rfl
  | reset => exact h.reset rfl
  | importSyncHeader header =>
    obtain ⟨e, -, hw⟩ | ⟨-, hnone, hdb, hstate⟩ := importSyncHeader_spec (v := v) rfl
    · exact h.of_untouched hw
    · exact Sound.imported h hnone hdb hstate
  | adoptSyncHeader header =>
    obtain ⟨e, -, hw⟩ | ⟨-, old, hold, hdb, hstate⟩ := adoptSyncHeader_spec (v := v) rfl
    · exact h.of_untouched hw
    · obtain ⟨own, vaultKey, hown, hwraps, hnext⟩ := hadopt header rfl
      rw [hold] at hown
      cases hown
      exact Sound.adopted hi h hold hwraps hnext hdb hstate
  | put f id kind version localOnly deleted value =>
    obtain ⟨e, -, hw⟩ | ⟨-, key, authKey, t, t', row, hv, hw, hdb, hrow⟩ := put_spec (v := v) hi rfl
    · exact Sound.of_failed h hw
    · exact Sound.written hi h hv hw hdb hrow
  | publishPasswordRekey previous =>
    rcases hrun : (publishPasswordRekey x.aead headerSlot previous).run (⟨v, .default⟩, none) with
      ⟨r, t⟩
    change Sound x.aead kdf ((publishPasswordRekey x.aead headerSlot previous).run _).2.1.vault
    rw [hrun]
    obtain ⟨e, -, -, hw⟩ | ⟨-, hw, -⟩ := publishPasswordRekey_spec hrun
    · exact Sound.of_failed h hw
    · exact Sound.of_unchanged h hw
  | isUnlocked =>
    obtain ⟨hdb, hstate | ⟨-, hstate⟩⟩ := touchIdle_cases v
    · exact h.of_untouched ⟨hdb, hstate⟩
    · exact h.locked hdb hstate
  | setIdleTimeoutSecs secs => exact h.of_untouched ⟨rfl, rfl⟩

theorem mem_published {aead : Aead KeyBytes} {previous header : SyncedVaultHeader}
    {vaultKey : VaultKey} (h : (vaultKey, header) ∈ published aead previous v) :
    ∃ authKey t old rekey, v.state = .unlocked vaultKey authKey t ∧ v.db.header = some old ∧
      header = { exportHeader old with rekeyFrom := some rekey } := by
  unfold published at h
  rcases hrun : (publishPasswordRekey aead headerSlot previous).run (⟨v, .default⟩, none) with
    ⟨r, engine, slot⟩
  rw [hrun] at h
  obtain ⟨e, -, hslot, -⟩ | ⟨-, hsame, key, authKey, t, old, rekey, hstate, hold, hslot⟩ :=
    publishPasswordRekey_spec hrun
  · dsimp only at hslot h
    subst hslot
    cases h
  · dsimp only at hslot h hstate
    subst hslot
    dsimp only at h
    rw [hstate] at h
    cases List.mem_singleton.1 h
    obtain ⟨-, ⟨-, hlocked⟩ | ⟨key', authKey', t1, t2, hv, hw⟩⟩ := hsame
    · dsimp only at hlocked
      rw [hstate] at hlocked
      cases hlocked
    · dsimp only at hw
      rw [hstate] at hw
      cases hw
      exact ⟨authKey, t1, old, rekey, hv, hold, rfl⟩

theorem FleetSound.exec (hi : Ideal x.aead) {s : Fleet D} (h : FleetSound x kdf s)
    {step : Step D} (hs : Siblings x kdf s step) : FleetSound x kdf (exec x kdf s step) := by
  cases step with
  | operate d op =>
    have hv : Sound x.aead kdf (perform x kdf op (s.vaults d)).2 := by
      refine Sound.perform hi (h.vaults d) op fun header hop => ?_
      subst hop
      obtain ⟨own, vaultKey, hown, hwraps, hmem⟩ := hs
      exact ⟨own, vaultKey, hown, hwraps, h.published vaultKey header hmem⟩
    refine ⟨(h.setVault hv).vaults, ?_⟩
    intro vaultKey header hmem
    obtain hnew | hold := List.mem_append.1 hmem
    · cases op with
      | publishPasswordRekey previous =>
        obtain ⟨authKey, t, old, rekey, hstate, hheader, rfl⟩ := mem_published hnew
        obtain ⟨header', hheader', hwraps⟩ := (h.vaults d).key vaultKey authKey t hstate
        rw [hheader] at hheader'
        cases hheader'
        exact hwraps
      | _ => cases hnew
    · exact h.published vaultKey header hold
  | wait d time => exact h.setVault ((h.vaults d).of_untouched ⟨rfl, rfl⟩)
  | keyring d secret => exact h.setVault ((h.vaults d).of_untouched ⟨rfl, rfl⟩)

theorem FleetSound.run (hi : Ideal x.aead) {s : Fleet D} (h : FleetSound x kdf s)
    {steps : List (Step D)} (hsteps : Along x kdf s steps) :
    FleetSound x kdf (run x kdf s steps) := by
  induction steps generalizing s with
  | nil => exact h
  | cons step steps ih => exact ih (h.exec hi hsteps.1) hsteps.2

/-- The key in memory is the one in the header, the one in the recovery wrap and the one
the rows open with. -/
structure Consistent (x : Externals) (kdf : Kdf) (v : Vault) (vaultKey : VaultKey) : Prop where
  header : ∃ header, v.db.header = some header ∧ Wraps x.aead kdf header vaultKey ∧
    ∀ other, Wraps x.aead kdf header other → other = vaultKey
  recovery : ∀ header blob recovery other, v.db.header = some header →
    header.recoveryWrappedVaultKey = some blob → v.recoverySecret = some recovery.1 →
    unwrapKey x.aead recovery blob = .ok other → other = vaultKey
  rows : ∀ row ∈ v.db.items.rows, Readable x.aead vaultKey row

theorem Sound.consistent (hi : Ideal x.aead) (h : Sound x.aead kdf v) {vaultKey : VaultKey}
    {authKey : KeyBytes} {t : Instant} (hv : v.state = .unlocked vaultKey authKey t) :
    Consistent x kdf v vaultKey := by
  obtain ⟨header, hheader, hwraps⟩ := h.key vaultKey authKey t hv
  constructor
  case header => exact ⟨header, hheader, hwraps, fun other => hwraps.unique hi⟩
  case recovery =>
    intro header' blob recovery other hheader' hblob _ hopen
    rw [hheader] at hheader'
    cases hheader'
    exact hwraps.unique hi (h.recovery header other hheader ⟨blob, recovery, hblob, hopen⟩)
  case rows => exact h.rows header vaultKey hheader hwraps

/-- The work was done, and it is the status read after it that failed. -/
def StatusFailed (w : Vault) (e : Error) : Prop :=
  ∃ u, u.state.isUnlocked = true ∧ u.db.hasHeader = true ∧ status u = (.error e, w)

theorem ignoring_error {α : Type} {m : VaultM α} {e : Error}
    (h : ignoring m v = (.error e, w)) : m v = (.error e, w) := by
  unfold ignoring at h
  rcases hm : m v with ⟨r, u⟩
  rw [hm] at h
  cases r with
  | ok a => cases h
  | error e' => cases h; rfl

/-- What a failing operation leaves behind. -/
theorem perform_failed (hi : Ideal x.aead) {op : Operation} (hop : op ≠ .reset) {e : Error}
    (h : perform x kdf op v = (.error e, w)) :
    Unchanged v w ∨ IdleLocked v w ∨ StatusFailed w e := by
  cases op with
  | create password enableRecovery =>
    obtain ⟨_, -, hw⟩ | ⟨u, header, vaultKey, derived, t, -, -, -, -, hdb, hstate, hstatus⟩ :=
      create_spec hi (ignoring_error h)
    · exact Or.inl (.of_untouched hw)
    · exact Or.inr (Or.inr ⟨u, by rw [hstate]; rfl, by rw [hdb]; rfl, hstatus⟩)
  | unlock password =>
    obtain ⟨_, -, hw⟩ | ⟨u, header, vaultKey, derived, t, hheader, -, -, hdb, hstate, hstatus⟩ :=
      unlock_spec (ignoring_error h)
    · exact Or.inl (.of_untouched hw)
    · refine Or.inr (Or.inr ⟨u, by rw [hstate]; rfl, ?_, hstatus⟩)
      rw [hdb, VaultDb.hasHeader, hheader]
      rfl
  | lock => cases h
  | changePassword current newPassword =>
    obtain ⟨_, -, hw⟩ | ⟨hr, -⟩ := changePassword_spec hi h
    · exact Or.inl (.of_untouched hw)
    · cases hr
  | recoverWithNewPassword newPassword =>
    obtain ⟨_, -, hw⟩ | ⟨u, header, vaultKey, derived, next, -, -, hnext, hstatus⟩ :=
      recoverWithNewPassword_spec hi (ignoring_error h)
    · exact Or.inl (.of_untouched hw)
    · obtain ⟨t, hstate⟩ := hnext.state
      exact Or.inr (Or.inr ⟨u, by rw [hstate]; rfl, by rw [hnext.db]; rfl, hstatus⟩)
  | reset => exact absurd rfl hop
  | importSyncHeader header =>
    obtain ⟨_, -, hw⟩ | ⟨hr, -⟩ := importSyncHeader_spec h
    · exact Or.inl (.of_untouched hw)
    · cases hr
  | adoptSyncHeader header =>
    obtain ⟨_, -, hw⟩ | ⟨hr, -⟩ := adoptSyncHeader_spec h
    · exact Or.inl (.of_untouched hw)
    · cases hr
  | put f id kind version localOnly deleted value =>
    obtain ⟨_, -, hw | hw⟩ | ⟨hr, -⟩ := put_spec hi h
    · exact Or.inl hw
    · exact Or.inr (Or.inl hw)
    · cases hr
  | publishPasswordRekey previous =>
    rcases hrun : (publishPasswordRekey x.aead headerSlot previous).run (⟨v, .default⟩, none) with
      ⟨r, t⟩
    change (_, _) = _ at h
    rw [hrun] at h
    cases h
    obtain ⟨_, -, -, hw | hw⟩ | ⟨hr, -⟩ := publishPasswordRekey_spec hrun
    · exact Or.inl hw
    · exact Or.inr (Or.inl hw)
    · cases hr
  | isUnlocked => cases h
  | setIdleTimeoutSecs secs => cases h

end Invariant

section Samples

/-- Salt and password in the open. -/
def sampleMaterial (password salt : Bytes) : KeyBytes :=
  ⟨(salt ++ password ++ List.replicate KEY_LEN 0).take KEY_LEN, by
    rw [List.length_take, List.length_append, List.length_replicate]
    omega⟩

/-- The auth key is the encryption key shifted. -/
def sampleKdf : Kdf := fun password salt _ =>
  .ok ⟨sampleMaterial password salt, sampleMaterial password salt,
    ⟨(sampleMaterial password salt).1.map (· + 1), by
      rw [List.length_map, (sampleMaterial password salt).2]⟩⟩

theorem sampleAead_ideal : Ideal SecretFleets.sampleExternals.aead :=
  ⟨transparent_correct KEY_LEN, transparent_committing KEY_LEN, transparent_canonical KEY_LEN⟩

def sampleFleet : Fleet Bool where
  vaults _ := ⟨VaultDb.empty, none, .locked, IDLE_LOCK_DISABLED, World.quiet⟩
  published := []

theorem sampleFleet_fresh : Fresh sampleFleet := ⟨fun _ => ⟨rfl, rfl⟩, rfl⟩

/-- Created with recovery, written to, locked, recovered and changed. -/
def sampleSteps : List (Step Bool) :=
  [.operate true (.create [1] true),
    .operate true (.put SecretFleets.sampleExternals.texts.apiKey SecretFleets.sampleId .apiKey 1
      false false ⟨SecretFleets.sampleId, "claude", .anthropic, none, none, "sk", true⟩),
    .operate true .lock, .operate true (.recoverWithNewPassword [2]),
    .operate true (.changePassword [2] [3])]

def sampleVault : Vault :=
  (run SecretFleets.sampleExternals sampleKdf sampleFleet sampleSteps).vaults true

end Samples

end Tethra.KeyConsistency
