import Tethra.KeyConsistency
import Tethra.SyncErrors
import Tethra.SyncFleets

set_option autoImplicit false

/-!
# Password changes on devices of one vault

A change of the password rewrites the header of one device and publishes it with an attestation
that names the header before. The others follow if theirs is that header, and only then.
-/
namespace Tethra.PasswordChanges
open AtomicPrograms AuthenticatedEncryption Base64Strings Failures StatefulActions SyncEngine
open SyncErrors SyncFileBackend SyncItems VaultCrypto VaultKeys VaultState VaultTypes
open KeyConsistency (sampleKdf)
open KeyedTables (Table)
open SyncFleets (Fleet syncOutcome)

/-! ## Runs -/

/-- `vault_change_password`: what follows needs the header from before. -/
def changeAndPublish (aead : Aead KeyBytes) (kdf : Kdf) (current newPassword : Bytes) :
    EngineM FileBackend Unit := do
  let previous ← Program.attempt exportSyncHeader
  onVault (changePassword aead kdf current newPassword)
  match previous with
  | .ok previous => publishPasswordRekey aead fileBackend previous
  | .error _ => pure ()

inductive Step (D : Type) where
  | changePassword (d : D) (current newPassword : Bytes)
  | recoverWithNewPassword (d : D) (newPassword : Bytes)
  | lock (d : D)
  | unlock (d : D) (password : Bytes)
  | wait (d : D) (time : Instant)
  | syncNow (d : D)

section Runs
variable (aead : Aead KeyBytes) (kdf : Kdf) (b64 : Base64) {D : Type} [DecidableEq D]

def place (x : Fleet D) (d : D) (t : Engine × FileBackend) : Fleet D :=
  ⟨Function.update x.devices d t.1, t.2⟩

/-- An action of one device. -/
def act {α : Type} (x : Fleet D) (d : D) (m : Action (Engine × FileBackend) Error α) : Fleet D :=
  place x d (m (x.devices d, x.backend)).2

def perform (x : Fleet D) : Step D → Fleet D
  | .changePassword d current newPassword =>
    act x d (changeAndPublish aead kdf current newPassword).run
  | .recoverWithNewPassword d newPassword =>
    act x d (vaultAction (recoverWithNewPassword aead kdf newPassword))
  | .lock d => act x d (vaultAction lock)
  | .unlock d password => act x d (vaultAction (unlock aead kdf password))
  | .wait d time => act x d (vaultAction (Action.update fun v =>
      { v with world.now := v.world.now + time }))
  | .syncNow d => act x d (syncNow aead b64 fileBackend).run

def run (x : Fleet D) (steps : List (Step D)) : Fleet D := steps.foldl (perform aead kdf b64) x

def header (x : Fleet D) (d : D) : Option VaultHeader := (x.devices d).vault.db.header

/-- Both devices have a header, of one vault. -/
def SameHeader (a b : Option VaultHeader) : Prop :=
  ∃ x y, a = some x ∧ b = some y ∧ sameVault (exportHeader x) (exportHeader y) = true

/-- The device has the header that the directory has. -/
def Equal (s : Engine × FileBackend) : Prop :=
  ∃ remote own, s.2.header = some (.ok remote) ∧ s.1.vault.db.header = some own ∧
    sameVault remote (exportHeader own) = true

/-- The header that device `d` has in `y` is the one that the directory holds, and every other
device has the one that `d` had in `x`; or there is nobody else, and nothing is published. -/
def Followed (x y : Fleet D) (d : D) : Prop :=
  (Equal (y.devices d, y.backend) ∧ ∀ e, e ≠ d → SameHeader (header x e) (header x d)) ∨
    (y.backend.header = none ∧ ∀ e, e = d)

/-- The password stays as it is, or the others can follow. -/
def Coordinated (x : Fleet D) (step : Step D) : Prop :=
  match step with
  | .changePassword d _ _ | .recoverWithNewPassword d _ =>
    (header (perform aead kdf b64 x step) d = header x d ∧
        (perform aead kdf b64 x step).backend.header = x.backend.header) ∨
      Followed x (perform aead kdf b64 x step) d
  | _ => True

def Along : Fleet D → List (Step D) → Prop
  | _, [] => True
  | x, step :: steps =>
    Coordinated aead kdf b64 x step ∧ Along (perform aead kdf b64 x step) steps

/-- Header, recovery wrap and memory hold one key. -/
structure Holder (key : VaultKey) (v : Vault) : Prop where
  wraps : ∃ own, v.db.header = some own ∧ Wraps aead kdf own key ∧
    ∀ other, Recovers aead own other → other = key
  unlocked : ∀ other auth t, v.state = .unlocked other auth t → other = key

/-- Devices of one vault with one header, and a directory without a header or with it. -/
structure Fresh (key : VaultKey) (x : Fleet D) : Prop where
  holds : ∀ d, Holder aead kdf key (x.devices d).vault
  storage : ∀ d, Storage (x.devices d).vault
  same : ∀ d e, SameHeader (header x d) (header x e)
  remote : ∀ content, x.backend.header = some content → ∃ remote, content = .ok remote ∧
    Wraps aead kdf (importHeader remote) key ∧
    ∀ d own, header x d = some own → sameVault remote (exportHeader own) = true

/-- The device has the published header, or the one the published header attests. -/
def Follows (key : VaultKey) (remote own : SyncedVaultHeader) : Prop :=
  sameVault remote own = true ∨ verifyRekeyAttestation aead key own remote = .ok true

structure Agreed (key : VaultKey) (x : Fleet D) : Prop where
  holds : ∀ d, Holder aead kdf key (x.devices d).vault
  storage : ∀ d, Storage (x.devices d).vault
  unpublished : x.backend.header = none → ∀ d e, SameHeader (header x d) (header x e)
  published : ∀ content, x.backend.header = some content → ∃ remote, content = .ok remote ∧
    Wraps aead kdf (importHeader remote) key ∧
    ∀ d own, header x d = some own → Follows aead key remote (exportHeader own)

end Runs

/-! ## One sync -/

section Syncs
variable {aead : Aead KeyBytes} {kdf : Kdf} {key : VaultKey} {s t : Engine × FileBackend}

/-- After an action that leaves the headers alone the sequence has failed, or goes on. -/
theorem steady_then {α β : Type} {m : Action (Engine × FileBackend) Error α}
    {f : α → Action (Engine × FileBackend) Error β} (hm : m.Within Steady) {s₀ : Engine × FileBackend}
    (h₀ : Steady s₀ s) {r : Except Error β} (h : (m >>= f) s = (r, t)) :
    (∃ e, r = .error e ∧ Steady s₀ t) ∨
      ∃ a u, m s = (.ok a, u) ∧ Steady s₀ u ∧ f a u = (r, t) := by
  have hsteady := hm s
  rcases hrun : m s with ⟨q, u⟩
  rw [hrun] at hsteady
  cases q with
  | error e =>
    rw [Action.bind_error hrun] at h
    cases h
    exact Or.inl ⟨e, rfl, h₀.trans hsteady⟩
  | ok a =>
    rw [Action.bind_ok hrun] at h
    exact Or.inr ⟨a, u, rfl, h₀.trans hsteady, h⟩

theorem steady_getHeader : (backendAction FileBackend.getHeader).Within Steady :=
  (plain_backend fails_getHeader fun f =>
    FileBackend.header_of_stored (FileBackend.leaves_getHeader f)).2

theorem steady_exportSyncHeader :
    (exportSyncHeader : EngineM FileBackend SyncedVaultHeader).run.Within Steady := by
  intro s
  obtain ⟨hdb, hstate, -, hbackend, -⟩ := exportSyncHeader_ends s
  exact ⟨congrArg VaultDb.header hdb, congrArg FileBackend.header hbackend,
    fun key auth i h => ⟨auth, i, hstate.symm.trans h⟩⟩

theorem exportSyncHeader_ok {header : SyncedVaultHeader}
    (h : (exportSyncHeader : EngineM FileBackend SyncedVaultHeader).run s = (.ok header, t)) :
    ∃ old, s.1.vault.db.header = some old ∧ header = exportHeader old := by
  have hends := exportSyncHeader_ends s
  rw [Action.Ends, h] at hends
  exact hends.2.2.2.2 header rfl

/-- The device holds the key, and follows the header of the directory. -/
def Meeting (aead : Aead KeyBytes) (kdf : Kdf) (key : VaultKey) (s : Engine × FileBackend) : Prop :=
  Holder aead kdf key s.1.vault ∧ ∀ content, s.2.header = some content → ∃ remote,
    content = .ok remote ∧ Wraps aead kdf (importHeader remote) key ∧
      ∀ own, s.1.vault.db.header = some own → Follows aead key remote (exportHeader own)

theorem Holder.of_header {v w : Vault} (h : Holder aead kdf key v) (hheader : w.db.header = v.db.header)
    (hkey : ∀ other auth i, w.state = .unlocked other auth i →
      ∃ auth' i', v.state = .unlocked other auth' i') : Holder aead kdf key w where
  wraps := by
    rw [hheader]
    exact h.wraps
  unlocked other auth i hw := by
    obtain ⟨auth', i', hv⟩ := hkey other auth i hw
    exact h.unlocked other auth' i' hv

theorem Meeting.steady (h : Meeting aead kdf key s) (hst : Steady s t) : Meeting aead kdf key t := by
  refine ⟨h.1.of_header hst.1 hst.2.2, fun content hcontent => ?_⟩
  rw [hst.2.1] at hcontent
  rw [hst.1]
  exact h.2 content hcontent

theorem Equal.steady (h : Equal s) (hst : Steady s t) : Equal t := by
  obtain ⟨remote, own, hremote, hown, hsame⟩ := h
  exact ⟨remote, own, hst.2.1.trans hremote, hst.1.trans hown, hsame⟩

/-- A device that adopts the header of the directory has it, and keeps its key. -/
theorem Meeting.adopted (hs : Meeting aead kdf key s) {old : VaultHeader} {remote : SyncedVaultHeader}
    (hold : s.1.vault.db.header = some old) (hremote : s.2.header = some (.ok remote)) (n : ℕ) :
    Equal ({ s.1 with vault := { s.1.vault with
        db := s.1.vault.db.writeHeader (adoptHeader old remote), world.draws := n } }, s.2) ∧
      Meeting aead kdf key ({ s.1 with vault := { s.1.vault with
        db := s.1.vault.db.writeHeader (adoptHeader old remote), world.draws := n } }, s.2) := by
  have hsame : sameVault remote (exportHeader (adoptHeader old remote)) = true :=
    sameVault_iff.2 ⟨rfl, rfl, rfl⟩
  obtain ⟨own, hown, -, hrecovers⟩ := hs.1.wraps
  rw [hold, Option.some.injEq] at hown
  subst hown
  obtain ⟨remote', hcontent, hwraps, -⟩ := hs.2 _ hremote
  cases hcontent
  -- the recovery wrap is the one it had
  refine ⟨⟨remote, adoptHeader old remote, hremote, rfl, hsame⟩,
    ⟨⟨adoptHeader old remote, rfl, hwraps, hrecovers⟩, hs.1.unlocked⟩, fun content hcontent => ?_⟩
  have hcontent : s.2.header = some content := hcontent
  rw [hremote, Option.some.injEq] at hcontent
  refine ⟨remote, hcontent.symm, hwraps, fun own hown => Or.inl ?_⟩
  cases hown
  exact hsame

/-- What the adoption leaves: nothing has changed, or the device has the published header. -/
theorem adopt_ends (hs : Meeting aead kdf key s) {r : Except Error Unit}
    (h : (adoptRemoteRekeyIfNeeded aead fileBackend).run s = (r, t)) :
    t.2.header = s.2.header ∧ Meeting aead kdf key t ∧
      (t.1.vault.db.header = s.1.vault.db.header ∨ Equal t) ∧
      (r = .ok () → t.2.header = none ∨ Equal t) := by
  have hkept : ∀ {u}, Steady s u → ∀ e : Error, r = .error e → u = t → t.2.header = s.2.header ∧
      Meeting aead kdf key t ∧ (t.1.vault.db.header = s.1.vault.db.header ∨ Equal t) ∧
      (r = .ok () → t.2.header = none ∨ Equal t) := by
    rintro u hu e rfl rfl
    exact ⟨hu.2.1, hs.steady hu, Or.inl hu.1, fun h => by cases h⟩
  unfold adoptRemoteRekeyIfNeeded at h
  rw [Program.run_bind] at h
  obtain ⟨e, he, hst⟩ | ⟨found, u, hfound, hu, h⟩ := steady_then
    (m := (onBackend FileBackend.getHeader).run) (by rw [onBackend, Program.run_lift]; exact
      steady_getHeader) (Steady.refl s) h
  · exact hkept hst e he rfl
  obtain ⟨hget, -⟩ := onBackend_eq_ok hfound
  have hremote := (FileBackend.getHeader_eq_ok hget).2
  cases found with
  | none =>
    obtain ⟨rfl, rfl⟩ := Prod.mk.inj h
    exact ⟨hu.2.1, hs.steady hu, Or.inl hu.1, fun _ => Or.inl (hu.2.1.trans hremote)⟩
  | some remote =>
    obtain ⟨remote', hcontent, hwraps, hfollows⟩ := hs.2 _ hremote
    cases hcontent
    rw [Program.run_bind] at h
    obtain ⟨e, he, hst⟩ | ⟨header, w, hheader, hw, h⟩ := steady_then steady_exportSyncHeader hu h
    · exact hkept hst e he rfl
    obtain ⟨old, hold, rfl⟩ := exportSyncHeader_ok hheader
    rw [hu.1] at hold
    by_cases hsame : sameVault remote (exportHeader old) = true
    · rw [if_pos hsame] at h
      obtain ⟨rfl, rfl⟩ := Prod.mk.inj h
      refine ⟨hw.2.1, hs.steady hw, Or.inl hw.1, fun _ => Or.inr ⟨remote, old, ?_, ?_, hsame⟩⟩
      · exact hw.2.1.trans hremote
      · exact hw.1.trans hold
    rw [if_neg hsame, Program.run_bind] at h
    obtain ⟨e, he, hst⟩ | ⟨other, x, hother, hx, h⟩ := steady_then
      (m := (onVault requireKey).run) (by rw [onVault, Program.run_lift]; exact plain_requireKey.2)
        hw h
    · exact hkept hst e he rfl
    have hkey : other = key := by
      rw [onVault_run, Prod.mk.injEq] at hother
      obtain ⟨auth, i, hstate, -⟩ := requireKey_eq_ok (Prod.ext hother.1 rfl)
      exact (hs.steady hw).1.unlocked other auth i hstate
    have hverify : verifyRekeyAttestation aead other (exportHeader old) remote = .ok true := by
      rw [hkey]
      exact (hfollows old hold).resolve_left hsame
    rw [Program.run_bind, hverify, Program.run_lift] at h
    change (adoptSyncHeader remote : EngineM FileBackend Unit).run x = (r, t) at h
    rw [adoptSyncHeader, Program.run_bind] at h
    obtain ⟨e, he, hst⟩ | ⟨old', y, hread, hy, h⟩ := steady_then
      (m := (onVault (withDb VaultDb.readHeader)).run)
      (by rw [onVault, Program.run_lift]; exact (plain_withDb readHeader_error).2) hx h
    · exact hkept hst e he rfl
    have hold' : old' = old := by
      rw [onVault_run, Prod.mk.injEq] at hread
      have hheader := readHeader_run (Prod.ext hread.1 rfl)
      rw [hx.1, hold, Option.some.injEq] at hheader
      exact hheader.symm
    rw [hold'] at h
    rw [onVault_run, Prod.mk.injEq] at h
    obtain ⟨hr, rfl⟩ := h
    obtain ⟨e, he⟩ | hok := withDbMut_cases (fun db => db.writeHeader (adoptHeader old remote))
      y.1.vault
    · rw [he] at hr
      refine hkept ?_ e hr.symm rfl
      rw [he]
      exact ⟨hy.1, hy.2.1, hy.2.2⟩
    · rw [hok]
      obtain ⟨hequal, hmeeting⟩ := (hs.steady hy).adopted (hy.1.trans hold) (hy.2.1.trans hremote)
        (y.1.vault.world.draws + 1)
      exact ⟨hy.2.1, hmeeting, Or.inr hequal, fun _ => Or.inr hequal⟩

theorem sameVault_trans {a b c : SyncedVaultHeader} (h : sameVault a b = true)
    (h' : sameVault b c = true) : sameVault a c = true := by
  obtain ⟨hsalt, hargon, hkey⟩ := sameVault_iff.1 h
  obtain ⟨hsalt', hargon', hkey'⟩ := sameVault_iff.1 h'
  exact sameVault_iff.2 ⟨hsalt.trans hsalt', hargon.trans hargon', hkey.trans hkey'⟩

/-- A header in the directory that the device has already, or none. -/
theorem Meeting.publish (hs : Meeting aead kdf key s) {own : VaultHeader}
    (hown : s.1.vault.db.header = some own) {f : FileBackend}
    (hf : f.header = some (.ok (exportHeader own))) :
    Equal (s.1, f) ∧ Meeting aead kdf key (s.1, f) := by
  refine ⟨⟨exportHeader own, own, hf, hown, sameVault_refl _⟩, hs.1, fun content hcontent => ?_⟩
  have hcontent : content = .ok (exportHeader own) :=
    Option.some.inj ((show f.header = some content from hcontent).symm.trans hf)
  obtain ⟨own', hown', hwraps, -⟩ := hs.1.wraps
  rw [hown, Option.some.injEq] at hown'
  subst hown'
  refine ⟨exportHeader own, hcontent, hwraps, fun other hother => Or.inl ?_⟩
  rw [show s.1.vault.db.header = some other from hother, Option.some.injEq] at hown
  rw [hown]
  exact sameVault_refl _

/-- Over the header it has, or none, a device publishes or finds its header. -/
theorem publish_ends (hs : Meeting aead kdf key s) (hequal : s.2.header = none ∨ Equal s)
    {r : Except Error Unit} (h : (publishHeader fileBackend).run s = (r, t)) :
    t.1.vault.db.header = s.1.vault.db.header ∧ Meeting aead kdf key t ∧
      (t.2.header = s.2.header ∨ (s.2.header = none ∧ Equal t)) ∧ (r = .ok () → Equal t) ∧
      (Storage s.1.vault → Storage t.1.vault ∧ ∀ e, r = .error e → Other e) := by
  have hexport := fails_run (I := fun s : Engine × FileBackend => Storage s.1.vault)
    each_exportSyncHeader s
  unfold publishHeader at h
  rw [Program.run_bind] at h
  rcases hrun : (exportSyncHeader : EngineM FileBackend SyncedVaultHeader).run s with ⟨q, u⟩
  have hu := steady_exportSyncHeader s
  rw [hrun] at hu hexport
  cases q with
  | error e =>
    rw [Action.bind_error hrun] at h
    obtain ⟨rfl, rfl⟩ := Prod.mk.inj h
    refine ⟨hu.1, hs.steady hu, Or.inl hu.2.1, fun h => (by cases h), fun hstorage => ?_⟩
    exact ⟨(hexport hstorage).1, fun e' he => (hexport hstorage).2 e' (by cases he; rfl)⟩
  | ok header =>
  obtain ⟨own, hown, rfl⟩ := exportSyncHeader_ok hrun
  rw [Action.bind_ok hrun, Program.run_bind] at h
  have hget : EngineFails (backendAction FileBackend.getHeader) :=
    fails_backendAction fails_getHeader
  have hw := hu.trans (steady_getHeader u)
  have hget := hget u
  rcases hfound : backendAction FileBackend.getHeader u with ⟨q, w⟩
  have hfound' : (onBackend fileBackend.getHeader).run u = (q, w) := by
    rw [onBackend, Program.run_lift]
    exact hfound
  rw [hfound] at hget hw
  cases q with
  | error e =>
    rw [Action.bind_error hfound'] at h
    obtain ⟨rfl, rfl⟩ := Prod.mk.inj h
    refine ⟨hw.1, hs.steady hw, Or.inl hw.2.1, fun h => (by cases h), fun hstorage => ?_⟩
    have hend := hget (hexport hstorage).1
    exact ⟨hend.1, fun e' he => hend.2 e' (by cases he; rfl)⟩
  | ok found =>
  rw [Action.bind_ok hfound'] at h
  have hremote := (FileBackend.getHeader_eq_ok (onBackend_eq_ok hfound').1).2
  rw [hu.2.1] at hremote
  cases found with
  | some remote =>
    have hequal : Equal s := hequal.resolve_left fun hnone => by
      rw [hnone] at hremote
      cases hremote
    have hsame : sameVault remote (exportHeader own) = true := by
      obtain ⟨remote', own', hremote', hown', hsame⟩ := hequal
      rw [hremote] at hremote'
      rw [hown] at hown'
      cases hremote'
      cases hown'
      exact hsame
    unfold publishOver at h
    dsimp only at h
    rw [if_pos hsame] at h
    obtain ⟨rfl, rfl⟩ := Prod.mk.inj h
    exact ⟨hw.1, hs.steady hw, Or.inl hw.2.1, fun _ => hequal.steady hw,
      fun hstorage => ⟨(hget (hexport hstorage).1).1, fun _ h => by cases h⟩⟩
  | none =>
    change (onBackend (fileBackend.putHeader (exportHeader own))).run w = (r, t) at h
    rw [onBackend_run] at h
    obtain ⟨rfl, rfl⟩ := Prod.mk.inj h
    obtain ⟨-, hput, -, hok⟩ := FileBackend.putHeader_spec (exportHeader own) w.2
    have hfails : Storage s.1.vault → Storage w.1.vault ∧ ∀ e,
        (fileBackend.putHeader (exportHeader own) w.2).1 = .error e → Other e :=
      fun hstorage => ⟨(hget (hexport hstorage).1).1, (fails_putHeader _ w.2 trivial).2⟩
    have hown' := hw.1.trans hown
    obtain hold | hnew := hput
    · have hback : Steady s (w.1, (fileBackend.putHeader (exportHeader own) w.2).2) :=
        ⟨hw.1, hold.trans hw.2.1, hw.2.2⟩
      exact ⟨hw.1, hs.steady hback, Or.inl (hold.trans hw.2.1),
        fun h => ((hs.steady hw).publish hown' (hok () h).1).1, hfails⟩
    · have hend := (hs.steady hw).publish hown' hnew
      exact ⟨hw.1, hend.2, Or.inr ⟨hremote, hend.1⟩, fun _ => hend.1, hfails⟩

theorem Equal.congr (h : Equal s) (hown : t.1.vault.db.header = s.1.vault.db.header)
    (hremote : t.2.header = s.2.header) : Equal t := by
  obtain ⟨remote, own, hr, ho, hsame⟩ := h
  exact ⟨remote, own, hremote.trans hr, hown.trans ho, hsame⟩

/-- The directory keeps its header, which the device may take over, or gets the device's where it
had none. -/
def Synced (s t : Engine × FileBackend) : Prop :=
  (t.2.header = s.2.header ∧ (t.1.vault.db.header = s.1.vault.db.header ∨ Equal t)) ∨
    (s.2.header = none ∧ t.1.vault.db.header = s.1.vault.db.header ∧ Equal t)

theorem Synced.steady {u : Engine × FileBackend} (h : Synced s t) (hu : Steady t u) :
    Synced s u := by
  obtain ⟨hback, hown | hequal⟩ | ⟨hnone, hown, hequal⟩ := h
  · exact Or.inl ⟨hu.2.1.trans hback, Or.inl (hu.1.trans hown)⟩
  · exact Or.inl ⟨hu.2.1.trans hback, Or.inr (hequal.steady hu)⟩
  · exact Or.inr ⟨hnone, hu.1.trans hown, hequal.steady hu⟩

theorem Synced.of_steady {u : Engine × FileBackend} (hu : Synced t u) (h : Steady s t) :
    Synced s u := by
  obtain ⟨hback, hown | hequal⟩ | ⟨hnone, hown, hequal⟩ := hu
  · exact Or.inl ⟨hback.trans h.2.1, Or.inl (hown.trans h.1)⟩
  · exact Or.inl ⟨hback.trans h.2.1, Or.inr hequal⟩
  · exact Or.inr ⟨h.2.1.symm.trans hnone, hown.trans h.1, hequal⟩

/-- What a sync leaves when it ends in `r`. -/
structure SyncEnds (aead : Aead KeyBytes) (kdf : Kdf) (key : VaultKey) (s t : Engine × FileBackend)
    {α : Type} (r : Except Error α) : Prop where
  meeting : Meeting aead kdf key t
  synced : Synced s t
  equal : ∀ a, r = .ok a → Equal t
  storage : Storage t.1.vault
  other : ∀ e, r = .error e → Other e

variable {b64 : Base64}

theorem steady_exchangeItems (b64 : Base64) : (exchangeItems b64 fileBackend).run.Within Steady :=
  Program.Each.within Steady.refl (fun h h' => h.trans h')
    (Program.Each.mono (fun hm => hm.2) each_exchangeItems)

theorem exchangeItems_ends (hs : Meeting aead kdf key s) (hequal : Equal s)
    (hstorage : Storage s.1.vault) {r : Except Error SyncReport}
    (h : (exchangeItems b64 fileBackend).run s = (r, t)) : SyncEnds aead kdf key s t r := by
  have hfails := fails_run (Program.Each.mono (fun hm => hm.1) (@each_exchangeItems b64)) s hstorage
  have hsteady := steady_exchangeItems b64 s
  rw [h] at hfails hsteady
  exact ⟨hs.steady hsteady, Or.inl ⟨hsteady.2.1, Or.inl hsteady.1⟩,
    fun _ _ => hequal.steady hsteady, hfails.1, hfails.2⟩

/-- After the header is settled on both sides, only items go over. -/
theorem publishHeader_then (hs : Meeting aead kdf key s) (hequal : s.2.header = none ∨ Equal s)
    (hstorage : Storage s.1.vault) {r : Except Error SyncReport}
    (h : (publishHeader fileBackend >>= fun _ => exchangeItems b64 fileBackend).run s = (r, t)) :
    SyncEnds aead kdf key s t r := by
  rw [Program.run_bind] at h
  rcases hpublish : (publishHeader fileBackend).run s with ⟨q, u⟩
  obtain ⟨hown, hmeeting, hback, hok, hrest⟩ := publish_ends hs hequal hpublish
  obtain ⟨hu, hother⟩ := hrest hstorage
  have hsynced : Synced s u := by
    obtain hsame | ⟨hnone, hequal⟩ := hback
    · exact Or.inl ⟨hsame, Or.inl hown⟩
    · exact Or.inr ⟨hnone, hown, hequal⟩
  cases q with
  | error e =>
    rw [Action.bind_error hpublish] at h
    cases h
    exact ⟨hmeeting, hsynced, fun _ h => (by cases h), hu, fun e' he => hother e' (by cases he; rfl)⟩
  | ok u' =>
    rw [Action.bind_ok hpublish] at h
    have hend := exchangeItems_ends hmeeting (hok rfl) hu h
    have hsteady := steady_exchangeItems b64 u
    rw [h] at hsteady
    exact ⟨hend.meeting, hsynced.steady hsteady, hend.equal, hend.storage, hend.other⟩

theorem Synced.adopted {u : Engine × FileBackend} (hback : u.2.header = s.2.header)
    (hown : u.1.vault.db.header = s.1.vault.db.header ∨ Equal u) (h : Synced u t) : Synced s t := by
  obtain hsame | ⟨remote, own, hremote, hheader, hequal⟩ := hown
  · obtain ⟨hback', hown' | hequal⟩ | ⟨hnone, hown', hequal⟩ := h
    · exact Or.inl ⟨hback'.trans hback, Or.inl (hown'.trans hsame)⟩
    · exact Or.inl ⟨hback'.trans hback, Or.inr hequal⟩
    · exact Or.inr ⟨hback.symm.trans hnone, hown'.trans hsame, hequal⟩
  · obtain ⟨hback', hown' | hequal⟩ | ⟨hnone, -, -⟩ := h
    · exact Or.inl ⟨hback'.trans hback,
        Or.inr (Equal.congr ⟨remote, own, hremote, hheader, hequal⟩ hown' hback')⟩
    · exact Or.inl ⟨hback'.trans hback, Or.inr hequal⟩
    · rw [hremote] at hnone
      cases hnone

theorem syncNowInner_ends (hs : Meeting aead kdf key s) (hstorage : Storage s.1.vault)
    {r : Except Error SyncReport} (h : (syncNowInner aead b64 fileBackend).run s = (r, t)) :
    SyncEnds aead kdf key s t r := by
  unfold syncNowInner at h
  rw [Program.run_bind] at h
  have hfails := fails_run (each_adoptRemoteRekey aead) s hstorage
  rcases hadopt : (adoptRemoteRekeyIfNeeded aead fileBackend).run s with ⟨q, u⟩
  rw [hadopt] at hfails
  obtain ⟨hback, hmeeting, hown, hok⟩ := adopt_ends hs hadopt
  cases q with
  | error e =>
    rw [Action.bind_error hadopt] at h
    cases h
    exact ⟨hmeeting, Or.inl ⟨hback, hown⟩, fun _ h => (by cases h), hfails.1,
      fun e' he => hfails.2 e' (by cases he; rfl)⟩
  | ok u' =>
    rw [Action.bind_ok hadopt] at h
    have hend := publishHeader_then hmeeting (hok rfl) hfails.1 h
    exact ⟨hend.meeting, hend.synced.adopted hback hown, hend.equal, hend.storage, hend.other⟩

theorem plain_isUnlocked : Plain (vaultAction isUnlocked) := by
  refine ⟨fails_vaultAction fails_isUnlocked, fun s => ⟨?_, rfl, (sameRows_isUnlocked s.1.vault).2⟩⟩
  exact congrArg VaultDb.header (leaves_isUnlocked (f := Vault.db) (fun _ _ => rfl) s.1.vault)

/-- From a device that follows the directory a sync reports no mismatch. -/
theorem syncNow_ends (hs : Meeting aead kdf key s) (hstorage : Storage s.1.vault)
    {r : Except Error SyncReport} (h : (syncNow aead b64 fileBackend).run s = (r, t)) :
    SyncEnds aead kdf key s t r := by
  unfold syncNow at h
  rw [Program.run_bind, onVault, Program.run_lift] at h
  have hfails := plain_isUnlocked.1 s hstorage
  have hsteady := plain_isUnlocked.2 s
  rcases hunlocked : vaultAction isUnlocked s with ⟨q, u⟩
  rw [hunlocked] at hfails hsteady
  cases q with
  | error e =>
    rw [Action.bind_error hunlocked] at h
    cases h
    exact ⟨hs.steady hsteady, Or.inl ⟨hsteady.2.1, Or.inl hsteady.1⟩, fun _ h => (by cases h),
      hfails.1, fun e' he => hfails.2 e' (by cases he; rfl)⟩
  | ok unlocked =>
    rw [Action.bind_ok hunlocked] at h
    cases unlocked with
    | true =>
      have hend := syncNowInner_ends (hs.steady hsteady) hfails.1 h
      exact ⟨hend.meeting, hend.synced.of_steady hsteady, hend.equal, hend.storage, hend.other⟩
    | false =>
      obtain ⟨rfl, rfl⟩ := Prod.mk.inj h
      exact ⟨hs.steady hsteady, Or.inl ⟨hsteady.2.1, Or.inl hsteady.1⟩, fun _ h => (by cases h),
        hfails.1, fun e he => by cases he; exact fun h => by cases h⟩

end Syncs

/-! ## One change of the password -/

section Changes
variable {aead : Aead KeyBytes} {kdf : Kdf} {key : VaultKey} {v w : Vault} {s t : Engine × FileBackend}

theorem Holder.untouched (h : Holder aead kdf key v) (hw : Untouched v w) :
    Holder aead kdf key w :=
  h.of_header (congrArg VaultDb.header hw.1) fun _ auth i hs => ⟨auth, i, hw.2.symm.trans hs⟩

theorem Holder.of_status (h : Holder aead kdf key v) {r : Except Error VaultStatus}
    (hs : status v = (r, w)) : Holder aead kdf key w := by
  obtain ⟨hdb, hstate | hstate⟩ := status_views hs
  · exact h.untouched ⟨hdb, hstate⟩
  · refine h.of_header (congrArg VaultDb.header hdb) fun _ _ _ hs => ?_
    rw [hstate] at hs
    cases hs

theorem Holder.rewrapped (h : Holder aead kdf key v) {old next : VaultHeader}
    {vaultKey : VaultKey} {password : Bytes} {derived : DerivedKeys} (hold : v.db.header = some old)
    (hkey : vaultKey = key) (hnext : Rewrapped aead kdf old vaultKey password v w derived next) :
    Holder aead kdf key w where
  wraps := by
    subst hkey
    refine ⟨next, by rw [hnext.db]; rfl, hnext.wraps, fun other hother => ?_⟩
    obtain ⟨own, hown, -, hrecovers⟩ := h.wraps
    rw [hold, Option.some.injEq] at hown
    subst hown
    obtain ⟨blob, recovery, hblob, hopen⟩ := hother
    exact hrecovers other ⟨blob, recovery, hnext.recovery.symm.trans hblob, hopen⟩
  unlocked other auth i hs := by
    obtain ⟨i', hstate⟩ := hnext.state
    rw [hstate] at hs
    cases hs
    exact hkey

theorem Holder.changed (hi : Ideal aead) (h : Holder aead kdf key v) {current password : Bytes}
    {r : Except Error Unit} (hrun : changePassword aead kdf current password v = (r, w)) :
    Holder aead kdf key w := by
  obtain ⟨e, -, hw⟩ | ⟨-, old, vaultKey, derived, next, hold, hwraps, hnext⟩ :=
    changePassword_spec hi hrun
  · exact h.untouched hw
  · obtain ⟨own, hown, hkey, -⟩ := h.wraps
    rw [hold, Option.some.injEq] at hown
    subst hown
    exact h.rewrapped hold (hkey.unique hi hwraps) hnext

theorem Holder.recovered (hi : Ideal aead) (h : Holder aead kdf key v) {password : Bytes}
    {r : Except Error VaultStatus}
    (hrun : recoverWithNewPassword aead kdf password v = (r, w)) : Holder aead kdf key w := by
  obtain ⟨e, -, hw⟩ | ⟨u, old, vaultKey, derived, next, hold, hrecovers, hnext, hstatus⟩ :=
    recoverWithNewPassword_spec hi hrun
  · exact h.untouched hw
  · obtain ⟨own, hown, -, hkey⟩ := h.wraps
    rw [hold, Option.some.injEq] at hown
    subst hown
    exact (h.rewrapped hold (hkey vaultKey hrecovers) hnext).of_status hstatus

theorem Holder.opened (hi : Ideal aead) (h : Holder aead kdf key v) {password : Bytes}
    {r : Except Error VaultStatus} (hrun : unlock aead kdf password v = (r, w)) :
    Holder aead kdf key w ∧ w.db.header = v.db.header := by
  obtain ⟨e, -, hw⟩ | ⟨u, old, vaultKey, derived, i, hold, hderive, hunwrap, hdb, hstate,
    hstatus⟩ := unlock_spec hrun
  · exact ⟨h.untouched hw, congrArg VaultDb.header hw.1⟩
  · obtain ⟨own, hown, hkey, hrecovers⟩ := h.wraps
    rw [hold, Option.some.injEq] at hown
    subst hown
    have hu : Holder aead kdf key u := by
      refine ⟨⟨old, (congrArg VaultDb.header hdb).trans hold, hkey, hrecovers⟩,
        fun other auth i' hs => ?_⟩
      rw [hstate] at hs
      cases hs
      exact hkey.unique hi ⟨password, derived, hderive, hunwrap⟩
    exact ⟨hu.of_status hstatus, congrArg VaultDb.header ((status_views hstatus).1.trans hdb)⟩

theorem steady_onVault {α : Type} {m : VaultM α} (hm : Reads m) :
    (onVault m : EngineM FileBackend α).run.Within Steady := by
  intro s
  obtain ⟨hdb, hstate⟩ := hm s.1.vault
  rw [onVault_run]
  exact ⟨congrArg VaultDb.header hdb, rfl, fun _ auth i h => ⟨auth, i, hstate.symm.trans h⟩⟩

/-- What the directory holds after a re-key: the header it held, or one that attests the header
before. -/
def Attests (aead : Aead KeyBytes) (key : VaultKey) (previous : SyncedVaultHeader)
    (s t : Engine × FileBackend) : Prop :=
  t.2.header = s.2.header ∨ ∃ remote, t.2.header = some (.ok remote) ∧
    verifyRekeyAttestation aead key previous remote = .ok true

theorem publishPasswordRekey_ends (hi : Ideal aead) (hs : Holder aead kdf key s.1.vault)
    {previous : SyncedVaultHeader} {r : Except Error Unit}
    (h : (publishPasswordRekey aead fileBackend previous).run s = (r, t)) :
    Holder aead kdf key t.1.vault ∧ Attests aead key previous s t := by
  have hkept : ∀ {u}, Steady s u → u = t →
      Holder aead kdf key t.1.vault ∧ Attests aead key previous s t := by
    rintro u hu rfl
    exact ⟨hs.of_header hu.1 hu.2.2, Or.inl hu.2.1⟩
  unfold publishPasswordRekey at h
  rw [Program.run_bind] at h
  obtain ⟨e, -, hst⟩ | ⟨vaultKey, u, hkey, hu, h⟩ := steady_then
    (m := (onVault requireKey).run) (by rw [onVault, Program.run_lift]; exact plain_requireKey.2)
      (Steady.refl s) h
  · exact hkept hst rfl
  have hkey : vaultKey = key := by
    rw [onVault_run, Prod.mk.injEq] at hkey
    obtain ⟨auth, i, hstate, -⟩ := requireKey_eq_ok (Prod.ext hkey.1 rfl)
    exact hs.unlocked vaultKey auth i hstate
  subst hkey
  rw [Program.run_bind] at h
  obtain ⟨e, -, hst⟩ | ⟨next, u2, -, hu2, h⟩ := steady_then steady_exportSyncHeader hu h
  · exact hkept hst rfl
  rw [Program.run_bind] at h
  obtain ⟨e, -, hst⟩ | ⟨nonce, u3, -, hu3, h⟩ := steady_then (steady_onVault (reads_draw _)) hu2 h
  · exact hkept hst rfl
  rw [Program.run_bind, Program.run_lift] at h
  obtain ⟨e, -, hst⟩ | ⟨rekey, u4, hrekey, hu4, h⟩ := steady_then (m := Action.ofExcept _)
    Steady.refl hu3 h
  · exact hkept hst rfl
  obtain ⟨hmatches, hseal⟩ := buildRekeyFrom_eq_ok.1 (Action.ofExcept_eq_ok.1 hrekey).1
  rw [onBackend_run] at h
  obtain ⟨-, rfl⟩ := Prod.mk.inj h
  refine ⟨hs.of_header hu4.1 hu4.2.2, ?_⟩
  obtain ⟨-, hold | hnew, -, -⟩ := FileBackend.putHeader_spec
    { next with rekeyFrom := some rekey } u4.2
  · exact Or.inl (hold.trans hu4.2.1)
  · refine Or.inr ⟨_, hnew, verifyRekeyAttestation_eq_ok_true.2 ⟨rekey, rfl, hmatches, ?_⟩⟩
    exact decryptRaw_encryptRaw hi.correct hseal

/-- A change keeps the key, and what it publishes attests the header before. -/
theorem changeAndPublish_ends (hi : Ideal aead) (hs : Holder aead kdf key s.1.vault)
    {current newPassword : Bytes} {r : Except Error Unit}
    (h : (changeAndPublish aead kdf current newPassword).run s = (r, t)) :
    Holder aead kdf key t.1.vault ∧ (t.2.header = s.2.header ∨ ∃ previous,
      s.1.vault.db.header = some previous ∧ Attests aead key (exportHeader previous) s t) := by
  unfold changeAndPublish at h
  rw [Program.run_bind] at h
  rcases hexport : (exportSyncHeader : EngineM FileBackend SyncedVaultHeader).run s with ⟨q, u⟩
  have hu := steady_exportSyncHeader s
  rw [hexport] at hu
  have hattempt : (Program.attempt (exportSyncHeader : EngineM FileBackend SyncedVaultHeader)).run s
      = (.ok q, u) := by
    rw [Program.run_attempt, hexport]
  rw [Action.bind_ok hattempt, Program.run_bind] at h
  have hholder := hs.of_header hu.1 hu.2.2
  rcases hchange : changePassword aead kdf current newPassword u.1.vault with ⟨q', w⟩
  have hrun : (onVault (changePassword aead kdf current newPassword) : EngineM FileBackend Unit).run u
      = (q', ({ u.1 with vault := w }, u.2)) := by
    rw [onVault_run, hchange]
  have hw := hholder.changed hi hchange
  cases q' with
  | error e =>
    rw [Action.bind_error hrun] at h
    obtain ⟨-, rfl⟩ := Prod.mk.inj h
    exact ⟨hw, Or.inl hu.2.1⟩
  | ok u' =>
    rw [Action.bind_ok hrun] at h
    cases q with
    | error e =>
      obtain ⟨-, rfl⟩ := Prod.mk.inj h
      exact ⟨hw, Or.inl hu.2.1⟩
    | ok previous =>
      obtain ⟨old, hold, rfl⟩ := exportSyncHeader_ok hexport
      obtain ⟨hend, hattests⟩ := publishPasswordRekey_ends hi hw h
      refine ⟨hend, Or.inr ⟨old, hold, ?_⟩⟩
      obtain hsame | hnew := hattests
      · exact Or.inl (hsame.trans hu.2.1)
      · exact Or.inr hnew

end Changes

/-! ## The faults of the database stay -/

section Faults
variable {aead : Aead KeyBytes} {kdf : Kdf}

abbrev LeavesFaults {α : Type} (m : VaultM α) : Prop := m.Leaves fun v => v.world.dbFaultAt

abbrev LeavesDeviceFaults {α : Type} (m : Action (Engine × FileBackend) Error α) : Prop :=
  m.Leaves fun s => s.1.vault.world.dbFaultAt

theorem leaves_rewrap (header : VaultHeader) (vaultKey : VaultKey) (password : Bytes) :
    LeavesFaults (rewrap aead kdf header vaultKey password) :=
  (leaves_draw (fun _ _ => rfl) _).bind fun _ => (Action.Leaves.ofExcept _).bind fun _ =>
    (leaves_draw (fun _ _ => rfl) _).bind fun _ => (Action.Leaves.ofExcept _).bind fun _ =>
      (leaves_withDbMut (fun _ _ => rfl) fun _ _ => rfl).bind fun _ =>
        Action.Leaves.update fun _ => rfl

theorem leaves_changePassword (current password : Bytes) :
    LeavesFaults (changePassword aead kdf current password) :=
  (leaves_withDb (fun _ _ => rfl) _).bind fun _ => (Action.Leaves.ofExcept _).bind fun _ =>
    (Action.Leaves.ofExcept _).bind fun _ => leaves_rewrap _ _ _

theorem leaves_statusFaults : LeavesFaults status := leaves_status (fun _ _ => rfl) fun _ _ => rfl

theorem leaves_unlock (password : Bytes) : LeavesFaults (unlock aead kdf password) :=
  (leaves_withDb (fun _ _ => rfl) _).bind fun _ => (Action.Leaves.ofExcept _).bind fun _ =>
    (Action.Leaves.ofExcept _).bind fun _ =>
      Action.Leaves.bind (m := setUnlocked _ _) (fun _ => rfl) fun _ => leaves_statusFaults

theorem leaves_recoverWithNewPassword (password : Bytes) :
    LeavesFaults (recoverWithNewPassword aead kdf password) := by
  refine (leaves_withDb (fun _ _ => rfl) _).bind fun header => ?_
  split
  · exact Action.Leaves.fail _
  refine (leaves_draw (fun _ _ => rfl) _).bind fun fault => ?_
  split
  · exact Action.Leaves.fail _
  refine (Action.Leaves.read _).bind fun secret => ?_
  split
  · exact Action.Leaves.fail _
  split
  · exact (Action.Leaves.mapError (Action.Leaves.ofExcept _)).bind fun _ =>
      (leaves_rewrap _ _ _).bind fun _ => leaves_statusFaults
  · exact Action.Leaves.fail _

theorem leaves_onVault {α : Type} {m : VaultM α} (hm : LeavesFaults m) :
    LeavesDeviceFaults (onVault m : EngineM FileBackend α).run := by
  intro s
  rw [onVault_run]
  exact hm s.1.vault

theorem leaves_exportSyncHeader :
    LeavesDeviceFaults (exportSyncHeader : EngineM FileBackend SyncedVaultHeader).run := by
  rw [exportSyncHeader, Program.run_bind]
  exact (leaves_onVault (leaves_withDb (fun _ _ => rfl) _)).bind fun _ => Action.Leaves.pure _

theorem leaves_publishPasswordRekey (previous : SyncedVaultHeader) :
    LeavesDeviceFaults (publishPasswordRekey aead fileBackend previous).run := by
  unfold publishPasswordRekey
  simp only [Program.run_bind]
  refine (leaves_onVault (leaves_requireKey fun _ _ => rfl)).bind fun _ =>
    leaves_exportSyncHeader.bind fun _ =>
      (leaves_onVault (leaves_draw (fun _ _ => rfl) _)).bind fun _ => ?_
  rw [Program.run_lift]
  refine (Action.Leaves.ofExcept _).bind fun _ => fun s => ?_
  rw [onBackend_run]

theorem leaves_changeAndPublish (current newPassword : Bytes) :
    LeavesDeviceFaults (changeAndPublish aead kdf current newPassword).run := by
  unfold changeAndPublish
  simp only [Program.run_bind]
  refine Action.Leaves.bind (fun s => ?_) fun previous =>
    (leaves_onVault (leaves_changePassword _ _)).bind fun _ => ?_
  · rw [Program.run_attempt]
    exact leaves_exportSyncHeader s
  · cases previous with
    | ok previous => exact leaves_publishPasswordRekey previous
    | error e => exact Action.Leaves.pure _

end Faults

/-! ## Runs -/

section Invariant
variable {aead : Aead KeyBytes} {kdf : Kdf} {b64 : Base64} {D : Type} [DecidableEq D] {key : VaultKey}
variable {x : Fleet D} {d e : D} {t : Engine × FileBackend}

theorem header_place_self : header (place x d t) d = t.1.vault.db.header :=
  congrArg (fun engine : Engine => engine.vault.db.header) (Function.update_self ..)

theorem header_place_of_ne (he : e ≠ d) : header (place x d t) e = header x e :=
  congrArg (fun engine : Engine => engine.vault.db.header) (Function.update_of_ne he ..)

theorem sameVault_symm {a b : SyncedVaultHeader} (h : sameVault a b = true) :
    sameVault b a = true := by
  obtain ⟨hsalt, hargon, hkey⟩ := sameVault_iff.1 h
  exact sameVault_iff.2 ⟨hsalt.symm, hargon.symm, hkey.symm⟩

/-- Another header of the same vault can follow as well. -/
theorem Follows.of_sameVault {remote own own' : SyncedVaultHeader}
    (h : Follows aead key remote own) (hsame : sameVault own' own = true) :
    Follows aead key remote own' := by
  obtain heq | hverify := h
  · exact Or.inl (sameVault_trans heq (sameVault_symm hsame))
  · obtain ⟨rekey, hrekey, hmatches, hopen⟩ := verifyRekeyAttestation_eq_ok_true.1 hverify
    obtain ⟨hsalt, hargon, hkey⟩ := sameVault_iff.1 hsame
    obtain ⟨hsalt', hargon', hkey'⟩ := headerMatchesPrevious_iff.1 hmatches
    refine Or.inr (verifyRekeyAttestation_eq_ok_true.2 ⟨rekey, hrekey, ?_, hopen⟩)
    exact headerMatchesPrevious_iff.2
      ⟨hsalt.trans hsalt', hargon.trans hargon', hkey.trans hkey'⟩

theorem wraps_of_sameVault {remote : SyncedVaultHeader} {own : VaultHeader}
    (h : Wraps aead kdf own key) (hsame : sameVault remote (exportHeader own) = true) :
    Wraps aead kdf (importHeader remote) key := by
  obtain ⟨password, derived, hderive, hunwrap⟩ := h
  obtain ⟨hsalt, hargon, hkey⟩ := sameVault_iff.1 hsame
  refine ⟨password, derived, ?_, ?_⟩
  · change deriveKeys kdf password remote.salt remote.argon2 = _
    rw [hsalt, hargon]
    exact hderive
  · change unwrapKey aead derived.encKey remote.wrappedVaultKey = _
    rw [hkey]
    exact hunwrap

omit [DecidableEq D] in
theorem Agreed.meeting (h : Agreed aead kdf key x) (d : D) :
    Meeting aead kdf key (x.devices d, x.backend) := by
  refine ⟨h.holds d, fun content hcontent => ?_⟩
  obtain ⟨remote, heq, hwraps, hfollows⟩ := h.published content hcontent
  exact ⟨remote, heq, hwraps, hfollows d⟩

/-- A device moves; what is to be shown of the headers is left. -/
theorem Agreed.placed (h : Agreed aead kdf key x) (hholds : Holder aead kdf key t.1.vault)
    (hstorage : Storage t.1.vault)
    (hunpublished : t.2.header = none →
      ∀ e e', SameHeader (header (place x d t) e) (header (place x d t) e'))
    (hpublished : ∀ content, t.2.header = some content → ∃ remote, content = .ok remote ∧
      Wraps aead kdf (importHeader remote) key ∧
      ∀ e own, header (place x d t) e = some own → Follows aead key remote (exportHeader own)) :
    Agreed aead kdf key (place x d t) where
  holds e := by
    by_cases he : e = d
    · subst he
      simpa [place] using hholds
    · simpa [place, he] using h.holds e
  storage e := by
    by_cases he : e = d
    · subst he
      simpa [place] using hstorage
    · simpa [place, he] using h.storage e
  unpublished := hunpublished
  published := hpublished

/-- Nothing happens to any header. -/
theorem Agreed.kept (h : Agreed aead kdf key x) (hholds : Holder aead kdf key t.1.vault)
    (hstorage : Storage t.1.vault) (hown : t.1.vault.db.header = header x d)
    (hback : t.2.header = x.backend.header) : Agreed aead kdf key (place x d t) := by
  have hheader : ∀ e, header (place x d t) e = header x e := by
    intro e
    by_cases he : e = d
    · rw [he, header_place_self, hown]
    · exact header_place_of_ne he
  refine h.placed hholds hstorage (fun hnone e e' => ?_) fun content hcontent => ?_
  · rw [hheader, hheader]
    exact h.unpublished (hback.symm.trans hnone) e e'
  · obtain ⟨remote, heq, hwraps, hfollows⟩ := h.published content (hback.symm.trans hcontent)
    refine ⟨remote, heq, hwraps, fun e own he => hfollows e own ?_⟩
    rw [← hheader, he]

theorem Agreed.synced (h : Agreed aead kdf key x) (hmeeting : Meeting aead kdf key t)
    (hstorage : Storage t.1.vault) (hsynced : Synced (x.devices d, x.backend) t) :
    Agreed aead kdf key (place x d t) := by
  obtain ⟨hback, hown | ⟨remote, own, hremote, hown, hsame⟩⟩ |
    ⟨hnone, hown, remote, own, hremote, hown', hsame⟩ := hsynced
  · exact h.kept hmeeting.1 hstorage hown hback
  · refine h.placed hmeeting.1 hstorage (fun hnone => ?_) fun content hcontent => ?_
    · rw [hremote] at hnone
      cases hnone
    · obtain ⟨remote', heq, hwraps, hfollows⟩ := h.published content (hback.symm.trans hcontent)
      refine ⟨remote', heq, hwraps, fun e other he => ?_⟩
      by_cases hd : e = d
      · rw [hd, header_place_self, hown, Option.some.injEq] at he
        subst he
        rw [hremote, heq, Option.some.injEq, Except.ok.injEq] at hcontent
        rw [← hcontent]
        exact Or.inl hsame
      · rw [header_place_of_ne hd] at he
        exact hfollows e other he
  · refine h.placed hmeeting.1 hstorage (fun hnone => ?_) fun content hcontent => ?_
    · rw [hremote] at hnone
      cases hnone
    · obtain ⟨remote', heq, hwraps, -⟩ := hmeeting.2 content hcontent
      refine ⟨remote', heq, hwraps, fun e other he => Or.inl ?_⟩
      rw [hremote, heq, Option.some.injEq, Except.ok.injEq] at hcontent
      rw [← hcontent]
      by_cases hd : e = d
      · rw [hd, header_place_self, hown', Option.some.injEq] at he
        rw [← he]
        exact hsame
      · rw [header_place_of_ne hd] at he
        obtain ⟨a, b, ha, hb, hab⟩ := h.unpublished hnone d e
        rw [he, Option.some.injEq] at hb
        rw [show header x d = some own from hown.symm.trans hown', Option.some.injEq] at ha
        rw [← hb] at hab
        rw [← ha] at hab
        exact sameVault_trans hsame hab

/-- The header of `d` changes, and the others follow or there are none. -/
theorem Agreed.followed (h : Agreed aead kdf key x) (hholds : Holder aead kdf key t.1.vault)
    (hstorage : Storage t.1.vault)
    (hback : t.2.header = x.backend.header ∨ ∃ previous, header x d = some previous ∧
      Attests aead key (exportHeader previous) (x.devices d, x.backend) t)
    (hf : Followed x (place x d t) d) :
    Agreed aead kdf key (place x d t) := by
  obtain ⟨⟨remote, own, hremote, hown, hsame⟩, hothers⟩ | ⟨hnone, halone⟩ := hf
  · have hremote : t.2.header = some (.ok remote) := hremote
    have hown : header (place x d t) d = some own := hown
    refine h.placed hholds hstorage (fun hnone => ?_) fun content hcontent => ?_
    · rw [hremote] at hnone
      cases hnone
    · rw [hremote, Option.some.injEq] at hcontent
      subst hcontent
      have hwraps : Wraps aead kdf own key := by
        obtain ⟨own', hown', hwraps, -⟩ := hholds.wraps
        rw [header_place_self, hown', Option.some.injEq] at hown
        rw [← hown]
        exact hwraps
      refine ⟨remote, rfl, wraps_of_sameVault hwraps hsame, fun e other he => ?_⟩
      by_cases hd : e = d
      · rw [hd, hown, Option.some.injEq] at he
        rw [← he]
        exact Or.inl hsame
      rw [header_place_of_ne hd] at he
      have hunchanged : t.2.header = x.backend.header → Follows aead key remote (exportHeader other) :=
        fun hback => by
          obtain ⟨remote', heq, -, hfollows⟩ := h.published _ (hback.symm.trans hremote)
          cases heq
          exact hfollows e other he
      obtain hback | ⟨previous, hprevious, hattests⟩ := hback
      · exact hunchanged hback
      obtain hback | ⟨remote', hremote', hverify⟩ := hattests
      · exact hunchanged hback
      rw [hremote, Option.some.injEq, Except.ok.injEq] at hremote'
      subst hremote'
      obtain ⟨a, b, ha, hb, hab⟩ := hothers e hd
      rw [he, Option.some.injEq] at ha
      rw [hprevious, Option.some.injEq] at hb
      subst ha hb
      exact Follows.of_sameVault (Or.inr hverify) hab
  · have hnone : t.2.header = none := hnone
    refine h.placed hholds hstorage (fun _ e e' => ?_) fun content hcontent => ?_
    · obtain ⟨own, hown, -⟩ := hholds.wraps
      rw [halone e, halone e', header_place_self, hown]
      exact ⟨own, own, rfl, rfl, sameVault_refl _⟩
    · rw [hnone] at hcontent
      cases hcontent

theorem Agreed.perform (hi : Ideal aead) (h : Agreed aead kdf key x) {step : Step D}
    (hc : Coordinated aead kdf b64 x step) : Agreed aead kdf key (perform aead kdf b64 x step) := by
  cases step with
  | changePassword d current newPassword =>
    have hfaults := @leaves_changeAndPublish aead kdf current newPassword
      (x.devices d, x.backend)
    rcases hrun : (changeAndPublish aead kdf current newPassword).run (x.devices d, x.backend) with
      ⟨r, t⟩
    rw [hrun] at hfaults
    have hstorage : Storage t.1.vault := fun n e hfault =>
      h.storage d n e ((congrFun hfaults n).symm.trans hfault)
    obtain ⟨hholds, hback⟩ := changeAndPublish_ends hi (h.holds d) hrun
    have hperform : PasswordChanges.perform aead kdf b64 x
        (.changePassword d current newPassword) = place x d t := by
      rw [PasswordChanges.perform, act, hrun]
    simp only [Coordinated, hperform] at hc
    rw [hperform]
    obtain ⟨hown, hsame⟩ | hf := hc
    · exact h.kept hholds hstorage (header_place_self.symm.trans hown) hsame
    · exact h.followed hholds hstorage hback hf
  | recoverWithNewPassword d newPassword =>
    have hfaults := @leaves_recoverWithNewPassword aead kdf newPassword
      (x.devices d).vault
    rcases hrun : recoverWithNewPassword aead kdf newPassword (x.devices d).vault with ⟨r, w⟩
    rw [hrun] at hfaults
    have hstorage : Storage w := fun n e hfault =>
      h.storage d n e ((congrFun hfaults n).symm.trans hfault)
    have hholds := (h.holds d).recovered hi hrun
    have hperform : PasswordChanges.perform aead kdf b64 x (.recoverWithNewPassword d newPassword) =
        place x d ({ x.devices d with vault := w }, x.backend) := by
      change place x d ({ x.devices d with vault :=
        (recoverWithNewPassword aead kdf newPassword (x.devices d).vault).2 }, x.backend) = _
      rw [hrun]
    simp only [Coordinated, hperform] at hc
    rw [hperform]
    obtain ⟨hown, hsame⟩ | hf := hc
    · exact h.kept hholds hstorage (header_place_self.symm.trans hown) hsame
    · exact h.followed hholds hstorage (Or.inl rfl) hf
  | lock d =>
    refine h.kept ((h.holds d).of_header rfl fun _ _ _ hs => ?_) (h.storage d) rfl rfl
    cases hs
  | unlock d password =>
    have hfaults := @leaves_unlock aead kdf password (x.devices d).vault
    rcases hrun : unlock aead kdf password (x.devices d).vault with ⟨r, w⟩
    rw [hrun] at hfaults
    obtain ⟨hholds, hheader⟩ := (h.holds d).opened hi hrun
    have hperform : PasswordChanges.perform aead kdf b64 x (.unlock d password) =
        place x d ({ x.devices d with vault := w }, x.backend) := by
      change place x d ({ x.devices d with vault :=
        (unlock aead kdf password (x.devices d).vault).2 }, x.backend) = _
      rw [hrun]
    rw [hperform]
    exact h.kept hholds (fun n e hfault => h.storage d n e ((congrFun hfaults n).symm.trans hfault))
      hheader rfl
  | wait d time =>
    exact h.kept ((h.holds d).of_header rfl fun _ auth i hs => ⟨auth, i, hs⟩) (h.storage d) rfl rfl
  | syncNow d =>
    rcases hrun : (syncNow aead b64 fileBackend).run (x.devices d, x.backend) with ⟨r, t⟩
    have hend := syncNow_ends (h.meeting d) (h.storage d) hrun
    have hperform : PasswordChanges.perform aead kdf b64 x (.syncNow d) = place x d t := by
      rw [PasswordChanges.perform, act, hrun]
    rw [hperform]
    exact h.synced hend.meeting hend.storage hend.synced

theorem Agreed.run (hi : Ideal aead) (h : Agreed aead kdf key x) {steps : List (Step D)}
    (ha : Along aead kdf b64 x steps) : Agreed aead kdf key (run aead kdf b64 x steps) := by
  induction steps generalizing x with
  | nil => exact h
  | cons step steps ih => exact ih (h.perform hi ha.1) ha.2

omit [DecidableEq D] in
theorem Fresh.agreed (h : Fresh aead kdf key x) : Agreed aead kdf key x where
  holds := h.holds
  storage := h.storage
  unpublished _ := h.same
  published content hcontent := by
    obtain ⟨remote, heq, hwraps, hsame⟩ := h.remote content hcontent
    exact ⟨remote, heq, hwraps, fun d own hown => Or.inl (hsame d own hown)⟩

/-- A sync of the device reports no mismatch, and one that succeeds leaves it the header of the
directory. -/
def United (aead : Aead KeyBytes) (b64 : Base64) (x : Fleet D) (d : D) : Prop :=
  (syncOutcome aead b64 x d).1 ≠ .error (.sync MISMATCH_MESSAGE) ∧
    ∀ report, (syncOutcome aead b64 x d).1 = .ok report → Equal (syncOutcome aead b64 x d).2

omit [DecidableEq D] in
theorem Agreed.united (h : Agreed aead kdf key x) (d : D) : United aead b64 x d := by
  have hend := syncNow_ends (h.meeting d) (h.storage d)
    (rfl : (syncNow aead b64 fileBackend).run (x.devices d, x.backend) = _)
  exact ⟨fun hmismatch => hend.other _ hmismatch rfl, hend.equal⟩

/-- Where every change is followed, a vault is never split. -/
theorem united_of_followed (hi : Ideal aead) (h : Fresh aead kdf key x) {steps : List (Step D)}
    (ha : Along aead kdf b64 x steps) (d : D) :
    United aead b64 (PasswordChanges.run aead kdf b64 x steps) d :=
  (h.agreed.run hi ha).united d

theorem Holder.of_sound (hi : Ideal aead) {v : Vault} (h : Sound aead kdf v) {own : VaultHeader}
    (hown : v.db.header = some own) (hkey : Wraps aead kdf own key) : Holder aead kdf key v where
  wraps := ⟨own, hown, hkey, fun other hother => hkey.unique hi (h.recovery own other hown hother)⟩
  unlocked other auth i hs := by
    obtain ⟨own', hown', hother⟩ := h.key other auth i hs
    rw [hown, Option.some.injEq] at hown'
    subst hown'
    exact hkey.unique hi hother

end Invariant

/-! ## A vault that is split -/

section Samples

def sampleAead : Aead KeyBytes := transparent KEY_LEN

theorem sampleAead_ideal : Ideal sampleAead :=
  ⟨transparent_correct KEY_LEN, transparent_committing KEY_LEN, transparent_canonical KEY_LEN⟩

def bareVault : Vault := ⟨VaultDb.empty, none, .locked, IDLE_LOCK_DISABLED, World.quiet⟩

/-- Created with a recovery key, and unlocked. -/
def sampleVault : Vault := (create sampleAead sampleKdf [1] true bareVault).2

def sampleKey : VaultKey := ⟨Block.fill KEY_LEN 0⟩

/-- Two devices with the vault, and an empty directory. -/
def sampleFleet : Fleet Bool :=
  ⟨fun _ => ⟨sampleVault, .default⟩,
    ⟨none, none, Table.empty, 0, fun _ => none, fun _ => .asStored⟩⟩

instance (a b : Option VaultHeader) : Decidable (SameHeader a b) :=
  match a, b with
  | some x, some y => decidable_of_iff (sameVault (exportHeader x) (exportHeader y) = true)
      ⟨fun h => ⟨x, y, rfl, rfl, h⟩, fun ⟨_, _, hx, hy, h⟩ => by cases hx; cases hy; exact h⟩
  | none, _ => .isFalse fun ⟨_, _, h, _⟩ => by cases h
  | some _, none => .isFalse fun ⟨_, _, _, h, _⟩ => by cases h

instance (s : Engine × FileBackend) : Decidable (Equal s) :=
  match h : s.2.header, h' : s.1.vault.db.header with
  | some (.ok remote), some own => decidable_of_iff (sameVault remote (exportHeader own) = true)
      ⟨fun hsame => ⟨remote, own, h, h', hsame⟩, fun ⟨_, _, hr, ho, hsame⟩ => by
        rw [h] at hr; rw [h'] at ho; cases hr; cases ho; exact hsame⟩
  | some (.ok _), none => .isFalse fun ⟨_, _, _, ho, _⟩ => by rw [h'] at ho; cases ho
  | some (.error _), _ => .isFalse fun ⟨_, _, hr, _⟩ => by rw [h] at hr; cases hr
  | none, _ => .isFalse fun ⟨_, _, hr, _⟩ => by rw [h] at hr; cases hr

/-- The key of an unlocked vault. -/
def heldBytes : LockState → Bytes
  | .unlocked key _ _ => key.expose.1
  | .locked => []

theorem sampleVault_holder : Holder sampleAead sampleKdf sampleKey sampleVault := by
  have hrun : create sampleAead sampleKdf [1] true bareVault =
      ((create sampleAead sampleKdf [1] true bareVault).1, sampleVault) := rfl
  have hsound : Sound sampleAead sampleKdf sampleVault :=
    Sound.create sampleAead_ideal (Bare.sound ⟨rfl, rfl⟩) hrun
  cases hown : sampleVault.db.header with
  | none =>
    have hsome : sampleVault.db.header.isSome = true := by decide +kernel
    rw [hown] at hsome
    cases hsome
  | some own =>
    cases hstate : sampleVault.state with
    | locked =>
      have hunlocked : sampleVault.state.isUnlocked = true := by decide +kernel
      rw [hstate] at hunlocked
      cases hunlocked
    | unlocked key auth i =>
      have hkey : key = sampleKey := by
        have h : heldBytes sampleVault.state = sampleKey.expose.1 := by decide +kernel
        rw [hstate] at h
        cases key
        exact congrArg VaultKey.mk (Subtype.ext h)
      obtain ⟨own', hown', hwraps⟩ := hsound.key key auth i hstate
      rw [hown, Option.some.injEq] at hown'
      rw [← hown', hkey] at hwraps
      exact Holder.of_sound sampleAead_ideal hsound hown hwraps

theorem sampleVault_storage : Storage sampleVault := by
  intro n e h
  have hquiet : sampleVault.world.dbFaultAt n = none := rfl
  rw [hquiet] at h
  cases h

theorem sampleFleet_fresh : Fresh sampleAead sampleKdf sampleKey sampleFleet where
  holds _ := sampleVault_holder
  storage _ := sampleVault_storage
  same _ _ := by
    obtain ⟨own, hown, -⟩ := sampleVault_holder.wraps
    exact ⟨own, own, hown, hown, sameVault_refl _⟩
  remote _ h := by cases h

/-- One device changes the password, and then the other. -/
def sampleSteps : List (Step Bool) :=
  [.syncNow true, .syncNow false, .changePassword true [1] [2], .syncNow false,
    .changePassword false [2] [3], .syncNow true]

theorem followed_bool {x y : Fleet Bool} {d : Bool} (hequal : Equal (y.devices d, y.backend))
    (hsame : SameHeader (header x !d) (header x d)) : Followed x y d := by
  refine Or.inl ⟨hequal, fun e he => ?_⟩
  cases d <;> cases e <;> first | exact absurd rfl he | exact hsame

theorem united_sample :
    United sampleAead standard (run sampleAead sampleKdf standard sampleFleet sampleSteps) false ∧
    United sampleAead standard (run sampleAead sampleKdf standard sampleFleet sampleSteps) true := by
  have halong : Along sampleAead sampleKdf standard sampleFleet sampleSteps := by
    refine ⟨trivial, trivial, Or.inr (followed_bool ?_ ?_), trivial,
      Or.inr (followed_bool ?_ ?_), trivial, trivial⟩
    all_goals decide +kernel
  exact ⟨united_of_followed sampleAead_ideal sampleFleet_fresh halong false,
    united_of_followed sampleAead_ideal sampleFleet_fresh halong true⟩

def mismatched : Except Error SyncReport → Bool
  | .error (.sync message) => message = MISMATCH_MESSAGE
  | _ => false

theorem not_united {x : Fleet Bool} {d : Bool}
    (h : mismatched (syncOutcome sampleAead standard x d).1 = true) :
    ¬ United sampleAead standard x d := by
  rintro ⟨hnot, -⟩
  unfold mismatched at h
  split at h
  · rename_i message heq
    rw [decide_eq_true_iff] at h
    rw [heq, h] at hnot
    exact hnot rfl
  · cases h

/-- Two changes that the other device sleeps through. -/
def twice : List (Step Bool) :=
  [.syncNow true, .syncNow false, .changePassword true [1] [2], .changePassword true [2] [3]]

/-- A recovery publishes nothing. -/
def recovery : List (Step Bool) := [.syncNow true, .recoverWithNewPassword true [2]]

/-- A change that is not published, as one write fails. -/
def unpublished : List (Step Bool) := [.syncNow true, .changePassword true [1] [2]]

def faulty (n : ℕ) : Fleet Bool :=
  { sampleFleet with backend.faultAt := fun k => if k = n then some "disk full" else none }

theorem united_fails : ¬ United sampleAead standard
      (run sampleAead sampleKdf standard sampleFleet twice) false ∧
    ¬ United sampleAead standard (run sampleAead sampleKdf standard sampleFleet recovery) true ∧
    ¬ United sampleAead standard (run sampleAead sampleKdf standard (faulty 13) unpublished) true := by
  refine ⟨not_united ?_, not_united ?_, not_united ?_⟩
  all_goals decide +kernel

end Samples
end Tethra.PasswordChanges
