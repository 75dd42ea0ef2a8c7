import Tethra.KeyConsistency

set_option autoImplicit false

/-!
# Calls that set a vault up, in any order

`create`, `import_sync_header` and `bootstrap_from_backend_if_needed` look whether there is
a header and write it later. Each database closure is one step.
-/
namespace Tethra.FirstHeader
open AuthenticatedEncryption KeyConsistency StatefulActions SyncEngine SyncFileBackend SyncItems
open VaultCrypto VaultKeys VaultState VaultTypes
open StatefulActions.Action (fail read update ofExcept focus bind_ok bind_error bind_assoc)

inductive Call where
  | create (password : Bytes) (enableRecovery : Bool)
  | importSyncHeader (header : SyncedVaultHeader)
  | bootstrap

/-- Where a call stands. `Ok(true)` is a header written. -/
inductive Pc where
  | start (call : Call)
  | preparing (password : Bytes) (enableRecovery : Bool)
  | fetching
  | importing (header : SyncedVaultHeader)
  | writing (header : VaultHeader) (key : Option (VaultKey × KeyBytes))
  | unlocking (vaultKey : VaultKey) (authKey : KeyBytes)
  | reporting
  | done (outcome : Except Error Bool)

section Calls
variable {β : Type} (aead : Aead KeyBytes) (kdf : Kdf) (backend : SyncBackend β)

abbrev DeviceM (β α : Type) := Action (Vault × β) Error α

def onVault {α : Type} (m : VaultM α) : DeviceM β α := focus Prod.fst (fun v s => (v, s.2)) m

def onBackend {α : Type} (m : Action β Error α) : DeviceM β α :=
  focus Prod.snd (fun b s => (s.1, b)) m

/-- After the header is written. -/
def afterWrite : Option (VaultKey × KeyBytes) → Pc
  | some (vaultKey, authKey) => .unlocking vaultKey authKey
  | none => .done (.ok true)

def afterFetch : Option SyncedVaultHeader → Pc
  | some header => .importing header
  | none => .done (.ok false)

/-- One step of a call. -/
def next : Pc → DeviceM β Pc
  | .start (.create password enableRecovery) => do
    onVault checkMissing
    pure (.preparing password enableRecovery)
  | .start (.importSyncHeader header) => do
    onVault checkMissing
    pure (.writing (importHeader header) none)
  | .start .bootstrap => do
    let current ← onVault status
    pure (if current.exist then .done (.ok false) else .fetching)
  | .preparing password enableRecovery => do
    let prepared ← onVault (prepareHeader aead kdf password enableRecovery)
    pure (.writing prepared.1 (some prepared.2))
  | .fetching => do
    let found ← onBackend backend.getHeader
    pure (afterFetch found)
  | .importing header => do
    onVault checkMissing
    pure (.writing (importHeader header) none)
  | .writing header key => do
    onVault (withDbMut fun db => db.writeHeader header)
    pure (afterWrite key)
  | .unlocking vaultKey authKey => do
    onVault (setUnlocked vaultKey authKey)
    pure .reporting
  | .reporting => do
    let _ ← onVault status
    pure (.done (.ok true))
  | .done outcome => pure (.done outcome)

structure Site (β T : Type) where
  vault : Vault
  backend : β
  calls : T → Option Pc

variable {T : Type} [DecidableEq T]

inductive Step (T : Type) where
  | begin (t : T) (call : Call)
  | advance (t : T)

/-- The counter a step leaves, an error being the outcome. -/
def settle : Except Error Pc → Pc
  | .ok pc => pc
  | .error e => .done (.error e)

def perform (x : Site β T) : Step T → Site β T
  | .begin t call =>
    match x.calls t with
    | some _ => x
    | none => { x with calls := Function.update x.calls t (some (.start call)) }
  | .advance t =>
    match x.calls t with
    | none => x
    | some pc =>
      let outcome := next aead kdf backend pc (x.vault, x.backend)
      ⟨outcome.2.1, outcome.2.2, Function.update x.calls t (some (settle outcome.1))⟩

def run (x : Site β T) (steps : List (Step T)) : Site β T :=
  steps.foldl (perform aead kdf backend) x

/-- Past the check, before the write. -/
def Pc.Checked : Pc → Prop
  | .preparing _ _ => True
  | .writing _ _ => True
  | _ => False

/-- Past the write. -/
def Pc.Installed : Pc → Prop
  | .unlocking _ _ => True
  | .reporting => True
  | .done (.ok true) => True
  | _ => False

/-- The call that writes a header in a step. -/
def installer (x : Site β T) : Step T → List T
  | .begin _ _ => []
  | .advance t =>
    match x.calls t, x.vault.world.dbFaultAt x.vault.world.draws with
    | some (.writing _ _), none => [t]
    | _, _ => []

/-- Every header written in a run, by who wrote it. -/
def installers : Site β T → List (Step T) → List T
  | _, [] => []
  | x, step :: steps => installers (perform aead kdf backend x step) steps ++ installer x step

/-- When a header is written no other call is between its check and its write. -/
def Apart (x : Site β T) (step : Step T) : Prop :=
  ∀ t ∈ installer x step, ∀ u pc, u ≠ t → x.calls u = some pc → ¬ pc.Checked

def Along : Site β T → List (Step T) → Prop
  | _, [] => True
  | x, step :: steps => Apart x step ∧ Along (perform aead kdf backend x step) steps

/-- Storage, key derivation, encryption and backend answer. -/
structure Calm (x : Site β T) : Prop where
  storage : ∀ n, x.vault.world.dbFaultAt n = none
  derive : ∀ password salt, ∃ derived, kdf password salt .default = .ok derived
  encrypt : ∀ key nonce message aad, ∃ ciphertext,
    aead.encrypt key nonce message aad = some ciphertext
  fetch : ∀ b, ∃ found b', backend.getHeader b = (.ok found, b')

/-- An empty vault database and no call yet. -/
structure Fresh (x : Site β T) : Prop where
  bare : Bare x.vault
  calls : ∀ t, x.calls t = none

end Calls

/-! ## A call run alone -/

section Alone
variable {β : Type} {aead : Aead KeyBytes} {kdf : Kdf} {backend : SyncBackend β}

theorem onVault_bind {α γ : Type} (m : VaultM α) (f : α → VaultM γ) :
    (onVault (m >>= f) : DeviceM β γ) = onVault m >>= fun a => onVault (f a) := by
  funext s
  rcases hm : m s.1 with ⟨r, w⟩
  have hl : (onVault m : DeviceM β α) s = (r, (w, s.2)) := by
    unfold onVault focus
    rw [hm]
  cases r with
  | ok a =>
    rw [bind_ok hl]
    unfold onVault focus
    rw [bind_ok hm]
  | error e =>
    rw [bind_error hl]
    unfold onVault focus
    rw [bind_error hm]

/-- The steps of `create` with nothing between them are `create`. -/
theorem create_alone (password : Bytes) (enableRecovery : Bool) :
    (next aead kdf backend (.start (.create password enableRecovery)) >>= next aead kdf backend >>=
      next aead kdf backend >>= next aead kdf backend >>= next aead kdf backend) =
    onVault (create aead kdf password enableRecovery) >>= fun _ => pure (.done (.ok true)) := by
  rw [create_eq]
  simp only [onVault_bind, next, bind_assoc, Action.pure_bind, afterWrite]

theorem importSyncHeader_alone (header : SyncedVaultHeader) :
    (next aead kdf backend (.start (.importSyncHeader header)) >>= next aead kdf backend) =
    onVault (onDevice () (importSyncHeader header)) >>= fun _ => pure (.done (.ok true)) := by
  rw [importSyncHeader_eq]
  simp only [onVault_bind, next, bind_assoc, Action.pure_bind, afterWrite]

/-- After the status found no vault: the backend's header, imported. -/
def fetchAndImport (backend : SyncBackend β) : DeviceM β Bool := do
  match ← onBackend backend.getHeader with
  | none => pure false
  | some header => do
    onVault (onDevice () (importSyncHeader header))
    pure true

/-- The steps of `bootstrap_from_backend_if_needed` with nothing between them. -/
theorem bootstrap_alone :
    (next aead kdf backend (.start .bootstrap) >>= next aead kdf backend >>=
      next aead kdf backend >>= next aead kdf backend) = (do
      let current ← onVault status
      let imported ← (if current.exist then pure false else fetchAndImport backend)
      pure (.done (.ok imported))) := by
  simp only [next, bind_assoc, Action.pure_bind]
  congr 1
  funext current
  cases current.exist with
  | true => rfl
  | false =>
    simp only [fetchAndImport, bind_assoc, Action.pure_bind, Bool.false_eq_true, if_false]
    congr 1
    funext found
    cases found with
    | none => rfl
    | some header =>
      simp only [afterFetch, importSyncHeader_eq, onVault_bind, next, bind_assoc,
        Action.pure_bind, afterWrite]

end Alone

/-! ## What one step of a call can do -/

section Moves
variable {β : Type} {aead : Aead KeyBytes} {kdf : Kdf} {backend : SyncBackend β}
variable {pc : Pc} {v : Vault} {b : β}

theorem onVault_map {α γ : Type} (m : VaultM α) (g : α → γ) :
    (onVault m >>= fun a => pure (g a)) (v, b) = ((m v).1.map g, ((m v).2, b)) := by
  rcases hm : m v with ⟨r, w⟩
  have hl : (onVault m : DeviceM β α) (v, b) = (r, (w, b)) := by
    unfold onVault focus
    rw [hm]
  cases r with
  | ok a => rw [bind_ok hl]; rfl
  | error e => rw [bind_error hl]; rfl

/-- What a step does to vault and counter, by what it writes. -/
inductive Move (aead : Aead KeyBytes) (kdf : Kdf) (pc : Pc) (v w : Vault) :
    Except Error Pc → Prop
  | quiet {r : Except Error Pc} (db : w.db = v.db) (state : w.state = v.state ∨ w.state = .locked)
      (fault : ∀ header key, pc = .writing header key →
        v.world.dbFaultAt v.world.draws ≠ none)
      (checked : (settle r).Checked → pc.Checked ∨ v.db.header = none)
      (installed : (settle r).Installed → pc.Installed)
      (prepared : ∀ header key authKey, settle r = .writing header (some (key, authKey)) →
        Wraps aead kdf header key)
      (pending : ∀ key authKey, settle r ≠ .unlocking key authKey) : Move aead kdf pc v w r
  | write {header : VaultHeader} {key : Option (VaultKey × KeyBytes)}
      (counter : pc = .writing header key) (fault : v.world.dbFaultAt v.world.draws = none)
      (db : w.db = v.db.writeHeader header) (state : w.state = v.state) :
      Move aead kdf pc v w (.ok (afterWrite key))
  | unlock {vaultKey : VaultKey} {authKey : KeyBytes} (counter : pc = .unlocking vaultKey authKey)
      (db : w.db = v.db) (time : Instant) (state : w.state = .unlocked vaultKey authKey time) :
      Move aead kdf pc v w (.ok .reporting)

/-- A step that failed did nothing. -/
theorem Move.failed {w : Vault} {e : Error} (hdb : w.db = v.db)
    (hstate : w.state = v.state ∨ w.state = .locked)
    (hfault : ∀ header key, pc = .writing header key → v.world.dbFaultAt v.world.draws ≠ none) :
    Move aead kdf pc v w (.error e) := by
  refine .quiet hdb hstate hfault ?_ ?_ ?_ ?_
  · exact fun h => h.elim
  · exact fun h => h.elim
  · exact fun _ _ _ h => (by cases h)
  · exact fun _ _ h => (by cases h)

theorem Move.waits {w : Vault} {pc' : Pc} (hdb : w.db = v.db)
    (hstate : w.state = v.state ∨ w.state = .locked)
    (hfault : ∀ header key, pc = .writing header key → v.world.dbFaultAt v.world.draws ≠ none)
    (hwaits : pc' = .fetching ∨ (∃ header, pc' = .importing header) ∨ pc' = .done (.ok false)) :
    Move aead kdf pc v w (.ok pc') := by
  obtain rfl | ⟨header, rfl⟩ | rfl := hwaits
  all_goals
    refine .quiet hdb hstate hfault ?_ ?_ ?_ ?_
    · exact fun h => h.elim
    · exact fun h => h.elim
    · exact fun _ _ _ h => (by cases h)
    · exact fun _ _ h => (by cases h)

theorem checkMissing_move {pc' : Pc} (hpc : ∀ header key, pc ≠ .writing header key)
    (hinstalled : ¬ pc'.Installed)
    (hprepared : ∀ header key authKey, pc' ≠ .writing header (some (key, authKey)))
    (hpending : ∀ key authKey, pc' ≠ .unlocking key authKey) :
    Move aead kdf pc v (checkMissing v).2 ((checkMissing v).1.map fun _ => pc') := by
  have hreads := reads_checkMissing v
  rcases hrun : checkMissing v with ⟨r, w⟩
  rw [hrun] at hreads
  cases r with
  | error e =>
    exact .failed hreads.1 (Or.inl hreads.2) fun header key h => (hpc header key h).elim
  | ok u =>
    refine .quiet hreads.1 (Or.inl hreads.2) (fun header key h => (hpc header key h).elim) ?_ ?_
      ?_ ?_
    · exact fun _ => Or.inr (checkMissing_ok hrun)
    · exact fun h => (hinstalled h).elim
    · exact fun header key authKey h => (hprepared header key authKey h).elim
    · exact hpending

variable (kdf backend) in
theorem next_move (hi : Ideal aead) (pc : Pc) (v : Vault) (b : β) :
    Move aead kdf pc v (next aead kdf backend pc (v, b)).2.1 (next aead kdf backend pc (v, b)).1 := by
  cases pc with
  | start call =>
    cases call with
    | create password enableRecovery =>
      simp only [next]
      rw [onVault_map]
      exact checkMissing_move (fun _ _ h => (by cases h)) (fun h => h)
        (fun _ _ _ h => (by cases h)) fun _ _ h => (by cases h)
    | importSyncHeader header =>
      simp only [next]
      rw [onVault_map]
      exact checkMissing_move (fun _ _ h => (by cases h)) (fun h => h)
        (fun _ _ _ h => (by cases h)) fun _ _ h => (by cases h)
    | bootstrap =>
      simp only [next]
      rw [onVault_map]
      rcases hrun : status v with ⟨r, w⟩
      obtain ⟨hdb, hstate⟩ := status_views hrun
      cases r with
      | error e => exact .failed hdb hstate fun _ _ h => (by cases h)
      | ok current =>
        obtain ⟨exist, unlocked, available⟩ := current
        refine .waits hdb hstate (fun _ _ h => (by cases h)) ?_
        cases exist with
        | true => exact Or.inr (Or.inr rfl)
        | false => exact Or.inl rfl
  | preparing password enableRecovery =>
    simp only [next]
    rw [onVault_map]
    rcases hrun : prepareHeader aead kdf password enableRecovery v with ⟨r, w⟩
    obtain ⟨e, rfl, hw⟩ | ⟨header, vaultKey, derived, rfl, hw, hderive, hunwrap, -⟩ :=
      prepareHeader_spec hi hrun
    · exact .failed hw.1 (Or.inl hw.2) fun _ _ h => (by cases h)
    · refine .quiet hw.1 (Or.inl hw.2) (fun _ _ h => (by cases h)) ?_ ?_ ?_ ?_
      · exact fun _ => Or.inl trivial
      · exact fun h => h.elim
      · intro header' key authKey h
        cases h
        exact ⟨password, derived, hderive, hunwrap⟩
      · exact fun _ _ h => (by cases h)
  | fetching =>
    rcases hrun : backend.getHeader b with ⟨r, b'⟩
    have hl : (onBackend backend.getHeader : DeviceM β _) (v, b) = (r, (v, b')) := by
      unfold onBackend focus
      rw [hrun]
    simp only [next]
    cases r with
    | error e =>
      rw [bind_error hl]
      exact .failed rfl (Or.inl rfl) fun _ _ h => (by cases h)
    | ok found =>
      rw [bind_ok hl]
      refine .waits rfl (Or.inl rfl) (fun _ _ h => (by cases h)) ?_
      cases found with
      | none => exact Or.inr (Or.inr rfl)
      | some header => exact Or.inr (Or.inl ⟨header, rfl⟩)
  | importing header =>
    simp only [next]
    rw [onVault_map]
    exact checkMissing_move (fun _ _ h => (by cases h)) (fun h => h)
      (fun _ _ _ h => (by cases h)) fun _ _ h => (by cases h)
  | writing header key =>
    simp only [next]
    rw [onVault_map]
    cases hfault : v.world.dbFaultAt v.world.draws with
    | none =>
      rw [withDbMut_calm hfault]
      exact .write rfl hfault rfl rfl
    | some e =>
      rw [withDbMut_fault hfault]
      exact .failed rfl (Or.inl rfl) fun _ _ _ h => (by rw [hfault] at h; cases h)
  | unlocking vaultKey authKey => exact .unlock rfl rfl v.world.now rfl
  | reporting =>
    simp only [next]
    rw [onVault_map]
    rcases hrun : status v with ⟨r, w⟩
    obtain ⟨hdb, hstate⟩ := status_views hrun
    cases r with
    | error e => exact .failed hdb hstate fun _ _ h => (by cases h)
    | ok current =>
      exact .quiet hdb hstate (fun _ _ h => (by cases h)) (fun h => h.elim) (fun _ => trivial)
        (fun _ _ _ h => (by cases h)) fun _ _ h => (by cases h)
  | done outcome =>
    exact .quiet rfl (Or.inl rfl) (fun _ _ h => (by cases h)) (fun h => h.elim) (fun h => h)
      (fun _ _ _ h => (by cases h)) fun _ _ h => (by cases h)

end Moves

/-! ## Steps when nothing outside fails -/

section Answers
variable {aead : Aead KeyBytes} {kdf : Kdf} {v : Vault}

/-- The vault's database answers. -/
def Answers (v : Vault) : Prop := ∀ n, v.world.dbFaultAt n = none

theorem checkMissing_calm (hv : Answers v) :
    (checkMissing v).1 = .ok () ∨ (checkMissing v).1 = .error .vaultAlreadyExists := by
  unfold checkMissing
  rw [bind_ok (m := withDb fun db => .ok db.hasHeader) (withDb_calm (hv _) rfl)]
  cases v.db.hasHeader with
  | true => exact Or.inr rfl
  | false => exact Or.inl rfl

theorem currentStatus_calm (hv : Answers v) : ∃ current, (currentStatus v).1 = .ok current := by
  unfold currentStatus
  rw [bind_ok (m := withDb fun db => .ok db.hasHeader) (withDb_calm (hv _) rfl)]
  cases hheader : v.db.header with
  | none =>
    rw [VaultDb.hasHeader, hheader]
    exact ⟨_, rfl⟩
  | some header =>
    have hread : withDb VaultDb.readHeader { v with world.draws := v.world.draws + 1 } =
        (.ok header, _) := withDb_calm (hv _) (readHeader_eq_ok.2 hheader)
    rw [VaultDb.hasHeader, hheader]
    change ∃ current, ((recoveryAvailable >>= _ : VaultM VaultStatus) _).1 = .ok current
    unfold recoveryAvailable
    rw [bind_assoc, bind_ok hread]
    exact ⟨_, rfl⟩

theorem status_calm (hv : Answers v) : ∃ current, (status v).1 = .ok current := by
  have hidle : touchIdle v = (.ok (), (touchIdle v).2) := Prod.ext (touchIdle_run v) rfl
  have hsame : (touchIdle v).2.world = v.world :=
    leaves_touchIdle (f := Vault.world) (fun _ _ => rfl) v
  unfold status
  rw [bind_ok hidle]
  exact currentStatus_calm fun n => (by rw [hsame]; exact hv n)

/-- Failures of the keyring leave the vault without recovery. -/
theorem tryRecoveryKey_calm (hencrypt : ∀ key nonce message aad, ∃ ciphertext,
    aead.encrypt key nonce message aad = some ciphertext) (vaultKey : VaultKey) (v : Vault) :
    ∃ blob, (tryRecoveryKey aead vaultKey v).1 = .ok blob := by
  have hinstall : (∃ blob, (installRecoveryKey aead vaultKey v).1 = .ok blob) ∨
      (∃ text, (installRecoveryKey aead vaultKey v).1 = .error (.platform text)) ∨
      ∃ text, (installRecoveryKey aead vaultKey v).1 = .error (.unsupported text) := by
    have hdraw : keyring { v with world.draws := v.world.draws + 1 } =
        (.ok (v.world.keyringFaultAt (v.world.draws + 1)), _) := rfl
    unfold installRecoveryKey
    rw [bind_ok (m := draw World.keyAt) rfl, bind_ok hdraw]
    cases v.world.keyringFaultAt (v.world.draws + 1) with
    | some fault =>
      cases fault with
      | unsupported => exact Or.inr (Or.inr ⟨_, rfl⟩)
      | failed message => exact Or.inr (Or.inl ⟨_, rfl⟩)
    | none =>
      obtain ⟨ciphertext, hciphertext⟩ := hencrypt (v.world.keyAt v.world.draws)
        (v.world.nonceAt (v.world.draws + 2)).1 vaultKey.expose.1 vaultKeyWrapAad
      refine Or.inl ⟨⟨(v.world.nonceAt (v.world.draws + 2)).1, ciphertext⟩, ?_⟩
      change wrapKey aead _ _ vaultKey = _
      unfold wrapKey encryptRaw
      rw [hciphertext]
  unfold tryRecoveryKey
  rcases hrun : installRecoveryKey aead vaultKey v with ⟨r, w⟩
  rw [hrun] at hinstall
  rw [bind_ok (m := Action.attempt (installRecoveryKey aead vaultKey)) (Action.attempt_eq_ok.2 hrun)]
  obtain ⟨blob, hr⟩ | ⟨text, hr⟩ | ⟨text, hr⟩ := hinstall
  all_goals
    cases hr
    exact ⟨_, rfl⟩

/-- When the database fails is fixed beforehand. -/
def storageFaults (v : Vault) : ℕ → Option Error := v.world.dbFaultAt

theorem leaves_installRecoveryKey (vaultKey : VaultKey) :
    (installRecoveryKey aead vaultKey).Leaves storageFaults := by
  refine (leaves_draw (fun _ _ => rfl) _).bind fun recovery => ?_
  refine (leaves_draw (fun _ _ => rfl) _).bind fun fault => ?_
  rcases fault with _ | _ | _
  · refine Action.Leaves.bind (m := update fun v : Vault => { v with recoverySecret := some recovery.1 })
      (Action.Leaves.update (f := storageFaults) fun _ => rfl) fun _ => ?_
    exact (leaves_draw (fun _ _ => rfl) _).bind fun nonce => Action.Leaves.ofExcept _
  · exact Action.Leaves.fail _
  · exact Action.Leaves.fail _

theorem leaves_tryRecoveryKey (vaultKey : VaultKey) :
    (tryRecoveryKey aead vaultKey).Leaves storageFaults := by
  refine (leaves_installRecoveryKey vaultKey).attempt.bind fun outcome => ?_
  cases outcome with
  | ok blob => exact Action.Leaves.pure _
  | error e => cases e <;> first | exact Action.Leaves.pure _ | exact Action.Leaves.fail _

theorem leaves_prepareHeader (password : Bytes) (enableRecovery : Bool) :
    (prepareHeader aead kdf password enableRecovery).Leaves storageFaults := by
  refine (leaves_draw (fun _ _ => rfl) _).bind fun salt => ?_
  refine (Action.Leaves.ofExcept _).bind fun derived => ?_
  refine Action.Leaves.bind (m := VaultKey.mk <$> draw World.keyAt)
    ((leaves_draw (fun _ _ => rfl) _).bind fun _ => Action.Leaves.pure _) fun vaultKey => ?_
  refine (leaves_draw (fun _ _ => rfl) _).bind fun nonce => ?_
  refine (Action.Leaves.ofExcept _).bind fun wrapped => ?_
  refine Action.Leaves.bind ?_ fun recovery =>
    (Action.Leaves.read _).bind fun createdAt => Action.Leaves.pure _
  cases enableRecovery with
  | true => exact leaves_tryRecoveryKey vaultKey
  | false => exact Action.Leaves.pure _

theorem prepareHeader_calm
    (hderive : ∀ password salt, ∃ derived, kdf password salt .default = .ok derived)
    (hencrypt : ∀ key nonce message aad, ∃ ciphertext,
      aead.encrypt key nonce message aad = some ciphertext)
    (password : Bytes) (enableRecovery : Bool) (v : Vault) :
    ∃ prepared, (prepareHeader aead kdf password enableRecovery v).1 = .ok prepared := by
  obtain ⟨derived, hderived⟩ := hderive password (v.world.saltAt v.world.draws).1
  have hkeys : deriveKeys kdf password (v.world.saltAt v.world.draws).1 .default = .ok derived := by
    unfold deriveKeys
    rw [if_neg (fun h => h (v.world.saltAt v.world.draws).2), hderived]
  obtain ⟨ciphertext, hciphertext⟩ := hencrypt derived.encKey
    (v.world.nonceAt (v.world.draws + 2)).1 (v.world.keyAt (v.world.draws + 1)).1 vaultKeyWrapAad
  have hwrap : wrapKey aead derived.encKey (v.world.nonceAt (v.world.draws + 2))
      ⟨v.world.keyAt (v.world.draws + 1)⟩ =
        .ok ⟨(v.world.nonceAt (v.world.draws + 2)).1, ciphertext⟩ := by
    unfold wrapKey encryptRaw
    rw [hciphertext]
  unfold prepareHeader
  rw [bind_ok (m := draw World.saltAt) rfl,
    bind_ok (m := ofExcept (deriveKeys kdf password (v.world.saltAt v.world.draws).1 .default))
      (Action.ofExcept_eq_ok.2 ⟨hkeys, rfl⟩),
    bind_ok (m := VaultKey.mk <$> draw World.keyAt) rfl, bind_ok (m := draw World.nonceAt) rfl,
    bind_ok (Action.ofExcept_eq_ok.2 ⟨hwrap, rfl⟩)]
  cases enableRecovery with
  | false => exact ⟨_, rfl⟩
  | true =>
    obtain ⟨blob, hblob⟩ := tryRecoveryKey_calm hencrypt ⟨v.world.keyAt (v.world.draws + 1)⟩
      { v with world.draws := v.world.draws + 3 }
    change ∃ prepared, ((tryRecoveryKey aead _ >>= _ : VaultM _) _).1 = .ok prepared
    rw [bind_ok (Prod.ext hblob rfl)]
    exact ⟨_, rfl⟩

end Answers

/-! ## Every run -/

section Runs
variable {β T : Type} [DecidableEq T] {aead : Aead KeyBytes} {kdf : Kdf} {backend : SyncBackend β}
variable {x : Site β T} {ts : List T}

/-- What holds after every step, `ts` being the calls that wrote a header. -/
structure Agreed (aead : Aead KeyBytes) (kdf : Kdf) (x : Site β T) (ts : List T) : Prop where
  empty : x.vault.db.header = none → x.vault.state = .locked ∧ ts = []
  once : ts.length ≤ 1
  checked : ∀ t pc, x.calls t = some pc → pc.Checked → x.vault.db.header = none
  installed : ∀ t pc, x.calls t = some pc → pc.Installed → t ∈ ts
  prepared : ∀ t header key authKey, x.calls t = some (.writing header (some (key, authKey))) →
    Wraps aead kdf header key
  pending : ∀ t key authKey, x.calls t = some (.unlocking key authKey) →
    ∃ header, x.vault.db.header = some header ∧ Wraps aead kdf header key
  key : ∀ key authKey time, x.vault.state = .unlocked key authKey time →
    ∃ header, x.vault.db.header = some header ∧ Wraps aead kdf header key

omit [DecidableEq T] in
theorem Fresh.agreed (h : Fresh x) : Agreed aead kdf x [] := by
  have hdb : x.vault.db = VaultDb.empty := h.bare.1
  have hstate : x.vault.state = .locked := h.bare.2
  constructor
  case empty => exact fun _ => ⟨hstate, rfl⟩
  case once => exact Nat.zero_le 1
  case checked => exact fun _ _ _ _ => (by rw [hdb]; rfl)
  case installed => exact fun t _ ht => (by rw [h.calls t] at ht; cases ht)
  case prepared => exact fun t _ _ _ ht => (by rw [h.calls t] at ht; cases ht)
  case pending => exact fun t _ _ ht => (by rw [h.calls t] at ht; cases ht)
  case key => exact fun _ _ _ ht => (by rw [hstate] at ht; cases ht)

theorem calls_update {t u : T} {pc pc' : Pc}
    (h : Function.update x.calls t (some pc') u = some pc) :
    (u = t ∧ pc' = pc) ∨ (u ≠ t ∧ x.calls u = some pc) := by
  by_cases hut : u = t
  · subst u
    rw [Function.update_self] at h
    exact Or.inl ⟨rfl, Option.some.inj h⟩
  · rw [Function.update_of_ne hut] at h
    exact Or.inr ⟨hut, h⟩

theorem perform_begin {t : T} {call : Call} (ht : x.calls t = none) :
    perform aead kdf backend x (.begin t call) =
      { x with calls := Function.update x.calls t (some (.start call)) } := by
  simp only [perform, ht]

theorem perform_begin_again {t : T} {call : Call} {pc : Pc} (ht : x.calls t = some pc) :
    perform aead kdf backend x (.begin t call) = x := by
  simp only [perform, ht]

theorem perform_advance {t : T} {pc : Pc} (ht : x.calls t = some pc) {r : Except Error Pc}
    {w : Vault} {b : β} (hrun : next aead kdf backend pc (x.vault, x.backend) = (r, (w, b))) :
    perform aead kdf backend x (.advance t) =
      ⟨w, b, Function.update x.calls t (some (settle r))⟩ := by
  simp only [perform, ht, hrun]

theorem perform_idle {t : T} (ht : x.calls t = none) :
    perform aead kdf backend x (.advance t) = x := by
  simp only [perform, ht]

omit [DecidableEq T] in
theorem installer_write {t : T} {header : VaultHeader} {key : Option (VaultKey × KeyBytes)}
    (ht : x.calls t = some (.writing header key))
    (hfault : x.vault.world.dbFaultAt x.vault.world.draws = none) :
    installer x (.advance t) = [t] := by
  simp only [installer, ht, hfault]

omit [DecidableEq T] in
theorem installer_quiet {t : T} (h : ∀ header key, x.calls t = some (.writing header key) →
    x.vault.world.dbFaultAt x.vault.world.draws ≠ none) : installer x (.advance t) = [] := by
  unfold installer
  dsimp only
  split
  case h_1 header key ht hfault => exact (h header key ht hfault).elim
  case h_2 => rfl

/-- A move that writes nothing keeps the agreement. -/
theorem Agreed.quiet (h : Agreed aead kdf x ts) {t : T} {pc' : Pc} {w : Vault} {b : β}
    (hdb : w.db = x.vault.db) (hstate : w.state = x.vault.state ∨ w.state = .locked)
    (hchecked : pc'.Checked → x.vault.db.header = none) (hinstalled : pc'.Installed → t ∈ ts)
    (hprepared : ∀ header key authKey, pc' = .writing header (some (key, authKey)) →
      Wraps aead kdf header key)
    (hpending : ∀ key authKey, pc' ≠ .unlocking key authKey) :
    Agreed aead kdf (⟨w, b, Function.update x.calls t (some pc')⟩ : Site β T) ts where
  empty hnone := by
    rw [hdb] at hnone
    obtain ⟨hlocked, hts⟩ := h.empty hnone
    refine ⟨?_, hts⟩
    obtain hw | hw := hstate
    · exact hw.trans hlocked
    · exact hw
  once := h.once
  checked u q hu hq := by
    change w.db.header = none
    rw [hdb]
    obtain ⟨-, rfl⟩ | ⟨-, hu⟩ := calls_update hu
    · exact hchecked hq
    · exact h.checked u q hu hq
  installed u q hu hq := by
    obtain ⟨rfl, rfl⟩ | ⟨-, hu⟩ := calls_update hu
    · exact hinstalled hq
    · exact h.installed u q hu hq
  prepared u header key authKey hu := by
    obtain ⟨-, hpc⟩ | ⟨-, hu⟩ := calls_update hu
    · exact hprepared header key authKey hpc
    · exact h.prepared u header key authKey hu
  pending u key authKey hu := by
    change ∃ header, w.db.header = some header ∧ _
    rw [hdb]
    obtain ⟨-, hpc⟩ | ⟨-, hu⟩ := calls_update hu
    · exact (hpending key authKey hpc).elim
    · exact h.pending u key authKey hu
  key key authKey time hkey := by
    change ∃ header, w.db.header = some header ∧ _
    rw [hdb]
    obtain hw | hw := hstate
    · exact h.key key authKey time (hw.symm.trans hkey)
    · exact absurd (hw.symm.trans hkey) LockState.noConfusion

/-- Nobody else being past the check, a write is the first. -/
theorem Agreed.write (h : Agreed aead kdf x ts) {t : T} {header : VaultHeader}
    {key : Option (VaultKey × KeyBytes)} {w : Vault} {b : β}
    (ht : x.calls t = some (.writing header key)) (hdb : w.db = x.vault.db.writeHeader header)
    (hstate : w.state = x.vault.state)
    (hapart : ∀ u pc, u ≠ t → x.calls u = some pc → ¬ pc.Checked) :
    Agreed aead kdf (⟨w, b, Function.update x.calls t (some (afterWrite key))⟩ : Site β T)
      ([t] ++ ts) := by
  obtain ⟨hlocked, rfl⟩ := h.empty (h.checked t _ ht trivial)
  have hstored : w.db.header = some header := by rw [hdb]; rfl
  constructor
  case empty => exact fun hnone => absurd (hstored.symm.trans hnone) (Option.some_ne_none _)
  case once => exact le_refl 1
  case checked =>
    intro u pc hu hpc
    obtain ⟨-, rfl⟩ | ⟨hne, hu⟩ := calls_update hu
    · cases key <;> exact hpc.elim
    · exact (hapart u pc hne hu hpc).elim
  case installed =>
    intro u pc hu hpc
    obtain ⟨rfl, -⟩ | ⟨-, hu⟩ := calls_update hu
    · exact List.mem_singleton_self u
    · exact absurd (h.installed u pc hu hpc) List.not_mem_nil
  case prepared =>
    intro u header' key' authKey hu
    obtain ⟨-, hpc⟩ | ⟨-, hu⟩ := calls_update hu
    · cases key <;> cases hpc
    · exact h.prepared u header' key' authKey hu
  case pending =>
    intro u key' authKey hu
    refine ⟨header, hstored, ?_⟩
    obtain ⟨-, hpc⟩ | ⟨-, hu⟩ := calls_update hu
    · cases key with
      | none => cases hpc
      | some kept =>
        cases hpc
        exact h.prepared t header _ _ ht
    · exact absurd (h.installed u _ hu trivial) List.not_mem_nil
  case key =>
    intro key' authKey time hkey
    exact absurd (hlocked.symm.trans (hstate.symm.trans hkey)) LockState.noConfusion

theorem Agreed.unlock (h : Agreed aead kdf x ts) {t : T} {vaultKey : VaultKey} {authKey : KeyBytes}
    {time : Instant} {w : Vault} {b : β} (ht : x.calls t = some (.unlocking vaultKey authKey))
    (hdb : w.db = x.vault.db) (hstate : w.state = .unlocked vaultKey authKey time) :
    Agreed aead kdf (⟨w, b, Function.update x.calls t (some .reporting)⟩ : Site β T) ts := by
  obtain ⟨header, hheader, hwraps⟩ := h.pending t vaultKey authKey ht
  have hstored : w.db.header = some header := by rw [hdb, hheader]
  constructor
  case empty => exact fun hnone => absurd (hstored.symm.trans hnone) (Option.some_ne_none _)
  case once => exact h.once
  case checked =>
    intro u pc hu hpc
    change w.db.header = none
    rw [hdb]
    obtain ⟨-, rfl⟩ | ⟨-, hu⟩ := calls_update hu
    · exact hpc.elim
    · exact h.checked u pc hu hpc
  case installed =>
    intro u pc hu hpc
    obtain ⟨rfl, -⟩ | ⟨-, hu⟩ := calls_update hu
    · exact h.installed u _ ht trivial
    · exact h.installed u pc hu hpc
  case prepared =>
    intro u header' key' authKey' hu
    obtain ⟨-, hpc⟩ | ⟨-, hu⟩ := calls_update hu
    · cases hpc
    · exact h.prepared u header' key' authKey' hu
  case pending =>
    intro u key' authKey' hu
    change ∃ header, w.db.header = some header ∧ _
    rw [hdb]
    obtain ⟨-, hpc⟩ | ⟨-, hu⟩ := calls_update hu
    · cases hpc
    · exact h.pending u key' authKey' hu
  case key =>
    intro key' authKey' time' hkey
    obtain ⟨rfl, -⟩ := LockState.unlocked.inj (hstate.symm.trans hkey)
    exact ⟨header, hstored, hwraps⟩

theorem Agreed.perform (hi : Ideal aead) (h : Agreed aead kdf x ts) {step : Step T}
    (hapart : Apart x step) :
    Agreed aead kdf (perform aead kdf backend x step) (installer x step ++ ts) := by
  cases step with
  | begin t call =>
    cases ht : x.calls t with
    | some pc =>
      rw [perform_begin_again ht]
      exact h
    | none =>
      rw [perform_begin ht]
      exact h.quiet rfl (Or.inl rfl) (fun hc => hc.elim) (fun hc => hc.elim)
        (fun _ _ _ hc => (by cases hc)) fun _ _ hc => (by cases hc)
  | advance t =>
    cases ht : x.calls t with
    | none =>
      rw [perform_idle ht, installer_quiet fun _ _ hc => (by rw [ht] at hc; cases hc)]
      exact h
    | some pc =>
      rcases hrun : next aead kdf backend pc (x.vault, x.backend) with ⟨r, w, b⟩
      have hmove := next_move kdf backend hi pc x.vault x.backend
      rw [hrun] at hmove
      rw [perform_advance ht hrun]
      cases hmove with
      | quiet db state fault checked installed prepared pending =>
        rw [installer_quiet fun header key hc => fault header key (by rw [ht] at hc; cases hc; rfl)]
        refine h.quiet db state (fun hc => ?_) (fun hc => h.installed t pc ht (installed hc))
          prepared pending
        obtain hpc | hnone := checked hc
        · exact h.checked t pc ht hpc
        · exact hnone
      | write counter fault db state =>
        subst pc
        unfold Apart at hapart
        rw [installer_write ht fault] at hapart ⊢
        exact h.write ht db state (hapart t (List.mem_singleton_self t))
      | unlock counter db time state =>
        subst pc
        rw [installer_quiet fun _ _ hc => (by rw [ht] at hc; cases hc)]
        exact h.unlock ht db state

theorem Agreed.run (hi : Ideal aead) {steps : List (Step T)} (h : Agreed aead kdf x ts)
    (hsteps : Along aead kdf backend x steps) :
    Agreed aead kdf (run aead kdf backend x steps) (installers aead kdf backend x steps ++ ts) := by
  induction steps generalizing x ts with
  | nil => exact h
  | cons step steps ih =>
    have hrest := ih (h.perform hi hsteps.1) hsteps.2
    rwa [← List.append_assoc] at hrest

/-! ## Outcomes -/

variable (aead kdf backend) in
omit [DecidableEq T] in
theorem leaves_next (pc : Pc) (b : β) (v : Vault) :
    storageFaults (next aead kdf backend pc (v, b)).2.1 = storageFaults v := by
  have hfaults : ∀ (v : Vault) n, storageFaults { v with world.draws := n } = storageFaults v :=
    fun _ _ => rfl
  have hcheck : checkMissing.Leaves storageFaults := by
    refine (leaves_withDb hfaults _).bind fun exist => ?_
    cases exist with
    | true => exact Action.Leaves.fail _
    | false => exact Action.Leaves.pure _
  have hstatus : status.Leaves storageFaults := leaves_status (fun _ _ => rfl) hfaults
  cases pc with
  | start call =>
    cases call with
    | create password enableRecovery => simp only [next]; rw [onVault_map]; exact hcheck v
    | importSyncHeader header => simp only [next]; rw [onVault_map]; exact hcheck v
    | bootstrap => simp only [next]; rw [onVault_map]; exact hstatus v
  | preparing password enableRecovery =>
    simp only [next]
    rw [onVault_map]
    exact leaves_prepareHeader _ _ v
  | fetching =>
    rcases hrun : backend.getHeader b with ⟨r, b'⟩
    have hl : (onBackend backend.getHeader : DeviceM β _) (v, b) = (r, (v, b')) := by
      unfold onBackend focus
      rw [hrun]
    simp only [next]
    cases r with
    | error e => rw [bind_error hl]
    | ok found => rw [bind_ok hl]; rfl
  | importing header => simp only [next]; rw [onVault_map]; exact hcheck v
  | writing header key =>
    simp only [next]
    rw [onVault_map]
    exact leaves_withDbMut (f := storageFaults) hfaults (fun _ _ => rfl) v
  | unlocking vaultKey authKey => rfl
  | reporting => simp only [next]; rw [onVault_map]; exact hstatus v
  | done outcome => rfl

/-- Installed, refused, or nothing to do. -/
def Expected (outcome : Except Error Bool) : Prop :=
  outcome = .ok true ∨ outcome = .ok false ∨ outcome = .error .vaultAlreadyExists

omit [DecidableEq T] in
theorem Calm.next (h : Calm aead kdf backend x) (pc : Pc) {outcome : Except Error Bool}
    (hdone : settle (next aead kdf backend pc (x.vault, x.backend)).1 = .done outcome) :
    Expected outcome ∨ pc = .done outcome := by
  have hcheck : ∀ pc' : Pc, (∀ o, pc' ≠ .done o) →
      settle ((checkMissing x.vault).1.map fun _ => pc') = .done outcome → Expected outcome := by
    intro pc' hpc' hdone
    obtain hr | hr := checkMissing_calm (v := x.vault) h.storage
    · rw [hr] at hdone
      exact (hpc' outcome hdone).elim
    · rw [hr] at hdone
      cases hdone
      exact Or.inr (Or.inr rfl)
  obtain ⟨current, hstatus⟩ := status_calm (v := x.vault) h.storage
  cases pc with
  | start call =>
    cases call with
    | create password enableRecovery =>
      simp only [FirstHeader.next] at hdone
      rw [onVault_map] at hdone
      exact Or.inl (hcheck _ (fun _ hc => (by cases hc)) hdone)
    | importSyncHeader header =>
      simp only [FirstHeader.next] at hdone
      rw [onVault_map] at hdone
      exact Or.inl (hcheck _ (fun _ hc => (by cases hc)) hdone)
    | bootstrap =>
      simp only [FirstHeader.next] at hdone
      rw [onVault_map, hstatus] at hdone
      obtain ⟨exist, unlocked, available⟩ := current
      cases exist <;> cases hdone
      exact Or.inl (Or.inr (Or.inl rfl))
  | preparing password enableRecovery =>
    obtain ⟨prepared, hprepared⟩ :=
      prepareHeader_calm h.derive h.encrypt password enableRecovery x.vault
    simp only [FirstHeader.next] at hdone
    rw [onVault_map, hprepared] at hdone
    cases hdone
  | fetching =>
    obtain ⟨found, b', hfetch⟩ := h.fetch x.backend
    have hl : (onBackend backend.getHeader : DeviceM β _) (x.vault, x.backend) =
        (.ok found, (x.vault, b')) := by
      unfold onBackend focus
      rw [hfetch]
    simp only [FirstHeader.next] at hdone
    rw [bind_ok hl] at hdone
    cases found <;> cases hdone
    exact Or.inl (Or.inr (Or.inl rfl))
  | importing header =>
    simp only [FirstHeader.next] at hdone
    rw [onVault_map] at hdone
    exact Or.inl (hcheck _ (fun _ hc => (by cases hc)) hdone)
  | writing header key =>
    simp only [FirstHeader.next] at hdone
    rw [onVault_map, withDbMut_calm (h.storage _)] at hdone
    cases key <;> cases hdone
    exact Or.inl (Or.inl rfl)
  | unlocking vaultKey authKey => cases hdone
  | reporting =>
    simp only [FirstHeader.next] at hdone
    rw [onVault_map, hstatus] at hdone
    cases hdone
    exact Or.inl (Or.inl rfl)
  | done outcome' =>
    cases hdone
    exact Or.inr rfl

theorem Calm.perform (h : Calm aead kdf backend x) (step : Step T)
    (hdone : ∀ t outcome, x.calls t = some (.done outcome) → Expected outcome) :
    Calm aead kdf backend (perform aead kdf backend x step) ∧ ∀ t outcome,
      (perform aead kdf backend x step).calls t = some (.done outcome) → Expected outcome := by
  cases step with
  | begin t call =>
    cases ht : x.calls t with
    | some pc =>
      rw [perform_begin_again ht]
      exact ⟨h, hdone⟩
    | none =>
      rw [perform_begin ht]
      refine ⟨⟨h.storage, h.derive, h.encrypt, h.fetch⟩, fun u outcome hu => ?_⟩
      obtain ⟨-, hpc⟩ | ⟨-, hu⟩ := calls_update hu
      · cases hpc
      · exact hdone u outcome hu
  | advance t =>
    cases ht : x.calls t with
    | none =>
      rw [perform_idle ht]
      exact ⟨h, hdone⟩
    | some pc =>
      have houtcome : ∀ outcome, settle (FirstHeader.next aead kdf backend pc
          (x.vault, x.backend)).1 = .done outcome → Expected outcome ∨ pc = .done outcome :=
        fun outcome => h.next pc
      have hstorage := leaves_next aead kdf backend pc x.backend x.vault
      rcases hrun : FirstHeader.next aead kdf backend pc (x.vault, x.backend) with ⟨r, w, b⟩
      rw [hrun] at houtcome hstorage
      rw [perform_advance ht hrun]
      refine ⟨⟨fun n => ?_, h.derive, h.encrypt, h.fetch⟩, fun u outcome hu => ?_⟩
      · exact (congrFun hstorage n).trans (h.storage n)
      · obtain ⟨-, hpc⟩ | ⟨-, hu⟩ := calls_update hu
        · obtain hexpected | rfl := houtcome outcome hpc
          · exact hexpected
          · exact hdone t outcome ht
        · exact hdone u outcome hu

theorem Calm.run (h : Calm aead kdf backend x) {steps : List (Step T)}
    (hdone : ∀ t outcome, x.calls t = some (.done outcome) → Expected outcome) :
    ∀ t outcome, (run aead kdf backend x steps).calls t = some (.done outcome) →
      Expected outcome := by
  induction steps generalizing x with
  | nil => exact hdone
  | cons step steps ih =>
    obtain ⟨hcalm, hdone'⟩ := h.perform step hdone
    exact ih hcalm hdone'

/-- Where no header is written while another call is past its check, the first one stays. -/
theorem first_header_wins (hi : Ideal aead) {steps : List (Step T)} (hx : Fresh x)
    (h : Along aead kdf backend x steps) :
    (installers aead kdf backend x steps).length ≤ 1 ∧
    (∀ t outcome, (run aead kdf backend x steps).calls t = some (.done outcome) →
      t ∉ installers aead kdf backend x steps → outcome ≠ .ok true ∧
        (Calm aead kdf backend x → outcome = .ok false ∨ outcome = .error .vaultAlreadyExists)) ∧
    ∀ key authKey time, (run aead kdf backend x steps).vault.state = .unlocked key authKey time →
      ∃ header, (run aead kdf backend x steps).vault.db.header = some header ∧
        Wraps aead kdf header key ∧ ∀ other, Wraps aead kdf header other → other = key := by
  have hagreed := hx.agreed.run hi h
  rw [List.append_nil] at hagreed
  refine ⟨hagreed.once, ?_, ?_⟩
  · intro t outcome ht hother
    have hne : outcome ≠ .ok true := by
      rintro rfl
      exact hother (hagreed.installed t _ ht trivial)
    refine ⟨hne, fun hcalm => ?_⟩
    have hnone : ∀ t outcome, x.calls t = some (.done outcome) → Expected outcome :=
      fun t outcome hc => (by rw [hx.calls t] at hc; cases hc)
    obtain hok | hrest := hcalm.run hnone t outcome ht
    · exact (hne hok).elim
    · exact hrest
  · intro key authKey time hkey
    obtain ⟨header, hheader, hwraps⟩ := hagreed.key key authKey time hkey
    exact ⟨header, hheader, hwraps, fun other hother => hwraps.unique hi hother⟩

end Runs

section Samples

def sampleAead : Aead KeyBytes := transparent KEY_LEN

/-- The header of another device's vault, on the backend. -/
def sharedHeader : SyncedVaultHeader :=
  ⟨List.replicate SALT_LEN 0, .default, ⟨List.replicate NONCE_LEN 0,
    transparentLabel (sampleMaterial [2] (List.replicate SALT_LEN 0)) vaultKeyWrapAad ++
      SecretFleets.sampleKey.expose.1⟩, 0, none⟩

def sampleSite : Site (Option SyncedVaultHeader) Bool :=
  ⟨⟨VaultDb.empty, none, .locked, IDLE_LOCK_DISABLED, World.quiet⟩, some sharedHeader,
    fun _ => none⟩

theorem sampleSite_fresh : Fresh sampleSite := ⟨⟨rfl, rfl⟩, fun _ => rfl⟩

/-- The startup task has checked when the user creates a vault, and imports afterwards. -/
def racingSteps : List (Step Bool) :=
  [.begin false .bootstrap, .advance false, .advance false, .advance false,
    .begin true (.create [1] false), .advance true, .advance true, .advance true, .advance true,
    .advance true, .advance false]

def racedSite : Site (Option SyncedVaultHeader) Bool :=
  run sampleAead sampleKdf headerSlot sampleSite racingSteps

theorem sharedHeader_wraps :
    Wraps sampleAead sampleKdf (importHeader sharedHeader) SecretFleets.sampleKey :=
  ⟨[2], _, rfl, by decide +kernel⟩

theorem first_header_wins_fails : Fresh sampleSite ∧
    installers sampleAead sampleKdf headerSlot sampleSite racingSteps = [false, true] ∧
    (∀ t, racedSite.calls t = some (.done (.ok true))) ∧
    ∃ key authKey time header, racedSite.vault.state = .unlocked key authKey time ∧
      racedSite.vault.db.header = some header ∧ ¬ Wraps sampleAead sampleKdf header key := by
  refine ⟨sampleSite_fresh, rfl, ?_, ⟨World.quiet.keyAt 0⟩, _, 0, importHeader sharedHeader, rfl,
    rfl, ?_⟩
  · intro t
    cases t with
    | true => rfl
    | false => rfl
  · intro hwraps
    have hkeys := hwraps.unique sampleAead_ideal sharedHeader_wraps
    revert hkeys
    decide +kernel

/-- The same calls, each finished before the next begins. -/
def serialSteps : List (Step Bool) :=
  [.begin true (.create [1] false), .advance true, .advance true, .advance true, .advance true,
    .advance true, .begin false .bootstrap, .advance false]

theorem first_header_wins_sample :
    (installers sampleAead sampleKdf headerSlot sampleSite serialSteps).length ≤ 1 ∧
    ((run sampleAead sampleKdf headerSlot sampleSite serialSteps).calls false =
      some (.done (.ok false))) ∧
    ∃ header, (run sampleAead sampleKdf headerSlot sampleSite serialSteps).vault.db.header =
      some header ∧ Wraps sampleAead sampleKdf header ⟨World.quiet.keyAt 0⟩ := by
  have halong : Along sampleAead sampleKdf headerSlot sampleSite serialSteps := by
    have hquiet : ∀ (x : Site (Option SyncedVaultHeader) Bool) step, installer x step = [] →
        Apart x step := fun x step hnil t ht => (by rw [hnil] at ht; cases ht)
    refine ⟨hquiet _ _ rfl, hquiet _ _ rfl, hquiet _ _ rfl, ?_, hquiet _ _ rfl, hquiet _ _ rfl,
      hquiet _ _ rfl, hquiet _ _ rfl, trivial⟩
    intro t ht u pc hu hc
    cases u with
    | true =>
      cases t with
      | true => exact (hu rfl).elim
      | false =>
        have hself : false ∈ [true] := ht
        cases hself with
        | tail _ hnil => cases hnil
    | false => cases hc
  obtain ⟨honce, -, hkey⟩ := first_header_wins sampleAead_ideal sampleSite_fresh halong
  obtain ⟨header, hheader, hwraps, -⟩ := hkey _ _ _ rfl
  exact ⟨honce, rfl, header, hheader, hwraps⟩

end Samples
end Tethra.FirstHeader
