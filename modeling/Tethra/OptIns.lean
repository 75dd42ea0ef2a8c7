import Tethra.RunningSessions
import Tethra.SecretFleets
import Tethra.SyncConvergence

set_option autoImplicit false

/-!
# Opting back into sync

Devices turn the sync of an identity or an API key off and on, write other rows, and sync
with one directory. The run is one of `SyncFleets`, of the rows that the devices write.
-/
namespace Tethra.OptIns
open AtomicPrograms AuthenticatedEncryption Base64Strings JsonValues ReplicatedRegisters
open RepositoryRequests RepositoryUpdates RowUpdates RunningSessions StatefulActions SyncEngine SyncFileBackend
open SyncFleets SyncItems VaultCrypto VaultRecords VaultRepository VaultState VaultTypes

/-- What sets `sync_secret` of a row. -/
inductive Toggle where
  | setIdentitySyncSecret (id : Uuid) (syncSecret : Bool)
  | updateApiKey (id : Uuid) (request : CreateApiKeyRequest)

namespace Toggle

def id : Toggle → Uuid
  | .setIdentitySyncSecret id _ => id
  | .updateApiKey id _ => id

def syncSecret : Toggle → Bool
  | .setIdentitySyncSecret _ syncSecret => syncSecret
  | .updateApiKey _ request => request.syncSecret

def program (x : Externals) : Toggle → RepositoryM Unit
  | .setIdentitySyncSecret id syncSecret =>
    (VaultRepository.Operation.setIdentitySyncSecret id syncSecret).program x
  | .updateApiKey id request => (VaultRepository.Operation.updateApiKey id request).program x

end Toggle

section Specs
variable {x : Externals} {key : VaultKey} {v : Vault}

/-- The next version of a row, with `sync_secret` as it was set. -/
structure Toggled (v : Vault) (id : Uuid) (syncSecret : Bool) (old w : ItemRow) : Prop where
  row : v.db.getItem id = some old
  id : w.id = id
  kind : w.kind = old.kind
  version : w.version = old.version + 1
  localOnly : w.localOnly = !syncSecret
  deleted : w.deleted = false

/-- The vault is as it was but for one toggled row, if any. -/
def Toggles (key : VaultKey) (id : Uuid) (syncSecret : Bool) (v t : Vault) : Prop :=
  Keyed key t ∧ ((∀ i, t.db.getItem i = v.db.getItem i) ∨
    ∃ old w, Toggled v id syncSecret old w ∧ ∀ i, t.db.getItem i = (v.db.upsertItem w).getItem i)

variable {id : Uuid} {syncSecret : Bool} {t u : Vault}

theorem toggles_nothing (h : Same key v t) : Toggles key id syncSecret v t :=
  ⟨h.keyed, Or.inl h.rows⟩

theorem Toggles.same (h : Toggles key id syncSecret v t) (h' : Same key t u) :
    Toggles key id syncSecret v u := by
  refine ⟨h'.keyed, ?_⟩
  obtain h | ⟨old, w, hw, h⟩ := h.2
  · exact Or.inl fun i => (h'.rows i).trans (h i)
  · exact Or.inr ⟨old, w, hw, fun i => (h'.rows i).trans (h i)⟩

/-- A row of the kind is put in the place of the one that was read. -/
theorem ends_putToggled {α : Type} {f : Format α} {kind : ItemKind} {old : ItemRow} (value : α)
    (hc : x.aead.Correct) (hsame : Same key v t) (hold : v.db.getItem id = some old)
    (hkind : old.kind = kind) :
    (putEncryptedJson x f id kind (old.version + 1) (!syncSecret) false value).run.Ends
      (fun _ u => Toggles key id syncSecret v u) t := by
  have hput : (putEncryptedJson x f id kind (old.version + 1) (!syncSecret) false
      value).run.Ends _ t := ends_put hc hsame.keyed
  obtain ⟨hkeyed, herr, hok⟩ := hput
  refine ⟨hkeyed, ?_⟩
  cases hr : ((putEncryptedJson x f id kind (old.version + 1) (!syncSecret) false
      value).run t).1 with
  | error e => exact Or.inl fun i => (herr e hr i).trans (hsame.rows i)
  | ok _ =>
    obtain ⟨w, hw, hrows⟩ := hok hr
    refine Or.inr ⟨old, w, ⟨hold, hw.id, hw.kind.trans hkind.symm, hw.version, hw.localOnly,
      hw.deleted⟩, fun i => ?_⟩
    rw [hrows i, VaultDb.getItem_upsertItem, VaultDb.getItem_upsertItem, hsame.rows]

theorem ends_setIdentitySyncSecret (hc : x.aead.Correct) (hv : Keyed key v) (id : Uuid)
    (syncSecret : Bool) :
    (setIdentitySyncSecret x id syncSecret).run.Ends
      (fun _ t => Toggles key id syncSecret v t) v := by
  unfold setIdentitySyncSecret
  refine ends_bind (ends_get hv) (fun found t hgot => ?_) fun e t h => toggles_nothing h.1
  obtain ⟨identity, old⟩ := found
  obtain ⟨hsame, hfound⟩ := hgot
  obtain ⟨hold, -, -⟩ := hfound identity old rfl
  refine ends_bind (ends_checkKind hsame.keyed) (fun _ u hcheck => ?_)
    fun e u h => toggles_nothing (hsame.trans h.1)
  have hu := hsame.trans hcheck.1
  have hput : (putIdentity x id (old.version + 1) (!syncSecret) false
      (identity.setSyncSecret syncSecret)).run.Ends
        (fun _ w => Toggles key id syncSecret v w) u :=
    ends_putToggled _ hc hu hold (hcheck.2 rfl)
  refine ends_bind hput (fun _ w hw => ?_) fun e w hw => hw
  have hidle : (identityToSummary x (identity.setSyncSecret syncSecret)).run.Ends
      (fun _ z => Same key w z) w := ends_idle (reading_idles.identityToSummary _) hw.1
  exact hw.same hidle

theorem ends_updateApiKey (hc : x.aead.Correct) (hv : Keyed key v) (id : Uuid)
    (request : CreateApiKeyRequest) :
    (updateApiKey x id request).run.Ends
      (fun _ t => Toggles key id request.syncSecret v t) v := by
  unfold updateApiKey
  refine ends_read (idles_ofExcept _) hv (fun _ s _ hs => ?_) fun e t h => toggles_nothing h
  refine ends_bind (ends_get hs.keyed) (fun found t hgot => ?_)
    fun e t h => toggles_nothing (hs.trans h.1)
  obtain ⟨record, old⟩ := found
  obtain ⟨hsame, hfound⟩ := hgot
  obtain ⟨hold, -, -⟩ := hfound record old rfl
  rw [hs.rows] at hold
  refine ends_bind (ends_checkKind hsame.keyed) (fun _ u hcheck => ?_)
    fun e u h => toggles_nothing (hs.trans (hsame.trans h.1))
  have hu := hs.trans (hsame.trans hcheck.1)
  have hput : ∀ value : ApiKeyRecord, (putApiKeyRecord x id (old.version + 1)
      (!request.syncSecret) false value).run.Ends
        (fun _ w => Toggles key id request.syncSecret v w) u :=
    fun value => ends_putToggled value hc hu hold (hcheck.2 rfl)
  exact ends_bind (hput _) (fun _ w hw => hw) fun e w hw => hw

/-- Whatever its outcome, a toggle writes the next version of its row or nothing. -/
theorem toggles (hc : x.aead.Correct) (hv : Keyed key v) (op : Toggle) :
    Toggles key op.id op.syncSecret v ((op.program x).run v).2 := by
  cases op with
  | setIdentitySyncSecret id syncSecret =>
    have hends := ends_setIdentitySyncSecret hc hv id syncSecret
    have hprogram : ((Toggle.setIdentitySyncSecret id syncSecret).program x).run.Ends
        (fun _ t => Toggles key id syncSecret v t) v :=
      ends_bind hends (fun _ _ h => h) fun _ _ h => h
    exact hprogram
  | updateApiKey id request =>
    have hends := ends_updateApiKey hc hv id request
    have hprogram : ((Toggle.updateApiKey id request).program x).run.Ends
        (fun _ t => Toggles key id request.syncSecret v t) v :=
      ends_bind hends (fun _ _ h => h) fun _ _ h => h
    exact hprogram

end Specs

/-! ## Runs -/

/-- A toggle, a write of any row, any other change of a device's vault, and a sync. -/
inductive Step (D : Type) where
  | toggle (d : D) (op : Toggle)
  | edit (d : D) (row : ItemRow) (vault : Vault)
  | other (d : D) (vault : Vault)
  | sync (d : D)

section Runs
variable {D : Type} [DecidableEq D] (x : Externals) (b64 : Base64) (key : VaultKey)

def perform (s : Fleet D) : Step D → Fleet D
  | .toggle d op => setVault s d ((op.program x).run (s.devices d).vault).2
  | .edit d _ vault => setVault s d vault
  | .other d vault => setVault s d vault
  | .sync d => SyncFleets.perform x.aead b64 s (.sync d)

def run (s : Fleet D) (steps : List (Step D)) : Fleet D := steps.foldl (perform x b64) s

/-- `P` holds of every step in the state it is taken in. -/
def Along (P : Fleet D → Step D → Prop) : Fleet D → List (Step D) → Prop
  | _, [] => True
  | s, step :: steps => P s step ∧ Along P (perform x b64 s step) steps

instance decidableAlong (P : Fleet D → Step D → Prop) [∀ s step, Decidable (P s step)] :
    (s : Fleet D) → (steps : List (Step D)) → Decidable (Along x b64 P s steps)
  | _, [] => instDecidableTrue
  | s, step :: steps =>
    have := decidableAlong P (perform x b64 s step) steps
    inferInstanceAs (Decidable (P s step ∧ Along x b64 P (perform x b64 s step) steps))

/-- What the step writes. -/
def asStep (s : Fleet D) : Step D → SyncFleets.Step D
  | .toggle d op =>
    let vault := ((op.program x).run (s.devices d).vault).2
    match vault.db.getItem op.id with
    | some w => if row s d op.id = some w then .other d vault else .write d w vault
    | none => .other d vault
  | .edit d w vault => .write d w vault
  | .other d vault => .other d vault
  | .sync d => .sync d

def asSteps : Fleet D → List (Step D) → List (SyncFleets.Step D)
  | _, [] => []
  | s, step :: steps => asStep x s step :: asSteps (perform x b64 s step) steps

/-- Toggles are made by devices that hold the key, of rows that are not of the last version.
Other writes store the next version of their row, and syncs succeed. -/
def Proceeds (s : Fleet D) : Step D → Prop
  | .toggle d op => Keyed key (s.devices d).vault ∧
      ∀ old, row s d op.id = some old → old.version.toNat + 1 < 2 ^ 64
  | .edit d w vault => Allowed x.aead b64 s (.write d w vault)
  | .other d vault => Allowed x.aead b64 s (.other d vault)
  | .sync d => Allowed x.aead b64 s (.sync d)

/-- The step leaves the directory's revision below `u64::MAX`. -/
def StaysBelow (s : Fleet D) (step : Step D) : Prop :=
  (perform x b64 s step).backend.revision.toNat < 2 ^ 64 - 1

instance (s : Fleet D) (step : Step D) : Decidable (StaysBelow x b64 s step) :=
  inferInstanceAs (Decidable (_ < _))

/-- A step that takes `local_only` from the row is not beaten by the directory's item, or its
device has yet to pull the directory's revision. -/
def OptsInLate (id : Uuid) (s : Fleet D) (step : Step D) : Prop :=
  RejoinsLate id s (asStep x s step)

variable {x b64 key} {s : Fleet D}

theorem perform_eq (s : Fleet D) (step : Step D) :
    perform x b64 s step = SyncFleets.perform x.aead b64 s (asStep x s step) := by
  cases step with
  | toggle d op =>
    simp only [perform, asStep]
    split
    · split <;> rfl
    · rfl
  | edit d w vault => rfl
  | other d vault => rfl
  | sync d => rfl

theorem run_eq (s : Fleet D) (steps : List (Step D)) :
    run x b64 s steps = SyncFleets.run x.aead b64 s (asSteps x b64 s steps) := by
  induction steps generalizing s with
  | nil => rfl
  | cons step steps ih =>
    change run x b64 (perform x b64 s step) steps = SyncFleets.run x.aead b64
      (SyncFleets.perform x.aead b64 s (asStep x s step)) (asSteps x b64 (perform x b64 s step) steps)
    rw [← perform_eq]
    exact ih _

theorem asSteps_append (s : Fleet D) (steps more : List (Step D)) :
    asSteps x b64 s (steps ++ more) =
      asSteps x b64 s steps ++ asSteps x b64 (run x b64 s steps) more := by
  induction steps generalizing s with
  | nil => rfl
  | cons step steps ih => exact congrArg (asStep x s step :: ·) (ih _)

theorem asSteps_sync (s : Fleet D) (ds : List D) :
    asSteps x b64 s (ds.map .sync) = ds.map .sync := by
  induction ds generalizing s with
  | nil => rfl
  | cons d ds ih => exact congrArg (SyncFleets.Step.sync d :: ·) (ih _)

/-- What holds along a run holds along the run of its writes. -/
theorem Along.asSteps {P : Fleet D → Step D → Prop}
    {Q : Fleet D → SyncFleets.Step D → Prop} (hPQ : ∀ s step, P s step → Q s (asStep x s step))
    {steps : List (Step D)} (h : Along x b64 P s steps) :
    SyncFleets.Along x.aead b64 Q s (asSteps x b64 s steps) := by
  induction steps generalizing s with
  | nil => trivial
  | cons step steps ih =>
    refine ⟨hPQ s step h.1, ?_⟩
    rw [← perform_eq]
    exact ih h.2

theorem proceeds_syncs {ds : List D}
    (h : SyncFleets.Along x.aead b64 (Allowed x.aead b64) s (ds.map .sync)) :
    Along x b64 (Proceeds x b64 key) s (ds.map .sync) := by
  induction ds generalizing s with
  | nil => trivial
  | cons d ds ih => exact ⟨h.1, ih h.2⟩

omit [DecidableEq D] in
/-- A toggle stores the next version of its row, or nothing. -/
theorem Proceeds.allowed (hc : x.aead.Correct) {step : Step D}
    (h : Proceeds x b64 key s step) : Allowed x.aead b64 s (asStep x s step) := by
  cases step with
  | toggle d op =>
    obtain ⟨hkeyed, hversions⟩ := h
    have htoggles := (toggles hc hkeyed op).2
    simp only [asStep]
    generalize ((op.program x).run (s.devices d).vault).2 = t at htoggles
    obtain hrows | ⟨old, w, hw, hrows⟩ := htoggles
    · have hother : Allowed x.aead b64 s (.other d t) := hrows
      split
      · rename_i w hw
        rw [if_pos (show row s d op.id = some w from (hrows op.id).symm.trans hw)]
        exact hother
      · exact hother
    · have hget : t.db.getItem op.id = some w := by
        rw [hrows, VaultDb.getItem_upsertItem, if_pos hw.id.symm]
      have hold : row s d w.id = some old := by
        rw [hw.id]
        exact hw.row
      have hversion : w.version.toNat = versionOf (row s d w.id) + 1 :=
        next_version (hversions old hw.row) hold hw.version
      have hne : row s d op.id ≠ some w := by
        intro hsame
        rw [hw.id, hsame] at hversion
        change w.version.toNat = w.version.toNat + 1 at hversion
        omega
      simp only [hget]
      rw [if_neg hne]
      exact ⟨hversion, hrows⟩
  | edit d w vault => exact h
  | other d vault => exact h
  | sync d => exact h

/-- When every step that takes `local_only` from the row comes late enough, the row is on every
device, and in the directory, the latest of the writes that were to be synced. -/
theorem opted_in_converges (hc : x.aead.Correct) (hs : Fresh s) {steps : List (Step D)}
    {first second : List D} {id : Uuid} (hfirst : ∀ d, d ∈ first) (hsecond : ∀ d, d ∈ second)
    (h : Along x b64 (Proceeds x b64 key) s (steps ++ (first ++ second).map .sync))
    (hbelow : Along x b64 (StaysBelow x b64) s (steps ++ (first ++ second).map .sync))
    (hlate : Along x b64 (OptsInLate x id) s steps)
    (hdistinct : Distinct (asSteps x b64 s steps))
    (hshared : ∀ d w, row (run x b64 s steps) d id = some w → w.localOnly = false) :
    Agreed b64 (asSteps x b64 s steps) id
      (run x b64 s (steps ++ (first ++ second).map .sync)) := by
  have hsteps : asSteps x b64 s (steps ++ (first ++ second).map .sync) =
      asSteps x b64 s steps ++ (first ++ second).map .sync := by
    rw [asSteps_append, asSteps_sync]
  have hallowed := h.asSteps fun _ _ => Proceeds.allowed hc
  have hstays := hbelow.asSteps (Q := Below x.aead b64) fun t step hstep => by
    rw [Below, ← perform_eq]
    exact hstep
  rw [hsteps] at hallowed hstays
  rw [run_eq, hsteps]
  rw [run_eq] at hshared
  exact agreed_run hs hfirst hsecond hallowed hstays (hlate.asSteps fun _ _ hstep => hstep)
    hdistinct hshared

end Runs

/-! ## Two devices with one API key -/

section Samples
open SecretFleets (sampleExternals sampleKey sampleVaultHeader samplePeers sampleRequest sampleId)
open SyncConvergence

/-- A key that is kept to its device at first, and then its next version. -/
def keptRow (version : ℕ) (localOnly : Bool) : ItemRow :=
  { sampleRow (sampleUuid 1) version with kind := .apiKey, localOnly := localOnly }

def optedInSteps : List (Step Bool) :=
  [.edit true (keptRow 1 true) (sampleVault [keptRow 1 true]), .sync true,
    .edit true (keptRow 2 false) (sampleVault [keptRow 1 true, keptRow 2 false])]

theorem optedInSteps_proceed :
    Along sampleExternals standard (Proceeds sampleExternals standard sampleKey) sampleFleet
      (optedInSteps ++ ([true, false] ++ [true, false]).map .sync) := by
  have hkept : Quiet standard sampleHeader
      (setVault sampleFleet true (sampleVault [keptRow 1 true])) :=
    (sampleFleet_quiet standard).setVault (sampleVault_ready _) (sampleVault_header _)
  obtain ⟨hsync, hquiet⟩ := hkept.sync sampleExternals.aead true
  have hshared := hquiet.setVault (d := true)
    (sampleVault_ready [keptRow 1 true, keptRow 2 false]) (sampleVault_header _)
  exact ⟨⟨rfl, fun _ => rfl⟩, hsync, ⟨rfl, fun _ => rfl⟩,
    proceeds_syncs (hshared.syncs [true, false, true, false]).1⟩

theorem optedInSteps_below : Along sampleExternals standard (StaysBelow sampleExternals standard)
    sampleFleet (optedInSteps ++ ([true, false] ++ [true, false]).map .sync) := by
  decide +kernel

theorem opted_in_converges_sample :
    (run sampleExternals standard sampleFleet
      (optedInSteps ++ ([true, false] ++ [true, false]).map .sync)).backend.item (sampleUuid 1) =
        some (syncItemFromRow standard (keptRow 2 false)) := by
  have hdistinct : Distinct (asSteps sampleExternals standard sampleFleet optedInSteps) := by
    change Distinct [.write true (keptRow 1 true) _, .sync true, .write true (keptRow 2 false) _]
    unfold Distinct
    decide
  have hlate : Along sampleExternals standard (OptsInLate sampleExternals (sampleUuid 1))
      sampleFleet optedInSteps := by
    have hnone : ((run sampleExternals standard sampleFleet (optedInSteps.take 2)).backend.item
        (sampleUuid 1)).isNone = true := by decide +kernel
    refine ⟨fun _ hlocal => (by cases hlocal), trivial, fun _ _ _ => Or.inl fun item hitem => ?_,
      trivial⟩
    have hsome : ((run sampleExternals standard sampleFleet (optedInSteps.take 2)).backend.item
      (sampleUuid 1)) = some item := hitem
    rw [hsome] at hnone
    cases hnone
  have hshared : ∀ d w, row (run sampleExternals standard sampleFleet optedInSteps) d
      (sampleUuid 1) = some w → w.localOnly = false := by
    intro d w hw
    cases d with
    | true =>
      have hlast : row (run sampleExternals standard sampleFleet optedInSteps) true
        (sampleUuid 1) = some (keptRow 2 false) := rfl
      rw [hlast] at hw
      cases hw
      rfl
    | false =>
      have hnone : row (run sampleExternals standard sampleFleet optedInSteps) false
        (sampleUuid 1) = none := rfl
      rw [hnone] at hw
      cases hw
  obtain ⟨r, hlatest, -, hitem⟩ := opted_in_converges (transparent_correct _)
    sampleFleet_fresh (by decide) (by decide) optedInSteps_proceed optedInSteps_below hlate
    hdistinct hshared
  rw [hitem]
  have hwritten : ∀ w, w ∈ written (asSteps sampleExternals standard sampleFleet optedInSteps) ↔
      w = keptRow 1 true ∨ w = keptRow 2 false := by
    intro w
    simp [written, asSteps, asStep, optedInSteps]
  have hlate := hlatest.2 (keptRow 2 false) ⟨(hwritten _).2 (Or.inr rfl), rfl, rfl⟩
  cases r with
  | none => cases hlate
  | some w =>
    obtain ⟨hmem, -, hlocal⟩ := hlatest.1 w rfl
    obtain rfl | rfl := (hwritten w).1 hmem
    · cases hlocal
    · rfl

/-- The clocks of the devices differ. -/
def clockedVault (now : DateTime) : Vault :=
  ⟨⟨some sampleVaultHeader, KeyedTables.Table.empty⟩, none,
    .unlocked sampleKey sampleKey.expose 0, IDLE_LOCK_DISABLED,
    { World.quiet with utcNow := now }⟩

def clockedFleet : Fleet Bool where
  devices d := ⟨clockedVault (if d then 5 else 3), .default⟩
  backend := samplePeers.store.store

/-- What `createApiKey` writes on the first device. -/
def createdRow : ItemRow :=
  ((((VaultRepository.Operation.createApiKey (sampleRequest true)).program sampleExternals).run
    (clockedVault 5)).2.db.getItem sampleId).getD ⟨sampleId, .apiKey, 0, 0, true, true, ⟨[], []⟩⟩

def create : Step Bool :=
  .edit true createdRow
    { clockedVault 5 with db := (clockedVault 5).db.upsertItem createdRow }

def turn (d syncSecret : Bool) : Step Bool :=
  .toggle d (.updateApiKey sampleId (sampleRequest syncSecret))

/-- The second device turns the sync off, the first writes twice and syncs, and the second,
which has synced since, turns it on again. -/
def skippedSteps : List (Step Bool) :=
  [create, .sync true, .sync false, turn false false, turn true true, turn true true,
    .sync true, .sync false, turn false true]

/-- What a device holds of the key. -/
def held (s : Fleet Bool) (d : Bool) : Option (UInt64 × DateTime × Bool) :=
  (row s d sampleId).map fun w => (w.version, w.updatedAt, w.localOnly)

def succeeds (s : Fleet Bool) : List (Step Bool) → Bool
  | [] => true
  | .sync d :: steps => (syncOutcome sampleExternals.aead standard s d).1.isOk &&
      succeeds (perform sampleExternals standard s (.sync d)) steps
  | step :: steps => succeeds (perform sampleExternals standard s step) steps

def succeedsWith (b64 : Base64) (s : Fleet Bool) : List (Step Bool) → Bool
  | [] => true
  | .sync d :: steps => (syncOutcome sampleExternals.aead b64 s d).1.isOk &&
      succeedsWith b64 (perform sampleExternals b64 s (.sync d)) steps
  | step :: steps => succeedsWith b64 (perform sampleExternals b64 s step) steps

theorem succeeds_eq (s : Fleet Bool) (steps : List (Step Bool)) :
    succeeds s steps = succeedsWith standard s steps := by
  induction steps generalizing s with
  | nil => rfl
  | cons step steps ih => cases step <;> simp only [succeeds, succeedsWith, ih]

/-- The row as the first device leaves it. -/
def updatedRow : ItemRow :=
  (row (run sampleExternals standard clockedFleet [create, turn true true, turn true true]) true
    sampleId).getD createdRow

def sentBytes : List Bytes :=
  [createdRow.blob.nonce, createdRow.blob.ciphertext, updatedRow.blob.nonce,
    updatedRow.blob.ciphertext]

theorem skipped_held :
    (succeeds clockedFleet (skippedSteps ++ ([true, false] ++ [true, false]).map .sync) = true ∧
      ((written (asSteps sampleExternals standard clockedFleet skippedSteps)).map fun w =>
        (w.id, rowStamp w)).Nodup) ∧
    held (run sampleExternals standard clockedFleet
        (skippedSteps ++ ([true, false] ++ [true, false]).map .sync)) false = some (3, 3, false) ∧
    held (run sampleExternals standard clockedFleet
        (skippedSteps ++ ([true, false] ++ [true, false]).map .sync)) true = some (3, 5, false) := by
  rw [succeeds_eq, standard_eq_recalling sentBytes]
  decide +kernel

/-- The second device's cursor has passed the version it lacks, and no sync brings it. -/
theorem opted_in_converges_fails : Fresh clockedFleet ∧
    succeeds clockedFleet (skippedSteps ++ ([true, false] ++ [true, false]).map .sync) = true ∧
    Distinct (asSteps sampleExternals standard clockedFleet skippedSteps) ∧
    ¬ Agreed standard (asSteps sampleExternals standard clockedFleet skippedSteps) sampleId
      (run sampleExternals standard clockedFleet
        (skippedSteps ++ ([true, false] ++ [true, false]).map .sync)) := by
  obtain ⟨⟨hsucceeds, hdistinct⟩, hsecond, hfirst⟩ := skipped_held
  refine And.intro ⟨fun _ => rfl, fun _ => rfl, rfl⟩ (And.intro hsucceeds (And.intro hdistinct ?_))
  rintro ⟨r, -, hrows, -⟩
  unfold held at hsecond hfirst
  rw [hrows] at hsecond hfirst
  rw [hsecond] at hfirst
  revert hfirst
  decide

end Samples

end Tethra.OptIns
