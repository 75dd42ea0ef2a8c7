import Tethra.ProjectRequests
import Tethra.SecretFleets
import Tethra.SequentialUpdates
import Mathlib.Data.UInt

set_option autoImplicit false

/-!
# The versions of items

Every local write stores the version after the one it has read. The versions it reads come
from this device and from others, by way of a signed column and of JSON.
-/
namespace Tethra.ItemVersions
open AtomicPrograms AuthenticatedEncryption Base64Strings JsonValues RepositoryRequests
open RepositoryUpdates RowUpdates RunningSessions SecretFleets SequentialUpdates StatefulActions
open SyncEngine
open SyncItems VaultCrypto VaultRecords VaultRepository VaultState VaultTypes
open AtomicPrograms.Program (lift fail)
open StatefulActions.Action (read ofExcept)

/-! ## Columns -/

/-- A row of `items` in the types of the database. -/
structure ItemColumns where
  id : String
  kind : String
  version : Int64
  updatedAt : String
  deleted : Int64
  localOnly : Int64
  nonce : Bytes
  ciphertext : Bytes

inductive ConversionCause where
  | text (message : String)
  | kind (e : Error)

/-- `FromSqlConversionFailure`. -/
structure ConversionFailure where
  column : ℕ
  cause : ConversionCause

section Columns
variable (texts : RecordTexts)

def upsertItemOn (row : ItemRow) : ItemColumns where
  id := texts.uuid.display row.id
  kind := row.kind.asStr
  version := row.version.toInt64
  updatedAt := texts.time.display row.updatedAt
  deleted := if row.deleted then 1 else 0
  localOnly := if row.localOnly then 1 else 0
  nonce := row.blob.nonce
  ciphertext := row.blob.ciphertext

def mapItemRow (row : ItemColumns) : Except ConversionFailure ItemRow := do
  let id ← (texts.uuid.parse row.id).mapError fun e => ⟨0, .text e⟩
  let kind ← (ItemKind.parse row.kind).mapError fun e => ⟨1, .kind e⟩
  let updatedAt ← (texts.time.parse row.updatedAt).mapError fun e => ⟨3, .text e⟩
  pure ⟨id, kind, row.version.toUInt64, updatedAt, row.deleted != 0, row.localOnly != 0,
    ⟨row.nonce, row.ciphertext⟩⟩

/-- A row comes back from its columns, whatever its version. -/
theorem mapItemRow_upsertItemOn (row : ItemRow) :
    mapItemRow texts (upsertItemOn texts row) = .ok row := by
  have hdeleted : ((if row.deleted then 1 else 0 : Int64) != 0) = row.deleted := by
    cases row.deleted <;> rfl
  have hlocal : ((if row.localOnly then 1 else 0 : Int64) != 0) = row.localOnly := by
    cases row.localOnly <;> rfl
  unfold mapItemRow upsertItemOn
  dsimp only
  rw [texts.uuid.parse_display, ItemKind.parse_asStr, texts.time.parse_display,
    UInt64.toUInt64_toInt64, hdeleted, hlocal]
  rfl

def readUInt64 : Json → Except String UInt64
  | .number n => if 0 ≤ n ∧ n < 2 ^ 64 then .ok (UInt64.ofNat n.toNat)
    else Format.invalidType "u64"
  | _ => Format.invalidType "u64"

def writeUInt64 (n : UInt64) : Json := .number n.toNat

theorem readUInt64_write (n : UInt64) : readUInt64 (writeUInt64 n) = .ok n := by
  have hn := n.toNat_lt
  have hrange : 0 ≤ (n.toNat : ℤ) ∧ (n.toNat : ℤ) < 2 ^ 64 := by omega
  rw [writeUInt64, readUInt64, if_pos hrange]
  simp

theorem writeUInt64_ne_null (n : UInt64) : writeUInt64 n ≠ .null := fun h => by cases h

/-- A `u64` as `serde_json` writes and reads it. -/
def uint64 : Format UInt64 := ⟨writeUInt64, readUInt64, readUInt64_write, writeUInt64_ne_null⟩

end Columns

/-! ## Jobs -/

inductive Work where
  | operation (o : VaultRepository.Operation)
  | session (o : RunningSessions.Operation)
  | project (o : ProjectRequests.Operation)
  | apply (item : SyncItem)

def Work.isLocal : Work → Bool
  | .apply _ => false
  | _ => true

def Work.program (x : Externals) (toLowercase : String → String) (b64 : Base64) :
    Work → RepositoryM Unit
  | .operation o => o.program x
  | .session o => o.program x toLowercase
  | .project o => o.program x
  | .apply item => do let _ ← applyItem b64 item

/-- Work with the identifiers that may be drawn for it. -/
structure Job where
  work : Work
  ids : Uuid → Prop

section Jobs
variable (x : Externals) (key : VaultKey) (toLowercase : String → String) (b64 : Base64)

def Job.program (job : Job) : RepositoryM Unit := job.work.program x toLowercase b64

/-- The next identifier is one of the job's; an import finds each host under the identifier in
its record. -/
def Relied (job : Job) (v : Vault) : Prop :=
  job.ids (v.world.uuidAt v.world.draws) ∧
    match job.work with
    | .operation o => Relies x key (.operation o) v
    | _ => True

def New (job : Job) (row : ItemRow) : Prop := job.ids row.id

/-- What a job makes of the version in the row it replaces; no row counts as version 0. -/
def Follows (job : Job) (old : Option ItemRow) (new : ItemRow) : Prop :=
  match job.work with
  | .apply item => shouldApply item old = true ∧ itemRowFromSync b64 item = .ok new
  | _ => new.version = old.elim 0 ItemRow.version + 1

end Jobs

/-! ## What each job writes -/

section Writes
variable {x : Externals} {key : VaultKey} {toLowercase : String → String} {b64 : Base64}
variable {A : Vault → Prop} {job : Job} {g : Trace Uuid ItemRow} {α : Type}

theorem Edit.version {o : VaultRepository.Operation} {old : Option ItemRow} {new : ItemRow}
    (h : Edit x key b64 (.operation o) old new) :
    new.version = old.elim 0 ItemRow.version + 1 := by
  cases h with
  | host _ h _ => exact h.version
  | identity _ h _ => exact h.version
  | apiKey _ h _ => exact h.version
  | overwrite _ _ h => exact h
  | create _ _ h => exact h

theorem Edit.applied {item : SyncItem} {old : Option ItemRow} {new : ItemRow}
    (h : Edit x key b64 (.apply item) old new) :
    shouldApply item old = true ∧ itemRowFromSync b64 item = .ok new := by
  cases h with
  | apply happly hrow => exact ⟨happly, hrow⟩

/-- The next version of a row that was read. -/
theorem grounded_putNext (hc : x.aead.Correct) (hlocal : job.work.isLocal = true)
    {Q : Unit → Trace Uuid ItemRow → Prop} {f : Format α} {id : Uuid} {kind : ItemKind}
    {localOnly deleted : Bool} {value : α} {old : ItemRow} (hseen : g.seen id (some old))
    (hQ : ∀ g', g.Le g' → Q () g') :
    Grounded rows (Keyed key) A (Allows rows New (Follows b64) job) Q
      (putEncryptedJson x f id kind (old.version + 1) localOnly deleted value) g := by
  apply grounded_put hc
  · intro row g' hle hrow
    obtain rfl : row.id = id := hrow.id
    refine Or.inl ⟨some old, hle.seen _ _ hseen, ?_⟩
    obtain ⟨work, ids⟩ := job
    cases work with
    | apply item => cases hlocal
    | operation o => exact hrow.version
    | session o => exact hrow.version
    | project o => exact hrow.version
  · exact fun row g' hle _ _ => hQ g' hle

/-- The first version under a new identifier. -/
theorem grounded_putFirst (hc : x.aead.Correct) (hlocal : job.work.isLocal = true)
    {Q : Unit → Trace Uuid ItemRow → Prop} {f : Format α} {id : Uuid} {kind : ItemKind}
    {localOnly deleted : Bool} {value : α} (hid : job.ids id) (hQ : ∀ g', g.Le g' → Q () g') :
    Grounded rows (Keyed key) A (Allows rows New (Follows b64) job) Q
      (putEncryptedJson x f id kind 1 localOnly deleted value) g := by
  apply grounded_put hc
  · intro row g' hle hrow
    obtain rfl : row.id = id := hrow.id
    refine Or.inr ⟨hid, ?_⟩
    obtain ⟨work, ids⟩ := job
    cases work with
    | apply item => cases hlocal
    | operation o => exact hrow.version
    | session o => exact hrow.version
    | project o => exact hrow.version
  · exact fun row g' hle _ _ => hQ g' hle

theorem grounded_drawOwn {G : (Uuid → Option ItemRow → Prop) → ItemRow → Prop}
    {Q : Uuid → Trace Uuid ItemRow → Prop} (hQ : ∀ id g', job.ids id → g.Le g' → Q id g') :
    Grounded rows (Keyed key) (Relied x key job) G Q (lift (draw World.uuidAt)) g := by
  apply grounded_idle (idles_draw _)
  intro v id g' _ hrelied hid hle
  cases hid
  exact hQ _ g' hrelied.1 hle

/-- A job's program installs next versions of what it has seen, and first versions. -/
def Sound (x : Externals) (key : VaultKey) (toLowercase : String → String) (b64 : Base64)
    (job : Job) : Prop :=
  Grounded rows (Keyed key) (Relied x key job) (Allows rows New (Follows b64) job)
    (fun _ _ => True) (job.program x toLowercase b64) Trace.empty

theorem sound_createProject (hc : x.aead.Correct)
    (request : ProjectRequests.CreateProjectRequest) (ids : Uuid → Prop) :
    Sound x key toLowercase b64 ⟨.project (.createProject request), ids⟩ := by
  apply Grounded.bind
  apply Grounded.bind
  apply grounded_ofExcept
  intro _ g₁ _ _
  apply Grounded.bind
  apply grounded_drawOwn
  intro id g₂ hid _
  apply Grounded.bind
  apply grounded_putFirst hc rfl hid
  exact fun _ _ => trivial

theorem sound_updateProject (hc : x.aead.Correct) (id : Uuid)
    (request : ProjectRequests.CreateProjectRequest) (ids : Uuid → Prop) :
    Sound x key toLowercase b64 ⟨.project (.updateProject id request), ids⟩ := by
  apply Grounded.bind
  apply Grounded.bind
  apply grounded_ofExcept
  intro _ g₁ _ _
  apply Grounded.bind
  apply grounded_get
  intro record row g₂ _ hseen _ _ _
  apply Grounded.bind
  apply grounded_checkKind
  apply Grounded.bind
  apply grounded_putNext hc rfl hseen
  exact fun _ _ => trivial

theorem sound_touchProjectOpened (hc : x.aead.Correct) (id : Uuid) (ids : Uuid → Prop) :
    Sound x key toLowercase b64 ⟨.project (.touchProjectOpened id), ids⟩ := by
  apply Grounded.bind
  apply Grounded.bind
  apply grounded_get
  intro record row g₁ _ hseen _ _ _
  apply Grounded.bind
  apply grounded_checkKind
  apply Grounded.bind
  apply grounded_read
  intro now g₂ hle₂
  apply Grounded.bind
  apply grounded_putNext hc rfl (hle₂.seen _ _ hseen)
  exact fun _ _ => trivial

theorem grounded_endRunningSession (hc : x.aead.Correct) (hlocal : job.work.isLocal = true)
    {Q : Unit → Trace Uuid ItemRow → Prop} (id : Uuid) (hQ : ∀ g', g.Le g' → Q () g') :
    Grounded rows (Keyed key) A (Allows rows New (Follows b64) job) Q
      (endRunningSession x id) g := by
  apply Grounded.bind
  apply grounded_get
  intro record row g₁ hle₁ hseen _ _ _
  apply Grounded.bind
  apply grounded_checkKind
  apply grounded_putNext hc hlocal hseen
  exact fun g' hle => hQ g' (hle₁.trans hle)

theorem sound_markProjectRunning (hc : x.aead.Correct) (projectId hostId : Uuid)
    (agentId : Option String) (startedOnDevice : String) (ids : Uuid → Prop) :
    Sound x key toLowercase b64
      ⟨.session (.markProjectRunning projectId hostId agentId startedOnDevice), ids⟩ := by
  apply Grounded.bind
  apply Grounded.bind
  apply Grounded.of_each (each_findRunningSession reading_idles projectId)
  intro found g₁ _
  cases found with
  | some existing =>
    apply Grounded.bind
    apply grounded_get
    intro record row g₂ _ hseen _ _ _
    apply Grounded.bind
    apply grounded_read
    intro now g₃ hle₃
    apply Grounded.bind
    apply grounded_putNext hc rfl (hle₃.seen _ _ hseen)
    intro g₄ _
    exact Grounded.of_each (each_summaryOf reading_idles _ _ _) fun _ _ _ => trivial
  | none =>
    apply Grounded.bind
    apply grounded_read
    intro now g₂ _
    apply Grounded.bind
    apply grounded_drawOwn
    intro id g₃ hid _
    apply Grounded.bind
    apply grounded_putFirst hc rfl hid
    intro g₄ _
    exact Grounded.of_each (each_summaryOf reading_idles _ _ _) fun _ _ _ => trivial

theorem sound_deleteProject (hc : x.aead.Correct) (id : Uuid) (ids : Uuid → Prop) :
    Sound x key toLowercase b64 ⟨.session (.deleteProject id), ids⟩ := by
  apply Grounded.bind
  apply grounded_get
  intro record row g₁ _ hseen _ _ _
  apply Grounded.bind
  apply grounded_checkKind
  apply Grounded.bind
  apply Grounded.of_each (each_findRunningSession reading_idles id)
  intro found g₂ hle₂
  apply Grounded.bind
  have hlast : ∀ g', g₂.Le g' → Grounded rows (Keyed key)
      (Relied x key ⟨.session (.deleteProject id), ids⟩)
      (Allows rows New (Follows b64) ⟨.session (.deleteProject id), ids⟩) (fun _ _ => True)
      (putEncryptedJson x (project x.texts) id .project (row.version + 1) false true record)
      g' := fun g' hle =>
    grounded_putNext hc rfl (hle.seen _ _ (hle₂.seen _ _ hseen)) fun _ _ => trivial
  cases found with
  | some session => exact grounded_endRunningSession hc rfl session.id hlast
  | none => exact hlast g₂ (.refl g₂)

theorem sound_operation (hc : x.aead.Correct) (o : VaultRepository.Operation)
    (ids : Uuid → Prop) : Sound x key toLowercase b64 ⟨.operation o, ids⟩ := by
  have hs : Supplies (Relied x key ⟨.operation o, ids⟩) ids fun _ row => ids row.id :=
    ⟨fun _ h => h.1, fun _ _ h _ => h⟩
  have hsound : SoundFor x key b64 (Relied x key ⟨.operation o, ids⟩) (fun _ row => ids row.id)
      (.operation o) := sound_for hc hs (.operation o) fun _ h => h.2
  refine (hsound.mono fun _ _ _ => trivial).allow fun seen row h => ?_
  rcases h with ⟨old, hold, hedit⟩ | ⟨hnew, hedit⟩
  · exact Or.inl ⟨old, hold, Edit.version hedit⟩
  · exact Or.inr ⟨hnew, Edit.version hedit⟩

theorem sound_applyItem (item : SyncItem) (ids : Uuid → Prop) :
    Sound x key toLowercase b64 ⟨.apply item, ids⟩ := by
  have hsound : SoundFor x key b64 (Relied x key ⟨.apply item, ids⟩) (fun _ _ => False)
      (.apply item) := sound_apply item
  refine (hsound.mono fun _ _ _ => trivial).allow fun seen row h => ?_
  rcases h with ⟨old, hold, hedit⟩ | ⟨hnew, -⟩
  · exact Or.inl ⟨old, hold, Edit.applied hedit⟩
  · exact hnew.elim

theorem sound_job (hc : x.aead.Correct) (job : Job) : Sound x key toLowercase b64 job := by
  obtain ⟨work, ids⟩ := job
  cases work with
  | operation o => exact sound_operation hc o ids
  | apply item => exact sound_applyItem item ids
  | session o =>
    cases o with
    | markProjectRunning projectId hostId agentId device =>
      exact sound_markProjectRunning hc projectId hostId agentId device ids
    | endRunningSession id => exact grounded_endRunningSession hc rfl id fun _ _ => trivial
    | deleteProject id => exact sound_deleteProject hc id ids
  | project o =>
    cases o with
    | createProject request => exact sound_createProject hc request ids
    | updateProject id request => exact sound_updateProject hc id request ids
    | touchProjectOpened id => exact sound_touchProjectOpened hc id ids

end Writes

/-! ## A pull, item by item -/

section Pulls
variable {β : Type} (b64 : Base64)

theorem vaultAction_ofExcept {α : Type} (r : Except Error α) :
    (vaultAction (ofExcept r) : Action (Engine × β) Error α) = ofExcept r := by
  funext s
  rfl

/-- What `sync_now` does with the items it pulls is to apply them one after another. -/
theorem applyItems_cons (applied : UInt32) (item : SyncItem) (items : List SyncItem) :
    (applyItems b64 applied (item :: items) : EngineM β UInt32) =
      onEngine (applyItem b64 item) >>= fun done =>
        applyItems b64 (if done then applied + 1 else applied) items := by
  unfold applyItem
  rw [applyItems]
  change Program.act _ _ = Program.act _ _
  congr 1
  funext row
  change (if _ then _ else _) = Program.bind (onEngine (if _ then _ else _)) _
  split
  · change Program.act _ _ = Program.act _ _
    rw [vaultAction_ofExcept]
    rfl
  · rfl

end Pulls

/-! ## Versions along a run -/

/-- `P` holds of the row before and the row after each local write. -/
def EachLocal (P : Option ItemRow → ItemRow → Prop) :
    Option ItemRow → List (Entry Job ℕ ItemRow) → Prop
  | _, [] => True
  | old, entry :: rest =>
    (entry.job.work.isLocal = true → P old entry.row) ∧ EachLocal P (some entry.row) rest

/-- The row written over `old` has a greater version, is read back as it was written, and beats
`old` wherever its item arrives. -/
def Beats (texts : RecordTexts) (b64 : Base64) (old : Option ItemRow) (new : ItemRow) : Prop :=
  ∀ row ∈ old, row.version < new.version ∧
    mapItemRow texts (upsertItemOn texts new) = .ok new ∧
    ∀ version, uint64.read (uint64.write new.version) = .ok version →
      winsOver { syncItemFromRow b64 new with version := version } row = true

/-- There is a version after that of `old`. -/
def Unspent (old : Option ItemRow) (_ : ItemRow) : Prop :=
  ∀ row ∈ old, row.version.toNat ≠ 2 ^ 64 - 1

section Runs
variable {x : Externals} {key : VaultKey} {toLowercase : String → String} {b64 : Base64}
variable {texts : RecordTexts} {y : Board Vault Error Job ℕ}

theorem lt_add_one_iff (v : UInt64) : v < v + 1 ↔ v.toNat ≠ 2 ^ 64 - 1 := by
  have hv := v.toNat_lt
  rw [UInt64.lt_iff_toNat_lt, UInt64.toNat_add]
  change v.toNat < (v.toNat + 1) % 2 ^ 64 ↔ _
  omega

theorem beats_iff {old : Option ItemRow} {new : ItemRow}
    (h : new.version = old.elim 0 ItemRow.version + 1) :
    Beats texts b64 old new ↔ Unspent old new := by
  cases old with
  | none =>
    constructor
    · intro _ row hrow
      cases hrow
    · intro _ row hrow
      cases hrow
  | some row =>
    change new.version = row.version + 1 at h
    constructor
    · intro hbeats other hother
      obtain ⟨hlt, -⟩ := hbeats other hother
      cases hother
      rw [h] at hlt
      exact (lt_add_one_iff row.version).1 hlt
    · intro hunspent other hother
      have hlt : other.version < new.version := by
        cases hother
        rw [h]
        exact (lt_add_one_iff row.version).2 (hunspent row rfl)
      refine ⟨hlt, mapItemRow_upsertItemOn texts new, fun version hread => ?_⟩
      rw [uint64.read_write] at hread
      obtain rfl := Except.ok.inj hread
      rw [winsOver_iff]
      exact stampOf_lt.2 (Or.inl hlt)

theorem eachLocal_iff {old last : Option ItemRow} {entries : List (Entry Job ℕ ItemRow)}
    (h : Chain (Follows b64) old entries last) :
    EachLocal (Beats texts b64) old entries ↔ EachLocal Unspent old entries := by
  induction entries generalizing old with
  | nil => exact Iff.rfl
  | cons entry rest ih =>
    refine and_congr (forall_congr' fun hlocal => ?_) (ih h.2)
    have hfollows := h.1
    obtain ⟨task, ⟨work, ids⟩, row⟩ := entry
    cases work with
    | apply item => cases hlocal
    | operation o => exact beats_iff hfollows
    | session o => exact beats_iff hfollows
    | project o => exact beats_iff hfollows

end Runs

section Samples

def toLower : String → String := String.toLower

def sampleBoard : Board Vault Error Job ℕ := ⟨(samplePeers.engines true).vault, fun _ => none⟩

def anyIds : Uuid → Prop := fun _ => True

/-- A key record of another device, in a row of the last version. -/
def lastRow : ItemRow :=
  let record : ApiKeyRecord := ⟨sampleId, "claude", .anthropic, none, none, "sk", true⟩
  let blob := do
    let plaintext ← sampleExternals.encode sampleExternals.texts.apiKey record
    encryptItem sampleExternals.aead sampleKey (World.quiet.nonceAt 0) sampleId (2 ^ 64 - 1)
      plaintext
  ⟨sampleId, .apiKey, 2 ^ 64 - 1, 0, false, false, (blob.toOption).getD ⟨[], []⟩⟩

/-- It is pulled, and then edited here. -/
def wrapping : List (Job × ℕ) :=
  [(⟨.apply (syncItemFromRow standard lastRow), anyIds⟩, 4),
    (⟨.operation (.updateApiKey sampleId (sampleRequest true)), anyIds⟩, 13)]

def after (jobs : List (Job × ℕ)) : Board Vault Error Job ℕ :=
  run (Job.program sampleExternals toLower standard) sampleBoard (oneByOne 0 jobs)

def returned : Option (Task Vault Error Job) → Bool
  | some (.finished _ (.ok _)) => true
  | _ => false

/-- Applying the item of a row, with the row that the item gives. -/
def pulling (pulled : ItemRow) : RepositoryM Bool := do
  let row ← lift (withDb fun db => .ok (db.getItem pulled.id))
  if shouldApply (syncItemFromRow standard pulled) row then do
    let row ← lift (ofExcept (.ok { pulled with localOnly := false }))
    lift (withDbMut fun db => db.upsertItem row)
    pure true
  else pure false

theorem applyItem_pulling (row : ItemRow) :
    applyItem standard (syncItemFromRow standard row) = pulling row := by
  unfold applyItem
  rw [itemRowFromSync_syncItemFromRow]
  rfl

def pulled (steps : List (Step Vault Job ℕ)) : Board Vault Error Job ℕ :=
  run (Job.program sampleExternals toLower standard)
    (sampleBoard.settle 0 sampleBoard.state
      (.running ⟨.apply (syncItemFromRow standard lastRow), anyIds⟩
        (do let _ ← pulling lastRow))) steps

/-- What happens after the pull has begun. -/
theorem after_eq (jobs : List (Job × ℕ)) (actions : ℕ) :
    after ((⟨.apply (syncItemFromRow standard lastRow), anyIds⟩, actions) :: jobs) =
      pulled (List.replicate actions (.advance 0) ++ oneByOne 1 jobs) := by
  rw [pulled, ← applyItem_pulling]
  rfl

/-- A key is created. -/
def creation : List (Job × ℕ) :=
  [(⟨.operation (.createApiKey (sampleRequest false)), anyIds⟩, 8)]

end Samples
end Tethra.ItemVersions
