import Tethra.RepositoryUpdates

set_option autoImplicit false

/-!
# Projects and their running sessions

A running session is a row of its own that names its project. The repository looks for the
session of a project among the live rows of its own vault.
-/
namespace Tethra.RunningSessions
open AtomicPrograms AuthenticatedEncryption JsonValues RepositoryRequests RepositoryUpdates RowUpdates
open StatefulActions VaultCrypto VaultRecords VaultRepository VaultState VaultTypes
open AtomicPrograms.Program (lift fail)
open StatefulActions.Action (read ofExcept)

/-! ## Records -/

inductive ProjectLocation where
  | local (path : String)
  | remote (hostId : Uuid) (path : String)
  deriving DecidableEq

structure ProjectRecord where
  id : Uuid
  name : String
  location : ProjectLocation
  defaultAgent : Option String
  assistKeyId : Option Uuid
  lastOpened : Option DateTime
  deriving DecidableEq

/-- Field for field the record. -/
abbrev ProjectSummary := ProjectRecord

structure RunningSessionRecord where
  id : Uuid
  projectId : Uuid
  hostId : Uuid
  agentId : Option String
  muxSession : String
  startedAt : DateTime
  lastAttachedAt : DateTime
  startedOnDevice : String
  deriving DecidableEq

/-- Field for field the record. -/
abbrev RunningSession := RunningSessionRecord

structure RunningSessionSummary where
  id : Uuid
  projectId : Uuid
  projectName : String
  hostId : Uuid
  hostLabel : String
  agentId : Option String
  muxSession : String
  startedAt : DateTime
  lastAttachedAt : DateTime
  startedOnDevice : String
  deriving DecidableEq

section Formats
variable (texts : RecordTexts)

def writeLocation : ProjectLocation → Json
  | .local path => .object [("kind", .string "local"), ("path", .string path)]
  | .remote hostId path =>
    .object [("kind", .string "remote"), ("host_id", texts.uuidFormat.write hostId),
      ("path", .string path)]

def readLocation (v : Json) : Except String ProjectLocation := do
  let kind ← field .string "kind" v
  if kind = "local" then do
    let path ← field .string "path" v
    pure (.local path)
  else if kind = "remote" then do
    let hostId ← field texts.uuidFormat "host_id" v
    let path ← field .string "path" v
    pure (.remote hostId path)
  else unknownVariant kind

def location : Format ProjectLocation where
  write := writeLocation texts
  read := readLocation texts
  read_write l := by
    cases l with
    | «local» path => rfl
    | remote hostId path =>
      have hid : field texts.uuidFormat "host_id" (writeLocation texts (.remote hostId path)) =
          .ok hostId := field_written rfl
      change (field texts.uuidFormat "host_id" _ >>= fun hostId => _) = _
      rw [hid]
      rfl
  write_ne_null l h := by cases l <;> cases h

def writeProject (r : ProjectRecord) : Json :=
  .object [("id", texts.uuidFormat.write r.id), ("name", .string r.name),
    ("location", (location texts).write r.location),
    ("default_agent", writeOption .string r.defaultAgent),
    ("assist_key_id", writeOption texts.uuidFormat r.assistKeyId),
    ("last_opened", writeOption texts.timeFormat r.lastOpened)]

def readProject (v : Json) : Except String ProjectRecord := do
  let id ← field texts.uuidFormat "id" v
  let name ← field .string "name" v
  let place ← field (location texts) "location" v
  let defaultAgent ← optionField .string "default_agent" v
  let assistKeyId ← optionField texts.uuidFormat "assist_key_id" v
  let lastOpened ← optionField texts.timeFormat "last_opened" v
  pure ⟨id, name, place, defaultAgent, assistKeyId, lastOpened⟩

def project : Format ProjectRecord where
  write := writeProject texts
  read := readProject texts
  read_write r := by
    have hid : field texts.uuidFormat "id" (writeProject texts r) = .ok r.id := field_written rfl
    have hplace : field (location texts) "location" (writeProject texts r) = .ok r.location :=
      field_written rfl
    have hagent : optionField .string "default_agent" (writeProject texts r) =
        .ok r.defaultAgent := optionField_written rfl
    have hkey : optionField texts.uuidFormat "assist_key_id" (writeProject texts r) =
        .ok r.assistKeyId := optionField_written rfl
    have hopened : optionField texts.timeFormat "last_opened" (writeProject texts r) =
        .ok r.lastOpened := optionField_written rfl
    rw [readProject, hid, hplace, hagent, hkey, hopened]
    rfl
  write_ne_null _ h := by cases h

def writeRunningSession (r : RunningSessionRecord) : Json :=
  .object [("id", texts.uuidFormat.write r.id), ("project_id", texts.uuidFormat.write r.projectId),
    ("host_id", texts.uuidFormat.write r.hostId), ("agent_id", writeOption .string r.agentId),
    ("mux_session", .string r.muxSession), ("started_at", texts.timeFormat.write r.startedAt),
    ("last_attached_at", texts.timeFormat.write r.lastAttachedAt),
    ("started_on_device", .string r.startedOnDevice)]

def readRunningSession (v : Json) : Except String RunningSessionRecord := do
  let id ← field texts.uuidFormat "id" v
  let projectId ← field texts.uuidFormat "project_id" v
  let hostId ← field texts.uuidFormat "host_id" v
  let agentId ← optionField .string "agent_id" v
  let muxSession ← field .string "mux_session" v
  let startedAt ← field texts.timeFormat "started_at" v
  let lastAttachedAt ← field texts.timeFormat "last_attached_at" v
  let startedOnDevice ← field .string "started_on_device" v
  pure ⟨id, projectId, hostId, agentId, muxSession, startedAt, lastAttachedAt, startedOnDevice⟩

def runningSession : Format RunningSessionRecord where
  write := writeRunningSession texts
  read := readRunningSession texts
  read_write r := by
    have hid : field texts.uuidFormat "id" (writeRunningSession texts r) = .ok r.id :=
      field_written rfl
    have hproject : field texts.uuidFormat "project_id" (writeRunningSession texts r) =
        .ok r.projectId := field_written rfl
    have hhost : field texts.uuidFormat "host_id" (writeRunningSession texts r) = .ok r.hostId :=
      field_written rfl
    have hagent : optionField .string "agent_id" (writeRunningSession texts r) = .ok r.agentId :=
      optionField_written rfl
    have hmux : field .string "mux_session" (writeRunningSession texts r) = .ok r.muxSession :=
      field_written rfl
    have hstarted : field texts.timeFormat "started_at" (writeRunningSession texts r) =
        .ok r.startedAt := field_written rfl
    have hattached : field texts.timeFormat "last_attached_at" (writeRunningSession texts r) =
        .ok r.lastAttachedAt := field_written rfl
    have hdevice : field .string "started_on_device" (writeRunningSession texts r) =
        .ok r.startedOnDevice := field_written rfl
    rw [readRunningSession, hid, hproject, hhost, hagent, hmux, hstarted, hattached, hdevice]
    rfl
  write_ne_null _ h := by cases h

end Formats

/-! ## Operations -/

/-- Alphanumeric ASCII, hyphens and underscores. -/
def isMuxChar (c : Char) : Bool := (c.toNat < 128 && c.isAlphanum) || c == '-' || c == '_'

def muxSessionName (projectId : Uuid) : String :=
  "tethra-" ++ String.ofList ((projectId.display.toList.filter isMuxChar).take 24)

def RunningSession.start (now : DateTime) (id projectId hostId : Uuid) (agentId : Option String)
    (startedOnDevice : String) : RunningSession :=
  ⟨id, projectId, hostId, agentId, muxSessionName projectId, now, now, startedOnDevice⟩

section Operations
variable (x : Externals)

/-- The rows of one kind, decrypted and decoded in order. -/
def decodeRows {α : Type} (f : Format α) (key : VaultKey) : List ItemRow → Except Error (List α)
  | [] => .ok []
  | row :: rows => do
    let plaintext ← decryptItem x.aead key row.id row.version row.blob
    let record ← x.decode f plaintext
    let rest ← decodeRows f key rows
    pure (record :: rest)

/-- `str::to_lowercase` orders the list. -/
def listProjects (toLowercase : String → String) : RepositoryM (List ProjectSummary) := do
  let key ← lift requireKey
  let rows ← lift (withDb fun db => .ok (db.listItems .project false))
  let records ← lift (ofExcept (decodeRows x (project x.texts) key rows))
  pure (records.insertionSort fun a b => toLowercase a.name ≤ toLowercase b.name)

def summarize (projects : List ProjectSummary) (hosts : List HostSummary)
    (record : RunningSessionRecord) : RunningSessionSummary where
  id := record.id
  projectId := record.projectId
  projectName := ((projects.find? fun p => p.id = record.projectId).map
    ProjectRecord.name).getD "Unknown project"
  hostId := record.hostId
  hostLabel := ((hosts.find? fun h => h.id = record.hostId).map HostSummary.label).getD
    "Unknown host"
  agentId := record.agentId
  muxSession := record.muxSession
  startedAt := record.startedAt
  lastAttachedAt := record.lastAttachedAt
  startedOnDevice := record.startedOnDevice

variable (toLowercase : String → String)

def listRunningSessions : RepositoryM (List RunningSessionSummary) := do
  let key ← lift requireKey
  let rows ← lift (withDb fun db => .ok (db.listItems .runningSession false))
  let projects ← listProjects x toLowercase
  let hosts ← listHosts x
  let records ← lift (ofExcept (decodeRows x (runningSession x.texts) key rows))
  pure ((records.map (summarize projects hosts)).insertionSort
    fun a b => b.lastAttachedAt ≤ a.lastAttachedAt)

/-- The summary of a session that was just written. -/
def summaryOf (id : Uuid) (missing : String) : RepositoryM RunningSessionSummary := do
  let sessions ← listRunningSessions x toLowercase
  match sessions.find? fun s => s.id = id with
  | some summary => pure summary
  | none => fail (.invalidArgument missing)

/-- The first listed session of the project. -/
def findSession (key : VaultKey) (projectId : Uuid) :
    List ItemRow → Except Error (Option RunningSession)
  | [] => .ok none
  | row :: rows => do
    let plaintext ← decryptItem x.aead key row.id row.version row.blob
    let record ← x.decode (runningSession x.texts) plaintext
    if record.projectId = projectId then pure (some record) else findSession key projectId rows

def findRunningSessionForProject (projectId : Uuid) : RepositoryM (Option RunningSession) := do
  let key ← lift requireKey
  let rows ← lift (withDb fun db => .ok (db.listItems .runningSession false))
  lift (ofExcept (findSession x key projectId rows))

def getRunningSession (id : Uuid) : RepositoryM (RunningSessionRecord × ItemRow) :=
  getEncryptedJson x (runningSession x.texts) id

def putRunningSession (id : Uuid) (version : UInt64) (deleted : Bool)
    (value : RunningSessionRecord) : RepositoryM Unit :=
  putEncryptedJson x (runningSession x.texts) id .runningSession version false deleted value

def markProjectRunning (projectId hostId : Uuid) (agentId : Option String)
    (startedOnDevice : String) : RepositoryM RunningSessionSummary := do
  match ← findRunningSessionForProject x projectId with
  | some existing => do
    let (record, row) ← getRunningSession x existing.id
    let now ← lift (read fun v => v.world.utcNow)
    putRunningSession x existing.id (row.version + 1) false
      { record with
        hostId := hostId
        agentId := agentId
        muxSession := muxSessionName projectId
        lastAttachedAt := now }
    summaryOf x toLowercase existing.id "running session missing after update"
  | none => do
    let now ← lift (read fun v => v.world.utcNow)
    let id ← lift (draw World.uuidAt)
    putRunningSession x id 1 false
      (RunningSession.start now id projectId hostId agentId startedOnDevice)
    summaryOf x toLowercase id "running session missing after create"

def endRunningSession (id : Uuid) : RepositoryM Unit := do
  let (record, row) ← getRunningSession x id
  checkKind row .runningSession "item is not a running session"
  putRunningSession x id (row.version + 1) true record

/-- The session a deleted project advertises. -/
def endFound : Option RunningSession → RepositoryM Unit
  | some session => endRunningSession x session.id
  | none => pure ()

def deleteProject (id : Uuid) : RepositoryM Unit := do
  let (record, row) ← getEncryptedJson x (project x.texts) id
  checkKind row .project "item is not a project"
  let found ← findRunningSessionForProject x id
  endFound x found
  putEncryptedJson x (project x.texts) id .project (row.version + 1) false true record

end Operations

inductive Operation where
  | markProjectRunning (projectId hostId : Uuid) (agentId : Option String)
      (startedOnDevice : String)
  | endRunningSession (id : Uuid)
  | deleteProject (id : Uuid)

/-- The operation without what it returns. -/
def Operation.program (x : Externals) (toLowercase : String → String) :
    Operation → RepositoryM Unit
  | .markProjectRunning projectId hostId agentId startedOnDevice => do
    let _ ← RunningSessions.markProjectRunning x toLowercase projectId hostId agentId
      startedOnDevice
  | .endRunningSession id => RunningSessions.endRunningSession x id
  | .deleteProject id => RunningSessions.deleteProject x id

/-! ## What the parts do -/

section Specs
variable {x : Externals} {key : VaultKey} {α β : Type} {v : Vault}

/-- The row is a live session of the project. -/
def LiveSession (x : Externals) (key : VaultKey) (projectId : Uuid) (row : ItemRow) : Prop :=
  row.kind = .runningSession ∧ row.deleted = false ∧
    ∃ s, Holds x key (runningSession x.texts) row s ∧ s.projectId = projectId

theorem Holds.unique {f : Format α} {row : ItemRow} {a b : α} (ha : Holds x key f row a)
    (hb : Holds x key f row b) : a = b := by
  obtain ⟨plaintext, hplain, ha⟩ := ha
  obtain ⟨plaintext', hplain', hb⟩ := hb
  rw [hplain, Except.ok.injEq] at hplain'
  subst hplain'
  rw [ha, Except.ok.injEq] at hb
  exact hb

/-- The rows are those of `v`, and the key is still the vault's. -/
structure Same (key : VaultKey) (v t : Vault) : Prop where
  rows : ∀ id, t.db.getItem id = v.db.getItem id
  keyed : Keyed key t

theorem Same.trans {t u : Vault} (h : Same key v t) (h' : Same key t u) : Same key v u :=
  ⟨fun id => (h'.rows id).trans (h.rows id), h'.keyed⟩

theorem same_of_idles {m : VaultM α} (hm : Idles rows (Keyed key) m) (hv : Keyed key v) :
    Same key v (m v).2 := ⟨hm.2 v, hm.1 v hv⟩

/-- An action that leaves the rows, and what follows it. -/
theorem ends_read {m : VaultM α} (hm : Idles rows (Keyed key) m) (hv : Keyed key v)
    {f : α → RepositoryM β} {Q : Except Error β → Vault → Prop}
    (hok : ∀ a t, m v = (.ok a, t) → Same key v t → (f a).run.Ends Q t)
    (herr : ∀ e t, Same key v t → Q (.error e) t) : (lift m >>= f).run.Ends Q v := by
  rw [Program.run_bind, Program.run_lift]
  refine Action.Ends.bind (P := fun r t => m v = (r, t) ∧ Same key v t)
    ⟨rfl, same_of_idles hm hv⟩ ?_ ?_
  · rintro a t ⟨ha, hsame⟩
    exact hok a t ha hsame
  · rintro e t ⟨-, hsame⟩
    exact herr e t hsame

/-- A program of actions that leave the rows. -/
theorem ends_idle {p : RepositoryM α} (hp : p.Each fun m => Idles rows (Keyed key) m)
    (hv : Keyed key v) : p.run.Ends (fun _ t => Same key v t) v := by
  have hwithin := Program.Each.within
    (R := fun s t : Vault => Keyed key s → Same key s t) (fun s hs => ⟨fun _ => rfl, hs⟩)
    (fun h h' hs => (h hs).trans (h' (h hs).keyed))
    (hp.mono fun hm s hs => same_of_idles hm hs)
  exact hwithin v hv

/-- A program in front of others. -/
theorem ends_bind {p : RepositoryM α} {f : α → RepositoryM β} {P : Except Error α → Vault → Prop}
    {Q : Except Error β → Vault → Prop} (hp : p.run.Ends P v)
    (hok : ∀ a t, P (.ok a) t → (f a).run.Ends Q t)
    (herr : ∀ e t, P (.error e) t → Q (.error e) t) : (p >>= f).run.Ends Q v := by
  rw [Program.run_bind]
  exact hp.bind hok herr

theorem ends_fail {e : Error} {Q : Except Error α → Vault → Prop} (h : Q (.error e) v) :
    (fail e : RepositoryM α).run.Ends Q v := by
  rw [Program.run_fail]
  exact h

theorem requireKey_ok {t : Vault} {vaultKey : VaultKey} (hv : Keyed key v)
    (h : requireKey v = (.ok vaultKey, t)) : vaultKey = key ∧ t.world = v.world := by
  obtain ⟨auth, time, hstate, rfl⟩ := requireKey_eq_ok h
  exact ⟨hv vaultKey auth time hstate, rfl⟩

theorem ends_get {f : Format α} {id : Uuid} (hv : Keyed key v) :
    (getEncryptedJson x f id).run.Ends (fun r t => Same key v t ∧ ∀ a row, r = .ok (a, row) →
      v.db.getItem id = some row ∧ row.deleted = false ∧ Holds x key f row a) v := by
  unfold getEncryptedJson
  refine ends_read idles_requireKey hv (fun k t hk hsame => ?_)
    fun e t hsame => ⟨hsame, fun a row h => by cases h⟩
  obtain ⟨rfl, -⟩ := requireKey_ok hv hk
  refine ends_read (idles_withDb _) hsame.keyed (fun r u hr hsame' => ?_)
    fun e u hsame' => ⟨hsame.trans hsame', fun a row h => by cases h⟩
  replace hsame' := hsame.trans hsame'
  have hget : v.db.getItem id = r := by
    rw [← hsame.rows]
    exact Except.ok.inj (withDb_eq_ok hr).1
  cases r with
  | none => exact ends_fail ⟨hsame', fun a row h => by cases h⟩
  | some row =>
    dsimp only
    split
    · exact ends_fail ⟨hsame', fun a row h => by cases h⟩
    · rename_i hlive
      refine ends_read (idles_ofExcept _) hsame'.keyed (fun plaintext w hplain hw => ?_)
        fun e w hw => ⟨hsame'.trans hw, fun a row h => by cases h⟩
      refine ends_read (idles_ofExcept _) hw.keyed (fun value w' hvalue hw' => ?_)
        fun e w' hw' => ⟨hsame'.trans (hw.trans hw'), fun a row h => by cases h⟩
      refine ⟨hsame'.trans (hw.trans hw'), fun a row' h => ?_⟩
      cases h
      exact ⟨hget, Bool.eq_false_iff.2 hlive, plaintext, (Action.ofExcept_eq_ok.1 hplain).1,
        (Action.ofExcept_eq_ok.1 hvalue).1⟩

theorem ends_put (hc : x.aead.Correct) {f : Format α} {id : Uuid} {kind : ItemKind}
    {version : UInt64} {localOnly deleted : Bool} {value : α} (hv : Keyed key v) :
    (putEncryptedJson x f id kind version localOnly deleted value).run.Ends (fun r t =>
      Keyed key t ∧ (∀ e, r = .error e → ∀ i, t.db.getItem i = v.db.getItem i) ∧
        (r = .ok () → ∃ w, Stores x key f id kind version localOnly deleted value w ∧
          ∀ i, t.db.getItem i = (v.db.upsertItem w).getItem i)) v := by
  have herr : ∀ (e : Error) (t : Vault), Same key v t → Keyed key t ∧
      (∀ e', (.error e : Except Error Unit) = .error e' →
        ∀ i, t.db.getItem i = v.db.getItem i) ∧
        ((.error e : Except Error Unit) = .ok () →
          ∃ w, Stores x key f id kind version localOnly deleted value w ∧
            ∀ i, t.db.getItem i = (v.db.upsertItem w).getItem i) :=
    fun e t hsame => ⟨hsame.keyed, fun _ _ => hsame.rows, fun h => by cases h⟩
  unfold putEncryptedJson
  refine ends_read idles_requireKey hv (fun k t hk h₁ => ?_) fun e t hsame => herr e t hsame
  obtain ⟨rfl, -⟩ := requireKey_ok hv hk
  refine ends_read (idles_ofExcept _) h₁.keyed (fun plaintext t₂ hplain h₂ => ?_)
    fun e t hsame => herr e t (h₁.trans hsame)
  refine ends_read (idles_draw _) h₂.keyed (fun nonce t₃ _ h₃ => ?_)
    fun e t hsame => herr e t (h₁.trans (h₂.trans hsame))
  refine ends_read (idles_ofExcept _) h₃.keyed (fun blob t₄ hblob h₄ => ?_)
    fun e t hsame => herr e t (h₁.trans (h₂.trans (h₃.trans hsame)))
  refine ends_read (idles_read _) h₄.keyed (fun updatedAt t₅ _ h₅ => ?_)
    fun e t hsame => herr e t (h₁.trans (h₂.trans (h₃.trans (h₄.trans hsame))))
  have hsame := h₁.trans (h₂.trans (h₃.trans (h₄.trans h₅)))
  rw [Program.run_lift, Action.Ends]
  obtain ⟨e, he⟩ | hok := withDbMut_cases
    (fun db => db.upsertItem ⟨id, kind, version, updatedAt, deleted, localOnly, blob⟩) t₅
  · rw [he]
    exact herr e _ ⟨hsame.rows, hsame.keyed⟩
  · rw [hok]
    have hstores := stores_of_encrypt hc (Action.ofExcept_eq_ok.1 hplain).1
      (Action.ofExcept_eq_ok.1 hblob).1 kind localOnly deleted updatedAt
    refine ⟨hsame.keyed, ?_, ?_⟩
    · intro e h
      cases h
    intro _
    refine ⟨_, hstores, fun i => ?_⟩
    change (t₅.db.upsertItem _).getItem i = _
    rw [VaultDb.getItem_upsertItem, VaultDb.getItem_upsertItem, hsame.rows]

theorem ends_checkKind {row : ItemRow} {kind : ItemKind} {message : String} (hv : Keyed key v) :
    (checkKind row kind message).run.Ends
      (fun r t => Same key v t ∧ (r = .ok () → row.kind = kind)) v := by
  unfold checkKind
  split
  · rename_i h
    exact ⟨⟨fun _ => rfl, hv⟩, fun _ => h⟩
  · exact ends_fail ⟨⟨fun _ => rfl, hv⟩, fun h => by cases h⟩

theorem findSession_ok {projectId : Uuid} {listed : List ItemRow} {found : Option RunningSession}
    (h : findSession x key projectId listed = .ok found) :
    match found with
    | none => ∀ row ∈ listed, ∀ s, Holds x key (runningSession x.texts) row s →
        s.projectId ≠ projectId
    | some s => ∃ row ∈ listed, Holds x key (runningSession x.texts) row s ∧
        s.projectId = projectId := by
  induction listed with
  | nil =>
    cases h
    intro row hrow
    cases hrow
  | cons row listed ih =>
    rw [findSession] at h
    cases hplain : decryptItem x.aead key row.id row.version row.blob with
    | error e => rw [hplain] at h; cases h
    | ok plaintext =>
      cases hrecord : x.decode (runningSession x.texts) plaintext with
      | error e =>
        rw [hplain] at h
        change (x.decode (runningSession x.texts) plaintext >>= _) = _ at h
        rw [hrecord] at h
        cases h
      | ok record =>
        have hholds : Holds x key (runningSession x.texts) row record :=
          ⟨plaintext, hplain, hrecord⟩
        rw [hplain] at h
        change (x.decode (runningSession x.texts) plaintext >>= _) = _ at h
        rw [hrecord] at h
        change (if record.projectId = projectId then _ else _) = _ at h
        split at h
        · rename_i hid
          cases h
          exact ⟨row, List.mem_cons_self, hholds, hid⟩
        · rename_i hid
          cases found with
          | none =>
            intro other hother s hs
            obtain rfl | hother := List.mem_cons.1 hother
            · rw [Holds.unique hs hholds]
              exact hid
            · exact ih h other hother s hs
          | some s =>
            obtain ⟨other, hother, hs⟩ := ih h
            exact ⟨other, List.mem_cons_of_mem _ hother, hs⟩

/-- What the scan of the live sessions says about the vault. -/
def Found (x : Externals) (key : VaultKey) (v : Vault) (projectId : Uuid) :
    Option RunningSession → Prop
  | none => ∀ id row, v.db.getItem id = some row → ¬ LiveSession x key projectId row
  | some s => ∃ row, v.db.getItem row.id = some row ∧ row.kind = .runningSession ∧
      row.deleted = false ∧ Holds x key (runningSession x.texts) row s ∧ s.projectId = projectId

/-- The identifier a new session gets: the scan before it has drawn once. -/
def newId (v : Vault) : Uuid := v.world.uuidAt (v.world.draws + 1)

theorem ends_find {projectId : Uuid} (hv : Keyed key v) :
    (findRunningSessionForProject x projectId).run.Ends (fun r t => Same key v t ∧
      ∀ found, r = .ok found → t.world.uuidAt t.world.draws = newId v ∧
        Found x key v projectId found) v := by
  unfold findRunningSessionForProject
  refine ends_read idles_requireKey hv (fun k t hk h₁ => ?_)
    fun e t hsame => ⟨hsame, fun _ h => by cases h⟩
  obtain ⟨rfl, hworld⟩ := requireKey_ok hv hk
  refine ends_read (idles_withDb _) h₁.keyed (fun listed u hlisted h₂ => ?_)
    fun e u hsame => ⟨h₁.trans hsame, fun _ h => by cases h⟩
  obtain ⟨hrows, hu⟩ := withDb_eq_ok hlisted
  have hmem : ∀ row, row ∈ listed ↔ v.db.getItem row.id = some row ∧
      row.kind = .runningSession ∧ row.deleted = false := by
    intro row
    rw [← Except.ok.inj hrows, VaultDb.mem_listItems, h₁.rows]
    simp
  rw [Program.run_lift]
  refine ⟨h₁.trans h₂, fun found hfound => ⟨?_, ?_⟩⟩
  · rw [newId, hu]
    change t.world.uuidAt (t.world.draws + 1) = _
    rw [hworld]
  · have hscan := findSession_ok hfound
    cases found with
    | none =>
      rintro id row hrow ⟨hkind, hlive, s, hs, hid⟩
      obtain rfl := VaultDb.getItem_id hrow
      exact hscan row ((hmem row).2 ⟨hrow, hkind, hlive⟩) s hs hid
    | some s =>
      obtain ⟨row, hrow, hs, hid⟩ := hscan
      obtain ⟨hget, hkind, hlive⟩ := (hmem row).1 hrow
      exact ⟨row, hget, hkind, hlive, hs, hid⟩

theorem each_findRunningSession {P : ∀ {γ : Type}, VaultM γ → Prop} (hP : Reading P)
    (projectId : Uuid) : (findRunningSessionForProject x projectId).Each P := by
  apply Program.Each.bind (Program.Each.lift hP.requireKey)
  intro key
  apply Program.Each.bind (Program.Each.lift (hP.withDb _))
  exact fun listed => hP.decoded _

theorem each_listRunningSessions {P : ∀ {γ : Type}, VaultM γ → Prop} (hP : Reading P)
    (toLowercase : String → String) : (listRunningSessions x toLowercase).Each P := by
  apply Program.Each.bind (Program.Each.lift hP.requireKey)
  intro k
  apply Program.Each.bind (Program.Each.lift (hP.withDb _))
  intro listed
  apply Program.Each.bind
  · apply Program.Each.bind (Program.Each.lift hP.requireKey)
    intro k'
    apply Program.Each.bind (Program.Each.lift (hP.withDb _))
    intro listed'
    exact Program.Each.bind (hP.decoded _) fun _ => Program.Each.pure _
  intro projects
  apply Program.Each.bind hP.listHosts
  intro hosts
  exact Program.Each.bind (hP.decoded _) fun _ => Program.Each.pure _

theorem each_summaryOf {P : ∀ {γ : Type}, VaultM γ → Prop} (hP : Reading P)
    (toLowercase : String → String) (id : Uuid) (missing : String) :
    (summaryOf x toLowercase id missing).Each P := by
  apply Program.Each.bind (each_listRunningSessions hP toLowercase)
  intro sessions
  cases sessions.find? fun s => s.id = id with
  | some summary => exact Program.Each.pure _
  | none => exact hP.failed _

/-! ## What the operations write -/

/-- A row of a session that is not kept to its device. -/
structure Session (x : Externals) (key : VaultKey) (row : ItemRow) (s : RunningSession) :
    Prop where
  kind : row.kind = .runningSession
  shared : row.localOnly = false
  holds : Holds x key (runningSession x.texts) row s
  id : s.id = row.id

/-- Every session row holds its own identifier. -/
def Proper (x : Externals) (key : VaultKey) (v : Vault) : Prop :=
  ∀ id row s, v.db.getItem id = some row → row.kind = .runningSession →
    Holds x key (runningSession x.texts) row s → s.id = row.id

/-- `w` is the tombstone of the live session row `old`. -/
structure EndsRow (x : Externals) (key : VaultKey) (v : Vault) (old w : ItemRow) : Prop where
  row : v.db.getItem w.id = some old
  kind : old.kind = .runningSession
  live : old.deleted = false
  session : ∃ s, Session x key w s
  deleted : w.deleted = true
  version : w.version = old.version + 1

/-- `z` is the tombstone of the project. -/
structure Buries (v : Vault) (id : Uuid) (old z : ItemRow) : Prop where
  row : v.db.getItem id = some old
  kindOld : old.kind = .project
  live : old.deleted = false
  id : z.id = id
  kind : z.kind = .project
  deleted : z.deleted = true
  shared : z.localOnly = false
  version : z.version = old.version + 1

/-- The rows an operation writes, in order. -/
inductive Effect (x : Externals) (key : VaultKey) (v : Vault) : Operation → List ItemRow → Prop
  | nothing {op : Operation} : Effect x key v op []
  | reattached {p hostId : Uuid} {agentId : Option String} {device : String} {old w : ItemRow}
      {s : RunningSession} : v.db.getItem w.id = some old → LiveSession x key p old →
      Session x key w s → s.projectId = p → w.deleted = false → w.version = old.version + 1 →
      Effect x key v (.markProjectRunning p hostId agentId device) [w]
  | started {p hostId : Uuid} {agentId : Option String} {device : String} {w : ItemRow}
      {s : RunningSession} : Found x key v p none → w.id = newId v →
      Session x key w s → s.projectId = p → w.deleted = false → w.version = 1 →
      Effect x key v (.markProjectRunning p hostId agentId device) [w]
  | ended {id : Uuid} {old w : ItemRow} : EndsRow x key v old w →
      Effect x key v (.endRunningSession id) [w]
  /-- The session is ended and the project stays. -/
  | cutShort {p : Uuid} {old w : ItemRow} : EndsRow x key v old w → LiveSession x key p old →
      Effect x key v (.deleteProject p) [w]
  | buried {p : Uuid} {old z : ItemRow} : Found x key v p none → Buries v p old z →
      Effect x key v (.deleteProject p) [z]
  | cleared {p : Uuid} {old w pold z : ItemRow} : EndsRow x key v old w →
      LiveSession x key p old → Buries v p pold z → Effect x key v (.deleteProject p) [w, z]

/-- The rows of `t` are those of `v` with the written ones in place. -/
def After (v t : Vault) (ws : List ItemRow) : Prop :=
  ∀ i, t.db.getItem i = (ws.foldl VaultDb.upsertItem v.db).getItem i

def Does (x : Externals) (key : VaultKey) (op : Operation) (v t : Vault) : Prop :=
  Keyed key t ∧ ∃ ws, Effect x key v op ws ∧ After v t ws

theorem does_nothing {op : Operation} {t : Vault} (h : Same key v t) : Does x key op v t :=
  ⟨h.keyed, [], .nothing, h.rows⟩

theorem after_put {t u : Vault} {w : ItemRow} (h : Same key v t)
    (hput : ∀ i, u.db.getItem i = (t.db.upsertItem w).getItem i) : After v u [w] := by
  intro i
  rw [hput i]
  change (t.db.upsertItem w).getItem i = (v.db.upsertItem w).getItem i
  rw [VaultDb.getItem_upsertItem, VaultDb.getItem_upsertItem, h.rows]

theorem After.same {t u : Vault} {ws : List ItemRow} (h : After v t ws) (h' : Same key t u) :
    After v u ws := fun i => (h'.rows i).trans (h i)

theorem session_of_stores {id : Uuid} {version : UInt64} {deleted : Bool}
    {value : RunningSessionRecord} {w : ItemRow}
    (h : Stores x key (runningSession x.texts) id .runningSession version false deleted value w)
    (hid : value.id = id) : Session x key w value :=
  ⟨h.kind, h.localOnly, h.holds, hid.trans h.id.symm⟩

theorem ends_summaryOf (toLowercase : String → String) {id : Uuid} {missing : String}
    {op : Operation} {t : Vault} (ht : Keyed key t) {ws : List ItemRow} (hafter : After v t ws)
    (heffect : Effect x key v op ws) :
    (summaryOf x toLowercase id missing).run.Ends (fun _ u => Does x key op v u) t := by
  have hsame : (summaryOf x toLowercase id missing).run.Ends (fun _ u => Same key t u) t :=
    ends_idle (each_summaryOf reading_idles toLowercase id missing) ht
  exact ⟨hsame.keyed, ws, heffect, hafter.same hsame⟩

theorem ends_markProjectRunning (hc : x.aead.Correct) (toLowercase : String → String)
    (hv : Keyed key v) (hproper : Proper x key v) (p hostId : Uuid) (agentId : Option String)
    (device : String) :
    (markProjectRunning x toLowercase p hostId agentId device).run.Ends
      (fun _ t => Does x key (.markProjectRunning p hostId agentId device) v t) v := by
  unfold markProjectRunning
  refine ends_bind (ends_find hv) (fun found t hfind => ?_) fun e t h => does_nothing h.1
  obtain ⟨hsame, hfound⟩ := hfind
  obtain ⟨hnew, hfound⟩ := hfound found rfl
  cases found with
  | some existing =>
    obtain ⟨old, hold, hkind, hlive, hholds, hproject⟩ := hfound
    have hid : existing.id = old.id := hproper old.id old existing hold hkind hholds
    dsimp only
    refine ends_bind (ends_get hsame.keyed) (fun found u hgot => ?_)
      fun e u h => does_nothing (hsame.trans h.1)
    obtain ⟨record, row⟩ := found
    obtain ⟨hsame', hget⟩ := hgot
    obtain ⟨hrow, -, hrecord⟩ := hget record row rfl
    rw [hsame.rows, hid, hold, Option.some.injEq] at hrow
    subst hrow
    obtain rfl := Holds.unique hrecord hholds
    replace hsame' := hsame.trans hsame'
    dsimp only
    refine ends_read (idles_read _) hsame'.keyed (fun now w _ hw => ?_)
      fun e w hw => does_nothing (hsame'.trans hw)
    replace hsame' := hsame'.trans hw
    refine ends_bind (ends_put hc hsame'.keyed) (fun _ y hput => ?_)
      fun e y h => does_nothing ⟨fun i => (h.2.1 e rfl i).trans (hsame'.rows i), h.1⟩
    obtain ⟨hy, -, hput⟩ := hput
    obtain ⟨new, hstores, hrows⟩ := hput rfl
    have hnewid : new.id = old.id := hstores.id.trans hid
    have hrow : v.db.getItem new.id = some old := by
      rw [hnewid]
      exact hold
    exact ends_summaryOf toLowercase hy (after_put hsame' hrows)
      (.reattached hrow ⟨hkind, hlive, _, hholds, hproject⟩ (session_of_stores hstores rfl)
        hproject hstores.deleted hstores.version)
  | none =>
    dsimp only
    refine ends_read (idles_read _) hsame.keyed (fun now u hnow hu => ?_)
      fun e u hu => does_nothing (hsame.trans hu)
    obtain ⟨-, rfl⟩ := Action.read_eq_ok.1 hnow
    refine ends_read (idles_draw _) hsame.keyed (fun id u hdraw hu => ?_)
      fun e u hu => does_nothing (hsame.trans hu)
    have hid : id = newId v := by
      rw [← hnew]
      exact (Except.ok.inj (congrArg Prod.fst hdraw)).symm
    replace hu := hsame.trans hu
    refine ends_bind (ends_put hc hu.keyed) (fun _ y hput => ?_)
      fun e y h => does_nothing ⟨fun i => (h.2.1 e rfl i).trans (hu.rows i), h.1⟩
    obtain ⟨hy, -, hput⟩ := hput
    obtain ⟨new, hstores, hrows⟩ := hput rfl
    exact ends_summaryOf toLowercase hy (after_put hu hrows)
      (.started hfound (hstores.id.trans hid) (session_of_stores hstores rfl) rfl hstores.deleted
        hstores.version)

/-- The session row is replaced by its tombstone, or nothing changes. -/
theorem ends_endRunningSession (hc : x.aead.Correct) (hv : Keyed key v)
    (hproper : Proper x key v) (id : Uuid) :
    (endRunningSession x id).run.Ends (fun r t => Keyed key t ∧
      ((r ≠ .ok () ∧ ∀ i, t.db.getItem i = v.db.getItem i) ∨
        ∃ old w, v.db.getItem id = some old ∧ EndsRow x key v old w ∧ After v t [w])) v := by
  unfold endRunningSession
  refine ends_bind (ends_get hv) (fun found t hgot => ?_)
    fun e t h => ⟨h.1.keyed, Or.inl ⟨by simp, h.1.rows⟩⟩
  obtain ⟨record, row⟩ := found
  obtain ⟨hsame, hget⟩ := hgot
  obtain ⟨hrow, hlive, hrecord⟩ := hget record row rfl
  dsimp only
  refine ends_bind (ends_checkKind hsame.keyed) (fun _ u hcheck => ?_)
    fun e u h => ⟨h.1.keyed, Or.inl ⟨by simp, (hsame.trans h.1).rows⟩⟩
  have hkind := hcheck.2 rfl
  have hu := hsame.trans hcheck.1
  have hid : record.id = id :=
    (hproper id row record hrow hkind hrecord).trans (VaultDb.getItem_id hrow)
  have hput : (putRunningSession x id (row.version + 1) true record).run.Ends _ u :=
    ends_put hc hu.keyed
  obtain ⟨hkeyed, herror, hok⟩ := hput
  refine ⟨hkeyed, ?_⟩
  rcases hr : ((putRunningSession x id (row.version + 1) true record).run u).1 with e | ⟨⟩
  · exact Or.inl ⟨by simp, fun i => (herror e hr i).trans (hu.rows i)⟩
  · obtain ⟨w, hstores, hrows⟩ := hok hr
    refine Or.inr ⟨row, w, hrow, ⟨?_, hkind, hlive, ⟨record, session_of_stores hstores hid⟩,
      hstores.deleted, hstores.version⟩, after_put hu hrows⟩
    rw [hstores.id]
    exact hrow

/-- The tombstone of the project, after the writes before it. -/
theorem ends_bury (hc : x.aead.Correct) {t : Vault} {id : Uuid} {old : ItemRow}
    {record : ProjectRecord} {ws : List ItemRow} (ht : Keyed key t) (hafter : After v t ws)
    (hold : v.db.getItem id = some old) (hkind : old.kind = .project) (hlive : old.deleted = false)
    (hstop : Effect x key v (.deleteProject id) ws)
    (hbury : ∀ z, Buries v id old z → Effect x key v (.deleteProject id) (ws ++ [z])) :
    (putEncryptedJson x (project x.texts) id .project (old.version + 1) false true record).run.Ends
      (fun _ u => Does x key (.deleteProject id) v u) t := by
  have hput : (putEncryptedJson x (project x.texts) id .project (old.version + 1) false true
      record).run.Ends _ t := ends_put hc ht
  obtain ⟨hkeyed, herror, hok⟩ := hput
  refine ⟨hkeyed, ?_⟩
  rcases hr : ((putEncryptedJson x (project x.texts) id .project (old.version + 1) false true
    record).run t).1 with e | ⟨⟩
  · exact ⟨ws, hstop, fun i => (herror e hr i).trans (hafter i)⟩
  · obtain ⟨z, hstores, hrows⟩ := hok hr
    refine ⟨ws ++ [z], hbury z ⟨hold, hkind, hlive, hstores.id, hstores.kind, hstores.deleted,
      hstores.localOnly, hstores.version⟩, fun i => ?_⟩
    rw [hrows i, List.foldl_append]
    change _ = ((ws.foldl VaultDb.upsertItem v.db).upsertItem z).getItem i
    rw [VaultDb.getItem_upsertItem, VaultDb.getItem_upsertItem, hafter i]

theorem ends_deleteProject (hc : x.aead.Correct) (hv : Keyed key v) (hproper : Proper x key v)
    (id : Uuid) :
    (deleteProject x id).run.Ends (fun _ t => Does x key (.deleteProject id) v t) v := by
  unfold deleteProject
  refine ends_bind (ends_get hv) (fun found t hgot => ?_) fun e t h => does_nothing h.1
  obtain ⟨record, old⟩ := found
  obtain ⟨hsame, hget⟩ := hgot
  obtain ⟨hold, hlive, -⟩ := hget record old rfl
  dsimp only
  refine ends_bind (ends_checkKind hsame.keyed) (fun _ t' hcheck => ?_)
    fun e t' h => does_nothing (hsame.trans h.1)
  have hkind := hcheck.2 rfl
  replace hsame := hsame.trans hcheck.1
  refine ends_bind (ends_find hsame.keyed) (fun found u hfind => ?_)
    fun e u h => does_nothing (hsame.trans h.1)
  obtain ⟨hu, hfound⟩ := hfind
  replace hu := hsame.trans hu
  obtain ⟨-, hfound⟩ := hfound found rfl
  cases found with
  | none =>
    have hnone : Found x key v id none := fun i row hrow =>
      hfound i row ((hsame.rows i).trans hrow)
    refine ends_bind (P := fun _ t => Same key v t) hu (fun _ w hw => ?_)
      fun e w hw => does_nothing hw
    have hafter : After v w [] := hw.rows
    exact ends_bury hc hw.keyed hafter hold hkind hlive .nothing fun z hz => .buried hnone hz
  | some session =>
    obtain ⟨row, hrow, hskind, hslive, hholds, hproject⟩ := hfound
    rw [hsame.rows] at hrow
    have hsid : session.id = row.id := hproper row.id row session hrow hskind hholds
    have hproperu : Proper x key u := fun i r s hr => hproper i r s (by rw [← hu.rows]; exact hr)
    refine ends_bind (ends_endRunningSession hc hu.keyed hproperu session.id) (fun _ w hend => ?_)
      fun e w hend => ?_
    · obtain ⟨hw, ⟨hne, -⟩ | ⟨sold, new, hsold, hends, hafter⟩⟩ := hend
      · exact (hne rfl).elim
      · rw [hu.rows, hsid, hrow, Option.some.injEq] at hsold
        subst hsold
        have hendsv : EndsRow x key v row new :=
          { hends with row := (hu.rows _).symm.trans hends.row }
        have hlives : LiveSession x key id row := ⟨hskind, hslive, _, hholds, hproject⟩
        have hafterv : After v w [new] := fun i => by
          rw [hafter i]
          change (u.db.upsertItem new).getItem i = (v.db.upsertItem new).getItem i
          rw [VaultDb.getItem_upsertItem, VaultDb.getItem_upsertItem, hu.rows]
        exact ends_bury hc hw hafterv hold hkind hlive (.cutShort hendsv hlives)
          fun z hz => .cleared hendsv hlives hz
    · obtain ⟨hw, ⟨-, hrows⟩ | ⟨sold, new, hsold, hends, hafter⟩⟩ := hend
      · exact does_nothing ⟨fun i => (hrows i).trans (hu.rows i), hw⟩
      · rw [hu.rows, hsid, hrow, Option.some.injEq] at hsold
        subst hsold
        have hendsv : EndsRow x key v row new :=
          { hends with row := (hu.rows _).symm.trans hends.row }
        refine ⟨hw, [new], .cutShort hendsv ⟨hskind, hslive, _, hholds, hproject⟩, fun i => ?_⟩
        rw [hafter i]
        change (u.db.upsertItem new).getItem i = (v.db.upsertItem new).getItem i
        rw [VaultDb.getItem_upsertItem, VaultDb.getItem_upsertItem, hu.rows]

/-- Whatever its outcome, an operation does what its effect says. -/
theorem does_operation (hc : x.aead.Correct) (toLowercase : String → String) (hv : Keyed key v)
    (hproper : Proper x key v) (op : Operation) :
    Does x key op v ((op.program x toLowercase).run v).2 := by
  cases op with
  | markProjectRunning p hostId agentId device =>
    have hends := ends_markProjectRunning hc toLowercase hv hproper p hostId agentId device
    have hprogram : ((Operation.markProjectRunning p hostId agentId device).program x
        toLowercase).run.Ends
          (fun _ t => Does x key (.markProjectRunning p hostId agentId device) v t) v :=
      ends_bind hends (fun _ _ h => h) fun _ _ h => h
    exact hprogram
  | endRunningSession id =>
    obtain ⟨hkeyed, ⟨-, hrows⟩ | ⟨old, w, -, hends, hafter⟩⟩ :=
      ends_endRunningSession hc hv hproper id
    · exact ⟨hkeyed, [], .nothing, hrows⟩
    · exact ⟨hkeyed, [w], .ended hends, hafter⟩
  | deleteProject id => exact ends_deleteProject hc hv hproper id

end Specs

/-! ## Their actions -/

section Actions
variable {x : Externals} {α : Type}

/-- `P` holds of every action of an operation. -/
structure Working (P : ∀ {γ : Type}, VaultM γ → Prop) : Prop extends Reading P where
  draw : ∀ {γ : Type} (supply : World → ℕ → γ), P (draw supply)
  read : ∀ {γ : Type} (f : Vault → γ), P (read f)
  put : ∀ w, P (withDbMut fun db => db.upsertItem w)

variable {P : ∀ {γ : Type}, VaultM γ → Prop} (hP : Working P)
include hP

theorem Working.putEncryptedJson (f : Format α) (id : Uuid) (kind : ItemKind) (version : UInt64)
    (localOnly deleted : Bool) (value : α) :
    (putEncryptedJson x f id kind version localOnly deleted value).Each P := by
  apply Program.Each.bind (Program.Each.lift hP.requireKey)
  intro key
  apply Program.Each.bind (hP.decoded _)
  intro plaintext
  apply Program.Each.bind (Program.Each.lift (hP.draw _))
  intro nonce
  apply Program.Each.bind (hP.decoded _)
  intro blob
  apply Program.Each.bind (Program.Each.lift (hP.read _))
  intro updatedAt
  exact Program.Each.lift (hP.put _)

theorem Working.findRunningSession (projectId : Uuid) :
    (findRunningSessionForProject x projectId).Each P :=
  each_findRunningSession hP.toReading projectId

theorem Working.checkKind (row : ItemRow) (kind : ItemKind) (message : String) :
    (checkKind row kind message).Each P := by
  unfold VaultRepository.checkKind
  split
  · exact Program.Each.pure _
  · exact hP.failed _

theorem Working.endRunningSession (id : Uuid) : (endRunningSession x id).Each P := by
  apply Program.Each.bind (hP.get _ id)
  rintro ⟨record, row⟩
  apply Program.Each.bind (hP.checkKind _ _ _)
  exact fun _ => hP.putEncryptedJson _ _ _ _ _ _ _

theorem Working.markProjectRunning (toLowercase : String → String) (projectId hostId : Uuid)
    (agentId : Option String) (startedOnDevice : String) :
    (markProjectRunning x toLowercase projectId hostId agentId startedOnDevice).Each P := by
  apply Program.Each.bind (hP.findRunningSession projectId)
  intro found
  cases found with
  | some existing =>
    apply Program.Each.bind (hP.get _ existing.id)
    rintro ⟨record, row⟩
    apply Program.Each.bind (Program.Each.lift (hP.read _))
    intro now
    apply Program.Each.bind (hP.putEncryptedJson _ _ _ _ _ _ _)
    exact fun _ => each_summaryOf hP.toReading toLowercase _ _
  | none =>
    apply Program.Each.bind (Program.Each.lift (hP.read _))
    intro now
    apply Program.Each.bind (Program.Each.lift (hP.draw _))
    intro id
    apply Program.Each.bind (hP.putEncryptedJson _ _ _ _ _ _ _)
    exact fun _ => each_summaryOf hP.toReading toLowercase _ _

theorem Working.deleteProject (id : Uuid) : (deleteProject x id).Each P := by
  apply Program.Each.bind (hP.get _ id)
  rintro ⟨record, row⟩
  apply Program.Each.bind (hP.checkKind _ _ _)
  intro _
  apply Program.Each.bind (hP.findRunningSession id)
  intro found
  apply Program.Each.bind (p := endFound x found) _ fun _ => hP.putEncryptedJson _ _ _ _ _ _ _
  cases found with
  | some session => exact hP.endRunningSession session.id
  | none => exact Program.Each.pure _

theorem Working.operation (toLowercase : String → String) (op : Operation) :
    (op.program x toLowercase).Each P := by
  cases op with
  | markProjectRunning p hostId agentId device =>
    exact Program.Each.bind (hP.markProjectRunning toLowercase p hostId agentId device)
      fun _ => Program.Each.pure _
  | endRunningSession id => exact hP.endRunningSession id
  | deleteProject id => exact hP.deleteProject id

end Actions

end Tethra.RunningSessions
