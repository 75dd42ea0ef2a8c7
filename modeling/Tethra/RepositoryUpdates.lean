import Tethra.RowUpdates
import Tethra.SecretLinks

set_option autoImplicit false

/-!
# What the operations do to the rows they replace

Each operation on hosts, identities and API keys reads its item, edits the record in it and
writes the next version. An item from the backend replaces the row it wins over.
-/
namespace Tethra.RepositoryUpdates
open AtomicPrograms AuthenticatedEncryption Base64Strings JsonValues KeyedTables
open RepositoryRequests RowUpdates RustText SecretLinks StatefulActions SyncEngine SyncItems
open VaultCrypto VaultRecords VaultRepository VaultState VaultTypes
open AtomicPrograms.Program (lift fail)
open StatefulActions.Action (read ofExcept)

/-- The rows of a vault. -/
def rows : Store Vault Uuid ItemRow where
  key := ItemRow.id
  row v id := v.db.getItem id
  put r v := { v with db := v.db.upsertItem r }

/-- An unlocked vault holds `key`. -/
def Keyed (key : VaultKey) (v : Vault) : Prop :=
  ∀ vaultKey auth t, v.state = .unlocked vaultKey auth t → vaultKey = key

/-! ## One item from the backend -/

section Apply
variable (b64 : Base64)

/-- One turn of the loop of `applyItems`; whether the item was applied. -/
def applyItem (item : SyncItem) : RepositoryM Bool := do
  let row ← lift (withDb fun db => .ok (db.getItem item.id))
  if shouldApply item row then do
    let row ← lift (ofExcept (itemRowFromSync b64 item))
    lift (withDbMut fun db => db.upsertItem row)
    pure true
  else pure false

/-- A program of the vault as one of the engine. -/
def onEngine {β α : Type} : RepositoryM α → EngineM β α
  | .ret a => .ret a
  | .act m next => .act (vaultAction m) fun b => onEngine (next b)

end Apply

/-! ## Jobs and their edits -/

inductive Job where
  | operation (o : Operation)
  | apply (item : SyncItem)

def Job.program (x : Externals) (b64 : Base64) : Job → RepositoryM Unit
  | .operation o => o.program x
  | .apply item => do let _ ← applyItem b64 item

/-- The row opens to `value`. -/
def Holds (x : Externals) (key : VaultKey) {α : Type} (f : Format α) (row : ItemRow) (value : α) :
    Prop :=
  ∃ plaintext, decryptItem x.aead key row.id row.version row.blob = .ok plaintext ∧
    x.decode f plaintext = .ok value

/-- The next identity of an updated host, by whom it was given one. -/
inductive NextIdentity (request : CreateHostRequest) (old : Option Uuid) : Option Uuid → Prop
  | chosen (id : Uuid) : request.identityId = some id → NextIdentity request old (some id)
  | kept : request.identityId = none → (request.password = none ∨ old.isSome) →
      NextIdentity request old old
  | drawn (id : Uuid) : request.identityId = none → request.password.isSome → old = none →
      NextIdentity request old (some id)

/-- What an operation makes of the record of host `id`; the flag says that it deletes it. -/
inductive HostEdit : Operation → Uuid → Bool → HostRecord → HostRecord → Prop
  | update {id : Uuid} {request : CreateHostRequest} {record : HostRecord}
      {color : Option String} {identityId : Option Uuid} :
      validateHostColor request.color = .ok color →
      NextIdentity request record.identityId identityId →
      HostEdit (.updateHost id request) id false record
        { record with
          label := request.label
          hostname := request.hostname
          port := request.port
          username := request.username
          color := color
          shellIntegration := request.shellIntegration
          tunnels := request.tunnels
          forwardAgent := request.forwardAgent
          useDefaultKeys := request.useDefaultKeys
          identityId := identityId }
  | delete {id : Uuid} {record : HostRecord} : HostEdit (.deleteHost id) id true record record
  | setTags {id : Uuid} {tags : List String} {record : HostRecord} :
      HostEdit (.setHostTags id tags) id false record { record with tags := cleanTags tags }
  | touch {id : Uuid} {record : HostRecord} (now : DateTime) :
      HostEdit (.touchHostConnected id) id false record { record with lastConnectedAt := some now }
  | setKnownKey {id : Uuid} {key : KnownHostKey} {record : HostRecord} :
      HostEdit (.setKnownHostKey id key) id false record { record with knownHostKey := some key }
  | detach {id identityId : Uuid} {force : Bool} {record : HostRecord} :
      HostEdit (.deleteIdentity identityId force) id false record { record with identityId := none }
  | reimport {id : Uuid} {contents : String} {selected : List String} {record : HostRecord}
      {row : ItemRow} (ids : List (String × Uuid)) (imported : SshConfigHost) :
      HostEdit (.importSshConfig contents selected) id false record
        (importedHost ids (some (record, row)) id imported)

/-- What an operation makes of the identity `id`. -/
inductive IdentityEdit : Operation → Uuid → Bool → IdentityRecord → IdentityRecord → Prop
  | rename {id : Uuid} {label : String} {record : IdentityRecord} :
      IdentityEdit (.renameIdentity id label) id false record (record.setLabel (trim label))
  | setSync {id : Uuid} {syncSecret : Bool} {record : IdentityRecord} :
      IdentityEdit (.setIdentitySyncSecret id syncSecret) id false record
        (record.setSyncSecret syncSecret)
  | delete {id : Uuid} {force : Bool} {record : IdentityRecord} :
      IdentityEdit (.deleteIdentity id force) id true record record
  | orphan {id hostId : Uuid} {record : IdentityRecord} :
      IdentityEdit (.deleteHost hostId) id true record record
  | setPasswordSync {id hostId : Uuid} {request : CreateHostRequest} {identityId : Uuid}
      {label password : String} {syncSecret : Bool} :
      IdentityEdit (.updateHost hostId request) id false
        (.password identityId label password syncSecret)
        (.password identityId label password request.syncSecret)

/-- What an operation makes of the API key `id`. -/
inductive ApiKeyEdit : Operation → Uuid → Bool → ApiKeyRecord → ApiKeyRecord → Prop
  | update {id : Uuid} {request : CreateApiKeyRequest} {record : ApiKeyRecord} :
      ApiKeyEdit (.updateApiKey id request) id false record
        { record with
          label := request.label
          provider := request.provider
          baseUrl := request.baseUrl
          model := request.model
          syncSecret := request.syncSecret
          apiKey := request.apiKey.getD record.apiKey }
  | delete {id : Uuid} {record : ApiKeyRecord} : ApiKeyEdit (.deleteApiKey id) id true record record

/-- The record a new row of an operation holds. -/
inductive Fresh (x : Externals) (key : VaultKey) : Operation → ItemRow → Prop
  | host {request : CreateHostRequest} {row : ItemRow} {color : Option String}
      {identityId : Option Uuid} :
      validateHostColor request.color = .ok color →
      row.kind = .host → row.localOnly = false →
      Holds x key x.texts.host row
        { Host.new row.id request.label request.hostname request.username with
          port := request.port
          color := color
          shellIntegration := request.shellIntegration
          tunnels := request.tunnels
          forwardAgent := request.forwardAgent
          useDefaultKeys := request.useDefaultKeys
          identityId := identityId } →
      Fresh x key (.createHost request) row
  | hostPassword {request : CreateHostRequest} {row : ItemRow} {password : String} :
      request.password = some password → row.kind = .identity →
      row.localOnly = !request.syncSecret →
      Holds x key x.texts.identity row
        (.password row.id (request.label ++ " password") password request.syncSecret) →
      Fresh x key (.createHost request) row
  | newPassword {hostId : Uuid} {request : CreateHostRequest} {row : ItemRow}
      {password : String} :
      request.password = some password → row.kind = .identity →
      row.localOnly = !request.syncSecret →
      Holds x key x.texts.identity row
        (.password row.id (request.label ++ " password") password request.syncSecret) →
      Fresh x key (.updateHost hostId request) row
  | sshKey {label text : String} {keyBytes : Bytes} {passphrase : Option String}
      {remember syncSecret : Bool} {row : ItemRow} (createdAt : DateTime) :
      fromUtf8 keyBytes = some text → row.kind = .identity → row.localOnly = !syncSecret →
      Holds x key x.texts.identity row (.sshKey row.id (trim label) text
        (if remember then passphrase else none) createdAt syncSecret) →
      Fresh x key (.importSshKeyIdentity label keyBytes passphrase remember syncSecret) row
  | apiKey {request : CreateApiKeyRequest} {row : ItemRow} :
      row.kind = .apiKey → row.localOnly = !request.syncSecret →
      Holds x key x.texts.apiKey row ⟨row.id, request.label, request.provider, request.baseUrl,
        request.model, request.apiKey.getD "", request.syncSecret⟩ →
      Fresh x key (.createApiKey request) row
  | imported {contents : String} {selected : List String} {row : ItemRow}
      (ids : List (String × Uuid)) (imported : SshConfigHost) :
      row.kind = .host → row.localOnly = false →
      Holds x key x.texts.host row (importedHost ids none row.id imported) →
      Fresh x key (.importSshConfig contents selected) row

/-- `new` is the next version of the row `old`, with its record `a` edited to `b`. -/
structure Revises (x : Externals) (key : VaultKey) {α : Type} (f : Format α) (kind : ItemKind)
    (deleted : Bool) (old new : ItemRow) (a b : α) : Prop where
  live : old.deleted = false
  before : Holds x key f old a
  after : Holds x key f new b
  kind : new.kind = kind
  version : new.version = old.version + 1
  deleted : new.deleted = deleted

/-- `new` is what a job makes of the row `old`. -/
inductive Edit (x : Externals) (key : VaultKey) (b64 : Base64) :
    Job → Option ItemRow → ItemRow → Prop
  | host {o : Operation} {old new : ItemRow} {deleted : Bool} {a b : HostRecord} :
      HostEdit o new.id deleted a b →
      Revises x key x.texts.host .host deleted old new a b →
      new.localOnly = false → Edit x key b64 (.operation o) (some old) new
  | identity {o : Operation} {old new : ItemRow} {deleted : Bool} {a b : IdentityRecord} :
      IdentityEdit o new.id deleted a b →
      Revises x key x.texts.identity .identity deleted old new a b →
      new.localOnly = !b.syncSecret → Edit x key b64 (.operation o) (some old) new
  | apiKey {o : Operation} {old new : ItemRow} {deleted : Bool} {a b : ApiKeyRecord} :
      ApiKeyEdit o new.id deleted a b →
      Revises x key x.texts.apiKey .apiKey deleted old new a b →
      new.localOnly = !b.syncSecret → Edit x key b64 (.operation o) (some old) new
  /-- A password overwrites the identity of the host, whatever is in its row. -/
  | overwrite {hostId : Uuid} {request : CreateHostRequest} {old : Option ItemRow}
      {new : ItemRow} :
      Fresh x key (.updateHost hostId request) new → new.deleted = false →
      new.version = (old.elim 0 ItemRow.version) + 1 →
      Edit x key b64 (.operation (.updateHost hostId request)) old new
  | create {o : Operation} {new : ItemRow} :
      Fresh x key o new → new.deleted = false → new.version = 1 →
      Edit x key b64 (.operation o) none new
  | apply {item : SyncItem} {old : Option ItemRow} {new : ItemRow} :
      shouldApply item old = true → itemRowFromSync b64 item = .ok new →
      Edit x key b64 (.apply item) old new

/-- Rows a job installs under an identifier it has drawn. -/
def Drawn : Job → ItemRow → Prop
  | .operation (.createHost _), row => row.version = 1
  | .operation (.updateHost _ _), row => row.kind = .identity ∧ row.version = 1
  | .operation (.importSshKeyIdentity ..), _ => True
  | .operation (.createApiKey _), _ => True
  | .operation (.importSshConfig ..), row => row.version = 1
  | _, _ => False

/-- Every host row holds a record with its own identifier. -/
def OwnIds (x : Externals) (key : VaultKey) (v : Vault) : Prop :=
  ∀ id row record, v.db.getItem id = some row → row.kind = .host → row.deleted = false →
    Holds x key x.texts.host row record → record.id = row.id

/-- What a job relies on: an import finds every host under the identifier in its record. -/
def Relies (x : Externals) (key : VaultKey) : Job → Vault → Prop
  | .operation (.importSshConfig ..), v => OwnIds x key v
  | _, _ => True

/-- A job that relies on `A` draws identifiers that `N` has, and new rows under them are among
those that `fresh` has. -/
structure Supplies (A : Vault → Prop) (N : Uuid → Prop) (fresh : Job → ItemRow → Prop) : Prop where
  draws : ∀ v, A v → N (v.world.uuidAt v.world.draws)
  fresh : ∀ job row, N row.id → Drawn job row → fresh job row

/-! ## Rules for the actions of the repository -/

section Rules
variable {x : Externals} {key : VaultKey} {A : Vault → Prop}
variable {G : (Uuid → Option ItemRow → Prop) → ItemRow → Prop} {α : Type} {g : Trace Uuid ItemRow}

theorem idles_sameRows {m : VaultM α} (hm : m.Within SameRows) : Idles rows (Keyed key) m := by
  constructor
  · intro v hv vaultKey auth t h
    obtain ⟨auth', t', hstate⟩ := (hm v).2 vaultKey auth t h
    exact hv vaultKey auth' t' hstate
  · intro v id
    simp only [rows, VaultDb.getItem, (hm v).1]

theorem idles_requireKey : Idles rows (Keyed key) requireKey := idles_sameRows sameRows_requireKey

theorem idles_draw (supply : World → ℕ → α) : Idles rows (Keyed key) (draw supply) :=
  idles_sameRows (sameRows_draw supply)

theorem idles_withDb (f : VaultDb → Except Error α) : Idles rows (Keyed key) (withDb f) :=
  idles_sameRows (sameRows_withDb f)

theorem idles_read (f : Vault → α) : Idles rows (Keyed key) (read f : VaultM α) :=
  idles_sameRows fun v => SameRows.refl v

theorem idles_ofExcept (r : Except Error α) : Idles rows (Keyed key) (ofExcept r : VaultM α) :=
  idles_sameRows fun v => SameRows.refl v

theorem idles_fail (e : Error) : Idles rows (Keyed key) (Action.fail e : VaultM α) :=
  idles_sameRows fun v => SameRows.refl v

theorem mapError_fst_eq_ok {f : Error → Error} {m : VaultM α} {v : Vault} {a : α}
    (h : (m.mapError f v).1 = .ok a) : (m v).1 = .ok a := by
  change (m v).1.mapError f = .ok a at h
  cases hm : (m v).1 with
  | ok b =>
    rw [hm] at h
    exact congrArg _ (Except.ok.inj h)
  | error e =>
    rw [hm] at h
    cases h

theorem grounded_idle {Q : α → Trace Uuid ItemRow → Prop} {m : VaultM α}
    (hm : Idles rows (Keyed key) m)
    (hQ : ∀ v a g', Keyed key v → A v → (m v).1 = .ok a → g.Le g' → Q a g') :
    Grounded rows (Keyed key) A G Q (lift m) g :=
  Grounded.idle hm fun v a hv hA ha => hQ v a _ hv hA ha (Trace.le_after rows g m v)

theorem grounded_mapError {Q : α → Trace Uuid ItemRow → Prop} {m : VaultM α} {f : Error → Error}
    (hm : Idles rows (Keyed key) m)
    (hQ : ∀ v a g', Keyed key v → A v → (m v).1 = .ok a → g.Le g' →
      (∀ id, Looks rows id (m.mapError f) → g'.seen id (v.db.getItem id)) → Q a g') :
    Grounded rows (Keyed key) A G Q ((lift m).mapError f) g := by
  have hidle : Idles rows (Keyed key) (m.mapError f) := ⟨hm.1.mapError, hm.2⟩
  change Grounded rows (Keyed key) A G Q (lift (m.mapError f)) g
  refine Grounded.idle hidle fun v a hv hA ha => ?_
  refine hQ v a _ hv hA (mapError_fst_eq_ok ha) (Trace.le_after rows g (m.mapError f) v) ?_
  exact fun id hlook => Or.inr ⟨hlook, rfl⟩

theorem grounded_ofExcept {Q : α → Trace Uuid ItemRow → Prop} {r : Except Error α}
    (hQ : ∀ a g', r = .ok a → g.Le g' → Q a g') :
    Grounded rows (Keyed key) A G Q (lift (ofExcept r)) g :=
  grounded_idle (idles_ofExcept r) fun _ a g' _ _ ha hle => hQ a g' ha hle

theorem grounded_draw {Q : α → Trace Uuid ItemRow → Prop} (supply : World → ℕ → α)
    (hQ : ∀ a g', g.Le g' → Q a g') : Grounded rows (Keyed key) A G Q (lift (draw supply)) g :=
  grounded_idle (idles_draw supply) fun _ a g' _ _ _ hle => hQ a g' hle

theorem grounded_drawId {N : Uuid → Prop} {fresh : Job → ItemRow → Prop}
    (hs : Supplies A N fresh) {Q : Uuid → Trace Uuid ItemRow → Prop}
    (hQ : ∀ id g', N id → g.Le g' → Q id g') :
    Grounded rows (Keyed key) A G Q (lift (draw World.uuidAt)) g := by
  apply grounded_idle (idles_draw _)
  intro v id g' _ hA hid hle
  cases hid
  exact hQ _ g' (hs.draws v hA) hle

theorem grounded_read {Q : α → Trace Uuid ItemRow → Prop} (f : Vault → α)
    (hQ : ∀ a g', g.Le g' → Q a g') :
    Grounded rows (Keyed key) A G Q (lift (read f) : RepositoryM α) g :=
  grounded_idle (idles_read f) fun _ a g' _ _ _ hle => hQ a g' hle

theorem grounded_fail {Q : α → Trace Uuid ItemRow → Prop} (e : Error) :
    Grounded rows (Keyed key) A G Q (fail e) g :=
  grounded_idle (idles_fail e) fun _ a g' _ _ ha _ => by cases ha

theorem keyed_of_requireKey {v : Vault} {vaultKey : VaultKey} (hv : Keyed key v)
    (h : (requireKey v).1 = .ok vaultKey) : vaultKey = key := by
  obtain ⟨auth, t, hstate, -⟩ := requireKey_eq_ok (Prod.ext h rfl)
  exact hv vaultKey auth t hstate

theorem grounded_requireKey {Q : VaultKey → Trace Uuid ItemRow → Prop}
    (hQ : ∀ g', g.Le g' → Q key g') :
    Grounded rows (Keyed key) A G Q (lift requireKey) g := by
  apply grounded_idle idles_requireKey
  intro v vaultKey g' hv _ h hle
  rw [keyed_of_requireKey hv h]
  exact hQ g' hle

def blankVault : Vault := ⟨⟨none, Table.empty⟩, none, .locked, 0, World.quiet⟩

def blankRow (id : Uuid) : ItemRow := ⟨id, .host, 1, 0, false, false, ⟨[], []⟩⟩

/-- Reading an item looks at its row, whatever is made of an error. -/
theorem looks_getItem (f : Error → Error) (id : Uuid) :
    Looks rows id ((withDb fun db => .ok (db.getItem id)).mapError f : VaultM _) := by
  refine ⟨blankVault, blankRow id, rfl, ?_⟩
  intro h
  have hfound : (blankVault.db.upsertItem (blankRow id)).getItem id = some (blankRow id) := by
    rw [VaultDb.getItem_upsertItem]
    exact if_pos rfl
  have hnone : some (blankRow id) = none := hfound.symm.trans (Except.ok.inj h)
  cases hnone

theorem grounded_getItem {Q : Option ItemRow → Trace Uuid ItemRow → Prop} {f : Error → Error}
    {id : Uuid} (hQ : ∀ r g', g.Le g' → g'.seen id r → (∀ row, r = some row → row.id = id) → Q r g') :
    Grounded rows (Keyed key) A G Q
      ((lift (withDb fun db => .ok (db.getItem id))).mapError f) g := by
  apply grounded_mapError (idles_withDb _)
  intro v r g' _ _ hr hle hseen
  obtain ⟨hget, -⟩ := withDb_eq_ok (Prod.ext hr rfl)
  have hrow : v.db.getItem id = r := Except.ok.inj hget
  have hlook := hseen id (looks_getItem f id)
  rw [hrow] at hlook
  refine hQ r g' hle hlook fun row h => ?_
  rw [h] at hrow
  exact VaultDb.getItem_id hrow

/-- A reader gets a live row it has looked at, and the record in it. -/
theorem grounded_get_mapError {Q : α × ItemRow → Trace Uuid ItemRow → Prop} {f : Format α}
    {id : Uuid} (e : Error → Error)
    (hQ : ∀ a row g', g.Le g' → g'.seen id (some row) → row.id = id → row.deleted = false →
      Holds x key f row a → Q (a, row) g') :
    Grounded rows (Keyed key) A G Q ((getEncryptedJson x f id).mapError e) g := by
  unfold getEncryptedJson
  rw [Program.mapError_bind]
  apply Grounded.bind
  apply grounded_mapError idles_requireKey
  intro v vaultKey g₁ hv _ hkey hle₁ _
  obtain rfl := keyed_of_requireKey hv hkey
  rw [Program.mapError_bind]
  apply Grounded.bind
  apply grounded_getItem
  intro r g₂ hle₂ hseen hid
  cases r with
  | none => exact grounded_mapError (idles_fail _) fun _ a g' _ _ ha _ _ => by cases ha
  | some row =>
    dsimp only
    split
    · exact grounded_mapError (idles_fail _) fun _ a g' _ _ ha _ _ => by cases ha
    · rename_i hlive
      rw [Program.mapError_bind]
      apply Grounded.bind
      apply grounded_mapError (idles_ofExcept _)
      intro _ plaintext g₃ _ _ hplain hle₃ _
      rw [Program.mapError_bind]
      apply Grounded.bind
      apply grounded_mapError (idles_ofExcept _)
      intro _ value g₄ _ _ hvalue hle₄ _
      refine hQ value row g₄ (((hle₁.trans hle₂).trans hle₃).trans hle₄) ?_ (hid row rfl)
        (Bool.eq_false_iff.2 hlive) ⟨plaintext, hplain, hvalue⟩
      exact hle₄.seen _ _ (hle₃.seen _ _ hseen)

theorem grounded_get {Q : α × ItemRow → Trace Uuid ItemRow → Prop} {f : Format α} {id : Uuid}
    (hQ : ∀ a row g', g.Le g' → g'.seen id (some row) → row.id = id → row.deleted = false →
      Holds x key f row a → Q (a, row) g') :
    Grounded rows (Keyed key) A G Q (getEncryptedJson x f id) g := by
  rw [← Program.mapError_id (getEncryptedJson x f id)]
  exact grounded_get_mapError (fun e => e) hQ

theorem grounded_find {Q : Option ItemRow → Trace Uuid ItemRow → Prop} {id : Uuid}
    (hQ : ∀ r g', g.Le g' → g'.seen id r → Q r g') :
    Grounded rows (Keyed key) A G Q
      (lift (withDb fun db => .ok (db.getItem id)) : RepositoryM _) g := by
  rw [← Program.mapError_id (lift (withDb fun db => .ok (db.getItem id)))]
  exact grounded_getItem fun r g' hle hseen _ => hQ r g' hle hseen

theorem sets_withDbMut {edit : VaultDb → VaultDb} {new : Uuid → Option ItemRow}
    (hkeyed : ∀ id row, new id = some row → row.id = id)
    (hedit : ∀ db id, (edit db).getItem id = (new id).or (db.getItem id)) :
    Sets rows new (withDbMut edit) where
  keyed := hkeyed
  puts id row hrow := by
    obtain rfl := hkeyed id row hrow
    refine ⟨blankVault, ?_, ?_⟩
    · intro h
      cases h
    · change (edit blankVault.db).getItem row.id = some row
      rw [hedit, hrow]
      rfl
  failed v e he id := by
    obtain ⟨e', hfault⟩ | hok := withDbMut_cases edit v
    · rw [hfault]
      rfl
    · rw [hok] at he
      cases he
  done v a ha id := by
    obtain ⟨e', hfault⟩ | hok := withDbMut_cases edit v
    · rw [hfault] at ha
      cases ha
    · rw [hok]
      exact hedit v.db id

theorem keeps_withDbMut_keyed (edit : VaultDb → VaultDb) :
    (withDbMut edit).Keeps (Keyed key) :=
  keeps_withDbMut edit (fun _ _ hv => hv) fun _ _ hv => hv

theorem grounded_upsert {Q : Unit → Trace Uuid ItemRow → Prop} {row : ItemRow}
    (hG : G g.seen row) (hQ : ∀ g', g.Le g' → g'.puts row → Q () g') :
    Grounded rows (Keyed key) A G Q (lift (withDbMut fun db => db.upsertItem row)) g := by
  have hsets : Sets rows (fun id => if id = row.id then some row else none)
      (withDbMut fun db => db.upsertItem row) := by
    apply sets_withDbMut
    · intro id r h
      split at h
      · cases h
        exact Eq.symm ‹_›
      · cases h
    · intro db id
      rw [VaultDb.getItem_upsertItem]
      split <;> rfl
  apply Grounded.install (keeps_withDbMut_keyed _) hsets
  · intro id r h
    split at h
    · cases h
      exact hG
    · cases h
  · exact fun _ g' hle hputs => hQ g' hle (hputs row.id row (if_pos rfl))

/-- A row with `value` under encryption. -/
structure Stores (x : Externals) (key : VaultKey) (f : Format α) (id : Uuid) (kind : ItemKind)
    (version : UInt64) (localOnly deleted : Bool) (value : α) (row : ItemRow) : Prop where
  id : row.id = id
  kind : row.kind = kind
  version : row.version = version
  localOnly : row.localOnly = localOnly
  deleted : row.deleted = deleted
  holds : Holds x key f row value

theorem stores_of_encrypt (hc : x.aead.Correct) {f : Format α} {value : α} {plaintext : Bytes}
    {nonce : Block NONCE_LEN} {id : Uuid} {version : UInt64} {blob : EncryptedBlob}
    (hplain : x.encode f value = .ok plaintext)
    (hblob : encryptItem x.aead key nonce id version plaintext = .ok blob) (kind : ItemKind)
    (localOnly deleted : Bool) (updatedAt : DateTime) :
    Stores x key f id kind version localOnly deleted value
      ⟨id, kind, version, updatedAt, deleted, localOnly, blob⟩ := by
  have hopens : Opens x key ⟨id, kind, version, updatedAt, deleted, localOnly, blob⟩
      (f.write value) :=
    ⟨plaintext, decryptRaw_encryptRaw hc hblob, x.fromSlice_toVec _ _ (toVec_of_encode hplain)⟩
  exact ⟨rfl, rfl, rfl, rfl, rfl, decode_of_opens hopens⟩

theorem grounded_put (hc : x.aead.Correct) {Q : Unit → Trace Uuid ItemRow → Prop} {f : Format α}
    {id : Uuid} {kind : ItemKind} {version : UInt64} {localOnly deleted : Bool} {value : α}
    (hG : ∀ row g', g.Le g' → Stores x key f id kind version localOnly deleted value row →
      G g'.seen row)
    (hQ : ∀ row g', g.Le g' → g'.puts row → row.id = id → Q () g') :
    Grounded rows (Keyed key) A G Q
      (putEncryptedJson x f id kind version localOnly deleted value) g := by
  unfold putEncryptedJson
  apply Grounded.bind
  apply grounded_requireKey
  intro g₁ hle₁
  apply Grounded.bind
  apply grounded_ofExcept
  intro plaintext g₂ hplain hle₂
  apply Grounded.bind
  apply grounded_draw
  intro nonce g₃ hle₃
  apply Grounded.bind
  apply grounded_ofExcept
  intro blob g₄ hblob hle₄
  apply Grounded.bind
  apply grounded_read
  intro updatedAt g₅ hle₅
  have hle : g.Le g₅ := (((hle₁.trans hle₂).trans hle₃).trans hle₄).trans hle₅
  have hrow := stores_of_encrypt hc hplain hblob kind localOnly deleted updatedAt
  apply grounded_upsert
  · exact hG _ g₅ hle hrow
  · exact fun g' hle' hputs => hQ _ g' (hle.trans hle') hputs rfl

/-! ## Programs that only read -/

/-- `P` holds of every action of a program that only reads. -/
structure Reading (P : ∀ {γ : Type}, VaultM γ → Prop) : Prop where
  requireKey : P VaultState.requireKey
  withDb : ∀ {γ : Type} (f : VaultDb → Except Error γ), P (VaultState.withDb f)
  ofExcept : ∀ {γ : Type} (r : Except Error γ), P (Action.ofExcept r)
  fail : ∀ {γ : Type} (e : Error), P (Action.fail e : VaultM γ)
  attempt : ∀ {γ : Type} {m : VaultM γ}, P m → P m.attempt

theorem reading_idles : Reading fun m => Idles rows (Keyed key) m :=
  ⟨idles_requireKey, idles_withDb, idles_ofExcept, idles_fail, fun h => ⟨h.1.attempt, h.2⟩⟩

section Reading
variable {P : ∀ {γ : Type}, VaultM γ → Prop} (hP : Reading P)
include hP

theorem Reading.find (id : Uuid) : (lift (VaultState.withDb fun db => .ok (db.getItem id)) :
    RepositoryM (Option ItemRow)).Each P := Program.Each.lift (hP.withDb _)

theorem Reading.decoded (r : Except Error α) :
    (lift (Action.ofExcept r) : RepositoryM α).Each P := Program.Each.lift (hP.ofExcept r)

theorem Reading.failed (e : Error) : (Program.fail e : RepositoryM α).Each P :=
  Program.Each.lift (hP.fail e)

theorem Reading.get (f : Format α) (id : Uuid) : (getEncryptedJson x f id).Each P := by
  apply Program.Each.bind (Program.Each.lift hP.requireKey)
  intro vaultKey
  apply Program.Each.bind (hP.find id)
  intro r
  cases r with
  | none => exact hP.failed _
  | some row =>
    dsimp only
    split
    · exact hP.failed _
    · apply Program.Each.bind (hP.decoded _)
      intro plaintext
      exact Program.Each.bind (hP.decoded _) fun value => Program.Each.pure _

theorem Reading.attempted {p : RepositoryM α} (hp : p.Each P) : p.attempt.Each P := by
  induction p with
  | ret a => trivial
  | act m next ih =>
    refine ⟨hP.attempt hp.1, fun r => ?_⟩
    cases r with
    | ok b => exact ih b (hp.2 b)
    | error e => trivial

theorem Reading.summarizeHost (host : Host) : (summarizeHost x host).Each P := by
  apply Program.Each.bind _ fun _ => Program.Each.pure _
  unfold identityMeta
  split
  · exact Program.Each.pure _
  · apply Program.Each.bind (hP.find _)
    intro found
    cases found with
    | none => exact Program.Each.pure _
    | some item =>
      dsimp only
      split
      · exact Program.Each.pure _
      · apply Program.Each.bind (hP.attempted (hP.get _ _))
        intro r
        cases r <;> exact Program.Each.pure _

theorem Reading.listHosts : (listHosts x).Each P := by
  apply Program.Each.bind (Program.Each.lift hP.requireKey)
  intro vaultKey
  apply Program.Each.bind (Program.Each.lift (hP.withDb _))
  intro listed
  induction listed with
  | nil => exact Program.Each.pure _
  | cons row listed ih =>
    apply Program.Each.bind (hP.decoded _)
    intro plaintext
    apply Program.Each.bind (hP.decoded _)
    intro record
    apply Program.Each.bind (hP.summarizeHost record)
    intro summary
    exact Program.Each.bind ih fun rest => Program.Each.pure _

theorem Reading.hostsUsingIdentity (identityId : Uuid) :
    (hostsUsingIdentity x identityId).Each P :=
  Program.Each.bind hP.listHosts fun _ => Program.Each.pure _

theorem Reading.identityToSummary (identity : IdentityRecord) :
    (identityToSummary x identity).Each P := by
  apply Program.Each.bind (hP.hostsUsingIdentity _)
  intro hosts
  cases identity <;> exact Program.Each.pure _

end Reading

theorem each_mapError {f : Error → Error} {p : RepositoryM α}
    (hp : p.Each fun m => Idles rows (Keyed key) m) :
    (p.mapError f).Each fun m => Idles rows (Keyed key) m :=
  Program.Each.mapError (fun hm => ⟨hm.1.mapError, hm.2⟩) hp

theorem grounded_checkKind {Q : Unit → Trace Uuid ItemRow → Prop} {row : ItemRow}
    {kind : ItemKind} {message : String} (hQ : Q () g) :
    Grounded rows (Keyed key) A G Q (checkKind row kind message) g := by
  unfold checkKind
  split
  · exact hQ
  · exact grounded_fail _

end Rules

/-! ## The operations -/

section Operations
variable {x : Externals} {key : VaultKey} {b64 : Base64} {A : Vault → Prop} (hc : x.aead.Correct)
variable {o : Operation} {id : Uuid} {old : ItemRow} {deleted : Bool} {g : Trace Uuid ItemRow}
variable {Q : Unit → Trace Uuid ItemRow → Prop}
variable {N : Uuid → Prop} {fresh : Job → ItemRow → Prop}
include hc

theorem grounded_putHost {a b : HostRecord} (hseen : g.seen id (some old))
    (hlive : old.deleted = false) (hold : Holds x key x.texts.host old a)
    (hedit : HostEdit o id deleted a b)
    (hQ : ∀ row g', g.Le g' → g'.puts row → row.id = id → Q () g') :
    Grounded rows (Keyed key) A (Allows rows fresh (Edit x key b64) (.operation o)) Q
      (putHostRecord x id (old.version + 1) deleted b) g := by
  apply grounded_put hc _ hQ
  intro row g' hle hrow
  obtain rfl := hrow.id
  refine Or.inl ⟨some old, hle.seen _ _ hseen, Edit.host hedit ?_ hrow.localOnly⟩
  exact ⟨hlive, hold, hrow.holds, hrow.kind, hrow.version, hrow.deleted⟩

theorem grounded_putIdentity {a b : IdentityRecord} {localOnly : Bool}
    (hseen : g.seen id (some old)) (hlive : old.deleted = false)
    (hold : Holds x key x.texts.identity old a) (hedit : IdentityEdit o id deleted a b)
    (hlocal : localOnly = !b.syncSecret)
    (hQ : ∀ row g', g.Le g' → g'.puts row → row.id = id → Q () g') :
    Grounded rows (Keyed key) A (Allows rows fresh (Edit x key b64) (.operation o)) Q
      (putIdentity x id (old.version + 1) localOnly deleted b) g := by
  apply grounded_put hc _ hQ
  intro row g' hle hrow
  obtain rfl := hrow.id
  refine Or.inl ⟨some old, hle.seen _ _ hseen,
    Edit.identity hedit ?_ (hrow.localOnly.trans hlocal)⟩
  exact ⟨hlive, hold, hrow.holds, hrow.kind, hrow.version, hrow.deleted⟩

theorem grounded_putApiKey {a b : ApiKeyRecord} {localOnly : Bool}
    (hseen : g.seen id (some old)) (hlive : old.deleted = false)
    (hold : Holds x key x.texts.apiKey old a) (hedit : ApiKeyEdit o id deleted a b)
    (hlocal : localOnly = !b.syncSecret)
    (hQ : ∀ row g', g.Le g' → g'.puts row → row.id = id → Q () g') :
    Grounded rows (Keyed key) A (Allows rows fresh (Edit x key b64) (.operation o)) Q
      (putApiKeyRecord x id (old.version + 1) localOnly deleted b) g := by
  apply grounded_put hc _ hQ
  intro row g' hle hrow
  obtain rfl := hrow.id
  refine Or.inl ⟨some old, hle.seen _ _ hseen,
    Edit.apiKey hedit ?_ (hrow.localOnly.trans hlocal)⟩
  exact ⟨hlive, hold, hrow.holds, hrow.kind, hrow.version, hrow.deleted⟩

/-- What a job has written when it returns. -/
def Written : Job → (ItemRow → Prop) → Prop
  | .operation (.createHost _), puts => ∃ row, puts row
  | .operation (.updateHost id _), puts => ∃ row, puts row ∧ row.id = id
  | .operation (.deleteHost id), puts => ∃ row, puts row ∧ row.id = id
  | .operation (.importSshKeyIdentity ..), puts => ∃ row, puts row
  | .operation (.renameIdentity id _), puts => ∃ row, puts row ∧ row.id = id
  | .operation (.setIdentitySyncSecret id _), puts => ∃ row, puts row ∧ row.id = id
  | .operation (.deleteIdentity id force), puts => force = true → ∃ row, puts row ∧ row.id = id
  | .operation (.createApiKey _), puts => ∃ row, puts row
  | .operation (.updateApiKey id _), puts => ∃ row, puts row ∧ row.id = id
  | .operation (.deleteApiKey id), puts => ∃ row, puts row ∧ row.id = id
  | .operation (.importSshConfig ..), _ => True
  | .operation (.setHostTags id _), puts => ∃ row, puts row ∧ row.id = id
  | .operation (.touchHostConnected id), puts => ∃ row, puts row ∧ row.id = id
  | .operation (.setKnownHostKey id _), puts => ∃ row, puts row ∧ row.id = id
  | .apply _, _ => True

/-- The job's program installs only its edits of what it has seen. -/
def Sound (x : Externals) (key : VaultKey) (b64 : Base64) (job : Job) : Prop :=
  Grounded rows (Keyed key) (Relies x key job) (Allows rows Drawn (Edit x key b64) job)
    (fun _ g => Written job g.puts) (job.program x b64) Trace.empty

/-- The same, where the job relies on `A` and `fresh` says which rows are new. -/
def SoundFor (x : Externals) (key : VaultKey) (b64 : Base64) (A : Vault → Prop)
    (fresh : Job → ItemRow → Prop) (job : Job) : Prop :=
  Grounded rows (Keyed key) A (Allows rows fresh (Edit x key b64) job)
    (fun _ g => Written job g.puts) (job.program x b64) Trace.empty

theorem sound_setHostTags (tags : List String) :
    SoundFor x key b64 A fresh (.operation (.setHostTags id tags)) := by
  apply Grounded.bind
  apply Grounded.bind
  apply grounded_get
  intro record row g₁ _ hseen _ hlive hrecord
  apply Grounded.bind
  apply grounded_checkKind
  apply Grounded.bind
  apply grounded_putHost hc hseen hlive hrecord .setTags
  intro new g₂ _ hputs hid
  apply Grounded.of_each (reading_idles.summarizeHost _)
  exact fun _ g' hle => ⟨new, hle.puts new hputs, hid⟩

theorem sound_touchHostConnected : SoundFor x key b64 A fresh (.operation (.touchHostConnected id)) := by
  apply Grounded.bind
  apply Grounded.bind
  apply grounded_get
  intro record row g₁ _ hseen _ hlive hrecord
  apply Grounded.bind
  apply grounded_checkKind
  apply Grounded.bind
  apply grounded_read
  intro now g₂ hle₂
  apply Grounded.bind
  apply grounded_putHost hc (hle₂.seen _ _ hseen) hlive hrecord (.touch now)
  intro new g₃ _ hputs hid
  apply Grounded.of_each (reading_idles.summarizeHost _)
  exact fun _ g' hle => ⟨new, hle.puts new hputs, hid⟩

theorem sound_setKnownHostKey (known : KnownHostKey) :
    SoundFor x key b64 A fresh (.operation (.setKnownHostKey id known)) := by
  apply Grounded.bind
  apply grounded_get_mapError
  intro record row g₁ _ hseen _ hlive hrecord
  apply grounded_putHost hc hseen hlive hrecord .setKnownKey
  exact fun new g' _ hputs hid => ⟨new, hputs, hid⟩

theorem grounded_createHostIdentity (hs : Supplies A N fresh) {request : CreateHostRequest}
    {Q : Option Uuid → Trace Uuid ItemRow → Prop} (hQ : ∀ identityId g', g.Le g' → Q identityId g') :
    Grounded rows (Keyed key) A
      (Allows rows fresh (Edit x key b64) (.operation (.createHost request))) Q
      (createHostIdentity x request) g := by
  unfold createHostIdentity
  split
  · rename_i identityId _ _ _
    apply Grounded.bind
    apply Grounded.of_each (each_mapError (reading_idles.get _ _))
    intro found g₁ hle₁
    dsimp only
    split
    · exact hQ _ g₁ hle₁
    · exact grounded_fail _
  · rename_i password _ hpassword
    apply Grounded.bind
    apply grounded_drawId hs
    intro identityId g₁ hnew hle₁
    apply Grounded.bind
    apply grounded_put hc
    · intro row g' _ hrow
      obtain rfl := hrow.id
      refine Or.inr ⟨hs.fresh _ _ hnew hrow.version, Edit.create ?_ hrow.deleted hrow.version⟩
      exact .hostPassword hpassword hrow.kind hrow.localOnly hrow.holds
    · exact fun row g' hle _ _ => hQ _ g' (hle₁.trans hle)
  · exact hQ none g (.refl g)

theorem sound_createHost (hs : Supplies A N fresh) (request : CreateHostRequest) :
    SoundFor x key b64 A fresh (.operation (.createHost request)) := by
  apply Grounded.bind
  apply Grounded.bind
  apply grounded_drawId hs
  intro hostId g₁ hnew _
  apply Grounded.bind
  apply grounded_ofExcept
  intro color g₂ hcolor _
  apply Grounded.bind
  apply grounded_createHostIdentity hc hs
  intro identityId g₃ _
  apply Grounded.bind
  apply grounded_put hc
  · intro row g' _ hrow
    obtain rfl : row.id = hostId := hrow.id
    refine Or.inr ⟨hs.fresh _ _ hnew hrow.version, Edit.create ?_ hrow.deleted hrow.version⟩
    exact .host hcolor hrow.kind hrow.localOnly hrow.holds
  · intro row g₄ _ hputs _
    apply Grounded.of_each (reading_idles.summarizeHost _)
    exact fun _ g' hle => ⟨row, hle.puts row hputs⟩

/-- The password overwrites whatever is under the identity of the host. -/
theorem grounded_overwrite {hostId identityId : Uuid} {request : CreateHostRequest}
    {password : String} (hpassword : request.password = some password) {r : Option ItemRow}
    (hseen : g.seen identityId r) {version : UInt64}
    (hversion : version = (r.elim 0 ItemRow.version) + 1) (hQ : ∀ g', g.Le g' → Q () g') :
    Grounded rows (Keyed key) A
      (Allows rows fresh (Edit x key b64) (.operation (.updateHost hostId request))) Q
      (putIdentity x identityId version (!request.syncSecret) false
        (.password identityId (request.label ++ " password") password request.syncSecret)) g := by
  apply grounded_put hc
  · intro row g' hle hrow
    obtain rfl : row.id = identityId := hrow.id
    refine Or.inl ⟨r, hle.seen _ _ hseen, Edit.overwrite ?_ hrow.deleted ?_⟩
    · exact .newPassword hpassword hrow.kind hrow.localOnly hrow.holds
    · exact hrow.version.trans hversion
  · exact fun row g' hle _ _ => hQ g' hle

theorem grounded_updateHostIdentity (hs : Supplies A N fresh) {hostId : Uuid} {request : CreateHostRequest}
    {record : HostRecord} {Q : Option Uuid → Trace Uuid ItemRow → Prop}
    (hQ : ∀ identityId g', g.Le g' → NextIdentity request record.identityId identityId →
      Q identityId g') :
    Grounded rows (Keyed key) A
      (Allows rows fresh (Edit x key b64) (.operation (.updateHost hostId request))) Q
      (updateHostIdentity x record request) g := by
  unfold updateHostIdentity
  split
  · rename_i identityId hidentity
    apply Grounded.bind
    apply Grounded.of_each (each_mapError (reading_idles.get _ _))
    exact fun _ g₁ hle₁ => hQ _ g₁ hle₁ (.chosen identityId hidentity)
  · rename_i password identityId hchosen hpassword hidentity
    have hkept : NextIdentity request record.identityId (some identityId) := by
      rw [← hidentity]
      exact .kept hchosen (Or.inr (by rw [hidentity]; rfl))
    apply Grounded.bind
    apply Grounded.bind
    apply grounded_find
    intro r g₁ hle₁ hseen
    cases r with
    | none =>
      apply Grounded.bind
      apply grounded_overwrite hc hpassword hseen rfl
      exact fun g' hle => hQ _ g' (hle₁.trans hle) hkept
    | some row =>
      apply Grounded.bind
      apply grounded_overwrite hc hpassword hseen rfl
      exact fun g' hle => hQ _ g' (hle₁.trans hle) hkept
  · rename_i password hchosen hpassword hidentity
    apply Grounded.bind
    apply grounded_drawId hs
    intro identityId g₁ hnew hle₁
    apply Grounded.bind
    apply grounded_put hc
    · intro row g' _ hrow
      obtain rfl : row.id = identityId := hrow.id
      refine Or.inr ⟨hs.fresh _ _ hnew ⟨hrow.kind, hrow.version⟩, Edit.create ?_ hrow.deleted hrow.version⟩
      exact .newPassword hpassword hrow.kind hrow.localOnly hrow.holds
    · intro row g' hle _ _
      exact hQ _ g' (hle₁.trans hle) (.drawn identityId hchosen (by rw [hpassword]; rfl) hidentity)
  · rename_i identityId hchosen hpassword hidentity
    have hkept : NextIdentity request record.identityId (some identityId) := by
      rw [← hidentity]
      exact .kept hchosen (Or.inl hpassword)
    apply Grounded.bind
    apply Grounded.attempt (reading_idles.get _ _)
    · apply grounded_get
      intro identity row g₁ hle₁ hseen _ hlive hholds
      cases identity with
      | sshKey => exact hQ _ g₁ hle₁ hkept
      | password id label password slot =>
        dsimp only
        split
        · exact hQ _ g₁ hle₁ hkept
        · apply Grounded.bind
          apply grounded_putIdentity hc hseen hlive hholds .setPasswordSync rfl
          exact fun new g' hle _ _ => hQ _ g' (hle₁.trans hle) hkept
    · exact fun e g' hle => hQ _ g' hle hkept
  · rename_i hchosen hpassword hidentity
    rw [← hidentity]
    exact hQ _ g (.refl g) (.kept hchosen (Or.inl hpassword))

theorem sound_updateHost (hs : Supplies A N fresh) (request : CreateHostRequest) :
    SoundFor x key b64 A fresh (.operation (.updateHost id request)) := by
  apply Grounded.bind
  apply Grounded.bind
  apply grounded_get
  intro record row g₁ _ hseen _ hlive hrecord
  apply Grounded.bind
  apply grounded_checkKind
  apply Grounded.bind
  apply grounded_ofExcept
  intro color g₂ hcolor hle₂
  apply Grounded.bind
  apply grounded_updateHostIdentity hc hs
  intro identityId g₃ hle₃ hidentity
  apply Grounded.bind
  apply grounded_putHost hc (hle₃.seen _ _ (hle₂.seen _ _ hseen)) hlive hrecord
    (.update hcolor hidentity)
  intro new g₄ _ hputs hid
  apply Grounded.of_each (reading_idles.summarizeHost _)
  exact fun _ g' hle => ⟨new, hle.puts new hputs, hid⟩

theorem grounded_deleteHostIdentity {hostId : Uuid} {identityId : Option Uuid}
    (hQ : ∀ g', g.Le g' → Q () g') :
    Grounded rows (Keyed key) A
      (Allows rows fresh (Edit x key b64) (.operation (.deleteHost hostId))) Q
      (deleteHostIdentity x hostId identityId) g := by
  cases identityId with
  | none => exact hQ g (.refl g)
  | some identityId =>
    apply Grounded.bind
    apply Grounded.of_each (reading_idles.hostsUsingIdentity _)
    intro dependents g₁ hle₁
    split
    · apply Grounded.bind
      apply Grounded.attempt (reading_idles.get _ _)
      · apply grounded_get
        intro identity row g₂ hle₂ hseen _ hlive hholds
        apply grounded_putIdentity hc hseen hlive hholds .orphan rfl
        exact fun _ g' hle _ _ => hQ g' ((hle₁.trans hle₂).trans hle)
      · exact fun e g' hle => hQ g' (hle₁.trans hle)
    · exact hQ g₁ hle₁

theorem sound_deleteHost : SoundFor x key b64 A fresh (.operation (.deleteHost id)) := by
  apply Grounded.bind
  apply grounded_get
  intro record row g₁ _ hseen _ hlive hrecord
  apply Grounded.bind
  apply grounded_deleteHostIdentity hc
  intro g₂ hle₂
  apply grounded_putHost hc (hle₂.seen _ _ hseen) hlive hrecord .delete
  exact fun new g' _ hputs hid => ⟨new, hputs, hid⟩

omit hc in
theorem grounded_requireLabel {label : String}
    {G : (Uuid → Option ItemRow → Prop) → ItemRow → Prop}
    {Q : String → Trace Uuid ItemRow → Prop} (hQ : Q (trim label) g) :
    Grounded rows (Keyed key) A G Q (requireLabel label) g := by
  unfold requireLabel
  split
  · exact grounded_fail _
  · exact hQ

theorem sound_importSshKeyIdentity (hs : Supplies A N fresh) (label : String) (keyBytes : Bytes)
    (passphrase : Option String) (remember syncSecret : Bool) :
    SoundFor x key b64 A fresh
      (.operation (.importSshKeyIdentity label keyBytes passphrase remember syncSecret)) := by
  apply Grounded.bind
  apply Grounded.bind
  apply grounded_requireLabel
  apply Grounded.bind
  apply grounded_ofExcept
  intro parsed g₁ _ _
  split
  · exact grounded_fail _
  · rename_i text htext
    apply Grounded.bind
    apply grounded_drawId hs
    intro identityId g₂ hnew _
    apply Grounded.bind
    apply grounded_read
    intro createdAt g₃ _
    apply Grounded.bind
    apply grounded_put hc
    · intro row g' _ hrow
      obtain rfl : row.id = identityId := hrow.id
      refine Or.inr ⟨hs.fresh _ _ hnew trivial, Edit.create ?_ hrow.deleted hrow.version⟩
      exact .sshKey createdAt htext hrow.kind hrow.localOnly hrow.holds
    · intro row g₄ _ hputs _
      apply Grounded.of_each (reading_idles.identityToSummary _)
      exact fun _ g' hle => ⟨row, hle.puts row hputs⟩

theorem sound_renameIdentity (label : String) :
    SoundFor x key b64 A fresh (.operation (.renameIdentity id label)) := by
  apply Grounded.bind
  apply Grounded.bind
  apply grounded_requireLabel
  apply Grounded.bind
  apply grounded_get
  intro identity row g₁ _ hseen _ hlive hholds
  apply Grounded.bind
  apply grounded_checkKind
  apply Grounded.bind
  apply grounded_putIdentity hc hseen hlive hholds .rename rfl
  intro new g₂ _ hputs hid
  apply Grounded.of_each (reading_idles.identityToSummary _)
  exact fun _ g' hle => ⟨new, hle.puts new hputs, hid⟩

theorem sound_setIdentitySyncSecret (syncSecret : Bool) :
    SoundFor x key b64 A fresh (.operation (.setIdentitySyncSecret id syncSecret)) := by
  apply Grounded.bind
  apply Grounded.bind
  apply grounded_get
  intro identity row g₁ _ hseen _ hlive hholds
  apply Grounded.bind
  apply grounded_checkKind
  apply Grounded.bind
  apply grounded_putIdentity hc hseen hlive hholds .setSync
    (by rw [IdentityRecord.syncSecret_setSyncSecret])
  intro new g₂ _ hputs hid
  apply Grounded.of_each (reading_idles.identityToSummary _)
  exact fun _ g' hle => ⟨new, hle.puts new hputs, hid⟩

theorem grounded_detachHosts {identityId : Uuid} {force : Bool} (hosts : List (Uuid × String))
    (hQ : ∀ g', g.Le g' → Q () g') :
    Grounded rows (Keyed key) A
      (Allows rows fresh (Edit x key b64) (.operation (.deleteIdentity identityId force))) Q
      (detachHosts x hosts) g := by
  induction hosts generalizing g with
  | nil => exact hQ g (.refl g)
  | cons host hosts ih =>
    apply Grounded.bind
    apply grounded_get
    intro record row g₁ hle₁ hseen _ hlive hrecord
    apply Grounded.bind
    apply grounded_putHost hc hseen hlive hrecord .detach
    intro _ g₂ hle₂ _ _
    apply ih
    exact fun g' hle => hQ g' ((hle₁.trans hle₂).trans hle)

theorem sound_deleteIdentity (force : Bool) :
    SoundFor x key b64 A fresh (.operation (.deleteIdentity id force)) := by
  apply Grounded.bind
  apply Grounded.bind
  apply grounded_get
  intro identity row g₁ _ hseen _ hlive hholds
  apply Grounded.bind
  apply grounded_checkKind
  apply Grounded.bind
  apply Grounded.of_each (reading_idles.hostsUsingIdentity _)
  intro dependents g₂ hle₂
  split
  · rename_i hrefused
    intro hforce
    simp [hforce] at hrefused
  · apply Grounded.bind
    apply grounded_detachHosts hc
    intro g₃ hle₃
    apply Grounded.bind
    apply grounded_putIdentity hc (hle₃.seen _ _ (hle₂.seen _ _ hseen)) hlive hholds .delete rfl
    exact fun new g' _ hputs hid _ => ⟨new, hputs, hid⟩

theorem sound_createApiKey (hs : Supplies A N fresh) (request : CreateApiKeyRequest) :
    SoundFor x key b64 A fresh (.operation (.createApiKey request)) := by
  apply Grounded.bind
  apply Grounded.bind
  apply grounded_ofExcept
  intro _ g₁ _ _
  apply Grounded.bind
  apply grounded_drawId hs
  intro apiKeyId g₂ hnew _
  apply Grounded.bind
  apply grounded_put hc
  · intro row g' _ hrow
    obtain rfl : row.id = apiKeyId := hrow.id
    refine Or.inr ⟨hs.fresh _ _ hnew trivial, Edit.create ?_ hrow.deleted hrow.version⟩
    exact .apiKey hrow.kind hrow.localOnly hrow.holds
  · exact fun row g' _ hputs _ => ⟨row, hputs⟩

theorem sound_updateApiKey (request : CreateApiKeyRequest) :
    SoundFor x key b64 A fresh (.operation (.updateApiKey id request)) := by
  apply Grounded.bind
  apply Grounded.bind
  apply grounded_ofExcept
  intro _ g₁ _ _
  apply Grounded.bind
  apply grounded_get
  intro record row g₂ _ hseen _ hlive hholds
  apply Grounded.bind
  apply grounded_checkKind
  apply Grounded.bind
  apply grounded_putApiKey hc hseen hlive hholds .update rfl
  exact fun new g' _ hputs hid => ⟨new, hputs, hid⟩

theorem sound_deleteApiKey : SoundFor x key b64 A fresh (.operation (.deleteApiKey id)) := by
  apply Grounded.bind
  apply grounded_get
  intro record row g₁ _ hseen _ hlive hholds
  apply Grounded.bind
  apply grounded_checkKind
  apply grounded_putApiKey hc hseen hlive hholds .delete rfl
  exact fun new g' _ hputs hid => ⟨new, hputs, hid⟩

omit hc in
theorem sound_apply (item : SyncItem) : SoundFor x key b64 A fresh (.apply item) := by
  apply Grounded.bind
  apply Grounded.bind
  apply grounded_find
  intro r g₁ _ hseen
  split
  · rename_i happly
    apply Grounded.bind
    apply grounded_ofExcept
    intro row g₂ hrow hle₂
    obtain ⟨hid, -⟩ := itemRowFromSync_eq_ok hrow
    rw [← hid] at hseen
    apply Grounded.bind
    apply grounded_upsert
    · exact Or.inl ⟨r, hle₂.seen _ _ hseen, Edit.apply happly hrow⟩
    · exact fun g' _ _ => trivial
  · exact trivial

end Operations

/-! ## The import -/

section Imports
variable {x : Externals} {key : VaultKey} {b64 : Base64} {A : Vault → Prop}
variable {G : (Uuid → Option ItemRow → Prop) → ItemRow → Prop} {g : Trace Uuid ItemRow}
variable {N : Uuid → Prop} {fresh : Job → ItemRow → Prop}

theorem looks_listItems (id : Uuid) :
    Looks rows id (withDb fun db => .ok (db.listItems .host false) : VaultM _) := by
  refine ⟨blankVault, blankRow id, rfl, ?_⟩
  intro h
  have hlists : (blankVault.db.upsertItem (blankRow id)).listItems .host false =
      blankVault.db.listItems .host false := Except.ok.inj h
  have hmem : blankRow id ∈ (blankVault.db.upsertItem (blankRow id)).listItems .host false := by
    rw [VaultDb.mem_listItems, VaultDb.getItem_upsertItem]
    simp [blankRow]
  rw [hlists, VaultDb.mem_listItems] at hmem
  cases hmem.1

/-- The hosts an import finds. -/
def Listed (x : Externals) (key : VaultKey) (g : Trace Uuid ItemRow) (row : ItemRow) : Prop :=
  g.seen row.id (some row) ∧ row.deleted = false ∧
    ∀ record, Holds x key x.texts.host row record → record.id = row.id

theorem grounded_listHosts (hown : ∀ v, A v → OwnIds x key v)
    {Q : List ItemRow → Trace Uuid ItemRow → Prop}
    (hQ : ∀ listed g', g.Le g' → (∀ row ∈ listed, Listed x key g' row) → Q listed g') :
    Grounded rows (Keyed key) A G Q
      (lift (withDb fun db => .ok (db.listItems .host false))) g := by
  apply Grounded.idle (idles_withDb _)
  intro v listed _ hA hlisted
  apply hQ listed _ (Trace.le_after rows g _ v)
  intro row hrow
  obtain ⟨hget, -⟩ := withDb_eq_ok (Prod.ext hlisted rfl)
  rw [← Except.ok.inj hget, VaultDb.mem_listItems] at hrow
  obtain ⟨hitem, hkind, hlive⟩ := hrow
  have hdeleted : row.deleted = false := by simpa using hlive
  refine ⟨Or.inr ⟨looks_listItems row.id, hitem.symm⟩, hdeleted, fun record hholds => ?_⟩
  exact hown v hA row.id row record hitem hkind hdeleted hholds

theorem mem_labelledHosts {listed : List ItemRow} {existing : List (String × HostRecord × ItemRow)}
    (h : labelledHosts x key listed = .ok existing) {label : String} {record : HostRecord}
    {row : ItemRow} (hmem : (label, record, row) ∈ existing) :
    row ∈ listed ∧ Holds x key x.texts.host row record := by
  induction listed generalizing existing with
  | nil =>
    cases h
    cases hmem
  | cons first listed ih =>
    simp only [labelledHosts, bind, Except.bind] at h
    split at h
    · cases h
    · rename_i plaintext hplain
      split at h
      · cases h
      · rename_i value hvalue
        split at h
        · cases h
        · rename_i rest hrest
          cases h
          obtain heq | hin := List.mem_cons.1 hmem
          · cases heq
            exact ⟨List.mem_cons_self, plaintext, hplain, hvalue⟩
          · obtain ⟨hin, hholds⟩ := ih hrest hin
            exact ⟨List.mem_cons_of_mem _ hin, hholds⟩

theorem grounded_assignIds (hs : Supplies A N fresh) {Q : List (String × Uuid) → Trace Uuid ItemRow → Prop}
    (labels : List String) (ids : List (String × Uuid))
    (hQ : ∀ ids' g', g.Le g' →
      (∀ label id, ids.lookup label = some id → ids'.lookup label = some id) →
      (∀ label id, ids'.lookup label = some id → ids.lookup label = some id ∨ N id) → Q ids' g') :
    Grounded rows (Keyed key) A G Q (assignIds labels ids) g := by
  induction labels generalizing ids g with
  | nil => exact hQ ids g (.refl g) (fun _ _ h => h) fun _ _ h => Or.inl h
  | cons label labels ih =>
    unfold assignIds
    split
    · exact ih ids hQ
    · apply Grounded.bind
      apply grounded_drawId hs
      intro id g₁ hnew hle₁
      apply ih
      intro ids' g' hle hids hnews
      apply hQ ids' g' (hle₁.trans hle)
      · intro label' id' hid
        apply hids
        rw [List.lookup_append, hid]
        rfl
      · intro label' id' hid
        rcases hnews label' id' hid with hbefore | hdrawn
        · rw [List.lookup_append] at hbefore
          cases hold : ids.lookup label' with
          | some old =>
            rw [hold] at hbefore
            exact Or.inl hbefore
          | none =>
            rw [hold, Option.none_or, List.lookup_cons] at hbefore
            split at hbefore
            · cases hbefore
              exact Or.inr hnew
            · cases hbefore
        · exact Or.inr hdrawn

theorem grounded_importRows (hc : x.aead.Correct) (hs : Supplies A N fresh) {contents : String} {selected : List String}
    {Q : List (ItemRow × Host) → Trace Uuid ItemRow → Prop} {parsed : List SshConfigHost}
    {existing : List (String × HostRecord × ItemRow)} {ids : List (String × Uuid)}
    (hfound : ∀ label record row, existing.lookup label = some (record, row) →
      Listed x key g row ∧ Holds x key x.texts.host row record ∧ ids.lookup label = some row.id)
    (hnew : ∀ label id, existing.lookup label = none → ids.lookup label = some id → N id)
    (labels : List String)
    (hQ : ∀ result g', g.Le g' → (∀ entry ∈ result,
      Allows rows fresh (Edit x key b64) (.operation (.importSshConfig contents selected)) g'.seen
        entry.1) → Q result g') :
    Grounded rows (Keyed key) A G Q (importRows x key parsed existing ids labels) g := by
  induction labels generalizing g Q with
  | nil =>
    apply hQ [] g (.refl g)
    intro entry hentry
    cases hentry
  | cons label labels ih =>
    unfold importRows
    split
    · exact grounded_fail _
    · exact grounded_fail _
    · rename_i imported hostId himported hhost
      dsimp only
      apply Grounded.bind
      apply grounded_ofExcept
      intro plaintext g₁ hplain hle₁
      apply Grounded.bind
      apply grounded_draw
      intro nonce g₂ hle₂
      apply Grounded.bind
      apply grounded_ofExcept
      intro blob g₃ hblob hle₃
      apply Grounded.bind
      apply grounded_read
      intro updatedAt g₄ hle₄
      have hle : g.Le g₄ := ((hle₁.trans hle₂).trans hle₃).trans hle₄
      apply Grounded.bind
      apply ih
      · intro label' record row hrow
        obtain ⟨⟨hseen, hlisted⟩, hrest⟩ := hfound label' record row hrow
        exact ⟨⟨hle.seen _ _ hseen, hlisted⟩, hrest⟩
      · intro rest g' hle' hrest
        apply hQ _ g' (hle.trans hle')
        intro entry hentry
        obtain rfl | hin := List.mem_cons.1 hentry
        · have hrow := stores_of_encrypt hc hplain hblob .host false false updatedAt
          cases hlookup : existing.lookup label with
          | none =>
            rw [hlookup] at hrow
            refine Or.inr ⟨hs.fresh _ _ (hnew label hostId hlookup hhost) rfl,
              Edit.create ?_ rfl rfl⟩
            exact .imported ids imported rfl rfl hrow.holds
          | some found =>
            obtain ⟨record, row⟩ := found
            rw [hlookup] at hrow
            obtain ⟨⟨hseen, hlive, -⟩, hholds, hid⟩ := hfound label record row hlookup
            obtain rfl : row.id = hostId := Option.some.inj (hid.symm.trans hhost)
            have hedit : HostEdit (.importSshConfig contents selected) row.id false record
                (importedHost ids (some (record, row)) row.id imported) := .reimport ids imported
            refine Or.inl ⟨some row, hle'.seen _ _ (hle.seen _ _ hseen), Edit.host hedit ?_ rfl⟩
            exact ⟨hlive, hholds, hrow.holds, rfl, rfl, rfl⟩
        · exact hrest entry hin

/-- The identifier an import starts with under a label is that of the record there. -/
theorem lookup_ids (existing : List (String × HostRecord × ItemRow)) (label : String) :
    (existing.map fun entry => (entry.1, entry.2.1.id)).lookup label =
      (existing.lookup label).map fun entry => entry.1.id := by
  induction existing with
  | nil => rfl
  | cons entry existing ih =>
    rw [List.map_cons, List.lookup_cons, List.lookup_cons, ih]
    cases label == entry.1 <;> rfl

theorem getItem_upsertItemsTransaction (installed : List ItemRow) (db : VaultDb) (id : Uuid) :
    (db.upsertItemsTransaction installed).getItem id =
      (installed.reverse.find? fun row => row.id = id).or (db.getItem id) := by
  induction installed generalizing db with
  | nil => rfl
  | cons row installed ih =>
    have hrest := ih (db.upsertItem row)
    rw [VaultDb.getItem_upsertItem] at hrest
    rw [List.reverse_cons, List.find?_append, Option.or_assoc]
    refine hrest.trans ?_
    by_cases h : id = row.id
    · simp [h]
    · simp [h, Ne.symm h]

theorem grounded_upsertItems {Q : Unit → Trace Uuid ItemRow → Prop} {installed : List ItemRow}
    (hG : ∀ row ∈ installed, G g.seen row) (hQ : ∀ g', g.Le g' → Q () g') :
    Grounded rows (Keyed key) A G Q
      (lift (withDbMut fun db => db.upsertItemsTransaction installed)) g := by
  have hsets : Sets rows (fun id => installed.reverse.find? fun row => row.id = id)
      (withDbMut fun db => db.upsertItemsTransaction installed) := by
    apply sets_withDbMut
    · intro id row h
      simpa using List.find?_some h
    · exact getItem_upsertItemsTransaction installed
  apply Grounded.install (keeps_withDbMut_keyed _) hsets
  · intro id row h
    exact hG row (by simpa using List.mem_of_find?_eq_some h)
  · exact fun _ g' hle _ => hQ g' hle

theorem sound_importSshConfig (hc : x.aead.Correct) (hs : Supplies A N fresh)
    (hown : ∀ v, A v → OwnIds x key v) (contents : String) (selected : List String) :
    SoundFor x key b64 A fresh (.operation (.importSshConfig contents selected)) := by
  apply Grounded.bind
  apply Grounded.bind
  apply grounded_ofExcept
  intro parsed g₁ _ _
  apply Grounded.bind
  apply grounded_ofExcept
  intro order g₂ _ _
  apply Grounded.bind
  apply grounded_requireKey
  intro g₃ _
  apply Grounded.bind
  apply grounded_listHosts hown
  intro listed g₄ _ hlisted
  apply Grounded.bind
  apply grounded_ofExcept
  intro existing g₅ hexisting hle₅
  apply Grounded.bind
  apply grounded_assignIds hs
  intro ids g₆ hle₆ hids hnews
  apply Grounded.bind
  apply grounded_importRows hc hs
  · intro label record row hlookup
    obtain ⟨before, after, rfl, -⟩ := List.lookup_eq_some_iff.1 hlookup
    obtain ⟨hrow, hholds⟩ := mem_labelledHosts hexisting (List.mem_append_right _ List.mem_cons_self)
    obtain ⟨hseen, hlive, hown⟩ := hlisted row hrow
    refine ⟨⟨hle₆.seen _ _ (hle₅.seen _ _ hseen), hlive, hown⟩, hholds, hids label row.id ?_⟩
    rw [lookup_ids, hlookup, Option.map_some, hown record hholds]
  · intro label id hlookup hid
    refine (hnews label id hid).resolve_left fun hbefore => ?_
    rw [lookup_ids, hlookup] at hbefore
    cases hbefore
  · intro result g₇ _ hresult
    apply Grounded.bind
    apply grounded_upsertItems
    · intro row hrow
      obtain ⟨entry, hentry, rfl⟩ := List.mem_map.1 hrow
      exact hresult entry hentry
    · exact fun g' _ => trivial

theorem sound_for (hc : x.aead.Correct) (hs : Supplies A N fresh) (job : Job)
    (hrelies : ∀ v, A v → Relies x key job v) : SoundFor x key b64 A fresh job := by
  cases job with
  | apply item => exact sound_apply item
  | operation o =>
    cases o with
    | createHost request => exact sound_createHost hc hs request
    | updateHost id request => exact sound_updateHost hc hs request
    | deleteHost id => exact sound_deleteHost hc
    | importSshKeyIdentity label keyBytes passphrase remember syncSecret =>
      exact sound_importSshKeyIdentity hc hs label keyBytes passphrase remember syncSecret
    | renameIdentity id label => exact sound_renameIdentity hc label
    | setIdentitySyncSecret id syncSecret => exact sound_setIdentitySyncSecret hc syncSecret
    | deleteIdentity id force => exact sound_deleteIdentity hc force
    | createApiKey request => exact sound_createApiKey hc hs request
    | updateApiKey id request => exact sound_updateApiKey hc request
    | deleteApiKey id => exact sound_deleteApiKey hc
    | importSshConfig contents selected => exact sound_importSshConfig hc hs hrelies contents selected
    | setHostTags id tags => exact sound_setHostTags hc tags
    | touchHostConnected id => exact sound_touchHostConnected hc
    | setKnownHostKey id known => exact sound_setKnownHostKey hc known

theorem sound (hc : x.aead.Correct) (job : Job) : Sound x key b64 job :=
  have hs : Supplies (Relies x key job) (fun _ => True) Drawn :=
    ⟨fun _ _ => trivial, fun _ _ _ h => h⟩
  sound_for hc hs job fun _ h => h

end Imports
end Tethra.RepositoryUpdates
