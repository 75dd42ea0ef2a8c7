import Tethra.IdentityReferences

set_option autoImplicit false

/-!
# The password of a host

Updating a host with a password stores a password identity: over the identity the host has, or
under a new identifier. The host may share the identity it has, and it may be an SSH key.
-/
namespace Tethra.HostPasswords
open AtomicPrograms AuthenticatedEncryption IdentityReferences JsonValues RepositoryActions
open RepositoryRequests RepositoryRuns RepositoryUpdates SecretLinks StatefulActions VaultCrypto
open VaultRecords VaultRepository VaultState VaultTypes
open RunningSessions (Same)
open SshConfigImports (DrawnBetween)

variable {x : Externals} {key : VaultKey} {v t : Vault} {id : Uuid}

/-! ## What is shared -/

/-- An SSH key, or the identity of some other live host. -/
def Protected (x : Externals) (key : VaultKey) (v : Vault) (id i : Uuid) : Prop :=
  (∃ row j label privateKey passphrase createdAt syncSecret, v.db.getItem i = some row ∧
    Holds x key x.texts.identity row
      (.sshKey j label privateKey passphrase createdAt syncSecret)) ∨
  ∃ other row r, v.db.getItem other = some row ∧ other ≠ id ∧ Refers x key i row r

/-- The identity of the host is its own password, or there is none. -/
def Owned (x : Externals) (key : VaultKey) (v : Vault) (id : Uuid) : Prop :=
  ∀ row host i, v.db.getItem id = some row → row.kind = .host → row.deleted = false →
    Holds x key x.texts.host row host → host.identityId = some i → ¬ Protected x key v id i

def Untouched (x : Externals) (key : VaultKey) (v t : Vault) (id : Uuid) : Prop :=
  ∀ i row, v.db.getItem i = some row → row.kind = .identity → Protected x key v id i →
    t.db.getItem i = some row

/-- No other live host refers to the identity of the host. -/
def Alone (x : Externals) (key : VaultKey) (t : Vault) (id : Uuid) : Prop :=
  ∀ row host i, t.db.getItem id = some row → Holds x key x.texts.host row host →
    host.identityId = some i → ∀ other orow r, t.db.getItem other = some orow → other ≠ id →
      ¬ Refers x key i orow r

/-! ## What is written -/

/-- Where the password of a host goes. -/
def Target (v t : Vault) (record : HostRecord) (i : Uuid) : Prop :=
  record.identityId = some i ∨ record.identityId = none ∧ DrawnBetween v t i

structure NewPassword (x : Externals) (key : VaultKey) (i : Uuid) (w : ItemRow) : Prop where
  id : w.id = i
  kind : w.kind = .identity
  live : w.deleted = false
  holds : ∃ label password syncSecret,
    Holds x key x.texts.identity w (.password i label password syncSecret)

theorem calms_nextVersion (i : Uuid) : (nextVersion i).Each fun m => Calms key m := by
  refine (reading_calms.find i).bind fun found => ?_
  cases found <;> exact .pure _

theorem calms_checkKind (row : ItemRow) (kind : ItemKind) (message : String) :
    (checkKind row kind message).Each fun m => Calms key m := by
  unfold checkKind
  split
  · exact .pure _
  · exact reading_calms.failed _

theorem store_cases (hc : x.aead.Correct) (hv : Keyed key v) {i : Uuid} {version : UInt64}
    {label password : String} {syncSecret : Bool} {r : Except Error (Option Uuid)}
    (h : (putIdentity x i version (!syncSecret) false (.password i label password syncSecret) >>=
      fun _ => pure (some i)).run v = (r, t)) :
    ((∃ e, r = .error e) ∧ Same key v t) ∨ ∃ w, r = .ok (some i) ∧ NewPassword x key i w ∧
      Put key v t w := by
  obtain ⟨e, rfl, hput⟩ | ⟨⟨⟩, u, hput, hpure⟩ := bind_cases h
  · obtain ⟨-, hsame⟩ | ⟨hok, -⟩ := put_cases hc hv hput
    · exact Or.inl ⟨⟨e, rfl⟩, hsame⟩
    · cases hok
  · obtain ⟨w, hw, hputs⟩ := put_ok hc hv hput
    cases hpure
    exact Or.inr ⟨w, rfl, ⟨hw.id, hw.kind, hw.deleted, _, _, _, hw.holds⟩, hputs⟩

theorem updateHostIdentity_cases (hc : x.aead.Correct) (hv : Keyed key v) {record : HostRecord}
    {request : CreateHostRequest} {r : Except Error (Option Uuid)}
    (hchosen : request.identityId = none) (hpassword : request.password.isSome = true)
    (h : (updateHostIdentity x record request).run v = (r, t)) :
    ((∃ e, r = .error e) ∧ Same key v t) ∨ ∃ i w, r = .ok (some i) ∧ Target v t record i ∧
      NewPassword x key i w ∧ Put key v t w := by
  obtain ⟨password, hpassword⟩ := Option.isSome_iff_exists.1 hpassword
  unfold updateHostIdentity at h
  rw [hchosen, hpassword] at h
  cases hidentity : record.identityId with
  | some i =>
    rw [hidentity] at h
    obtain ⟨e, rfl, hfail⟩ | ⟨version, v₁, hversion, h⟩ := bind_cases h
    · exact Or.inl ⟨⟨e, rfl⟩, (calm_of_each (calms_nextVersion i) hv hfail).toSame⟩
    · have hcalm := calm_of_each (calms_nextVersion i) hv hversion
      obtain ⟨hfail, hsame⟩ | ⟨w, rfl, hw, hput⟩ := store_cases hc hcalm.keyed h
      · exact Or.inl ⟨hfail, hcalm.toSame.trans hsame⟩
      · exact Or.inr ⟨i, w, rfl, Or.inl hidentity, hw, hput.after hcalm⟩
  | none =>
    rw [hidentity] at h
    obtain ⟨e, rfl, hfail⟩ | ⟨i, v₁, hi, h⟩ := bind_cases h
    · exact Or.inl ⟨⟨e, rfl⟩, (calm_of_lift (calms_draw _) hv hfail).toSame⟩
    · obtain ⟨rfl, hlt, hcalm⟩ := draw_ok hv hi
      obtain ⟨hfail, hsame⟩ | ⟨w, rfl, hw, hput⟩ := store_cases hc hcalm.keyed h
      · exact Or.inl ⟨hfail, hcalm.toSame.trans hsame⟩
      · refine Or.inr ⟨_, w, rfl, Or.inr ⟨hidentity, _, le_refl _, ?_, rfl⟩, hw, hput.after hcalm⟩
        exact hlt.trans_le hput.draws

/-- The rows an update with a password may write. -/
structure Overwrites (x : Externals) (key : VaultKey) (v t : Vault) (id : Uuid)
    (record : HostRecord) (i : Uuid) (w : ItemRow) : Prop where
  target : Target v t record i
  password : NewPassword x key i w
  stored : i ≠ id → t.db.getItem i = some w
  kept : ∀ j, j ≠ i → j ≠ id → t.db.getItem j = v.db.getItem j

theorem updateHost_cases (hc : x.aead.Correct) (hv : Keyed key v) {request : CreateHostRequest}
    {r : Except Error HostSummary} (hchosen : request.identityId = none)
    (hpassword : request.password.isSome = true)
    (h : (updateHost x id request).run v = (r, t)) :
    ((∃ e, r = .error e) ∧ ∀ j, t.db.getItem j = v.db.getItem j) ∨
      ∃ record row i w, v.db.getItem id = some row ∧ row.kind = .host ∧ row.deleted = false ∧
        Holds x key x.texts.host row record ∧ Overwrites x key v t id record i w ∧
        ∀ s, r = .ok s → ∃ host hw, t.db.getItem id = some hw ∧ hw.kind = .host ∧
          hw.deleted = false ∧ Holds x key x.texts.host hw host ∧ host.identityId = some i := by
  obtain ⟨e, rfl, hfail⟩ | ⟨⟨record, row⟩, v₁, hget, h⟩ := bind_cases h
  · exact Or.inl ⟨⟨e, rfl⟩, (calm_of_each (reading_calms.get _ _) hv hfail).rows⟩
  obtain ⟨hrow, hlive, hholds, hcalm⟩ := get_ok hv hget
  obtain ⟨e, rfl, hfail⟩ | ⟨⟨⟩, v₂, hcheck, h⟩ := bind_cases h
  · exact Or.inl ⟨⟨e, rfl⟩, (hcalm.trans
      (calm_of_each (calms_checkKind _ _ _) hcalm.keyed hfail)).rows⟩
  obtain ⟨hkind, rfl⟩ := checkKind_ok hcheck
  obtain ⟨e, rfl, hfail⟩ | ⟨color, v₃, hcolor, h⟩ := bind_cases h
  · exact Or.inl ⟨⟨e, rfl⟩,
      (hcalm.trans (calm_of_each (reading_calms.decoded _) hcalm.keyed hfail)).rows⟩
  obtain ⟨-, rfl⟩ := computed_ok hcolor
  obtain ⟨e, rfl, hfail⟩ | ⟨identityId, v₄, hidentity, h⟩ := bind_cases h
  · obtain ⟨-, hsame⟩ | ⟨i, w, hok, -⟩ :=
      updateHostIdentity_cases hc hcalm.keyed hchosen hpassword hfail
    · exact Or.inl ⟨⟨e, rfl⟩, (hcalm.toSame.trans hsame).rows⟩
    · cases hok
  obtain ⟨⟨e, hfail⟩, -⟩ | ⟨i, w, hok, htarget, hw, hput⟩ :=
    updateHostIdentity_cases hc hcalm.keyed hchosen hpassword hidentity
  · cases hfail
  cases hok
  have hput := hput.after hcalm
  have hidentities : ∀ j, v₄.db.getItem j = if j = i then some w else v.db.getItem j := by
    intro j
    rw [hput.getItem, hw.id]
  have htarget : ∀ {u}, Draws v₄ u → Target v u record i := by
    intro u hd
    obtain hold | ⟨hnone, n, hn, hlt, heq⟩ := htarget
    · exact Or.inl hold
    · exact Or.inr ⟨hnone, n, hcalm.draws.trans hn, hlt.trans_le hd.draws,
        heq.trans (congrFun hcalm.supply n)⟩
  refine Or.inr ⟨record, row, i, w, hrow, hkind, hlive, hholds, ?_⟩
  obtain ⟨e, rfl, hfail⟩ | ⟨⟨⟩, v₅, hstore, h⟩ := bind_cases h
  · have hd := draws_run (acting_draws.put _ _ _ _ _ _ _) hfail
    obtain ⟨-, hsame⟩ | ⟨hok, -⟩ := put_cases hc hput.keyed hfail
    · refine ⟨⟨htarget hd, hw, fun hne => ?_, fun j hj hid => ?_⟩, fun s hs => (by cases hs)⟩
      · rw [hsame.rows, hidentities, if_pos rfl]
      · rw [hsame.rows, hidentities, if_neg hj]
    · cases hok
  · obtain ⟨hostRow, hhost, hputs⟩ := put_ok hc hput.keyed hstore
    have hcalm₅ := calm_of_each (reading_calms.summarizeHost _) hputs.keyed h
    have hrows : ∀ j, t.db.getItem j = if j = id then some hostRow else v₄.db.getItem j := by
      intro j
      rw [hcalm₅.rows, hputs.getItem, hhost.id]
    refine ⟨⟨htarget (hputs.toDraws.trans hcalm₅.toDraws), hw, fun hne => ?_, fun j hj hid => ?_⟩,
      fun s _ => ?_⟩
    · rw [hrows, if_neg hne, hidentities, if_pos rfl]
    · rw [hrows, if_neg hid, hidentities, if_neg hj]
    · exact ⟨_, hostRow, (hrows id).trans (if_pos rfl), hhost.kind, hhost.deleted, hhost.holds,
        rfl⟩

/-! ## What is kept -/

section Samples
open SecretFleets (sampleKey)
open SshConfigImports (emptyVault)

/-- The identity of an SSH key, a host that uses it, and the password of that host. -/
def keyTexts : JsonTexts.Samples where
  values := [SessionFleets.sampleTexts.writeIdentity
      (.sshKey (numbered.uuidAt 0) "key" "k" none 0 false),
    SessionFleets.sampleTexts.writeHost
      { Host.new (numbered.uuidAt 4) "web" "web.example" "root" with
        identityId := some (numbered.uuidAt 0) },
    SessionFleets.sampleTexts.writeIdentity
      (.password (numbered.uuidAt 0) "web password" "pw" false)]
  distinct := by decide +kernel

def keyExternals : Externals :=
  keyTexts.externals (fun _ _ => .ok ⟨"ssh-ed25519", "SHA256:key"⟩) fun _ => .ok []

def keyRequest (password : Option String) (identityId : Option Uuid) : CreateHostRequest :=
  ⟨"web", "web.example", 22, "root", password, identityId, false, none, .auto, [], false, false⟩

def importKey : Operation := .importSshKeyIdentity "key" [0x6b] none false false

def createWithKey : Operation := .createHost (keyRequest none (some (numbered.uuidAt 0)))

def keyVault : Vault := ((importKey.program keyExternals).run emptyVault).2

def hostVault : Vault := ((createWithKey.program keyExternals).run keyVault).2

def passwordRun : Except Error HostSummary × Vault :=
  (updateHost keyExternals (numbered.uuidAt 4) (keyRequest (some "pw") none)).run hostVault

def readAs {α : Type} (x : Externals) (f : Format α) (row : ItemRow) : Option α :=
  (decryptItem x.aead sampleKey row.id row.version row.blob >>= x.decode f).toOption

theorem holds_readAs {α : Type} {x : Externals} {f : Format α} {row : ItemRow} {value : α}
    (h : readAs x f row = some value) : Holds x sampleKey f row value := by
  unfold readAs at h
  cases hplain : decryptItem x.aead sampleKey row.id row.version row.blob with
  | error e =>
    rw [hplain] at h
    cases h
  | ok plaintext =>
    rw [hplain] at h
    change (x.decode f plaintext).toOption = some value at h
    refine ⟨plaintext, hplain, ?_⟩
    cases hread : x.decode f plaintext with
    | error e =>
      rw [hread] at h
      cases h
    | ok value =>
      rw [hread] at h
      exact congrArg _ (Option.some.inj h)

theorem samples_ok : ((importKey.program keyExternals).run emptyVault).1.isOk = true ∧
    ((createWithKey.program keyExternals).run keyVault).1.isOk = true ∧
    passwordRun.1.isOk = true ∧ passwordRun.2.world.draws ≤ 256 ∧
    (hostVault.db.getItem (numbered.uuidAt 0)).any (fun row => row.kind = .identity ∧
      readAs keyExternals keyExternals.texts.identity row =
        some (.sshKey (numbered.uuidAt 0) "key" "k" none 0 false)) ∧
    hostVault.db.getItem (numbered.uuidAt 0) ≠ passwordRun.2.db.getItem (numbered.uuidAt 0) := by
  decide +kernel

theorem reached_empty (x : Externals) : Reached x sampleKey emptyVault :=
  .empty (fun _ => rfl) fun vaultKey auth t h => by cases h; rfl

theorem draws_updateHost (x : Externals) (v : Vault) (id : Uuid) (request : CreateHostRequest) :
    Draws v ((updateHost x id request).run v).2 :=
  (acting_draws.updateHost id request).within Draws.refl Draws.trans v

/-- A host without an identity, and the password it is given. -/
def plainTexts : JsonTexts.Samples where
  values := [SessionFleets.sampleTexts.writeHost
      (Host.new (numbered.uuidAt 0) "web" "web.example" "root"),
    SessionFleets.sampleTexts.writeIdentity
      (.password (numbered.uuidAt 4) "web password" "pw" false),
    SessionFleets.sampleTexts.writeHost
      { Host.new (numbered.uuidAt 0) "web" "web.example" "root" with
        identityId := some (numbered.uuidAt 4) }]
  distinct := by decide +kernel

def plainExternals : Externals :=
  plainTexts.externals (fun _ _ => .error "no key") fun _ => .ok []

def createPlain : Operation := .createHost (keyRequest none none)

def plainVault : Vault := ((createPlain.program plainExternals).run emptyVault).2

def plainRun : Except Error HostSummary × Vault :=
  (updateHost plainExternals (numbered.uuidAt 0) (keyRequest (some "pw") none)).run plainVault

end Samples

end Tethra.HostPasswords
