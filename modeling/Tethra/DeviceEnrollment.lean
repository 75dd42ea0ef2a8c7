import Tethra.KeyConsistency
import Tethra.ServerAuthorization

set_option autoImplicit false

/-!
# The verifier and the master password

The devices of one vault, the header the server publishes and the server's device-auth
record. The server keeps the first verifier it is given.
-/
namespace Tethra.DeviceEnrollment
open AuthenticatedEncryption DeviceAuth KeyConsistency ServerAuthorization StatefulActions
open SyncEngine SyncItems VaultCrypto VaultKeys VaultState VaultTypes
open StatefulActions.Action (bind_ok bind_error)

/-- Base64 has no white space, and a key verifies against its own hash. -/
structure Honest (codecs : Codecs) : Prop where
  trim_encode : ∀ bytes, RustText.trim (codecs.b64.encode bytes) = codecs.b64.encode bytes
  verify_hash : ∀ authKey salt verifier, codecs.hashPassword authKey salt = .ok verifier →
    codecs.verifyPassword authKey verifier = true

/-- Equal encryption keys were derived together with equal auth keys. -/
def IdealKdf (kdf : Kdf) : Prop :=
  ∀ password salt params derived password' salt' params' derived',
    kdf password salt params = .ok derived → kdf password' salt' params' = .ok derived' →
    derived.encKey = derived'.encKey → derived.authKey = derived'.authKey

structure Site (D : Type) where
  vaults : D → Vault
  /-- The header the server publishes. -/
  published : Option SyncedVaultHeader
  server : Server
  /-- The password the last change or recovery set. -/
  password : Bytes

inductive Label (D : Type) where
  | unlock (d : D) (password : Bytes)
  | lock (d : D)
  | changePassword (d : D) (current newPassword : Bytes)
  | recoverWithNewPassword (d : D) (newPassword : Bytes)
  | join (d : D)
  /-- `wire_vault_auth`. -/
  | enroll (d : D) (headers : Headers) (salt : Bytes) (unixNow : ℕ)
  /-- A joining device that has no session yet enrolls. -/
  | joinEnroll (password : Bytes) (headers : Headers) (salt : Bytes) (unixNow : ℕ)

section Steps
variable {D : Type} [DecidableEq D] (aead : Aead KeyBytes) (kdf : Kdf) (codecs : Codecs)

/-- The enroll handler with nothing else going on. -/
def enrollRequest (headers : Headers) (authKey salt : Bytes) (unixNow : ℕ) : ServerM Unit := do
  let record ← enrollRecord codecs none headers (codecs.b64.encode authKey) salt unixNow
  saveRecord codecs record

def Site.setVault (d : D) (v : Vault) (s : Site D) : Site D :=
  { s with vaults := Function.update s.vaults d v }

/-- Vault operations that succeed; an enroll request may be refused. -/
inductive Step : Site D → Label D → Site D → Prop where
  | unlock {s : Site D} {d : D} {password : Bytes} {status : VaultStatus} {w : Vault}
      (h : unlock aead kdf password (s.vaults d) = (.ok status, w)) :
      Step s (.unlock d password) (s.setVault d w)
  | lock {s : Site D} {d : D} {u : Unit} {w : Vault} (h : lock (s.vaults d) = (.ok u, w)) :
      Step s (.lock d) (s.setVault d w)
  | changePassword {s : Site D} {d : D} {current newPassword : Bytes} {u : Unit} {w : Vault}
      {old : VaultHeader} {t : Engine × Option SyncedVaultHeader}
      (hold : (s.vaults d).db.header = some old)
      (h : changePassword aead kdf current newPassword (s.vaults d) = (.ok u, w))
      (hpublish : (publishPasswordRekey aead headerSlot (exportHeader old)).run
        (⟨w, .default⟩, none) = (.ok (), t)) :
      Step s (.changePassword d current newPassword)
        { (s.setVault d t.1.vault) with published := t.2, password := newPassword }
  | recoverWithNewPassword {s : Site D} {d : D} {newPassword : Bytes} {status : VaultStatus}
      {w : Vault}
      (h : recoverWithNewPassword aead kdf newPassword (s.vaults d) = (.ok status, w)) :
      Step s (.recoverWithNewPassword d newPassword)
        { (s.setVault d w) with password := newPassword }
  | join {s : Site D} {d : D} {header : SyncedVaultHeader} {w : Vault}
      (hpublished : s.published = some header)
      (h : onDevice () (importSyncHeader header) (s.vaults d) = (.ok (), w)) :
      Step s (.join d) (s.setVault d w)
  | enroll {s : Site D} {d : D} {headers : Headers} {salt : Bytes} {unixNow : ℕ}
      {key : KeyBytes} {w : Vault} (h : authKey (s.vaults d) = (.ok key, w)) :
      Step s (.enroll d headers salt unixNow) { (s.setVault d w) with
        server := (enrollRequest codecs headers key.1 salt unixNow s.server).2 }
  | joinEnroll {s : Site D} {password salt : Bytes} {headers : Headers} {unixNow : ℕ}
      {header : SyncedVaultHeader} {derived : DerivedKeys} (hpublished : s.published = some header)
      (h : deriveKeys kdf password header.salt header.argon2 = .ok derived) :
      Step s (.joinEnroll password headers salt unixNow) { s with
        server := (enrollRequest codecs headers derived.authKey.1 salt unixNow s.server).2 }

def Enrolled (s : Site D) : Prop :=
  ∃ record, loadRecord codecs none s.server.recordFile = .ok (some record)

/-- The published header is the device's own and opens with the current password. -/
def Current (s : Site D) (d : D) : Prop :=
  ∃ header own derived vaultKey, s.published = some header ∧ (s.vaults d).db.header = some own ∧
    sameVault header (exportHeader own) = true ∧
    deriveKeys kdf s.password header.salt header.argon2 = .ok derived ∧
    unwrapKey aead derived.encKey header.wrappedVaultKey = .ok vaultKey

/-- The password does not change once the server has a record, and the record is made from
the current password and the published header. -/
def Settled (s : Site D) : Label D → Prop
  | .changePassword _ _ _ => ¬ Enrolled codecs s
  | .recoverWithNewPassword _ _ => ¬ Enrolled codecs s
  | .enroll d _ _ _ => Enrolled codecs s ∨ Current aead kdf s d
  | .joinEnroll password _ _ _ => Enrolled codecs s ∨ password = s.password
  | _ => True

inductive Run : Site D → Site D → Prop where
  | refl (s : Site D) : Run s s
  | step {s t u : Site D} {l : Label D} (h : Run s t) (hl : Settled aead kdf codecs t l)
      (hstep : Step aead kdf codecs t l u) : Run s u

/-- The auth key of the current password and the published header logs in. -/
def Accepted (s : Site D) : Prop :=
  ∀ header derived headers random, s.published = some header →
    deriveKeys kdf s.password header.salt header.argon2 = .ok derived → Enrolled codecs s →
    (deviceAuthLogin codecs none headers (codecs.b64.encode derived.authKey.1) random s.server).1 =
        .ok (codecs.b64.encode random) ∨
      (deviceAuthLogin codecs none headers (codecs.b64.encode derived.authKey.1) random s.server).1 =
        .error .tooManyRequests

/-- Every vault is locked and the server has no record. -/
structure Started (s : Site D) : Prop where
  locked : ∀ d, (s.vaults d).state = .locked
  file : s.server.recordFile = none

end Steps

/-! ## The server's side -/

section Requests
variable {codecs : Codecs} {s t : Server}

theorem decodeAuthKey_encode (hc : Honest codecs) (key : KeyBytes) :
    decodeAuthKeyB64 codecs (codecs.b64.encode key.1) = .ok key.1 := by
  unfold decodeAuthKeyB64
  rw [hc.trim_encode, codecs.b64.decode_encode]
  change (if key.1.length ≠ 32 then _ else _) = _
  rw [if_neg (not_not.2 key.2)]

theorem leaves_enrollRecord {γ : Type} {f : Server → γ} (fault : Option ReadFault)
    (headers : Headers) (authKey : String) (salt : Bytes) (unixNow : ℕ) :
    (enrollRecord codecs fault headers authKey salt unixNow).Leaves f := by
  refine (Action.Leaves.read _).bind fun file => (leaves_orStatus _ _).bind fun existing => ?_
  split
  · exact Action.Leaves.fail _
  · refine (Action.Leaves.read _).bind fun token => (Action.Leaves.read _).bind fun allow => ?_
    split
    · exact (leaves_orStatus _ _).bind fun key => (leaves_orStatus _ _).bind fun verifier =>
        Action.Leaves.pure _
    · exact Action.Leaves.fail _

theorem orStatus_ok {ε α : Type} {code : StatusCode} {r : Except ε α} {a : α}
    (h : orStatus code r s = (.ok a, t)) : r = .ok a ∧ t = s := by
  cases r with
  | ok b => cases h; exact ⟨rfl, rfl⟩
  | error e => cases h

/-- A new record holds a hash of the key that was sent. -/
theorem enrollRecord_ok (hc : Honest codecs) {headers : Headers} {key : KeyBytes} {salt : Bytes}
    {unixNow : ℕ} {record : DeviceAuthRecord}
    (h : enrollRecord codecs none headers (codecs.b64.encode key.1) salt unixNow s =
      (.ok record, t)) :
    loadRecord codecs none s.recordFile = .ok none ∧
      codecs.hashPassword key.1 salt = .ok record.verifier := by
  refine ⟨loadRecord_of_enrollRecord (by rw [h]), ?_⟩
  unfold enrollRecord at h
  obtain ⟨file, s1, -, h⟩ := Action.bind_eq_ok.1 h
  obtain ⟨existing, s2, -, h⟩ := Action.bind_eq_ok.1 h
  cases hexisting : existing.isSome with
  | true =>
    rw [hexisting] at h
    cases h
  | false =>
    rw [hexisting] at h
    obtain ⟨token, s3, -, h⟩ := Action.bind_eq_ok.1 h
    obtain ⟨allow, s4, -, h⟩ := Action.bind_eq_ok.1 h
    split at h
    · obtain ⟨decoded, s5, hdecoded, h⟩ := Action.bind_eq_ok.1 h
      obtain ⟨verifier, s6, hverifier, h⟩ := Action.bind_eq_ok.1 h
      obtain ⟨rfl, rfl⟩ := Action.pure_eq_ok.1 h
      have hkey := (orStatus_ok hdecoded).1
      rw [decodeAuthKey_encode hc] at hkey
      cases hkey
      have hhash := (orStatus_ok hverifier).1
      unfold hashAuthKey at hhash
      rw [if_neg (not_not.2 key.2)] at hhash
      cases hpassword : codecs.hashPassword key.1 salt with
      | ok v => rw [hpassword] at hhash; cases hhash; rfl
      | error e => rw [hpassword] at hhash; cases hhash
    · cases h

/-- An enroll request changes nothing, or it is the first and stores its key's hash. -/
theorem enrollRequest_spec (hc : Honest codecs) (headers : Headers) (key : KeyBytes) (salt : Bytes)
    (unixNow : ℕ) (s : Server) :
    (enrollRequest codecs headers key.1 salt unixNow s).2 = s ∨
      (loadRecord codecs none s.recordFile = .ok none ∧ ∃ record,
        codecs.hashPassword key.1 salt = .ok record.verifier ∧
        (enrollRequest codecs headers key.1 salt unixNow s).2 =
          { s with recordFile := some (codecs.toVecPretty record) }) := by
  have hleaves : (enrollRecord codecs none headers (codecs.b64.encode key.1) salt unixNow s).2 = s :=
    leaves_enrollRecord (f := id) none headers _ salt unixNow s
  unfold enrollRequest
  rcases hrun : enrollRecord codecs none headers (codecs.b64.encode key.1) salt unixNow s with ⟨r, t⟩
  rw [hrun] at hleaves
  obtain rfl : t = s := hleaves
  cases r with
  | error e =>
    rw [bind_error hrun]
    exact Or.inl rfl
  | ok record =>
    rw [bind_ok hrun, saveRecord_file]
    obtain ⟨hload, hhash⟩ := enrollRecord_ok hc hrun
    exact Or.inr ⟨hload, record, hhash, rfl⟩

/-- A key that verifies logs in, unless there were too many attempts. -/
theorem deviceAuthLogin_spec (hc : Honest codecs) {headers : Headers} {key : KeyBytes}
    {random : Bytes} {record : DeviceAuthRecord}
    (hload : loadRecord codecs none s.recordFile = .ok (some record))
    (hverify : codecs.verifyPassword key.1 record.verifier = true) :
    (deviceAuthLogin codecs none headers (codecs.b64.encode key.1) random s).1 =
        .ok (codecs.b64.encode random) ∨
      (deviceAuthLogin codecs none headers (codecs.b64.encode key.1) random s).1 =
        .error .tooManyRequests := by
  unfold deviceAuthLogin
  have hfile := leaves_checkAndRecord (f := Server.recordFile) (fun _ _ => rfl)
    (forwardedIp headers) s
  rcases hallowed : checkAndRecord (forwardedIp headers) s with ⟨r, u⟩
  rw [hallowed] at hfile
  dsimp only at hfile
  cases r with
  | error e =>
    unfold checkAndRecord at hallowed
    dsimp only at hallowed
    split at hallowed <;> cases hallowed
  | ok allowed =>
    rw [bind_ok hallowed]
    cases allowed with
    | false => exact Or.inr rfl
    | true =>
      refine Or.inl ?_
      have hfound : findRecord codecs none u = (.ok record, u) := by
        unfold findRecord
        change (orStatus .internalServerError (loadRecord codecs none u.recordFile) >>= _) u = _
        rw [hfile, hload]
        rfl
      change ((findRecord codecs none >>= _) u).1 = _
      rw [bind_ok hfound, decodeAuthKey_encode hc]
      change ((if codecs.verifyPassword key.1 record.verifier = true then
        issueSession (codecs.b64.encode random) >>= fun _ => pure (codecs.b64.encode random)
        else Action.fail .unauthorized : ServerM String) u).1 = _
      rw [if_pos hverify]
      rfl

end Requests

/-! ## The devices' side -/

section Devices
variable {aead : Aead KeyBytes} {kdf : Kdf} {v w : Vault}

/-- The auth key in memory was derived with the key that opens the stored header. -/
def AuthMatched (aead : Aead KeyBytes) (kdf : Kdf) (v : Vault) : Prop :=
  ∀ vaultKey authKey t, v.state = .unlocked vaultKey authKey t →
    ∃ header password derived, v.db.header = some header ∧
      deriveKeys kdf password header.salt header.argon2 = .ok derived ∧
      unwrapKey aead derived.encKey header.wrappedVaultKey = .ok vaultKey ∧
      derived.authKey = authKey

theorem AuthMatched.of_locked (h : v.state = .locked) : AuthMatched aead kdf v := by
  intro vaultKey authKey t hv
  rw [h] at hv
  cases hv

theorem AuthMatched.of_opened {header : VaultHeader} {vaultKey : VaultKey} {password : Bytes}
    {derived : DerivedKeys} {t : Instant} (hheader : v.db.header = some header)
    (hderive : deriveKeys kdf password header.salt header.argon2 = .ok derived)
    (hunwrap : unwrapKey aead derived.encKey header.wrappedVaultKey = .ok vaultKey)
    (hstate : v.state = .unlocked vaultKey derived.authKey t) : AuthMatched aead kdf v := by
  intro vaultKey' authKey' t' hv
  rw [hstate] at hv
  cases hv
  exact ⟨header, password, derived, hheader, hderive, hunwrap, rfl⟩

theorem AuthMatched.of_unchanged (h : AuthMatched aead kdf v) (hw : Unchanged v w) :
    AuthMatched aead kdf w := by
  obtain ⟨hdb, ⟨-, hlocked⟩ | ⟨key, auth, t, t', hv, hunlocked⟩⟩ := hw
  · exact .of_locked hlocked
  · intro vaultKey authKey t'' hstate
    rw [hunlocked] at hstate
    cases hstate
    rw [hdb]
    exact h key auth t hv

theorem AuthMatched.of_status (h : AuthMatched aead kdf v) {r : Except Error VaultStatus}
    (hs : status v = (r, w)) : AuthMatched aead kdf w := by
  obtain ⟨hdb, hstate | hstate⟩ := status_views hs
  · exact h.of_unchanged (.of_untouched ⟨hdb, hstate⟩)
  · exact .of_locked hstate

theorem AuthMatched.of_rewrapped {header next : VaultHeader} {vaultKey : VaultKey}
    {password : Bytes} {derived : DerivedKeys}
    (h : Rewrapped aead kdf header vaultKey password v w derived next) : AuthMatched aead kdf w := by
  obtain ⟨t, hstate⟩ := h.state
  exact .of_opened (by rw [h.db]; rfl) h.derive h.unwrap hstate

/-- `authKey` hands out the key in memory. -/
theorem authKey_spec {key : KeyBytes} (h : authKey v = (.ok key, w)) :
    ∃ vaultKey t t', v.state = .unlocked vaultKey key t ∧
      w.state = .unlocked vaultKey key t' ∧ w.db = v.db := by
  obtain ⟨_, u, hu, h⟩ := Action.bind_eq_ok.1 h
  obtain ⟨hdb, hstate⟩ := touchIdle_cases v
  rw [hu] at hdb hstate
  obtain ⟨state, u', hread, h⟩ := Action.bind_eq_ok.1 h
  obtain ⟨hlock, rfl⟩ := Action.read_eq_ok.1 hread
  cases state with
  | locked => cases h
  | unlocked vaultKey auth last =>
    obtain ⟨_, u'', hup, h⟩ := Action.bind_eq_ok.1 h
    obtain ⟨rfl, rfl⟩ := Action.pure_eq_ok.1 h
    obtain rfl := Action.update_eq_ok.1 hup
    obtain hsame | ⟨-, hlocked⟩ := hstate
    · exact ⟨vaultKey, last, _, hsame.symm.trans hlock, rfl, hdb⟩
    · rw [hlock] at hlocked
      cases hlocked

theorem kdf_of_deriveKeys {password salt : Bytes} {params : Argon2Params} {derived : DerivedKeys}
    (h : deriveKeys kdf password salt params = .ok derived) :
    kdf password salt params = .ok derived := by
  unfold deriveKeys at h
  split at h
  · cases h
  · cases hk : kdf password salt params with
    | ok d => rw [hk] at h; cases h; rfl
    | error e => rw [hk] at h; cases h

/-- Two passwords that open one header come with one auth key. -/
theorem authKey_unique (hi : Ideal aead) (hk : IdealKdf kdf) {salt salt' : Bytes}
    {params params' : Argon2Params} {password password' : Bytes} {derived derived' : DerivedKeys}
    {blob : EncryptedBlob} {vaultKey vaultKey' : VaultKey}
    (h : deriveKeys kdf password salt params = .ok derived)
    (hopen : unwrapKey aead derived.encKey blob = .ok vaultKey)
    (h' : deriveKeys kdf password' salt' params' = .ok derived')
    (hopen' : unwrapKey aead derived'.encKey blob = .ok vaultKey') :
    derived.authKey = derived'.authKey :=
  hk _ _ _ _ _ _ _ _ (kdf_of_deriveKeys h) (kdf_of_deriveKeys h')
    (unwrapKey_unique hi hopen' hopen).1

end Devices

/-! ## Runs -/

section Runs
variable {D : Type} [DecidableEq D] {aead : Aead KeyBytes} {kdf : Kdf} {codecs : Codecs}
  {s t : Site D}

/-- The server's verifier is of the current password and the published header. -/
def Served (kdf : Kdf) (codecs : Codecs) (s : Site D) : Prop :=
  ∀ record header derived, loadRecord codecs none s.server.recordFile = .ok (some record) →
    s.published = some header → deriveKeys kdf s.password header.salt header.argon2 = .ok derived →
    codecs.verifyPassword derived.authKey.1 record.verifier = true

structure Matched (aead : Aead KeyBytes) (kdf : Kdf) (codecs : Codecs) (s : Site D) : Prop where
  vaults : ∀ d, AuthMatched aead kdf (s.vaults d)
  served : Served kdf codecs s

omit [DecidableEq D] in
theorem Started.matched (h : Started s) : Matched aead kdf codecs s where
  vaults d := .of_locked (h.locked d)
  served record header derived hload := by
    rw [h.file] at hload
    cases hload

theorem setVault_vaults (h : ∀ e, AuthMatched aead kdf (s.vaults e)) {d : D} {v : Vault}
    (hv : AuthMatched aead kdf v) (e : D) : AuthMatched aead kdf ((s.setVault d v).vaults e) := by
  change AuthMatched aead kdf (Function.update s.vaults d v e)
  by_cases he : e = d
  · subst he
    rw [Function.update_self]
    exact hv
  · rw [Function.update_of_ne he]
    exact h e

omit [DecidableEq D] in
theorem served_of_not_enrolled (h : ¬ Enrolled codecs s) : Served kdf codecs s := by
  intro record header derived hload
  exact absurd ⟨record, hload⟩ h

omit [DecidableEq D] in
/-- An enroll request keeps the verifier right if its key is the right one. -/
theorem Served.enrollRequest (hc : Honest codecs) (h : Served kdf codecs s) {headers : Headers}
    {key : KeyBytes} {salt : Bytes} {unixNow : ℕ}
    (hkey : Enrolled codecs s ∨ ∀ header derived, s.published = some header →
      deriveKeys kdf s.password header.salt header.argon2 = .ok derived → derived.authKey = key)
    {t : Site D} (hserver : t.server = (enrollRequest codecs headers key.1 salt unixNow s.server).2)
    (hpublished : t.published = s.published) (hpassword : t.password = s.password) :
    Served kdf codecs t := by
  intro record header derived hload hheader hderive
  rw [hpublished] at hheader
  rw [hpassword] at hderive
  rw [hserver] at hload
  obtain hsame | ⟨hnone, first, hhash, hfile⟩ :=
    enrollRequest_spec hc headers key salt unixNow s.server
  · rw [hsame] at hload
    exact h record header derived hload hheader hderive
  · rw [hfile] at hload
    change loadRecord codecs none (some (codecs.toVecPretty first)) = _ at hload
    rw [loadRecord_saved] at hload
    cases hload
    obtain ⟨other, hother⟩ | hright := hkey
    · rw [hnone] at hother
      cases hother
    · rw [hright header derived hheader hderive]
      exact hc.verify_hash _ _ _ hhash

theorem Matched.step (hi : Ideal aead) (hk : IdealKdf kdf) (hc : Honest codecs)
    (h : Matched aead kdf codecs s) {l : Label D} (hl : Settled aead kdf codecs s l)
    (hstep : Step aead kdf codecs s l t) : Matched aead kdf codecs t := by
  obtain ⟨hvaults, hserved⟩ := h
  cases hstep with
  | unlock hrun =>
    obtain ⟨e, he, -⟩ | ⟨u, header, vaultKey, derived, t, hheader, hderive, hunwrap, hdb, hstate,
      hstatus⟩ := unlock_spec hrun
    · cases he
    · refine ⟨setVault_vaults hvaults (AuthMatched.of_status (v := u) ?_ hstatus), hserved⟩
      exact .of_opened (by rw [hdb, hheader]) hderive hunwrap hstate
  | lock hrun =>
    cases hrun
    exact ⟨setVault_vaults hvaults (.of_locked rfl), hserved⟩
  | changePassword hold hrun hpublish =>
    obtain ⟨e, he, -⟩ | ⟨-, header, vaultKey, derived, next, -, -, hnext⟩ := changePassword_spec hi hrun
    · cases he
    obtain ⟨e, he, -⟩ | ⟨-, hsame, -⟩ := publishPasswordRekey_spec hpublish
    · cases he
    refine ⟨setVault_vaults hvaults ((AuthMatched.of_rewrapped hnext).of_unchanged hsame), ?_⟩
    exact served_of_not_enrolled hl
  | recoverWithNewPassword hrun =>
    obtain ⟨e, he, -⟩ | ⟨u, header, vaultKey, derived, next, -, -, hnext, hstatus⟩ :=
      recoverWithNewPassword_spec hi hrun
    · cases he
    refine ⟨setVault_vaults hvaults ((AuthMatched.of_rewrapped hnext).of_status hstatus), ?_⟩
    exact served_of_not_enrolled hl
  | join hpublished hrun =>
    obtain ⟨e, he, -⟩ | ⟨-, hnone, -, hstate⟩ := importSyncHeader_spec hrun
    · cases he
    refine ⟨setVault_vaults hvaults ?_, hserved⟩
    intro vaultKey authKey t hw
    rw [hstate] at hw
    obtain ⟨header, -, -, hheader, -⟩ := hvaults _ vaultKey authKey t hw
    rw [hnone] at hheader
    cases hheader
  | enroll hrun =>
    obtain ⟨vaultKey, t, t', hv, hw, hdb⟩ := authKey_spec hrun
    refine ⟨setVault_vaults hvaults ?_, ?_⟩
    · exact (hvaults _).of_unchanged ⟨hdb, Or.inr ⟨_, _, _, _, hv, hw⟩⟩
    · refine hserved.enrollRequest hc (hl.imp_right fun hcurrent => ?_) rfl rfl rfl
      intro header derived hheader hderive
      obtain ⟨header', own, derived', key', hheader', hown, hsame, hderive', hunwrap'⟩ := hcurrent
      rw [hheader] at hheader'
      cases hheader'
      rw [hderive] at hderive'
      cases hderive'
      obtain ⟨own', password, derived'', hown', hderive'', hunwrap'', rfl⟩ := hvaults _ _ _ _ hv
      rw [hown] at hown'
      cases hown'
      obtain ⟨-, -, hwrapped⟩ := sameVault_iff.1 hsame
      rw [hwrapped] at hunwrap'
      exact authKey_unique hi hk hderive hunwrap' hderive'' hunwrap''
  | joinEnroll hpublished hderive =>
    refine ⟨hvaults, hserved.enrollRequest hc (hl.imp_right fun hpassword => ?_) rfl rfl rfl⟩
    intro header derived hheader hderive'
    rw [hpublished] at hheader
    cases hheader
    rw [← hpassword, hderive] at hderive'
    cases hderive'
    rfl

theorem Matched.run (hi : Ideal aead) (hk : IdealKdf kdf) (hc : Honest codecs)
    (h : Matched aead kdf codecs s) (hrun : Run aead kdf codecs s t) : Matched aead kdf codecs t := by
  induction hrun with
  | refl => exact h
  | step _ hl hstep ih => exact ih.step hi hk hc hl hstep

/-- While the password does not change after the first enroll, the current password logs in. -/
theorem auth_follows_password (hi : Ideal aead) (hk : IdealKdf kdf) (hc : Honest codecs)
    (hs : Started s) (hrun : Run aead kdf codecs s t) : Accepted kdf codecs t := by
  have hstart : Matched aead kdf codecs s := hs.matched
  have hmatched := hstart.run hi hk hc hrun
  intro header derived headers random hheader hderive henrolled
  obtain ⟨record, hload⟩ := henrolled
  exact deviceAuthLogin_spec hc hload (hmatched.served record header derived hload hheader hderive)

end Runs

/-! ## A password change after the enroll -/

section Samples
open Base64Strings

theorem symbol_not_whitespace (i : ℕ) : RustText.isWhitespace (symbol i) = false := by
  by_cases hi : i < 64
  · revert i
    decide
  · have hend : symbol i = '=' := by
      unfold symbol
      rw [List.getD_eq_getElem?_getD, List.getElem?_eq_none (not_lt.1 hi)]
      rfl
    rw [hend]
    rfl

theorem encodeChars_not_whitespace (bytes : List UInt8) :
    ∀ c ∈ encodeChars bytes, RustText.isWhitespace c = false := by
  induction bytes using encodeChars.induct with
  | case1 => simp [encodeChars]
  | case2 a =>
    simp only [encodeChars, List.mem_cons, List.not_mem_nil, or_false]
    rintro c (rfl | rfl | rfl | rfl) <;> first | exact symbol_not_whitespace _ | rfl
  | case3 a b =>
    simp only [encodeChars, List.mem_cons, List.not_mem_nil, or_false]
    rintro c (rfl | rfl | rfl | rfl) <;> first | exact symbol_not_whitespace _ | rfl
  | case4 a b c rest ih =>
    simp only [encodeChars, List.mem_cons]
    rintro d (rfl | rfl | rfl | rfl | hd)
    · exact symbol_not_whitespace _
    · exact symbol_not_whitespace _
    · exact symbol_not_whitespace _
    · exact symbol_not_whitespace _
    · exact ih d hd

theorem dropWhile_whitespace {l : List Char} (h : ∀ c ∈ l, RustText.isWhitespace c = false) :
    l.dropWhile RustText.isWhitespace = l := by
  cases l with
  | nil => rfl
  | cons c rest => rw [List.dropWhile_cons_of_neg (by rw [h c List.mem_cons_self]; decide)]

theorem sampleCodecs_honest : Honest sampleCodecs where
  trim_encode bytes := by
    change RustText.trim (String.ofList (encodeChars bytes)) = String.ofList (encodeChars bytes)
    have h := encodeChars_not_whitespace bytes
    have hrev : ∀ c ∈ (encodeChars bytes).reverse, RustText.isWhitespace c = false :=
      fun c hc => h c (List.mem_reverse.1 hc)
    unfold RustText.trim
    rw [String.toList_ofList, dropWhile_whitespace h, dropWhile_whitespace hrev,
      List.reverse_reverse]
  verify_hash authKey salt verifier h := by
    cases h
    change transparentVerify authKey (transparentHash authKey salt) = true
    unfold transparentVerify transparentHash DeviceAuth.stripPrefix
    rw [String.toList_append, if_pos (List.prefix_append _ _), List.drop_left,
      String.ofList_toList]
    dsimp only
    rw [standard.decode_encode]
    dsimp only
    rw [List.length_append, Nat.add_sub_cancel, List.drop_left, beq_self_eq_true]

theorem sampleKdf_ideal : IdealKdf sampleKdf := by
  intro password salt params derived password' salt' params' derived' h h' henc
  cases h
  cases h'
  exact Subtype.ext (congrArg (fun m : KeyBytes => m.1.map (· + 1)) henc)

def sampleAead : Aead KeyBytes := transparent KEY_LEN

theorem sampleAead_ideal : Ideal sampleAead :=
  ⟨transparent_correct KEY_LEN, transparent_committing KEY_LEN, transparent_canonical KEY_LEN⟩

def sampleKey : VaultKey := ⟨Block.fill 32 7⟩

/-- The header of a vault whose password is `[1]`. -/
def sampleHeader : VaultHeader :=
  ⟨List.replicate SALT_LEN 0, .default, ⟨List.replicate NONCE_LEN 0,
    transparentLabel (sampleMaterial [1] (List.replicate SALT_LEN 0)) vaultKeyWrapAad ++
      sampleKey.expose.1⟩, none, 0⟩

def sampleVault : Vault :=
  ⟨⟨some sampleHeader, KeyedTables.Table.empty⟩, none, .locked, IDLE_LOCK_DISABLED, World.quiet⟩

def sampleSite : Site Unit where
  vaults _ := sampleVault
  published := some (exportHeader sampleHeader)
  server := ⟨none, true, none, fun _ => none, fun _ => [], 0⟩
  password := [1]

theorem sampleSite_started : Started sampleSite := ⟨fun _ => rfl, rfl⟩

def unlockedVault : Vault := (unlock sampleAead sampleKdf [1] sampleVault).2

def sampleSalt : Block SALT_LEN := Block.fill SALT_LEN 0

/-- The auth key of a password under the sample salt. -/
def sampleAuth (password : Bytes) : KeyBytes :=
  ⟨(sampleMaterial password sampleSalt.1).1.map (· + 1), by
    rw [List.length_map, (sampleMaterial password sampleSalt.1).2]⟩

def afterUnlock : Site Unit := sampleSite.setVault () unlockedVault

theorem step_unlock :
    Step sampleAead sampleKdf sampleCodecs sampleSite (.unlock () [1]) afterUnlock := by
  have hok : (unlock sampleAead sampleKdf [1] sampleVault).1 = .ok ⟨true, true, false⟩ := rfl
  exact .unlock (Prod.ext hok rfl)

def afterEnroll : Site Unit :=
  { (afterUnlock.setVault () (authKey unlockedVault).2) with
    server := (enrollRequest sampleCodecs anonymous (sampleAuth [1]).1 sampleSalt.1 0
      sampleSite.server).2 }

theorem step_enroll : Step sampleAead sampleKdf sampleCodecs afterUnlock
    (.enroll () anonymous sampleSalt.1 0) afterEnroll := by
  have hok : (authKey unlockedVault).1 = .ok (sampleAuth [1]) := rfl
  exact .enroll (s := afterUnlock) (Prod.ext hok rfl)

theorem afterEnroll_enrolled : Enrolled sampleCodecs afterEnroll := by
  have hsome : hasDevice (loadRecord sampleCodecs none afterEnroll.server.recordFile) = true := by
    decide +kernel
  rcases hload : loadRecord sampleCodecs none afterEnroll.server.recordFile with e | _ | record
  · rw [hload] at hsome
    cases hsome
  · rw [hload] at hsome
    cases hsome
  · exact ⟨record, hload⟩

def changedVault : Vault :=
  (changePassword sampleAead sampleKdf [1] [2] (authKey unlockedVault).2).2

def publishedRekey : Engine × Option SyncedVaultHeader :=
  ((publishPasswordRekey sampleAead headerSlot (exportHeader sampleHeader)).run
    (⟨changedVault, .default⟩, none)).2

def afterChange : Site Unit :=
  { (afterEnroll.setVault () publishedRekey.1.vault) with
    published := publishedRekey.2, password := [2] }

theorem step_change : Step sampleAead sampleKdf sampleCodecs afterEnroll
    (.changePassword () [1] [2]) afterChange := by
  have hok : (changePassword sampleAead sampleKdf [1] [2] (authKey unlockedVault).2).1 = .ok () :=
    rfl
  have hpublished : ((publishPasswordRekey sampleAead headerSlot (exportHeader sampleHeader)).run
      (⟨changedVault, .default⟩, none)).1 = .ok () := rfl
  have hheader : (afterEnroll.vaults ()).db.header = some sampleHeader := rfl
  exact .changePassword (s := afterEnroll) hheader (Prod.ext hok rfl) (Prod.ext hpublished rfl)

/-- The server still has the verifier of the old password. -/
theorem auth_follows_password_fails : Started sampleSite ∧
    ∃ s t u, Step sampleAead sampleKdf sampleCodecs sampleSite (.unlock () [1]) s ∧
      Step sampleAead sampleKdf sampleCodecs s (.enroll () anonymous sampleSalt.1 0) t ∧
      Step sampleAead sampleKdf sampleCodecs t (.changePassword () [1] [2]) u ∧
      ∃ header derived, u.published = some header ∧
        deriveKeys sampleKdf u.password header.salt header.argon2 = .ok derived ∧
        (deviceAuthLogin sampleCodecs none anonymous (sampleCodecs.b64.encode derived.authKey.1) []
          u.server).1 = .error .unauthorized := by
  refine ⟨sampleSite_started, afterUnlock, afterEnroll, afterChange, step_unlock, step_enroll,
    step_change, ?_⟩
  have hsome : (afterChange.published.map fun header => (header.salt, header.argon2)) =
      some (sampleSalt.1, .default) := by decide +kernel
  obtain ⟨header, hheader, hparams⟩ := Option.map_eq_some_iff.1 hsome
  rw [Prod.mk.injEq] at hparams
  obtain ⟨hsalt, hargon⟩ := hparams
  refine ⟨header, ⟨sampleMaterial [2] sampleSalt.1, sampleMaterial [2] sampleSalt.1,
    sampleAuth [2]⟩, hheader, ?_, ?_⟩
  · rw [hsalt, hargon]
    rfl
  · decide +kernel

theorem auth_follows_password_sample : Enrolled sampleCodecs afterEnroll ∧
    Accepted sampleKdf sampleCodecs afterEnroll := by
  refine ⟨afterEnroll_enrolled, ?_⟩
  have hunlocked : Run sampleAead sampleKdf sampleCodecs sampleSite afterUnlock :=
    .step (l := .unlock () [1]) (.refl sampleSite) trivial step_unlock
  refine auth_follows_password sampleAead_ideal sampleKdf_ideal sampleCodecs_honest
    sampleSite_started (.step hunlocked ?_ step_enroll)
  refine Or.inr ⟨exportHeader sampleHeader, sampleHeader, ⟨sampleMaterial [1] sampleSalt.1,
    sampleMaterial [1] sampleSalt.1, sampleAuth [1]⟩, sampleKey, rfl, rfl, ?_, rfl, ?_⟩
  · exact sameVault_refl _
  · rfl

end Samples
end Tethra.DeviceEnrollment
