import Tethra.BackendLogs
import Tethra.SyncRuns
import Tethra.VaultRepository

set_option autoImplicit false

/-!
# The two flags of a secret

A row carries `local_only` in the clear and, for an identity or an API key, `sync_secret`
under encryption. No operation of the repository and no sync lets them come apart.
-/
namespace Tethra.SecretLinks
open AtomicPrograms AuthenticatedEncryption BackendLogs Base64Strings JsonValues
open RepositoryRequests StatefulActions SyncEngine SyncFileBackend SyncItems SyncRuns
open VaultCrypto VaultRecords VaultRepository VaultState VaultTypes
open AtomicPrograms.Program (lift fail Yields)
open StatefulActions.Action (ofExcept)

section Links
variable (x : Externals) (key : VaultKey)

/-- The row opens to the text of `v`. -/
def Opens (row : ItemRow) (v : JsonValues.Json) : Prop :=
  ∃ plaintext, decryptItem x.aead key row.id row.version row.blob = .ok plaintext ∧
    x.fromSlice plaintext = .ok v

/-- The flag in the clear is the negation of the one under encryption. -/
def Linked (row : ItemRow) : Prop :=
  match row.kind with
  | .host => ∃ r, Opens x key row (x.texts.writeHost r)
  | .identity => ∃ r, Opens x key row (x.texts.writeIdentity r) ∧ row.localOnly = !r.syncSecret
  | .apiKey => ∃ r, Opens x key row (x.texts.writeApiKey r) ∧ row.localOnly = !r.syncSecret
  | .project => False
  | .runningSession => False

structure LinkedVault (v : Vault) : Prop where
  rows : ∀ id row, v.db.getItem id = some row → Linked x key row
  keyed : ∀ vaultKey auth t, v.state = .unlocked vaultKey auth t → vaultKey = key

variable {x key}

theorem LinkedVault.of_items {v w : Vault} (hv : LinkedVault x key v)
    (hitems : w.db.items = v.db.items)
    (hkey : ∀ vaultKey auth t, w.state = .unlocked vaultKey auth t → vaultKey = key) :
    LinkedVault x key w where
  rows id row hrow := by
    rw [VaultDb.getItem, hitems] at hrow
    exact hv.rows id row hrow
  keyed := hkey

theorem LinkedVault.sameRows {v w : Vault} (hv : LinkedVault x key v) (h : SameRows v w) :
    LinkedVault x key w := by
  refine hv.of_items h.1 fun vaultKey auth t hw => ?_
  obtain ⟨auth', t', hstate⟩ := h.2 vaultKey auth t hw
  exact hv.keyed vaultKey auth' t' hstate

theorem LinkedVault.upsert {v : Vault} (hv : LinkedVault x key v) {row : ItemRow}
    (hrow : Linked x key row) (n : ℕ) :
    LinkedVault x key { v with db := v.db.upsertItem row, world.draws := n } where
  rows id r hr := by
    rw [VaultDb.getItem_upsertItem] at hr
    split at hr
    · cases hr
      exact hrow
    · exact hv.rows id r hr
  keyed := hv.keyed

theorem keeps_sameRows {α : Type} {m : VaultM α} (hm : m.Within SameRows) :
    m.Keeps (LinkedVault x key) := fun v hv => hv.sameRows (hm v)

theorem keeps_upsert {row : ItemRow} (hrow : Linked x key row) :
    (withDbMut fun db => db.upsertItem row).Keeps (LinkedVault x key) :=
  keeps_withDbMut _ (fun _ _ hv => hv.of_items rfl hv.keyed) fun _ n hv => hv.upsert hrow n

theorem yields_sameRows {α : Type} {m : VaultM α} (hm : m.Within SameRows) :
    (lift m).Yields (LinkedVault x key) fun _ => True :=
  Yields.lift (keeps_sameRows hm) fun _ _ _ _ => trivial

theorem yields_ofExcept {α : Type} (r : Except Error α) :
    (lift (ofExcept r) : RepositoryM α).Yields (LinkedVault x key) fun a => r = .ok a :=
  Yields.lift (Action.Keeps.ofExcept r) fun _ _ _ h => h

theorem yields_fail {α : Type} (e : Error) :
    (fail e : RepositoryM α).Yields (LinkedVault x key) fun _ => True :=
  Yields.lift (Action.Keeps.fail e) fun _ _ _ _ => trivial

theorem yields_read {α : Type} (f : Vault → α) :
    (lift (Action.read f) : RepositoryM α).Yields (LinkedVault x key) fun _ => True :=
  yields_sameRows fun v => SameRows.refl v

theorem yields_draw {α : Type} (supply : World → ℕ → α) :
    (lift (draw supply) : RepositoryM α).Yields (LinkedVault x key) fun _ => True :=
  yields_sameRows (sameRows_draw supply)

theorem yields_withDb {α : Type} (g : VaultDb → Except Error α) :
    (lift (withDb g) : RepositoryM α).Yields (LinkedVault x key) fun _ => True :=
  yields_sameRows (sameRows_withDb g)

theorem yields_requireKey :
    (lift requireKey : RepositoryM VaultKey).Yields (LinkedVault x key) fun k => k = key := by
  refine Yields.lift (keeps_sameRows sameRows_requireKey) fun v k hv hk => ?_
  obtain ⟨auth, t, hstate, -⟩ := requireKey_eq_ok (Prod.ext hk rfl)
  exact hv.keyed k auth t hstate

theorem toVec_of_encode {α : Type} {f : Format α} {value : α} {bytes : Bytes}
    (h : x.encode f value = .ok bytes) : x.toVec (f.write value) = .ok bytes := by
  unfold Externals.encode at h
  split at h
  · cases h
    assumption
  · cases h

theorem decode_of_opens {α : Type} {f : Format α} {row : ItemRow} {value : α}
    (h : Opens x key row (f.write value)) :
    ∃ plaintext, decryptItem x.aead key row.id row.version row.blob = .ok plaintext ∧
      x.decode f plaintext = .ok value := by
  obtain ⟨plaintext, hopen, hslice⟩ := h
  exact ⟨plaintext, hopen, Externals.decode_eq_ok.2 ⟨_, hslice, f.read_write value⟩⟩

/-- A payload is written under the key, and opens to what was written. -/
theorem yields_put (hc : x.aead.Correct) {α : Type} {f : Format α} {value : α} {id : Uuid}
    {kind : ItemKind} {version : UInt64} {localOnly deleted : Bool}
    (hlink : ∀ row, row.kind = kind → row.localOnly = localOnly →
      Opens x key row (f.write value) → Linked x key row) :
    (putEncryptedJson x f id kind version localOnly deleted value).Yields (LinkedVault x key)
      fun _ => True := by
  refine yields_requireKey.bind fun k hk => ?_
  subst hk
  refine (yields_ofExcept _).bind fun plaintext hplain => ?_
  refine (yields_draw _).bind fun nonce _ => ?_
  refine (yields_ofExcept _).bind fun blob hblob => ?_
  refine (yields_read _).bind fun updatedAt _ => ?_
  refine Yields.lift (keeps_upsert (hlink _ rfl rfl ⟨plaintext, ?_, ?_⟩)) fun _ _ _ _ => trivial
  · exact decryptRaw_encryptRaw hc hblob
  · exact x.fromSlice_toVec _ _ (toVec_of_encode hplain)

theorem yields_putIdentity (hc : x.aead.Correct) (id : Uuid) (version : UInt64) (deleted : Bool)
    {localOnly : Bool} {value : IdentityRecord} (hlocal : localOnly = !value.syncSecret) :
    (putIdentity x id version localOnly deleted value).Yields (LinkedVault x key)
      fun _ => True := by
  refine yields_put hc fun row hkind hrow hopens => ?_
  rw [Linked, hkind]
  exact ⟨value, hopens, hrow.trans hlocal⟩

theorem yields_putApiKey (hc : x.aead.Correct) (id : Uuid) (version : UInt64) (deleted : Bool)
    {localOnly : Bool} {value : ApiKeyRecord} (hlocal : localOnly = !value.syncSecret) :
    (putApiKeyRecord x id version localOnly deleted value).Yields (LinkedVault x key)
      fun _ => True := by
  refine yields_put hc fun row hkind hrow hopens => ?_
  rw [Linked, hkind]
  exact ⟨value, hopens, hrow.trans hlocal⟩

theorem yields_putHost (hc : x.aead.Correct) (id : Uuid) (version : UInt64) (deleted : Bool)
    (value : HostRecord) :
    (putHostRecord x id version deleted value).Yields (LinkedVault x key) fun _ => True := by
  refine yields_put hc fun row hkind _ hopens => ?_
  rw [Linked, hkind]
  exact ⟨value, hopens⟩

theorem yields_get {α : Type} (f : Format α) (id : Uuid) :
    (getEncryptedJson x f id).Yields (LinkedVault x key) fun _ => True := by
  refine yields_requireKey.bind fun k _ => ?_
  refine (yields_withDb _).bind fun found _ => ?_
  cases found with
  | none => exact yields_fail _
  | some row =>
    dsimp only
    split
    · exact yields_fail _
    · refine (yields_ofExcept _).bind fun plaintext _ => ?_
      exact (yields_ofExcept _).bind fun value _ => Yields.pure trivial

theorem yields_checkKind (row : ItemRow) (kind : ItemKind) (message : String) :
    (checkKind row kind message).Yields (LinkedVault x key) fun _ => True := by
  unfold checkKind
  split
  · exact Yields.pure trivial
  · exact yields_fail _

/-! ## The operations -/

theorem yields_summarizeHost (host : Host) :
    (summarizeHost x host).Yields (LinkedVault x key) fun _ => True := by
  refine Yields.bind (P := fun _ => True) ?_ fun _ _ => Yields.pure trivial
  unfold identityMeta
  split
  · exact Yields.pure trivial
  · refine (yields_withDb _).bind fun found _ => ?_
    cases found with
    | none => exact Yields.pure trivial
    | some item =>
      dsimp only
      split
      · exact Yields.pure trivial
      · refine (yields_get x.texts.identity _).attempt.bind fun r _ => ?_
        cases r with
        | ok identity => exact Yields.pure trivial
        | error e => exact Yields.pure trivial

theorem yields_hostsUsingIdentity (identityId : Uuid) :
    (hostsUsingIdentity x identityId).Yields (LinkedVault x key) fun _ => True := by
  refine Yields.bind (P := fun _ => True) ?_ fun _ _ => Yields.pure trivial
  refine yields_requireKey.bind fun k _ => (yields_withDb _).bind fun rows _ => ?_
  induction rows with
  | nil => exact Yields.pure trivial
  | cons row rows ih =>
    refine (yields_ofExcept _).bind fun plaintext _ => (yields_ofExcept _).bind fun record _ => ?_
    refine (yields_summarizeHost record).bind fun summary _ => ?_
    exact ih.bind fun rest _ => Yields.pure trivial

theorem yields_identityToSummary (identity : IdentityRecord) :
    (identityToSummary x identity).Yields (LinkedVault x key) fun _ => True := by
  refine (yields_hostsUsingIdentity _).bind fun hosts _ => ?_
  cases identity with
  | password id label password syncSecret => exact Yields.pure trivial
  | sshKey id label privateKey passphrase createdAt syncSecret => exact Yields.pure trivial

theorem yields_assignIds (labels : List String) (ids : List (String × Uuid)) :
    (assignIds labels ids).Yields (LinkedVault x key) fun _ => True := by
  induction labels generalizing ids with
  | nil => exact Yields.pure trivial
  | cons label labels ih =>
    unfold assignIds
    split
    · exact ih ids
    · exact (yields_draw _).bind fun id _ => ih _

section Writes
variable (hc : x.aead.Correct)
include hc

theorem yields_importRows (parsed : List SshConfigHost)
    (existing : List (String × HostRecord × ItemRow)) (ids : List (String × Uuid))
    (labels : List String) :
    (importRows x key parsed existing ids labels).Yields (LinkedVault x key)
      fun imported => ∀ row ∈ imported.map Prod.fst, Linked x key row := by
  induction labels with
  | nil => exact Yields.pure fun row hrow => by cases hrow
  | cons label labels ih =>
    unfold importRows
    split
    · exact Yields.lift (Action.Keeps.fail _) fun _ _ _ h => by cases h
    · exact Yields.lift (Action.Keeps.fail _) fun _ _ _ h => by cases h
    · refine (yields_ofExcept _).bind fun plaintext hplain => (yields_draw _).bind fun nonce _ => ?_
      refine (yields_ofExcept _).bind fun blob hblob => (yields_read _).bind fun updatedAt _ => ?_
      refine ih.bind fun rest hrest => Yields.pure fun row hrow => ?_
      rw [List.map_cons, List.mem_cons] at hrow
      obtain rfl | hrow := hrow
      · refine ⟨_, plaintext, ?_, x.fromSlice_toVec _ _ (toVec_of_encode hplain)⟩
        exact decryptRaw_encryptRaw hc hblob
      · exact hrest row hrow

omit hc in
theorem LinkedVault.upsertAll {v : Vault} (hv : LinkedVault x key v) {rows : List ItemRow}
    (hrows : ∀ row ∈ rows, Linked x key row) :
    LinkedVault x key { v with db := v.db.upsertItemsTransaction rows } := by
  unfold VaultDb.upsertItemsTransaction
  induction rows generalizing v with
  | nil => exact hv
  | cons row rows ih =>
    have hone := hv.upsert (hrows row List.mem_cons_self) v.world.draws
    exact ih hone fun r hr => hrows r (List.mem_cons_of_mem _ hr)


theorem yields_createHost (request : CreateHostRequest) :
    (createHost x request).Yields (LinkedVault x key) fun _ => True := by
  refine (yields_draw _).bind fun hostId _ => (yields_ofExcept _).bind fun color _ => ?_
  refine Yields.bind (P := fun _ => True) ?_ fun identityId _ => ?_
  · unfold createHostIdentity
    split
    · refine (yields_get x.texts.identity _).mapError.bind fun found _ => ?_
      dsimp only
      split
      · exact Yields.pure trivial
      · exact yields_fail _
    · refine (yields_draw _).bind fun identityId _ => ?_
      exact (yields_putIdentity hc _ _ _ rfl).bind fun _ _ => Yields.pure trivial
    · exact Yields.pure trivial
  · exact (yields_putHost hc _ _ _ _).bind fun _ _ => yields_summarizeHost _

theorem yields_updateHost (id : Uuid) (request : CreateHostRequest) :
    (updateHost x id request).Yields (LinkedVault x key) fun _ => True := by
  refine (yields_get x.texts.host id).bind fun found _ => ?_
  refine (yields_checkKind _ _ _).bind fun _ _ => (yields_ofExcept _).bind fun color _ => ?_
  refine Yields.bind (P := fun _ => True) ?_ fun identityId _ => ?_
  · unfold updateHostIdentity
    split
    · exact (yields_get x.texts.identity _).mapError.bind fun _ _ => Yields.pure trivial
    · refine Yields.bind (P := fun _ => True) ?_ fun version _ => ?_
      · refine (yields_withDb _).bind fun row _ => ?_
        cases row <;> exact Yields.pure trivial
      · exact (yields_putIdentity hc _ _ _ rfl).bind fun _ _ => Yields.pure trivial
    · refine (yields_draw _).bind fun identityId _ => ?_
      exact (yields_putIdentity hc _ _ _ rfl).bind fun _ _ => Yields.pure trivial
    · refine (yields_get x.texts.identity _).attempt.bind fun r _ => ?_
      split
      · split
        · exact Yields.pure trivial
        · exact (yields_putIdentity hc _ _ _ rfl).bind fun _ _ => Yields.pure trivial
      · exact Yields.pure trivial
    · exact Yields.pure trivial
  · exact (yields_putHost hc _ _ _ _).bind fun _ _ => yields_summarizeHost _

theorem yields_setHostTags (id : Uuid) (tags : List String) :
    (setHostTags x id tags).Yields (LinkedVault x key) fun _ => True := by
  refine (yields_get x.texts.host id).bind fun found _ => ?_
  refine (yields_checkKind _ _ _).bind fun _ _ => ?_
  exact (yields_putHost hc _ _ _ _).bind fun _ _ => yields_summarizeHost _

theorem yields_touchHostConnected (id : Uuid) :
    (touchHostConnected x id).Yields (LinkedVault x key) fun _ => True := by
  refine (yields_get x.texts.host id).bind fun found _ => ?_
  refine (yields_checkKind _ _ _).bind fun _ _ => (yields_read _).bind fun now _ => ?_
  exact (yields_putHost hc _ _ _ _).bind fun _ _ => yields_summarizeHost _

theorem yields_setKnownHostKey (id : Uuid) (hostKey : KnownHostKey) :
    (setKnownHostKey x id hostKey).Yields (LinkedVault x key) fun _ => True := by
  refine (yields_get x.texts.host id).mapError.bind fun found _ => ?_
  exact yields_putHost hc _ _ _ _

theorem yields_deleteHost (id : Uuid) :
    (deleteHost x id).Yields (LinkedVault x key) fun _ => True := by
  refine (yields_get x.texts.host id).bind fun found _ => ?_
  refine Yields.bind (P := fun _ => True) ?_ fun _ _ => yields_putHost hc _ _ _ _
  unfold deleteHostIdentity
  split
  · exact Yields.pure trivial
  · refine (yields_hostsUsingIdentity _).bind fun dependents _ => ?_
    split
    · refine (yields_get x.texts.identity _).attempt.bind fun r _ => ?_
      cases r with
      | ok found => exact yields_putIdentity hc _ _ _ rfl
      | error e => exact Yields.pure trivial
    · exact Yields.pure trivial

theorem yields_importSshConfig (contents : String) (selected : List String) :
    (importSshConfig x contents selected).Yields (LinkedVault x key) fun _ => True := by
  refine (yields_ofExcept _).bind fun parsed _ => (yields_ofExcept _).bind fun order _ => ?_
  refine yields_requireKey.bind fun k hk => (yields_withDb _).bind fun rows _ => ?_
  subst hk
  refine (yields_ofExcept _).bind fun existing _ => ?_
  refine (yields_assignIds _ _).bind fun ids _ => ?_
  refine (yields_importRows hc _ _ _ _).bind fun imported himported => ?_
  refine Yields.bind (P := fun _ => True) (Yields.lift ?_ fun _ _ _ _ => trivial)
    fun _ _ => Yields.pure trivial
  refine keeps_withDbMut _ (fun _ _ hv => hv.of_items rfl hv.keyed) fun _ n hv => ?_
  exact (hv.upsertAll himported).of_items rfl hv.keyed

theorem yields_createApiKey (request : CreateApiKeyRequest) :
    (createApiKey x request).Yields (LinkedVault x key) fun _ => True := by
  refine (yields_ofExcept _).bind fun _ _ => (yields_draw _).bind fun id _ => ?_
  exact (yields_putApiKey hc _ _ _ rfl).bind fun _ _ => Yields.pure trivial

theorem yields_updateApiKey (id : Uuid) (request : CreateApiKeyRequest) :
    (updateApiKey x id request).Yields (LinkedVault x key) fun _ => True := by
  refine (yields_ofExcept _).bind fun _ _ => (yields_get x.texts.apiKey id).bind fun found _ => ?_
  refine (yields_checkKind _ _ _).bind fun _ _ => ?_
  exact (yields_putApiKey hc _ _ _ rfl).bind fun _ _ => Yields.pure trivial

theorem yields_deleteApiKey (id : Uuid) :
    (deleteApiKey x id).Yields (LinkedVault x key) fun _ => True := by
  refine (yields_get x.texts.apiKey id).bind fun found _ => ?_
  exact (yields_checkKind _ _ _).bind fun _ _ => yields_putApiKey hc _ _ _ rfl

omit hc in
theorem yields_requireLabel (label : String) :
    (requireLabel label).Yields (LinkedVault x key) fun _ => True := by
  unfold requireLabel
  split
  · exact yields_fail _
  · exact Yields.pure trivial

theorem yields_importSshKeyIdentity (label : String) (keyBytes : Bytes)
    (passphrase : Option String) (rememberPassphrase syncSecret : Bool) :
    (importSshKeyIdentity x label keyBytes passphrase rememberPassphrase syncSecret).Yields
      (LinkedVault x key) fun _ => True := by
  refine (yields_requireLabel label).bind fun label _ => ?_
  refine (yields_ofExcept _).bind fun _ _ => ?_
  split
  · exact yields_fail _
  · refine (yields_draw _).bind fun identityId _ => (yields_read _).bind fun createdAt _ => ?_
    exact (yields_putIdentity hc _ _ _ rfl).bind fun _ _ => yields_identityToSummary _

theorem yields_renameIdentity (id : Uuid) (label : String) :
    (renameIdentity x id label).Yields (LinkedVault x key) fun _ => True := by
  refine (yields_requireLabel label).bind fun label _ => ?_
  refine (yields_get x.texts.identity id).bind fun found _ => ?_
  refine (yields_checkKind _ _ _).bind fun _ _ => ?_
  exact (yields_putIdentity hc _ _ _ rfl).bind fun _ _ => yields_identityToSummary _

theorem yields_setIdentitySyncSecret (id : Uuid) (syncSecret : Bool) :
    (setIdentitySyncSecret x id syncSecret).Yields (LinkedVault x key) fun _ => True := by
  refine (yields_get x.texts.identity id).bind fun found _ => ?_
  refine (yields_checkKind _ _ _).bind fun _ _ => ?_
  exact (yields_putIdentity hc _ _ _ (by simp)).bind fun _ _ => yields_identityToSummary _

theorem yields_detachHosts (hosts : List (Uuid × String)) :
    (detachHosts x hosts).Yields (LinkedVault x key) fun _ => True := by
  induction hosts with
  | nil => exact Yields.pure trivial
  | cons host hosts ih =>
    refine (yields_get x.texts.host _).bind fun found _ => ?_
    exact (yields_putHost hc _ _ _ _).bind fun _ _ => ih

theorem yields_deleteIdentity (id : Uuid) (force : Bool) :
    (deleteIdentity x id force).Yields (LinkedVault x key) fun _ => True := by
  refine (yields_get x.texts.identity id).bind fun found _ => ?_
  refine (yields_checkKind _ _ _).bind fun _ _ => ?_
  refine (yields_hostsUsingIdentity id).bind fun dependents _ => ?_
  split
  · exact Yields.pure trivial
  · refine (yields_detachHosts hc dependents).bind fun _ _ => ?_
    exact (yields_putIdentity hc _ _ _ rfl).bind fun _ _ => Yields.pure trivial

/-- Every action of every operation keeps the flags linked. -/
theorem yields_operation (op : Operation) :
    (op.program x).Yields (LinkedVault x key) fun _ => True := by
  cases op with
  | createHost request =>
    exact (yields_createHost hc request).bind fun _ _ => Yields.pure trivial
  | updateHost id request =>
    exact (yields_updateHost hc id request).bind fun _ _ => Yields.pure trivial
  | deleteHost id => exact yields_deleteHost hc id
  | importSshKeyIdentity label keyBytes passphrase rememberPassphrase syncSecret =>
    exact (yields_importSshKeyIdentity hc label keyBytes passphrase rememberPassphrase
      syncSecret).bind fun _ _ => Yields.pure trivial
  | renameIdentity id label =>
    exact (yields_renameIdentity hc id label).bind fun _ _ => Yields.pure trivial
  | setIdentitySyncSecret id syncSecret =>
    exact (yields_setIdentitySyncSecret hc id syncSecret).bind fun _ _ => Yields.pure trivial
  | deleteIdentity id force =>
    exact (yields_deleteIdentity hc id force).bind fun _ _ => Yields.pure trivial
  | createApiKey request =>
    exact (yields_createApiKey hc request).bind fun _ _ => Yields.pure trivial
  | updateApiKey id request =>
    exact (yields_updateApiKey hc id request).bind fun _ _ => Yields.pure trivial
  | deleteApiKey id => exact yields_deleteApiKey hc id
  | importSshConfig contents selected =>
    exact (yields_importSshConfig hc contents selected).bind fun _ _ => Yields.pure trivial
  | setHostTags id tags =>
    exact (yields_setHostTags hc id tags).bind fun _ _ => Yields.pure trivial
  | touchHostConnected id =>
    exact (yields_touchHostConnected hc id).bind fun _ _ => Yields.pure trivial
  | setKnownHostKey id hostKey => exact yields_setKnownHostKey hc id hostKey

end Writes
end Links
end Tethra.SecretLinks
