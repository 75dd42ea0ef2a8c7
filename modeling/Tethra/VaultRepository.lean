import Tethra.AtomicPrograms
import Tethra.RepositoryRequests
import Tethra.VaultState

set_option autoImplicit false

/-!
# Hosts, identities and API keys

Every access to the vault is one atomic action, so that two operations may interleave
between any two of them.
-/
namespace Tethra.VaultRepository
open AtomicPrograms AuthenticatedEncryption JsonValues RepositoryRequests RustText
open VaultCrypto VaultRecords VaultState VaultTypes
open StatefulActions.Action (read ofExcept)
open AtomicPrograms.Program (lift fail)

abbrev RepositoryM (α : Type) := Program Vault Error α

section Items
variable {α : Type} (x : Externals) (f : Format α)

def putEncryptedJson (id : Uuid) (kind : ItemKind) (version : UInt64) (localOnly deleted : Bool)
    (value : α) : RepositoryM Unit := do
  let key ← lift requireKey
  let plaintext ← lift (ofExcept (x.encode f value))
  let nonce ← lift (draw World.nonceAt)
  let blob ← lift (ofExcept (encryptItem x.aead key nonce id version plaintext))
  let updatedAt ← lift (read fun v => v.world.utcNow)
  lift (withDbMut fun db =>
    db.upsertItem ⟨id, kind, version, updatedAt, deleted, localOnly, blob⟩)

def getEncryptedJson (id : Uuid) : RepositoryM (α × ItemRow) := do
  let key ← lift requireKey
  match ← lift (withDb fun db => .ok (db.getItem id)) with
  | none => fail (.other ("item not found: " ++ id.display))
  | some row =>
    if row.deleted then fail (.other ("item deleted: " ++ id.display))
    else do
      let plaintext ← lift (ofExcept (decryptItem x.aead key row.id row.version row.blob))
      let value ← lift (ofExcept (x.decode f plaintext))
      pure (value, row)

end Items

section Operations
variable (x : Externals)

def getIdentity (id : Uuid) : RepositoryM (IdentityRecord × ItemRow) :=
  getEncryptedJson x x.texts.identity id

def putIdentity (id : Uuid) (version : UInt64) (localOnly deleted : Bool)
    (value : IdentityRecord) : RepositoryM Unit :=
  putEncryptedJson x x.texts.identity id .identity version localOnly deleted value

def getHostRecord (id : Uuid) : RepositoryM (HostRecord × ItemRow) :=
  getEncryptedJson x x.texts.host id

def putHostRecord (id : Uuid) (version : UInt64) (deleted : Bool) (value : HostRecord) :
    RepositoryM Unit :=
  putEncryptedJson x x.texts.host id .host version false deleted value

def getApiKeyRecord (id : Uuid) : RepositoryM (ApiKeyRecord × ItemRow) :=
  getEncryptedJson x x.texts.apiKey id

def putApiKeyRecord (id : Uuid) (version : UInt64) (localOnly deleted : Bool)
    (value : ApiKeyRecord) : RepositoryM Unit :=
  putEncryptedJson x x.texts.apiKey id .apiKey version localOnly deleted value

/-- The row's kind, or an `InvalidArgument`. -/
def checkKind (row : ItemRow) (kind : ItemKind) (message : String) : RepositoryM Unit :=
  if row.kind = kind then pure () else fail (.invalidArgument message)

def checkHost (row : ItemRow) : RepositoryM Unit := checkKind row .host "item is not a host"

def checkIdentity (row : ItemRow) : RepositoryM Unit :=
  checkKind row .identity "item is not an identity"

def checkApiKey (row : ItemRow) : RepositoryM Unit :=
  checkKind row .apiKey "item is not an api key"

def nextVersion (id : Uuid) : RepositoryM UInt64 := do
  match ← lift (withDb fun db => .ok (db.getItem id)) with
  | some row => pure (row.version + 1)
  | none => pure 1

/-! ## Hosts -/

def identityMeta : Option Uuid → RepositoryM IdentityMeta
  | none => pure .absent
  | some identityId => do
    match ← lift (withDb fun db => .ok (db.getItem identityId)) with
    | none => pure .absent
    | some item =>
      if item.deleted || item.kind ≠ .identity then pure .absent
      else do
        match ← (getIdentity x identityId).attempt with
        | .ok (identity, _) => pure (.of identity)
        | .error _ => pure .absent

/-- What every host operation returns. -/
def summarizeHost (host : Host) : RepositoryM HostSummary := do
  let identity ← identityMeta x host.identityId
  pure ((HostSummary.from host).withMeta identity)

def listHostRows (key : VaultKey) : List ItemRow → RepositoryM (List HostSummary)
  | [] => pure []
  | row :: rows => do
    let plaintext ← lift (ofExcept (decryptItem x.aead key row.id row.version row.blob))
    let record ← lift (ofExcept (x.decode x.texts.host plaintext))
    let summary ← summarizeHost x record
    let rest ← listHostRows key rows
    pure (summary :: rest)

def listHosts : RepositoryM (List HostSummary) := do
  let key ← lift requireKey
  let rows ← lift (withDb fun db => .ok (db.listItems .host false))
  listHostRows x key rows

def hostsUsingIdentity (identityId : Uuid) : RepositoryM (List (Uuid × String)) := do
  let hosts ← listHosts x
  pure ((hosts.filter fun h => h.identityId = some identityId).map fun h => (h.id, h.label))

/-- The identity of a new host: an existing one, one for its password, or none. -/
def createHostIdentity (request : CreateHostRequest) : RepositoryM (Option Uuid) :=
  match request.identityId, request.password with
  | some identityId, _ => do
    let (identity, _) ← (getIdentity x identityId).mapError
      fun _ => .identityNotFound identityId.asBytes.1
    if identity.id = identityId then pure (some identityId)
    else fail (.invalidArgument "identity id mismatch")
  | none, some password => do
    let identityId ← lift (draw World.uuidAt)
    putIdentity x identityId 1 (!request.syncSecret) false
      (.password identityId (request.label ++ " password") password request.syncSecret)
    pure (some identityId)
  | none, none => pure none

def createHost (request : CreateHostRequest) : RepositoryM HostSummary := do
  let hostId ← lift (draw World.uuidAt)
  let color ← lift (ofExcept (validateHostColor request.color))
  let identityId ← createHostIdentity x request
  let host : Host :=
    { Host.new hostId request.label request.hostname request.username with
      port := request.port
      color := color
      shellIntegration := request.shellIntegration
      tunnels := request.tunnels
      forwardAgent := request.forwardAgent
      useDefaultKeys := request.useDefaultKeys
      identityId := identityId }
  putHostRecord x host.id 1 false host
  summarizeHost x host

/-- The identity an updated host ends up with. A password overwrites the identity the host
has; without one only the flag of a password identity changes. -/
def updateHostIdentity (record : HostRecord) (request : CreateHostRequest) :
    RepositoryM (Option Uuid) :=
  match request.identityId, request.password, record.identityId with
  | some identityId, _, _ => do
    let _ ← (getIdentity x identityId).mapError fun _ => .identityNotFound identityId.asBytes.1
    pure (some identityId)
  | none, some password, some identityId => do
    let version ← nextVersion identityId
    putIdentity x identityId version (!request.syncSecret) false
      (.password identityId (request.label ++ " password") password request.syncSecret)
    pure (some identityId)
  | none, some password, none => do
    let identityId ← lift (draw World.uuidAt)
    putIdentity x identityId 1 (!request.syncSecret) false
      (.password identityId (request.label ++ " password") password request.syncSecret)
    pure (some identityId)
  | none, none, some identityId => do
    match ← (getIdentity x identityId).attempt with
    | .ok (.password id label password slot, row) =>
      if slot = request.syncSecret then pure (some identityId)
      else do
        putIdentity x identityId (row.version + 1) (!request.syncSecret) false
          (.password id label password request.syncSecret)
        pure (some identityId)
    | _ => pure (some identityId)
  | none, none, none => pure none

def updateHost (id : Uuid) (request : CreateHostRequest) : RepositoryM HostSummary := do
  let (record, row) ← getHostRecord x id
  checkHost row
  let color ← lift (ofExcept (validateHostColor request.color))
  let identityId ← updateHostIdentity x record request
  let updated : HostRecord :=
    { record with
      label := request.label
      hostname := request.hostname
      port := request.port
      username := request.username
      color := color
      shellIntegration := request.shellIntegration
      tunnels := request.tunnels
      forwardAgent := request.forwardAgent
      useDefaultKeys := request.useDefaultKeys
      identityId := identityId }
  putHostRecord x id (row.version + 1) false updated
  summarizeHost x updated

def cleanTags (tags : List String) : List String :=
  dedup ((tags.map trim).filter fun tag => !tag.isEmpty)

def setHostTags (id : Uuid) (tags : List String) : RepositoryM HostSummary := do
  let (record, row) ← getHostRecord x id
  checkHost row
  let tagged : HostRecord := { record with tags := cleanTags tags }
  putHostRecord x id (row.version + 1) false tagged
  summarizeHost x tagged

/-- A host's identity goes with the last host that uses it. -/
def deleteHostIdentity (id : Uuid) : Option Uuid → RepositoryM Unit
  | none => pure ()
  | some identityId => do
    let dependents ← hostsUsingIdentity x identityId
    if dependents.map Prod.fst = [id] then
      match ← (getIdentity x identityId).attempt with
      | .ok (identity, row) =>
        putIdentity x identityId (row.version + 1) (!identity.syncSecret) true identity
      | .error _ => pure ()
    else pure ()

def deleteHost (id : Uuid) : RepositoryM Unit := do
  let (record, row) ← getHostRecord x id
  deleteHostIdentity x id record.identityId
  putHostRecord x id (row.version + 1) true record

def touchHostConnected (id : Uuid) : RepositoryM HostSummary := do
  let (record, row) ← getHostRecord x id
  checkHost row
  let now ← lift (read fun v => v.world.utcNow)
  let touched : HostRecord := { record with lastConnectedAt := some now }
  putHostRecord x id (row.version + 1) false touched
  summarizeHost x touched

def hostNotFound (id : Uuid) : Error → Error
  | .other _ => .hostNotFound id.asBytes.1
  | other => other

def setKnownHostKey (id : Uuid) (key : KnownHostKey) : RepositoryM Unit := do
  let (record, row) ← (getHostRecord x id).mapError (hostNotFound id)
  putHostRecord x id (row.version + 1) false { record with knownHostKey := some key }

/-! ## Import of an SSH configuration -/

/-- Records and rows under the labels of the records. -/
def labelledHosts (key : VaultKey) :
    List ItemRow → Except Error (List (String × HostRecord × ItemRow))
  | [] => .ok []
  | row :: rows => do
    let plaintext ← decryptItem x.aead key row.id row.version row.blob
    let record ← x.decode x.texts.host plaintext
    let rest ← labelledHosts key rows
    pure ((record.label, record, row) :: rest)

/-- Fresh identifiers for the labels without one. -/
def assignIds : List String → List (String × Uuid) → RepositoryM (List (String × Uuid))
  | [], ids => pure ids
  | label :: labels, ids =>
    match ids.lookup label with
    | some _ => assignIds labels ids
    | none => do
      let id ← lift (draw World.uuidAt)
      assignIds labels (ids ++ [(label, id)])

def importedHost (ids : List (String × Uuid)) (existing : Option (HostRecord × ItemRow))
    (hostId : Uuid) (imported : SshConfigHost) : Host :=
  let host := match existing with
    | some (record, _) => record
    | none => Host.new hostId imported.hostAlias imported.hostname imported.username
  { host with
    id := hostId
    label := imported.hostAlias
    hostname := imported.hostname
    port := imported.port
    username := imported.username
    jumpHostId := (imported.proxyJump.bind proxyJumpAlias).bind fun jump => ids.lookup jump }

/-- The rows of an import with the hosts they hold. -/
def importRows (key : VaultKey) (parsed : List SshConfigHost)
    (existing : List (String × HostRecord × ItemRow)) (ids : List (String × Uuid)) :
    List String → RepositoryM (List (ItemRow × Host))
  | [] => pure []
  | label :: labels => do
    match byAlias parsed label, ids.lookup label with
    | none, _ => fail (unknownAlias label)
    | some _, none => fail (.other "SSH import ID mapping is incomplete")
    | some imported, some hostId => do
      let found := existing.lookup label
      let host := importedHost ids found hostId imported
      let version := match found with
        | some (_, row) => row.version + 1
        | none => 1
      let plaintext ← lift (ofExcept (x.encode x.texts.host host))
      let nonce ← lift (draw World.nonceAt)
      let blob ← lift (ofExcept (encryptItem x.aead key nonce host.id version plaintext))
      let updatedAt ← lift (read fun v => v.world.utcNow)
      let rest ← importRows key parsed existing ids labels
      pure ((⟨host.id, .host, version, updatedAt, false, false, blob⟩, host) :: rest)

def importSshConfig (contents : String) (selected : List String) :
    RepositoryM (List HostSummary) := do
  let parsed ← lift (ofExcept (x.parseSshConfig contents))
  let order ← lift (ofExcept (importOrder parsed selected))
  let key ← lift requireKey
  let rows ← lift (withDb fun db => .ok (db.listItems .host false))
  let existing ← lift (ofExcept (labelledHosts x key rows))
  let ids ← assignIds order (existing.map fun entry => (entry.1, entry.2.1.id))
  let imported ← importRows x key parsed existing ids order
  lift (withDbMut fun db => db.upsertItemsTransaction (imported.map Prod.fst))
  pure (imported.map fun entry => HostSummary.from entry.2)

/-! ## API keys -/

def createApiKey (request : CreateApiKeyRequest) : RepositoryM ApiKeySummary := do
  lift (ofExcept (validateApiKeyRequest request (request.provider ≠ .openAiCompat)))
  let apiKey := request.apiKey.getD ""
  let id ← lift (draw World.uuidAt)
  putApiKeyRecord x id 1 (!request.syncSecret) false
    ⟨id, request.label, request.provider, request.baseUrl, request.model, apiKey,
      request.syncSecret⟩
  pure ⟨id, request.label, request.provider, request.baseUrl, request.model, request.syncSecret,
    !isBlank apiKey⟩

def updateApiKey (id : Uuid) (request : CreateApiKeyRequest) : RepositoryM ApiKeySummary := do
  lift (ofExcept (validateApiKeyRequest request false))
  let (record, row) ← getApiKeyRecord x id
  checkApiKey row
  let updated : ApiKeyRecord :=
    { record with
      label := request.label
      provider := request.provider
      baseUrl := request.baseUrl
      model := request.model
      syncSecret := request.syncSecret
      apiKey := request.apiKey.getD record.apiKey }
  putApiKeyRecord x id (row.version + 1) (!request.syncSecret) false updated
  pure ⟨updated.id, updated.label, updated.provider, updated.baseUrl, updated.model,
    updated.syncSecret, !updated.apiKey.isEmpty⟩

def deleteApiKey (id : Uuid) : RepositoryM Unit := do
  let (record, row) ← getApiKeyRecord x id
  checkApiKey row
  putApiKeyRecord x id (row.version + 1) (!record.syncSecret) true record

/-! ## Identities -/

def identityToSummary (identity : IdentityRecord) : RepositoryM IdentitySummary := do
  let hosts ← hostsUsingIdentity x identity.id
  let usageCount := UInt32.ofNat hosts.length
  match identity with
  | .password id label _ syncSecret =>
    pure ⟨id, label, "password", none, usageCount, none, syncSecret⟩
  | .sshKey id label privateKey passphrase createdAt syncSecret =>
    pure ⟨id, label, "sshKey", (fingerprintForKeyText x privateKey passphrase).toOption,
      usageCount, some createdAt, syncSecret⟩

@[irreducible] def requireLabel (label : String) : RepositoryM String :=
  if isBlank label then fail (.invalidArgument "identity label is required")
  else pure (trim label)

def importSshKeyIdentity (label : String) (keyBytes : Bytes) (passphrase : Option String)
    (rememberPassphrase syncSecret : Bool) : RepositoryM IdentitySummary := do
  let label ← requireLabel label
  let _ ← lift (ofExcept (parsePrivateKeyBytes x keyBytes passphrase))
  match fromUtf8 keyBytes with
  | none => fail (.invalidKey "private key is not UTF-8 text")
  | some text => do
    let identityId ← lift (draw World.uuidAt)
    let createdAt ← lift (read fun v => v.world.utcNow)
    let identity := IdentityRecord.sshKey identityId label text
      (if rememberPassphrase then passphrase else none) createdAt syncSecret
    putIdentity x identityId 1 (!syncSecret) false identity
    identityToSummary x identity

def renameIdentity (id : Uuid) (label : String) : RepositoryM IdentitySummary := do
  let label ← requireLabel label
  let (identity, row) ← getIdentity x id
  checkIdentity row
  let renamed := identity.setLabel label
  putIdentity x id (row.version + 1) (!renamed.syncSecret) false renamed
  identityToSummary x renamed

def setIdentitySyncSecret (id : Uuid) (syncSecret : Bool) : RepositoryM IdentitySummary := do
  let (identity, row) ← getIdentity x id
  checkIdentity row
  let toggled := identity.setSyncSecret syncSecret
  putIdentity x id (row.version + 1) (!syncSecret) false toggled
  identityToSummary x toggled

def detachHosts : List (Uuid × String) → RepositoryM Unit
  | [] => pure ()
  | (hostId, _) :: hosts => do
    let (host, row) ← getHostRecord x hostId
    putHostRecord x hostId (row.version + 1) false { host with identityId := none }
    detachHosts hosts

def deleteIdentity (id : Uuid) (force : Bool) : RepositoryM IdentityDeleteResult := do
  let (identity, row) ← getIdentity x id
  checkIdentity row
  let dependentHosts ← hostsUsingIdentity x id
  if !dependentHosts.isEmpty && !force then pure ⟨false, dependentHosts⟩
  else do
    detachHosts x dependentHosts
    putIdentity x id (row.version + 1) (!identity.syncSecret) true identity
    pure ⟨true, dependentHosts⟩

end Operations

/-! ## The operations on hosts, identities and API keys -/

inductive Operation where
  | createHost (request : CreateHostRequest)
  | updateHost (id : Uuid) (request : CreateHostRequest)
  | deleteHost (id : Uuid)
  | importSshKeyIdentity (label : String) (keyBytes : Bytes) (passphrase : Option String)
      (rememberPassphrase syncSecret : Bool)
  | renameIdentity (id : Uuid) (label : String)
  | setIdentitySyncSecret (id : Uuid) (syncSecret : Bool)
  | deleteIdentity (id : Uuid) (force : Bool)
  | createApiKey (request : CreateApiKeyRequest)
  | updateApiKey (id : Uuid) (request : CreateApiKeyRequest)
  | deleteApiKey (id : Uuid)
  | importSshConfig (contents : String) (selected : List String)
  | setHostTags (id : Uuid) (tags : List String)
  | touchHostConnected (id : Uuid)
  | setKnownHostKey (id : Uuid) (key : KnownHostKey)

/-- The operation without what it returns. -/
def Operation.program (x : Externals) : Operation → RepositoryM Unit
  | .createHost request => do let _ ← VaultRepository.createHost x request
  | .updateHost id request => do let _ ← VaultRepository.updateHost x id request
  | .deleteHost id => VaultRepository.deleteHost x id
  | .importSshKeyIdentity label keyBytes passphrase rememberPassphrase syncSecret => do
    let _ ← VaultRepository.importSshKeyIdentity x label keyBytes passphrase rememberPassphrase
      syncSecret
  | .renameIdentity id label => do let _ ← VaultRepository.renameIdentity x id label
  | .setIdentitySyncSecret id syncSecret => do
    let _ ← VaultRepository.setIdentitySyncSecret x id syncSecret
  | .deleteIdentity id force => do let _ ← VaultRepository.deleteIdentity x id force
  | .createApiKey request => do let _ ← VaultRepository.createApiKey x request
  | .updateApiKey id request => do let _ ← VaultRepository.updateApiKey x id request
  | .deleteApiKey id => VaultRepository.deleteApiKey x id
  | .importSshConfig contents selected => do
    let _ ← VaultRepository.importSshConfig x contents selected
  | .setHostTags id tags => do let _ ← VaultRepository.setHostTags x id tags
  | .touchHostConnected id => do let _ ← VaultRepository.touchHostConnected x id
  | .setKnownHostKey id key => VaultRepository.setKnownHostKey x id key

end Tethra.VaultRepository
