import Tethra.JsonValues
import Tethra.VaultTypes

set_option autoImplicit false

/-!
# The plaintext payloads of vault items

Field names and defaults are those of the serialised records. An identity is read by hand:
by its `kind`, or as an untagged record of either sort.
-/
namespace Tethra.VaultRecords
open JsonValues VaultTypes

inductive ShellIntegration where
  | auto
  | disabled
  deriving DecidableEq, Repr

inductive TunnelDirection where
  | local
  | remote
  deriving DecidableEq, Repr

structure TunnelDefinition where
  id : Uuid
  label : String
  direction : TunnelDirection
  bindPort : UInt16
  targetHost : String
  targetPort : UInt16
  autoStart : Bool
  allowLan : Bool
  deriving DecidableEq

structure KnownHostKey where
  algorithm : String
  fingerprintSha256 : String
  openssh : String
  deriving DecidableEq

structure HostRecord where
  id : Uuid
  label : String
  hostname : String
  port : UInt16
  username : String
  identityId : Option Uuid
  jumpHostId : Option Uuid
  folderId : Option Uuid
  knownHostKey : Option KnownHostKey
  tags : List String
  color : Option String
  shellIntegration : ShellIntegration
  tunnels : List TunnelDefinition
  forwardAgent : Bool
  useDefaultKeys : Bool
  lastConnectedAt : Option DateTime
  deriving DecidableEq

/-- Field for field the record. -/
abbrev Host := HostRecord

def Host.new (id : Uuid) (label hostname username : String) : Host where
  id := id
  label := label
  hostname := hostname
  port := 22
  username := username
  identityId := none
  jumpHostId := none
  folderId := none
  knownHostKey := none
  tags := []
  color := none
  shellIntegration := .auto
  tunnels := []
  forwardAgent := false
  useDefaultKeys := false
  lastConnectedAt := none

inductive IdentityRecord where
  | password (id : Uuid) (label password : String) (syncSecret : Bool)
  | sshKey (id : Uuid) (label privateKey : String) (passphrase : Option String)
      (createdAt : DateTime) (syncSecret : Bool)
  deriving DecidableEq

namespace IdentityRecord

def id : IdentityRecord → Uuid
  | .password id _ _ _ => id
  | .sshKey id _ _ _ _ _ => id

def label : IdentityRecord → String
  | .password _ label _ _ => label
  | .sshKey _ label _ _ _ _ => label

def setLabel (label : String) : IdentityRecord → IdentityRecord
  | .password id _ secret sync => .password id label secret sync
  | .sshKey id _ privateKey passphrase createdAt sync =>
    .sshKey id label privateKey passphrase createdAt sync

def syncSecret : IdentityRecord → Bool
  | .password _ _ _ syncSecret => syncSecret
  | .sshKey _ _ _ _ _ syncSecret => syncSecret

def setSyncSecret (value : Bool) : IdentityRecord → IdentityRecord
  | .password id label secret _ => .password id label secret value
  | .sshKey id label privateKey passphrase createdAt _ =>
    .sshKey id label privateKey passphrase createdAt value

@[simp] theorem syncSecret_setSyncSecret (value : Bool) (r : IdentityRecord) :
    (r.setSyncSecret value).syncSecret = value := by
  cases r <;> rfl

@[simp] theorem syncSecret_setLabel (label : String) (r : IdentityRecord) :
    (r.setLabel label).syncSecret = r.syncSecret := by
  cases r <;> rfl

end IdentityRecord

inductive AssistProviderKind where
  | anthropic
  | openAi
  | openAiCompat
  deriving DecidableEq, Repr

structure ApiKeyRecord where
  id : Uuid
  label : String
  provider : AssistProviderKind
  baseUrl : Option String
  model : Option String
  apiKey : String
  syncSecret : Bool
  deriving DecidableEq

def unknownVariant {α : Type} (other : String) : Except String α :=
  .error ("unknown variant " ++ other)

def shellIntegration : Format ShellIntegration :=
  .variant (fun | .auto => "auto" | .disabled => "disabled")
    (fun | "auto" => .ok .auto | "disabled" => .ok .disabled | other => unknownVariant other)
    fun a => by cases a <;> rfl

def tunnelDirection : Format TunnelDirection :=
  .variant (fun | .local => "local" | .remote => "remote")
    (fun | "local" => .ok .local | "remote" => .ok .remote | other => unknownVariant other)
    fun a => by cases a <;> rfl

/-- `openAi` and `openAiCompat` are read as well. -/
def assistProvider : Format AssistProviderKind :=
  .variant (fun
      | .anthropic => "anthropic"
      | .openAi => "openai"
      | .openAiCompat => "openaiCompat")
    (fun
      | "anthropic" => .ok .anthropic
      | "openai" => .ok .openAi
      | "openAi" => .ok .openAi
      | "openaiCompat" => .ok .openAiCompat
      | "openAiCompat" => .ok .openAiCompat
      | other => unknownVariant other)
    fun a => by cases a <;> rfl

def knownHostKey : Format KnownHostKey where
  write k := .object [("algorithm", .string k.algorithm),
    ("fingerprint_sha256", .string k.fingerprintSha256), ("openssh", .string k.openssh)]
  read v := do
    let algorithm ← field .string "algorithm" v
    let fingerprintSha256 ← field .string "fingerprint_sha256" v
    let openssh ← field .string "openssh" v
    pure ⟨algorithm, fingerprintSha256, openssh⟩
  read_write _ := rfl
  write_ne_null _ h := by cases h

/-- How the identifiers and times of records are written. -/
structure RecordTexts where
  uuid : Text Uuid
  time : Text DateTime

namespace RecordTexts
variable (texts : RecordTexts)

def uuidFormat : Format Uuid := .text texts.uuid

def timeFormat : Format DateTime := .text texts.time

def writeTunnel (t : TunnelDefinition) : Json :=
  .object [("id", texts.uuidFormat.write t.id), ("label", .string t.label),
    ("direction", tunnelDirection.write t.direction), ("bindPort", Format.uint16.write t.bindPort),
    ("targetHost", .string t.targetHost), ("targetPort", Format.uint16.write t.targetPort),
    ("autoStart", .bool t.autoStart), ("allowLan", .bool t.allowLan)]

def readTunnel (v : Json) : Except String TunnelDefinition := do
  let id ← field texts.uuidFormat "id" v
  let label ← field .string "label" v
  let direction ← fieldOr tunnelDirection .local "direction" v
  let bindPort ← field .uint16 "bindPort" v
  let targetHost ← fieldOr .string "localhost" "targetHost" v
  let targetPort ← field .uint16 "targetPort" v
  let autoStart ← fieldOr .bool false "autoStart" v
  let allowLan ← fieldOr .bool false "allowLan" v
  pure ⟨id, label, direction, bindPort, targetHost, targetPort, autoStart, allowLan⟩

theorem readTunnel_writeTunnel (t : TunnelDefinition) :
    texts.readTunnel (texts.writeTunnel t) = .ok t := by
  have hid : field texts.uuidFormat "id" (texts.writeTunnel t) = .ok t.id := field_written rfl
  have hdirection : fieldOr tunnelDirection .local "direction" (texts.writeTunnel t) =
      .ok t.direction := fieldOr_written rfl
  have hbind : field .uint16 "bindPort" (texts.writeTunnel t) = .ok t.bindPort :=
    field_written rfl
  have htarget : field .uint16 "targetPort" (texts.writeTunnel t) = .ok t.targetPort :=
    field_written rfl
  rw [readTunnel, hid, hdirection, hbind, htarget]
  rfl

def tunnel : Format TunnelDefinition where
  write := texts.writeTunnel
  read := texts.readTunnel
  read_write := texts.readTunnel_writeTunnel
  write_ne_null _ h := by cases h

def writeHost (r : HostRecord) : Json :=
  .object [("id", texts.uuidFormat.write r.id), ("label", .string r.label),
    ("hostname", .string r.hostname), ("port", Format.uint16.write r.port),
    ("username", .string r.username), ("identity_id", writeOption texts.uuidFormat r.identityId),
    ("jump_host_id", writeOption texts.uuidFormat r.jumpHostId),
    ("folder_id", writeOption texts.uuidFormat r.folderId),
    ("known_host_key", writeOption knownHostKey r.knownHostKey),
    ("tags", (Format.list .string).write r.tags), ("color", writeOption .string r.color),
    ("shell_integration", shellIntegration.write r.shellIntegration),
    ("tunnels", (Format.list texts.tunnel).write r.tunnels),
    ("forward_agent", .bool r.forwardAgent), ("use_default_keys", .bool r.useDefaultKeys),
    ("last_connected_at", writeOption texts.timeFormat r.lastConnectedAt)]

def readHost (v : Json) : Except String HostRecord := do
  let id ← field texts.uuidFormat "id" v
  let label ← field .string "label" v
  let hostname ← field .string "hostname" v
  let port ← field .uint16 "port" v
  let username ← field .string "username" v
  let identityId ← optionField texts.uuidFormat "identity_id" v
  let jumpHostId ← optionField texts.uuidFormat "jump_host_id" v
  let folderId ← optionField texts.uuidFormat "folder_id" v
  let hostKey ← optionField knownHostKey "known_host_key" v
  let tags ← field (.list .string) "tags" v
  let color ← optionField .string "color" v
  let integration ← fieldOr shellIntegration .auto "shell_integration" v
  let tunnels ← fieldOr (.list texts.tunnel) [] "tunnels" v
  let forwardAgent ← fieldOr .bool false "forward_agent" v
  let useDefaultKeys ← fieldOr .bool false "use_default_keys" v
  let lastConnectedAt ← optionField texts.timeFormat "last_connected_at" v
  pure ⟨id, label, hostname, port, username, identityId, jumpHostId, folderId, hostKey, tags,
    color, integration, tunnels, forwardAgent, useDefaultKeys, lastConnectedAt⟩

theorem readHost_writeHost (r : HostRecord) : texts.readHost (texts.writeHost r) = .ok r := by
  have hid : field texts.uuidFormat "id" (texts.writeHost r) = .ok r.id := field_written rfl
  have hport : field .uint16 "port" (texts.writeHost r) = .ok r.port := field_written rfl
  have hidentity : optionField texts.uuidFormat "identity_id" (texts.writeHost r) =
      .ok r.identityId := optionField_written rfl
  have hjump : optionField texts.uuidFormat "jump_host_id" (texts.writeHost r) =
      .ok r.jumpHostId := optionField_written rfl
  have hfolder : optionField texts.uuidFormat "folder_id" (texts.writeHost r) =
      .ok r.folderId := optionField_written rfl
  have hkey : optionField knownHostKey "known_host_key" (texts.writeHost r) =
      .ok r.knownHostKey := optionField_written rfl
  have htags : field (.list .string) "tags" (texts.writeHost r) = .ok r.tags := field_written rfl
  have hcolor : optionField .string "color" (texts.writeHost r) = .ok r.color :=
    optionField_written rfl
  have hintegration : fieldOr shellIntegration .auto "shell_integration" (texts.writeHost r) =
      .ok r.shellIntegration := fieldOr_written rfl
  have htunnels : fieldOr (.list texts.tunnel) [] "tunnels" (texts.writeHost r) =
      .ok r.tunnels := fieldOr_written rfl
  have hlast : optionField texts.timeFormat "last_connected_at" (texts.writeHost r) =
      .ok r.lastConnectedAt := optionField_written rfl
  rw [readHost, hid, hport, hidentity, hjump, hfolder, hkey, htags, hcolor, hintegration,
    htunnels, hlast]
  rfl

def host : Format HostRecord where
  write := texts.writeHost
  read := texts.readHost
  read_write := texts.readHost_writeHost
  write_ne_null _ h := by cases h

def writeApiKey (r : ApiKeyRecord) : Json :=
  .object [("id", texts.uuidFormat.write r.id), ("label", .string r.label),
    ("provider", assistProvider.write r.provider), ("base_url", writeOption .string r.baseUrl),
    ("model", writeOption .string r.model), ("api_key", .string r.apiKey),
    ("sync_secret", .bool r.syncSecret)]

def readApiKey (v : Json) : Except String ApiKeyRecord := do
  let id ← field texts.uuidFormat "id" v
  let label ← field .string "label" v
  let provider ← field assistProvider "provider" v
  let baseUrl ← optionField .string "base_url" v
  let model ← optionField .string "model" v
  let apiKey ← field .string "api_key" v
  let syncSecret ← fieldOr .bool false "sync_secret" v
  pure ⟨id, label, provider, baseUrl, model, apiKey, syncSecret⟩

theorem readApiKey_writeApiKey (r : ApiKeyRecord) :
    texts.readApiKey (texts.writeApiKey r) = .ok r := by
  have hid : field texts.uuidFormat "id" (texts.writeApiKey r) = .ok r.id := field_written rfl
  have hprovider : field assistProvider "provider" (texts.writeApiKey r) = .ok r.provider :=
    field_written rfl
  have hbase : optionField .string "base_url" (texts.writeApiKey r) = .ok r.baseUrl :=
    optionField_written rfl
  have hmodel : optionField .string "model" (texts.writeApiKey r) = .ok r.model :=
    optionField_written rfl
  rw [readApiKey, hid, hprovider, hbase, hmodel]
  rfl

def apiKey : Format ApiKeyRecord where
  write := texts.writeApiKey
  read := texts.readApiKey
  read_write := texts.readApiKey_writeApiKey
  write_ne_null _ h := by cases h

/-! ## Identities -/

/-- An absent passphrase has no entry. -/
def writePassphrase : Option String → List (String × Json)
  | some passphrase => [("passphrase", .string passphrase)]
  | none => []

def writeIdentity : IdentityRecord → Json
  | .password id label password syncSecret =>
    .object [("kind", .string "password"), ("id", texts.uuidFormat.write id),
      ("label", .string label), ("password", .string password), ("sync_secret", .bool syncSecret)]
  | .sshKey id label privateKey passphrase createdAt syncSecret =>
    .object ([("kind", .string "sshKey"), ("id", texts.uuidFormat.write id),
      ("label", .string label), ("private_key", .string privateKey)] ++
      writePassphrase passphrase ++
      [("created_at", texts.timeFormat.write createdAt), ("sync_secret", .bool syncSecret)])

/-- `string_field`: a value that is no string counts as missing. -/
def stringField (v : Json) (key : String) : Except String String :=
  match (v.get key).bind Json.asStr with
  | some s => .ok s
  | none => missingField key

/-- The snake-case entry or the camel-case one; off without either. -/
def readSyncSecret (v : Json) : Bool :=
  (((v.get "sync_secret").bind Json.asBool).or ((v.get "syncSecret").bind Json.asBool)).getD false

/-- `PasswordIdentityRecord`. -/
def readPasswordIdentity (v : Json) : Except String IdentityRecord := do
  let id ← field texts.uuidFormat "id" v
  let label ← field .string "label" v
  let password ← field .string "password" v
  let syncSecret ← fieldOr .bool false "sync_secret" v
  pure (.password id label password syncSecret)

/-- `SshKeyIdentityRecord`. -/
def readSshKeyIdentity (v : Json) : Except String IdentityRecord := do
  let id ← field texts.uuidFormat "id" v
  let label ← field .string "label" v
  let privateKey ← field .string "private_key" v
  let passphrase ← optionField .string "passphrase" v
  let createdAt ← field texts.timeFormat "created_at" v
  let syncSecret ← fieldOr .bool false "sync_secret" v
  pure (.sshKey id label privateKey passphrase createdAt syncSecret)

def readTaggedPassword (v : Json) : Except String IdentityRecord := do
  let id ← field texts.uuidFormat "id" v
  let label ← stringField v "label"
  let password ← stringField v "password"
  pure (.password id label password (readSyncSecret v))

def readTaggedSshKey (v : Json) : Except String IdentityRecord := do
  let id ← field texts.uuidFormat "id" v
  let label ← stringField v "label"
  let privateKey ← match ((v.get "private_key").or (v.get "privateKey")).bind Json.asStr with
    | some s => .ok s
    | none => missingField "private_key"
  let createdAt ← match (v.get "created_at").or (v.get "createdAt") with
    | some x => texts.timeFormat.read x
    | none => missingField "created_at"
  pure (.sshKey id label privateKey ((v.get "passphrase").bind Json.asStr) createdAt
    (readSyncSecret v))

def readIdentity (v : Json) : Except String IdentityRecord :=
  match (v.get "kind").bind Json.asStr with
  | some "password" => texts.readTaggedPassword v
  | some "sshKey" => texts.readTaggedSshKey v
  | some "ssh_key" => texts.readTaggedSshKey v
  | some other => unknownVariant other
  | none =>
    if (v.get "private_key").isSome || (v.get "privateKey").isSome then texts.readSshKeyIdentity v
    else texts.readPasswordIdentity v

theorem readIdentity_writeIdentity (r : IdentityRecord) :
    texts.readIdentity (texts.writeIdentity r) = .ok r := by
  have hid : field texts.uuidFormat "id" (texts.writeIdentity r) = .ok r.id := by
    cases r <;> exact field_written rfl
  cases r with
  | password id label password syncSecret =>
    change texts.readTaggedPassword _ = _
    rw [readTaggedPassword, hid]
    rfl
  | sshKey id label privateKey passphrase createdAt syncSecret =>
    change texts.readTaggedSshKey _ = _
    rw [readTaggedSshKey, hid]
    have htime := texts.timeFormat.read_write createdAt
    cases passphrase with
    | none =>
      change (texts.timeFormat.read (texts.timeFormat.write createdAt)).bind _ = _
      rw [htime]
      rfl
    | some passphrase =>
      change (texts.timeFormat.read (texts.timeFormat.write createdAt)).bind _ = _
      rw [htime]
      rfl

def identity : Format IdentityRecord where
  write := texts.writeIdentity
  read := texts.readIdentity
  read_write := texts.readIdentity_writeIdentity
  write_ne_null r h := by cases r <;> cases h

/-! ## No payload is read as one of another kind -/

theorem readIdentity_writeHost (r : HostRecord) :
    ∃ e, texts.readIdentity (texts.writeHost r) = .error e := by
  have hid : field texts.uuidFormat "id" (texts.writeHost r) = .ok r.id := field_written rfl
  refine ⟨"missing field password", ?_⟩
  change texts.readPasswordIdentity _ = _
  rw [readPasswordIdentity, hid]
  rfl

theorem readIdentity_writeApiKey (r : ApiKeyRecord) :
    ∃ e, texts.readIdentity (texts.writeApiKey r) = .error e := by
  have hid : field texts.uuidFormat "id" (texts.writeApiKey r) = .ok r.id := field_written rfl
  refine ⟨"missing field password", ?_⟩
  change texts.readPasswordIdentity _ = _
  rw [readPasswordIdentity, hid]
  rfl

theorem readApiKey_writeHost (r : HostRecord) :
    ∃ e, texts.readApiKey (texts.writeHost r) = .error e := by
  have hid : field texts.uuidFormat "id" (texts.writeHost r) = .ok r.id := field_written rfl
  refine ⟨"missing field provider", ?_⟩
  rw [readApiKey, hid]
  rfl

theorem readApiKey_writeIdentity (r : IdentityRecord) :
    ∃ e, texts.readApiKey (texts.writeIdentity r) = .error e := by
  have hid : field texts.uuidFormat "id" (texts.writeIdentity r) = .ok r.id := by
    cases r <;> exact field_written rfl
  refine ⟨"missing field provider", ?_⟩
  rw [readApiKey, hid]
  cases r with
  | password id label password syncSecret => rfl
  | sshKey id label privateKey passphrase createdAt syncSecret => cases passphrase <;> rfl

end RecordTexts
end Tethra.VaultRecords
