import Tethra.RustText
import Tethra.VaultRecords

set_option autoImplicit false

/-!
# Requests to the vault repository

What other crates compute is in `Externals`: the cipher, the texts of JSON, identifiers and
times, key parsing and the resolution of an SSH configuration.
-/
namespace Tethra.RepositoryRequests
open AuthenticatedEncryption JsonValues RustText VaultRecords VaultTypes

structure PublicKey where
  algorithm : String
  fingerprintSha256 : String

/-- An alias resolved by `parse_ssh_config`. -/
structure SshConfigHost where
  hostAlias : String
  hostname : String
  port : UInt16
  username : String
  proxyJump : Option String

structure Externals where
  aead : Aead KeyBytes
  texts : RecordTexts
  toVec : Json → Except String Bytes
  fromSlice : Bytes → Except String Json
  /-- What was written is read back. -/
  fromSlice_toVec : ∀ v bytes, toVec v = .ok bytes → fromSlice bytes = .ok v
  decodeSecretKey : String → Option String → Except String PublicKey
  parseSshConfig : String → Except Error (List SshConfigHost)

def Externals.encode {α : Type} (x : Externals) (f : Format α) (value : α) : Except Error Bytes :=
  match x.toVec (f.write value) with
  | .ok bytes => .ok bytes
  | .error message => .error (.other message)

def Externals.decode {α : Type} (x : Externals) (f : Format α) (bytes : Bytes) : Except Error α :=
  match (x.fromSlice bytes).bind f.read with
  | .ok value => .ok value
  | .error message => .error (.other message)

theorem Externals.decode_eq_ok {α : Type} {x : Externals} {f : Format α} {bytes : Bytes}
    {value : α} : x.decode f bytes = .ok value ↔
      ∃ v, x.fromSlice bytes = .ok v ∧ f.read v = .ok value := by
  unfold decode
  cases hslice : x.fromSlice bytes with
  | error message => simp [Except.bind]
  | ok v => cases hread : f.read v <;> simp [Except.bind, hread]

structure CreateHostRequest where
  label : String
  hostname : String
  port : UInt16
  username : String
  password : Option String
  identityId : Option Uuid
  syncSecret : Bool
  color : Option String
  shellIntegration : ShellIntegration
  tunnels : List TunnelDefinition
  forwardAgent : Bool
  useDefaultKeys : Bool

structure HostSummary where
  id : Uuid
  label : String
  hostname : String
  port : UInt16
  username : String
  hasPassword : Bool
  identityId : Option Uuid
  authKind : String
  syncSecret : Bool
  color : Option String
  tags : List String
  shellIntegration : ShellIntegration
  tunnels : List TunnelDefinition
  forwardAgent : Bool
  useDefaultKeys : Bool
  lastConnectedAt : Option DateTime

/-- `HostSummary::from`, before the identity has been looked at. -/
def HostSummary.from (host : Host) : HostSummary where
  id := host.id
  label := host.label
  hostname := host.hostname
  port := host.port
  username := host.username
  hasPassword := host.identityId.isSome
  identityId := host.identityId
  authKind := if host.identityId.isSome then "password" else "none"
  syncSecret := false
  color := host.color
  tags := host.tags
  shellIntegration := host.shellIntegration
  tunnels := host.tunnels
  forwardAgent := host.forwardAgent
  useDefaultKeys := host.useDefaultKeys
  lastConnectedAt := host.lastConnectedAt

/-- Whether an identity is a password, how it authenticates, whether it syncs. -/
structure IdentityMeta where
  hasPassword : Bool
  authKind : String
  syncSecret : Bool

def IdentityMeta.absent : IdentityMeta := ⟨false, "none", false⟩

def IdentityMeta.of : IdentityRecord → IdentityMeta
  | .password _ _ _ syncSecret => ⟨true, "password", syncSecret⟩
  | .sshKey _ _ _ _ _ syncSecret => ⟨false, "sshKey", syncSecret⟩

def HostSummary.withMeta (summary : HostSummary) (identity : IdentityMeta) : HostSummary :=
  { summary with
    hasPassword := identity.hasPassword
    authKind := identity.authKind
    syncSecret := identity.syncSecret }

structure IdentitySummary where
  id : Uuid
  label : String
  kind : String
  fingerprint : Option String
  usageCount : UInt32
  createdAt : Option DateTime
  syncSecret : Bool

structure IdentityDeleteResult where
  deleted : Bool
  dependentHosts : List (Uuid × String)

structure CreateApiKeyRequest where
  label : String
  provider : AssistProviderKind
  baseUrl : Option String
  model : Option String
  apiKey : Option String
  syncSecret : Bool

structure ApiKeySummary where
  id : Uuid
  label : String
  provider : AssistProviderKind
  baseUrl : Option String
  model : Option String
  syncSecret : Bool
  hasKey : Bool

/-! ## Checks of requests -/

def validateHostColor : Option String → Except Error (Option String)
  | none => .ok none
  | some color =>
    match color.toList with
    | '#' :: digits =>
      if color.utf8ByteSize = 7 ∧ digits.all isAsciiHexdigit then
        .ok (some (toAsciiUppercase color))
      else .error (.invalidArgument "host color must be a #RRGGBB value")
    | _ => .error (.invalidArgument "host color must be a #RRGGBB value")

def isBlank (text : String) : Bool := (trim text).isEmpty

def validateApiKeyRequest (request : CreateApiKeyRequest) (keyRequired : Bool) :
    Except Error Unit :=
  if isBlank request.label then .error (.invalidArgument "api key label is required")
  else if keyRequired && request.apiKey.all isBlank then
    .error (.invalidArgument "api key is required")
  else if request.provider = .openAiCompat ∧ request.baseUrl.all isBlank then
    .error (.invalidArgument "base URL is required for OpenAI-compatible providers")
  else .ok ()

/-- The sort of key a text that could not be read looks like. -/
def keyHint (trimmed : String) : String :=
  if containsText trimmed "BEGIN OPENSSH PRIVATE KEY" then "OpenSSH private key"
  else if containsText trimmed "BEGIN RSA PRIVATE KEY" then "PEM RSA private key"
  else if containsText trimmed "BEGIN ENCRYPTED PRIVATE KEY" then "encrypted PKCS#8 private key"
  else if containsText trimmed "BEGIN PRIVATE KEY" then "PKCS#8 private key"
  else if containsText trimmed "BEGIN EC PRIVATE KEY" then "PEM EC private key"
  else if containsText trimmed "PuTTY-User-Key-File" then "PuTTY PPK private key"
  else "unrecognized private key format"

def needsPassphrase (trimmed message : String) : Bool :=
  let lower := toAsciiLowercase message
  containsText trimmed "ENCRYPTED" || containsText lower "password" ||
    containsText lower "passphrase" || containsText lower "encrypted"

/-- `str::from_utf8`. -/
def fromUtf8 (bytes : Bytes) : Option String := String.fromUTF8? ⟨bytes.toArray⟩

section Keys
variable (x : Externals)

def parsePrivateKeyText (text : String) (passphrase : Option String) : Except Error PublicKey :=
  if isBlank text then .error (.invalidKey "private key file is empty")
  else
    match x.decodeSecretKey (trim text) passphrase with
    | .ok key => .ok key
    | .error message =>
      if passphrase.isNone && needsPassphrase (trim text) message then
        .error (.invalidKey "private key is encrypted; passphrase required")
      else .error (.invalidKey ("could not read " ++ keyHint (trim text) ++ ": " ++ message))

def parsePrivateKeyBytes (keyBytes : Bytes) (passphrase : Option String) :
    Except Error PublicKey :=
  match fromUtf8 keyBytes with
  | none => .error (.invalidKey "private key is not UTF-8 text (expected OpenSSH or PEM)")
  | some text => parsePrivateKeyText x text passphrase

def fingerprintForKeyText (privateKey : String) (passphrase : Option String) :
    Except Error String := do
  let key ← parsePrivateKeyText x privateKey passphrase
  pure (key.algorithm ++ " " ++ key.fingerprintSha256)

end Keys

/-! ## The order of an import -/

def proxyJumpAlias (value : String) : Option String :=
  let first := trim (beforeFirst ',' value)
  if first.isEmpty || eqIgnoreAsciiCase first "none" then none
  else
    let withoutUser := afterLast '@' first
    match withoutUser.toList with
    | '[' :: rest => some (beforeFirst ']' (String.ofList rest))
    | _ => some (beforeFirst ':' withoutUser)

def unknownAlias (hostAlias : String) : Error :=
  .invalidArgument ("unknown SSH host alias: " ++ hostAlias)

/-- The entry of an alias in the map of parsed hosts. -/
def byAlias (parsed : List SshConfigHost) (hostAlias : String) : Option SshConfigHost :=
  parsed.reverse.find? fun host => host.hostAlias = hostAlias

def jumpOf (parsed : List SshConfigHost) (host : SshConfigHost) : List String :=
  match host.proxyJump.bind proxyJumpAlias with
  | some jump => if (byAlias parsed jump).isSome then [jump] else []
  | none => []

/-- Hosts that are still to be seen. -/
def unseen (parsed : List SshConfigHost) (seen : List String) : List SshConfigHost :=
  parsed.filter fun host => host.hostAlias ∉ seen

theorem unseen_cons_lt {parsed : List SshConfigHost} {seen : List String} {hostAlias : String}
    {host : SshConfigHost} (hhost : byAlias parsed hostAlias = some host) (hnew : hostAlias ∉ seen) :
    (unseen parsed (hostAlias :: seen)).length < (unseen parsed seen).length := by
  have hmem : host ∈ parsed := by
    have hrev := List.mem_of_find?_eq_some hhost
    simpa using hrev
  have halias : host.hostAlias = hostAlias := by simpa using List.find?_some hhost
  have hsub : unseen parsed (hostAlias :: seen) =
      (unseen parsed seen).filter fun host => host.hostAlias ≠ hostAlias := by
    rw [unseen, unseen, List.filter_filter]
    refine List.filter_congr fun other _ => ?_
    simp
  have hin : host ∈ unseen parsed seen := by
    simp [unseen, hmem, halias, hnew]
  rw [hsub]
  exact List.length_filter_lt_length_iff_exists.2 ⟨host, hin, by simp [halias]⟩

/-- Breadth first from the selected aliases along their jump hosts. -/
def importLoop (parsed : List SshConfigHost) :
    List String → List String → List String → Except Error (List String)
  | [], _, order => .ok order
  | hostAlias :: queue, seen, order =>
    match _h : byAlias parsed hostAlias with
    | none => .error (unknownAlias hostAlias)
    | some host =>
      if _hseen : hostAlias ∈ seen then importLoop parsed queue seen order
      else importLoop parsed (queue ++ jumpOf parsed host) (hostAlias :: seen) (order ++ [hostAlias])
  termination_by queue seen => ((unseen parsed seen).length, queue.length)
  decreasing_by
    · exact Prod.Lex.right _ (Nat.lt_succ_self _)
    · exact Prod.Lex.left _ _ (unseen_cons_lt ‹_› ‹_›)

def importOrder (parsed : List SshConfigHost) (selected : List String) :
    Except Error (List String) := importLoop parsed selected [] []

end Tethra.RepositoryRequests
