import Tethra.StatefulActions
import Tethra.VaultRecords

set_option autoImplicit false

/-!
# Sessions and the pool they come from

The manager asks a host store and an auth provider for what a connection needs and keeps
idle connections by host. What the network, the server and the user answer is given with
each step.
-/
namespace Tethra.HostSessions
open StatefulActions VaultRecords VaultTypes
open StatefulActions.Action (fail read update ofExcept focus)
open AuthenticatedEncryption (Bytes)

inductive AuthMaterial where
  | password (password : String)
  | privateKey (key : Bytes) (passphrase : Option String)
  | defaultKeys
  deriving DecidableEq

structure PresentedHostKey where
  algorithm : String
  fingerprintSha256 : String
  openssh : String
  deriving DecidableEq

def PresentedHostKey.toKnown (presented : PresentedHostKey) : KnownHostKey :=
  ⟨presented.algorithm, presented.fingerprintSha256, presented.openssh⟩

/-- What `check_server_key` compares. -/
def Presents (known : KnownHostKey) (presented : PresentedHostKey) : Prop :=
  known.algorithm = presented.algorithm ∧ known.fingerprintSha256 = presented.fingerprintSha256

instance (known : KnownHostKey) (presented : PresentedHostKey) :
    Decidable (Presents known presented) := inferInstanceAs (Decidable (_ ∧ _))

inductive HostKeyDecision where
  | acceptAndRemember
  | acceptOnce
  | reject
  deriving DecidableEq

structure LocalAgentEndpoint where
  path : String
  deriving DecidableEq

inductive AgentForwardStatus where
  | off
  | active
  | unavailable (hint : String)
  deriving DecidableEq

def UNAVAILABLE_HINT : String :=
  "agent forwarding unavailable — no local SSH agent (load keys with ssh-add)"

/-- An authenticated connection and what it was made with. -/
structure Connection where
  serial : ℕ
  hostname : String
  port : UInt16
  username : String
  auth : AuthMaterial
  presented : PresentedHostKey
  agent : Option LocalAgentEndpoint
  deriving DecidableEq

/-- A `HostStore` and an `AuthProvider` over one state, and what that state stores. -/
structure Stores (σ : Type) where
  get : Uuid → Action σ Error Host
  setKnownHostKey : Uuid → KnownHostKey → Action σ Error Unit
  credentialsFor : Host → Action σ Error AuthMaterial
  hostOf : σ → Uuid → Option Host
  authOf : σ → Host → Option AuthMaterial
  get_ok : ∀ id s host t, get id s = (.ok host, t) → hostOf s id = some host
  get_leaves : ∀ id s, hostOf (get id s).2 = hostOf s ∧ authOf (get id s).2 = authOf s
  credentialsFor_ok : ∀ host s auth t, credentialsFor host s = (.ok auth, t) →
    authOf s host = some auth
  credentialsFor_leaves : ∀ host s,
    hostOf (credentialsFor host s).2 = hostOf s ∧ authOf (credentialsFor host s).2 = authOf s
  setKnownHostKey_auth : ∀ id key s, authOf (setKnownHostKey id key s).2 = authOf s
  setKnownHostKey_hosts : ∀ id key s, hostOf (setKnownHostKey id key s).2 = hostOf s ∨
    ∃ host, hostOf s id = some host ∧ hostOf (setKnownHostKey id key s).2 =
      Function.update (hostOf s) id (some { host with knownHostKey := some key })
  /-- Credentials do not depend on the known key. -/
  authOf_known : ∀ s host key, authOf s { host with knownHostKey := key } = authOf s host

structure Manager (σ : Type) where
  store : σ
  /-- Idle connections of a host, the last one checked in first. -/
  pool : Uuid → List Connection
  /-- Connections with a PTY. -/
  live : List (Uuid × Connection)
  /-- What `LocalAgentEndpoint::detect` finds. -/
  agent : Option LocalAgentEndpoint
  connects : ℕ

structure ConnectOutcome where
  presented : Except Error PresentedHostKey
  decision : Except Error HostKeyDecision
  authenticated : Except Error Bool

structure OpenOutcome where
  approved : Except Error Unit
  closed : ℕ → Bool
  channel : Except Error Unit
  first : ConnectOutcome
  second : ConnectOutcome
  reopened : Except Error Unit
  finished : Except Error Unit

def POOL_MAX_PER_HOST : ℕ := 2

def hostKeyMismatch : Error := .other "host key mismatch: refused to connect"

def hostKeyRejected : Error := .other "host key rejected by policy"

def authenticationFailed : Error := .other "authentication failed"

/-- The key to remember, if any. -/
def checkServerKey (known : Option KnownHostKey) (presented : PresentedHostKey)
    (decision : Except Error HostKeyDecision) : Except Error (Option KnownHostKey) :=
  match known with
  | some known => if Presents known presented then .ok none else .error hostKeyMismatch
  | none =>
    match decision with
    | .ok .acceptAndRemember => .ok (some presented.toKnown)
    | .ok .acceptOnce => .ok none
    | .ok .reject => .error hostKeyRejected
    | .error e => .error e

def agentFor (forwardAgent : Bool) (detected : Option LocalAgentEndpoint) :
    Option LocalAgentEndpoint × AgentForwardStatus :=
  if forwardAgent then
    match detected with
    | some endpoint => (some endpoint, .active)
    | none => (none, .unavailable UNAVAILABLE_HINT)
  else (none, .off)

/-- Pop until a connection is open. -/
def popOpen (closed : ℕ → Bool) : List Connection → Option Connection × List Connection
  | [] => (none, [])
  | c :: rest => if closed c.serial then popOpen closed rest else (some c, rest)

section Sessions
variable {σ : Type} (stores : Stores σ)

abbrev SessionM (σ α : Type) := Action (Manager σ) Error α

def onStore {α : Type} (m : Action σ Error α) : SessionM σ α :=
  focus Manager.store (fun store s => { s with store := store }) m

def established (host : Host) (auth : AuthMaterial) (presented : PresentedHostKey)
    (agent : Option LocalAgentEndpoint) : SessionM σ Connection := fun s =>
  (.ok ⟨s.connects, host.hostname, host.port, host.username, auth, presented, agent⟩,
    { s with connects := s.connects + 1 })

def remember (id : Uuid) : Option KnownHostKey → SessionM σ Unit
  | some key => onStore (stores.setKnownHostKey id key)
  | none => pure ()

def connect (o : ConnectOutcome) (id : Uuid) (agent : Option LocalAgentEndpoint) :
    SessionM σ Connection := do
  let host ← onStore (stores.get id)
  let auth ← onStore (stores.credentialsFor host)
  let presented ← ofExcept o.presented
  let accepted ← ofExcept (checkServerKey host.knownHostKey presented o.decision)
  remember stores id accepted
  if ← ofExcept o.authenticated then established host auth presented agent
  else fail authenticationFailed

def takeOpen (closed : ℕ → Bool) (id : Uuid) : SessionM σ (Option Connection) := fun s =>
  let found := popOpen closed (s.pool id)
  (.ok found.1, { s with pool := Function.update s.pool id found.2 })

def checkout (o : OpenOutcome) (id : Uuid) (agent : Option LocalAgentEndpoint) :
    SessionM σ Connection := do
  match ← takeOpen o.closed id with
  | some session => pure session
  | none => connect stores o.first id agent

def finishPty (o : OpenOutcome) (id : Uuid) (session : Connection)
    (agentStatus : AgentForwardStatus) : SessionM σ (Connection × AgentForwardStatus) := do
  ofExcept o.finished
  update fun s => { s with live := (id, session) :: s.live }
  pure (session, agentStatus)

/-- The connection under the new PTY and the status reported with it. -/
def openPty (o : OpenOutcome) (id : Uuid) : SessionM σ (Connection × AgentForwardStatus) := do
  ofExcept o.approved
  let host ← onStore (stores.get id)
  let detected ← read Manager.agent
  let (endpoint, agentStatus) := agentFor host.forwardAgent detected
  let session ← checkout stores o id endpoint
  match o.channel with
  | .ok _ => finishPty o id session agentStatus
  | .error _ => do
    let session ← connect stores o.second id endpoint
    ofExcept o.reopened
    finishPty o id session agentStatus

def checkin (closed : ℕ → Bool) (id : Uuid) (session : Connection) (s : Manager σ) : Manager σ :=
  if closed session.serial then s
  else if POOL_MAX_PER_HOST ≤ (s.pool id).length then s
  else { s with pool := Function.update s.pool id (session :: s.pool id) }

def ptyEnded (closed : ℕ → Bool) (i : ℕ) (s : Manager σ) : Manager σ :=
  match s.live[i]? with
  | some (id, session) => checkin closed id session { s with live := s.live.eraseIdx i }
  | none => s

def drainPool (id : Option Uuid) (s : Manager σ) : Manager σ :=
  match id with
  | some id => { s with pool := Function.update s.pool id [] }
  | none => { s with pool := fun _ => [] }

end Sessions

/-! ## The store of the command-line client -/

/-- `InMemoryHostStore` with one `StaticAuthProvider`. -/
structure InMemoryStore where
  hosts : Uuid → Option Host
  auth : AuthMaterial

def hostNotFound (id : Uuid) : Error := .hostNotFound id.asBytes.1

def InMemoryStore.insert (host : Host) (s : InMemoryStore) : InMemoryStore :=
  { s with hosts := Function.update s.hosts host.id (some host) }

def inMemoryGet (id : Uuid) : Action InMemoryStore Error Host := fun s =>
  match s.hosts id with
  | some host => (.ok host, s)
  | none => (.error (hostNotFound id), s)

def inMemorySetKnownHostKey (id : Uuid) (key : KnownHostKey) : Action InMemoryStore Error Unit :=
  fun s =>
    match s.hosts id with
    | some host => (.ok (), { s with
        hosts := Function.update s.hosts id (some { host with knownHostKey := some key }) })
    | none => (.error (hostNotFound id), s)

def inMemoryStores : Stores InMemoryStore where
  get := inMemoryGet
  setKnownHostKey := inMemorySetKnownHostKey
  credentialsFor _ := fun s => (.ok s.auth, s)
  hostOf s := s.hosts
  authOf s _ := some s.auth
  get_ok id s host t h := by
    unfold inMemoryGet at h
    cases hs : s.hosts id with
    | none => rw [hs] at h; cases h
    | some host' => rw [hs] at h; cases h; rfl
  get_leaves id s := by
    unfold inMemoryGet
    cases s.hosts id <;> exact ⟨rfl, rfl⟩
  credentialsFor_ok host s auth t h := by
    cases h
    rfl
  credentialsFor_leaves _ _ := ⟨rfl, rfl⟩
  setKnownHostKey_auth id key s := by
    unfold inMemorySetKnownHostKey
    cases s.hosts id <;> rfl
  setKnownHostKey_hosts id key s := by
    unfold inMemorySetKnownHostKey
    cases hs : s.hosts id with
    | none => exact Or.inl rfl
    | some host => exact Or.inr ⟨host, rfl, rfl⟩
  authOf_known _ _ _ := rfl

end Tethra.HostSessions
