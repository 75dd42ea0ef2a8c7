import Tethra.HostSessions

set_option autoImplicit false

/-!
# What a pooled connection was made with

The pool is keyed by host id. A pooled connection fits its host as long as no edit changes
what the host's connections were made with.
-/
namespace Tethra.ConnectionPool
open HostSessions StatefulActions VaultRecords VaultTypes
open StatefulActions.Action (fail read update ofExcept focus bind_ok bind_error bind_eq_ok)

section Pool
variable {σ : Type} (stores : Stores σ)

/-- The connection was made with the host's parameters as they are stored. -/
structure MadeFor (st : σ) (host : Host) (c : Connection) : Prop where
  hostname : c.hostname = host.hostname
  port : c.port = host.port
  username : c.username = host.username
  auth : stores.authOf st host = some c.auth
  known : ∀ key, host.knownHostKey = some key → Presents key c.presented

/-- A fresh connect to the host would be made so. -/
structure Fits (st : σ) (agent : Option LocalAgentEndpoint) (host : Host) (c : Connection) :
    Prop where
  made : MadeFor stores st host c
  agent : c.agent = if host.forwardAgent then agent else none

/-- The connection fits what is stored under the id. -/
def FitsStored (st : σ) (agent : Option LocalAgentEndpoint) (id : Uuid) (c : Connection) : Prop :=
  ∃ host, stores.hostOf st id = some host ∧ Fits stores st agent host c

/-- The connection fits the host if it is stored at all. -/
def FitsIfStored (st : σ) (agent : Option LocalAgentEndpoint) (id : Uuid) (c : Connection) :
    Prop :=
  ∀ host, stores.hostOf st id = some host → Fits stores st agent host c

/-- The host's idle connections and those with a PTY. -/
def Connected (s : Manager σ) (id : Uuid) (c : Connection) : Prop :=
  c ∈ s.pool id ∨ (id, c) ∈ s.live

def Sound (s : Manager σ) : Prop :=
  ∀ id c, Connected s id c → FitsIfStored stores s.store s.agent id c

/-- A key the attempt would remember is the one the connection presented. -/
def Pins (st : σ) (id : Uuid) (o : ConnectOutcome) (c : Connection) : Prop :=
  ∀ host presented, stores.hostOf st id = some host → host.knownHostKey = none →
    o.presented = .ok presented → o.decision = .ok .acceptAndRemember →
    Presents presented.toKnown c.presented

inductive Step (σ : Type) where
  | openPty (id : Uuid) (o : OpenOutcome)
  | ptyEnded (i : ℕ) (closed : ℕ → Bool)
  | drainPool (id : Option Uuid)
  /-- `update_host`, set-identity, `delete_host`, `set_known_host_key` and the sync engine. -/
  | edit (f : σ → σ)
  | agent (endpoint : Option LocalAgentEndpoint)

def perform (s : Manager σ) : Step σ → Manager σ
  | .openPty id o => (openPty stores o id s).2
  | .ptyEnded i closed => ptyEnded closed i s
  | .drainPool id => drainPool id s
  | .edit f => { s with store := f s.store }
  | .agent endpoint => { s with agent := endpoint }

def run (s : Manager σ) (steps : List (Step σ)) : Manager σ := steps.foldl (perform stores) s

/-- The step changes nothing that an idle or open connection of the host was made with. -/
def Unhurt (s : Manager σ) : Step σ → Prop
  | .openPty id o => ∀ c, Connected s id c →
      Pins stores s.store id o.first c ∧ Pins stores s.store id o.second c
  | .ptyEnded _ _ => True
  | .drainPool _ => True
  | .edit f => ∀ id c, Connected s id c → FitsIfStored stores (f s.store) s.agent id c
  | .agent endpoint => ∀ id c host, Connected s id c → stores.hostOf s.store id = some host →
      host.forwardAgent = true → endpoint = s.agent

def Along : Manager σ → List (Step σ) → Prop
  | _, [] => True
  | s, step :: steps => Unhurt stores s step ∧ Along (perform stores s step) steps

def Started (s : Manager σ) : Prop := (∀ id, s.pool id = []) ∧ s.live = []

/-! ## A fresh connect -/

/-- What an attempt does to the store: it may remember a key the host did not have. -/
structure Learns (o : ConnectOutcome) (id : Uuid) (st st' : σ) : Prop where
  auth : stores.authOf st' = stores.authOf st
  hosts : stores.hostOf st' = stores.hostOf st ∨
    ∃ host presented, stores.hostOf st id = some host ∧ host.knownHostKey = none ∧
      o.presented = .ok presented ∧ o.decision = .ok .acceptAndRemember ∧
      stores.hostOf st' = Function.update (stores.hostOf st) id
        (some { host with knownHostKey := some presented.toKnown })

structure Tried (o : ConnectOutcome) (id : Uuid) (s t : Manager σ) : Prop where
  store : Learns stores o id s.store t.store
  pool : t.pool = s.pool
  live : t.live = s.live
  agent : t.agent = s.agent

variable {stores} {s t : Manager σ} {st st' : σ} {id : Uuid} {o : ConnectOutcome}

theorem Learns.of_views (hauth : stores.authOf st' = stores.authOf st)
    (hhosts : stores.hostOf st' = stores.hostOf st) : Learns stores o id st st' :=
  ⟨hauth, Or.inl hhosts⟩

theorem checkServerKey_cases {known : Option KnownHostKey} {presented : PresentedHostKey}
    {decision : Except Error HostKeyDecision} {accepted : Option KnownHostKey}
    (h : checkServerKey known presented decision = .ok accepted) :
    (∃ key, known = some key ∧ Presents key presented ∧ accepted = none) ∨
    (known = none ∧ decision = .ok .acceptAndRemember ∧ accepted = some presented.toKnown) ∨
    (known = none ∧ accepted = none) := by
  cases known with
  | some key =>
    change (if Presents key presented then _ else _) = _ at h
    by_cases hp : Presents key presented
    · rw [if_pos hp] at h
      cases h
      exact Or.inl ⟨key, rfl, hp, rfl⟩
    · rw [if_neg hp] at h
      cases h
  | none =>
    cases decision with
    | error e => cases h
    | ok d =>
      cases d with
      | acceptAndRemember =>
        cases h
        exact Or.inr (Or.inl ⟨rfl, rfl, rfl⟩)
      | acceptOnce =>
        cases h
        exact Or.inr (Or.inr ⟨rfl, rfl⟩)
      | reject => cases h

theorem onStore_run {α : Type} {m : Action σ Error α} {r : Except Error α}
    (h : m s.store = (r, st)) : onStore m s = (r, { s with store := st }) := by
  unfold onStore focus
  rw [h]

/-- Reading the host and its credentials shows what is stored and changes none of it. -/
theorem get_spec {r : Except Error Host} (h : stores.get id st = (r, st')) :
    stores.hostOf st' = stores.hostOf st ∧ stores.authOf st' = stores.authOf st ∧
    ∀ host, r = .ok host → stores.hostOf st id = some host := by
  have hleaves := stores.get_leaves id st
  rw [h] at hleaves
  refine ⟨hleaves.1, hleaves.2, ?_⟩
  intro host hr
  rw [hr] at h
  exact stores.get_ok id st host st' h

theorem credentialsFor_spec {host : Host} {r : Except Error AuthMaterial}
    (h : stores.credentialsFor host st = (r, st')) :
    stores.hostOf st' = stores.hostOf st ∧ stores.authOf st' = stores.authOf st ∧
    ∀ auth, r = .ok auth → stores.authOf st host = some auth := by
  have hleaves := stores.credentialsFor_leaves host st
  rw [h] at hleaves
  refine ⟨hleaves.1, hleaves.2, ?_⟩
  intro auth hr
  rw [hr] at h
  exact stores.credentialsFor_ok host st auth st' h

/-- After the check the store may know the key, and the connection was made for the host. -/
theorem remember_spec {host : Host} {auth : AuthMaterial} {presented : PresentedHostKey}
    {accepted : Option KnownHostKey} {r : Except Error Unit} (hhost : stores.hostOf s.store id =
    some host) (hauth : stores.authOf s.store host = some auth) (hpresented : o.presented =
    .ok presented) (hchecked : checkServerKey host.knownHostKey presented o.decision =
    .ok accepted) (h : remember stores id accepted s = (r, t)) :
    Tried stores o id s t ∧ ∀ agent serial, ∃ host', stores.hostOf t.store id = some host' ∧
      MadeFor stores t.store host' ⟨serial, host.hostname, host.port, host.username, auth,
        presented, agent⟩ := by
  obtain ⟨key, hkey, hp, rfl⟩ | ⟨hnone, hdecision, rfl⟩ | ⟨hnone, rfl⟩ :=
    checkServerKey_cases hchecked
  · cases h
    refine ⟨⟨.of_views rfl rfl, rfl, rfl, rfl⟩, fun agent serial => ⟨host, hhost, ?_⟩⟩
    refine ⟨rfl, rfl, rfl, hauth, ?_⟩
    intro key' hkey'
    rw [hkey] at hkey'
    cases hkey'
    exact hp
  · change onStore (stores.setKnownHostKey id presented.toKnown) s = _ at h
    rcases hset : stores.setKnownHostKey id presented.toKnown s.store with ⟨q, st'⟩
    rw [onStore_run hset] at h
    cases h
    have hsame := stores.setKnownHostKey_auth id presented.toKnown s.store
    have hhosts := stores.setKnownHostKey_hosts id presented.toKnown s.store
    rw [hset] at hsame hhosts
    dsimp only at hsame hhosts
    obtain hhosts | ⟨host', hhost', hhosts⟩ := hhosts
    · refine ⟨⟨.of_views hsame hhosts, rfl, rfl, rfl⟩, fun agent serial => ⟨host, ?_, ?_⟩⟩
      · change stores.hostOf st' id = _
        rw [hhosts, hhost]
      · refine ⟨rfl, rfl, rfl, ?_, ?_⟩
        · change stores.authOf st' host = _
          rw [hsame, hauth]
        · intro key hkey
          rw [hnone] at hkey
          cases hkey
    · rw [hhost] at hhost'
      cases hhost'
      refine ⟨⟨⟨hsame, Or.inr ⟨host, presented, hhost, hnone, hpresented, hdecision, hhosts⟩⟩,
        rfl, rfl, rfl⟩, fun agent serial => ⟨{ host with knownHostKey := some presented.toKnown },
        ?_, ?_⟩⟩
      · change stores.hostOf st' id = _
        rw [hhosts, Function.update_self]
      · refine ⟨rfl, rfl, rfl, ?_, ?_⟩
        · change stores.authOf st' _ = _
          rw [hsame, stores.authOf_known, hauth]
        · intro key hkey
          cases hkey
          exact ⟨rfl, rfl⟩
  · cases h
    refine ⟨⟨.of_views rfl rfl, rfl, rfl, rfl⟩, fun agent serial => ⟨host, hhost, ?_⟩⟩
    refine ⟨rfl, rfl, rfl, hauth, ?_⟩
    intro key hkey
    rw [hnone] at hkey
    cases hkey

theorem Tried.of_store {s' : Manager σ} (h : Tried stores o id s' t)
    (hs : s' = { s with store := st }) (hhosts : stores.hostOf st = stores.hostOf s.store)
    (hauth : stores.authOf st = stores.authOf s.store) : Tried stores o id s t := by
  subst hs
  obtain ⟨⟨ha, hh⟩, hp, hl, hg⟩ := h
  refine ⟨⟨ha.trans hauth, ?_⟩, hp, hl, hg⟩
  dsimp only at hh
  rwa [hhosts] at hh

/-- What one attempt does, and what it connects with. -/
theorem connect_spec (agent : Option LocalAgentEndpoint) {r : Except Error Connection}
    (h : connect stores o id agent s = (r, t)) :
    Tried stores o id s t ∧ ∀ c, r = .ok c → c.agent = agent ∧
      ∃ host, stores.hostOf t.store id = some host ∧ MadeFor stores t.store host c := by
  have herror : ∀ {st : σ} {e : Error}, stores.hostOf st = stores.hostOf s.store →
      stores.authOf st = stores.authOf s.store → (r, t) = (.error e, { s with store := st }) →
      Tried stores o id s t ∧ ∀ c, r = .ok c → c.agent = agent ∧
        ∃ host, stores.hostOf t.store id = some host ∧ MadeFor stores t.store host c := by
    intro st e hhosts hauth heq
    cases heq
    exact ⟨⟨.of_views hauth hhosts, rfl, rfl, rfl⟩, fun c hc => by cases hc⟩
  unfold connect at h
  rcases hget : stores.get id s.store with ⟨rh, st1⟩
  obtain ⟨hhosts1, hauth1, hhost⟩ := get_spec hget
  cases rh with
  | error e =>
    rw [bind_error (onStore_run hget)] at h
    exact herror hhosts1 hauth1 h.symm
  | ok host =>
    rw [bind_ok (onStore_run hget)] at h
    rcases hcred : stores.credentialsFor host st1 with ⟨ra, st2⟩
    obtain ⟨hhosts2, hauth2, hcreds⟩ := credentialsFor_spec hcred
    have hhosts := hhosts2.trans hhosts1
    have hauths := hauth2.trans hauth1
    cases ra with
    | error e =>
      rw [bind_error (onStore_run hcred)] at h
      exact herror hhosts hauths h.symm
    | ok auth =>
      rw [bind_ok (onStore_run hcred)] at h
      rcases hpres : o.presented with e | presented
      · rw [hpres] at h
        exact herror hhosts hauths h.symm
      · rw [hpres] at h
        change (ofExcept (checkServerKey host.knownHostKey presented o.decision) >>= _) _ = _ at h
        rcases hcheck : checkServerKey host.knownHostKey presented o.decision with e | accepted
        · rw [hcheck] at h
          exact herror hhosts hauths h.symm
        · rw [hcheck] at h
          change (remember stores id accepted >>= _) _ = _ at h
          rcases hrem : remember stores id accepted { s with store := st2 } with ⟨ru, s3⟩
          have hhost' : stores.hostOf st2 id = some host := by rw [hhosts]; exact hhost host rfl
          have hauth' : stores.authOf st2 host = some auth := by
            rw [hauth2]
            exact hcreds auth rfl
          obtain ⟨htried, hmade⟩ := remember_spec (s := { s with store := st2 }) hhost' hauth'
            hpres hcheck hrem
          have htried' := htried.of_store rfl hhosts hauths
          cases ru with
          | error e =>
            rw [bind_error hrem] at h
            cases h
            exact ⟨htried', fun c hc => by cases hc⟩
          | ok u =>
            rw [bind_ok hrem] at h
            change (ofExcept o.authenticated >>= _) s3 = _ at h
            rcases hauthd : o.authenticated with e | b
            · rw [hauthd] at h
              cases h
              exact ⟨htried', fun c hc => by cases hc⟩
            · rw [hauthd] at h
              cases b with
              | false =>
                cases h
                exact ⟨htried', fun c hc => by cases hc⟩
              | true =>
                cases h
                refine ⟨⟨htried'.store, htried'.pool, htried'.live, htried'.agent⟩, ?_⟩
                intro c hc
                cases hc
                exact ⟨rfl, hmade agent _⟩

/-! ## Opening a PTY -/

theorem Fits.of_auth {agent : Option LocalAgentEndpoint} {host : Host} {c : Connection}
    (h : Fits stores st agent host c) (hauth : stores.authOf st' = stores.authOf st) :
    Fits stores st' agent host c := by
  obtain ⟨⟨hn, hp, hu, ha, hk⟩, hg⟩ := h
  exact ⟨⟨hn, hp, hu, by rw [hauth, ha], hk⟩, hg⟩

theorem Learns.fits (h : Learns stores o id st st') {agent : Option LocalAgentEndpoint}
    {id' : Uuid} {c : Connection} (hc : FitsIfStored stores st agent id' c)
    (hpins : id' = id → Pins stores st id o c) : FitsIfStored stores st' agent id' c := by
  intro host hhost
  obtain hhosts | ⟨old, presented, hold, hnone, hpresented, hdecision, hhosts⟩ := h.hosts
  · rw [hhosts] at hhost
    exact (hc host hhost).of_auth h.auth
  · rw [hhosts] at hhost
    by_cases hid : id' = id
    · subst hid
      rw [Function.update_self] at hhost
      cases hhost
      obtain ⟨⟨hn, hp, hu, ha, -⟩, hg⟩ := hc old hold
      refine ⟨⟨hn, hp, hu, ?_, ?_⟩, hg⟩
      · rw [h.auth, stores.authOf_known, ha]
      · intro key hkey
        cases hkey
        exact hpins rfl old presented hold hnone hpresented hdecision
    · rw [Function.update_of_ne hid] at hhost
      exact (hc host hhost).of_auth h.auth

theorem Learns.pins (h : Learns stores o id st st') {o' : ConnectOutcome} {c : Connection}
    (hc : Pins stores st id o' c) : Pins stores st' id o' c := by
  intro host presented hhost hnone
  obtain hhosts | ⟨old, learned, -, -, -, -, hhosts⟩ := h.hosts
  · rw [hhosts] at hhost
    exact hc host presented hhost hnone
  · rw [hhosts, Function.update_self] at hhost
    cases hhost
    cases hnone

theorem Learns.stored (h : Learns stores o id st st') {host : Host}
    (hhost : stores.hostOf st id = some host) : ∃ host', stores.hostOf st' id = some host' ∧
      host'.forwardAgent = host.forwardAgent := by
  obtain hhosts | ⟨old, learned, hold, -, -, -, hhosts⟩ := h.hosts
  · exact ⟨host, by rw [hhosts, hhost], rfl⟩
  · rw [hhost] at hold
    cases hold
    refine ⟨{ host with knownHostKey := some learned.toKnown }, ?_, rfl⟩
    rw [hhosts, Function.update_self]

variable (stores) in
/-- Between two calls of an open that has read its host. -/
structure Ready (o : OpenOutcome) (id : Uuid) (forwardAgent : Bool)
    (detected : Option LocalAgentEndpoint) (s : Manager σ) : Prop where
  sound : Sound stores s
  pins : ∀ c, Connected s id c → Pins stores s.store id o.first c ∧ Pins stores s.store id o.second c
  agent : s.agent = detected
  stored : ∃ host, stores.hostOf s.store id = some host ∧ host.forwardAgent = forwardAgent

section Open
variable {p : OpenOutcome} {forwardAgent : Bool} {detected : Option LocalAgentEndpoint}

theorem Ready.tried (h : Ready stores p id forwardAgent detected s)
    (ho : o = p.first ∨ o = p.second) (ht : Tried stores o id s t) :
    Ready stores p id forwardAgent detected t := by
  obtain ⟨hlearns, hpool, hlive, hagent⟩ := ht
  have hconnected : ∀ id' c, Connected t id' c → Connected s id' c := by
    intro id' c hc
    unfold Connected at hc ⊢
    rwa [hpool, hlive] at hc
  constructor
  case sound =>
    intro id' c hc
    rw [hagent]
    refine hlearns.fits (h.sound id' c (hconnected id' c hc)) ?_
    intro hid
    subst hid
    obtain ⟨hfirst, hsecond⟩ := h.pins c (hconnected id' c hc)
    obtain rfl | rfl := ho
    · exact hfirst
    · exact hsecond
  case pins =>
    intro c hc
    obtain ⟨hfirst, hsecond⟩ := h.pins c (hconnected id c hc)
    exact ⟨hlearns.pins hfirst, hlearns.pins hsecond⟩
  case agent => rw [hagent, h.agent]
  case stored =>
    obtain ⟨host, hhost, hforward⟩ := h.stored
    obtain ⟨host', hhost', hforward'⟩ := hlearns.stored hhost
    exact ⟨host', hhost', hforward'.trans hforward⟩

/-- A connection made just now fits. -/
theorem Ready.fits (h : Ready stores p id forwardAgent detected s) {c : Connection}
    (hagent : c.agent = (agentFor forwardAgent detected).1)
    (hmade : ∃ host, stores.hostOf s.store id = some host ∧ MadeFor stores s.store host c) :
    FitsStored stores s.store s.agent id c := by
  obtain ⟨host, hhost, hmade⟩ := hmade
  obtain ⟨host', hhost', hforward⟩ := h.stored
  rw [hhost] at hhost'
  cases hhost'
  refine ⟨host, hhost, hmade, ?_⟩
  rw [hagent, h.agent, ← hforward]
  unfold agentFor
  cases host.forwardAgent <;> cases detected <;> rfl

theorem popOpen_spec (closed : ℕ → Bool) (l : List Connection) :
    (∀ c, (popOpen closed l).1 = some c → c ∈ l) ∧ ∀ c ∈ (popOpen closed l).2, c ∈ l := by
  induction l with
  | nil => exact ⟨fun c h => (by cases h), fun c h => h⟩
  | cons d rest ih =>
    unfold popOpen
    by_cases hd : closed d.serial = true
    · rw [if_pos hd]
      exact ⟨fun c h => List.mem_cons_of_mem _ (ih.1 c h),
        fun c h => List.mem_cons_of_mem _ (ih.2 c h)⟩
    · rw [if_neg hd]
      refine ⟨fun c h => ?_, fun c h => List.mem_cons_of_mem _ h⟩
      cases h
      exact List.mem_cons_self

/-- The manager after an idle connection was looked for. -/
def afterPop (closed : ℕ → Bool) (id : Uuid) (s : Manager σ) : Manager σ :=
  { s with pool := Function.update s.pool id (popOpen closed (s.pool id)).2 }

theorem takeOpen_run (closed : ℕ → Bool) (id : Uuid) (s : Manager σ) :
    takeOpen closed id s = (.ok (popOpen closed (s.pool id)).1, afterPop closed id s) := rfl

theorem afterPop_connected {closed : ℕ → Bool} {id' : Uuid} {c : Connection}
    (h : Connected (afterPop closed id s) id' c) : Connected s id' c := by
  refine h.imp_left fun hc => ?_
  unfold afterPop at hc
  dsimp only at hc
  by_cases hid : id' = id
  · subst hid
    rw [Function.update_self] at hc
    exact (popOpen_spec closed (s.pool id')).2 c hc
  · rwa [Function.update_of_ne hid] at hc

theorem Ready.checkout (h : Ready stores p id forwardAgent detected s)
    {r : Except Error Connection}
    (hr : checkout stores p id (agentFor forwardAgent detected).1 s = (r, t)) :
    Ready stores p id forwardAgent detected t ∧
      ∀ c, r = .ok c → FitsStored stores t.store t.agent id c := by
  have htaken : Ready stores p id forwardAgent detected (afterPop p.closed id s) :=
    ⟨fun id' c hc => h.sound id' c (afterPop_connected hc),
      fun c hc => h.pins c (afterPop_connected hc), h.agent, h.stored⟩
  unfold HostSessions.checkout at hr
  rw [bind_ok (takeOpen_run p.closed id s)] at hr
  cases hpop : (popOpen p.closed (s.pool id)).1 with
  | some c =>
    rw [hpop] at hr
    cases hr
    refine ⟨htaken, ?_⟩
    intro d hd
    cases hd
    obtain ⟨host, hhost, -⟩ := h.stored
    have hmem := (popOpen_spec p.closed (s.pool id)).1 c hpop
    exact ⟨host, hhost, h.sound id c (Or.inl hmem) host hhost⟩
  | none =>
    rw [hpop] at hr
    obtain ⟨htried, hmade⟩ := connect_spec _ hr
    have ht := htaken.tried (Or.inl rfl) htried
    exact ⟨ht, fun c hc => ht.fits (hmade c hc).1 (hmade c hc).2⟩

theorem Ready.finishPty (h : Ready stores p id forwardAgent detected s)
    {c : Connection} (hc : FitsStored stores s.store s.agent id c) {agentStatus : AgentForwardStatus}
    {r : Except Error (Connection × AgentForwardStatus)}
    (hr : finishPty p id c agentStatus s = (r, t)) :
    Sound stores t ∧ ∀ d status, r = .ok (d, status) → FitsStored stores t.store t.agent id d := by
  unfold HostSessions.finishPty at hr
  rcases hfin : p.finished with e | u
  · rw [hfin] at hr
    cases hr
    exact ⟨h.sound, fun d status hd => by cases hd⟩
  · rw [hfin] at hr
    cases hr
    constructor
    · intro id' d hd
      obtain hd | hd := hd
      · exact h.sound id' d (Or.inl hd)
      · obtain hd | hd := List.mem_cons.1 hd
        · cases hd
          obtain ⟨host, hhost, hfits⟩ := hc
          intro host' hhost'
          change stores.hostOf s.store id = some host' at hhost'
          rw [hhost] at hhost'
          cases hhost'
          exact hfits
        · exact h.sound id' d (Or.inr hd)
    · intro d status hd
      cases hd
      exact hc

/-- The connection an open returns fits its host, and every other connection still does. -/
theorem openPty_spec (h : Sound stores s) (hunhurt : Unhurt stores s (.openPty id p))
    {r : Except Error (Connection × AgentForwardStatus)} (hr : openPty stores p id s = (r, t)) :
    Sound stores t ∧ ∀ c status, r = .ok (c, status) → FitsStored stores t.store t.agent id c := by
  have herror : ∀ {x : Manager σ} {e : Error}, Sound stores x → (r, t) = (.error e, x) →
      Sound stores t ∧ ∀ c status, r = .ok (c, status) →
        FitsStored stores t.store t.agent id c := by
    intro x e hx heq
    cases heq
    exact ⟨hx, fun c status hc => by cases hc⟩
  unfold openPty at hr
  rcases happroved : p.approved with e | u
  · rw [happroved] at hr
    exact herror h hr.symm
  · rw [happroved] at hr
    change (onStore (stores.get id) >>= _) s = _ at hr
    rcases hget : stores.get id s.store with ⟨rh, st⟩
    obtain ⟨hhosts, hauth, hhost⟩ := get_spec hget
    have hkept : Sound stores { s with store := st } := by
      intro id' c hc host' hhost'
      rw [hhosts] at hhost'
      exact (h id' c hc host' hhost').of_auth hauth
    cases rh with
    | error e =>
      rw [bind_error (onStore_run hget)] at hr
      exact herror hkept hr.symm
    | ok host =>
      rw [bind_ok (onStore_run hget)] at hr
      have hready : Ready stores p id host.forwardAgent s.agent
          { s with store := st } := by
        refine ⟨hkept, ?_, rfl, host, ?_, rfl⟩
        · intro c hc
          have hl : Learns stores p.first id s.store st := .of_views hauth hhosts
          exact ⟨hl.pins (hunhurt c hc).1, hl.pins (hunhurt c hc).2⟩
        · change stores.hostOf st id = some host
          rw [hhosts]
          exact hhost host rfl
      change (checkout stores p id (agentFor host.forwardAgent s.agent).1 >>= _) _ = _ at hr
      rcases hcheck : checkout stores p id (agentFor host.forwardAgent s.agent).1
        { s with store := st } with ⟨rc, s2⟩
      obtain ⟨hready2, hfits⟩ := hready.checkout hcheck
      cases rc with
      | error e =>
        rw [bind_error hcheck] at hr
        exact herror hready2.sound hr.symm
      | ok session =>
        rw [bind_ok hcheck] at hr
        dsimp only at hr
        rcases hchannel : p.channel with e | u
        · rw [hchannel] at hr
          change (connect stores p.second id (agentFor host.forwardAgent s.agent).1 >>= _) s2 = _
            at hr
          rcases hconn : connect stores p.second id (agentFor host.forwardAgent s.agent).1 s2 with
            ⟨rd, s3⟩
          obtain ⟨htried, hmade⟩ := connect_spec _ hconn
          have hready3 := hready2.tried (Or.inr rfl) htried
          cases rd with
          | error e =>
            rw [bind_error hconn] at hr
            exact herror hready3.sound hr.symm
          | ok session' =>
            rw [bind_ok hconn] at hr
            change (ofExcept p.reopened >>= _) s3 = _ at hr
            rcases hreopened : p.reopened with e | u
            · rw [hreopened] at hr
              exact herror hready3.sound hr.symm
            · rw [hreopened] at hr
              exact hready3.finishPty (hready3.fits (hmade _ rfl).1 (hmade _ rfl).2) hr
        · rw [hchannel] at hr
          exact hready2.finishPty (hfits session rfl) hr

end Open

/-! ## Runs -/

theorem checkin_connected {closed : ℕ → Bool} {c d : Connection} {id' : Uuid}
    (h : Connected (checkin closed id c s) id' d) :
    Connected s id' d ∨ (id' = id ∧ d = c) := by
  unfold checkin at h
  by_cases hclosed : closed c.serial = true
  · rw [if_pos hclosed] at h
    exact Or.inl h
  · rw [if_neg hclosed] at h
    by_cases hfull : POOL_MAX_PER_HOST ≤ (s.pool id).length
    · rw [if_pos hfull] at h
      exact Or.inl h
    · rw [if_neg hfull] at h
      obtain h | h := h
      · dsimp only at h
        by_cases hid : id' = id
        · subst hid
          rw [Function.update_self] at h
          obtain rfl | h := List.mem_cons.1 h
          · exact Or.inr ⟨rfl, rfl⟩
          · exact Or.inl (Or.inl h)
        · rw [Function.update_of_ne hid] at h
          exact Or.inl (Or.inl h)
      · exact Or.inl (Or.inr h)

theorem ptyEnded_connected {closed : ℕ → Bool} {i : ℕ} {c : Connection} {id' : Uuid}
    (h : Connected (ptyEnded closed i s) id' c) : Connected s id' c := by
  unfold ptyEnded at h
  cases hlive : s.live[i]? with
  | none =>
    rw [hlive] at h
    exact h
  | some entry =>
    rw [hlive] at h
    obtain h | ⟨rfl, rfl⟩ := checkin_connected h
    · exact h.imp_right List.mem_of_mem_eraseIdx
    · exact Or.inr (List.mem_of_getElem? hlive)

theorem checkin_views (closed : ℕ → Bool) (id : Uuid) (c : Connection) (s : Manager σ) :
    (checkin closed id c s).store = s.store ∧ (checkin closed id c s).agent = s.agent := by
  unfold checkin
  split_ifs <;> exact ⟨rfl, rfl⟩

theorem ptyEnded_views (closed : ℕ → Bool) (i : ℕ) (s : Manager σ) :
    (ptyEnded closed i s).store = s.store ∧ (ptyEnded closed i s).agent = s.agent := by
  unfold ptyEnded
  cases s.live[i]? with
  | none => exact ⟨rfl, rfl⟩
  | some entry => exact checkin_views closed entry.1 entry.2 _

theorem drainPool_connected {which : Option Uuid} {c : Connection} {id' : Uuid}
    (h : Connected (drainPool which s) id' c) : Connected s id' c := by
  cases which with
  | none =>
    refine h.imp_left fun hc => ?_
    cases hc
  | some id =>
    refine h.imp_left fun hc => ?_
    change c ∈ Function.update s.pool id [] id' at hc
    by_cases hid : id' = id
    · subst hid
      rw [Function.update_self] at hc
      cases hc
    · rwa [Function.update_of_ne hid] at hc

theorem Sound.perform (h : Sound stores s) {step : Step σ} (hunhurt : Unhurt stores s step) :
    Sound stores (perform stores s step) := by
  cases step with
  | openPty id o => exact (openPty_spec h hunhurt rfl).1
  | ptyEnded i closed =>
    intro id c hc
    obtain ⟨hstore, hagent⟩ := ptyEnded_views closed i s
    change FitsIfStored stores (ptyEnded closed i s).store (ptyEnded closed i s).agent id c
    rw [hstore, hagent]
    exact h id c (ptyEnded_connected hc)
  | drainPool which =>
    intro id c hc
    have hfits := h id c (drainPool_connected hc)
    cases which <;> exact hfits
  | edit f => exact hunhurt
  | agent endpoint =>
    intro id c hc host hhost
    obtain ⟨hmade, hagent⟩ := h id c hc host hhost
    refine ⟨hmade, ?_⟩
    rw [hagent]
    by_cases hforward : host.forwardAgent = true
    · rw [hunhurt id c host hc hhost hforward]
      rfl
    · rw [if_neg hforward, if_neg hforward]

theorem Sound.run (h : Sound stores s) {steps : List (Step σ)} (hsteps : Along stores s steps) :
    Sound stores (run stores s steps) := by
  induction steps generalizing s with
  | nil => exact h
  | cons step steps ih => exact ih (h.perform hsteps.1) hsteps.2

theorem Started.sound (h : Started s) : Sound stores s := by
  intro id c hc
  obtain hc | hc := hc
  · rw [h.1] at hc
    cases hc
  · rw [h.2] at hc
    cases hc

/-- Where no step changes what open connections were made with, reuse gives what a fresh
connect would. -/
theorem reuse_sound (hs : Started s) {steps : List (Step σ)} (hsteps : Along stores s steps)
    {o : OpenOutcome} (hopen : Unhurt stores (run stores s steps) (.openPty id o))
    {c : Connection} {status : AgentForwardStatus}
    (hok : openPty stores o id (run stores s steps) = (.ok (c, status), t)) :
    FitsStored stores t.store t.agent id c :=
  (openPty_spec (hs.sound.run hsteps) hopen hok).2 c status rfl

end Pool

section Samples

def sampleId : Uuid := ⟨Block.fill 16 7⟩

def sampleHost (hostname : String) : Host where
  id := sampleId
  label := "box"
  hostname := hostname
  port := 22
  username := "me"
  identityId := none
  jumpHostId := none
  folderId := none
  knownHostKey := none
  tags := []
  color := none
  shellIntegration := .auto
  tunnels := []
  forwardAgent := false
  useDefaultKeys := true
  lastConnectedAt := none

def sampleManager : Manager InMemoryStore where
  store := ⟨fun id => if id = sampleId then some (sampleHost "old.example") else none, .defaultKeys⟩
  pool _ := []
  live := []
  agent := none
  connects := 0

def samplePresented : PresentedHostKey := ⟨"ssh-ed25519", "SHA256:k", "ssh-ed25519 k"⟩

def sampleConnect : ConnectOutcome := ⟨.ok samplePresented, .ok .acceptAndRemember, .ok true⟩

/-- The user approves, the server answers, nothing fails and nothing is closed. -/
def sampleOpen : OpenOutcome :=
  ⟨.ok (), fun _ => false, .ok (), sampleConnect, sampleConnect, .ok (), .ok ()⟩

/-- A PTY on the host is opened and ends. -/
def sampleUse : List (Step InMemoryStore) :=
  [.openPty sampleId sampleOpen, .ptyEnded 0 fun _ => false]

def sampleConnection : Connection :=
  ⟨0, "old.example", 22, "me", .defaultKeys, samplePresented, none⟩

theorem sampleManager_started : Started sampleManager := ⟨fun _ => rfl, rfl⟩

/-- The host with its learned key, under another label and at another name. -/
def edited (label hostname : String) : Host :=
  { sampleHost hostname with label := label, knownHostKey := some samplePresented.toKnown }

def afterUse : Manager InMemoryStore := run inMemoryStores sampleManager sampleUse

theorem afterUse_pool : afterUse.pool = Function.update (Function.update sampleManager.pool
    sampleId []) sampleId [sampleConnection] := rfl

theorem afterUse_live : afterUse.live = [] := rfl

theorem afterUse_connected {id : Uuid} {c : Connection} (h : Connected afterUse id c) :
    id = sampleId ∧ c = sampleConnection := by
  obtain h | h := h
  · rw [afterUse_pool] at h
    by_cases hid : id = sampleId
    · subst hid
      rw [Function.update_self] at h
      exact ⟨rfl, List.mem_singleton.1 h⟩
    · rw [Function.update_of_ne hid, Function.update_of_ne hid] at h
      cases h
  · rw [afterUse_live] at h
    cases h

/-- `update_host` moves the host to another name while its connection is idle. -/
def moveHost : Step InMemoryStore := .edit (InMemoryStore.insert (edited "box" "new.example"))

theorem reuse_sound_fails : Started sampleManager ∧ ∃ c status t,
    openPty inMemoryStores sampleOpen sampleId
      (run inMemoryStores sampleManager (sampleUse ++ [moveHost])) = (.ok (c, status), t) ∧
    ¬ FitsStored inMemoryStores t.store t.agent sampleId c := by
  refine ⟨sampleManager_started, sampleConnection, .off, _, rfl, ?_⟩
  rintro ⟨host, hhost, hmade, -⟩
  cases hhost
  exact absurd hmade.hostname (by decide)

/-- A change of label hurts no connection. -/
def relabel : Step InMemoryStore := .edit (InMemoryStore.insert (edited "renamed" "old.example"))

theorem sampleSteps_along : Along inMemoryStores sampleManager (sampleUse ++ [relabel]) := by
  refine ⟨?_, trivial, ?_, trivial⟩
  · intro c hc
    obtain hc | hc := hc <;> cases hc
  · intro id c hc host hhost
    obtain ⟨rfl, rfl⟩ := afterUse_connected hc
    cases hhost
    refine ⟨⟨rfl, rfl, rfl, rfl, ?_⟩, rfl⟩
    intro key hkey
    cases hkey
    exact ⟨rfl, rfl⟩

theorem reuse_sound_sample : ∃ c status t,
    openPty inMemoryStores sampleOpen sampleId
      (run inMemoryStores sampleManager (sampleUse ++ [relabel])) = (.ok (c, status), t) ∧
    c = sampleConnection ∧ FitsStored inMemoryStores t.store t.agent sampleId c := by
  have hopened : (openPty inMemoryStores sampleOpen sampleId
      (run inMemoryStores sampleManager (sampleUse ++ [relabel]))).1 =
      .ok (sampleConnection, .off) := rfl
  refine ⟨sampleConnection, .off, _, Prod.ext hopened rfl, rfl, ?_⟩
  refine reuse_sound sampleManager_started sampleSteps_along ?_ (Prod.ext hopened rfl)
  intro c hc
  have hnone : ∀ o, Pins inMemoryStores (run inMemoryStores sampleManager
      (sampleUse ++ [relabel])).store sampleId o c := by
    intro o host presented hhost hnone
    cases hhost
    cases hnone
  exact ⟨hnone _, hnone _⟩

end Samples
end Tethra.ConnectionPool
