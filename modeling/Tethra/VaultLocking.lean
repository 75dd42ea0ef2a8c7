import Tethra.HostSessions
import Tethra.SessionTunnels

set_option autoImplicit false

/-!
# Locking with sessions open

`lock_vault` empties the maps of sessions, file browsers and tunnels one after the other while
commands that were begun go on. A connection is known by its serial number; `readers` are the
connections whose PTY loop has not ended.
-/
namespace Tethra.VaultLocking
open HostSessions SharedTasks VaultTypes
open SessionTunnels (Key Runtimes)

structure App where
  unlocked : Bool
  sessions : List (Uuid × ℕ)
  sftpSessions : List (Uuid × ℕ)
  runtimes : Runtimes
  pool : Uuid → List ℕ
  readers : List ℕ
  connects : ℕ

/-- What the network and the vault's data answer. -/
structure Answer where
  approved : Bool
  connected : Bool
  channel : Bool
  finished : Bool
  closed : ℕ → Bool
  tunnel : SessionTunnels.Answer

inductive Task where
  -- `open_terminal`
  | openTerminal (sessionId hostId : Uuid)
  | checkout (sessionId hostId : Uuid)
  | connecting (sessionId hostId : Uuid) (again : Bool)
  | handshaking (sessionId hostId : Uuid) (again : Bool)
  | openingChannel (sessionId hostId : Uuid) (again : Bool) (session : ℕ)
  | finishPty (sessionId hostId : Uuid) (session : ℕ)
  | insertingSession (sessionId hostId : Uuid) (session : ℕ)
  -- the reader of a PTY
  | ptyLoop (hostId : Uuid) (session : ℕ)
  | checkin (hostId : Uuid) (session : ℕ)
  -- `sftp_open`
  | sftpOpen (sessionId hostId : Uuid)
  | sftpConnecting (sessionId hostId : Uuid)
  | sftpHandshaking (sessionId hostId : Uuid)
  | insertingSftp (sessionId : Uuid) (session : ℕ)
  -- tunnels, and what a closed terminal does after them
  | tunnel (closing : Option Uuid) (t : SessionTunnels.Task)
  | removingSession (sessionId : Uuid)
  | joining (session : ℕ)
  -- `lock_vault`
  | lockVault
  | closingPtys (sessions : List ℕ)
  | closingSftp (sessions : List ℕ)
  | takingSftp
  | drainingTunnels
  | stoppingTunnels (live : List (Key × SessionTunnels.LiveTunnel))
  | lockingKeys
  | locked
  | finished

def closeTerminal (sessionId : Uuid) : Task :=
  .tunnel (some sessionId) (.stopSessionTunnels sessionId)

def tunnelStart (sessionId tunnelId : Uuid) : Task := .tunnel none (.tunnelStart sessionId tunnelId)

def autoStart (sessionId hostId : Uuid) : Task :=
  .tunnel none (.autoStartForSession sessionId hostId)

/-- The first pooled connection that is open; closed ones are thrown away. -/
def takePooled (s : App) (closed : ℕ → Bool) (sessionId hostId : Uuid) : Effect App Task :=
  match (s.pool hostId).dropWhile closed with
  | session :: rest => ⟨{ s with pool := Function.update s.pool hostId rest },
      .openingChannel sessionId hostId false session, []⟩
  | [] => ⟨{ s with pool := Function.update s.pool hostId [] },
      .connecting sessionId hostId false, []⟩

def storePooled (s : App) (closed : ℕ → Bool) (hostId : Uuid) (session : ℕ) : App :=
  if closed session then s
  else if POOL_MAX_PER_HOST ≤ (s.pool hostId).length then s
  else { s with pool := Function.update s.pool hostId (session :: s.pool hostId) }

def stopTunnels (s : App) : List (Key × SessionTunnels.LiveTunnel) → Effect App Task
  | [] => ⟨{ s with runtimes := { s.runtimes with sessionHosts := [] } }, .lockingKeys, []⟩
  | (key, live) :: rest =>
    ⟨{ s with runtimes := { s.runtimes with
        running := s.runtimes.running.erase (key, live.handle) } }, .stoppingTunnels rest, []⟩

/-- One action of a tunnel command on the tunnels of the application. -/
def actTunnel (o : Answer) (s : App) (closing : Option Uuid) (t : SessionTunnels.Task) :
    Effect App Task :=
  let e := SessionTunnels.act o.tunnel s.runtimes t
  ⟨{ s with runtimes := e.shared }, .tunnel closing e.rest, []⟩

def act (o : Answer) (s : App) : Task → Effect App Task
  | .openTerminal sessionId hostId =>
    if s.unlocked then ⟨s, .checkout sessionId hostId, []⟩ else ⟨s, .finished, []⟩
  | .checkout sessionId hostId =>
    if o.approved && s.unlocked then takePooled s o.closed sessionId hostId
    else ⟨s, .finished, []⟩
  | .connecting sessionId hostId again =>
    if s.unlocked then ⟨s, .handshaking sessionId hostId again, []⟩ else ⟨s, .finished, []⟩
  | .handshaking sessionId hostId again =>
    if o.connected then ⟨{ s with connects := s.connects + 1 },
      .openingChannel sessionId hostId again s.connects, []⟩
    else ⟨s, .finished, []⟩
  | .openingChannel sessionId hostId again session =>
    if o.channel then ⟨s, .finishPty sessionId hostId session, []⟩
    else if again then ⟨s, .finished, []⟩
    else ⟨s, .connecting sessionId hostId true, []⟩
  | .finishPty sessionId hostId session =>
    if o.finished then ⟨{ s with readers := session :: s.readers },
      .insertingSession sessionId hostId session, [.ptyLoop hostId session]⟩
    else ⟨s, .finished, []⟩
  | .insertingSession sessionId hostId session =>
    ⟨{ s with sessions := SessionTunnels.insert sessionId session s.sessions }, .finished,
      [autoStart sessionId hostId]⟩
  | .ptyLoop hostId session => ⟨s, .checkin hostId session, []⟩
  | .checkin hostId session =>
    let s := storePooled s o.closed hostId session
    ⟨{ s with readers := s.readers.erase session }, .finished, []⟩
  | .sftpOpen sessionId hostId =>
    if s.unlocked then ⟨s, .sftpConnecting sessionId hostId, []⟩ else ⟨s, .finished, []⟩
  | .sftpConnecting sessionId hostId =>
    if o.approved && s.unlocked then ⟨s, .sftpHandshaking sessionId hostId, []⟩
    else ⟨s, .finished, []⟩
  | .sftpHandshaking sessionId _ =>
    if o.connected && o.channel && o.finished then
      ⟨{ s with connects := s.connects + 1 }, .insertingSftp sessionId s.connects, []⟩
    else ⟨s, .finished, []⟩
  | .insertingSftp sessionId session =>
    ⟨{ s with sftpSessions := SessionTunnels.insert sessionId session s.sftpSessions },
      .finished, []⟩
  | .tunnel (some sessionId) (.stopped _) => ⟨s, .removingSession sessionId, []⟩
  | .tunnel closing t => actTunnel o s closing t
  | .removingSession sessionId =>
    match SessionTunnels.get sessionId s.sessions with
    | some session => ⟨{ s with sessions := SessionTunnels.remove sessionId s.sessions },
        .joining session, []⟩
    | none => ⟨s, .finished, []⟩
  | .joining session =>
    if session ∈ s.readers then ⟨s, .joining session, []⟩ else ⟨s, .finished, []⟩
  | .lockVault => ⟨{ s with sessions := [] }, .closingPtys (s.sessions.map Prod.snd), []⟩
  | .closingPtys [] => ⟨s, .takingSftp, []⟩
  | .closingPtys (session :: rest) =>
    if session ∈ s.readers then ⟨s, .closingPtys (session :: rest), []⟩
    else ⟨s, .closingPtys rest, []⟩
  | .takingSftp =>
    ⟨{ s with sftpSessions := [] }, .closingSftp (s.sftpSessions.map Prod.snd), []⟩
  | .closingSftp [] => ⟨s, .drainingTunnels, []⟩
  | .closingSftp (_ :: rest) => ⟨s, .closingSftp rest, []⟩
  | .drainingTunnels => ⟨{ s with runtimes := { s.runtimes with tunnels := [] } },
      .stoppingTunnels s.runtimes.tunnels, []⟩
  | .stoppingTunnels live => stopTunnels s live
  | .lockingKeys => ⟨{ s with unlocked := false }, .locked, []⟩
  | .locked => ⟨s, .locked, []⟩
  | .finished => ⟨s, .finished, []⟩

abbrev Desk := Crowd App Task

abbrev Happening := Event Task Answer

/-! ## How far a lock has come -/

/-- How many of the three maps a `lock_vault` has emptied. -/
def emptied : Task → Option ℕ
  | .lockVault => some 0
  | .closingPtys _ => some 1
  | .takingSftp => some 1
  | .closingSftp _ => some 2
  | .drainingTunnels => some 2
  | .stoppingTunnels _ => some 3
  | .lockingKeys => some 3
  | .locked => some 3
  | _ => none

inductive Part where
  | sessions
  | pool
  | sftp
  | tunnels

/-- The pool is to be empty with the sessions: nothing empties it. -/
def Part.level : Part → ℕ
  | .sessions => 1
  | .pool => 1
  | .sftp => 2
  | .tunnels => 3

def Part.Empty (s : App) : Part → Prop
  | .sessions => s.sessions = []
  | .pool => ∀ hostId, s.pool hostId = []
  | .sftp => s.sftpSessions = []
  | .tunnels => s.runtimes.tunnels = []

/-- The next action of the task may put a connection into the part. -/
def Part.Adds (o : Answer) (t : Task) : Part → Prop
  | .sessions => ∃ sessionId hostId session, t = .insertingSession sessionId hostId session
  | .pool => ∃ hostId session, t = .checkin hostId session ∧ o.closed session = false
  | .sftp => ∃ sessionId session, t = .insertingSftp sessionId session
  | .tunnels => ∃ closing s live, t = .tunnel closing (.inserting s live)

def Passed (n : ℕ) (t : Task) : Prop := ∃ m, emptied t = some m ∧ n ≤ m

def Pending (n : ℕ) (t : Task) : Prop := ∃ m, emptied t = some m ∧ m < n

/-- No lock has emptied the maps up to the level, or one is still to do so. -/
def InTime (n : ℕ) (x : Desk) : Prop :=
  (∀ t ∈ x.tasks, ¬ Passed n t) ∨ ∃ t ∈ x.tasks, Pending n t

/-- The task is the beginning of a command. -/
def Fresh : Task → Prop
  | .openTerminal _ _ => True
  | .sftpOpen _ _ => True
  | .tunnel none (.tunnelStart _ _) => True
  | .tunnel (some _) (.stopSessionTunnels _) => True
  | .lockVault => True
  | _ => False

/-- Nothing is put into a part behind the lock that emptied it, and a lock finds the pool empty. -/
def Sealed (x : Desk) : Happening → Prop
  | .spawn t => Fresh t
  | .advance i o => ∀ t, x.tasks[i]? = some t →
      (∀ p, Part.Adds o t p → InTime p.level x) ∧ (t = .lockVault → Part.Empty x.shared .pool)

/-- The task is over. -/
def Done : Task → Prop
  | .finished => True
  | .locked => True
  | .tunnel none (.finished _) => True
  | _ => False

/-- No connection is kept. -/
def Disconnected (s : App) : Prop := ∀ p, Part.Empty s p

/-! ## One action -/

section Actions
variable {o : Answer} {s : App}

theorem takePooled_spec (closed : ℕ → Bool) (sessionId hostId : Uuid) :
    emptied (takePooled s closed sessionId hostId).rest = none ∧
    (takePooled s closed sessionId hostId).spawned = [] ∧
    ∀ p, Part.Empty s p → Part.Empty (takePooled s closed sessionId hostId).shared p := by
  unfold takePooled
  split
  · rename_i session rest htaken
    refine ⟨rfl, rfl, fun p hp => ?_⟩
    cases p with
    | pool =>
      rw [hp hostId] at htaken
      cases htaken
    | sessions => exact hp
    | sftp => exact hp
    | tunnels => exact hp
  · refine ⟨rfl, rfl, fun p hp => ?_⟩
    cases p with
    | pool =>
      intro other
      by_cases h : other = hostId
      · simp [h]
      · simpa [h] using hp other
    | sessions => exact hp
    | sftp => exact hp
    | tunnels => exact hp

theorem storePooled_empty {closed : ℕ → Bool} (hostId : Uuid) {session : ℕ}
    {p : Part} (hp : Part.Empty s p) (h : p = .pool → closed session = true) :
    Part.Empty (storePooled s closed hostId session) p := by
  unfold storePooled
  split
  · exact hp
  · rename_i hopen
    split
    · exact hp
    · cases p with
      | pool => exact absurd (h rfl) hopen
      | sessions => exact hp
      | sftp => exact hp
      | tunnels => exact hp

/-- A map of tunnels stays empty but for an insertion. -/
theorem tunnels_empty {o : SessionTunnels.Answer} {x : Runtimes} {t : SessionTunnels.Task}
    (hx : x.tunnels = []) (ht : ∀ st live, t ≠ .inserting st live) :
    (SessionTunnels.act o x t).shared.tunnels = [] := by
  cases t with
  | inserting st live => exact absurd rfl (ht st live)
  | removing sessionId keys =>
    cases keys with
    | nil => exact hx
    | cons key keys =>
      have hget : SessionTunnels.get key x.tunnels = none := by rw [hx]; rfl
      simp only [SessionTunnels.act, SessionTunnels.removeNext, hget]
      exact hx
  | tunnelStart sessionId tunnelId =>
    simp only [SessionTunnels.act]
    split <;> exact hx
  | loading sessionId tunnelId hostId =>
    simp only [SessionTunnels.act]
    split
    · split <;> exact hx
    · exact hx
  | loadingAll sessionId hostId =>
    simp only [SessionTunnels.act]
    split <;> exact hx
  | checking st =>
    simp only [SessionTunnels.act]
    split <;> exact hx
  | opening st =>
    simp only [SessionTunnels.act]
    split <;> exact hx
  | _ => exact hx

/-- An action that is not one of the lock's own. -/
structure Foreign (o : Answer) (s : App) (t : Task) (e : Effect App Task) : Prop where
  rest : emptied e.rest = none
  spawned : ∀ q ∈ e.spawned, emptied q = none
  empty : ∀ p, Part.Empty s p → ¬ Part.Adds o t p → Part.Empty e.shared p

theorem Foreign.idle {t rest : Task} (h : emptied rest = none) : Foreign o s t ⟨s, rest, []⟩ :=
  ⟨h, List.forall_mem_nil _, fun _ hp _ => hp⟩

theorem foreign_tunnel (closing : Option Uuid) (t : SessionTunnels.Task) :
    Foreign o s (.tunnel closing t) (actTunnel o s closing t) := by
  refine ⟨rfl, List.forall_mem_nil _, fun p hp hadds => ?_⟩
  cases p with
  | tunnels => exact tunnels_empty hp fun st live h => hadds ⟨closing, st, live, by rw [h]⟩
  | sessions => exact hp
  | pool => exact hp
  | sftp => exact hp

theorem foreign_act {t : Task} (ht : emptied t = none) : Foreign o s t (act o s t) := by
  cases t with
  | openTerminal sessionId hostId =>
    simp only [act]
    split <;> exact .idle rfl
  | checkout sessionId hostId =>
    simp only [act]
    split
    · obtain ⟨hrest, hspawned, hempty⟩ := takePooled_spec (s := s) o.closed sessionId hostId
      exact ⟨hrest, by rw [hspawned]; exact List.forall_mem_nil _, fun p hp _ => hempty p hp⟩
    · exact .idle rfl
  | connecting sessionId hostId again =>
    simp only [act]
    split <;> exact .idle rfl
  | handshaking sessionId hostId again =>
    simp only [act]
    split
    · refine ⟨rfl, List.forall_mem_nil _, fun p hp _ => ?_⟩
      cases p <;> exact hp
    · exact .idle rfl
  | openingChannel sessionId hostId again session =>
    simp only [act]
    split
    · exact .idle rfl
    · split <;> exact .idle rfl
  | finishPty sessionId hostId session =>
    simp only [act]
    split
    · refine ⟨rfl, fun q hq => ?_, fun p hp _ => ?_⟩
      · rw [List.mem_singleton.1 hq]
        rfl
      · cases p <;> exact hp
    · exact .idle rfl
  | insertingSession sessionId hostId session =>
    refine ⟨rfl, fun q hq => ?_, fun p hp hadds => ?_⟩
    · rw [List.mem_singleton.1 hq]
      rfl
    · cases p with
      | sessions => exact absurd ⟨sessionId, hostId, session, rfl⟩ hadds
      | pool => exact hp
      | sftp => exact hp
      | tunnels => exact hp
  | ptyLoop hostId session => exact .idle rfl
  | checkin hostId session =>
    refine ⟨rfl, List.forall_mem_nil _, fun p hp hadds => ?_⟩
    have hclosed : p = .pool → o.closed session = true := by
      rintro rfl
      by_contra h
      exact hadds ⟨hostId, session, rfl, by simpa using h⟩
    have hstored := storePooled_empty hostId hp hclosed
    cases p <;> exact hstored
  | sftpOpen sessionId hostId =>
    simp only [act]
    split <;> exact .idle rfl
  | sftpConnecting sessionId hostId =>
    simp only [act]
    split <;> exact .idle rfl
  | sftpHandshaking sessionId hostId =>
    simp only [act]
    split
    · refine ⟨rfl, List.forall_mem_nil _, fun p hp _ => ?_⟩
      cases p <;> exact hp
    · exact .idle rfl
  | insertingSftp sessionId session =>
    refine ⟨rfl, List.forall_mem_nil _, fun p hp hadds => ?_⟩
    cases p with
    | sftp => exact absurd ⟨sessionId, session, rfl⟩ hadds
    | sessions => exact hp
    | pool => exact hp
    | tunnels => exact hp
  | tunnel closing t =>
    rcases closing with _ | sessionId
    · exact foreign_tunnel none t
    · cases t with
      | stopped _ => exact .idle rfl
      | _ => exact foreign_tunnel _ _
  | removingSession sessionId =>
    simp only [act]
    split
    · refine ⟨rfl, List.forall_mem_nil _, fun p hp _ => ?_⟩
      cases p with
      | sessions =>
        change SessionTunnels.remove sessionId s.sessions = []
        rw [show s.sessions = [] from hp]
        rfl
      | pool => exact hp
      | sftp => exact hp
      | tunnels => exact hp
    · exact .idle rfl
  | joining session =>
    simp only [act]
    split <;> exact .idle rfl
  | finished => exact .idle rfl
  | lockVault => cases ht
  | closingPtys sessions => cases ht
  | closingSftp sessions => cases ht
  | takingSftp => cases ht
  | drainingTunnels => cases ht
  | stoppingTunnels live => cases ht
  | lockingKeys => cases ht
  | locked => cases ht

/-- A lock's own action empties the next part or leaves the lock where it is among the parts. -/
theorem lock_act {t : Task} {m : ℕ} (ht : emptied t = some m)
    (hpool : t = .lockVault → Part.Empty s .pool) :
    (act o s t).spawned = [] ∧ (∀ p, Part.Empty s p → Part.Empty (act o s t).shared p) ∧
    ∃ k, emptied (act o s t).rest = some k ∧
      ∀ p : Part, Part.Empty (act o s t).shared p ∨ (p.level ≤ k ↔ p.level ≤ m) := by
  have hstay : ∀ p : Part, Part.Empty s p ∨ (p.level ≤ m ↔ p.level ≤ m) := fun _ => .inr Iff.rfl
  cases t with
  | lockVault =>
    cases ht
    refine ⟨rfl, fun p hp => ?_, 1, rfl, fun p => ?_⟩
    · cases p with
      | sessions => rfl
      | pool => exact hp
      | sftp => exact hp
      | tunnels => exact hp
    · cases p with
      | sessions => exact .inl rfl
      | pool => exact .inl (hpool rfl)
      | sftp => exact .inr (by simp [Part.level])
      | tunnels => exact .inr (by simp [Part.level])
  | closingPtys sessions =>
    cases ht
    rcases sessions with _ | ⟨session, rest⟩
    · exact ⟨rfl, fun _ hp => hp, 1, rfl, hstay⟩
    · simp only [act]
      split
      · exact ⟨rfl, fun _ hp => hp, 1, rfl, hstay⟩
      · exact ⟨rfl, fun _ hp => hp, 1, rfl, hstay⟩
  | takingSftp =>
    cases ht
    refine ⟨rfl, fun p hp => ?_, 2, rfl, fun p => ?_⟩
    · cases p with
      | sftp => rfl
      | sessions => exact hp
      | pool => exact hp
      | tunnels => exact hp
    · cases p with
      | sftp => exact .inl rfl
      | sessions => exact .inr (by simp [Part.level])
      | pool => exact .inr (by simp [Part.level])
      | tunnels => exact .inr (by simp [Part.level])
  | closingSftp sessions =>
    cases ht
    rcases sessions with _ | ⟨session, rest⟩
    · exact ⟨rfl, fun _ hp => hp, 2, rfl, hstay⟩
    · exact ⟨rfl, fun _ hp => hp, 2, rfl, hstay⟩
  | drainingTunnels =>
    cases ht
    refine ⟨rfl, fun p hp => ?_, 3, rfl, fun p => ?_⟩
    · cases p with
      | tunnels => rfl
      | sessions => exact hp
      | pool => exact hp
      | sftp => exact hp
    · cases p with
      | tunnels => exact .inl rfl
      | sessions => exact .inr (by simp [Part.level])
      | pool => exact .inr (by simp [Part.level])
      | sftp => exact .inr (by simp [Part.level])
  | stoppingTunnels live =>
    cases ht
    rcases live with _ | ⟨⟨key, live⟩, rest⟩
    · refine ⟨rfl, fun p hp => ?_, 3, rfl, fun p => .inr Iff.rfl⟩
      cases p <;> exact hp
    · refine ⟨rfl, fun p hp => ?_, 3, rfl, fun p => .inr Iff.rfl⟩
      cases p <;> exact hp
  | lockingKeys =>
    cases ht
    refine ⟨rfl, fun p hp => ?_, 3, rfl, fun p => .inr Iff.rfl⟩
    cases p <;> exact hp
  | locked =>
    cases ht
    exact ⟨rfl, fun _ hp => hp, 3, rfl, hstay⟩
  | _ => cases ht

end Actions

/-! ## Runs -/

section Runs
variable {x : Desk} {i : ℕ} {t : Task} {n : ℕ}

theorem InTime.absorb (h : InTime n x) (ht : x.tasks[i]? = some t) {e : Effect App Task}
    (hspawned : ∀ q ∈ e.spawned, emptied q = none)
    (hpassed : Passed n e.rest → Passed n t) (hpending : Pending n t → Pending n e.rest) :
    InTime n (x.absorb i e) := by
  obtain h | ⟨u, hu, hu'⟩ := h
  · refine .inl fun u hu => ?_
    obtain rfl | hu | ⟨j, -, hj⟩ := Crowd.mem_absorb hu
    · exact fun hrest => h t (List.mem_of_getElem? ht) (hpassed hrest)
    · rintro ⟨m, hm, -⟩
      rw [hspawned u hu] at hm
      cases hm
    · exact h u (List.mem_of_getElem? hj)
  · obtain rfl | hu := Crowd.mem_absorb_of_mem (e := e) ht hu
    · exact .inr ⟨e.rest, Crowd.rest_mem_absorb ht, hpending hu'⟩
    · exact .inr ⟨u, hu, hu'⟩

/-- Each part is empty unless its lock is still to come, or none has come. -/
def Guarded (x : Desk) : Prop := ∀ p : Part, Part.Empty x.shared p ∨ InTime p.level x

theorem not_passed {t : Task} (h : emptied t = none) : ¬ Passed n t := by
  rintro ⟨m, hm, -⟩
  rw [h] at hm
  cases hm

theorem not_pending {t : Task} (h : emptied t = none) : ¬ Pending n t := by
  rintro ⟨m, hm, -⟩
  rw [h] at hm
  cases hm

theorem Guarded.foreign (hx : Guarded x) (ht : x.tasks[i]? = some t) (hnone : emptied t = none)
    {o : Answer} {e : Effect App Task} (he : Foreign o x.shared t e)
    (hadds : ∀ p, Part.Adds o t p → InTime p.level x) : Guarded (x.absorb i e) := by
  have hkept : ∀ p : Part, InTime p.level x → InTime p.level (x.absorb i e) := fun p h =>
    h.absorb ht he.spawned (fun h => absurd h (not_passed he.rest))
      fun h => absurd h (not_pending hnone)
  intro p
  by_cases hp : Part.Adds o t p
  · exact .inr (hkept p (hadds p hp))
  · obtain hempty | h := hx p
    · exact .inl (he.empty p hempty hp)
    · exact .inr (hkept p h)

theorem Guarded.lock (hx : Guarded x) (ht : x.tasks[i]? = some t) {m : ℕ}
    (hm : emptied t = some m) (o : Answer)
    (hpool : t = .lockVault → Part.Empty x.shared .pool) :
    Guarded (x.absorb i (act o x.shared t)) := by
  obtain ⟨hspawned, hempty, k, hk, hlevel⟩ := lock_act (o := o) hm hpool
  intro p
  obtain h | hstay := hlevel p
  · exact .inl h
  obtain h | h := hx p
  · exact .inl (hempty p h)
  · refine .inr (h.absorb ht (by rw [hspawned]; exact List.forall_mem_nil _) ?_ ?_)
    · rintro ⟨l, hl, hle⟩
      rw [hk, Option.some.injEq] at hl
      subst hl
      exact ⟨m, hm, hstay.1 hle⟩
    · rintro ⟨l, hl, hlt⟩
      rw [hm, Option.some.injEq] at hl
      subst hl
      exact ⟨k, hk, by omega⟩

theorem Fresh.not_passed (h : Fresh t) (p : Part) : ¬ Passed p.level t := by
  rintro ⟨m, hm, hle⟩
  have hpos : 0 < p.level := by cases p <;> decide
  cases t <;> first | exact h.elim | cases hm
  omega

theorem Guarded.exec (hx : Guarded x) {e : Happening} (he : Sealed x e) :
    Guarded (Crowd.exec act x e) := by
  cases e with
  | spawn t =>
    intro p
    obtain h | h | ⟨u, hu, hu'⟩ := hx p
    · exact .inl h
    · refine .inr (.inl fun u hu => ?_)
      obtain hu | hu := List.mem_append.1 hu
      · exact h u hu
      · rw [List.mem_singleton.1 hu]
        exact Fresh.not_passed he p
    · exact .inr (.inr ⟨u, List.mem_append_left _ hu, hu'⟩)
  | advance i o =>
    rcases ht : x.tasks[i]? with _ | t
    · rw [Crowd.exec_absent ht]
      exact hx
    · obtain ⟨hadds, hpool⟩ := he t ht
      rw [Crowd.exec_advance ht]
      cases hm : emptied t with
      | none => exact hx.foreign ht hm (foreign_act hm) hadds
      | some m => exact hx.lock ht hm o hpool

theorem Done.not_pending (h : Done t) (p : Part) : ¬ Pending p.level t := by
  rintro ⟨m, hm, hlt⟩
  have hle : p.level ≤ 3 := by cases p <;> decide
  cases t <;> first | exact h.elim | cases hm
  omega

/-- Whatever is in flight when the vault is locked: in every run in which nothing is put into a
part behind the lock, nothing stays connected when all is over. -/
theorem lock_disconnects (x : Desk) (hlock : .lockVault ∈ x.tasks) (es : List Happening)
    (hes : Crowd.Follows act Sealed x es) (hlocked : .locked ∈ (Crowd.run act x es).tasks)
    (hdone : ∀ t ∈ (Crowd.run act x es).tasks, Done t) :
    Disconnected (Crowd.run act x es).shared := by
  have hstart : Guarded x := by
    refine fun p => .inr (.inr ⟨_, hlock, 0, rfl, ?_⟩)
    cases p <;> decide
  have hend : Guarded (Crowd.run act x es) := hes.invariant (fun _ _ hx => hx.exec) hstart
  intro p
  obtain h | h | ⟨t, ht, hpending⟩ := hend p
  · exact h
  · refine absurd ⟨3, rfl, ?_⟩ (h _ hlocked)
    cases p <;> decide
  · exact absurd hpending ((hdone t ht).not_pending p)

end Runs

/-! ## One terminal -/

def sessionB : Uuid := ⟨Block.fill 16 4⟩
def hostB : Uuid := ⟨Block.fill 16 5⟩

/-- Nothing fails; the server has closed the connections or has not. -/
def answers (closed : Bool) : Answer :=
  ⟨true, true, true, true, fun _ => closed, ⟨.ok [], .error ""⟩⟩

/-- A terminal is open on connection 0 and the vault is being locked. -/
def openDesk : Desk where
  shared := ⟨true, [(sessionB, 0)], [], .new, fun _ => [], [0], 1⟩
  tasks := [.lockVault, .ptyLoop hostB 0]

/-- The PTY ends, its connection is checked in, and the lock goes on to its end. -/
def locking (closed : Bool) : List Happening :=
  .advance 0 (answers closed) :: List.replicate 2 (.advance 1 (answers closed)) ++
    List.replicate 7 (.advance 0 (answers closed))

/-- The task at `i` adds nothing and is no lock about to begin. -/
theorem sealed_quiet {x : Desk} {i : ℕ} {o : Answer} {t : Task} (ht : x.tasks[i]? = some t)
    (hadds : ∀ p, ¬ Part.Adds o t p) (hlock : t ≠ .lockVault) : Sealed x (.advance i o) := by
  intro u hu
  rw [ht, Option.some.injEq] at hu
  subst hu
  exact ⟨fun p hp => absurd hp (hadds p), fun h => absurd h hlock⟩

theorem emptied_not_adds {o : Answer} {t : Task} {m : ℕ} (h : emptied t = some m) (p : Part) :
    ¬ Part.Adds o t p := by
  cases p with
  | sessions => rintro ⟨_, _, _, rfl⟩; cases h
  | pool => rintro ⟨_, _, rfl, _⟩; cases h
  | sftp => rintro ⟨_, _, rfl⟩; cases h
  | tunnels => rintro ⟨_, _, _, rfl⟩; cases h

theorem reader_not_adds {o : Answer} {hostId : Uuid} {session : ℕ} (h : o.closed session = true)
    (p : Part) : ¬ Part.Adds o (.ptyLoop hostId session) p ∧
      ¬ Part.Adds o (.checkin hostId session) p := by
  cases p with
  | sessions => constructor <;> rintro ⟨_, _, _, h⟩ <;> cases h
  | sftp => constructor <;> rintro ⟨_, _, h⟩ <;> cases h
  | tunnels => constructor <;> rintro ⟨_, _, _, h⟩ <;> cases h
  | pool =>
    constructor
    · rintro ⟨_, _, h, _⟩
      cases h
    · rintro ⟨_, _, heq, hopen⟩
      cases heq
      rw [h] at hopen
      cases hopen

theorem locking_tasks (closed : Bool) :
    (Crowd.run act openDesk (locking closed)).tasks = [.locked, .finished] := by
  cases closed <;> rfl

theorem locking_over (closed : Bool) :
    .locked ∈ (Crowd.run act openDesk (locking closed)).tasks ∧
      ∀ t ∈ (Crowd.run act openDesk (locking closed)).tasks, Done t := by
  rw [locking_tasks]
  simp [Done]

/-- The server has closed the connection when the PTY ends. -/
theorem lock_disconnects_sample :
    Disconnected (Crowd.run act openDesk (locking true)).shared := by
  have hlock : ∀ {x : Desk} {t : Task} {m : ℕ}, x.tasks[0]? = some t → emptied t = some m →
      t ≠ .lockVault → Sealed x (.advance 0 (answers true)) :=
    fun ht hm hne => sealed_quiet ht (emptied_not_adds hm) hne
  obtain ⟨hlocked, hdone⟩ := locking_over true
  refine lock_disconnects openDesk List.mem_cons_self (locking true)
    ⟨?_, ?_, ?_, hlock rfl rfl ?_, hlock rfl rfl ?_, hlock rfl rfl ?_, hlock rfl rfl ?_,
      hlock rfl rfl ?_, hlock rfl rfl ?_, hlock rfl rfl ?_, trivial⟩ hlocked hdone
  any_goals exact Task.noConfusion
  · intro t ht
    cases ht
    exact ⟨fun p hp => absurd hp (emptied_not_adds (t := .lockVault) rfl p), fun _ _ => rfl⟩
  · exact sealed_quiet rfl (fun p => (reader_not_adds rfl p).1) Task.noConfusion
  · exact sealed_quiet rfl (fun p => (@reader_not_adds _ hostB 0 rfl p).2)
      Task.noConfusion

/-- An open PTY leaves its connection in the pool. -/
theorem lock_disconnects_fails :
    ¬ ∀ (x : Desk) (es : List Happening), .lockVault ∈ x.tasks →
      (∀ t, .spawn t ∈ es → Fresh t) → .locked ∈ (Crowd.run act x es).tasks →
      (∀ t ∈ (Crowd.run act x es).tasks, Done t) → Disconnected (Crowd.run act x es).shared := by
  intro hall
  obtain ⟨hlocked, hdone⟩ := locking_over false
  have hnone : ∀ t, Event.spawn t ∈ locking false → Fresh t := by
    intro t ht
    simp [locking] at ht
  have hempty := hall openDesk _ List.mem_cons_self hnone hlocked hdone .pool hostB
  have hpool : (Crowd.run act openDesk (locking false)).shared.pool hostB = [0] := rfl
  rw [hpool] at hempty
  cases hempty

end Tethra.VaultLocking
