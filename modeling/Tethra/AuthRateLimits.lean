import Tethra.ServerAuthorization
import Tethra.SlidingWindows

set_option autoImplicit false

/-!
# Attempts to log in

Clients send requests at their own times and with headers of their choice, among everything
else that happens at a server. An attempt that is answered with a token or with 401 has had its
key checked.
-/
namespace Tethra.AuthRateLimits
open DeviceAuth ServerAuthorization SlidingWindows StatefulActions VaultTypes
open AuthenticatedEncryption (Bytes)
open Base64Strings (standard)

variable {χ : Type}

def reachesVerifier : Except StatusCode String → Bool
  | .ok _ => true
  | .error .unauthorized => true
  | _ => false

/-- A request to log in: `ip` is what its headers say. -/
structure Attempt (χ : Type) where
  client : χ
  time : Instant
  process : ℕ
  ip : String
  verified : Bool

structure History (χ : Type) where
  site : Site
  /-- The starts of the server so far. -/
  process : ℕ
  attempts : List (Attempt χ)

def History.start (site : Site) : History χ :=
  ⟨{ site with server := { site.server with hits := fun _ => [] } }, 0, []⟩

section Runs
variable (codecs : Codecs)

def newAttempts (h : History χ) (client : χ) : Step → List (Attempt χ)
  | .login fault headers authKey random =>
    [⟨client, h.site.server.now, h.process, forwardedIp headers,
      reachesVerifier (deviceAuthLogin codecs fault headers authKey random h.site.server).1⟩]
  | _ => []

def step (h : History χ) (request : χ × Step) : History χ where
  site := perform codecs h.site request.2
  process := match request.2 with
    | .restart => h.process + 1
    | _ => h.process
  attempts := h.attempts ++ newAttempts codecs h request.1 request.2

def history (h : History χ) (requests : List (χ × Step)) : History χ :=
  requests.foldl (step codecs) h

end Runs

def inWindow (start : Instant) (a : Attempt χ) : Prop :=
  start ≤ a.time ∧ a.time < start + AUTH_RATE_WINDOW

instance (start : Instant) (a : Attempt χ) : Decidable (inWindow start a) :=
  inferInstanceAs (Decidable (_ ∧ _))

section Clients
variable [DecidableEq χ]

/-- What a client sends in a window. -/
def sent (attempts : List (Attempt χ)) (client : χ) (start : Instant) : List (Attempt χ) :=
  attempts.filter fun a => a.client = client ∧ inWindow start a

def verifications (attempts : List (Attempt χ)) (client : χ) (start : Instant) :
    List (Attempt χ) :=
  attempts.filter fun a => a.client = client ∧ inWindow start a ∧ a.verified = true

/-- The client names one address to one process in each window in which it sends more than
the limit. -/
def Steady (attempts : List (Attempt χ)) (client : χ) : Prop :=
  ∀ start, AUTH_RATE_LIMIT < (sent attempts client start).length →
    ∀ a ∈ sent attempts client start, ∀ b ∈ sent attempts client start,
      a.process = b.process ∧ a.ip = b.ip

end Clients

/-! ## One address of one process -/

def timesOf (attempts : List (Attempt χ)) (process : ℕ) (ip : String) : List Instant :=
  (attempts.filter fun a => a.process = process ∧ a.ip = ip ∧ a.verified = true).map Attempt.time

structure Limited (h : History χ) : Prop where
  tracks : ∀ ip, Tracks AUTH_RATE_LIMIT AUTH_RATE_WINDOW h.site.server.now
    (h.site.server.hits ip) (timesOf h.attempts h.process ip)
  bounded : ∀ process ip start,
    (within AUTH_RATE_WINDOW start (timesOf h.attempts process ip)).length ≤ AUTH_RATE_LIMIT
  begun : ∀ a ∈ h.attempts, a.process ≤ h.process

theorem timesOf_append (xs ys : List (Attempt χ)) (process : ℕ) (ip : String) :
    timesOf (xs ++ ys) process ip = timesOf xs process ip ++ timesOf ys process ip := by
  unfold timesOf
  rw [List.filter_append, List.map_append]

variable {codecs : Codecs} {h : History χ}

theorem Limited.start (site : Site) : Limited (History.start site : History χ) where
  tracks ip := Tracks.start _
  bounded process ip start := Nat.zero_le _
  begun a ha := by cases ha

theorem checkAndRecord_refuses {ip : String} {s : Server}
    (hfull : AUTH_RATE_LIMIT ≤ (recent AUTH_RATE_WINDOW s.now (s.hits ip)).length) :
    checkAndRecord ip s = (.ok false, { s with
      hits := Function.update s.hits ip (recent AUTH_RATE_WINDOW s.now (s.hits ip)) }) :=
  if_pos hfull

theorem checkAndRecord_admits {ip : String} {s : Server}
    (hroom : ¬ AUTH_RATE_LIMIT ≤ (recent AUTH_RATE_WINDOW s.now (s.hits ip)).length) :
    checkAndRecord ip s = (.ok true, { s with
      hits := Function.update s.hits ip (recent AUTH_RATE_WINDOW s.now (s.hits ip) ++ [s.now]) }) :=
  if_neg hroom

theorem deviceAuthLogin_refused {fault : Option ReadFault} {headers : Headers} {authKey : String}
    {random : Bytes} {s t : Server} (hc : checkAndRecord (forwardedIp headers) s = (.ok false, t)) :
    deviceAuthLogin codecs fault headers authKey random s = (.error .tooManyRequests, t) :=
  Action.bind_ok hc

variable (codecs) in
/-- What follows the limiter leaves its memory and the clock. -/
theorem deviceAuthLogin_admitted (fault : Option ReadFault) {headers : Headers} (authKey : String)
    (random : Bytes) {s t : Server} (hc : checkAndRecord (forwardedIp headers) s = (.ok true, t)) :
    (deviceAuthLogin codecs fault headers authKey random s).2.hits = t.hits ∧
      (deviceAuthLogin codecs fault headers authKey random s).2.now = t.now := by
  rw [show deviceAuthLogin codecs fault headers authKey random s = _ from Action.bind_ok hc]
  exact Prod.mk.inj (leaves_checkedLogin (f := fun s => (s.hits, s.now)) (fun _ _ => rfl)
    fault authKey random t)

theorem timesOf_none {process : ℕ} {ip : String} {a : Attempt χ}
    (hne : ¬ (a.process = process ∧ a.ip = ip ∧ a.verified = true)) :
    timesOf [a] process ip = [] := by
  rw [timesOf, List.filter_singleton, decide_eq_false hne]
  rfl

theorem timesOf_one {process : ℕ} {ip : String} {a : Attempt χ}
    (heq : a.process = process ∧ a.ip = ip ∧ a.verified = true) :
    timesOf [a] process ip = [a.time] := by
  rw [timesOf, List.filter_singleton, decide_eq_true heq]
  rfl

/-- The other processes are as they were. -/
theorem Limited.attempt (hl : Limited h) {x : Site} {a : Attempt χ} (hp : a.process = h.process)
    (ht : ∀ ip, Tracks AUTH_RATE_LIMIT AUTH_RATE_WINDOW x.server.now (x.server.hits ip)
      (timesOf h.attempts h.process ip ++ timesOf [a] h.process ip)) :
    Limited ⟨x, h.process, h.attempts ++ [a]⟩ where
  tracks ip := by
    rw [timesOf_append]
    exact ht ip
  bounded process ip start := by
    rw [timesOf_append]
    by_cases hsame : process = h.process
    · rw [hsame]
      exact (ht ip).bounded start
    · rw [timesOf_none (a := a) fun heq => hsame (heq.1.symm.trans hp), List.append_nil]
      exact hl.bounded process ip start
  begun b hb := by
    rcases List.mem_append.1 hb with hb | hb
    · exact hl.begun b hb
    · rw [List.mem_singleton.1 hb]
      exact hp.le

theorem Limited.login (hl : Limited h) (client : χ) (fault : Option ReadFault) (headers : Headers)
    (authKey : String) (random : Bytes) :
    Limited (step codecs h (client, .login fault headers authKey random)) := by
  refine hl.attempt rfl fun ip => ?_
  change Tracks _ _ (deviceAuthLogin codecs fault headers authKey random h.site.server).2.now
    ((deviceAuthLogin codecs fault headers authKey random h.site.server).2.hits ip) _
  by_cases hfull : AUTH_RATE_LIMIT ≤ (recent AUTH_RATE_WINDOW h.site.server.now
      (h.site.server.hits (forwardedIp headers))).length
  · have hc := checkAndRecord_refuses hfull
    rw [deviceAuthLogin_refused hc, timesOf_none fun heq => Bool.noConfusion heq.2.2, List.append_nil]
    dsimp only
    by_cases hip : ip = forwardedIp headers
    · rw [hip, Function.update_self]
      exact (hl.tracks _).refuse
    · rw [Function.update_of_ne hip]
      exact hl.tracks ip
  · have hc := checkAndRecord_admits hfull
    obtain ⟨hhits, hnow⟩ := deviceAuthLogin_admitted codecs fault authKey random hc
    rw [hhits, hnow]
    dsimp only
    by_cases hip : ip = forwardedIp headers
    · rw [hip, Function.update_self]
      cases hv : reachesVerifier
          (deviceAuthLogin codecs fault headers authKey random h.site.server).1 with
      | true =>
        rw [timesOf_one ⟨rfl, rfl, rfl⟩]
        exact (hl.tracks _).admitted (not_le.1 hfull)
      | false =>
        rw [timesOf_none fun heq => Bool.noConfusion heq.2.2, List.append_nil]
        exact (hl.tracks _).pass
    · rw [Function.update_of_ne hip, timesOf_none fun heq => hip heq.2.1.symm, List.append_nil]
      exact hl.tracks ip

/-- Nothing else touches what the limiter remembers. -/
theorem Limited.quiet (hl : Limited h) {x : Site} (hhits : x.server.hits = h.site.server.hits)
    (hnow : h.site.server.now ≤ x.server.now) : Limited ⟨x, h.process, h.attempts ++ []⟩ := by
  rw [List.append_nil]
  refine ⟨fun ip => ?_, hl.bounded, hl.begun⟩
  rw [hhits]
  exact (hl.tracks ip).wait hnow

theorem Limited.restart (hl : Limited h) {x : Site} :
    Limited ⟨x, h.process + 1, h.attempts ++ []⟩ := by
  rw [List.append_nil]
  refine ⟨fun ip => ?_, hl.bounded, fun a ha => (hl.begun a ha).trans (Nat.le_succ _)⟩
  have hnone : timesOf h.attempts (h.process + 1) ip = [] := by
    rw [timesOf, List.filter_eq_nil_iff.2, List.map_nil]
    intro a ha heq
    have hle := hl.begun a ha
    have hsucc := (of_decide_eq_true heq).1
    omega
  change Tracks _ _ _ _ (timesOf h.attempts (h.process + 1) ip)
  rw [hnone]
  exact Tracks.start _

variable (codecs) in
theorem authorize_quiet (fault : Option ReadFault) (headers : Headers) (s : Server) :
    (authorize codecs fault headers s).2.hits = s.hits ∧
      (authorize codecs fault headers s).2.now = s.now :=
  Prod.mk.inj (leaves_authorize (f := fun s => (s.hits, s.now)) (fun _ _ => rfl) fault headers s)

theorem openSave_quiet (i : ℕ) (failed : Bool) (x : Site) :
    (openSave i failed x).server.hits = x.server.hits ∧
      (openSave i failed x).server.now = x.server.now := by
  unfold openSave
  split
  · split <;> exact ⟨rfl, rfl⟩
  · exact ⟨rfl, rfl⟩

variable (codecs) in
theorem writeSave_quiet (i count : ℕ) (failed : Bool) (x : Site) :
    (writeSave codecs i count failed x).server.hits = x.server.hits ∧
      (writeSave codecs i count failed x).server.now = x.server.now := by
  unfold writeSave
  split
  · split <;> exact ⟨rfl, rfl⟩
  · exact ⟨rfl, rfl⟩

variable (codecs) in
theorem server_finishSave (i : ℕ) (failed : Bool) (x : Site) :
    (finishSave codecs i failed x).server = x.server := by
  unfold finishSave
  split
  · split
    · rfl
    · split <;> rfl
  · rfl

variable (codecs) in
theorem server_beginEnroll (i : ℕ) (fault : Option ReadFault) (headers : Headers)
    (authKey : String) (salt : Bytes) (unixNow : ℕ) (x : Site) :
    (beginEnroll codecs i fault headers authKey salt unixNow x).server = x.server := by
  unfold beginEnroll
  split <;> rfl

theorem Limited.step (hl : Limited h) (request : χ × Step) : Limited (step codecs h request) := by
  obtain ⟨client, request⟩ := request
  cases request with
  | enroll i fault headers authKey salt unixNow =>
    have hs := server_beginEnroll codecs i fault headers authKey salt unixNow h.site
    exact hl.quiet (congrArg Server.hits hs) (congrArg Server.now hs).ge
  | openFile i failed =>
    obtain ⟨hhits, hnow⟩ := openSave_quiet i failed h.site
    exact hl.quiet hhits hnow.ge
  | writeSome i count failed =>
    obtain ⟨hhits, hnow⟩ := writeSave_quiet codecs i count failed h.site
    exact hl.quiet hhits hnow.ge
  | finish i failed =>
    have hs := server_finishSave codecs i failed h.site
    exact hl.quiet (congrArg Server.hits hs) (congrArg Server.now hs).ge
  | request fault headers =>
    obtain ⟨hhits, hnow⟩ := authorize_quiet codecs fault headers h.site.server
    exact hl.quiet hhits hnow.ge
  | login fault headers authKey random => exact hl.login client fault headers authKey random
  | wait time => exact hl.quiet rfl (Nat.le_add_right _ _)
  | external file => exact hl.quiet rfl (le_refl _)
  | restart => exact hl.restart

theorem Limited.history (hl : Limited h) (requests : List (χ × Step)) :
    Limited (history codecs h requests) := by
  induction requests generalizing h with
  | nil => exact hl
  | cons request requests ih => exact ih (hl.step request)

/-! ## One client -/

section Clients
variable [DecidableEq χ]

omit [DecidableEq χ] in
theorem length_within_timesOf (attempts : List (Attempt χ)) (process : ℕ) (ip : String)
    (start : Instant) :
    (within AUTH_RATE_WINDOW start (timesOf attempts process ip)).length =
      attempts.countP fun a =>
        inWindow start a ∧ a.process = process ∧ a.ip = ip ∧ a.verified = true := by
  rw [within, timesOf, List.filter_map, List.length_map, List.filter_filter,
    ← List.countP_eq_length_filter]
  refine List.countP_congr fun a _ => ?_
  simp only [Bool.decide_and, Bool.and_eq_true, decide_eq_true_eq, Function.comp_apply, inWindow]
  exact decide_eq_true_iff.symm

theorem Limited.verifications_le (hl : Limited h) {client : χ} (hsteady : Steady h.attempts client)
    (start : Instant) :
    (verifications h.attempts client start).length ≤ AUTH_RATE_LIMIT := by
  by_cases hmany : AUTH_RATE_LIMIT < (sent h.attempts client start).length
  · have hsent : ∀ a ∈ verifications h.attempts client start,
        a ∈ sent h.attempts client start := by
      intro a ha
      obtain ⟨hmem, ha⟩ := List.mem_filter.1 ha
      obtain ⟨hclient, hin, -⟩ := of_decide_eq_true ha
      exact List.mem_filter.2 ⟨hmem, decide_eq_true ⟨hclient, hin⟩⟩
    rcases hnil : verifications h.attempts client start with - | ⟨a, rest⟩
    · exact Nat.zero_le _
    · have ha : a ∈ verifications h.attempts client start := hnil ▸ List.mem_cons_self
      rw [← hnil]
      refine le_trans ?_ (hl.bounded a.process a.ip start)
      rw [length_within_timesOf, verifications, ← List.countP_eq_length_filter]
      refine List.countP_mono_left fun b hb hcounted => ?_
      obtain ⟨hclient, hin, hverified⟩ := of_decide_eq_true hcounted
      obtain ⟨hprocess, hip⟩ := hsteady start hmany b
        (List.mem_filter.2 ⟨hb, decide_eq_true ⟨hclient, hin⟩⟩) a (hsent a ha)
      exact decide_eq_true ⟨hin, hprocess, hip, hverified⟩
  · refine le_trans ?_ (not_lt.1 hmany)
    rw [verifications, sent, ← List.countP_eq_length_filter, ← List.countP_eq_length_filter]
    refine List.countP_mono_left fun a _ hcounted => ?_
    obtain ⟨hclient, hin, -⟩ := of_decide_eq_true hcounted
    exact decide_eq_true ⟨hclient, hin⟩

theorem auth_rate_limited (site : Site) (requests : List (χ × Step)) (client : χ)
    (hsteady : Steady (history codecs (History.start site) requests).attempts client)
    (start : Instant) :
    (verifications (history codecs (History.start site) requests).attempts client start).length ≤
      AUTH_RATE_LIMIT :=
  ((Limited.start site).history requests).verifications_le hsteady start

end Clients

/-! ## A client that changes its header -/

section Samples

def enrolledSite : Site where
  server := ⟨none, false, some (sampleText (sampleRecord 1)), fun _ => none, fun _ => [], 0⟩
  saves := fun _ => none
  enrolled := [sampleRecord 1]

/-- A wrong key, from an address of the client's own making. -/
def guess (ip : String) : Unit × Step :=
  ((), .login none ⟨none, some ip⟩ (standard.encode (sampleAuthKey 2)) [])

def guesses : List (Unit × Step) :=
  ["10.0.0.1", "10.0.0.2", "10.0.0.3", "10.0.0.4", "10.0.0.5", "10.0.0.6"].map guess

theorem auth_rate_limited_fails :
    (verifications (history sampleCodecs (History.start enrolledSite) guesses).attempts () 0).length
      = 6 ∧ AUTH_RATE_LIMIT < 6 := by
  decide +kernel

def sameAddress : List (Unit × Step) := List.replicate 6 (guess "10.0.0.1")

theorem auth_rate_limited_sample :
    (verifications (history sampleCodecs (History.start enrolledSite) sameAddress).attempts ()
      0).length ≤ AUTH_RATE_LIMIT := by
  have hone : ∀ a ∈ (history sampleCodecs (History.start enrolledSite) sameAddress).attempts,
      a.process = 0 ∧ a.ip = "10.0.0.1" := by decide +kernel
  refine auth_rate_limited enrolledSite sameAddress () (fun start _ a ha b hb => ?_) 0
  obtain ⟨hap, hai⟩ := hone a (List.mem_filter.1 ha).1
  obtain ⟨hbp, hbi⟩ := hone b (List.mem_filter.1 hb).1
  exact ⟨hap.trans hbp.symm, hai.trans hbi.symm⟩

end Samples

end Tethra.AuthRateLimits
