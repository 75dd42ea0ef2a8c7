import Tethra.HostSessions
import Tethra.SharedTasks

set_option autoImplicit false

/-!
# Trust on first use

`SessionManager::connect` and `TunnelOpener::connect` as tasks over the stored hosts. The host is
read first; the key the server presents is checked against what was read, and the answer of the
policy is stored when it comes.
-/
namespace Tethra.HostKeyTrust
open HostSessions SharedTasks VaultRecords VaultTypes

abbrev Hosts := Uuid → Option Host

/-- What the store, the server and the user answer to one attempt. -/
structure Answers where
  credentials : Except Error AuthMaterial
  presented : Except Error PresentedHostKey
  decision : Except Error HostKeyDecision
  stored : Except Error Unit
  authenticated : Except Error Bool

inductive Phase where
  | reading
  /-- Connected to the server with the key that was read. -/
  | checking (known : Option KnownHostKey)
  /-- The policy has been asked. -/
  | deciding (presented : PresentedHostKey)
  | accepted (presented : PresentedHostKey) (remember : Option KnownHostKey)
  | authenticating (presented : PresentedHostKey)
  | finished (r : Except Error Unit)

structure Attempt where
  hostId : Uuid
  answers : Answers
  phase : Phase

def SessionManager.connect (hostId : Uuid) (answers : Answers) : Attempt :=
  ⟨hostId, answers, .reading⟩

def TunnelOpener.connect (hostId : Uuid) (answers : Answers) : Attempt :=
  ⟨hostId, answers, .reading⟩

def known (s : Hosts) (id : Uuid) : Option KnownHostKey := (s id).bind fun host => host.knownHostKey

def setKnownHostKey (id : Uuid) (key : KnownHostKey) (s : Hosts) : Hosts :=
  match s id with
  | some host => Function.update s id (some { host with knownHostKey := some key })
  | none => s

def Attempt.to (a : Attempt) (phase : Phase) : Attempt := { a with phase := phase }

def Attempt.fail (a : Attempt) (e : Error) : Attempt := a.to (.finished (.error e))

/-- The answer of the policy to a key that no stored key speaks for. -/
def decide (a : Attempt) (presented : PresentedHostKey) : Attempt :=
  match a.answers.decision with
  | .ok .acceptAndRemember => a.to (.accepted presented (some presented.toKnown))
  | .ok .acceptOnce => a.to (.accepted presented none)
  | .ok .reject => a.fail hostKeyRejected
  | .error e => a.fail e

/-- `check_server_key` of both handlers, up to the policy. -/
def check (a : Attempt) (stored : Option KnownHostKey) : Attempt :=
  match a.answers.presented with
  | .error e => a.fail e
  | .ok presented =>
    match stored with
    | some key =>
      if Presents key presented then a.to (.accepted presented none) else a.fail hostKeyMismatch
    | none => a.to (.deciding presented)

def readHost (s : Hosts) (a : Attempt) : Attempt :=
  match s a.hostId, a.answers.credentials with
  | none, _ => a.fail (hostNotFound a.hostId)
  | some _, .error e => a.fail e
  | some host, .ok _ => a.to (.checking host.knownHostKey)

def store (s : Hosts) (a : Attempt) (presented : PresentedHostKey) (key : KnownHostKey) :
    Effect Hosts Attempt :=
  match s a.hostId, a.answers.stored with
  | none, _ => ⟨s, a.fail (hostNotFound a.hostId), []⟩
  | some _, .error e => ⟨s, a.fail e, []⟩
  | some _, .ok _ => ⟨setKnownHostKey a.hostId key s, a.to (.authenticating presented), []⟩

def authenticate (a : Attempt) : Attempt :=
  match a.answers.authenticated with
  | .error e => a.fail e
  | .ok false => a.fail authenticationFailed
  | .ok true => a.to (.finished (.ok ()))

def act (_ : Unit) (s : Hosts) (a : Attempt) : Effect Hosts Attempt :=
  match a.phase with
  | .reading => ⟨s, readHost s a, []⟩
  | .checking stored => ⟨s, check a stored, []⟩
  | .deciding presented => ⟨s, decide a presented, []⟩
  | .accepted presented (some key) => store s a presented key
  | .accepted presented none => ⟨s, a.to (.authenticating presented), []⟩
  | .authenticating _ => ⟨s, authenticate a, []⟩
  | .finished _ => ⟨s, a, []⟩

abbrev Attempts := Crowd Hosts Attempt

abbrev Happening := Event Attempt Unit

/-- The two steps of the check are `check_server_key`. -/
theorem check_spec (a : Attempt) (stored : Option KnownHostKey) {presented : PresentedHostKey}
    (hpresented : a.answers.presented = .ok presented) :
    (match check a stored with
      | ⟨_, _, .deciding q⟩ => decide a q
      | b => b) =
      match checkServerKey stored presented a.answers.decision with
      | .ok remember => a.to (.accepted presented remember)
      | .error e => a.fail e := by
  cases stored with
  | some key =>
    by_cases h : Presents key presented <;>
      simp [check, hpresented, checkServerKey, h, Attempt.to, Attempt.fail]
  | none =>
    simp only [check, hpresented, Attempt.to, decide, checkServerKey]
    rcases a.answers.decision with e | d
    · rfl
    · cases d <;> rfl

/-! ## What an attempt may go on with -/

/-- The policy lets a presented key pass. -/
def Accepts (a : Attempt) : Prop :=
  a.answers.decision = .ok .acceptAndRemember ∨ a.answers.decision = .ok .acceptOnce

/-- The attempt has read the host and may go on to authenticate to a server with this key. -/
def MayPass (a : Attempt) (q : PresentedHostKey) : Prop :=
  match a.phase with
  | .reading => False
  | .checking (some key) => a.answers.presented = .ok q ∧ Presents key q
  | .checking none => a.answers.presented = .ok q ∧ Accepts a
  | .deciding p => p = q ∧ Accepts a
  | .accepted p _ => p = q
  | .authenticating p => p = q
  | .finished _ => False

/-- A key is stored while no other attempt that has read the host may pass with another key. -/
def Undisputed (x : Attempts) : Happening → Prop
  | .spawn p => p.phase = .reading
  | .advance i _ => ∀ a, x.tasks[i]? = some a → ∀ p key, a.phase = .accepted p (some key) →
      a.answers.stored = .ok () → ∀ j b, j ≠ i → x.tasks[j]? = some b → b.hostId = a.hostId →
      ∀ q, MayPass b q → Presents key q

def SameKey (k l : KnownHostKey) : Prop :=
  k.algorithm = l.algorithm ∧ k.fingerprintSha256 = l.fingerprintSha256

/-- A remembered key stays the key of its host. -/
def KeysKept (s t : Hosts) : Prop :=
  ∀ id k, known s id = some k → ∃ l, known t id = some l ∧ SameKey k l

/-- The task at `i`, if it is about to authenticate, was presented the remembered key. -/
def KnownServer (x : Attempts) (i : ℕ) : Prop :=
  ∀ a p, x.tasks[i]? = some a → a.phase = .authenticating p →
    ∀ k, known x.shared a.hostId = some k → Presents k p

/-- Both halves of trust on first use at each event of a run. -/
def Trusts (x : Attempts) (es : List Happening) : Prop :=
  ∀ before e after, es = before ++ e :: after →
    KeysKept (Crowd.run act x before).shared
      (Crowd.exec act (Crowd.run act x before) e).shared ∧
    ∀ i, e = .advance i () → KnownServer (Crowd.run act x before) i

structure Consistent (s : Hosts) (a : Attempt) : Prop where
  passes : ∀ k, known s a.hostId = some k → ∀ q, MayPass a q → Presents k q
  remembers : ∀ p key, a.phase = .accepted p (some key) → key = p.toKnown

theorem SameKey.refl (k : KnownHostKey) : SameKey k k := ⟨rfl, rfl⟩

theorem KeysKept.refl (s : Hosts) : KeysKept s s := fun _ k hk => ⟨k, hk, .refl k⟩

theorem known_setKnownHostKey_self {s : Hosts} {id : Uuid} {host : Host} (h : s id = some host)
    (key : KnownHostKey) : known (setKnownHostKey id key s) id = some key := by
  simp [known, setKnownHostKey, h]

theorem known_setKnownHostKey_of_ne {s : Hosts} {id other : Uuid} (h : other ≠ id)
    (key : KnownHostKey) : known (setKnownHostKey id key s) other = known s other := by
  unfold setKnownHostKey
  split
  · simp [known, Function.update_of_ne h]
  · rfl

/-- An attempt in a phase in which it may pass only as before. -/
theorem Consistent.to {s : Hosts} {a : Attempt} (ha : Consistent s a) {phase : Phase}
    (hpass : ∀ q, MayPass (a.to phase) q → MayPass a q)
    (hremember : ∀ p key, phase = .accepted p (some key) → key = p.toKnown) :
    Consistent s (a.to phase) :=
  ⟨fun k hk q hq => ha.passes k hk q (hpass q hq), hremember⟩

theorem Consistent.fail {s : Hosts} {a : Attempt} (ha : Consistent s a) (e : Error) :
    Consistent s (a.fail e) :=
  ha.to (fun _ hq => hq.elim) fun _ _ h => by cases h

theorem consistent_readHost {s : Hosts} {a : Attempt} (ha : Consistent s a) :
    Consistent s (readHost s a) := by
  unfold readHost
  split
  · exact ha.fail _
  · exact ha.fail _
  · rename_i host _ hhost _
    refine ⟨fun k hk q hq => ?_, fun _ _ h => by cases h⟩
    change known s a.hostId = some k at hk
    rw [known, hhost, Option.bind_some] at hk
    rw [Attempt.to, MayPass, hk] at hq
    exact hq.2

theorem consistent_check {s : Hosts} {a : Attempt} (ha : Consistent s a)
    {stored : Option KnownHostKey} (hphase : a.phase = .checking stored) :
    Consistent s (check a stored) := by
  unfold check
  split
  · exact ha.fail _
  · rename_i presented hpresented
    cases stored with
    | some key =>
      by_cases h : Presents key presented
      · simp only [h, if_true]
        refine ha.to (fun q hq => ?_) fun _ _ h => by cases h
        cases hq
        rw [MayPass, hphase]
        exact ⟨hpresented, h⟩
      · simp only [h, if_false]
        exact ha.fail _
    | none =>
      refine ha.to (fun q hq => ?_) fun _ _ h => by cases h
      obtain ⟨rfl, haccepts⟩ := hq
      rw [MayPass, hphase]
      exact ⟨hpresented, haccepts⟩

theorem consistent_decide {s : Hosts} {a : Attempt} (ha : Consistent s a)
    {presented : PresentedHostKey} (hphase : a.phase = .deciding presented) :
    Consistent s (decide a presented) := by
  unfold decide
  split
  · rename_i hdecision
    refine ha.to (fun q hq => ?_) fun p key h => by cases h; rfl
    rw [MayPass, hphase]
    exact ⟨hq, .inl hdecision⟩
  · rename_i hdecision
    refine ha.to (fun q hq => ?_) fun p key h => by cases h
    rw [MayPass, hphase]
    exact ⟨hq, .inr hdecision⟩
  · exact ha.fail _
  · exact ha.fail _

theorem consistent_authenticate {s : Hosts} {a : Attempt} (ha : Consistent s a) :
    Consistent s (authenticate a) := by
  unfold authenticate
  split
  · exact ha.fail _
  · exact ha.fail _
  · exact ha.to (fun _ hq => hq.elim) fun _ _ h => by cases h

/-- Storing: nothing, or the key with the attempt about to authenticate. -/
theorem store_cases (s : Hosts) (a : Attempt) (p : PresentedHostKey) (key : KnownHostKey) :
    (∃ e, store s a p key = ⟨s, a.fail e, []⟩) ∨
    (a.answers.stored = .ok () ∧ (∃ host, s a.hostId = some host) ∧
      store s a p key = ⟨setKnownHostKey a.hostId key s, a.to (.authenticating p), []⟩) := by
  unfold store
  split
  · exact .inl ⟨_, rfl⟩
  · exact .inl ⟨_, rfl⟩
  · rename_i host _ hhost hstored
    exact .inr ⟨hstored, ⟨host, hhost⟩, rfl⟩

theorem keysKept_store {s : Hosts} {a : Attempt} (ha : Consistent s a) {p : PresentedHostKey}
    {key : KnownHostKey} (hphase : a.phase = .accepted p (some key)) :
    KeysKept s (store s a p key).shared := by
  obtain ⟨e, h⟩ | ⟨-, ⟨host, hhost⟩, h⟩ := store_cases s a p key
  · rw [h]
    exact .refl s
  · rw [h]
    intro id k hk
    by_cases hid : id = a.hostId
    · subst hid
      refine ⟨key, known_setKnownHostKey_self hhost key, ?_⟩
      have hpass : MayPass a p := by rw [MayPass, hphase]
      rw [ha.remembers p key hphase]
      exact ha.passes k hk p hpass
    · refine ⟨k, ?_, .refl k⟩
      rw [known_setKnownHostKey_of_ne hid]
      exact hk

/-- What one action changes in the store. -/
theorem act_keysKept {s : Hosts} {a : Attempt} (ha : Consistent s a) :
    KeysKept s (act () s a).shared := by
  rcases hphase : a.phase with _ | stored | p | ⟨p, _ | key⟩ | p | r
  case accepted.some =>
    simp only [act, hphase]
    exact keysKept_store ha hphase
  all_goals
    simp only [act, hphase]
    exact .refl s

/-- An undisputed event keeps all attempts consistent. -/
theorem consistent_exec {x : Attempts} (hx : x.Holds (fun _ => True) Consistent) {e : Happening}
    (he : Undisputed x e) : (Crowd.exec act x e).Holds (fun _ => True) Consistent := by
  cases e with
  | spawn a =>
    refine hx.spawn ⟨fun k _ q hq => ?_, fun p key h => ?_⟩
    · rw [MayPass, he] at hq
      exact hq.elim
    · rw [he] at h
      cases h
  | advance i o =>
    refine hx.advance i o fun a ha hc => ?_
    have hundisputed := he a ha
    rcases hphase : a.phase with _ | stored | p | ⟨p, _ | key⟩ | p | r
    · simp only [act, hphase]
      exact ⟨trivial, consistent_readHost hc, by simp, fun _ _ _ _ hb => hb⟩
    · simp only [act, hphase]
      exact ⟨trivial, consistent_check hc hphase, by simp, fun _ _ _ _ hb => hb⟩
    · simp only [act, hphase]
      exact ⟨trivial, consistent_decide hc hphase, by simp, fun _ _ _ _ hb => hb⟩
    · simp only [act, hphase]
      refine ⟨trivial, ?_, by simp, fun _ _ _ _ hb => hb⟩
      refine hc.to (fun q hq => ?_) fun _ _ h => by cases h
      rw [MayPass, hphase]
      exact hq
    · simp only [act, hphase]
      obtain ⟨e, h⟩ | ⟨hstored, ⟨host, hhost⟩, h⟩ := store_cases x.shared a p key
      · rw [h]
        exact ⟨trivial, hc.fail e, by simp, fun _ _ _ _ hb => hb⟩
      · rw [h]
        refine ⟨trivial, ⟨fun k hk q hq => ?_, fun _ _ h => by cases h⟩, by simp, ?_⟩
        · change known _ a.hostId = some k at hk
          rw [known_setKnownHostKey_self hhost, Option.some.injEq] at hk
          cases hq
          rw [← hk, hc.remembers p key hphase]
          exact ⟨rfl, rfl⟩
        · intro j b hji hb hcb
          refine ⟨fun k hk q hq => ?_, hcb.remembers⟩
          by_cases hid : b.hostId = a.hostId
          · rw [hid, known_setKnownHostKey_self hhost, Option.some.injEq] at hk
            rw [← hk]
            exact hundisputed p key hphase hstored j b hji hb hid q hq
          · rw [known_setKnownHostKey_of_ne hid] at hk
            exact hcb.passes k hk q hq
    · simp only [act, hphase]
      exact ⟨trivial, consistent_authenticate hc, by simp, fun _ _ _ _ hb => hb⟩
    · simp only [act, hphase]
      exact ⟨trivial, hc, by simp, fun _ _ _ _ hb => hb⟩

theorem keysKept_exec {x : Attempts} (hx : x.Holds (fun _ => True) Consistent) (e : Happening) :
    KeysKept x.shared (Crowd.exec act x e).shared := by
  cases e with
  | spawn a => exact .refl _
  | advance i o =>
    rcases hi : x.tasks[i]? with _ | a
    · rw [Crowd.exec_absent hi]
      exact .refl _
    · rw [Crowd.exec_advance hi]
      exact act_keysKept (hx.2 a (List.mem_of_getElem? hi))

theorem knownServer {x : Attempts} (hx : x.Holds (fun _ => True) Consistent) (i : ℕ) :
    KnownServer x i := by
  intro a p ha hphase k hk
  refine (hx.2 a (List.mem_of_getElem? ha)).passes k hk p ?_
  rw [MayPass, hphase]

/-- Along every run in which each key is stored undisputed, a remembered key is never replaced by
another and no attempt authenticates to a server with another key. -/
theorem trusts (hosts : Hosts) (es : List Happening)
    (hes : Crowd.Follows act Undisputed ⟨hosts, []⟩ es) : Trusts ⟨hosts, []⟩ es := by
  intro before e after hsplit
  subst hsplit
  obtain ⟨hbefore, -⟩ := hes.split
  have hx : (Crowd.run act ⟨hosts, []⟩ before).Holds (fun _ => True) Consistent :=
    hbefore.invariant (fun _ _ hx he => consistent_exec hx he) ⟨trivial, fun _ hp => by cases hp⟩
  exact ⟨keysKept_exec hx e, fun i _ => knownServer hx i⟩

/-! ## Two first connections -/

def boxId : Uuid := ⟨Block.fill 16 7⟩

/-- One host without a key. -/
def newHosts : Hosts := fun id =>
  if id = boxId then
    some {
      id := boxId
      label := "box"
      hostname := "box.example"
      port := 22
      username := "me"
      identityId := none
      jumpHostId := none
      folderId := none
      knownHostKey := none
      tags := []
      color := none
      shellIntegration := .auto
      tunnels := []
      forwardAgent := false
      useDefaultKeys := true
      lastConnectedAt := none }
  else none

def presentedKey (fingerprint : String) : PresentedHostKey :=
  ⟨"ssh-ed25519", fingerprint, "ssh-ed25519 " ++ fingerprint⟩

/-- The server presents the key, the user has it remembered and nothing fails. -/
def remembering (fingerprint : String) : Answers :=
  ⟨.ok .defaultKeys, .ok (presentedKey fingerprint), .ok .acceptAndRemember, .ok (), .ok true⟩

theorem undisputed_alone {x : Attempts} {i : ℕ} (h : ∀ j, j ≠ i → x.tasks[j]? = none) :
    Undisputed x (.advance i ()) := by
  intro a _ p key _ _ j b hji hb
  rw [h j hji] at hb
  cases hb

def firstConnection : List Happening :=
  .spawn (SessionManager.connect boxId (remembering "SHA256:a")) ::
    List.replicate 5 (.advance 0 ())

theorem trusts_first : Trusts ⟨newHosts, []⟩ firstConnection := by
  have halone : ∀ {x : Attempts}, x.tasks.length = 1 → Undisputed x (.advance 0 ()) := by
    intro x hx
    apply undisputed_alone
    intro j hj
    exact List.getElem?_eq_none (by omega)
  apply trusts
  exact ⟨rfl, halone rfl, halone rfl, halone rfl, halone rfl, halone rfl, trivial⟩

/-- The tunnel has been answered before the terminal stores its key. -/
def twoConnections : List Happening :=
  [.spawn (SessionManager.connect boxId (remembering "SHA256:a")),
    .spawn (TunnelOpener.connect boxId (remembering "SHA256:b")),
    .advance 0 (), .advance 1 (), .advance 0 (), .advance 1 (), .advance 0 (), .advance 1 (),
    .advance 0 ()]

theorem trusts_fails :
    ¬ ∀ (hosts : Hosts) (es : List Happening), (∀ a, .spawn a ∈ es → a.phase = .reading) →
      Trusts ⟨hosts, []⟩ es := by
  intro hall
  have hfresh : ∀ a, Event.spawn a ∈ twoConnections ++ [.advance 1 ()] → a.phase = .reading := by
    intro a ha
    simp only [twoConnections, List.cons_append, List.nil_append, List.mem_cons,
      Event.spawn.injEq, reduceCtorEq, or_false, List.not_mem_nil] at ha
    obtain rfl | rfl := ha <;> rfl
  obtain ⟨hkept, -⟩ := hall newHosts _ hfresh twoConnections (.advance 1 ()) [] rfl
  have hbefore : known (Crowd.run act ⟨newHosts, []⟩ twoConnections).shared boxId =
      some (presentedKey "SHA256:a").toKnown := by decide +kernel
  have hafter : known (Crowd.exec act (Crowd.run act ⟨newHosts, []⟩ twoConnections)
      (.advance 1 ())).shared boxId = some (presentedKey "SHA256:b").toKnown := by decide +kernel
  obtain ⟨l, hl, -, hsame⟩ := hkept boxId _ hbefore
  rw [hafter, Option.some.injEq] at hl
  subst hl
  revert hsame
  decide

end Tethra.HostKeyTrust
