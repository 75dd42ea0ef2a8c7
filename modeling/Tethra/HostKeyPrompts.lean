import Tethra.HostSessions
import Tethra.Transducers

set_option autoImplicit false

/-!
# Questions about host keys

`decide` asks the user about a key and waits. A response, the end of a minute or a lock ends the
wait. Each question has a channel of its own, whose sender is in a map until a response takes it.
-/
namespace Tethra.HostKeyPrompts
open HostSessions Transducers

/-- Where the sender of a question is, or what it has sent. -/
inductive Sender where
  | unmade
  | held
  | taken (accepted : Bool)
  | sent (accepted : Bool)
  | dropped
  deriving DecidableEq

/-- How far `decide` has come with a question. -/
inductive Phase where
  | inserted
  /-- No window could be told of the question. -/
  | untold
  | waiting
  /-- The minute is over, and the receiver is not dropped yet. -/
  | expired
  | answered (accepted : Bool)
  | returned (decision : HostKeyDecision)
  deriving DecidableEq

def Phase.receives : Phase → Bool
  | .answered _ | .returned _ => false
  | _ => true

/-- What there is of one identifier: whether it is a key of the map, the sender, the call. -/
structure Prompt where
  pending : Bool
  sender : Sender
  phase : Option Phase
  deriving DecidableEq

def Prompt.new : Prompt := ⟨false, .unmade, none⟩

inductive Action where
  | insert
  | emit (told : Bool)
  | receive
  | expire
  | close
  /-- The last removal of `decide`, and its return. -/
  | finish
  /-- `respond` takes the sender out of the map. -/
  | remove (accepted : Bool)
  | send
  deriving DecidableEq

inductive Outcome where
  | decided (decision : HostKeyDecision)
  | responded (accepted : Bool) (result : Except String Unit)

def alreadyAnswered : String := "host-key prompt expired or was already answered"

def noLongerAwaits : String := "connection no longer awaits this prompt"

/-! ## One question -/

namespace Prompt

/-- A sender that leaves the map without being taken is dropped. -/
def release (p : Prompt) : Prompt :=
  { p with pending := false, sender := if p.sender = .held then .dropped else p.sender }

/-- Identifiers are drawn anew. -/
def insert (p : Prompt) : Prompt :=
  match p.phase with
  | none => ⟨true, .held, some .inserted⟩
  | some _ => p

def emit (p : Prompt) (told : Bool) : Prompt :=
  match p.phase with
  | some .inserted => { p with phase := some (if told then .waiting else .untold) }
  | _ => p

def receive (p : Prompt) : Prompt :=
  match p.phase, p.sender with
  | some .waiting, .sent accepted => { p with phase := some (.answered accepted) }
  | some .waiting, .dropped => { p with phase := some (.answered false) }
  | _, _ => p

def expire (p : Prompt) : Prompt :=
  match p.phase with
  | some .waiting => { p with phase := some .expired }
  | _ => p

def close (p : Prompt) : Prompt :=
  match p.phase with
  | some .expired => { p with phase := some (.answered false) }
  | _ => p

def decision (accepted : Bool) : HostKeyDecision :=
  if accepted then .acceptAndRemember else .reject

def finish (p : Prompt) : Prompt × List Outcome :=
  match p.phase with
  | some .untold => ({ p.release with phase := some (.returned .reject) }, [.decided .reject])
  | some (.answered accepted) =>
    ({ p.release with phase := some (.returned (decision accepted)) },
      [.decided (decision accepted)])
  | _ => (p, [])

def remove (p : Prompt) (accepted : Bool) : Prompt × List Outcome :=
  if p.pending then ({ p with pending := false, sender := .taken accepted }, [])
  else (p, [.responded accepted (.error alreadyAnswered)])

def send (p : Prompt) : Prompt × List Outcome :=
  match p.sender with
  | .taken accepted =>
    if p.phase.any Phase.receives then
      ({ p with sender := .sent accepted }, [.responded accepted (.ok ())])
    else ({ p with sender := .dropped }, [.responded accepted (.error noLongerAwaits)])
  | _ => (p, [])

def act (p : Prompt) : Action → Prompt × List Outcome
  | .insert => (p.insert, [])
  | .emit told => (p.emit told, [])
  | .receive => (p.receive, [])
  | .expire => (p.expire, [])
  | .close => (p.close, [])
  | .finish => p.finish
  | .remove accepted => p.remove accepted
  | .send => p.send

/-- Without an action the map is cleared. -/
def machine : Transducer Prompt (Option Action) Outcome :=
  ⟨fun p a => a.elim (p.release, []) p.act⟩

end Prompt

/-! ## What holds of a question -/

def Outcome.agreed : Outcome → Option Bool
  | .responded accepted (.ok ()) => some accepted
  | _ => none

/-- The responses that were told that they counted. -/
def agreed (log : List Outcome) : List Bool := log.filterMap Outcome.agreed

def Outcome.verdict : Outcome → Option HostKeyDecision
  | .decided decision => some decision
  | _ => none

def verdicts (log : List Outcome) : List HostKeyDecision := log.filterMap Outcome.verdict

/-- What a sender has sent. -/
def Sender.value : Sender → List Bool
  | .sent accepted => [accepted]
  | _ => []

def Phase.verdict : Phase → List HostKeyDecision
  | .returned decision => [decision]
  | _ => []

/-- Whether the call has come to accept the key. -/
def Phase.accepts : Phase → Bool
  | .answered accepted => accepted
  | .returned decision => decision != .reject
  | _ => false

namespace Prompt

def verdict (p : Prompt) : List HostKeyDecision := p.phase.elim [] Phase.verdict

structure Inv (p : Prompt) (log : List Outcome) : Prop where
  held : p.pending = true ↔ p.sender = .held
  unmade : p.sender = .unmade ↔ p.phase = none
  live : p.pending = true → p.verdict = []
  accepts : p.phase.any Phase.accepts = true → p.sender = .sent true
  counted : agreed log = p.sender.value
  returned : verdicts log = p.verdict
  once : HostKeyDecision.acceptOnce ∉ verdicts log

theorem verdicts_responded (log : List Outcome) (accepted : Bool) (result : Except String Unit) :
    verdicts (log ++ [.responded accepted result]) = verdicts log := by
  rw [verdicts, List.filterMap_append]
  exact List.append_nil _

theorem agreed_responded (log : List Outcome) (accepted : Bool) (result : Except String Unit) :
    agreed (log ++ [.responded accepted result]) =
      agreed log ++ (Outcome.responded accepted result).agreed.toList := by
  rw [agreed, List.filterMap_append, List.filterMap_cons]
  cases (Outcome.responded accepted result).agreed <;> rfl

theorem inv_new : Prompt.new.Inv [] := by
  constructor <;> simp [Prompt.new, agreed, verdicts, Sender.value, verdict]

section
variable {p : Prompt} {log : List Outcome}

theorem Inv.release (h : p.Inv log) : p.release.Inv log := by
  obtain ⟨pending, sender, phase⟩ := p
  obtain ⟨hheld, hunmade, hlive, haccepts, hcounted, hreturned, honce⟩ := h
  cases sender <;> constructor <;> simp_all [Prompt.release, Sender.value, verdict]

/-- What a call does before it returns leaves map, sender and log alone. -/
theorem Inv.goes {phase next : Phase} (h : p.Inv log) (hphase : p.phase = some phase)
    (hopen : phase.verdict = []) (hnext : next.verdict = [])
    (haccepts : next.accepts = true → p.sender = .sent true) :
    ({ p with phase := some next } : Prompt).Inv log := by
  have hverdict : p.verdict = [] := by rw [verdict, hphase]; exact hopen
  have hunmade : p.sender ≠ .unmade := fun hs => by
    have hnone := h.unmade.1 hs
    rw [hphase] at hnone
    cases hnone
  refine ⟨h.held, by simp [hunmade], fun _ => hnext, haccepts, h.counted, ?_, h.once⟩
  rw [h.returned, hverdict]
  exact hnext.symm

theorem Inv.insert (h : p.Inv log) : p.insert.Inv log := by
  unfold Prompt.insert
  split
  · rename_i hphase
    have hsender : p.sender = .unmade := h.unmade.2 hphase
    have hverdict : p.verdict = [] := by rw [verdict, hphase]; rfl
    have hcounted := h.counted
    have hreturned := h.returned
    rw [hsender] at hcounted
    rw [hverdict] at hreturned
    exact ⟨by simp, by simp, fun _ => rfl, fun ha => (by cases ha), hcounted, hreturned, h.once⟩
  · exact h

theorem Inv.emit (h : p.Inv log) (told : Bool) : (p.emit told).Inv log := by
  unfold Prompt.emit
  split
  · rename_i hphase
    cases told <;> exact h.goes hphase rfl rfl (fun ha => by cases ha)
  · exact h

theorem Inv.receive (h : p.Inv log) : p.receive.Inv log := by
  unfold Prompt.receive
  split
  · rename_i hphase hsender
    refine h.goes hphase rfl rfl fun ha => ?_
    rw [hsender]
    exact congrArg Sender.sent ha
  · rename_i hphase hsender
    exact h.goes hphase rfl rfl (fun ha => by cases ha)
  · exact h

theorem Inv.expire (h : p.Inv log) : p.expire.Inv log := by
  unfold Prompt.expire
  split
  · rename_i hphase
    exact h.goes hphase rfl rfl (fun ha => by cases ha)
  · exact h

theorem Inv.close (h : p.Inv log) : p.close.Inv log := by
  unfold Prompt.close
  split
  · rename_i hphase
    exact h.goes hphase rfl rfl (fun ha => by cases ha)
  · exact h

/-- A call returns once, and accepts only what it has received. -/
theorem Inv.returns {phase : Phase} {d : HostKeyDecision} (h : p.Inv log)
    (hphase : p.phase = some phase) (hopen : phase.verdict = []) (honce : d ≠ .acceptOnce)
    (haccepts : d ≠ .reject → p.sender = .sent true) :
    ({ p.release with phase := some (.returned d) } : Prompt).Inv (log ++ [.decided d]) := by
  have hverdict : p.verdict = [] := by rw [verdict, hphase]; exact hopen
  have hunmade : p.sender ≠ .unmade := fun hs => by
    have hnone := h.unmade.1 hs
    rw [hphase] at hnone
    cases hnone
  have hrelease := h.release
  have hlast : verdicts (log ++ [.decided d]) = [d] := by
    rw [verdicts, List.filterMap_append, ← verdicts, h.returned, hverdict]
    rfl
  refine ⟨hrelease.held, ?_, fun hp => ?_, fun ha => ?_, ?_, hlast, ?_⟩
  · refine iff_of_false (fun hs => ?_) (by simp)
    have hsender : (if p.sender = .held then Sender.dropped else p.sender) = .unmade := hs
    split at hsender
    · cases hsender
    · exact hunmade hsender
  · cases hp
  · have hsent : p.sender = .sent true := haccepts (by simpa [Phase.accepts] using ha)
    simp [Prompt.release, hsent]
  · rw [agreed, List.filterMap_append, ← agreed, hrelease.counted]
    exact List.append_nil _
  · rw [hlast]
    simpa using honce.symm

theorem Inv.finish (h : p.Inv log) : p.finish.1.Inv (log ++ p.finish.2) := by
  unfold Prompt.finish
  split
  · rename_i hphase
    exact h.returns hphase rfl (by decide) (fun hd => absurd rfl hd)
  · rename_i accepted hphase
    refine h.returns hphase rfl (by cases accepted <;> decide) fun hd => ?_
    have ha : p.phase.any Phase.accepts = true := by
      rw [hphase]
      cases accepted with
      | true => rfl
      | false => exact absurd rfl hd
    exact h.accepts ha
  · rw [List.append_nil]
    exact h

/-- A sender in the map has sent nothing. -/
theorem Inv.remove (h : p.Inv log) (accepted : Bool) :
    (p.remove accepted).1.Inv (log ++ (p.remove accepted).2) := by
  unfold Prompt.remove
  split
  · rename_i hpending
    have hsender := h.held.1 hpending
    have hunmade := h.unmade
    have hcounted := h.counted
    rw [hsender] at hunmade hcounted
    have haccepts : p.phase.any Phase.accepts ≠ true := fun ha => by
      have hsent := h.accepts ha
      rw [hsender] at hsent
      cases hsent
    rw [List.append_nil]
    exact ⟨by simp, by simpa using hunmade, fun hp => (by cases hp), fun ha => absurd ha haccepts,
      hcounted, h.returned, h.once⟩
  · refine ⟨h.held, h.unmade, h.live, h.accepts, ?_, ?_, ?_⟩
    · rw [agreed_responded, h.counted]
      exact List.append_nil _
    · rw [verdicts_responded]
      exact h.returned
    · rw [verdicts_responded]
      exact h.once

theorem Inv.send (h : p.Inv log) : p.send.1.Inv (log ++ p.send.2) := by
  unfold Prompt.send
  split
  · rename_i accepted hsender
    have hpending : p.pending ≠ true := fun hp => by
      have hheld := h.held.1 hp
      rw [hsender] at hheld
      cases hheld
    have hphase : p.phase ≠ none := fun hn => by
      have hunmade := h.unmade.2 hn
      rw [hsender] at hunmade
      cases hunmade
    have haccepts : p.phase.any Phase.accepts ≠ true := fun ha => by
      have hsent := h.accepts ha
      rw [hsender] at hsent
      cases hsent
    have hcounted := h.counted
    rw [hsender] at hcounted
    split
    · refine ⟨by simpa using hpending, by simpa using hphase, h.live,
        fun ha => absurd ha haccepts, ?_, ?_, ?_⟩
      · rw [agreed_responded, hcounted]
        rfl
      · rw [verdicts_responded]
        exact h.returned
      · rw [verdicts_responded]
        exact h.once
    · refine ⟨by simpa using hpending, by simpa using hphase, h.live,
        fun ha => absurd ha haccepts, ?_, ?_, ?_⟩
      · rw [agreed_responded, hcounted]
        rfl
      · rw [verdicts_responded]
        exact h.returned
      · rw [verdicts_responded]
        exact h.once
  · rw [List.append_nil]
    exact h

theorem Inv.act (h : p.Inv log) (a : Action) : (p.act a).1.Inv (log ++ (p.act a).2) := by
  cases a with
  | insert => simpa only [Prompt.act, List.append_nil] using h.insert
  | emit told => simpa only [Prompt.act, List.append_nil] using h.emit told
  | receive => simpa only [Prompt.act, List.append_nil] using h.receive
  | expire => simpa only [Prompt.act, List.append_nil] using h.expire
  | close => simpa only [Prompt.act, List.append_nil] using h.close
  | finish => exact h.finish
  | remove accepted => exact h.remove accepted
  | send => exact h.send

theorem Inv.run (h : p.Inv log) (actions : List (Option Action)) :
    (machine.state p actions).Inv (log ++ machine.output p actions) := by
  induction actions generalizing p log with
  | nil => simpa using h
  | cons a actions ih =>
    rw [Transducer.state_cons, Transducer.output_cons, ← List.append_assoc]
    apply ih
    cases a with
    | none => simpa [machine] using h.release
    | some a => exact h.act a

theorem Inv.sent_of_accepted (h : p.Inv log)
    (haccepted : HostKeyDecision.acceptAndRemember ∈ verdicts log) : p.sender = .sent true := by
  apply h.accepts
  rw [h.returned, verdict] at haccepted
  cases hphase : p.phase with
  | none =>
    rw [hphase] at haccepted
    cases haccepted
  | some phase =>
    rw [hphase] at haccepted
    cases phase with
    | returned decision =>
      rw [← List.mem_singleton.1 haccepted]
      rfl
    | _ => cases haccepted

/-- Once it is dropped, a sender sends nothing. -/
theorem Inv.dropped (h : p.Inv log) (hsender : p.sender = .dropped) (a : Option Action) :
    (machine.step p a).1.sender = .dropped := by
  have hpending : p.pending = false := by
    rw [Bool.eq_false_iff]
    intro hp
    have hheld := h.held.1 hp
    rw [hsender] at hheld
    cases hheld
  have hphase : p.phase ≠ none := fun hn => by
    have hunmade := h.unmade.2 hn
    rw [hsender] at hunmade
    cases hunmade
  have hrelease : p.release.sender = .dropped := by simp [Prompt.release, hsender]
  cases a with
  | none => exact hrelease
  | some a =>
    cases a with
    | insert =>
      change p.insert.sender = _
      unfold Prompt.insert
      split
      · exact absurd ‹_› hphase
      · exact hsender
    | emit told => change (p.emit told).sender = _; unfold Prompt.emit; split <;> exact hsender
    | receive => change p.receive.sender = _; unfold Prompt.receive; split <;> exact hsender
    | expire => change p.expire.sender = _; unfold Prompt.expire; split <;> exact hsender
    | close => change p.close.sender = _; unfold Prompt.close; split <;> exact hsender
    | finish =>
      change p.finish.1.sender = _
      unfold Prompt.finish
      split
      · exact hrelease
      · exact hrelease
      · exact hsender
    | remove accepted =>
      change (p.remove accepted).1.sender = _
      rw [Prompt.remove, if_neg (by simp [hpending])]
      exact hsender
    | send =>
      change p.send.1.sender = _
      rw [Prompt.send, hsender]
      exact hsender

theorem Inv.dropped_run (h : p.Inv log) (hsender : p.sender = .dropped)
    (actions : List (Option Action)) : (machine.state p actions).sender = .dropped := by
  induction actions generalizing p log with
  | nil => exact hsender
  | cons a actions ih =>
    have hnext := h.run [a]
    exact ih hnext (h.dropped hsender a)

end

end Prompt

/-! ## The broker -/

section Broker
variable {Id : Type} [DecidableEq Id]

inductive Event (Id : Type) where
  | about (id : Id) (a : Action)
  | clear

def step (s : Id → Prompt) : Event Id → (Id → Prompt) × List (Id × Outcome)
  | .about id a => (Function.update s id ((s id).act a).1, ((s id).act a).2.map (Prod.mk id))
  | .clear => (fun id => (s id).release, [])

/-- The map `pending` with the calls of `decide` and `respond`, as they interleave. -/
def promptBroker : Transducer (Id → Prompt) (Event Id) (Id × Outcome) := ⟨step⟩

def noPrompts : Id → Prompt := fun _ => .new

/-- What an event is for one question. -/
def Event.on (id : Id) : Event Id → Option (Option Action)
  | .about i a => if i = id then some (some a) else none
  | .clear => some none

def outcomes (id : Id) (log : List (Id × Outcome)) : List Outcome :=
  log.filterMap fun entry => if entry.1 = id then some entry.2 else none

theorem outcomes_at (i id : Id) (log : List Outcome) :
    outcomes id (log.map (Prod.mk i)) = if i = id then log else [] := by
  induction log with
  | nil => simp [outcomes]
  | cons outcome log ih =>
    unfold outcomes at ih ⊢
    by_cases h : i = id
    · simp [h] at ih ⊢
    · simp [h] at ih ⊢

/-- A question sees nothing of the others. -/
theorem run_on (id : Id) (s : Id → Prompt) (events : List (Event Id)) :
    promptBroker.state s events id = Prompt.machine.state (s id) (events.filterMap (Event.on id)) ∧
      outcomes id (promptBroker.output s events) =
        Prompt.machine.output (s id) (events.filterMap (Event.on id)) := by
  induction events generalizing s with
  | nil => exact ⟨rfl, rfl⟩
  | cons e events ih =>
    have hsplit : outcomes id (promptBroker.output s (e :: events)) =
        outcomes id (step s e).2 ++ outcomes id (promptBroker.output (step s e).1 events) :=
      List.filterMap_append
    obtain ⟨hstate, houtput⟩ := ih (step s e).1
    rw [Transducer.state_cons, hsplit, houtput]
    refine ⟨hstate.trans ?_, ?_⟩ <;> cases e with
    | clear => rfl
    | about i a =>
      by_cases h : i = id
      · subst h
        simp [Event.on, step, Prompt.machine, outcomes_at]
      · simp [Event.on, step, outcomes_at, h, Function.update_of_ne (Ne.symm h)]

/-- What holds of each question after any run. -/
theorem inv_run (id : Id) (events : List (Event Id)) :
    (promptBroker.state noPrompts events id).Inv
      (outcomes id (promptBroker.output noPrompts events)) := by
  obtain ⟨hstate, houtput⟩ := run_on id noPrompts events
  rw [hstate, houtput]
  exact Prompt.inv_new.run _

/-- However calls, responses, timeouts and locks interleave, a key is accepted only by the one
response to its own question that was told that it counted, and a call returns once. -/
theorem accepted_once (events : List (Event Id)) (id : Id) :
    let log := outcomes id (promptBroker.output noPrompts events)
    (agreed log).length ≤ 1 ∧ (verdicts log).length ≤ 1 ∧ .acceptOnce ∉ verdicts log ∧
      (.acceptAndRemember ∈ verdicts log → agreed log = [true]) := by
  have h := inv_run id events
  intro log
  refine ⟨?_, ?_, h.once, fun haccepted => ?_⟩
  · rw [h.counted]
    cases (promptBroker.state noPrompts events id).sender <;> simp [Sender.value]
  · rw [h.returned, Prompt.verdict]
    cases (promptBroker.state noPrompts events id).phase with
    | none => simp
    | some phase => cases phase <;> simp [Phase.verdict]
  · rw [h.counted, h.sent_of_accepted haccepted]
    rfl

/-- Two questions, of which the user accepts the first; the second response comes too late. -/
def sampleEvents : List (Event ℕ) :=
  [.about 1 .insert, .about 2 .insert, .about 1 (.emit true), .about 2 (.emit true),
    .about 1 (.remove true), .about 2 .expire, .about 1 .send, .about 2 .close,
    .about 1 .receive, .about 2 (.remove true), .about 2 .send, .about 1 .finish,
    .about 2 .finish, .about 1 (.remove false)]

theorem accepted_once_sample :
    agreed (outcomes 1 (promptBroker.output noPrompts sampleEvents)) = [true] := by
  obtain ⟨-, -, -, haccepted⟩ := accepted_once sampleEvents 1
  exact haccepted (by decide)

/-- A lock rejects the questions no response has taken, whatever comes after it, and a call that
has returned leaves no entry in the map. -/
theorem cleared_rejects (before after : List (Event Id)) (id : Id) :
    ((promptBroker.state noPrompts before id).pending = true →
      .acceptAndRemember ∉ verdicts
        (outcomes id (promptBroker.output noPrompts (before ++ .clear :: after)))) ∧
    (verdicts (outcomes id (promptBroker.output noPrompts before)) ≠ [] →
      (promptBroker.state noPrompts before id).pending = false) := by
  have hbefore := inv_run id before
  constructor
  · intro hpending haccepted
    have hsender := hbefore.held.1 hpending
    have hrelease : (promptBroker.state noPrompts before id).release.sender = .dropped := by
      simp [Prompt.release, hsender]
    have hdropped : (promptBroker.state noPrompts (before ++ .clear :: after) id).sender =
        .dropped := by
      rw [Transducer.state_append, (run_on id _ (.clear :: after)).1]
      exact hbefore.release.dropped_run hrelease _
    have hsent := (inv_run id (before ++ .clear :: after)).sent_of_accepted haccepted
    rw [hdropped] at hsent
    cases hsent
  · intro hreturned
    rw [Bool.eq_false_iff]
    intro hpending
    exact hreturned (hbefore.returned.trans (hbefore.live hpending))

/-- The user accepts right after the lock. -/
theorem cleared_rejects_sample : .acceptAndRemember ∉ verdicts (outcomes 1
    (promptBroker.output noPrompts ([.about 1 .insert, .about 1 (.emit true)] ++ .clear ::
      [.about 1 (.remove true), .about 1 .send, .about 1 .receive, .about 1 .finish]))) :=
  (cleared_rejects [.about 1 .insert, .about 1 (.emit true)] _ 1).1 (by decide)

end Broker
end Tethra.HostKeyPrompts
