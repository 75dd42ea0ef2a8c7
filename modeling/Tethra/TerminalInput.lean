import Tethra.PromiseQueues

set_option autoImplicit false

/-!
# Keystrokes on their way to the PTY

Each call of `sendTerminalInput` waits for the one before it of its session. The promise that is
chained never rejects; the one that is returned does when the command fails.
-/
namespace Tethra.TerminalInput
open PromiseQueues

abbrev Bytes := List UInt8

structure Input (S : Type*) where
  /-- `ptyUserInputSuppressedUntil`, in milliseconds. -/
  suppressedUntil : ℕ
  /-- `terminalInputChains`, and every promise that has been in it. -/
  chains : Queues S Bytes
  /-- How the command of a write has ended, which is how its `next` has. -/
  replies : ℕ → Option Bool
  /-- What the calls have returned: a promise that is resolved, or the `next` of a write. -/
  returned : List (Option ℕ)

variable {S : Type*}

def Input.new : Input S := ⟨0, .new, fun _ => none, []⟩

/-- What the caller of a call learns from the promise it holds. -/
def outcome (s : Input S) (call : ℕ) : Option Bool :=
  match s.returned[call]? with
  | some none => some true
  | some (some i) => s.replies i
  | none => none

def suppressPtyUserInput (now durationMs : ℕ) (s : Input S) : Input S :=
  { s with suppressedUntil := max s.suppressedUntil (now + durationMs) }

variable [DecidableEq S]

def sendTerminalInput (sessionId : S) (data : Bytes) (force : Bool) (now : ℕ) (s : Input S) :
    Input S :=
  if !force && now < s.suppressedUntil then { s with returned := s.returned ++ [none] }
  else
    { s with
      chains := s.chains.enqueue sessionId data
      returned := s.returned ++ [some s.chains.links.length] }

inductive Event (S : Type*) where
  | suppress (now durationMs : ℕ)
  | send (sessionId : S) (data : Bytes) (force : Bool) (now : ℕ)
  /-- The reaction of the promise before invokes the command. -/
  | invoke (i : ℕ)
  /-- The command ends. -/
  | reply (i : ℕ) (ok : Bool)
  /-- `next.catch(() => undefined)` resolves. -/
  | settle (i : ℕ)
  | cleanUp (i : ℕ)

def handle (s : Input S) : Event S → Input S
  | .suppress now durationMs => suppressPtyUserInput now durationMs s
  | .send sessionId data force now => sendTerminalInput sessionId data force now s
  | .invoke i => { s with chains := s.chains.start false i }
  | .reply i ok =>
    if s.chains.stage i = some .running ∧ s.replies i = none then
      { s with replies := Function.update s.replies i (some ok) }
    else s
  | .settle i =>
    if s.replies i = none then s else { s with chains := s.chains.finish i true }
  | .cleanUp i => { s with chains := s.chains.cleanUp i }

def run (events : List (Event S)) : Input S := events.foldl handle .new

/-- The chain runs in order, and the promises of the calls are the `next`s of its writes. -/
structure Ordered (s : Input S) : Prop where
  serial : s.chains.Serial
  started : s.chains.Started
  fulfilled : ∀ i, s.chains.stage i ≠ some (.settled false)
  /-- What has settled has had its reply. -/
  replied : ∀ i, s.chains.stage i = some (.settled true) → s.replies i ≠ none
  begun : ∀ i, s.replies i ≠ none → i ∈ s.chains.started
  returned : s.returned.filterMap id = List.range s.chains.links.length

variable {s : Input S}

omit [DecidableEq S] in
theorem ordered_new : Ordered (.new : Input S) where
  serial := Queues.serial_new
  started := Queues.started_new
  fulfilled _ h := nomatch h
  replied _ h := nomatch h
  begun _ h := absurd rfl h
  returned := rfl

theorem Ordered.send (h : Ordered s) (sessionId : S) (data : Bytes) (force : Bool) (now : ℕ) :
    Ordered (sendTerminalInput sessionId data force now s) := by
  unfold sendTerminalInput
  split
  case isTrue =>
    refine { h with returned := ?_ }
    rw [List.filterMap_append, h.returned]
    exact List.append_nil _
  case isFalse =>
    constructor
    case serial => exact h.serial.enqueue sessionId data
    case started => exact h.started.enqueue sessionId data
    case fulfilled =>
      intro i hi
      rw [Queues.stage_enqueue] at hi
      split at hi
      · cases hi
      · exact h.fulfilled i hi
    case replied =>
      intro i hi
      rw [Queues.stage_enqueue] at hi
      split at hi
      · cases hi
      · exact h.replied i hi
    case begun => exact h.begun
    case returned =>
      have hlength : (s.chains.enqueue sessionId data).links.length =
          s.chains.links.length + 1 := List.length_append
      rw [hlength, List.range_succ, ← h.returned, List.filterMap_append]
      rfl

theorem Ordered.invoke (h : Ordered s) (i : ℕ) : Ordered (handle s (.invoke i)) := by
  have hruns := Queues.runs_of_fulfilled h.fulfilled
  obtain heq | ⟨l, ok, hl, hwaiting, hstanding, heq⟩ := Queues.start_cases false i s.chains
  · have hsame : handle s (.invoke i) = s := by rw [handle, heq]
    rw [hsame]
    exact h
  · rw [if_pos (hruns _ _ hstanding)] at heq
    have hwait : s.chains.stage i = some .waiting := by rw [Queues.stage, hl, ← hwaiting]; rfl
    have hstage : ∀ j fulfilled, (s.chains.start false i).stage j = some (.settled fulfilled) →
        s.chains.stage j = some (.settled fulfilled) := by
      intro j fulfilled hj
      rw [heq] at hj
      change (s.chains.setStage i .running).stage j = _ at hj
      rw [Queues.stage_setStage] at hj
      split at hj
      · rename_i hij
        rw [← hij, hwait] at hj
        cases hj
      · exact hj
    constructor
    case serial => exact h.serial.start false i
    case started => exact h.started.start h.serial hruns i
    case fulfilled => exact fun j hj => h.fulfilled j (hstage j false hj)
    case replied => exact fun j hj => h.replied j (hstage j true hj)
    case begun =>
      intro j hj
      change j ∈ (s.chains.start false i).started
      rw [heq]
      exact List.mem_append_left _ (h.begun j hj)
    case returned =>
      change s.returned.filterMap id = List.range (s.chains.start false i).links.length
      rw [heq, h.returned]
      exact congrArg List.range (List.length_modify _ _ _).symm

theorem Ordered.reply (h : Ordered s) (i : ℕ) (ok : Bool) : Ordered (handle s (.reply i ok)) := by
  rw [handle]
  split
  case isFalse => exact h
  case isTrue hrunning =>
    refine { h with replied := fun j hj => ?_, begun := fun j hj => ?_ }
    · by_cases hij : j = i
      · subst hij
        simp
      · simpa [hij] using h.replied j hj
    · by_cases hij : j = i
      · subst hij
        exact h.started.mem_stage.2 ⟨_, hrunning.1, fun hw => nomatch hw⟩
      · simp only [Function.update_of_ne hij] at hj
        exact h.begun j hj

theorem Ordered.settle (h : Ordered s) (i : ℕ) : Ordered (handle s (.settle i)) := by
  rw [handle]
  split
  case isTrue => exact h
  case isFalse hreply =>
    by_cases hrunning : s.chains.stage i = some .running
    · have heq : s.chains.finish i true = s.chains.setStage i (.settled true) := if_pos hrunning
      have hstarted := h.started.finish i true
      have hserial := h.serial.finish i true
      rw [heq] at hstarted hserial ⊢
      constructor
      case serial => exact hserial
      case started => exact hstarted
      case fulfilled =>
        intro j hj
        rw [Queues.stage_setStage] at hj
        split at hj
        · obtain ⟨_, -, hsettled⟩ := Option.map_eq_some_iff.1 hj
          cases hsettled
        · exact h.fulfilled j hj
      case replied =>
        intro j hj
        rw [Queues.stage_setStage] at hj
        split at hj
        · rename_i hij
          exact hij ▸ hreply
        · exact h.replied j hj
      case begun => exact h.begun
      case returned =>
        rw [h.returned]
        exact congrArg List.range (List.length_modify _ _ _).symm
    · have heq : s.chains.finish i true = s.chains := if_neg hrunning
      rw [heq]
      exact h

theorem Ordered.cleanUp (h : Ordered s) (i : ℕ) : Ordered (handle s (.cleanUp i)) where
  serial := h.serial.cleanUp i
  started := h.started.cleanUp i
  fulfilled j hj := h.fulfilled j (by rwa [handle, Queues.stage_cleanUp] at hj)
  replied j hj := h.replied j (by rwa [handle, Queues.stage_cleanUp] at hj)
  begun j hj := by
    have hold := h.begun j hj
    obtain heq | ⟨l, -, -, heq⟩ := Queues.cleanUp_cases i s.chains
    · rwa [handle, heq]
    · rwa [handle, heq]
  returned := by
    change s.returned.filterMap id = List.range (s.chains.cleanUp i).links.length
    obtain heq | ⟨l, -, -, heq⟩ := Queues.cleanUp_cases i s.chains
    · rw [heq]
      exact h.returned
    · rw [heq, List.length_modify]
      exact h.returned

theorem ordered_run (events : List (Event S)) : Ordered (run events) := by
  have hrun : ∀ s : Input S, Ordered s → Ordered (events.foldl handle s) := by
    induction events with
    | nil => exact fun s h => h
    | cons e events ih =>
      intro s h
      refine ih _ ?_
      cases e with
      | suppress now durationMs => exact { h with }
      | send sessionId data force now => exact h.send sessionId data force now
      | invoke i => exact h.invoke i
      | reply i ok => exact h.reply i ok
      | settle i => exact h.settle i
      | cleanUp i => exact h.cleanUp i
  exact hrun .new ordered_new

/-- A caller learns of a failure from the reply to its own write. -/
theorem Ordered.reported (h : Ordered s) {e : Event S} {call : ℕ}
    (hbefore : outcome s call ≠ some false) (hafter : outcome (handle s e) call = some false) :
    ∃ i, e = .reply i false ∧ s.returned[call]? = some (some i) := by
  cases e with
  | suppress now durationMs => exact absurd hafter hbefore
  | invoke i => exact absurd hafter hbefore
  | cleanUp i => exact absurd hafter hbefore
  | settle i =>
    rw [handle] at hafter
    split at hafter <;> exact absurd hafter hbefore
  | send sessionId data force now =>
    have hnew : ∀ promise, promise = none ∨ promise = some s.chains.links.length →
        (s.returned ++ [promise])[call]? = s.returned[call]? ∨
          (s.returned ++ [promise])[call]? = some promise := by
      intro promise _
      rw [List.getElem?_append]
      split
      · exact Or.inl rfl
      · rename_i hle
        rw [List.getElem?_singleton, List.getElem?_eq_none (by omega)]
        split
        · exact Or.inr rfl
        · exact Or.inl rfl
    rw [handle, sendTerminalInput] at hafter
    split at hafter
    · obtain hold | hcall := hnew none (Or.inl rfl)
      · rw [outcome, hold] at hafter
        exact absurd hafter hbefore
      · rw [outcome, hcall] at hafter
        cases hafter
    · obtain hold | hcall := hnew _ (Or.inr rfl)
      · rw [outcome, hold] at hafter
        exact absurd hafter hbefore
      · -- The write of the call has not started, so there is no reply to it.
        rw [outcome, hcall] at hafter
        have hreply : s.replies s.chains.links.length = some false := hafter
        have hlength := h.started.length (h.begun _ (hreply ▸ Option.some_ne_none false))
        omega
  | reply i ok =>
    rw [handle] at hafter
    split at hafter
    case isFalse => exact absurd hafter hbefore
    case isTrue =>
      rw [outcome] at hafter hbefore
      split at hafter
      case h_1 => cases hafter
      case h_3 => cases hafter
      case h_2 j hj =>
        change Function.update s.replies i (some ok) j = some false at hafter
        rw [hj] at hbefore
        by_cases hij : j = i
        · subst hij
          rw [Function.update_self, Option.some.injEq] at hafter
          exact ⟨j, by rw [hafter], hj⟩
        · rw [Function.update_of_ne hij] at hafter
          exact absurd hafter hbefore

/-- The writes that are not suppressed reach the PTY in order. -/
structure InOrder (s : Input S) : Prop where
  /-- The calls return the promises of the writes, one each and in order. -/
  calls : s.returned.filterMap id = List.range s.chains.links.length
  sorted : s.chains.started.Pairwise fun i j => s.chains.key i = s.chains.key j → i < j
  started : ∀ i, i ∈ s.chains.started ↔
    ∃ stage, s.chains.stage i = some stage ∧ stage ≠ .waiting
  after : ∀ i j, i < j → s.chains.key i = s.chains.key j → j ∈ s.chains.started →
    s.chains.stage i = some (.settled true) ∧ s.replies i ≠ none
  /-- After a reply, be it a failure, the promise of the chain settles. -/
  settles : ∀ i, s.chains.stage i = some .running → s.replies i ≠ none →
    (handle s (.settle i)).chains.stage i = some (.settled true)
  next : ∀ j, s.chains.stage j = some .waiting →
    (∀ i < j, s.chains.key i = s.chains.key j → s.chains.stage i = some (.settled true)) →
    (handle s (.invoke j)).chains.stage j = some .running
  reported : ∀ e call, outcome s call ≠ some false → outcome (handle s e) call = some false →
    ∃ i, e = .reply i false ∧ s.returned[call]? = some (some i)
  cleaned : ∀ sessionId, (∀ (i : ℕ) (link : Link S Bytes), s.chains.links[i]? = some link →
    link.key = sessionId → link.cleaned = true) → s.chains.tail sessionId = none

end Tethra.TerminalInput
