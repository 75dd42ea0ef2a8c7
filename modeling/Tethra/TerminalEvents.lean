import Mathlib.Data.List.Induction
import Mathlib.Logic.Function.Basic
import Mathlib.Tactic.Common

set_option autoImplicit false

/-!
# Terminal events and the handlers of a window

The backend forwards the output of a session before it replies to the command that opened it. The
listener of the window looks the handler of a session up in a map that is filled after the reply.
-/
namespace Tethra.TerminalEvents

variable {E : Type}

/-! ## The window -/

/-- A session of the window: its reply has not come yet, or `attachOutput` has run. -/
inductive Attachment (E : Type) where
  | opening
  | attached (registered ready : Bool) (pending : List E)

structure Window (E : Type) where
  /-- Emitted, and not delivered to the listener yet. -/
  inFlight : List (String × E)
  sessions : String → Attachment E
  handled : List (String × E)
  /-- All that was emitted for sessions the window had not closed. -/
  emitted : List (String × E)

def Window.initial : Window E := ⟨[], fun _ => .opening, [], []⟩

inductive Step (E : Type) where
  | emit (sessionId : String) (event : E)
  | attachOutput (sessionId : String) (restore : Bool)
  | deliver
  | restored (sessionId : String)
  | closeTab (sessionId : String)

def Attachment.closed : Attachment E → Bool
  | .attached registered _ _ => !registered
  | .opening => false

def Attachment.pending : Attachment E → List E
  | .attached _ _ pending => pending
  | .opening => []

def Attachment.registered : Attachment E → Bool
  | .attached registered _ _ => registered
  | .opening => false

def Window.set (sessionId : String) (a : Attachment E) (w : Window E) : Window E :=
  { w with sessions := Function.update w.sessions sessionId a }

/-- The listener: `outputHandlers.current.get(sessionId)?.(event)`. -/
def listen (sessionId : String) (event : E) (w : Window E) : Window E :=
  match w.sessions sessionId with
  | .attached true true _ => { w with handled := w.handled ++ [(sessionId, event)] }
  | .attached true false pending => w.set sessionId (.attached true false (pending ++ [event]))
  | .attached false _ _ | .opening => w

def step (w : Window E) : Step E → Window E
  | .emit sessionId event =>
    { w with
      inFlight := w.inFlight ++ [(sessionId, event)]
      emitted := if (w.sessions sessionId).closed then w.emitted
        else w.emitted ++ [(sessionId, event)] }
  | .attachOutput sessionId restore =>
    match w.sessions sessionId with
    | .opening => w.set sessionId (.attached true (!restore) [])
    | .attached _ _ _ => w
  | .deliver =>
    match w.inFlight with
    | (sessionId, event) :: inFlight => listen sessionId event { w with inFlight := inFlight }
    | [] => w
  | .restored sessionId =>
    match w.sessions sessionId with
    | .attached registered false pending =>
      { w.set sessionId (.attached registered true []) with
        handled := w.handled ++ pending.map fun event => (sessionId, event) }
    | .attached _ true _ | .opening => w
  | .closeTab sessionId =>
    match w.sessions sessionId with
    | .attached _ ready pending => w.set sessionId (.attached false ready pending)
    | .opening => w

def run (steps : List (Step E)) (w : Window E) : Window E := steps.foldl step w

/-! ## One session -/

/-- The events of the session. -/
def eventsOf (sessionId : String) (events : List (String × E)) : List E :=
  events.filterMap fun event => if event.1 = sessionId then some event.2 else none

@[simp] theorem eventsOf_append (s : String) (events events' : List (String × E)) :
    eventsOf s (events ++ events') = eventsOf s events ++ eventsOf s events' :=
  List.filterMap_append

theorem eventsOf_cons_self (s : String) (event : E) (events : List (String × E)) :
    eventsOf s ((s, event) :: events) = event :: eventsOf s events := by
  simp [eventsOf]

theorem eventsOf_cons_ne {s t : String} (h : t ≠ s) (event : E) (events : List (String × E)) :
    eventsOf s ((t, event) :: events) = eventsOf s events := by
  simp [eventsOf, h]

theorem eventsOf_map_self (s : String) (events : List E) :
    eventsOf s (events.map fun event => (s, event)) = events := by
  induction events with
  | nil => rfl
  | cons event events ih => rw [List.map_cons, eventsOf_cons_self, ih]

theorem eventsOf_map_ne {s t : String} (h : t ≠ s) (events : List E) :
    eventsOf s (events.map fun event => (t, event)) = [] := by
  induction events with
  | nil => rfl
  | cons event events ih => rw [List.map_cons, eventsOf_cons_ne h, ih]

/-- What is on its way to a session that is not closed. -/
def due (s : String) (w : Window E) : List E :=
  if (w.sessions s).closed then [] else eventsOf s w.inFlight

/-- Handled, put aside for the restoration, and on the way. -/
def account (s : String) (w : Window E) : List E :=
  eventsOf s w.handled ++ (w.sessions s).pending ++ due s w

/-- A handler that is ready has nothing put aside. -/
def Attachment.Tidy : Attachment E → Prop
  | .attached _ true pending => pending = []
  | _ => True

/-- The events of the session that a step drops: one that finds no handler, or all that are on the
way when the window closes the session. -/
def missed (s : String) (w : Window E) : Step E → List E
  | .deliver =>
    match w.inFlight with
    | (sessionId, event) :: _ =>
      if sessionId = s ∧ (w.sessions s).closed = false ∧ (w.sessions s).registered = false then
        [event]
      else []
    | [] => []
  | .closeTab sessionId =>
    if sessionId = s ∧ (w.sessions s).registered = true then eventsOf s w.inFlight else []
  | _ => []

/-- What a step emits for a session that is not closed. -/
def fresh (s : String) (w : Window E) : Step E → List E
  | .emit sessionId event =>
    if sessionId = s ∧ (w.sessions s).closed = false then [event] else []
  | _ => []

theorem emitted_step (s : String) (w : Window E) (st : Step E) :
    eventsOf s (step w st).emitted = eventsOf s w.emitted ++ fresh s w st := by
  cases st with
  | emit t event =>
    simp only [step, fresh]
    by_cases hts : t = s
    · subst hts
      by_cases hclosed : (w.sessions t).closed = true
      · simp [hclosed]
      · simp [hclosed, eventsOf]
    · simp only [hts, false_and, if_false, List.append_nil]
      split
      · rfl
      · rw [eventsOf_append, eventsOf_cons_ne hts]
        exact List.append_nil _
  | attachOutput t restore =>
    simp only [step, fresh, List.append_nil]
    split <;> rfl
  | deliver =>
    simp only [step, fresh, List.append_nil]
    split
    · unfold listen
      split <;> rfl
    · rfl
  | restored t =>
    simp only [step, fresh, List.append_nil]
    split <;> rfl
  | closeTab t =>
    simp only [step, fresh, List.append_nil]
    split <;> rfl

theorem tidy_step (s : String) {w : Window E} (h : (w.sessions s).Tidy) (st : Step E) :
    ((step w st).sessions s).Tidy := by
  have hset : ∀ {t : String} {a : Attachment E} {v : Window E}, v.sessions = w.sessions →
      (t = s → a.Tidy) → ((v.set t a).sessions s).Tidy := by
    intro t a v hv ha
    unfold Window.set
    by_cases hts : t = s
    · subst hts
      simpa using ha rfl
    · simpa [Function.update_of_ne (Ne.symm hts), hv] using h
  cases st with
  | emit t event => exact h
  | attachOutput t restore =>
    simp only [step]
    split
    · refine hset rfl fun _ => ?_
      cases restore
      · rfl
      · trivial
    · exact h
  | deliver =>
    simp only [step]
    split
    · unfold listen
      split
      · exact h
      · exact hset rfl fun _ => trivial
      · exact h
      · exact h
    · exact h
  | restored t =>
    simp only [step]
    split
    · exact hset rfl fun _ => rfl
    · exact h
    · exact h
  | closeTab t =>
    simp only [step]
    split
    · rename_i ready pending hsession
      refine hset rfl ?_
      rintro rfl
      rw [hsession] at h
      cases ready
      · trivial
      · exact h
    · exact h

/-! ## The account of a step -/

theorem account_congr {s : String} {w w' : Window E}
    (hhandled : eventsOf s w'.handled = eventsOf s w.handled)
    (hsession : w'.sessions s = w.sessions s)
    (hflight : eventsOf s w'.inFlight = eventsOf s w.inFlight) : account s w' = account s w := by
  unfold account due
  rw [hhandled, hsession, hflight]

theorem set_sessions_ne {s t : String} (h : t ≠ s) (a : Attachment E) (w : Window E) :
    (w.set t a).sessions s = w.sessions s := Function.update_of_ne (Ne.symm h) _ _

theorem account_emit (s : String) (w : Window E) (t : String) (event : E) :
    account s (step w (.emit t event)) = account s w ++ fresh s w (.emit t event) := by
  simp only [account, due, step, fresh]
  by_cases hts : t = s
  · subst hts
    by_cases hclosed : (w.sessions t).closed = true
    · simp [hclosed]
    · simp [hclosed, eventsOf]
  · rw [eventsOf_append, eventsOf_cons_ne hts]
    simp [hts, eventsOf]

theorem account_attachOutput (s : String) (w : Window E) (t : String) (restore : Bool) :
    account s (step w (.attachOutput t restore)) = account s w := by
  simp only [step]
  split
  · rename_i hsession
    by_cases hts : t = s
    · subst hts
      simp [account, due, Window.set, hsession, Attachment.pending, Attachment.closed]
    · exact account_congr rfl (set_sessions_ne hts _ _) rfl
  · rfl

theorem account_restored (s : String) (w : Window E) (t : String) :
    account s (step w (.restored t)) = account s w := by
  simp only [step]
  split
  · rename_i registered pending hsession
    by_cases hts : t = s
    · subst hts
      simp [account, due, Window.set, hsession, Attachment.pending, Attachment.closed,
        eventsOf_map_self]
    · refine account_congr ?_ (set_sessions_ne hts _ _) rfl
      rw [eventsOf_append, eventsOf_map_ne hts, List.append_nil]
  · rfl
  · rfl

theorem account_deliver {s : String} {w : Window E} (htidy : (w.sessions s).Tidy) :
    (missed s w .deliver = [] ∧ account s (step w .deliver) = account s w) ∨
      (missed s w .deliver ≠ [] ∧
        (account s (step w .deliver)).length < (account s w).length) := by
  cases hflight : w.inFlight with
  | nil =>
    left
    simp only [missed, step, hflight]
    exact ⟨trivial, trivial⟩
  | cons head rest =>
    obtain ⟨t, event⟩ := head
    have hstep : step w .deliver = listen t event { w with inFlight := rest } := by
      simp only [step, hflight]
    have hmissed : missed s w .deliver = if t = s ∧ (w.sessions s).closed = false ∧
        (w.sessions s).registered = false then [event] else [] := by
      simp only [missed, hflight]
    rw [hstep, hmissed]
    by_cases hts : t = s
    · subst hts
      rcases hsession : w.sessions t with _ | ⟨registered, ready, pending⟩
      · right
        simp [listen, account, due, hflight, eventsOf_cons_self, hsession, Attachment.closed,
          Attachment.registered, Attachment.pending]
      · rw [hsession] at htidy
        left
        cases registered <;> cases ready <;>
          simp_all [listen, account, due, Attachment.closed, Attachment.registered,
            Attachment.pending, Window.set, Attachment.Tidy, eventsOf]
    · left
      rw [if_neg fun h => hts h.1]
      refine ⟨rfl, ?_⟩
      have hrest : eventsOf s rest = eventsOf s w.inFlight := by
        rw [hflight, eventsOf_cons_ne hts]
      unfold listen
      split
      · refine account_congr ?_ rfl hrest
        rw [eventsOf_append, eventsOf_cons_ne hts]
        exact List.append_nil _
      · exact account_congr rfl (set_sessions_ne hts _ _) hrest
      · exact account_congr rfl rfl hrest
      · exact account_congr rfl rfl hrest

theorem account_closeTab (s : String) (w : Window E) (t : String) :
    (missed s w (.closeTab t) = [] ∧ account s (step w (.closeTab t)) = account s w) ∨
      (missed s w (.closeTab t) ≠ [] ∧
        (account s (step w (.closeTab t))).length < (account s w).length) := by
  simp only [missed, step]
  by_cases hts : t = s
  · subst hts
    simp only [true_and, account, due]
    cases hsession : w.sessions t with
    | opening =>
      left
      simp [hsession, Attachment.registered]
    | attached registered ready pending =>
      cases registered with
      | false =>
        left
        simp [Window.set, Attachment.closed, Attachment.registered, Attachment.pending]
      | true =>
        by_cases hflight : eventsOf t w.inFlight = []
        · left
          simp [Window.set, Attachment.closed, Attachment.registered, Attachment.pending, hflight]
        · right
          have hpos := List.length_pos_iff.2 hflight
          simp [Window.set, Attachment.closed, Attachment.registered, Attachment.pending, hflight,
            hpos]
  · left
    rw [if_neg fun h => hts h.1]
    refine ⟨rfl, ?_⟩
    split
    · exact account_congr rfl (set_sessions_ne hts _ _) rfl
    · rfl

/-- A step that drops nothing keeps the account; one that drops something is behind. -/
theorem account_step {s : String} {w : Window E} (htidy : (w.sessions s).Tidy) (st : Step E) :
    (missed s w st = [] ∧ account s (step w st) = account s w ++ fresh s w st) ∨
      (missed s w st ≠ [] ∧
        (account s (step w st)).length < (account s w ++ fresh s w st).length) := by
  cases st with
  | emit t event => exact Or.inl ⟨rfl, account_emit s w t event⟩
  | attachOutput t restore =>
    rw [show fresh s w (.attachOutput t restore) = [] from rfl, List.append_nil]
    exact Or.inl ⟨rfl, account_attachOutput s w t restore⟩
  | deliver =>
    rw [show fresh s w .deliver = [] from rfl, List.append_nil]
    exact account_deliver htidy
  | restored t =>
    rw [show fresh s w (.restored t) = [] from rfl, List.append_nil]
    exact Or.inl ⟨rfl, account_restored s w t⟩
  | closeTab t =>
    rw [show fresh s w (.closeTab t) = [] from rfl, List.append_nil]
    exact account_closeTab s w t

/-! ## Runs -/

/-- No step of the run drops an event of the session. -/
def InTime (s : String) (steps : List (Step E)) : Prop :=
  ∀ before st rest, steps = before ++ st :: rest → missed s (run before .initial) st = []

theorem run_append (steps : List (Step E)) (st : Step E) (w : Window E) :
    run (steps ++ [st]) w = step (run steps w) st := List.foldl_append

theorem tidy_run (s : String) (steps : List (Step E)) :
    ((run steps .initial).sessions s).Tidy := by
  induction steps using List.reverseRecOn with
  | nil => trivial
  | append_singleton steps st ih =>
    rw [run_append]
    exact tidy_step s ih st

theorem account_run (s : String) (steps : List (Step E)) :
    (InTime s steps ∧
        account s (run steps .initial) = eventsOf s (run steps .initial).emitted) ∨
      (¬ InTime s steps ∧ (account s (run steps .initial)).length <
        (eventsOf s (run steps .initial).emitted).length) := by
  induction steps using List.reverseRecOn with
  | nil => exact Or.inl ⟨fun before st rest heq => by simp at heq, rfl⟩
  | append_singleton steps st ih =>
    have hearlier : InTime s (steps ++ [st]) → InTime s steps := fun h before e rest heq =>
      h before e (rest ++ [st]) (by rw [heq, List.append_assoc, List.cons_append])
    have hboth : InTime s steps → missed s (run steps .initial) st = [] →
        InTime s (steps ++ [st]) := by
      intro hsteps hst before e rest heq
      obtain rfl | ⟨rest', last, rfl⟩ := List.eq_nil_or_concat rest
      · obtain ⟨rfl, hlast⟩ := List.append_inj' heq rfl
        cases hlast
        exact hst
      · rw [List.concat_eq_append, ← List.cons_append, ← List.append_assoc] at heq
        obtain ⟨hsplit, -⟩ := List.append_inj' heq rfl
        exact hsteps before e rest' hsplit
    rw [run_append, emitted_step]
    obtain ⟨hin, hkept⟩ | ⟨hlate, hlost⟩ := ih
    · obtain ⟨hnone, hstep⟩ | ⟨hsome, hstep⟩ := account_step (tidy_run s steps) st
      · exact Or.inl ⟨hboth hin hnone, by rw [hstep, hkept]⟩
      · refine Or.inr ⟨fun h => hsome (h steps st [] rfl), ?_⟩
        rwa [hkept] at hstep
    · refine Or.inr ⟨fun h => hlate (hearlier h), ?_⟩
      have hle : (account s (step (run steps .initial) st)).length ≤
          (account s (run steps .initial) ++ fresh s (run steps .initial) st).length := by
        obtain ⟨-, hstep⟩ | ⟨-, hstep⟩ := account_step (tidy_run s steps) st
        · exact Nat.le_of_eq (congrArg _ hstep)
        · exact Nat.le_of_lt hstep
      rw [List.length_append] at hle ⊢
      omega

/-- Nothing of the session is on its way, and no restoration is running. -/
structure Settled (s : String) (w : Window E) : Prop where
  delivered : eventsOf s w.inFlight = []
  restored : (w.sessions s).pending = []

/-- All that is emitted for a session before the window closes it is handled, once and in order,
exactly if no event reaches the listener without its handler and none is on the way at the close. -/
theorem events_handled (s : String) (steps : List (Step E))
    (hsettled : Settled s (run steps .initial)) :
    eventsOf s (run steps .initial).handled = eventsOf s (run steps .initial).emitted ↔
      InTime s steps := by
  have haccount : account s (run steps .initial) = eventsOf s (run steps .initial).handled := by
    unfold account due
    rw [hsettled.restored, hsettled.delivered]
    simp
  obtain ⟨hin, hkept⟩ | ⟨hlate, hlost⟩ := account_run s steps
  · exact ⟨fun _ => hin, fun _ => haccount.symm.trans hkept⟩
  · refine ⟨fun h => ?_, fun h => (hlate h).elim⟩
    rw [haccount, h] at hlost
    exact (Nat.lt_irrefl _ hlost).elim

/-- The first output of a session, delivered before its reply. -/
theorem events_handled_fails : ¬ ∀ (s : String) (steps : List (Step String)),
    Settled s (run steps .initial) →
    eventsOf s (run steps .initial).handled = eventsOf s (run steps .initial).emitted := by
  intro hall
  have hlost := hall "session" [.emit "session" "prompt", .deliver, .attachOutput "session" false]
    ⟨by decide, by decide⟩
  revert hlost
  decide

theorem events_handled_sample : eventsOf "session" (run
      [.emit "session" "prompt", .attachOutput "session" true, .deliver, .restored "session"]
      .initial).handled = ["prompt"] ↔
    InTime "session"
      [.emit "session" "prompt", .attachOutput "session" true, .deliver, .restored "session"] :=
  events_handled "session" _ ⟨by decide, by decide⟩

end Tethra.TerminalEvents
