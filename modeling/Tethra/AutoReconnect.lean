import Mathlib.Data.List.Basic
import Mathlib.Logic.Function.Basic
import Mathlib.Algebra.Order.Group.Nat

set_option autoImplicit false

/-!
# Reconnecting a dropped tab

A tab with a named mux session whose connection closes is closed and connected anew after a
delay. The handlers of its sessions run in the closures of the render in which the tab was
opened, so `closeTab` works on the tabs of that render.
-/
namespace Tethra.AutoReconnect

inductive SessionId where
  | session (n : ℕ)
  | pending (n : ℕ)
  deriving DecidableEq

inductive Kind where
  | terminal
  | localShell
  | sftp
  deriving DecidableEq

structure Tab where
  sessionId : SessionId
  hostId : String
  kind : Kind
  connected : Bool
  muxName : Option String
  deriving DecidableEq

/-- What a `setTimeout` of the handler has caught. -/
structure Timer where
  sessionId : SessionId
  hostId : String
  muxName : String
  delay : ℕ
  deriving DecidableEq

/-- An automatic reconnect: `closeTab` is awaited, then `openTerminal`. -/
inductive Attempt where
  | closing (hostId muxName : String)
  | opening (hostId muxName : String) (pendingId : SessionId)
  deriving DecidableEq

structure App where
  tabs : List Tab
  /-- The tabs of the last render. -/
  tabsRef : List Tab
  /-- The sessions that the backend has open for the tab. -/
  live : List SessionId
  outputHandlers : List SessionId
  reconnectAttempts : SessionId → ℕ
  timers : List Timer
  attempts : List Attempt
  fresh : ℕ
  /-- The reconnects that have been made. -/
  reconnects : ℕ

/-- The hosts of `hostsRef`, and the tabs of the render whose closures run. -/
structure Closure where
  hosts : List String
  tabs : List Tab

/-- The timer that a closed session sets, if its tab is to be reconnected. -/
def timerOf (a : App) (sessionId : SessionId) : Option Timer :=
  match a.tabsRef.find? fun t => t.sessionId = sessionId with
  | some ⟨_, hostId, .terminal, _, some muxName⟩ =>
    if muxName ≠ "" ∧ hostId ≠ "local" ∧ a.reconnectAttempts sessionId < 3 then
      some ⟨sessionId, hostId, muxName, 1500 * (a.reconnectAttempts sessionId + 1)⟩
    else none
  | _ => none

/-- The event `closed` of a session, which has a handler or not. -/
def closed (sessionId : SessionId) (a : App) : App :=
  if sessionId ∈ a.outputHandlers then
    let tabs := a.tabs.map fun t =>
      if t.sessionId = sessionId then { t with connected := false } else t
    match timerOf a sessionId with
    | some timer =>
      { a with
        tabs := tabs
        reconnectAttempts := Function.update a.reconnectAttempts sessionId
          (a.reconnectAttempts sessionId + 1)
        timers := a.timers ++ [timer] }
    | none => { a with tabs := tabs }
  else a

/-- `closeTab` of an automatic reconnect, up to its `await`. -/
def closeTab (c : Closure) (sessionId : SessionId) (a : App) : App :=
  { a with
    reconnectAttempts := Function.update a.reconnectAttempts sessionId 0
    tabs := c.tabs.filter fun t => t.sessionId ≠ sessionId
    outputHandlers := a.outputHandlers.filter (· ≠ sessionId) }

/-- The callback of a timer. -/
def fire (c : Closure) (timer : Timer) (a : App) : App :=
  match a.tabsRef.find? fun t => t.sessionId = timer.sessionId with
  | none => a
  | some still =>
    if still.connected then a
    else if timer.hostId ∈ c.hosts then
      { closeTab c timer.sessionId a with
        attempts := a.attempts ++ [.closing timer.hostId timer.muxName]
        reconnects := a.reconnects + 1 }
    else a

/-- `connect` with `forceNew`, up to `openTerminal`. -/
def connect (hostId muxName : String) (a : App) : App :=
  { a with
    tabs := a.tabs ++ [⟨.pending a.fresh, hostId, .terminal, false, some muxName⟩]
    attempts := a.attempts ++ [.opening hostId muxName (.pending a.fresh)]
    fresh := a.fresh + 1 }

/-- The rest of `connect` when `openTerminal` has returned a session. -/
def opened (hostId muxName : String) (pendingId : SessionId) (a : App) : App :=
  { a with
    live := a.live ++ [.session a.fresh]
    outputHandlers := a.outputHandlers ++ [.session a.fresh]
    tabs := a.tabs.map fun t =>
      if t.sessionId = pendingId then ⟨.session a.fresh, hostId, .terminal, true, some muxName⟩
      else t
    fresh := a.fresh + 1 }

/-- The rest of `connect` when `openTerminal` has failed. -/
def failed (pendingId : SessionId) (a : App) : App :=
  { a with tabs := a.tabs.filter fun t => t.sessionId ≠ pendingId }

inductive Event where
  /-- The connection of the `i`-th live session drops. -/
  | closed (i : ℕ)
  /-- The `i`-th of the pending timers fires. -/
  | fire (i : ℕ)
  /-- The promise of `closeTab` resolves for the `i`-th attempt. -/
  | tabClosed (i : ℕ)
  /-- `openTerminal` returns or throws for the `i`-th attempt. -/
  | returned (i : ℕ) (ok : Bool)
  | render
  deriving DecidableEq

def handle (c : Closure) (a : App) : Event → App
  | .closed i =>
    match a.live[i]? with
    | some sessionId => closed sessionId { a with live := a.live.eraseIdx i }
    | none => a
  | .fire i =>
    match a.timers[i]? with
    | some timer => fire c timer { a with timers := a.timers.eraseIdx i }
    | none => a
  | .tabClosed i =>
    match a.attempts[i]? with
    | some (.closing hostId muxName) =>
      connect hostId muxName { a with attempts := a.attempts.eraseIdx i }
    | _ => a
  | .returned i ok =>
    match a.attempts[i]? with
    | some (.opening hostId muxName pendingId) =>
      if ok then opened hostId muxName pendingId { a with attempts := a.attempts.eraseIdx i }
      else failed pendingId { a with attempts := a.attempts.eraseIdx i }
    | _ => a
  | .render => { a with tabsRef := a.tabs }

def run (c : Closure) (a : App) (events : List Event) : App := events.foldl (handle c) a

/-! ## The bound and the tab -/

/-- The tab of a mux session of a host. -/
def Tab.Of (t : Tab) (hostId muxName : String) : Prop :=
  t.hostId = hostId ∧ t.muxName = some muxName

instance (t : Tab) (hostId muxName : String) : Decidable (t.Of hostId muxName) :=
  inferInstanceAs (Decidable (_ ∧ _))

def Holds (a : App) (hostId muxName : String) : Prop := ∃ t ∈ a.tabs, t.Of hostId muxName

/-- At most three reconnects, and outside an attempt there is a tab of the mux session. -/
def Kept (hostId muxName : String) (a : App) : Prop :=
  a.reconnects ≤ 3 ∧ (a.attempts = [] → Holds a hostId muxName)

instance (a : App) (hostId muxName : String) : Decidable (Kept hostId muxName a) := by
  unfold Kept Holds
  infer_instance

def isDrop : Event → Bool
  | .closed _ => true
  | _ => false

/-- The connection of the tab drops at most three times, and no attempt fails. -/
def Mild (events : List Event) : Prop :=
  (events.filter isDrop).length ≤ 3 ∧ ∀ i, .returned i false ∉ events

/-- A tab of the mux session is connected, and nothing else goes on. Ids are in use once. -/
structure Fresh (c : Closure) (hostId muxName : String) (a : App) : Prop where
  holds : Holds a hostId muxName
  timers : a.timers = []
  attempts : a.attempts = []
  reconnects : a.reconnects = 0
  named : ∀ t, t ∈ a.tabs ∨ t ∈ a.tabsRef ∨ t ∈ c.tabs → t.sessionId ∈ a.live →
    t.Of hostId muxName
  unused : ∀ t, t ∈ a.tabs ∨ t ∈ a.tabsRef ∨ t ∈ c.tabs → ∀ n, a.fresh ≤ n →
    t.sessionId ≠ .session n

def Attempt.Of (x : Attempt) (hostId muxName : String) : Prop :=
  match x with
  | .closing h m => h = hostId ∧ m = muxName
  | .opening h m _ => h = hostId ∧ m = muxName

/-- All timers and attempts are for the mux session, which has a tab unless it is closed to be
opened again. -/
structure Goes (c : Closure) (hostId muxName : String) (a : App) : Prop where
  named : ∀ t, t ∈ a.tabs ∨ t ∈ a.tabsRef ∨ t ∈ c.tabs → t.sessionId ∈ a.live →
    t.Of hostId muxName
  unused : ∀ t, t ∈ a.tabs ∨ t ∈ a.tabsRef ∨ t ∈ c.tabs → ∀ n, a.fresh ≤ n →
    t.sessionId ≠ .session n
  timers : ∀ timer ∈ a.timers, timer.hostId = hostId ∧ timer.muxName = muxName
  attempts : ∀ x ∈ a.attempts, x.Of hostId muxName
  holds : .closing hostId muxName ∈ a.attempts ∨ Holds a hostId muxName

variable {c : Closure} {hostId muxName : String} {a : App}

theorem Fresh.goes (h : Fresh c hostId muxName a) : Goes c hostId muxName a where
  named := h.named
  unused := h.unused
  timers timer htimer := by
    rw [h.timers] at htimer
    cases htimer
  attempts x hx := by
    rw [h.attempts] at hx
    cases hx
  holds := Or.inr h.holds

/-- The sessions, names and ids of tabs that are changed one by one. -/
theorem holds_map {tabs : List Tab} {f : Tab → Tab}
    (hf : ∀ t, t.Of hostId muxName → (f t).Of hostId muxName)
    (h : ∃ t ∈ tabs, t.Of hostId muxName) : ∃ t ∈ tabs.map f, t.Of hostId muxName := by
  obtain ⟨t, ht, hof⟩ := h
  exact ⟨f t, List.mem_map_of_mem ht, hf t hof⟩

theorem timerOf_names {timer : Timer} {sessionId : SessionId}
    (h : timerOf a sessionId = some timer) :
    ∃ t ∈ a.tabsRef, t.sessionId = sessionId ∧ t.Of timer.hostId timer.muxName := by
  unfold timerOf at h
  split at h
  · rename_i id host connected mux hfind
    split at h
    · rw [← Option.some.inj h]
      exact ⟨_, List.mem_of_find?_eq_some hfind, by simpa using List.find?_some hfind, rfl, rfl⟩
    · cases h
  · cases h

theorem Goes.closed (h : Goes c hostId muxName a) (i : ℕ) :
    Goes c hostId muxName (handle c a (.closed i)) := by
  rw [handle]
  split
  case h_2 => exact h
  case h_1 sessionId hlive =>
    have hsub : ∀ s, s ∈ a.live.eraseIdx i → s ∈ a.live := fun s => List.mem_of_mem_eraseIdx
    have hnamed : ∀ t, t ∈ (a.tabs.map fun t =>
        if t.sessionId = sessionId then { t with connected := false } else t) → ∃ t' ∈ a.tabs,
        t.sessionId = t'.sessionId ∧ t.hostId = t'.hostId ∧ t.muxName = t'.muxName := by
      intro t ht
      obtain ⟨t', ht', rfl⟩ := List.mem_map.1 ht
      refine ⟨t', ht', ?_⟩
      split <;> exact ⟨rfl, rfl, rfl⟩
    have hholds : Holds a hostId muxName → ∃ t ∈ (a.tabs.map fun t =>
        if t.sessionId = sessionId then { t with connected := false } else t),
        t.Of hostId muxName := by
      refine holds_map fun t hof => ?_
      split <;> exact hof
    -- What holds of the tabs holds of them with `connected` changed.
    have hkeep : Goes c hostId muxName { a with
        live := a.live.eraseIdx i
        tabs := a.tabs.map fun t =>
          if t.sessionId = sessionId then { t with connected := false } else t } := by
      constructor
      case named =>
        intro t ht hin
        obtain ht | ht := ht
        · obtain ⟨t', ht', hid, hhost, hmux⟩ := hnamed t ht
          have hof := h.named t' (Or.inl ht') (hid ▸ hsub _ hin)
          exact ⟨hhost.trans hof.1, hmux.trans hof.2⟩
        · exact h.named t (Or.inr ht) (hsub _ hin)
      case unused =>
        intro t ht n hn
        obtain ht | ht := ht
        · obtain ⟨t', ht', hid, -⟩ := hnamed t ht
          exact hid ▸ h.unused t' (Or.inl ht') n hn
        · exact h.unused t (Or.inr ht) n hn
      case timers => exact h.timers
      case attempts => exact h.attempts
      case holds => exact h.holds.imp_right hholds
    unfold AutoReconnect.closed
    split
    case isFalse =>
      exact { h with named := fun t ht hin => h.named t ht (hsub _ hin) }
    case isTrue =>
      dsimp only
      split
      case h_2 => exact hkeep
      case h_1 timer htimer =>
        refine { hkeep with timers := fun other hother => ?_ }
        obtain hold | hnew := List.mem_append.1 hother
        · exact h.timers other hold
        · rw [List.mem_singleton.1 hnew]
          obtain ⟨t, ht, hid, hof⟩ := timerOf_names htimer
          have hmine := h.named t (Or.inr (Or.inl ht))
            (hid ▸ List.mem_of_getElem? hlive)
          exact ⟨hof.1.symm.trans hmine.1, Option.some.inj (hof.2.symm.trans hmine.2)⟩

theorem Goes.fire (h : Goes c hostId muxName a) (i : ℕ) :
    Goes c hostId muxName (handle c a (.fire i)) := by
  rw [handle]
  split
  case h_2 => exact h
  case h_1 timer htimer =>
    obtain ⟨rfl, rfl⟩ := h.timers timer (List.mem_of_getElem? htimer)
    have hless : Goes c timer.hostId timer.muxName
        { a with timers := a.timers.eraseIdx i } :=
      { h with timers := fun other hother => h.timers other (List.mem_of_mem_eraseIdx hother) }
    unfold AutoReconnect.fire
    split
    case h_1 => exact hless
    case h_2 still _ =>
      split
      case isTrue => exact hless
      case isFalse =>
        split
        case isFalse => exact hless
        case isTrue =>
          have htabs : ∀ t, t ∈ (c.tabs.filter fun t => t.sessionId ≠ timer.sessionId) ∨
              t ∈ a.tabsRef ∨ t ∈ c.tabs → t ∈ a.tabs ∨ t ∈ a.tabsRef ∨ t ∈ c.tabs := by
            rintro t (ht | ht)
            · exact Or.inr (Or.inr (List.mem_of_mem_filter ht))
            · exact Or.inr ht
          constructor
          case named => exact fun t ht hin => h.named t (htabs t ht) hin
          case unused => exact fun t ht n hn => h.unused t (htabs t ht) n hn
          case timers => exact hless.timers
          case attempts =>
            intro x hx
            obtain hold | hnew := List.mem_append.1 hx
            · exact h.attempts x hold
            · rw [List.mem_singleton.1 hnew]
              exact ⟨rfl, rfl⟩
          case holds => exact Or.inl (List.mem_append_right _ (List.mem_singleton_self _))

theorem Goes.tabClosed (h : Goes c hostId muxName a) (i : ℕ) :
    Goes c hostId muxName (handle c a (.tabClosed i)) := by
  rw [handle]
  split
  case h_2 => exact h
  case h_1 host mux hattempt =>
    obtain ⟨rfl, rfl⟩ := h.attempts _ (List.mem_of_getElem? hattempt)
    have hpending : ∀ n, (SessionId.pending a.fresh) ≠ .session n := fun n heq => nomatch heq
    unfold connect
    constructor
    case named =>
      rintro t (ht | ht) hin
      · obtain ht | ht := List.mem_append.1 ht
        · exact h.named t (Or.inl ht) hin
        · rw [List.mem_singleton.1 ht]
          exact ⟨rfl, rfl⟩
      · exact h.named t (Or.inr ht) hin
    case unused =>
      rintro t (ht | ht) n hn
      · obtain ht | ht := List.mem_append.1 ht
        · exact h.unused t (Or.inl ht) n (Nat.le_of_succ_le hn)
        · rw [List.mem_singleton.1 ht]
          exact hpending n
      · exact h.unused t (Or.inr ht) n (Nat.le_of_succ_le hn)
    case timers => exact h.timers
    case attempts =>
      intro x hx
      obtain hold | hnew := List.mem_append.1 hx
      · exact h.attempts x (List.mem_of_mem_eraseIdx hold)
      · rw [List.mem_singleton.1 hnew]
        exact ⟨rfl, rfl⟩
    case holds =>
      exact Or.inr ⟨_, List.mem_append_right _ (List.mem_singleton_self _), rfl, rfl⟩

theorem Goes.opened (h : Goes c hostId muxName a) (i : ℕ) :
    Goes c hostId muxName (handle c a (.returned i true)) := by
  rw [handle]
  split
  case h_2 => exact h
  case h_1 host mux pendingId hattempt =>
    obtain ⟨rfl, rfl⟩ := h.attempts _ (List.mem_of_getElem? hattempt)
    rw [if_pos rfl]
    -- A tab is as before, or it is the tab of the new session.
    have hmapped : ∀ t, t ∈ (a.tabs.map fun t => if t.sessionId = pendingId then
        (⟨.session a.fresh, host, .terminal, true, some mux⟩ : Tab) else t) →
        t ∈ a.tabs ∨ t = ⟨.session a.fresh, host, .terminal, true, some mux⟩ := by
      intro t ht
      obtain ⟨t', ht', rfl⟩ := List.mem_map.1 ht
      split
      · exact Or.inr rfl
      · exact Or.inl ht'
    have hlive : ∀ t, t ∈ a.tabs ∨ t ∈ a.tabsRef ∨ t ∈ c.tabs →
        t.sessionId ∈ a.live ++ [.session a.fresh] → t.Of host mux := by
      intro t ht hin
      obtain hold | hnew := List.mem_append.1 hin
      · exact h.named t ht hold
      · exact absurd (List.mem_singleton.1 hnew) (h.unused t ht a.fresh (Nat.le_refl _))
    unfold AutoReconnect.opened
    constructor
    case named =>
      rintro t (ht | ht) hin
      · obtain ht | rfl := hmapped t ht
        · exact hlive t (Or.inl ht) hin
        · exact ⟨rfl, rfl⟩
      · exact hlive t (Or.inr ht) hin
    case unused =>
      rintro t (ht | ht) n hn
      · obtain ht | rfl := hmapped t ht
        · exact h.unused t (Or.inl ht) n (Nat.le_of_succ_le hn)
        · intro heq
          cases heq
          exact absurd hn (Nat.not_succ_le_self _)
      · exact h.unused t (Or.inr ht) n (Nat.le_of_succ_le hn)
    case timers => exact h.timers
    case attempts => exact fun x hx => h.attempts x (List.mem_of_mem_eraseIdx hx)
    case holds =>
      refine h.holds.imp (fun hclosing => ?_) (holds_map fun t hof => ?_)
      · obtain ⟨j, hj⟩ := List.mem_iff_getElem?.1 hclosing
        have hij : j ≠ i := by
          rintro rfl
          cases hattempt.symm.trans hj
        exact List.mem_eraseIdx_iff_getElem?.2 ⟨j, hij, hj⟩
      · split
        · exact ⟨rfl, rfl⟩
        · exact hof

theorem Goes.handle (h : Goes c hostId muxName a) {e : Event}
    (hok : ∀ i, e ≠ .returned i false) : Goes c hostId muxName (handle c a e) := by
  cases e with
  | closed i => exact h.closed i
  | fire i => exact h.fire i
  | tabClosed i => exact h.tabClosed i
  | returned i ok =>
    cases ok with
    | true => exact h.opened i
    | false => exact absurd rfl (hok i)
  | render =>
    have hmem : ∀ t, t ∈ a.tabs ∨ t ∈ a.tabs ∨ t ∈ c.tabs →
        t ∈ a.tabs ∨ t ∈ a.tabsRef ∨ t ∈ c.tabs := by
      rintro t (ht | ht | ht)
      · exact Or.inl ht
      · exact Or.inl ht
      · exact Or.inr (Or.inr ht)
    exact
      { h with
        named := fun t ht hin => h.named t (hmem t ht) hin
        unused := fun t ht n hn => h.unused t (hmem t ht) n hn }

/-! ## Counting the reconnects -/

/-- The reconnects that have been made, and those that wait for their timers. -/
def due (a : App) : ℕ := a.reconnects + a.timers.length

theorem due_closed (sessionId : SessionId) (a : App) :
    due (closed sessionId a) ≤ due a + 1 := by
  unfold closed
  split
  · dsimp only
    split
    · simp only [due, List.length_append, List.length_singleton, Nat.add_assoc, Nat.le_refl]
    · exact Nat.le_succ _
  · exact Nat.le_succ _

theorem due_fire (c : Closure) (timer : Timer) (a : App) :
    due (fire c timer a) ≤ due a + 1 := by
  unfold fire
  split
  · exact Nat.le_succ _
  · split
    · exact Nat.le_succ _
    · split
      · simp only [due, closeTab]
        omega
      · exact Nat.le_succ _

/-- Only a drop makes a reconnect due. -/
theorem due_handle (c : Closure) (a : App) (e : Event) :
    due (handle c a e) ≤ due a + (if isDrop e then 1 else 0) := by
  cases e with
  | closed i =>
    rw [handle]
    split
    · exact due_closed _ _
    · exact Nat.le_succ _
  | fire i =>
    rw [handle]
    split
    case h_1 timer htimer =>
      have hlt : i < a.timers.length := (List.getElem?_eq_some_iff.1 htimer).1
      have hfire := due_fire c timer { a with timers := a.timers.eraseIdx i }
      simp only [due, List.length_eraseIdx_of_lt hlt] at hfire ⊢
      simp only [isDrop]
      omega
    case h_2 => exact Nat.le_refl _
  | tabClosed i =>
    rw [handle]
    split <;> exact Nat.le_refl _
  | returned i ok =>
    rw [handle]
    split
    · split <;> exact Nat.le_refl _
    · exact Nat.le_refl _
  | render => exact Nat.le_refl _

theorem due_run (c : Closure) (events : List Event) :
    ∀ a, due (run c a events) ≤ due a + (events.filter isDrop).length := by
  induction events with
  | nil => exact fun a => Nat.le_refl _
  | cons e events ih =>
    intro a
    have hstep := due_handle c a e
    have hrest := ih (handle c a e)
    change due (run c (handle c a e) events) ≤ _
    cases hdrop : isDrop e
    · rw [hdrop] at hstep
      rw [List.filter_cons_of_neg (by simp [hdrop])]
      exact hrest.trans (Nat.add_le_add_right hstep _)
    · rw [hdrop, if_pos rfl] at hstep
      rw [List.filter_cons_of_pos hdrop, List.length_cons]
      omega

theorem Goes.run {events : List Event} (hok : ∀ i, .returned i false ∉ events) :
    ∀ {a}, Goes c hostId muxName a → Goes c hostId muxName (run c a events) := by
  induction events with
  | nil => exact fun h => h
  | cons e events ih =>
    intro a h
    refine ih (fun i hin => hok i (List.mem_cons_of_mem _ hin)) (h.handle fun i heq => ?_)
    exact hok i (heq ▸ List.mem_cons_self)

theorem Mild.take {events seen : List Event} (h : Mild events) (hseen : seen <+: events) :
    Mild seen :=
  ⟨(hseen.sublist.filter isDrop).length_le.trans h.1,
    fun i hin => h.2 i (hseen.subset hin)⟩

/-- While the connection drops at most three times and no attempt fails, there are at most three
reconnects, and outside an attempt the tab is in the list. -/
theorem reconnect_bounded (c : Closure) (hostId muxName : String) {a : App}
    (h : Fresh c hostId muxName a) {events : List Event} (hmild : Mild events) :
    ∀ seen, seen <+: events → Kept hostId muxName (run c a seen) := by
  intro seen hseen
  obtain ⟨hdrops, hok⟩ := hmild.take hseen
  refine ⟨?_, fun hnone => ?_⟩
  · have hdue := due_run c seen a
    have hstart : due a = 0 := by rw [due, h.reconnects, h.timers, List.length_nil]
    rw [hstart, Nat.zero_add] at hdue
    exact (Nat.le_add_right _ _).trans (hdue.trans hdrops)
  · obtain hclosing | hholds := (h.goes.run hok).holds
    · rw [hnone] at hclosing
      cases hclosing
    · exact hholds

/-- A tab of the mux session `m` of the host `h`. -/
def sample : App where
  tabs := [⟨.session 0, "h", .terminal, true, some "m"⟩]
  tabsRef := [⟨.session 0, "h", .terminal, true, some "m"⟩]
  live := [.session 0]
  outputHandlers := [.session 0]
  reconnectAttempts _ := 0
  timers := []
  attempts := []
  fresh := 1
  reconnects := 0

theorem sample_fresh : Fresh ⟨["h"], []⟩ "h" "m" sample where
  holds := ⟨_, List.mem_singleton_self _, rfl, rfl⟩
  timers := rfl
  attempts := rfl
  reconnects := rfl
  named t ht _ := by
    rcases ht with ht | ht | ht
    · exact List.mem_singleton.1 ht ▸ ⟨rfl, rfl⟩
    · exact List.mem_singleton.1 ht ▸ ⟨rfl, rfl⟩
    · cases ht
  unused t ht n hn := by
    have hid : t.sessionId = .session 0 := by
      rcases ht with ht | ht | ht
      · rw [List.mem_singleton.1 ht]
      · rw [List.mem_singleton.1 ht]
      · cases ht
    rw [hid]
    intro heq
    cases heq
    exact absurd hn (by decide)

/-- The connection drops, the timer fires, and the attempt ends. -/
def dropped (ok : Bool) : List Event :=
  [.closed 0, .render, .fire 0, .tabClosed 0, .render, .returned 0 ok, .render]

theorem reconnect_bounded_sample :
    Kept "h" "m" (run ⟨["h"], []⟩ sample (dropped true ++ dropped true ++ dropped true)) :=
  reconnect_bounded ⟨["h"], []⟩ "h" "m" sample_fresh
    ⟨by decide, fun i => by simp [dropped]⟩ _ List.prefix_rfl

/-- One failed attempt leaves no tab, and a fourth drop makes a fourth reconnect. -/
theorem reconnect_fails :
    ¬ Kept "h" "m" (run ⟨["h"], []⟩ sample (dropped false)) ∧
      ¬ Kept "h" "m" (run ⟨["h"], []⟩ sample
        (dropped true ++ dropped true ++ dropped true ++ dropped true)) := by
  decide

end Tethra.AutoReconnect
