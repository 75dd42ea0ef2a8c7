import Tethra.OutputPump
import Tethra.PromiseTails
import Tethra.SyncFilter

set_option autoImplicit false

/-!
# Block phases behind the writes of a terminal

The phases of the blocks wait in a queue of the tracker, and for each of them a flush waits in the
tail of the terminal's operations, behind the writes of the bytes that came before it.
-/
namespace Tethra.BlockPhases
open OutputPump (TerminalBlockPhase)
open SyncFilter (Bytes SyncClearFilter push)
open PromiseTails

structure Pending where
  phase : TerminalBlockPhase
  exitCode : Option ℤ
  deriving DecidableEq

/-- The closures that are enqueued, with their numbers among the writes and the flushes. -/
inductive TerminalOp where
  | write (number : ℕ) (raw : Bytes)
  | flush (number : ℕ)
  deriving DecidableEq

/-- A call of `terminal.write` whose callback resolves the promise of the chain. -/
structure TerminalWrite where
  chain : ℕ
  number : ℕ
  bytes : Bytes
  deriving DecidableEq

structure TerminalRecord where
  syncFilter : SyncClearFilter
  /-- What the terminal has taken and has not brought to its buffer. -/
  writes : List TerminalWrite
  deriving DecidableEq

/-- A call of `applyPhase`, with the writes that have reached the buffer by then. -/
structure Applied where
  phase : TerminalBlockPhase
  exitCode : Option ℤ
  reached : List ℕ
  deriving DecidableEq

/-- What the maps of the two modules hold for one session, and what has happened to it. -/
structure Session where
  record : Option TerminalRecord
  /-- `pending` of the tracker. -/
  tracker : Option (List Pending)
  terminalOpTail : Tails TerminalOp ℕ
  /-- The calls of `writeTerminal`. -/
  issued : ℕ
  /-- The calls of `scheduleFlushBlockPhases`. -/
  scheduled : ℕ
  /-- The writes whose filtered bytes have reached the buffer of the terminal. -/
  reached : List ℕ
  /-- The flushes that have run, with what each has applied. -/
  flushed : List (ℕ × Option Applied)

def Session.new : Session := ⟨none, none, .new, 0, 0, [], []⟩

/-! ## The operations of the terminal -/

def enqueueTerminalOp (op : TerminalOp) (s : Session) : Session :=
  { s with terminalOpTail := s.terminalOpTail.enqueue op }

def writeTerminal (raw : Bytes) (s : Session) : Session :=
  match s.record with
  | none => { s with issued := s.issued + 1 }
  | some _ => enqueueTerminalOp (.write s.issued raw) { s with issued := s.issued + 1 }

def queueBlockPhase (phase : TerminalBlockPhase) (exitCode : Option ℤ) (s : Session) : Session :=
  { s with tracker := some (s.tracker.getD [] ++ [⟨phase, exitCode⟩]) }

def scheduleFlushBlockPhases (s : Session) : Session :=
  enqueueTerminalOp (.flush s.scheduled) { s with scheduled := s.scheduled + 1 }

/-- The phase that is applied, and the tracker without it. -/
def flushBlockPhases : Option (List Pending) → Option Pending × Option (List Pending)
  | some (item :: pending) => (some item, some pending)
  | tracker => (none, tracker)

/-- The closure of `writeTerminal`. -/
def runWrite (chain number : ℕ) (raw : Bytes) (s : Session) : Session :=
  match s.record with
  | none => { s with terminalOpTail := s.terminalOpTail.start chain none }
  | some record =>
    let filtered := push record.syncFilter raw
    if filtered.2 = [] then
      { s with
        record := some { record with syncFilter := filtered.1 }
        reached := s.reached ++ [number]
        terminalOpTail := s.terminalOpTail.start chain none }
    else
      { s with
        record := some ⟨filtered.1, record.writes ++ [⟨chain, number, filtered.2⟩]⟩
        terminalOpTail := s.terminalOpTail.start chain (some number) }

/-- The closure of `scheduleFlushBlockPhases`. -/
def runFlush (chain number : ℕ) (s : Session) : Session :=
  match s.record with
  | none =>
    { s with
      flushed := s.flushed ++ [(number, none)]
      terminalOpTail := s.terminalOpTail.start chain none }
  | some _ =>
    let item := (flushBlockPhases s.tracker).1
    { s with
      tracker := (flushBlockPhases s.tracker).2
      flushed := s.flushed ++ [(number, item.map fun p => ⟨p.phase, p.exitCode, s.reached⟩)]
      terminalOpTail := s.terminalOpTail.start chain none }

def runOp (chain : ℕ) (s : Session) : Session :=
  match s.terminalOpTail.next chain with
  | some (.write number raw) => runWrite chain number raw s
  | some (.flush number) => runFlush chain number s
  | none => s

/-- The terminal brings the first of its writes to the buffer and calls `done`, which is without
effect when the promise has been resolved before. -/
def parsed (s : Session) : Session :=
  match s.record with
  | some ⟨syncFilter, w :: writes⟩ =>
    { s with
      record := some ⟨syncFilter, writes⟩
      reached := s.reached ++ [w.number]
      terminalOpTail :=
        if (s.terminalOpTail.chains w.chain).running = some w.number then
          s.terminalOpTail.resolve w.chain
        else s.terminalOpTail }
  | _ => s

def createTerminal (s : Session) : Session :=
  match s.record with
  | some _ => s
  | none => { s with record := some ⟨.new, []⟩ }

/-- The operations that are enqueued stay enqueued. -/
def disposeTerminal (s : Session) : Session :=
  match s.record with
  | none => s
  | some _ => { s with record := none, tracker := none, terminalOpTail := s.terminalOpTail.cut }

inductive Event where
  /-- `event.kind === "data"`. -/
  | data (raw : Bytes)
  /-- `event.kind === "block"`. -/
  | block (phase : TerminalBlockPhase) (exitCode : Option ℤ)
  | create
  | dispose
  /-- The next operation of a chain starts. -/
  | runOp (chain : ℕ)
  | parsed
  /-- `done` is called 500 ms after the call of `terminal.write`. -/
  | timeout (chain : ℕ)
  /-- The callback of `next.finally`. -/
  | settled (chain : ℕ)
  deriving DecidableEq

def handle (s : Session) : Event → Session
  | .data raw => writeTerminal raw s
  | .block phase exitCode => scheduleFlushBlockPhases (queueBlockPhase phase exitCode s)
  | .create => createTerminal s
  | .dispose => disposeTerminal s
  | .runOp chain => runOp chain s
  | .parsed => parsed s
  | .timeout chain => { s with terminalOpTail := s.terminalOpTail.resolve chain }
  | .settled chain => { s with terminalOpTail := s.terminalOpTail.settle chain }

/-- The sessions of the application after the events. -/
def run {K : Type*} [DecidableEq K] (sessions : K → Session) (events : List (K × Event)) :
    K → Session :=
  events.foldl (fun sessions e => Function.update sessions e.1 (handle (sessions e.1) e.2)) sessions

def eventsOf {K : Type*} [DecidableEq K] (sessionId : K) (events : List (K × Event)) :
    List Event :=
  events.filterMap fun e => if e.1 = sessionId then some e.2 else none

/-! ## What is due -/

/-- Each flush has to apply the phase that was queued with it, when exactly the writes issued
before it have reached the buffer. -/
def due : ℕ → ℕ → List Event → List (ℕ × Option Applied)
  | _, _, [] => []
  | issued, scheduled, .data _ :: events => due (issued + 1) scheduled events
  | issued, scheduled, .block phase exitCode :: events =>
    (scheduled, some ⟨phase, exitCode, List.range issued⟩) :: due issued (scheduled + 1) events
  | issued, scheduled, _ :: events => due issued scheduled events

/-- No operation of the session is enqueued or running. -/
def Session.Quiet (s : Session) : Prop :=
  ∀ i < s.terminalOpTail.fresh, (s.terminalOpTail.chains i).Idle

/-- There is a terminal when bytes come and when an operation starts, it is disposed of between
the operations, and a write reaches the buffer before its time is up. -/
def Steady (s : Session) : Event → Prop
  | .data _ => s.record.isSome
  | .runOp chain => (s.terminalOpTail.next chain).isSome → s.record.isSome
  | .dispose => s.record.isSome → s.Quiet
  | .timeout chain => (s.terminalOpTail.chains chain).running = none
  | _ => True

instance (s : Session) : Decidable s.Quiet := by
  unfold Session.Quiet
  infer_instance

instance (s : Session) (e : Event) : Decidable (Steady s e) := by
  cases e <;> unfold Steady <;> infer_instance

def SteadyRun : Session → List Event → Prop
  | _, [] => True
  | s, e :: events => Steady s e ∧ SteadyRun (handle s e) events

instance : (s : Session) → (events : List Event) → Decidable (SteadyRun s events)
  | _, [] => .isTrue trivial
  | s, e :: events =>
    have := instDecidableSteadyRun (handle s e) events
    inferInstanceAs (Decidable (Steady s e ∧ SteadyRun (handle s e) events))

/-! ## The queue of operations against the queue of phases -/

/-- With `n` writes in the buffer, the operations bring the writes up to `issued` there and apply
the phases that are pending. -/
inductive Lined : ℕ → List TerminalOp → List Pending → ℕ → List (ℕ × Option Applied) → Prop
  | nil {n : ℕ} : Lined n [] [] n []
  | write {n issued : ℕ} {ops : List TerminalOp} {pending : List Pending}
      {owed : List (ℕ × Option Applied)} {raw : Bytes} (rest : Lined (n + 1) ops pending issued owed) :
      Lined n (.write n raw :: ops) pending issued owed
  | flush {n issued i : ℕ} {ops : List TerminalOp} {p : Pending} {pending : List Pending}
      {owed : List (ℕ × Option Applied)} (rest : Lined n ops pending issued owed) :
      Lined n (.flush i :: ops) (p :: pending) issued
        ((i, some ⟨p.phase, p.exitCode, List.range n⟩) :: owed)

variable {n issued : ℕ} {ops : List TerminalOp} {pending : List Pending}
  {owed : List (ℕ × Option Applied)}

theorem Lined.empty (h : Lined n [] pending issued owed) : pending = [] ∧ owed = [] := by
  cases h
  exact ⟨rfl, rfl⟩

theorem Lined.of_write {number : ℕ} {raw : Bytes}
    (h : Lined n (.write number raw :: ops) pending issued owed) :
    number = n ∧ Lined (n + 1) ops pending issued owed := by
  cases h with
  | write rest => exact ⟨rfl, rest⟩

theorem Lined.of_flush {i : ℕ} (h : Lined n (.flush i :: ops) pending issued owed) :
    ∃ p pending' owed', pending = p :: pending' ∧
      owed = (i, some ⟨p.phase, p.exitCode, List.range n⟩) :: owed' ∧
      Lined n ops pending' issued owed' := by
  cases h with
  | flush rest => exact ⟨_, _, _, rfl, rfl, rest⟩

theorem Lined.snoc_write (h : Lined n ops pending issued owed) (raw : Bytes) :
    Lined n (ops ++ [.write issued raw]) pending (issued + 1) owed := by
  induction h with
  | nil => exact .write .nil
  | write _ ih => exact .write ih
  | flush _ ih => exact .flush ih

theorem Lined.snoc_flush (h : Lined n ops pending issued owed) (i : ℕ) (p : Pending) :
    Lined n (ops ++ [.flush i]) (pending ++ [p]) issued
      (owed ++ [(i, some ⟨p.phase, p.exitCode, List.range issued⟩)]) := by
  induction h with
  | nil => exact .flush .nil
  | write _ ih => exact .write ih
  | flush _ ih => exact .flush ih

/-- What the terminal has taken is the write that is running. -/
def Writing (s : Session) (n : ℕ) : Option ℕ → Prop
  | none => ∀ record, s.record = some record → record.writes = []
  | some number => number = n ∧ ∃ syncFilter w, s.record = some ⟨syncFilter, [w]⟩ ∧
      w.number = n ∧ s.terminalOpTail.tail = some w.chain

/-- The chains are one queue of operations, and what the flushes have applied followed by what the
queue will have applied is `target`. -/
structure Paired (s : Session) (c : Chain TerminalOp ℕ) (target : List (ℕ × Option Applied)) :
    Prop where
  queues : s.terminalOpTail.Queues c
  reached : s.reached = List.range s.reached.length
  writing : Writing s s.reached.length c.running
  lined : ∃ owed, s.flushed ++ owed = target ∧
    Lined (s.reached.length + c.running.toList.length) c.waiting (s.tracker.getD []) s.issued owed

variable {s : Session} {c : Chain TerminalOp ℕ} {target : List (ℕ × Option Applied)} {raw : Bytes}

namespace Paired

theorem new : Paired .new ⟨none, []⟩ [] where
  queues := Tails.queues_new
  reached := rfl
  writing _ hrecord := nomatch hrecord
  lined := ⟨[], rfl, .nil⟩

theorem writing_enqueue {n : ℕ} {running : Option ℕ} (h : Writing s n running)
    {s' : Session} {op : TerminalOp} (hrecord : s'.record = s.record)
    (htail : s'.terminalOpTail = s.terminalOpTail.enqueue op) : Writing s' n running := by
  cases running with
  | none => exact fun record hr => h record (hrecord ▸ hr)
  | some number =>
    obtain ⟨hnumber, syncFilter, w, hw, hn, hchain⟩ := h
    exact ⟨hnumber, syncFilter, w, hrecord.trans hw, hn, htail ▸ Tails.enqueue_tail op hchain⟩

theorem writeTerminal (h : Paired s c target) (raw : Bytes) (hrecord : s.record.isSome) :
    Paired (writeTerminal raw s) (c.push (.write s.issued raw)) target := by
  obtain ⟨record, hsome⟩ := Option.isSome_iff_exists.1 hrecord
  obtain ⟨owed, htarget, hlined⟩ := h.lined
  have hwrite : BlockPhases.writeTerminal raw s =
      enqueueTerminalOp (.write s.issued raw) { s with issued := s.issued + 1 } := by
    simp only [BlockPhases.writeTerminal, hsome]
  rw [hwrite]
  exact
    { queues := h.queues.enqueue _
      reached := h.reached
      writing := writing_enqueue h.writing rfl rfl
      lined := ⟨owed, htarget, hlined.snoc_write raw⟩ }

theorem block (h : Paired s c target) (phase : TerminalBlockPhase) (exitCode : Option ℤ) :
    Paired (scheduleFlushBlockPhases (queueBlockPhase phase exitCode s))
      (c.push (.flush s.scheduled))
      (target ++ [(s.scheduled, some ⟨phase, exitCode, List.range s.issued⟩)]) := by
  obtain ⟨owed, htarget, hlined⟩ := h.lined
  have hdue : s.flushed ++ (owed ++ [(s.scheduled, some ⟨phase, exitCode, List.range s.issued⟩)]) =
      target ++ [(s.scheduled, some ⟨phase, exitCode, List.range s.issued⟩)] := by
    rw [← htarget, List.append_assoc]
  exact
    { queues := h.queues.enqueue _
      reached := h.reached
      writing := writing_enqueue h.writing rfl rfl
      lined := ⟨_, hdue, hlined.snoc_flush s.scheduled ⟨phase, exitCode⟩⟩ }

theorem createTerminal (h : Paired s c target) : Paired (createTerminal s) c target := by
  unfold BlockPhases.createTerminal
  split
  case h_1 => exact h
  case h_2 hnone =>
    refine { h with writing := ?_ }
    have hwriting := h.writing
    cases hrunning : c.running with
    | none => exact fun record hrecord => Option.some.inj hrecord ▸ rfl
    | some number =>
      rw [hrunning] at hwriting
      obtain ⟨-, syncFilter, w, hw, -⟩ := hwriting
      cases hnone.symm.trans hw

theorem disposeTerminal (h : Paired s c target) (hquiet : s.record.isSome → s.Quiet) :
    Paired (disposeTerminal s) c target := by
  unfold BlockPhases.disposeTerminal
  split
  case h_1 => exact h
  case h_2 record hrecord =>
    obtain ⟨hidle, hcut⟩ := h.queues.cut (hquiet (hrecord ▸ rfl))
    obtain ⟨owed, htarget, hlined⟩ := h.lined
    have hc := hidle.eq
    subst hc
    -- No flush is enqueued, so no phase is lost with the tracker.
    rw [hlined.empty.1] at hlined
    exact
      { queues := hcut
        reached := h.reached
        writing := fun _ hnone => nomatch hnone
        lined := ⟨owed, htarget, hlined⟩ }

theorem runWrite (h : Paired s ⟨none, .write n raw :: ops⟩ target) {chain : ℕ}
    (hstart : ∀ running, (s.terminalOpTail.start chain running).Queues ⟨running, ops⟩)
    (hrecord : s.record.isSome) :
    ∃ c, Paired (runWrite chain n raw s) c target := by
  obtain ⟨record, hsome⟩ := Option.isSome_iff_exists.1 hrecord
  obtain ⟨owed, htarget, hlined⟩ := h.lined
  obtain ⟨hn, hrest⟩ := hlined.of_write
  obtain rfl : n = s.reached.length := hn
  have hempty : record.writes = [] := h.writing record hsome
  have hreached : s.reached ++ [s.reached.length] =
      List.range (s.reached ++ [s.reached.length]).length := by
    rw [List.length_append, List.length_singleton, List.range_succ, ← h.reached]
  unfold BlockPhases.runWrite
  simp only [hsome]
  split
  case isTrue =>
    exact ⟨⟨none, ops⟩,
      { queues := hstart none
        reached := hreached
        writing := fun _ hr => Option.some.inj hr ▸ hempty
        lined := ⟨owed, htarget, by simpa using hrest⟩ }⟩
  case isFalse =>
    have htail := ((hstart (some s.reached.length)).chain (i := chain)
      (by simp [Tails.start, Tails.set, Chain.Idle])).1
    exact ⟨⟨some s.reached.length, ops⟩,
      { queues := hstart _
        reached := h.reached
        writing := ⟨rfl, _, _, by rw [hempty]; rfl, rfl, htail⟩
        lined := ⟨owed, htarget, hrest⟩ }⟩

theorem runFlush (h : Paired s ⟨none, .flush n :: ops⟩ target) {chain : ℕ}
    (hstart : ∀ running, (s.terminalOpTail.start chain running).Queues ⟨running, ops⟩)
    (hrecord : s.record.isSome) :
    ∃ c, Paired (runFlush chain n s) c target := by
  obtain ⟨record, hsome⟩ := Option.isSome_iff_exists.1 hrecord
  obtain ⟨owed, htarget, hlined⟩ := h.lined
  obtain ⟨p, pending, rest, hpending, rfl, hrest⟩ := hlined.of_flush
  have htracker : s.tracker = some (p :: pending) := by
    cases htracker : s.tracker with
    | none =>
      rw [htracker] at hpending
      cases hpending
    | some _ =>
      rw [htracker] at hpending
      exact congrArg some hpending
  unfold BlockPhases.runFlush
  simp only [hsome, htracker, flushBlockPhases, Option.map_some]
  refine ⟨⟨none, ops⟩,
    { queues := hstart none
      reached := h.reached
      writing := fun record hr => h.writing record (hsome.trans hr)
      lined := ⟨rest, ?_, hrest⟩ }⟩
  change s.flushed ++ [(n, some ⟨p.phase, p.exitCode, s.reached⟩)] ++ rest = target
  rw [← htarget, List.append_assoc, h.reached]
  simp

theorem runOp (h : Paired s c target) (chain : ℕ)
    (hrecord : (s.terminalOpTail.next chain).isSome → s.record.isSome) :
    ∃ c, Paired (runOp chain s) c target := by
  unfold BlockPhases.runOp
  split
  case h_1 number raw hnext =>
    obtain ⟨ops, rfl, hstart⟩ := h.queues.start hnext
    exact h.runWrite hstart (hrecord (hnext ▸ rfl))
  case h_2 number hnext =>
    obtain ⟨ops, rfl, hstart⟩ := h.queues.start hnext
    exact h.runFlush hstart (hrecord (hnext ▸ rfl))
  case h_3 => exact ⟨c, h⟩

theorem parsed (h : Paired s c target) : ∃ c, Paired (parsed s) c target := by
  obtain ⟨running, ops⟩ := c
  unfold BlockPhases.parsed
  split
  case h_2 => exact ⟨_, h⟩
  case h_1 syncFilter w writes hrecord =>
    cases running with
    | none => cases h.writing _ hrecord
    | some number =>
      obtain ⟨hrunning, filter, w', htaken, hnumber, htail⟩ := h.writing
      obtain rfl : number = s.reached.length := hrunning
      obtain ⟨-, rfl, rfl⟩ : syncFilter = filter ∧ w = w' ∧ writes = [] := by
        simpa using hrecord.symm.trans htaken
      obtain ⟨owed, htarget, hlined⟩ := h.lined
      have hrunning : (s.terminalOpTail.chains w.chain).running = some s.reached.length := by
        rw [(h.queues.tail _ htail).1]
      obtain ⟨-, hresolve⟩ := h.queues.resolve hrunning
      refine ⟨⟨none, ops⟩,
        { queues := ?_
          reached := ?_
          writing := fun _ hr => Option.some.inj hr ▸ rfl
          lined := ⟨owed, htarget, by simpa using hlined⟩ }⟩
      · simpa only [hnumber, hrunning, if_true] using hresolve
      · change s.reached ++ [w.number] = List.range (s.reached ++ [w.number]).length
        rw [List.length_append, List.length_singleton, List.range_succ, ← h.reached, hnumber]

theorem settled (h : Paired s c target) (chain : ℕ) :
    Paired { s with terminalOpTail := s.terminalOpTail.settle chain } c target := by
  refine { h with queues := h.queues.settle chain, writing := ?_ }
  have hwriting := h.writing
  cases hrunning : c.running with
  | none =>
    rw [hrunning] at hwriting
    exact hwriting
  | some number =>
    rw [h.queues.settle_of_running hrunning, ← hrunning]
    exact hwriting

end Paired

/-- What one event adds to what is due. -/
def dueNext (s : Session) : Event → List (ℕ × Option Applied)
  | .block phase exitCode => [(s.scheduled, some ⟨phase, exitCode, List.range s.issued⟩)]
  | _ => []

theorem Paired.handle (h : Paired s c target) {e : Event} (hsteady : Steady s e) :
    ∃ c, Paired (handle s e) c (target ++ dueNext s e) := by
  cases e with
  | block phase exitCode => exact ⟨_, h.block phase exitCode⟩
  | data raw =>
    simp only [dueNext, List.append_nil]
    exact ⟨_, h.writeTerminal raw hsteady⟩
  | create =>
    simp only [dueNext, List.append_nil]
    exact ⟨_, h.createTerminal⟩
  | dispose =>
    simp only [dueNext, List.append_nil]
    exact ⟨_, h.disposeTerminal hsteady⟩
  | runOp chain =>
    simp only [dueNext, List.append_nil]
    exact h.runOp chain hsteady
  | parsed =>
    simp only [dueNext, List.append_nil]
    exact h.parsed
  | timeout chain =>
    have hsame : BlockPhases.handle s (.timeout chain) = s := by
      simp only [BlockPhases.handle, Tails.resolve_of_none hsteady]
    simp only [hsame, dueNext, List.append_nil]
    exact ⟨c, h⟩
  | settled chain =>
    simp only [dueNext, List.append_nil]
    exact ⟨_, h.settled chain⟩

theorem runOp_counts (chain : ℕ) (s : Session) :
    (runOp chain s).issued = s.issued ∧ (runOp chain s).scheduled = s.scheduled := by
  unfold runOp
  split
  · unfold runWrite
    split
    · exact ⟨rfl, rfl⟩
    · dsimp only
      split <;> exact ⟨rfl, rfl⟩
  · unfold runFlush
    split <;> exact ⟨rfl, rfl⟩
  · exact ⟨rfl, rfl⟩

theorem due_cons (s : Session) (e : Event) (events : List Event) :
    due s.issued s.scheduled (e :: events) =
      dueNext s e ++ due (handle s e).issued (handle s e).scheduled events := by
  cases e with
  | block phase exitCode => rfl
  | timeout chain => rfl
  | settled chain => rfl
  | data raw =>
    change _ = due (writeTerminal raw s).issued (writeTerminal raw s).scheduled events
    unfold writeTerminal
    split <;> rfl
  | create =>
    change _ = due (createTerminal s).issued (createTerminal s).scheduled events
    unfold createTerminal
    split <;> rfl
  | dispose =>
    change _ = due (disposeTerminal s).issued (disposeTerminal s).scheduled events
    unfold disposeTerminal
    split <;> rfl
  | runOp chain =>
    change _ = due (runOp chain s).issued (runOp chain s).scheduled events
    rw [(runOp_counts chain s).1, (runOp_counts chain s).2]
    rfl
  | parsed =>
    change _ = due (parsed s).issued (parsed s).scheduled events
    unfold parsed
    split <;> rfl

theorem Paired.run (events : List Event) (h : Paired s c target) (hsteady : SteadyRun s events) :
    ∃ c, Paired (events.foldl BlockPhases.handle s) c
      (target ++ due s.issued s.scheduled events) := by
  induction events generalizing s c target with
  | nil => exact ⟨c, by simpa [due] using h⟩
  | cons e events ih =>
    obtain ⟨c', hnext⟩ := h.handle hsteady.1
    rw [due_cons, ← List.append_assoc]
    exact ih hnext hsteady.2

/-- The events of the other sessions are without effect. -/
theorem run_apply {K : Type*} [DecidableEq K] (events : List (K × Event)) (sessions : K → Session)
    (sessionId : K) :
    run sessions events sessionId =
      (eventsOf sessionId events).foldl handle (sessions sessionId) := by
  induction events generalizing sessions with
  | nil => rfl
  | cons e events ih =>
    obtain ⟨id, e⟩ := e
    change run (Function.update sessions id (handle (sessions id) e)) events sessionId = _
    rw [ih]
    by_cases hid : id = sessionId
    · subst hid
      have hcons : eventsOf id ((id, e) :: events) = e :: eventsOf id events :=
        List.filterMap_cons_some (if_pos rfl)
      rw [hcons, Function.update_self, List.foldl_cons]
    · have hcons : eventsOf sessionId ((id, e) :: events) = eventsOf sessionId events :=
        List.filterMap_cons_none (if_neg hid)
      rw [hcons, Function.update_of_ne (Ne.symm hid)]

/-- The flushes that have run applied what was due to each, in order, and when nothing is enqueued
every flush has run. -/
theorem phases_paired {K : Type*} [DecidableEq K] (events : List (K × Event)) (sessionId : K)
    (hsteady : SteadyRun .new (eventsOf sessionId events)) :
    (run (fun _ => .new) events sessionId).flushed <+: due 0 0 (eventsOf sessionId events) ∧
      ((run (fun _ => .new) events sessionId).Quiet →
        (run (fun _ => .new) events sessionId).flushed = due 0 0 (eventsOf sessionId events)) := by
  obtain ⟨c, hpaired⟩ := Paired.new.run _ hsteady
  rw [List.nil_append, ← run_apply events (fun _ => .new) sessionId] at hpaired
  change Paired _ c (due 0 0 (eventsOf sessionId events)) at hpaired
  obtain ⟨owed, htarget, hlined⟩ := hpaired.lined
  refine ⟨⟨owed, htarget⟩, fun hquiet => ?_⟩
  have hidle : c.Idle := hpaired.queues.idle_iff.2 hquiet
  rw [hidle.2] at hlined
  rw [← htarget, hlined.empty.2, List.append_nil]

/-- Two terminals of a session, one after the other. -/
def reopened : List (ℕ × Event) :=
  [(0, .create), (0, .data [0x24]), (0, .block .promptStart none), (0, .runOp 0), (0, .parsed),
    (0, .runOp 0), (0, .settled 0), (0, .dispose), (0, .block .commandStart none), (0, .create),
    (0, .data [0x1b]), (0, .runOp 1), (0, .runOp 1), (0, .block .commandEnd (some 1)),
    (0, .runOp 1), (0, .runOp 1)]

theorem phases_paired_reopened :
    (run (fun _ => .new) reopened 0).flushed = due 0 0 (eventsOf 0 reopened) :=
  (phases_paired reopened 0 (by decide)).2 (by decide)

/-- A block event comes before there is a terminal. -/
def early : List (ℕ × Event) :=
  [(0, .block .promptStart none), (0, .runOp 0), (0, .settled 0), (0, .create), (0, .data [0x24]),
    (0, .block .commandStart none), (0, .runOp 1), (0, .parsed), (0, .runOp 1), (0, .settled 1)]

theorem phases_paired_fails :
    (run (fun _ => .new) early 0).flushed =
        [(0, none), (1, some ⟨.promptStart, none, [0]⟩)] ∧
      due 0 0 (eventsOf 0 early) =
        [(0, some ⟨.promptStart, none, []⟩), (1, some ⟨.commandStart, none, [0]⟩)] ∧
      ¬ (run (fun _ => .new) early 0).flushed <+: due 0 0 (eventsOf 0 early) := by
  decide

end Tethra.BlockPhases
