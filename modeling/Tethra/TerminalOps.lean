import Tethra.PromiseQueues

set_option autoImplicit false

/-!
# The operations of a terminal

Writes of PTY bytes and flushes of block phases go through one tail of promises a session.
-/
namespace Tethra.TerminalOps
open PromiseQueues

variable {S Op : Type*} [DecidableEq S]

/-- The map `terminalOpTail`, and every promise that has been in it. -/
abbrev Tails (S Op : Type*) := Queues S Op

/-- `prev.then(op, op)` is the new tail of the session. -/
def enqueueTerminalOp (sessionId : S) (op : Op) (tails : Tails S Op) : Tails S Op :=
  tails.enqueue sessionId op

inductive Event (S Op : Type*) where
  | enqueueTerminalOp (sessionId : S) (op : Op)
  /-- The reaction of the promise before calls the operation. -/
  | start (i : ℕ)
  | fulfil (i : ℕ)
  | reject (i : ℕ)
  /-- The callback of `next.finally`. -/
  | cleanUp (i : ℕ)

def handle (tails : Tails S Op) : Event S Op → Tails S Op
  | .enqueueTerminalOp sessionId op => enqueueTerminalOp sessionId op tails
  | .start i => tails.start true i
  | .fulfil i => tails.finish i true
  | .reject i => tails.finish i false
  | .cleanUp i => tails.cleanUp i

def run (events : List (Event S Op)) : Tails S Op := events.foldl handle .new

theorem run_ordered (events : List (Event S Op)) : (run events).Serial ∧ (run events).Started := by
  have hrun : ∀ q : Tails S Op, q.Serial → q.Started →
      (events.foldl handle q).Serial ∧ (events.foldl handle q).Started := by
    induction events with
    | nil => exact fun q hserial hstarted => ⟨hserial, hstarted⟩
    | cons e events ih =>
      intro q hserial hstarted
      refine ih (handle q e) ?_ ?_
      · cases e with
        | enqueueTerminalOp sessionId op => exact hserial.enqueue sessionId op
        | start i => exact hserial.start true i
        | fulfil i => exact hserial.finish i true
        | reject i => exact hserial.finish i false
        | cleanUp i => exact hserial.cleanUp i
      · cases e with
        | enqueueTerminalOp sessionId op => exact hstarted.enqueue sessionId op
        | start i => exact hstarted.start hserial (Queues.runs_both q) i
        | fulfil i => exact hstarted.finish i true
        | reject i => exact hstarted.finish i false
        | cleanUp i => exact hstarted.cleanUp i
  exact hrun .new Queues.serial_new Queues.started_new

end Tethra.TerminalOps
