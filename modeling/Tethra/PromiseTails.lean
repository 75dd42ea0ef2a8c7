import Mathlib.Logic.Function.Basic
import Mathlib.Data.List.Basic

set_option autoImplicit false

/-!
# Chains of promises behind one tail

Operations are appended to the promise that is the tail, or to a promise of their own when there
is no tail. While no promise is left behind with operations, the chains are one queue.
-/
namespace Tethra.PromiseTails

/-- The operation that is running, by what it waits for, and the operations behind it. -/
structure Chain (Op Wait : Type*) where
  running : Option Wait
  waiting : List Op

structure Tails (Op Wait : Type*) where
  chains : ℕ → Chain Op Wait
  tail : Option ℕ
  fresh : ℕ

variable {Op Wait : Type*}

def Chain.Idle (c : Chain Op Wait) : Prop := c.running = none ∧ c.waiting = []

instance (c : Chain Op Wait) : Decidable c.Idle :=
  match c with
  | ⟨none, []⟩ => .isTrue ⟨rfl, rfl⟩
  | ⟨some _, _⟩ => .isFalse fun h => nomatch h.1
  | ⟨none, _ :: _⟩ => .isFalse fun h => nomatch h.2

theorem Chain.Idle.eq {c : Chain Op Wait} (h : c.Idle) : c = ⟨none, []⟩ := by
  obtain ⟨running, waiting⟩ := c
  obtain ⟨rfl, rfl⟩ := h
  rfl

def Chain.push (c : Chain Op Wait) (op : Op) : Chain Op Wait :=
  { c with waiting := c.waiting ++ [op] }

namespace Tails

def new : Tails Op Wait := ⟨fun _ => ⟨none, []⟩, none, 0⟩

def set (t : Tails Op Wait) (i : ℕ) (c : Chain Op Wait) : Tails Op Wait :=
  { t with chains := Function.update t.chains i c }

/-- `prev.then(op, op)` becomes the tail. -/
def enqueue (t : Tails Op Wait) (op : Op) : Tails Op Wait :=
  match t.tail with
  | some i => t.set i ((t.chains i).push op)
  | none => { t.set t.fresh ⟨none, [op]⟩ with tail := some t.fresh, fresh := t.fresh + 1 }

/-- The operation that the chain can start. -/
def next (t : Tails Op Wait) (i : ℕ) : Option Op :=
  match t.chains i with
  | ⟨none, op :: _⟩ => some op
  | _ => none

/-- The operation has started, and what it waits for is open. -/
def start (t : Tails Op Wait) (i : ℕ) (running : Option Wait) : Tails Op Wait :=
  t.set i ⟨running, (t.chains i).waiting.tail⟩

def resolve (t : Tails Op Wait) (i : ℕ) : Tails Op Wait :=
  t.set i { t.chains i with running := none }

/-- `finally`: a tail that has settled is taken off. -/
def settle (t : Tails Op Wait) (i : ℕ) : Tails Op Wait :=
  if t.tail = some i ∧ (t.chains i).Idle then { t with tail := none } else t

def cut (t : Tails Op Wait) : Tails Op Wait := { t with tail := none }

/-- Every chain but the tail is idle, and the tail is the queue. -/
structure Queues (t : Tails Op Wait) (c : Chain Op Wait) : Prop where
  other : ∀ i, t.tail ≠ some i → (t.chains i).Idle
  tail : ∀ i, t.tail = some i → t.chains i = c ∧ i < t.fresh
  none : t.tail = none → c.Idle

variable {t : Tails Op Wait} {c : Chain Op Wait} {i : ℕ}

theorem queues_new : (new : Tails Op Wait).Queues ⟨none, []⟩ where
  other _ _ := ⟨rfl, rfl⟩
  tail _ h := nomatch h
  none _ := ⟨rfl, rfl⟩

@[simp] theorem enqueue_tail (op : Op) (htail : t.tail = some i) :
    (t.enqueue op).tail = some i := by
  simp [enqueue, htail, set]

theorem resolve_of_none (h : (t.chains i).running = none) : t.resolve i = t := by
  have hself : { t.chains i with running := none } = t.chains i := by
    rw [← h]
  unfold resolve set
  rw [hself, Function.update_eq_self]

namespace Queues

theorem chain (h : t.Queues c) (hne : ¬(t.chains i).Idle) : t.tail = some i ∧ t.chains i = c := by
  have htail : t.tail = some i := by
    by_contra htail
    exact hne (h.other i htail)
  exact ⟨htail, (h.tail i htail).1⟩

theorem set (h : t.Queues c) (htail : t.tail = some i) (c' : Chain Op Wait) :
    (t.set i c').Queues c' where
  other j hj := by
    have hne : j ≠ i := fun heq => hj (heq ▸ htail)
    simpa only [Tails.set, Function.update_of_ne hne] using h.other j hj
  tail j hj := by
    obtain rfl : i = j := Option.some.inj (htail.symm.trans hj)
    exact ⟨Function.update_self _ _ _, (h.tail i htail).2⟩
  none hnone := nomatch htail.symm.trans hnone

theorem enqueue (h : t.Queues c) (op : Op) : (t.enqueue op).Queues (c.push op) := by
  unfold Tails.enqueue
  split
  case h_1 i htail =>
    rw [(h.tail i htail).1]
    exact h.set htail _
  case h_2 htail =>
    have hpush : c.push op = ⟨Option.none, [op]⟩ := by
      rw [(h.none htail).eq]
      rfl
    rw [hpush]
    constructor
    case other =>
      intro j hj
      have hne : j ≠ t.fresh := fun heq => hj (heq ▸ rfl)
      simp only [Tails.set, Function.update_of_ne hne]
      exact h.other j (by simp [htail])
    case tail =>
      intro j hj
      obtain rfl : t.fresh = j := Option.some.inj hj
      exact ⟨Function.update_self _ _ _, Nat.lt_succ_self _⟩
    case none => exact fun hnone => nomatch hnone

theorem start (h : t.Queues c) {op : Op} (hnext : t.next i = some op) :
    ∃ rest, c = ⟨Option.none, op :: rest⟩ ∧
      ∀ running, (t.start i running).Queues ⟨running, rest⟩ := by
  obtain ⟨rest, hchain⟩ : ∃ rest, t.chains i = ⟨Option.none, op :: rest⟩ := by
    unfold Tails.next at hnext
    split at hnext
    case h_1 first rest hchain => exact ⟨rest, Option.some.inj hnext ▸ hchain⟩
    case h_2 => cases hnext
  obtain ⟨htail, heq⟩ := h.chain (i := i) (by simp [hchain, Chain.Idle])
  refine ⟨rest, heq ▸ hchain, fun running => ?_⟩
  unfold Tails.start
  rw [hchain]
  exact h.set htail _

theorem resolve (h : t.Queues c) {w : Wait} (hrunning : (t.chains i).running = some w) :
    c.running = some w ∧ (t.resolve i).Queues { c with running := Option.none } := by
  obtain ⟨htail, heq⟩ := h.chain (i := i) (by simp [hrunning, Chain.Idle])
  unfold Tails.resolve
  rw [heq] at hrunning ⊢
  exact ⟨hrunning, h.set htail _⟩

theorem settle (h : t.Queues c) (i : ℕ) : (t.settle i).Queues c := by
  unfold Tails.settle
  split
  case isTrue hi =>
    obtain ⟨htail, hidle⟩ := hi
    rw [(h.tail i htail).1] at hidle
    constructor
    case other =>
      intro j _
      by_cases hj : t.tail = some j
      · rw [(h.tail j hj).1]
        exact hidle
      · exact h.other j hj
    case tail => exact fun j hj => nomatch hj
    case none => exact fun _ => hidle
  case isFalse => exact h

theorem settle_of_running (h : t.Queues c) {w : Wait} (hrunning : c.running = some w) (i : ℕ) :
    t.settle i = t := by
  refine if_neg fun hi => ?_
  have hnone : c.running = Option.none := (h.tail i hi.1).1 ▸ hi.2.1
  cases hnone.symm.trans hrunning

theorem cut (h : t.Queues c) (hidle : ∀ i < t.fresh, (t.chains i).Idle) :
    c.Idle ∧ t.cut.Queues c := by
  have hqueue : c.Idle := by
    cases htail : t.tail with
    | none => exact h.none htail
    | some i =>
      obtain ⟨heq, hlt⟩ := h.tail i htail
      exact heq ▸ hidle i hlt
  refine ⟨hqueue, ⟨fun j _ => ?_, fun j hj => (nomatch hj), fun _ => hqueue⟩⟩
  by_cases hj : t.tail = some j
  · exact hidle j (h.tail j hj).2
  · exact h.other j hj

theorem idle_iff (h : t.Queues c) : c.Idle ↔ ∀ i < t.fresh, (t.chains i).Idle := by
  refine ⟨fun hidle i _ => ?_, fun hidle => (h.cut hidle).1⟩
  by_contra hne
  exact hne ((h.chain hne).2 ▸ hidle)

end Queues

end Tails

end Tethra.PromiseTails
