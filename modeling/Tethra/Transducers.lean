import Mathlib.Data.List.Basic
import Mathlib.Tactic

set_option autoImplicit false

/-!
# Machines that read one symbol at a time

A step reads a symbol and emits some. What a machine emits over a stream does not depend on
how the stream is cut, and a property of every step is one of every run.
-/
namespace Tethra.Transducers

structure Transducer (σ α β : Type) where
  step : σ → α → σ × List β

namespace Transducer
variable {σ α β : Type} (M : Transducer σ α β)

def state (s : σ) : List α → σ
  | [] => s
  | a :: as => state (M.step s a).1 as

def output (s : σ) : List α → List β
  | [] => []
  | a :: as => (M.step s a).2 ++ output (M.step s a).1 as

def run (s : σ) (as : List α) : σ × List β := (M.state s as, M.output s as)

@[simp] theorem state_nil (s : σ) : M.state s [] = s := rfl

@[simp] theorem output_nil (s : σ) : M.output s [] = [] := rfl

@[simp] theorem state_cons (s : σ) (a : α) (as : List α) :
    M.state s (a :: as) = M.state (M.step s a).1 as := rfl

@[simp] theorem output_cons (s : σ) (a : α) (as : List α) :
    M.output s (a :: as) = (M.step s a).2 ++ M.output (M.step s a).1 as := rfl

theorem state_append (s : σ) (as bs : List α) :
    M.state s (as ++ bs) = M.state (M.state s as) bs := by
  induction as generalizing s with
  | nil => rfl
  | cons a as ih => exact ih _

theorem output_append (s : σ) (as bs : List α) :
    M.output s (as ++ bs) = M.output s as ++ M.output (M.state s as) bs := by
  induction as generalizing s with
  | nil => rfl
  | cons a as ih => simp [ih]

/-- A run goes on from where its first part ends. -/
theorem run_append {s t : σ} {as : List α} {emitted : List β} (h : M.run s as = (t, emitted))
    (more : List α) : M.run s (as ++ more) = ((M.run t more).1, emitted ++ (M.run t more).2) := by
  obtain ⟨hstate, houtput⟩ := Prod.mk.inj h
  rw [run, state_append, output_append, hstate, houtput]
  rfl

/-- The state before each symbol of a stream, with the symbol. -/
def Visits (s : σ) (as : List α) (t : σ) (a : α) : Prop :=
  ∃ before after, as = before ++ a :: after ∧ t = M.state s before

theorem visits_cons {s t : σ} {a b : α} {as : List α} :
    M.Visits s (a :: as) t b ↔ (t = s ∧ b = a) ∨ M.Visits (M.step s a).1 as t b := by
  constructor
  · rintro ⟨before, after, has, rfl⟩
    cases before with
    | nil =>
      cases has
      exact Or.inl ⟨rfl, rfl⟩
    | cons c before =>
      cases has
      exact Or.inr ⟨before, after, rfl, rfl⟩
  · rintro (⟨rfl, rfl⟩ | ⟨before, after, rfl, rfl⟩)
    · exact ⟨[], as, rfl, rfl⟩
    · exact ⟨a :: before, after, rfl, rfl⟩

theorem not_visits_nil {s t : σ} {a : α} : ¬ M.Visits s [] t a := by
  rintro ⟨before, after, has, -⟩
  simp at has

/-- What holds at first and is kept by every step of the stream holds at its end. -/
theorem state_induction {I : σ → Prop} {s : σ} {as : List α} (hs : I s)
    (hstep : ∀ t a, M.Visits s as t a → I t → I (M.step t a).1) : I (M.state s as) := by
  induction as generalizing s with
  | nil => exact hs
  | cons a as ih =>
    apply ih
    · exact hstep s a (M.visits_cons.2 (Or.inl ⟨rfl, rfl⟩)) hs
    · intro t b hvisit
      exact hstep t b (M.visits_cons.2 (Or.inr hvisit))

theorem mem_output {s : σ} {as : List α} {b : β} :
    b ∈ M.output s as ↔ ∃ t a, M.Visits s as t a ∧ b ∈ (M.step t a).2 := by
  induction as generalizing s with
  | nil =>
    refine ⟨fun h => absurd h (by simp), fun ⟨t, a, h, _⟩ => (M.not_visits_nil h).elim⟩
  | cons c as ih =>
    rw [output_cons, List.mem_append, ih]
    constructor
    · rintro (h | ⟨t, a, hvisit, h⟩)
      · exact ⟨s, c, M.visits_cons.2 (Or.inl ⟨rfl, rfl⟩), h⟩
      · exact ⟨t, a, M.visits_cons.2 (Or.inr hvisit), h⟩
    · rintro ⟨t, a, hvisit, h⟩
      obtain ⟨rfl, rfl⟩ | hvisit := M.visits_cons.1 hvisit
      · exact Or.inl h
      · exact Or.inr ⟨t, a, hvisit, h⟩

/-- A state some symbol is read in has what holds at first and is kept by every step. -/
theorem Visits.invariant {I : σ → Prop} {s t : σ} {a : α} {as : List α}
    (hvisit : M.Visits s as t a) (hs : I s) (hstep : ∀ t a, I t → I (M.step t a).1) : I t := by
  obtain ⟨before, after, -, rfl⟩ := hvisit
  exact M.state_induction hs fun t a _ => hstep t a

/-- The states a stream is read in, in order. -/
def visited (s : σ) : List α → List (σ × α)
  | [] => []
  | a :: as => (s, a) :: visited (M.step s a).1 as

theorem mem_visited {s t : σ} {a : α} {as : List α} :
    (t, a) ∈ M.visited s as ↔ M.Visits s as t a := by
  induction as generalizing s with
  | nil => exact iff_of_false (by simp [visited]) M.not_visits_nil
  | cons b as ih => rw [visited, List.mem_cons, ih, visits_cons, Prod.mk.injEq]

/-- Symbols that change nothing and emit nothing. -/
theorem run_idle {s : σ} {as : List α} (h : ∀ a ∈ as, M.step s a = (s, [])) :
    M.run s as = (s, []) := by
  induction as with
  | nil => rfl
  | cons a as ih =>
    have hrest := ih fun b hb => h b (List.mem_cons_of_mem a hb)
    rw [run, state_cons, output_cons, h a List.mem_cons_self]
    exact hrest

/-- Symbols that are gathered one by one while there is room for them. -/
theorem run_gather {hold : List α → σ} {kept : α → Prop} {room : ℕ}
    (hstep : ∀ gathered a, (∀ b ∈ gathered, kept b) → kept a → gathered.length < room →
      M.step (hold gathered) a = (hold (gathered ++ [a]), []))
    {gathered as : List α} (hgathered : ∀ a ∈ gathered, kept a) (has : ∀ a ∈ as, kept a)
    (hroom : gathered.length + as.length ≤ room) :
    M.run (hold gathered) as = (hold (gathered ++ as), []) := by
  induction as generalizing gathered with
  | nil => rw [List.append_nil]; rfl
  | cons a as ih =>
    rw [List.length_cons] at hroom
    have ha : kept a := has a List.mem_cons_self
    have hrest := @ih (gathered ++ [a]) ?_ (fun b hb => has b (List.mem_cons_of_mem a hb)) ?_
    · rw [List.append_assoc, List.singleton_append] at hrest
      rw [run, state_cons, output_cons, hstep gathered a hgathered ha (by omega)]
      exact hrest
    · intro b hb
      obtain hb | hb := List.mem_append.1 hb
      · exact hgathered b hb
      · rw [List.mem_singleton.1 hb]
        exact ha
    · rw [List.length_append, List.length_singleton]
      omega

/-- The second machine reads what the first emits. -/
def comp {τ γ : Type} (N : Transducer τ β γ) : Transducer (σ × τ) α γ where
  step s a := (((M.step s.1 a).1, N.state s.2 (M.step s.1 a).2), N.output s.2 (M.step s.1 a).2)

theorem output_comp {τ γ : Type} (N : Transducer τ β γ) (s : σ) (t : τ) (as : List α) :
    (M.comp N).output (s, t) as = N.output t (M.output s as) := by
  induction as generalizing s t with
  | nil => rfl
  | cons a as ih =>
    have hrest := ih (M.step s a).1 (N.state t (M.step s a).2)
    simp only [output_cons, output_append, comp] at hrest ⊢
    rw [hrest]

/-- The outputs of a stream that arrives in chunks. -/
def pushes (push : σ → List α → σ × List β) (s : σ) : List (List α) → List (List β)
  | [] => []
  | chunk :: chunks => (push s chunk).2 :: pushes push (push s chunk).1 chunks

/-- A reader of chunks that does what the machine does emits the same however the stream is
cut. -/
theorem flatten_pushes {push : σ → List α → σ × List β} (hpush : ∀ s as, push s as = M.run s as)
    (s : σ) (chunks : List (List α)) :
    (pushes push s chunks).flatten = M.output s chunks.flatten := by
  induction chunks generalizing s with
  | nil => rfl
  | cons chunk chunks ih =>
    rw [pushes, List.flatten_cons, List.flatten_cons, output_append, ih, hpush]
    rfl

end Transducer
end Tethra.Transducers
