import Mathlib.Tactic

set_option autoImplicit false

/-!
# Tasks over a shared state

Any number of tasks over one state. What a task does between two of its suspension points is
one action: it changes the state, leaves the rest of the task and may spawn further tasks. The
answers of the environment come with the events, so a run is a list of events.
-/
namespace Tethra.SharedTasks

structure Crowd (σ P : Type) where
  shared : σ
  tasks : List P

inductive Event (P O : Type) where
  | spawn (p : P)
  | advance (i : ℕ) (o : O)

/-- What an action leaves: the state, the rest of its task and the tasks it spawned. -/
structure Effect (σ P : Type) where
  shared : σ
  rest : P
  spawned : List P

namespace Crowd
variable {σ P O : Type} (act : O → σ → P → Effect σ P)

def absorb (x : Crowd σ P) (i : ℕ) (e : Effect σ P) : Crowd σ P :=
  ⟨e.shared, x.tasks.set i e.rest ++ e.spawned⟩

def exec (x : Crowd σ P) : Event P O → Crowd σ P
  | .spawn p => { x with tasks := x.tasks ++ [p] }
  | .advance i o =>
    match x.tasks[i]? with
    | some p => x.absorb i (act o x.shared p)
    | none => x

def run (x : Crowd σ P) (es : List (Event P O)) : Crowd σ P := es.foldl (exec act) x

/-- Every event of the run is allowed where it happens. -/
def Follows (allowed : Crowd σ P → Event P O → Prop) (x : Crowd σ P) :
    List (Event P O) → Prop
  | [] => True
  | e :: es => allowed x e ∧ Follows allowed (exec act x e) es

variable {act} {x : Crowd σ P}

theorem exec_advance {i : ℕ} {o : O} {p : P} (hp : x.tasks[i]? = some p) :
    exec act x (.advance i o) = x.absorb i (act o x.shared p) := by
  simp only [exec, hp]

theorem exec_absent {i : ℕ} {o : O} (hp : x.tasks[i]? = none) :
    exec act x (.advance i o) = x := by
  simp only [exec, hp]

theorem mem_absorb {i : ℕ} {e : Effect σ P} {q : P} (hq : q ∈ (x.absorb i e).tasks) :
    q = e.rest ∨ q ∈ e.spawned ∨ ∃ j, j ≠ i ∧ x.tasks[j]? = some q := by
  rw [absorb, List.mem_append] at hq
  obtain hq | hq := hq
  · obtain ⟨j, hj⟩ := List.mem_iff_getElem?.1 hq
    rw [List.getElem?_set] at hj
    split at hj
    · split at hj
      · exact .inl (Option.some.inj hj).symm
      · cases hj
    · rename_i hne
      exact .inr (.inr ⟨j, Ne.symm hne, hj⟩)
  · exact .inr (.inl hq)

/-- Another task is still there after an action. -/
theorem mem_absorb_of_mem {i : ℕ} {e : Effect σ P} {p q : P} (hp : x.tasks[i]? = some p)
    (hq : q ∈ x.tasks) : q = p ∨ q ∈ (x.absorb i e).tasks := by
  obtain ⟨j, hj⟩ := List.mem_iff_getElem?.1 hq
  by_cases hji : j = i
  · rw [hji, hp] at hj
    exact .inl (Option.some.inj hj).symm
  · refine .inr (List.mem_append_left _ (List.mem_iff_getElem?.2 ⟨j, ?_⟩))
    rw [List.getElem?_set, if_neg (Ne.symm hji)]
    exact hj

theorem rest_mem_absorb {i : ℕ} {e : Effect σ P} {p : P} (hp : x.tasks[i]? = some p) :
    e.rest ∈ (x.absorb i e).tasks := by
  have hi : i < x.tasks.length := (List.getElem?_eq_some_iff.1 hp).1
  exact List.mem_append_left _ (List.mem_set hi _)

/-- What the tasks hold together, when the task at `i` gives up or takes something. -/
theorem flatMap_absorb {β : Type} (f : P → List β) {i : ℕ} {p : P} (hp : x.tasks[i]? = some p)
    (e : Effect σ P) : ((x.absorb i e).tasks.flatMap f ++ f p).Perm
      (x.tasks.flatMap f ++ (f e.rest ++ e.spawned.flatMap f)) := by
  obtain ⟨hi, rfl⟩ := List.getElem?_eq_some_iff.1 hp
  have hbefore : x.tasks = x.tasks.take i ++ x.tasks[i] :: x.tasks.drop (i + 1) := by
    rw [← List.drop_eq_getElem_cons hi, List.take_append_drop]
  have hafter : x.tasks.set i e.rest = x.tasks.take i ++ e.rest :: x.tasks.drop (i + 1) :=
    List.set_eq_take_append_cons_drop ▸ if_pos hi
  rw [absorb, hafter]
  conv_rhs => rw [hbefore]
  simp only [List.flatMap_append, List.flatMap_cons]
  rw [← Multiset.coe_eq_coe]
  simp only [← Multiset.coe_add]
  abel

/-- The state satisfies `I`, and each task satisfies `J` there. -/
def Holds (I : σ → Prop) (J : σ → P → Prop) (x : Crowd σ P) : Prop :=
  I x.shared ∧ ∀ p ∈ x.tasks, J x.shared p

section Rules
variable {I : σ → Prop} {J : σ → P → Prop}

theorem Holds.spawn (hx : x.Holds I J) {p : P} (hp : J x.shared p) :
    (exec act x (.spawn p)).Holds I J := by
  refine ⟨hx.1, fun q hq => ?_⟩
  obtain hq | hq := List.mem_append.1 hq
  · exact hx.2 q hq
  · rw [List.mem_singleton.1 hq]
    exact hp

/-- An action keeps the assertions if it keeps its own and does not interfere with those of the
other tasks. -/
theorem Holds.advance (hx : x.Holds I J) (i : ℕ) (o : O)
    (hact : ∀ p, x.tasks[i]? = some p → J x.shared p →
      I (act o x.shared p).shared ∧ J (act o x.shared p).shared (act o x.shared p).rest ∧
      (∀ q ∈ (act o x.shared p).spawned, J (act o x.shared p).shared q) ∧
      ∀ j q, j ≠ i → x.tasks[j]? = some q → J x.shared q → J (act o x.shared p).shared q) :
    (exec act x (.advance i o)).Holds I J := by
  rcases hp : x.tasks[i]? with _ | p
  · rw [exec_absent hp]
    exact hx
  · obtain ⟨hI, hrest, hspawned, hothers⟩ := hact p hp (hx.2 p (List.mem_of_getElem? hp))
    rw [exec_advance hp]
    refine ⟨hI, fun q hq => ?_⟩
    obtain rfl | hq | ⟨j, hji, hj⟩ := mem_absorb hq
    · exact hrest
    · exact hspawned q hq
    · exact hothers j q hji hj (hx.2 q (List.mem_of_getElem? hj))

end Rules

/-- What every allowed event keeps holds along every run that follows. -/
theorem Follows.invariant {allowed : Crowd σ P → Event P O → Prop} {K : Crowd σ P → Prop}
    (hstep : ∀ x e, K x → allowed x e → K (exec act x e)) {es : List (Event P O)}
    (hes : Follows act allowed x es) (hx : K x) : K (run act x es) := by
  induction es generalizing x with
  | nil => exact hx
  | cons e es ih => exact ih hes.2 (hstep x e hx hes.1)

/-- A run that follows is allowed at each of its events. -/
theorem Follows.split {allowed : Crowd σ P → Event P O → Prop} {before after : List (Event P O)}
    {e : Event P O} (hes : Follows act allowed x (before ++ e :: after)) :
    Follows act allowed x before ∧ allowed (run act x before) e := by
  induction before generalizing x with
  | nil => exact ⟨trivial, hes.1⟩
  | cons d before ih =>
    obtain ⟨hbefore, he⟩ := ih hes.2
    exact ⟨⟨hes.1, hbefore⟩, he⟩

end Crowd
end Tethra.SharedTasks
