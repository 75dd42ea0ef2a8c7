import Tethra.AtomicPrograms

set_option autoImplicit false

/-!
# Read, compute, replace

Programs of atomic actions on a store of rows, any number at once. An action looks at a row
when its outcome depends on it. Where every row that a program replaces is still the row it
saw, each row has a serial history of updates.
-/
namespace Tethra.RowUpdates
open AtomicPrograms StatefulActions

structure Store (σ κ ρ : Type) where
  key : ρ → κ
  row : σ → κ → Option ρ
  put : ρ → σ → σ

section Traces
variable {σ ε κ ρ α β : Type} (S : Store σ κ ρ)

/-- Some row under `k` changes the outcome. -/
def Looks (k : κ) (m : Action σ ε α) : Prop := ∃ s r, S.key r = k ∧ (m (S.put r s)).1 ≠ (m s).1

/-- In some state the action installs `r`. -/
def Puts (r : ρ) (m : Action σ ε α) : Prop :=
  ∃ s, S.row s (S.key r) ≠ some r ∧ S.row (m s).2 (S.key r) = some r

/-- What a program has looked at and what it has installed. -/
structure Trace (κ ρ : Type) where
  seen : κ → Option ρ → Prop
  puts : ρ → Prop

namespace Trace

def empty : Trace κ ρ := ⟨fun _ _ => False, fun _ => False⟩

def after (g : Trace κ ρ) (m : Action σ ε α) (s : σ) : Trace κ ρ where
  seen k r := g.seen k r ∨ (Looks S k m ∧ r = S.row s k)
  puts r := g.puts r ∨ (Puts S r m ∧ ∃ a, (m s).1 = .ok a)

structure Le (g g' : Trace κ ρ) : Prop where
  seen : ∀ k r, g.seen k r → g'.seen k r
  puts : ∀ r, g.puts r → g'.puts r

theorem Le.refl (g : Trace κ ρ) : Le g g := ⟨fun _ _ h => h, fun _ h => h⟩

theorem Le.trans {g g' g'' : Trace κ ρ} (h : Le g g') (h' : Le g' g'') : Le g g'' :=
  ⟨fun k r hr => h'.seen k r (h.seen k r hr), fun r hr => h'.puts r (h.puts r hr)⟩

theorem le_after (g : Trace κ ρ) (m : Action σ ε α) (s : σ) : Le g (g.after S m s) :=
  ⟨fun _ _ h => Or.inl h, fun _ h => Or.inl h⟩

end Trace

def Quiet (m : Action σ ε α) : Prop := ∀ s k, S.row (m s).2 k = S.row s k

/-- The action installs `rows`, all or none of them. -/
structure Sets (rows : κ → Option ρ) (m : Action σ ε α) : Prop where
  keyed : ∀ k r, rows k = some r → S.key r = k
  puts : ∀ k r, rows k = some r → Puts S r m
  failed : ∀ s e, (m s).1 = .error e → ∀ k, S.row (m s).2 k = S.row s k
  done : ∀ s a, (m s).1 = .ok a → ∀ k, S.row (m s).2 k = (rows k).or (S.row s k)

variable {S}

theorem Quiet.not_puts {m : Action σ ε α} (h : Quiet S m) (r : ρ) : ¬ Puts S r m := by
  rintro ⟨s, hne, hput⟩
  exact hne ((h s _).symm.trans hput)

theorem Quiet.sets {m : Action σ ε α} (h : Quiet S m) : Sets S (fun _ => none) m where
  keyed k r hr := by cases hr
  puts k r hr := by cases hr
  failed s _ _ k := h s k
  done s _ _ k := h s k

/-- What an action installs is determined by the action. -/
theorem Sets.puts_iff {rows : κ → Option ρ} {m : Action σ ε α} (h : Sets S rows m) {r : ρ} :
    Puts S r m ↔ rows (S.key r) = some r := by
  constructor
  · rintro ⟨s, hne, hput⟩
    cases hm : (m s).1 with
    | error e =>
      rw [h.failed s e hm] at hput
      exact (hne hput).elim
    | ok a =>
      rw [h.done s a hm] at hput
      cases hrows : rows (S.key r) with
      | none =>
        rw [hrows, Option.none_or] at hput
        exact (hne hput).elim
      | some r' =>
        rw [hrows] at hput
        exact hput
  · exact h.puts _ r

open Classical in
/-- The row an action installs under `k`. -/
noncomputable def putOf (S : Store σ κ ρ) (k : κ) (m : Action σ ε α) : Option ρ :=
  if h : ∃ r, S.key r = k ∧ Puts S r m then some h.choose else none

theorem putOf_sets {rows : κ → Option ρ} {m : Action σ ε α} (h : Sets S rows m) (k : κ) :
    putOf S k m = rows k := by
  unfold putOf
  split
  · rename_i hex
    obtain ⟨hkey, hput⟩ := hex.choose_spec
    rw [← h.puts_iff.1 hput, hkey]
  · rename_i hnone
    cases hrows : rows k with
    | none => rfl
    | some r => exact (hnone ⟨r, h.keyed k r hrows, h.puts k r hrows⟩).elim

end Traces

/-! ## Programs that update what they have seen -/

section Grounds
variable {σ ε κ ρ α β : Type} (S : Store σ κ ρ) (I A : σ → Prop)
variable (G : (κ → Option ρ → Prop) → ρ → Prop)

/-- Every row the program installs is one that `G` allows after what was seen. The program
keeps `I` and relies on `A`. -/
def Grounded (Q : α → Trace κ ρ → Prop) : Program σ ε α → Trace κ ρ → Prop
  | .ret a, g => Q a g
  | .act m next, g => m.Keeps I ∧
      (∃ rows, Sets S rows m ∧ ∀ k r, rows k = some r → G g.seen r) ∧
      ∀ s b, I s → A s → (m s).1 = .ok b → Grounded Q (next b) (g.after S m s)

/-- An action that changes no row. -/
def Idles (m : Action σ ε α) : Prop := m.Keeps I ∧ Quiet S m

variable {S I A G}

theorem Idles.grounds {m : Action σ ε α} (hm : Idles S I m) (g : Trace κ ρ) :
    ∃ rows, Sets S rows m ∧ ∀ k r, rows k = some r → G g.seen r :=
  ⟨_, hm.2.sets, fun _ _ hr => by cases hr⟩

theorem Grounded.pure {Q : α → Trace κ ρ → Prop} {a : α} {g : Trace κ ρ} (h : Q a g) :
    Grounded S I A G Q (pure a : Program σ ε α) g := h

theorem Grounded.bind {Q : β → Trace κ ρ → Prop} {p : Program σ ε α} {f : α → Program σ ε β}
    {g : Trace κ ρ} (hp : Grounded S I A G (fun a g' => Grounded S I A G Q (f a) g') p g) :
    Grounded S I A G Q (p >>= f) g := by
  change Grounded S I A G Q (p.bind f) g
  induction p generalizing g with
  | ret a => exact hp
  | act m next ih => exact ⟨hp.1, hp.2.1, fun s b hs hA hb => ih b (hp.2.2 s b hs hA hb)⟩

theorem Grounded.mono {Q Q' : α → Trace κ ρ → Prop} {p : Program σ ε α} {g : Trace κ ρ}
    (h : Grounded S I A G Q p g) (hQ : ∀ a g', Q a g' → Q' a g') :
    Grounded S I A G Q' p g := by
  induction p generalizing g with
  | ret a => exact hQ a g h
  | act m next ih => exact ⟨h.1, h.2.1, fun s b hs hA hb => ih b (h.2.2 s b hs hA hb)⟩

theorem Grounded.allow {G' : (κ → Option ρ → Prop) → ρ → Prop} {Q : α → Trace κ ρ → Prop}
    {p : Program σ ε α} {g : Trace κ ρ} (h : Grounded S I A G Q p g)
    (hG : ∀ seen r, G seen r → G' seen r) : Grounded S I A G' Q p g := by
  induction p generalizing g with
  | ret a => exact h
  | act m next ih =>
    obtain ⟨hkeeps, ⟨rows, hsets, hrows⟩, hnext⟩ := h
    refine ⟨hkeeps, ⟨rows, hsets, fun k r hr => hG _ r (hrows k r hr)⟩, ?_⟩
    exact fun s b hs hA hb => ih b (hnext s b hs hA hb)

theorem Grounded.idle {Q : α → Trace κ ρ → Prop} {m : Action σ ε α} {g : Trace κ ρ}
    (hm : Idles S I m)
    (hQ : ∀ s a, I s → A s → (m s).1 = .ok a → Q a (g.after S m s)) :
    Grounded S I A G Q (Program.lift m) g :=
  ⟨hm.1, hm.grounds g, hQ⟩

theorem Grounded.install {Q : α → Trace κ ρ → Prop} {m : Action σ ε α} {g : Trace κ ρ}
    {rows : κ → Option ρ} (hkeeps : m.Keeps I) (hm : Sets S rows m)
    (hG : ∀ k r, rows k = some r → G g.seen r)
    (hQ : ∀ a g', g.Le g' → (∀ k r, rows k = some r → g'.puts r) → Q a g') :
    Grounded S I A G Q (Program.lift m) g := by
  refine ⟨hkeeps, ⟨rows, hm, hG⟩, fun s a _ _ ha => hQ a _ (Trace.le_after S g m s) ?_⟩
  intro k r hr
  exact Or.inr ⟨hm.puts k r hr, a, ha⟩

/-- A program that only reads. -/
theorem Grounded.of_each {Q : α → Trace κ ρ → Prop} {p : Program σ ε α} {g : Trace κ ρ}
    (hp : p.Each fun m => Idles S I m) (hQ : ∀ a g', g.Le g' → Q a g') :
    Grounded S I A G Q p g := by
  induction p generalizing g with
  | ret a => exact hQ a g (.refl g)
  | act m next ih =>
    refine ⟨hp.1.1, hp.1.grounds g, fun s b _ _ _ => ih b (hp.2 b) fun a g' hle => ?_⟩
    exact hQ a g' ((Trace.le_after S g m s).trans hle)

theorem looks_attempt {k : κ} {m : Action σ ε α} : Looks S k (Action.attempt m) ↔ Looks S k m := by
  simp [Looks, Action.attempt]

/-- A reading program whose error its caller looks at. -/
theorem Grounded.attempt {Q : Except ε α → Trace κ ρ → Prop} {p : Program σ ε α}
    {g : Trace κ ρ} (hp : p.Each fun m => Idles S I m)
    (h : Grounded S I A G (fun a g' => Q (.ok a) g') p g)
    (herror : ∀ e g', g.Le g' → Q (.error e) g') : Grounded S I A G Q p.attempt g := by
  induction p generalizing g with
  | ret a => exact h
  | act m next ih =>
    have hidle : Idles S I (Action.attempt m) := ⟨hp.1.1.attempt, hp.1.2⟩
    refine ⟨hidle.1, hidle.grounds g, fun s r hs hA hr => ?_⟩
    have hr' : (m s).1 = r := Except.ok.inj hr
    have hsame : g.after S (Action.attempt m) s = g.after S m s := by
      simp only [Trace.after, looks_attempt, hidle.2.not_puts, hp.1.2.not_puts, false_and]
    rw [hsame]
    cases r with
    | ok b =>
      apply ih b (hp.2 b) (h.2.2 s b hs hA hr')
      intro e g' hle
      exact herror e g' ((Trace.le_after S g m s).trans hle)
    | error e => exact herror e _ (Trace.le_after S g m s)

end Grounds

/-! ## Any number of programs on one store -/

section Boards
variable {σ ε κ ρ J T : Type}

inductive Task (σ ε J : Type) : Type 1 where
  | running (job : J) (p : Program σ ε Unit)
  | finished (job : J) (r : Except ε Unit)

def Task.job : Task σ ε J → J
  | .running job _ => job
  | .finished job _ => job

structure Board (σ ε J T : Type) : Type 1 where
  state : σ
  tasks : T → Option (Task σ ε J)

inductive Step (σ J T : Type) where
  | start (t : T) (job : J)
  | advance (t : T)
  /-- The state changes outside the tasks. -/
  | meanwhile (f : σ → σ)

/-- One row installed, by whom and for which job. -/
structure Entry (J T ρ : Type) where
  task : T
  job : J
  row : ρ

variable [DecidableEq T] (S : Store σ κ ρ) (I : σ → Prop) (A : J → σ → Prop)
variable (program : J → Program σ ε Unit)

def resume {β : Type} (job : J) (next : β → Program σ ε Unit) : Except ε β → Task σ ε J
  | .ok b => .running job (next b)
  | .error e => .finished job (.error e)

def Board.settle (x : Board σ ε J T) (t : T) (s : σ) (task : Task σ ε J) : Board σ ε J T :=
  ⟨s, Function.update x.tasks t (some task)⟩

theorem tasks_settle (x : Board σ ε J T) (t u : T) (s : σ) (task : Task σ ε J) :
    (x.settle t s task).tasks u = if u = t then some task else x.tasks u := by
  simp [Board.settle, Function.update_apply]

def perform (x : Board σ ε J T) : Step σ J T → Board σ ε J T
  | .start t job =>
    match x.tasks t with
    | none => x.settle t x.state (.running job (program job))
    | some _ => x
  | .advance t =>
    match x.tasks t with
    | some (.running job (.ret u)) => x.settle t x.state (.finished job (.ok u))
    | some (.running job (.act m next)) =>
      x.settle t (m x.state).2 (resume job next (m x.state).1)
    | _ => x
  | .meanwhile f => { x with state := f x.state }

def run (x : Board σ ε J T) (steps : List (Step σ J T)) : Board σ ε J T :=
  steps.foldl (perform program) x

def watch (x : Board σ ε J T) (g : T → Trace κ ρ) : Step σ J T → T → Trace κ ρ
  | .advance t =>
    match x.tasks t with
    | some (.running _ (.act m _)) => Function.update g t ((g t).after S m x.state)
    | _ => g
  | _ => g

theorem seen_watch {x : Board σ ε J T} {g : T → Trace κ ρ} {step : Step σ J T} {t : T} {k : κ}
    {old : Option ρ} (h : (watch S x g step t).seen k old) :
    (g t).seen k old ∨ old = S.row x.state k := by
  cases step with
  | start u job => exact Or.inl h
  | meanwhile f => exact Or.inl h
  | advance u =>
    rcases hu : x.tasks u with _ | ⟨job, _ | ⟨m, next⟩⟩ | ⟨job, r⟩
    · simp only [watch, hu] at h
      exact Or.inl h
    · simp only [watch, hu] at h
      exact Or.inl h
    · simp only [watch, hu] at h
      by_cases htu : t = u
      · rw [htu, Function.update_self] at h
        rw [htu]
        exact h.imp_right And.right
      · rw [Function.update_of_ne htu] at h
        exact Or.inl h
    · simp only [watch, hu] at h
      exact Or.inl h

/-- The row a step has installed under `k`. -/
noncomputable def installs (k : κ) (x : Board σ ε J T) : Step σ J T → List (Entry J T ρ)
  | .advance t =>
    match x.tasks t with
    | some (.running job (.act m _)) =>
      match (m x.state).1 with
      | .ok _ => (putOf S k m).toList.map fun r => ⟨t, job, r⟩
      | .error _ => []
    | _ => []
  | _ => []

noncomputable def history (k : κ) (x : Board σ ε J T) :
    List (Step σ J T) → List (Entry J T ρ)
  | [] => []
  | step :: steps => installs S k x step ++ history k (perform program x step) steps

/-- A row about to be installed replaces the row seen at every look, and a new one is the
first under its key. A task takes an action where its job may rely on `A`. -/
def Current (fresh : J → ρ → Prop) (x : Board σ ε J T) (g : T → Trace κ ρ) :
    Step σ J T → Prop
  | .start _ _ => True
  | .advance t => ∀ job (β : Type) (m : Action σ ε β) (next : β → Program σ ε Unit),
      x.tasks t = some (.running job (.act m next)) → A job x.state ∧ ∀ r, Puts S r m →
      (∀ old, (g t).seen (S.key r) old → old = S.row x.state (S.key r)) ∧
        (fresh job r → S.row x.state (S.key r) = none)
  | .meanwhile f => (I x.state → I (f x.state)) ∧ ∀ k, S.row (f x.state) k = S.row x.state k

def Along (fresh : J → ρ → Prop) : Board σ ε J T → (T → Trace κ ρ) → List (Step σ J T) → Prop
  | _, _, [] => True
  | x, g, step :: steps => Current S I A fresh x g step ∧
      Along fresh (perform program x step) (watch S x g step) steps

def watchRun (x : Board σ ε J T) (g : T → Trace κ ρ) : List (Step σ J T) → T → Trace κ ρ
  | [] => g
  | step :: steps => watchRun (perform program x step) (watch S x g step) steps

theorem along_append (fresh : J → ρ → Prop) (x : Board σ ε J T) (g : T → Trace κ ρ)
    (before after : List (Step σ J T)) :
    Along S I A program fresh x g (before ++ after) ↔ Along S I A program fresh x g before ∧
      Along S I A program fresh (run program x before) (watchRun S program x g before) after := by
  induction before generalizing x g with
  | nil => exact (and_iff_right trivial).symm
  | cons step before ih =>
    rw [List.cons_append, Along, Along, ih, and_assoc]
    rfl

/-- What a job may install after what it has seen. -/
def Allows (fresh : J → ρ → Prop) (follows : J → Option ρ → ρ → Prop) (job : J)
    (seen : κ → Option ρ → Prop) (r : ρ) : Prop :=
  (∃ old, seen (S.key r) old ∧ follows job old r) ∨ (fresh job r ∧ follows job none r)

theorem Allows.mono {fresh : J → ρ → Prop} {follows : J → Option ρ → ρ → Prop} {job : J}
    {g g' : Trace κ ρ} {r : ρ} (h : Allows S fresh follows job g.seen r) (hle : g.Le g') :
    Allows S fresh follows job g'.seen r := by
  obtain ⟨old, hold, hfollows⟩ | hnew := h
  · exact Or.inl ⟨old, hle.seen _ _ hold, hfollows⟩
  · exact Or.inr hnew

/-- Each entry follows from the row before it. -/
def Chain (follows : J → Option ρ → ρ → Prop) :
    Option ρ → List (Entry J T ρ) → Option ρ → Prop
  | old, [], new => new = old
  | old, entry :: rest, new =>
    follows entry.job old entry.row ∧ Chain follows (some entry.row) rest new

omit [DecidableEq T] in
theorem Chain.append {follows : J → Option ρ → ρ → Prop} {xs ys : List (Entry J T ρ)}
    {a b c : Option ρ} (h : Chain follows a xs b) (h' : Chain follows b ys c) :
    Chain follows a (xs ++ ys) c := by
  induction xs generalizing a with
  | nil =>
    obtain rfl : b = a := h
    exact h'
  | cons entry xs ih => exact ⟨h.1, ih h.2⟩

end Boards

section Histories
variable {σ ε κ ρ J T : Type} [DecidableEq T]
variable {S : Store σ κ ρ} {I : σ → Prop} {A : J → σ → Prop} {program : J → Program σ ε Unit}
variable {fresh : J → ρ → Prop} {follows : J → Option ρ → ρ → Prop}
variable {Q : J → Unit → Trace κ ρ → Prop} {x : Board σ ε J T} {g : T → Trace κ ρ}
variable {es : κ → List (Entry J T ρ)}

/-- What the tasks do is allowed after what they saw, and the rows they have installed are in
the histories `es`. -/
structure Traced (S : Store σ κ ρ) (I : σ → Prop) (A : J → σ → Prop) (fresh : J → ρ → Prop)
    (follows : J → Option ρ → ρ → Prop) (Q : J → Unit → Trace κ ρ → Prop) (x : Board σ ε J T)
    (g : T → Trace κ ρ) (es : κ → List (Entry J T ρ)) : Prop where
  state : I x.state
  running : ∀ t job p, x.tasks t = some (.running job p) →
    Grounded S I (A job) (Allows S fresh follows job) (Q job) p (g t)
  finished : ∀ t job u, x.tasks t = some (.finished job (.ok u)) → Q job u (g t)
  idle : ∀ t, x.tasks t = none → g t = Trace.empty
  recorded : ∀ t task r, x.tasks t = some task → (g t).puts r → ⟨t, task.job, r⟩ ∈ es (S.key r)

/-- The task `t` goes on to `task`, with the trace and the rows it has then. -/
theorem Traced.settle (hx : Traced S I A fresh follows Q x g es) {t : T} {s : σ}
    {task : Task σ ε J} {g' : Trace κ ρ} {new : κ → List (Entry J T ρ)} (hs : I s)
    (hrun : ∀ job p, task = .running job p →
      Grounded S I (A job) (Allows S fresh follows job) (Q job) p g')
    (hfin : ∀ job u, task = .finished job (.ok u) → Q job u g')
    (hrec : ∀ r, g'.puts r → ⟨t, task.job, r⟩ ∈ es (S.key r) ++ new (S.key r)) :
    Traced S I A fresh follows Q (x.settle t s task) (Function.update g t g')
      fun k => es k ++ new k where
  state := hs
  running u job p hu := by
    rw [tasks_settle] at hu
    split at hu
    · rename_i h
      rw [h, Function.update_self]
      exact hrun job p (Option.some.inj hu)
    · rename_i h
      rw [Function.update_of_ne h]
      exact hx.running u job p hu
  finished u job v hu := by
    rw [tasks_settle] at hu
    split at hu
    · rename_i h
      rw [h, Function.update_self]
      exact hfin job v (Option.some.inj hu)
    · rename_i h
      rw [Function.update_of_ne h]
      exact hx.finished u job v hu
  idle u hu := by
    rw [tasks_settle] at hu
    split at hu
    · cases hu
    · rename_i h
      rw [Function.update_of_ne h]
      exact hx.idle u hu
  recorded u task' r hu hr := by
    rw [tasks_settle] at hu
    split at hu
    · rename_i h
      rw [h, Function.update_self] at hr
      rw [h, ← Option.some.inj hu]
      exact hrec r hr
    · rename_i h
      rw [Function.update_of_ne h] at hr
      exact List.mem_append_left _ (hx.recorded u task' r hu hr)

omit [DecidableEq T] in
theorem Traced.idles (hx : Traced S I A fresh follows Q x g es) :
    Traced S I A fresh follows Q x g fun k => es k ++ [] := by
  simpa using hx

/-- A step of a task that installs nothing. -/
theorem Traced.settle_idle (hx : Traced S I A fresh follows Q x g es) {t : T} {s : σ}
    {task : Task σ ε J} {g' : Trace κ ρ} (hs : I s)
    (hrun : ∀ job p, task = .running job p →
      Grounded S I (A job) (Allows S fresh follows job) (Q job) p g')
    (hfin : ∀ job u, task = .finished job (.ok u) → Q job u g')
    (hrec : ∀ r, g'.puts r → ⟨t, task.job, r⟩ ∈ es (S.key r)) :
    Traced S I A fresh follows Q (x.settle t s task) (Function.update g t g')
      fun k => es k ++ [] :=
  hx.settle hs hrun hfin fun r hr => List.mem_append_left _ (hrec r hr)

/-- An action of a task that is allowed to take it. -/
theorem Traced.act (hx : Traced S I A fresh follows Q x g es) {t : T} {job : J}
    {β : Type} {m : Action σ ε β} {next : β → Program σ ε Unit}
    (ht : x.tasks t = some (.running job (.act m next)))
    (hcur : Current S I A fresh x g (.advance t)) :
    Traced S I A fresh follows Q (x.settle t (m x.state).2 (resume job next (m x.state).1))
      (Function.update g t ((g t).after S m x.state))
      (fun k => es k ++ installs S k x (.advance t)) ∧
    ∀ k, Chain follows (S.row x.state k) (installs S k x (.advance t))
      (S.row (m x.state).2 k) := by
  obtain ⟨hkeeps, ⟨rows, hsets, hG⟩, hnext⟩ := hx.running t job _ ht
  have hrec : ∀ r, (g t).puts r → ⟨t, job, r⟩ ∈ es (S.key r) := fun r => hx.recorded t _ r ht
  cases hm : (m x.state).1 with
  | error e =>
    have hnone : ∀ k, installs S k x (.advance t) = [] := by
      intro k
      simp only [installs, ht, hm]
    simp only [hnone]
    refine ⟨hx.settle (hkeeps _ hx.state) ?_ ?_ ?_, fun k => hsets.failed _ e hm k⟩
    · intro job' p hp
      cases hp
    · intro job' u hu
      cases hu
    · rintro r (hr | ⟨-, a, ha⟩)
      · exact List.mem_append_left _ (hrec r hr)
      · rw [hm] at ha
        cases ha
  | ok b =>
    have hsome : ∀ k, installs S k x (.advance t) = (rows k).toList.map fun r => ⟨t, job, r⟩ := by
      intro k
      simp only [installs, ht, hm, putOf_sets hsets]
    simp only [hsome]
    constructor
    · refine hx.settle (hkeeps _ hx.state) ?_ ?_ ?_
      · intro job' p hp
        cases hp
        exact hnext _ b hx.state (hcur job β m next ht).1 hm
      · intro job' u hu
        cases hu
      · rintro r (hr | ⟨hr, -⟩)
        · exact List.mem_append_left _ (hrec r hr)
        · apply List.mem_append_right
          simp [hsets.puts_iff.1 hr, resume, Task.job]
    · intro k
      rw [hsets.done _ b hm]
      cases hrows : rows k with
      | none => exact rfl
      | some r =>
        obtain rfl := hsets.keyed k r hrows
        obtain ⟨hseen, hfresh⟩ := (hcur job β m next ht).2 r (hsets.puts _ r hrows)
        refine ⟨?_, rfl⟩
        obtain ⟨old, hold, hfollows⟩ | ⟨hnew, hfollows⟩ := hG _ r hrows
        · rw [← hseen old hold]
          exact hfollows
        · rw [hfresh hnew]
          exact hfollows

omit [DecidableEq T] in
/-- No task has begun. -/
theorem traced_idle (hidle : ∀ t, x.tasks t = none) (hI : I x.state) :
    Traced S I A fresh follows Q x (fun _ => Trace.empty) fun _ => [] := by
  refine ⟨hI, ?_, ?_, fun t _ => rfl, ?_⟩
  · intro t job p ht
    rw [hidle t] at ht
    cases ht
  · intro t job u ht
    rw [hidle t] at ht
    cases ht
  · intro t task r ht
    rw [hidle t] at ht
    cases ht

variable (hjobs : ∀ job,
  Grounded S I (A job) (Allows S fresh follows job) (Q job) (program job) Trace.empty)
include hjobs

theorem Traced.perform (hx : Traced S I A fresh follows Q x g es)
    {step : Step σ J T} (hcur : Current S I A fresh x g step) :
    Traced S I A fresh follows Q (perform program x step) (watch S x g step)
      (fun k => es k ++ installs S k x step) ∧
    ∀ k, Chain follows (S.row x.state k) (installs S k x step)
      (S.row (RowUpdates.perform program x step).state k) := by
  cases step with
  | start t job =>
    cases ht : x.tasks t with
    | some task =>
      simp only [RowUpdates.perform, ht]
      exact ⟨hx.idles, fun k => rfl⟩
    | none =>
      have hg : Function.update g t Trace.empty = g := by
        rw [← hx.idle t ht, Function.update_eq_self]
      simp only [RowUpdates.perform, watch, installs, ht]
      rw [← hg]
      refine ⟨hx.settle_idle hx.state ?_ ?_ ?_, fun k => rfl⟩
      · intro job' p hp
        cases hp
        exact hjobs job
      · intro job' u hu
        cases hu
      · intro r hr
        exact hr.elim
  | meanwhile f =>
    refine ⟨⟨hcur.1 hx.state, hx.running, hx.finished, hx.idle, ?_⟩, hcur.2⟩
    exact fun t task r ht hr => List.mem_append_left _ (hx.recorded t task r ht hr)
  | advance t =>
    rcases ht : x.tasks t with _ | ⟨job, p⟩ | ⟨job, r⟩
    · simp only [RowUpdates.perform, watch, installs, ht]
      exact ⟨hx.idles, fun k => rfl⟩
    · cases p with
      | ret u =>
        have hg : Function.update g t (g t) = g := Function.update_eq_self t g
        simp only [RowUpdates.perform, watch, installs, ht]
        rw [← hg]
        refine ⟨hx.settle_idle hx.state ?_ ?_ ?_, fun k => rfl⟩
        · intro job' p hp
          cases hp
        · intro job' v hv
          cases hv
          exact hx.running t job _ ht
        · intro r hr
          exact hx.recorded t (.running job (.ret u)) r ht hr
      | act m next =>
        have hstep : RowUpdates.perform program x (.advance t) =
            x.settle t (m x.state).2 (resume job next (m x.state).1) := by
          simp only [RowUpdates.perform, ht]
        have hwatch : watch S x g (.advance t) =
            Function.update g t ((g t).after S m x.state) := by
          simp only [watch, ht]
        rw [hstep, hwatch]
        exact hx.act ht hcur
    · simp only [RowUpdates.perform, watch, installs, ht]
      exact ⟨hx.idles, fun k => rfl⟩

theorem Traced.run (steps : List (Step σ J T)) (hx : Traced S I A fresh follows Q x g es)
    (halong : Along S I A program fresh x g steps) :
    (∃ g', Traced S I A fresh follows Q (run program x steps) g'
      fun k => es k ++ history S program k x steps) ∧
    ∀ k, Chain follows (S.row x.state k) (history S program k x steps)
      (S.row (RowUpdates.run program x steps).state k) := by
  induction steps generalizing x g es with
  | nil => exact ⟨⟨g, hx.idles⟩, fun k => rfl⟩
  | cons step steps ih =>
    obtain ⟨hcur, hrest⟩ := halong
    obtain ⟨hstep, hchain⟩ := hx.perform hjobs hcur
    obtain ⟨⟨g', hrun⟩, hchains⟩ := ih hstep hrest
    refine ⟨⟨g', ?_⟩, fun k => (hchain k).append (hchains k)⟩
    simp only [List.append_assoc] at hrun
    exact hrun

/-- Where every installed row replaces the row its task saw, every row has a serial history,
and what a finished task has installed is in it. -/
theorem serial_history (hidle : ∀ t, x.tasks t = none) (hI : I x.state)
    (steps : List (Step σ J T))
    (halong : Along S I A program fresh x (fun _ => Trace.empty) steps) :
    (∀ k, Chain follows (S.row x.state k) (history S program k x steps)
      (S.row (run program x steps).state k)) ∧
    ∀ t job u, (run program x steps).tasks t = some (.finished job (.ok u)) →
      ∃ g : Trace κ ρ, Q job u g ∧
        ∀ r, g.puts r → ⟨t, job, r⟩ ∈ history S program (S.key r) x steps := by
  have hstart : Traced S I A fresh follows Q x (fun _ => Trace.empty) fun _ => [] :=
    traced_idle hidle hI
  obtain ⟨⟨g, hrun⟩, hchain⟩ := hstart.run hjobs steps halong
  refine ⟨hchain, fun t job u ht => ⟨g t, hrun.finished t job u ht, fun r hr => ?_⟩⟩
  exact hrun.recorded t _ r ht hr

end Histories
end Tethra.RowUpdates
