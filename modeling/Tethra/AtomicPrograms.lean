import Mathlib.Logic.Function.Basic
import Mathlib.Logic.Relation
import Tethra.StatefulActions

set_option autoImplicit false

/-!
# Programs of atomic actions

A program is a sequence of actions, each atomic, that may be run alone or with other steps
between any two of its actions. `Meets` is the rely-guarantee reading: whatever the
environment does within `R`, every action of the program stays within `G` and its outcome
satisfies `Q`. The second half runs any number of programs, each on the state of one party
and on a state all parties share, in any interleaving.
-/
namespace Tethra.AtomicPrograms
open StatefulActions

inductive Program (σ ε α : Type) : Type 1 where
  | ret (a : α)
  | act {β : Type} (m : Action σ ε β) (next : β → Program σ ε α)

namespace Program
variable {σ ε α β γ : Type}

def bind : Program σ ε α → (α → Program σ ε β) → Program σ ε β
  | ret a, f => f a
  | act m next, f => act m fun b => (next b).bind f

instance : Monad (Program σ ε) where
  pure := ret
  bind := bind

def lift (m : Action σ ε α) : Program σ ε α := act m ret

def fail (e : ε) : Program σ ε α := lift (Action.fail e)

/-- Go on with a value, end with an error as the outcome. -/
def settled (next : β → Program σ ε (Except ε α)) : Except ε β → Program σ ε (Except ε α)
  | .ok b => next b
  | .error e => ret (.error e)

/-- The outcome as a value: the caller goes on after an error. -/
def attempt : Program σ ε α → Program σ ε (Except ε α)
  | ret a => ret (.ok a)
  | act m next => act (Action.attempt m) (settled fun b => (next b).attempt)

def mapError (f : ε → ε) : Program σ ε α → Program σ ε α
  | ret a => ret a
  | act m next => act (Action.mapError f m) fun b => (next b).mapError f

/-- All actions in order, with nothing between them. -/
def run : Program σ ε α → Action σ ε α
  | ret a => pure a
  | act m next => m >>= fun b => (next b).run

@[simp] theorem run_pure (a : α) : (pure a : Program σ ε α).run = pure a := rfl

@[simp] theorem run_lift (m : Action σ ε α) : (lift m).run = m := by
  funext s
  change (m >>= pure) s = m s
  rw [Action.bind_run]
  rcases m s with ⟨r, t⟩
  cases r <;> rfl

@[simp] theorem run_fail (e : ε) : (fail e : Program σ ε α).run = Action.fail e := run_lift _

@[simp] theorem run_bind (p : Program σ ε α) (f : α → Program σ ε β) :
    (p >>= f).run = p.run >>= fun a => (f a).run := by
  change (p.bind f).run = _
  induction p with
  | ret a => rfl
  | act m next ih =>
    funext s
    change (m >>= fun b => ((next b).bind f).run) s = ((m >>= fun b => (next b).run) >>= _) s
    rw [Action.bind_run, Action.bind_run, Action.bind_run]
    rcases m s with ⟨r, t⟩
    cases r with
    | ok b => exact congrFun (ih b) t
    | error e => rfl

theorem run_bind_eq_ok {p : Program σ ε α} {f : α → Program σ ε β} {s t : σ} {b : β} :
    (p >>= f).run s = (.ok b, t) ↔
      ∃ a u, p.run s = (.ok a, u) ∧ (f a).run u = (.ok b, t) := by
  rw [run_bind]
  exact Action.bind_eq_ok

theorem run_bind_eq_error {p : Program σ ε α} {f : α → Program σ ε β} {s t : σ} {e : ε} :
    (p >>= f).run s = (.error e, t) ↔ p.run s = (.error e, t) ∨
      ∃ a u, p.run s = (.ok a, u) ∧ (f a).run u = (.error e, t) := by
  rw [run_bind]
  exact Action.bind_eq_error

theorem run_attempt (p : Program σ ε α) (s : σ) :
    p.attempt.run s = (.ok (p.run s).1, (p.run s).2) := by
  induction p generalizing s with
  | ret a => rfl
  | act m next ih =>
    change (Action.attempt m >>= fun r => (settled (fun b => (next b).attempt) r).run) s =
      (.ok ((m >>= fun b => (next b).run) s).1, ((m >>= fun b => (next b).run) s).2)
    rw [Action.bind_run, Action.bind_run, Action.attempt]
    rcases m s with ⟨r, t⟩
    cases r with
    | ok b => exact ih b t
    | error e => rfl

theorem run_mapError (f : ε → ε) (p : Program σ ε α) (s : σ) :
    (p.mapError f).run s = ((p.run s).1.mapError f, (p.run s).2) := by
  induction p generalizing s with
  | ret a => rfl
  | act m next ih =>
    change (Action.mapError f m >>= fun b => ((next b).mapError f).run) s =
      (((m >>= fun b => (next b).run) s).1.mapError f, ((m >>= fun b => (next b).run) s).2)
    rw [Action.bind_run, Action.bind_run, Action.mapError]
    rcases m s with ⟨r, t⟩
    cases r with
    | ok b => exact ih b t
    | error e => rfl

theorem run_mapError_eq_ok {f : ε → ε} {p : Program σ ε α} {s t : σ} {a : α}
    (h : (p.mapError f).run s = (.ok a, t)) : p.run s = (.ok a, t) := by
  rw [run_mapError, Prod.mk.injEq] at h
  obtain ⟨hr, rfl⟩ := h
  cases hp : (p.run s).1 with
  | ok b =>
    rw [hp] at hr
    exact Prod.ext (hp.trans (congrArg _ (Except.ok.inj hr))) rfl
  | error e =>
    rw [hp] at hr
    cases hr

theorem mapError_bind (f : ε → ε) (p : Program σ ε α) (k : α → Program σ ε β) :
    (p >>= k).mapError f = p.mapError f >>= fun a => (k a).mapError f := by
  change (p.bind k).mapError f = (p.mapError f).bind fun a => (k a).mapError f
  induction p with
  | ret a => rfl
  | act m next ih => exact congrArg (act _) (funext ih)

theorem mapError_id (p : Program σ ε α) : p.mapError id = p := by
  induction p with
  | ret a => rfl
  | act m next ih =>
    have hm : Action.mapError id m = m := by
      funext s
      rcases he : m s with ⟨r, t⟩
      cases r <;> simp [Action.mapError, Except.mapError, he]
    change act (Action.mapError id m) (fun b => (next b).mapError id) = act m next
    rw [hm, funext ih]

/-- `P` holds of every action a run of the program can come to. -/
def Each (P : ∀ {γ : Type}, Action σ ε γ → Prop) : Program σ ε α → Prop
  | ret _ => True
  | act m next => P m ∧ ∀ b, Each P (next b)

section Each
variable {P : ∀ {γ : Type}, Action σ ε γ → Prop}

theorem Each.pure (a : α) : (pure a : Program σ ε α).Each P := trivial

theorem Each.lift {m : Action σ ε α} (hm : P m) : (lift m).Each P := ⟨hm, fun _ => trivial⟩

theorem Each.bind {p : Program σ ε α} {f : α → Program σ ε β} (hp : p.Each P)
    (hf : ∀ a, (f a).Each P) : (p >>= f).Each P := by
  change (p.bind f).Each P
  induction p with
  | ret a => exact hf a
  | act m next ih => exact ⟨hp.1, fun b => ih b (hp.2 b)⟩

theorem Each.mapError {f : ε → ε} (hf : ∀ {γ : Type} {m : Action σ ε γ}, P m → P (m.mapError f))
    {p : Program σ ε α} (hp : p.Each P) : (p.mapError f).Each P := by
  induction p with
  | ret a => trivial
  | act m next ih => exact ⟨hf hp.1, fun b => ih b (hp.2 b)⟩

/-- A relation every action stays within holds between the ends of a run. -/
theorem Each.within {R : σ → σ → Prop} (hr : ∀ s, R s s) (ht : ∀ {s t u}, R s t → R t u → R s u)
    {p : Program σ ε α} (hp : p.Each fun m => m.Within R) : p.run.Within R := by
  induction p with
  | ret a => exact hr
  | act m next ih => exact Action.Within.bind (R := R) ht hp.1 fun b => ih b (hp.2 b)

theorem Each.mono {Q : ∀ {γ : Type}, Action σ ε γ → Prop}
    (hPQ : ∀ {γ : Type} {m : Action σ ε γ}, P m → Q m) {p : Program σ ε α} (hp : p.Each P) :
    p.Each Q := by
  induction p with
  | ret a => trivial
  | act m next ih => exact ⟨hPQ hp.1, fun b => ih b (hp.2 b)⟩

theorem Each.attempt (hP : ∀ {γ : Type} (m : Action σ ε γ), P m.attempt) (p : Program σ ε α) :
    p.attempt.Each P := by
  induction p with
  | ret a => trivial
  | act m next ih =>
    refine ⟨hP m, fun r => ?_⟩
    cases r with
    | ok b => exact ih b
    | error e => trivial

end Each

/-- Every action that the run comes to in a state where `C` holds succeeds. -/
def SucceedsWhere (C : σ → Prop) : Program σ ε α → σ → Prop
  | ret _, _ => True
  | act m next, s => (C s → ∃ b, (m s).1 = .ok b) ∧
      ∀ b, (m s).1 = .ok b → (next b).SucceedsWhere C (m s).2

/-- Where a failing action does not bring `C` about, a run ends with an error and `C` exactly if
an action has failed where `C` held. -/
theorem succeedsWhere_iff {C : σ → Prop} {p : Program σ ε α}
    (hp : p.Each fun m => ∀ s e, (m s).1 = .error e → (C (m s).2 ↔ C s)) (s : σ) :
    p.SucceedsWhere C s ↔ ∀ e, (p.run s).1 = .error e → ¬ C (p.run s).2 := by
  induction p generalizing s with
  | ret a =>
    refine ⟨fun _ e he => ?_, fun _ => trivial⟩
    cases he
  | act m next ih =>
    change _ ∧ _ ↔ ∀ e, ((m >>= fun b => (next b).run) s).1 = .error e →
      ¬ C ((m >>= fun b => (next b).run) s).2
    rw [Action.bind_run]
    have hfail := hp.1 s
    rcases hm : m s with ⟨r, t⟩
    rw [hm] at hfail
    cases r with
    | error e =>
      have hC := hfail e rfl
      constructor
      · rintro ⟨hok, -⟩ _ - ht
        obtain ⟨b, hb⟩ := hok (hC.1 ht)
        cases hb
      · intro h
        exact ⟨fun hs => absurd (hC.2 hs) (h e rfl), fun b hb => by cases hb⟩
    | ok b =>
      have hrest := ih b (hp.2 b) t
      constructor
      · rintro ⟨-, hnext⟩
        exact hrest.1 (hnext b rfl)
      · intro h
        refine ⟨fun _ => ⟨b, rfl⟩, fun c hc => ?_⟩
        cases hc
        exact hrest.2 h

/-- A step of the environment comes before each action. -/
def amid (env : ℕ → σ → σ) : Program σ ε α → ℕ → Program σ ε α
  | ret a, _ => ret a
  | act m next, n => act (fun s => m (env n s)) fun b => (next b).amid env (n + 1)

theorem Each.amid {P Q : ∀ {γ : Type}, Action σ ε γ → Prop} {env : ℕ → σ → σ}
    (hPQ : ∀ {γ : Type} {m : Action σ ε γ} (n : ℕ), P m → Q fun s => m (env n s))
    {p : Program σ ε α} (hp : p.Each P) (n : ℕ) : (p.amid env n).Each Q := by
  induction p generalizing n with
  | ret a => trivial
  | act m next ih => exact ⟨hPQ n hp.1, fun b => ih b (hp.2 b) (n + 1)⟩

/-- Every action keeps `I`, and where `I` holds the program returns only what `Q` allows. -/
def Yields (I : σ → Prop) (Q : α → Prop) : Program σ ε α → Prop
  | ret a => Q a
  | act m next => m.Keeps I ∧ ∀ s b, I s → (m s).1 = .ok b → (next b).Yields I Q

section Yields
variable {I : σ → Prop}

theorem Yields.pure {Q : α → Prop} {a : α} (h : Q a) : (pure a : Program σ ε α).Yields I Q := h

theorem Yields.lift {Q : α → Prop} {m : Action σ ε α} (hm : m.Keeps I)
    (hQ : ∀ s a, I s → (m s).1 = .ok a → Q a) : (lift m).Yields I Q := ⟨hm, hQ⟩

theorem Yields.bind {P : α → Prop} {Q : β → Prop} {p : Program σ ε α}
    {f : α → Program σ ε β} (hp : p.Yields I P) (hf : ∀ a, P a → (f a).Yields I Q) :
    (p >>= f).Yields I Q := by
  change (p.bind f).Yields I Q
  induction p with
  | ret a => exact hf a hp
  | act m next ih => exact ⟨hp.1, fun s b hs hb => ih b (hp.2 s b hs hb)⟩

theorem Yields.of_each {p : Program σ ε α} (hp : p.Each fun m => m.Keeps I) :
    p.Yields I fun _ => True := by
  induction p with
  | ret a => trivial
  | act m next ih => exact ⟨hp.1, fun _ b _ _ => ih b (hp.2 b)⟩

theorem Yields.mono {P Q : α → Prop} {p : Program σ ε α} (hp : p.Yields I P)
    (hPQ : ∀ a, P a → Q a) : p.Yields I Q := by
  induction p with
  | ret a => exact hPQ a hp
  | act m next ih => exact ⟨hp.1, fun s b hs hb => ih b (hp.2 s b hs hb)⟩

theorem Yields.attempt {Q : α → Prop} {p : Program σ ε α} (hp : p.Yields I Q) :
    p.attempt.Yields I fun r => ∀ a, r = .ok a → Q a := by
  induction p with
  | ret a =>
    intro b hb
    cases hb
    exact hp
  | act m next ih =>
    change (Action.attempt m).Keeps I ∧ _
    refine ⟨hp.1.attempt, fun s r hs hr => ?_⟩
    cases r with
    | ok b => exact ih b (hp.2 s b hs (Except.ok.inj hr))
    | error e => exact fun a ha => by cases ha

theorem Yields.mapError {Q : α → Prop} {g : ε → ε} {p : Program σ ε α} (hp : p.Yields I Q) :
    (p.mapError g).Yields I Q := by
  induction p with
  | ret a => exact hp
  | act m next ih =>
    refine ⟨hp.1.mapError, fun s b hs hb => ih b (hp.2 s b hs ?_)⟩
    change (m s).1.mapError g = .ok b at hb
    cases hm : (m s).1 with
    | ok c =>
      rw [hm] at hb
      exact congrArg _ (Except.ok.inj hb)
    | error e => rw [hm] at hb; cases hb

/-- The rule for a program run alone. -/
theorem Yields.run {Q : α → Prop} {p : Program σ ε α} (hp : p.Yields I Q) {s : σ} (hs : I s) :
    I (p.run s).2 ∧ ∀ a, (p.run s).1 = .ok a → Q a := by
  induction p generalizing s with
  | ret a =>
    refine ⟨hs, fun b hb => ?_⟩
    cases hb
    exact hp
  | act m next ih =>
    have hm := hp.1 s hs
    change I ((m >>= fun b => (next b).run) s).2 ∧
      ∀ a, ((m >>= fun b => (next b).run) s).1 = .ok a → Q a
    rw [Action.bind_run]
    rcases he : m s with ⟨r, t⟩
    rw [he] at hm
    cases r with
    | ok b => exact ih b (hp.2 s b hs (by rw [he])) hm
    | error e => exact ⟨hm, fun a ha => by cases ha⟩

end Yields

section Meets
variable (R : σ → σ → Prop) (A : σ → Prop) (G : σ → σ → Prop)

/-- States reached are only those where `A` holds. -/
def Meets (Q : Except ε α → σ → Prop) : Program σ ε α → σ → Prop
  | ret a, s => ∀ t, R s t → Q (.ok a) t
  | act m next, s => ∀ t, R s t → A (m t).2 → G t (m t).2 ∧
      match (m t).1 with
      | .ok b => Meets Q (next b) (m t).2
      | .error e => Q (.error e) (m t).2

end Meets

section Rules
variable {R : σ → σ → Prop} {A : σ → Prop} {G : σ → σ → Prop}

theorem Meets.stable (ht : ∀ s t u, R s t → R t u → R s u) {Q : Except ε α → σ → Prop}
    {p : Program σ ε α} {s t : σ} (h : Meets R A G Q p s) (hst : R s t) : Meets R A G Q p t := by
  cases p with
  | ret a => exact fun u hu => h u (ht s t u hst hu)
  | act m next => exact fun u hu => h u (ht s t u hst hu)

theorem Meets.bind {P : Except ε α → σ → Prop} {Q : Except ε β → σ → Prop}
    {p : Program σ ε α} {f : α → Program σ ε β} {s : σ} (hp : Meets R A G P p s)
    (hr : ∀ s, R s s)
    (hok : ∀ a t, P (.ok a) t → Meets R A G Q (f a) t)
    (herr : ∀ e t, P (.error e) t → Q (.error e) t) : Meets R A G Q (p >>= f) s := by
  change Meets R A G Q (p.bind f) s
  induction p generalizing s with
  | ret a => exact hok a s (hp s (hr s))
  | act m next ih =>
    intro t hst hA
    obtain ⟨hG, hnext⟩ := hp t hst hA
    refine ⟨hG, ?_⟩
    rcases he : m t with ⟨r, u⟩
    rw [he] at hnext
    cases r with
    | ok b => exact ih b hnext
    | error e => exact herr e u hnext

theorem Meets.lift {Q : Except ε α → σ → Prop} {m : Action σ ε α} {s : σ}
    (h : ∀ t, R s t → A (m t).2 → G t (m t).2 ∧
      (∀ e, (m t).1 = .error e → Q (.error e) (m t).2) ∧
      ∀ a u, (m t).1 = .ok a → R (m t).2 u → Q (.ok a) u) : Meets R A G Q (lift m) s := by
  intro t hst hA
  obtain ⟨hG, he, hok⟩ := h t hst hA
  refine ⟨hG, ?_⟩
  rcases hm : m t with ⟨r, u⟩
  rw [hm] at he hok
  cases r with
  | ok a => exact fun v hv => hok a v rfl hv
  | error e => exact he e rfl

theorem Meets.mono {P Q : Except ε α → σ → Prop} {p : Program σ ε α} {s : σ}
    (h : Meets R A G P p s) (hPQ : ∀ r t, P r t → Q r t) : Meets R A G Q p s := by
  induction p generalizing s with
  | ret a => exact fun t ht => hPQ _ _ (h t ht)
  | act m next ih =>
    intro t ht hA
    obtain ⟨hG, hn⟩ := h t ht hA
    refine ⟨hG, ?_⟩
    rcases he : m t with ⟨r, u⟩
    rw [he] at hn
    cases r with
    | ok b => exact ih b hn
    | error e => exact hPQ _ _ hn

/-- A program run alone is a program nothing interferes with. -/
theorem Meets.run {Q : Except ε α → σ → Prop} {p : Program σ ε α} {s : σ}
    (h : Meets R (fun _ => True) G Q p s) (hr : ∀ s, R s s) : Q (p.run s).1 (p.run s).2 := by
  induction p generalizing s with
  | ret a => exact h s (hr s)
  | act m next ih =>
    obtain ⟨-, hn⟩ := h s (hr s) trivial
    change Q ((m >>= fun b => (next b).run) s).1 ((m >>= fun b => (next b).run) s).2
    rw [Action.bind_run]
    rcases he : m s with ⟨r, u⟩
    rw [he] at hn
    cases r with
    | ok b => exact ih b hn
    | error e => exact hn

end Rules
end Program

section Machines
variable {D T S B ε α : Type}

/-- A program in progress on the state of party `d`, or its outcome. -/
inductive Task (D S B ε α : Type) : Type 1 where
  | running (d : D) (p : Program (S × B) ε α)
  | finished (d : D) (r : Except ε α)

structure Machine (D T S B ε α : Type) : Type 1 where
  own : D → S
  shared : B
  tasks : T → Option (Task D S B ε α)

namespace Machine

def view (x : Machine D T S B ε α) (d : D) : S × B := (x.own d, x.shared)

/-- What an action leaves of its task. -/
def resume {β : Type} (d : D) (next : β → Program (S × B) ε α) : Except ε β → Task D S B ε α
  | .ok b => .running d (next b)
  | .error e => .finished d (.error e)

section Slots
variable [DecidableEq T]

def settle (x : Machine D T S B ε α) (t : T) (task : Task D S B ε α) : Machine D T S B ε α :=
  { x with tasks := Function.update x.tasks t (some task) }

def start (x : Machine D T S B ε α) (t : T) (d : D) (p : Program (S × B) ε α) :
    Machine D T S B ε α := x.settle t (.running d p)

@[simp] theorem view_settle (x : Machine D T S B ε α) (t : T) (task : Task D S B ε α) (d : D) :
    (x.settle t task).view d = x.view d := rfl

@[simp] theorem tasks_settle_self (x : Machine D T S B ε α) (t : T) (task : Task D S B ε α) :
    (x.settle t task).tasks t = some task := by
  simp [settle]

theorem tasks_settle_of_ne (x : Machine D T S B ε α) {t u : T} (h : u ≠ t)
    (task : Task D S B ε α) : (x.settle t task).tasks u = x.tasks u := by
  simp [settle, h]

/-- No party has two tasks in progress. -/
def Exclusive (x : Machine D T S B ε α) : Prop :=
  ∀ t u d p q, x.tasks t = some (.running d p) → x.tasks u = some (.running d q) → t = u

theorem Exclusive.settle {x : Machine D T S B ε α} (hx : x.Exclusive) {t : T} {d : D}
    {p : Program (S × B) ε α} (ht : x.tasks t = some (.running d p)) (task : Task D S B ε α)
    (hd : ∀ e q, task = .running e q → e = d) : (x.settle t task).Exclusive := by
  intro u w e p' q hu hw
  by_cases hut : u = t
  · by_cases hwt : w = t
    · rw [hut, hwt]
    · rw [hut, tasks_settle_self, Option.some.injEq] at hu
      rw [tasks_settle_of_ne x hwt] at hw
      rw [hd e p' hu] at hw
      exact absurd (hx w t d q p hw ht) hwt
  · rw [tasks_settle_of_ne x hut] at hu
    by_cases hwt : w = t
    · rw [hwt, tasks_settle_self, Option.some.injEq] at hw
      rw [hd e q hw] at hu
      exact absurd (hx u t d p' p hu ht) hut
    · rw [tasks_settle_of_ne x hwt] at hw
      exact hx u w e p' q hu hw

theorem Exclusive.start {x : Machine D T S B ε α} (hx : x.Exclusive) {t : T} {d : D}
    (hd : ∀ u q, x.tasks u ≠ some (.running d q)) (p : Program (S × B) ε α) :
    (x.start t d p).Exclusive := by
  intro u w e p' q hu hw
  by_cases hut : u = t
  · by_cases hwt : w = t
    · rw [hut, hwt]
    · rw [hut, Machine.start, tasks_settle_self, Option.some.injEq, Task.running.injEq] at hu
      rw [Machine.start, tasks_settle_of_ne x hwt, ← hu.1] at hw
      exact absurd hw (hd w q)
  · rw [Machine.start, tasks_settle_of_ne x hut] at hu
    by_cases hwt : w = t
    · rw [hwt, Machine.start, tasks_settle_self, Option.some.injEq, Task.running.injEq] at hw
      rw [← hw.1] at hu
      exact absurd hu (hd u p')
    · rw [Machine.start, tasks_settle_of_ne x hwt] at hw
      exact hx u w e p' q hu hw

end Slots

section Parties
variable [DecidableEq D]

def write (x : Machine D T S B ε α) (d : D) (v : S × B) : Machine D T S B ε α :=
  { x with own := Function.update x.own d v.1, shared := v.2 }

/-- A step of a party outside its tasks. -/
def edit (x : Machine D T S B ε α) (d : D) (s : S) : Machine D T S B ε α :=
  x.write d (s, x.shared)

@[simp] theorem view_write_self (x : Machine D T S B ε α) (d : D) (v : S × B) :
    (x.write d v).view d = v := by
  simp [view, write]

theorem view_write_of_ne (x : Machine D T S B ε α) {d e : D} (h : e ≠ d) (v : S × B) :
    (x.write d v).view e = (x.own e, v.2) := by
  simp [view, write, h]

@[simp] theorem tasks_write (x : Machine D T S B ε α) (d : D) (v : S × B) :
    (x.write d v).tasks = x.tasks := rfl

end Parties

variable [DecidableEq D] [DecidableEq T]

/-- The next action of task `t`. -/
def advance (x : Machine D T S B ε α) (t : T) : Machine D T S B ε α :=
  match x.tasks t with
  | some (.running d (.ret a)) => x.settle t (.finished d (.ok a))
  | some (.running d (.act m next)) =>
      (x.write d (m (x.view d)).2).settle t (resume d next (m (x.view d)).1)
  | _ => x

/-- Everything an advance can do. -/
theorem advance_cases (x : Machine D T S B ε α) (t : T) :
    x.advance t = x ∨
    (∃ d a, x.tasks t = some (.running d (.ret a)) ∧
      x.advance t = x.settle t (.finished d (.ok a))) ∨
    ∃ d β, ∃ (m : Action (S × B) ε β) (next : β → Program (S × B) ε α),
      x.tasks t = some (.running d (.act m next)) ∧
      x.advance t = (x.write d (m (x.view d)).2).settle t (resume d next (m (x.view d)).1) := by
  unfold advance
  split
  · rename_i d a h
    exact Or.inr (Or.inl ⟨d, a, h, rfl⟩)
  · rename_i d β m next h
    exact Or.inr (Or.inr ⟨d, β, m, next, h, rfl⟩)
  · exact Or.inl rfl

/-- The machines reached from `x₀` by steps that are allowed, through shared states where
`assumed` holds. -/
inductive Run (allowed : Machine D T S B ε α → T → D → Program (S × B) ε α → Prop)
    (edits : D → S × B → S → Prop) (assumed : B → Prop) (x₀ : Machine D T S B ε α) :
    Machine D T S B ε α → Prop where
  | init : Run allowed edits assumed x₀ x₀
  | start {x : Machine D T S B ε α} (hx : Run allowed edits assumed x₀ x) (t : T) (d : D)
      (p : Program (S × B) ε α) (hfresh : x.tasks t = none) (hp : allowed x t d p) :
      Run allowed edits assumed x₀ (x.start t d p)
  | advance {x : Machine D T S B ε α} (hx : Run allowed edits assumed x₀ x) (t : T)
      (hA : assumed (x.advance t).shared) : Run allowed edits assumed x₀ (x.advance t)
  | edit {x : Machine D T S B ε α} (hx : Run allowed edits assumed x₀ x) (d : D) (s : S)
      (hs : edits d (x.view d) s) : Run allowed edits assumed x₀ (x.edit d s)

theorem Exclusive.advance {x : Machine D T S B ε α} (hx : x.Exclusive) (t : T) :
    (x.advance t).Exclusive := by
  obtain h | ⟨d, a, ht, h⟩ | ⟨d, β, m, next, ht, h⟩ := x.advance_cases t
  · rwa [h]
  · rw [h]
    exact hx.settle ht _ fun e q he => by cases he
  · rw [h]
    refine Exclusive.settle (x := x.write d (m (x.view d)).2) hx ht _ fun e q he => ?_
    cases hr : (m (x.view d)).1 with
    | ok b => rw [hr] at he; cases he; rfl
    | error f => rw [hr] at he; cases he

end Machine

/-- What the tasks of each party rely on, guarantee and end with. -/
structure Discipline (D S B ε α : Type) where
  rely : D → S × B → S × B → Prop
  assumed : B → Prop
  guarantee : D → S × B → S × B → Prop
  outcome : D → Except ε α → S × B → Prop
  rely_trans : ∀ d u v w, rely d u v → rely d v w → rely d u w
  rely_other : ∀ d e, e ≠ d → ∀ v w s, guarantee d v w → rely e (s, v.2) (s, w.2)
  outcome_rely : ∀ d r v w, rely d v w → outcome d r v → outcome d r w
  outcome_guarantee : ∀ d r v w, guarantee d v w → outcome d r v → outcome d r w

namespace Discipline
variable (δ : Discipline D S B ε α)

def Meets (d : D) (p : Program (S × B) ε α) (v : S × B) : Prop :=
  p.Meets (δ.rely d) (fun v => δ.assumed v.2) (δ.guarantee d) (δ.outcome d) v

def Justifies (x : Machine D T S B ε α) : Prop :=
  (∀ t d p, x.tasks t = some (.running d p) → δ.Meets d p (x.view d)) ∧
    ∀ t d r, x.tasks t = some (.finished d r) → δ.outcome d r (x.view d)

variable {δ}

variable [DecidableEq T] in
theorem Justifies.settle {x : Machine D T S B ε α} (hx : δ.Justifies x) (t : T)
    {task : Task D S B ε α} (hrun : ∀ d p, task = .running d p → δ.Meets d p (x.view d))
    (hfin : ∀ d r, task = .finished d r → δ.outcome d r (x.view d)) :
    δ.Justifies (x.settle t task) := by
  constructor
  · intro u d p hu
    by_cases h : u = t
    · rw [h, Machine.tasks_settle_self, Option.some.injEq] at hu
      exact hrun d p hu
    · rw [Machine.tasks_settle_of_ne x h] at hu
      exact hx.1 u d p hu
  · intro u d r hu
    by_cases h : u = t
    · rw [h, Machine.tasks_settle_self, Option.some.injEq] at hu
      exact hfin d r hu
    · rw [Machine.tasks_settle_of_ne x h] at hu
      exact hx.2 u d r hu

variable [DecidableEq D] in
theorem Justifies.edit {x : Machine D T S B ε α} (hx : δ.Justifies x) {d : D} {s : S}
    (hs : δ.rely d (x.view d) (s, x.shared)) : δ.Justifies (x.edit d s) := by
  constructor
  · intro t e p ht
    by_cases h : e = d
    · subst h
      rw [Machine.edit, Machine.view_write_self]
      exact Program.Meets.stable (δ.rely_trans e) (hx.1 t e p ht) hs
    · rw [Machine.edit, Machine.view_write_of_ne x h]
      exact hx.1 t e p ht
  · intro t e r ht
    by_cases h : e = d
    · subst h
      rw [Machine.edit, Machine.view_write_self]
      exact δ.outcome_rely e r _ _ hs (hx.2 t e r ht)
    · rw [Machine.edit, Machine.view_write_of_ne x h]
      exact hx.2 t e r ht

variable [DecidableEq D] [DecidableEq T] in
/-- One action of one task. Tasks of the same party must be apart, or within what the party
relies on. -/
theorem Justifies.advance {x : Machine D T S B ε α} (hx : δ.Justifies x)
    (hrefl : ∀ d, δ.rely d (x.view d) (x.view d)) (t : T) (hA : δ.assumed (x.advance t).shared)
    (hsame : x.Exclusive ∨ ∀ d v w, δ.guarantee d v w → δ.rely d v w) :
    δ.Justifies (x.advance t) := by
  obtain h | ⟨d, a, ht, h⟩ | ⟨d, β, m, next, ht, h⟩ := x.advance_cases t
  · rwa [h]
  · rw [h]
    refine hx.settle t (fun e p he => by cases he) fun e r he => ?_
    cases he
    exact hx.1 t d _ ht _ (hrefl d)
  · rw [h] at hA ⊢
    obtain ⟨hG, hnext⟩ := hx.1 t d _ ht (x.view d) (hrefl d) hA
    have hsettled : ∀ u, u ≠ t → ∀ e p, x.tasks u = some (.running e p) →
        δ.Meets e p ((x.write d (m (x.view d)).2).view e) := by
      intro u hu e p hup
      by_cases hed : e = d
      · subst hed
        rw [Machine.view_write_self]
        refine Program.Meets.stable (δ.rely_trans e) (hx.1 u e p hup) ?_
        cases hsame with
        | inl hex => exact absurd (hex u t e p _ hup ht) hu
        | inr hall => exact hall e _ _ hG
      · rw [Machine.view_write_of_ne x hed]
        exact Program.Meets.stable (δ.rely_trans e) (hx.1 u e p hup)
          (δ.rely_other d e hed _ _ (x.own e) hG)
    have hdone : ∀ u e r, x.tasks u = some (.finished e r) →
        δ.outcome e r ((x.write d (m (x.view d)).2).view e) := by
      intro u e r hur
      by_cases hed : e = d
      · subst hed
        rw [Machine.view_write_self]
        exact δ.outcome_guarantee e r _ _ hG (hx.2 u e r hur)
      · rw [Machine.view_write_of_ne x hed]
        exact δ.outcome_rely e r _ _ (δ.rely_other d e hed _ _ (x.own e) hG) (hx.2 u e r hur)
    constructor
    · intro u e p hu
      rw [Machine.view_settle]
      by_cases hut : u = t
      · rw [hut, Machine.tasks_settle_self, Option.some.injEq] at hu
        cases hr : (m (x.view d)).1 with
        | ok b =>
          rw [hr] at hu hnext
          cases hu
          rw [Machine.view_write_self]
          exact hnext
        | error f => rw [hr] at hu; cases hu
      · rw [Machine.tasks_settle_of_ne _ hut, Machine.tasks_write] at hu
        exact hsettled u hut e p hu
    · intro u e r hu
      rw [Machine.view_settle]
      by_cases hut : u = t
      · rw [hut, Machine.tasks_settle_self, Option.some.injEq] at hu
        cases hr : (m (x.view d)).1 with
        | ok b => rw [hr] at hu; cases hu
        | error f =>
          rw [hr] at hu hnext
          cases hu
          rw [Machine.view_write_self]
          exact hnext
      · rw [Machine.tasks_settle_of_ne _ hut, Machine.tasks_write] at hu
        exact hdone u e r hu

end Discipline
end Machines
end Tethra.AtomicPrograms
