import Mathlib.Tactic

set_option autoImplicit false

/-!
# Actions on a state that may fail

An action reads and writes a state and ends in a value or an error. What it wrote before
the error stays written. The rules below are the ones every proof about such programs
uses: how a successful sequence splits, and how a relation between the states before and
after passes through a sequence whatever its outcome.
-/
namespace Tethra.StatefulActions

def Action (σ ε α : Type) : Type := σ → Except ε α × σ

namespace Action
variable {σ τ ε α β : Type}

instance : Monad (Action σ ε) where
  pure a := fun s => (.ok a, s)
  bind m f := fun s =>
    match m s with
    | (.ok a, t) => f a t
    | (.error e, t) => (.error e, t)

def fail (e : ε) : Action σ ε α := fun s => (.error e, s)

def read (f : σ → α) : Action σ ε α := fun s => (.ok (f s), s)

def update (f : σ → σ) : Action σ ε Unit := fun s => (.ok (), f s)

def ofExcept (r : Except ε α) : Action σ ε α := fun s => (r, s)

/-- The outcome as a value: the caller goes on after an error. -/
def attempt (m : Action σ ε α) : Action σ ε (Except ε α) := fun s => (.ok (m s).1, (m s).2)

def mapError (f : ε → ε) (m : Action σ ε α) : Action σ ε α := fun s => ((m s).1.mapError f, (m s).2)

/-- Run an action on one component of a larger state. -/
def focus (get : τ → σ) (set : σ → τ → τ) (m : Action σ ε α) : Action τ ε α :=
  fun t => ((m (get t)).1, set (m (get t)).2 t)

theorem pure_run (a : α) (s : σ) : (pure a : Action σ ε α) s = (.ok a, s) := rfl

theorem bind_run (m : Action σ ε α) (f : α → Action σ ε β) (s : σ) :
    (m >>= f) s = match m s with
      | (.ok a, t) => f a t
      | (.error e, t) => (.error e, t) := rfl

theorem bind_ok {m : Action σ ε α} {f : α → Action σ ε β} {s t : σ} {a : α}
    (h : m s = (.ok a, t)) : (m >>= f) s = f a t := by
  rw [bind_run, h]

theorem bind_error {m : Action σ ε α} {f : α → Action σ ε β} {s t : σ} {e : ε}
    (h : m s = (.error e, t)) : (m >>= f) s = (.error e, t) := by
  rw [bind_run, h]

theorem bind_eq_ok {m : Action σ ε α} {f : α → Action σ ε β} {s u : σ} {b : β} :
    (m >>= f) s = (.ok b, u) ↔ ∃ a t, m s = (.ok a, t) ∧ f a t = (.ok b, u) := by
  constructor
  · intro h
    rcases hm : m s with ⟨r, t⟩
    cases r with
    | ok a => exact ⟨a, t, rfl, by rwa [bind_ok hm] at h⟩
    | error e => rw [bind_error hm] at h; cases h
  · rintro ⟨a, t, hm, hf⟩
    rw [bind_ok hm, hf]

theorem bind_eq_error {m : Action σ ε α} {f : α → Action σ ε β} {s u : σ} {e : ε} :
    (m >>= f) s = (.error e, u) ↔
      m s = (.error e, u) ∨ ∃ a t, m s = (.ok a, t) ∧ f a t = (.error e, u) := by
  rcases hm : m s with ⟨r, t⟩
  cases r with
  | ok a => rw [bind_ok hm]; simp
  | error e' => rw [bind_error hm]; simp

theorem pure_bind (a : α) (f : α → Action σ ε β) : pure a >>= f = f a := rfl

theorem bind_assoc {γ : Type} (m : Action σ ε α) (f : α → Action σ ε β) (g : β → Action σ ε γ) :
    m >>= f >>= g = m >>= fun a => f a >>= g := by
  funext s
  rcases hm : m s with ⟨r, t⟩
  cases r with
  | ok a =>
    rw [bind_ok hm, bind_run, bind_ok hm]
    rfl
  | error e => rw [bind_error hm, bind_error (bind_error hm)]

theorem pure_eq_ok {a b : α} {s t : σ} :
    (pure a : Action σ ε α) s = (.ok b, t) ↔ a = b ∧ s = t := by
  simp [pure_run]

theorem read_eq_ok {f : σ → α} {a : α} {s t : σ} :
    (read f : Action σ ε α) s = (.ok a, t) ↔ f s = a ∧ s = t := by
  simp [read]

theorem update_eq_ok {f : σ → σ} {u : Unit} {s t : σ} :
    (update f : Action σ ε Unit) s = (.ok u, t) ↔ f s = t := by
  simp [update]

theorem ofExcept_eq_ok {r : Except ε α} {a : α} {s t : σ} :
    (ofExcept r : Action σ ε α) s = (.ok a, t) ↔ r = .ok a ∧ s = t := by
  simp [ofExcept]

theorem fail_eq_ok {e : ε} {a : α} {s t : σ} :
    (fail e : Action σ ε α) s = (.ok a, t) ↔ False := by
  simp [fail]

theorem attempt_eq_ok {m : Action σ ε α} {r : Except ε α} {s t : σ} :
    attempt m s = (.ok r, t) ↔ m s = (r, t) := by
  rcases hm : m s with ⟨q, u⟩
  simp [attempt, hm]

theorem mapError_eq_ok {g : ε → ε} {m : Action σ ε α} {a : α} {s t : σ} :
    mapError g m s = (.ok a, t) ↔ m s = (.ok a, t) := by
  rcases hm : m s with ⟨q, u⟩
  cases q <;> simp [mapError, hm, Except.mapError]

/-- Outcome and final state satisfy `Q`. -/
def Ends (Q : Except ε α → σ → Prop) (m : Action σ ε α) (s : σ) : Prop := Q (m s).1 (m s).2

theorem Ends.bind {P : Except ε α → σ → Prop} {Q : Except ε β → σ → Prop} {m : Action σ ε α}
    {f : α → Action σ ε β} {s : σ} (hm : m.Ends P s)
    (hok : ∀ a t, P (.ok a) t → (f a).Ends Q t)
    (herr : ∀ e t, P (.error e) t → Q (.error e) t) : (m >>= f).Ends Q s := by
  unfold Ends at *
  rw [bind_run]
  rcases he : m s with ⟨r, t⟩
  rw [he] at hm
  cases r with
  | ok a => exact hok a t hm
  | error e => exact herr e t hm

/-- From every state where `I` holds `m` succeeds, and `Q` holds of what it returns and leaves. -/
def Succeeds (I : σ → Prop) (Q : α → σ → Prop) (m : Action σ ε α) : Prop :=
  ∀ s, I s → ∃ a t, m s = (.ok a, t) ∧ Q a t

section Total
variable {I : σ → Prop}

theorem Succeeds.pure {Q : α → σ → Prop} {a : α} (h : ∀ s, I s → Q a s) :
    Succeeds I Q (Pure.pure a : Action σ ε α) := fun s hs => ⟨a, s, rfl, h s hs⟩

theorem Succeeds.bind {P : α → σ → Prop} {Q : β → σ → Prop} {m : Action σ ε α}
    {f : α → Action σ ε β} (hm : Succeeds I P m) (hf : ∀ a, Succeeds (P a) Q (f a)) :
    Succeeds I Q (m >>= f) := by
  intro s hs
  obtain ⟨a, t, hat, ht⟩ := hm s hs
  obtain ⟨b, u, hbu, hu⟩ := hf a t ht
  exact ⟨b, u, by rw [bind_ok hat, hbu], hu⟩

theorem Succeeds.read (f : σ → α) :
    Succeeds I (fun a s => I s ∧ f s = a) (read f : Action σ ε α) := fun s hs => ⟨f s, s, rfl, hs, rfl⟩

theorem Succeeds.mono {P Q : α → σ → Prop} {m : Action σ ε α} (h : Succeeds I P m)
    (hPQ : ∀ a s, P a s → Q a s) : Succeeds I Q m := by
  intro s hs
  obtain ⟨a, t, hat, ht⟩ := h s hs
  exact ⟨a, t, hat, hPQ a t ht⟩

end Total

/-- `R` relates the states before and after `m`, whatever the outcome. -/
def Within (R : σ → σ → Prop) (m : Action σ ε α) : Prop := ∀ s, R s (m s).2

/-- `m` never leaves the states where `I` holds. -/
def Keeps (I : σ → Prop) (m : Action σ ε α) : Prop := Within (fun s t => I s → I t) m

/-- `m` never changes what `f` reads. -/
def Leaves {γ : Type} (f : σ → γ) (m : Action σ ε α) : Prop := Within (fun s t => f t = f s) m

section Rules
variable {R : σ → σ → Prop}

theorem Within.bind (ht : ∀ {s t u}, R s t → R t u → R s u) {m : Action σ ε α}
    {f : α → Action σ ε β} (hm : Within R m) (hf : ∀ a, Within R (f a)) :
    Within R (m >>= f) := by
  intro s
  have h := hm s
  rcases he : m s with ⟨r, t⟩
  rw [he] at h
  cases r with
  | ok a => rw [bind_ok he]; exact ht h (hf a t)
  | error e => rw [bind_error he]; exact h

theorem Within.attempt {m : Action σ ε α} (hm : Within R m) : Within R (attempt m) := hm

theorem Within.mapError {g : ε → ε} {m : Action σ ε α} (hm : Within R m) :
    Within R (mapError g m) := hm

end Rules

section Invariants
variable {I : σ → Prop}

theorem Keeps.pure (a : α) : Keeps I (Pure.pure a : Action σ ε α) := fun _ h => h

theorem Keeps.fail (e : ε) : Keeps I (fail e : Action σ ε α) := fun _ h => h

theorem Keeps.read (f : σ → α) : Keeps I (read f : Action σ ε α) := fun _ h => h

theorem Keeps.ofExcept (r : Except ε α) : Keeps I (ofExcept r : Action σ ε α) := fun _ h => h

theorem Keeps.update {f : σ → σ} (h : ∀ s, I s → I (f s)) :
    Keeps I (update f : Action σ ε Unit) := h

theorem Keeps.bind {m : Action σ ε α} {f : α → Action σ ε β} (hm : Keeps I m)
    (hf : ∀ a, Keeps I (f a)) : Keeps I (m >>= f) :=
  Within.bind (fun h h' hs => h' (h hs)) hm hf

theorem Keeps.attempt {m : Action σ ε α} (hm : Keeps I m) : Keeps I (attempt m) := hm

theorem Keeps.mapError {g : ε → ε} {m : Action σ ε α} (hm : Keeps I m) :
    Keeps I (mapError g m) := hm

end Invariants

section Frames
variable {γ : Type} {f : σ → γ}

theorem Leaves.pure (a : α) : Leaves f (Pure.pure a : Action σ ε α) := fun _ => rfl

theorem Leaves.fail (e : ε) : Leaves f (fail e : Action σ ε α) := fun _ => rfl

theorem Leaves.read (g : σ → α) : Leaves f (read g : Action σ ε α) := fun _ => rfl

theorem Leaves.ofExcept (r : Except ε α) : Leaves f (ofExcept r : Action σ ε α) := fun _ => rfl

theorem Leaves.update {g : σ → σ} (h : ∀ s, f (g s) = f s) :
    Leaves f (update g : Action σ ε Unit) := h

theorem Leaves.bind {m : Action σ ε α} {k : α → Action σ ε β} (hm : Leaves f m)
    (hk : ∀ a, Leaves f (k a)) : Leaves f (m >>= k) :=
  Within.bind (fun h h' => h'.trans h) hm hk

theorem Leaves.attempt {m : Action σ ε α} (hm : Leaves f m) : Leaves f (attempt m) := hm

theorem Leaves.mapError {g : ε → ε} {m : Action σ ε α} (hm : Leaves f m) :
    Leaves f (mapError g m) := hm

theorem Leaves.after {m : Action σ ε α} (hm : Leaves f m) {s t : σ} {r : Except ε α}
    (h : m s = (r, t)) : f t = f s := by
  have := hm s
  rwa [h] at this

end Frames

end Action
end Tethra.StatefulActions
