import Tethra.AtomicPrograms

set_option autoImplicit false

/-!
# Programs over two states

A relation between actions that holds of the same value and is kept by sequencing holds of
programs built alike. Two such relations: each run of the first is a run of the second on some
inputs, and what the first returns the second returns.
-/
namespace Tethra.ActionRelations
open StatefulActions AtomicPrograms

section Relations
variable {σ τ ε : Type}

/-- Kept by everything a program is built from but its actions. -/
structure Congruence (R : ∀ {α : Type}, Action σ ε α → Action τ ε α → Prop) : Prop where
  pure : ∀ {α : Type} (a : α), R (pure a) (pure a)
  fail : ∀ {α : Type} (e : ε), R (Action.fail e : Action σ ε α) (Action.fail e)
  bind : ∀ {α β : Type} {m : Action σ ε α} {m' : Action τ ε α} {f : α → Action σ ε β}
    {f' : α → Action τ ε β}, R m m' → (∀ a, R (f a) (f' a)) → R (m >>= f) (m' >>= f')

variable {R : ∀ {α : Type}, Action σ ε α → Action τ ε α → Prop}

theorem Congruence.ofExcept (hR : Congruence R) {α : Type} (r : Except ε α) :
    R (Action.ofExcept r : Action σ ε α) (Action.ofExcept r) := by
  cases r with
  | ok a => exact hR.pure a
  | error e => exact hR.fail e

section Programs
variable {α β : Type}

/-- The programs run alike. -/
def Alike (R : ∀ {α : Type}, Action σ ε α → Action τ ε α → Prop) (p : Program σ ε α)
    (q : Program τ ε α) : Prop := R p.run q.run

theorem Alike.pure (hR : Congruence R) (a : α) :
    Alike R (Pure.pure a : Program σ ε α) (Pure.pure a) := hR.pure a

theorem Alike.lift {m : Action σ ε α} {m' : Action τ ε α} (h : R m m') :
    Alike R (Program.lift m) (Program.lift m') := by
  unfold Alike
  rw [Program.run_lift, Program.run_lift]
  exact h

theorem Alike.fail (hR : Congruence R) (e : ε) :
    Alike R (Program.fail e : Program σ ε α) (Program.fail e) := Alike.lift (hR.fail e)

theorem Alike.ofExcept (hR : Congruence R) (r : Except ε α) :
    Alike R (Program.lift (Action.ofExcept r)) (Program.lift (Action.ofExcept r)) :=
  Alike.lift (hR.ofExcept r)

theorem Alike.bind (hR : Congruence R) {p : Program σ ε α} {q : Program τ ε α}
    {f : α → Program σ ε β} {g : α → Program τ ε β} (hp : Alike R p q)
    (hf : ∀ a, Alike R (f a) (g a)) : Alike R (p >>= f) (q >>= g) := by
  unfold Alike
  rw [Program.run_bind, Program.run_bind]
  exact hR.bind hp hf

theorem Alike.ite {c : Prop} [Decidable c] {p p' : Program σ ε α} {q q' : Program τ ε α}
    (h : Alike R p q) (h' : Alike R p' q') :
    Alike R (if c then p else p') (if c then q else q') := by
  by_cases hc : c
  · rw [if_pos hc, if_pos hc]
    exact h
  · rw [if_neg hc, if_neg hc]
    exact h'

end Programs
end Relations

/-! ## Runs on inputs -/

section Following
variable {σ τ ε ι α β : Type} {I : σ → Prop} {put : σ → List ι → τ}

/-- From a state where `I` holds, the run of `m` is one of `m'` on inputs that it uses up. -/
def Follows (I : σ → Prop) (put : σ → List ι → τ) (m : Action σ ε α) (m' : Action τ ε α) :
    Prop :=
  ∀ s, I s → I (m s).2 ∧
    ∃ inputs, ∀ rest, m' (put s (inputs ++ rest)) = ((m s).1, put (m s).2 rest)

theorem Follows.bind {m : Action σ ε α} {m' : Action τ ε α} {f : α → Action σ ε β}
    {f' : α → Action τ ε β} (hm : Follows I put m m') (hf : ∀ a, Follows I put (f a) (f' a)) :
    Follows I put (m >>= f) (m' >>= f') := by
  intro s hs
  obtain ⟨ht, inputs, hinputs⟩ := hm s hs
  rcases he : m s with ⟨r, t⟩
  rw [he] at ht hinputs
  cases r with
  | error e =>
    rw [Action.bind_error he]
    exact ⟨ht, inputs, fun rest => Action.bind_error (hinputs rest)⟩
  | ok a =>
    rw [Action.bind_ok he]
    obtain ⟨hu, more, hmore⟩ := hf a t ht
    refine ⟨hu, inputs ++ more, fun rest => ?_⟩
    rw [List.append_assoc, Action.bind_ok (hinputs (more ++ rest))]
    exact hmore rest

theorem follows_congruence (I : σ → Prop) (put : σ → List ι → τ) :
    Congruence (ε := ε) (Follows I put) where
  pure _ _ hs := ⟨hs, [], fun _ => rfl⟩
  fail _ _ hs := ⟨hs, [], fun _ => rfl⟩
  bind := Follows.bind

theorem Follows.attempt {m : Action σ ε α} {m' : Action τ ε α} (h : Follows I put m m') :
    Follows I put (Action.attempt m) (Action.attempt m') := by
  intro s hs
  obtain ⟨ht, inputs, hinputs⟩ := h s hs
  refine ⟨ht, inputs, fun rest => ?_⟩
  unfold Action.attempt
  rw [hinputs rest]

end Following

/-! ## What is returned -/

section Returning
variable {σ τ ε α β : Type} {view : σ → τ}

/-- What `m` returns, `m'` returns from what `view` sees. -/
def Returns (view : σ → τ) (m : Action σ ε α) (m' : Action τ ε α) : Prop :=
  ∀ s a t, m s = (.ok a, t) → m' (view s) = (.ok a, view t)

theorem returns_congruence (view : σ → τ) : Congruence (ε := ε) (Returns view) where
  pure a s b t h := by
    obtain ⟨rfl, rfl⟩ := Action.pure_eq_ok.1 h
    rfl
  fail e s b t h := (Action.fail_eq_ok.1 h).elim
  bind hm hf s b u h := by
    obtain ⟨a, t, hat, hbu⟩ := Action.bind_eq_ok.1 h
    rw [Action.bind_ok (hm s a t hat)]
    exact hf a t b u hbu

end Returning

/-! ## Calls whose answer may be lost -/

section Losses
variable {σ ε α : Type}

/-- What becomes of one call. -/
inductive Fate (ε : Type) where
  | served
  | refused (e : ε)
  | lost (e : ε)

def lossy (m : Action σ ε α) : Action (σ × List (Fate ε)) ε α := fun s =>
  match s.2 with
  | [] => ((m s.1).1, (m s.1).2, [])
  | .served :: fates => ((m s.1).1, (m s.1).2, fates)
  | .refused e :: fates => (.error e, s.1, fates)
  | .lost e :: fates => (.error e, (m s.1).2, fates)

/-- What is returned was returned by the call. -/
theorem lossy_eq_ok {m : Action σ ε α} {s : σ} {fates : List (Fate ε)} {a : α}
    {t : σ × List (Fate ε)} (h : lossy m (s, fates) = (.ok a, t)) : m s = (.ok a, t.1) := by
  cases fates with
  | nil =>
    obtain ⟨hok, rfl⟩ := Prod.mk.inj h
    exact Prod.ext hok rfl
  | cons fate fates =>
    cases fate with
    | served =>
      obtain ⟨hok, rfl⟩ := Prod.mk.inj h
      exact Prod.ext hok rfl
    | refused e => cases h
    | lost e => cases h

end Losses

end Tethra.ActionRelations
