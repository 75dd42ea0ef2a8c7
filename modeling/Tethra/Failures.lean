import Tethra.AtomicPrograms

set_option autoImplicit false

/-!
# How actions fail

The errors of a program are the errors of its actions.
-/
namespace Tethra.Failures
open AtomicPrograms StatefulActions

section Failures
variable {σ ε α β : Type}

/-- From where `I` holds the action fails only with errors of `E`, and leaves `I`. -/
def Fails (I : σ → Prop) (E : ε → Prop) (m : Action σ ε α) : Prop :=
  ∀ s, I s → I (m s).2 ∧ ∀ e, (m s).1 = .error e → E e

variable {I : σ → Prop} {E : ε → Prop}

theorem Fails.pure (a : α) : Fails I E (pure a : Action σ ε α) :=
  fun _ hs => ⟨hs, fun _ h => by cases h⟩

theorem Fails.read (f : σ → α) : Fails I E (Action.read f : Action σ ε α) :=
  fun _ hs => ⟨hs, fun _ h => by cases h⟩

theorem Fails.fail {e : ε} (he : E e) : Fails I E (Action.fail e : Action σ ε α) :=
  fun _ hs => ⟨hs, fun _ h => by cases h; exact he⟩

theorem Fails.bind {m : Action σ ε α} {f : α → Action σ ε β} (hm : Fails I E m)
    (hf : ∀ a, Fails I E (f a)) : Fails I E (m >>= f) := by
  intro s hs
  have hfirst := hm s hs
  rcases hrun : m s with ⟨r, t⟩
  rw [hrun] at hfirst
  cases r with
  | ok a =>
    rw [Action.bind_ok hrun]
    exact hf a t hfirst.1
  | error e =>
    rw [Action.bind_error hrun]
    exact ⟨hfirst.1, fun e' h => by cases h; exact hfirst.2 e rfl⟩

theorem Fails.ofExcept {r : Except ε α} (hr : ∀ e, r = .error e → E e) :
    Fails I E (Action.ofExcept r : Action σ ε α) := fun _ hs => ⟨hs, hr⟩

/-- A program whose actions fail only so, fails only so. -/
theorem fails_run {p : Program σ ε α} (hp : p.Each (Fails I E)) : Fails I E p.run := by
  induction p with
  | ret a => exact Fails.pure a
  | act m next ih => exact Fails.bind hp.1 fun b => ih b (hp.2 b)

end Failures

end Tethra.Failures
