import Mathlib.Data.List.DropRight
import Mathlib.Tactic

set_option autoImplicit false

/-!
# Trimming

What satisfies a predicate is taken off both ends of a list. What is left begins and ends with
something else.
-/
namespace Tethra.Trimming

variable {α : Type} {p : α → Bool} {l a b : List α}

def trimmed (p : α → Bool) (l : List α) : List α := (l.dropWhile p).rdropWhile p

/-- What is taken off in front. -/
def lead (p : α → Bool) (l : List α) : List α := l.takeWhile p

/-- What is taken off behind. -/
def trail (p : α → Bool) (l : List α) : List α := (l.dropWhile p).rtakeWhile p

/-- Nothing can be taken off. -/
def Bare (p : α → Bool) (l : List α) : Prop :=
  (∀ x, l.head? = some x → p x = false) ∧ ∀ x, l.getLast? = some x → p x = false

theorem lead_trimmed_trail (p : α → Bool) (l : List α) :
    lead p l ++ trimmed p l ++ trail p l = l := by
  rw [List.append_assoc, trimmed, trail, List.rdropWhile_append_rtakeWhile, lead,
    List.takeWhile_append_dropWhile]

theorem of_mem_lead {x : α} (h : x ∈ lead p l) : p x = true := List.mem_takeWhile_imp h

theorem of_mem_trail {x : α} (h : x ∈ trail p l) : p x = true := List.mem_rtakeWhile_imp h

theorem length_trimmed_le (p : α → Bool) (l : List α) : (trimmed p l).length ≤ l.length := by
  have hlength := congrArg List.length (lead_trimmed_trail p l)
  simp only [List.length_append] at hlength
  omega

theorem dropWhile_eq_self : l.dropWhile p = l ↔ ∀ x, l.head? = some x → p x = false := by
  rw [List.dropWhile_eq_self_iff]
  cases l <;> simp

theorem rdropWhile_eq_self : l.rdropWhile p = l ↔ ∀ x, l.getLast? = some x → p x = false := by
  rw [List.rdropWhile_eq_self_iff]
  induction l using List.reverseRecOn <;> simp

theorem bare_iff : Bare p l ↔ l.dropWhile p = l ∧ l.rdropWhile p = l := by
  rw [dropWhile_eq_self, rdropWhile_eq_self, Bare]

theorem trimmed_of_bare (h : Bare p l) : trimmed p l = l := by
  obtain ⟨hdrop, hrdrop⟩ := bare_iff.1 h
  rw [trimmed, hdrop, hrdrop]

theorem bare_trimmed (p : α → Bool) (l : List α) : Bare p (trimmed p l) := by
  refine ⟨fun x hx => ?_, rdropWhile_eq_self.1 (List.rdropWhile_idempotent p _)⟩
  have hhead := List.head?_dropWhile_not p l
  obtain ⟨rest, hrest⟩ := List.rdropWhile_prefix p (l.dropWhile p)
  rw [← hrest, List.head?_append, ← trimmed, hx] at hhead
  exact hhead

theorem trimmed_eq_self_iff : trimmed p l = l ↔ Bare p l :=
  ⟨fun h => h ▸ bare_trimmed p l, trimmed_of_bare⟩

theorem trimmed_of_length (h : l.length ≤ (trimmed p l).length) : trimmed p l = l := by
  have hall := lead_trimmed_trail p l
  have hlength := congrArg List.length hall
  simp only [List.length_append] at hlength
  have hlead : lead p l = [] := List.eq_nil_of_length_eq_zero (by omega)
  have htrail : trail p l = [] := List.eq_nil_of_length_eq_zero (by omega)
  rwa [hlead, htrail, List.nil_append, List.append_nil] at hall

/-- What is bare is what is left of it with anything around it that is taken off. -/
theorem trimmed_append (ha : ∀ x ∈ a, p x = true) (hb : ∀ x ∈ b, p x = true) (hl : Bare p l) :
    trimmed p (a ++ l ++ b) = l := by
  obtain ⟨hdrop, hrdrop⟩ := bare_iff.1 hl
  have hback : ∀ m, (m ++ b).rdropWhile p = m.rdropWhile p := by
    intro m
    rw [List.rdropWhile, List.reverse_append, List.dropWhile_append_of_pos]
    · rfl
    · exact fun x hx => hb x (List.mem_reverse.1 hx)
  rw [trimmed, List.append_assoc, List.dropWhile_append_of_pos ha, List.dropWhile_append, hdrop]
  cases l with
  | nil =>
    rw [List.isEmpty_nil, if_pos rfl, List.dropWhile_eq_nil_iff.2 hb]
    rfl
  | cons x l =>
    rw [List.isEmpty_cons, if_neg Bool.false_ne_true, hback, hrdrop]

end Tethra.Trimming
