import Tethra.ReplicatedRegisters

set_option autoImplicit false

/-!
# Registers that are not to be active together

Two registers, each replicated at several places, and a state of each in which it is active.
Wherever one is active at some place and the other at another, one of the two places already
holds what will put out the other. So no place holds both active, and places that take the
later of two registers from one another never come to.
-/
namespace Tethra.ExclusiveRegisters
open ReplicatedRegisters StampedRegisters

variable {E α κ : Type}

def On (A : α → Prop) (r : Option α) : Prop := ∃ a, r = some a ∧ A a

@[simp] theorem on_some {A : α → Prop} {a : α} : On A (some a) ↔ A a := by simp [On]

@[simp] theorem not_on_none {A : α → Prop} : ¬ On A none := by simp [On]

variable [LinearOrder κ] (stamp : α → κ)

/-- The first register is later than the second, and not active. -/
def PutsOut (A : α → Prop) (r s : Option α) : Prop := rank stamp s < rank stamp r ∧ ¬ On A r

def Exclusive (A B : α → Prop) (X Y : E → Option α) : Prop :=
  ∀ p q, On A (X p) → On B (Y q) →
    PutsOut stamp B (Y p) (Y q) ∨ PutsOut stamp A (X q) (X p)

/-- Place `e` takes the later of its register and that of place `f`. -/
structure Takes (e f : E) (X X' : E → Option α) : Prop where
  apart : ∀ g, g ≠ e → X' g = X g
  either : X' e = X e ∨ X' e = X f
  own : rank stamp (X e) ≤ rank stamp (X' e)
  taken : rank stamp (X f) ≤ rank stamp (X' e)

variable {stamp} {A B : α → Prop} {X X' Y Y' : E → Option α} {e f : E}

theorem Exclusive.symm (h : Exclusive stamp A B X Y) : Exclusive stamp B A Y X :=
  fun p q hp hq => (h q p hq hp).symm

theorem PutsOut.not_le {r s : Option α} (h : PutsOut stamp A r s)
    (hle : rank stamp r ≤ rank stamp s) : False := absurd h.1 (not_lt.2 hle)

/-- No place holds both active. -/
theorem Exclusive.not_both (h : Exclusive stamp A B X Y) (p : E) : ¬ (On A (X p) ∧ On B (Y p)) := by
  rintro ⟨hA, hB⟩
  obtain hout | hout := h p p hA hB
  · exact hout.not_le le_rfl
  · exact hout.not_le le_rfl

theorem exclusive_of_off (h : ∀ p, ¬ On A (X p)) : Exclusive stamp A B X Y :=
  fun p _ hA _ => (h p hA).elim

/-- Where the register came from, and that it is the later one. -/
theorem Takes.origin (h : Takes stamp e f X X') :
    (X' e = X e ∧ rank stamp (X f) ≤ rank stamp (X e)) ∨
      (X' e = X f ∧ rank stamp (X e) ≤ rank stamp (X f)) := by
  have hown := h.own
  have htaken := h.taken
  obtain hX | hX := h.either
  · rw [hX] at htaken
    exact Or.inl ⟨hX, htaken⟩
  · rw [hX] at hown
    exact Or.inr ⟨hX, hown⟩

/-- A place where `X` is active after it took keeps what puts `Y` out. -/
theorem Exclusive.takes_off (h : Exclusive stamp A B X Y) (hX : Takes stamp e f X X')
    (hY : Takes stamp e f Y Y') (hA : On A (X' e)) : ¬ On B (Y' e) := by
  intro hB
  obtain ⟨hxe, hxle⟩ | ⟨hxf, hxle⟩ := hX.origin
  · rw [hxe] at hA
    obtain ⟨hye, hyle⟩ | ⟨hyf, hyle⟩ := hY.origin
    · rw [hye] at hB
      exact h.not_both e ⟨hA, hB⟩
    · rw [hyf] at hB
      obtain hout | hout := h e f hA hB
      · exact hout.not_le hyle
      · exact hout.not_le hxle
  · rw [hxf] at hA
    obtain ⟨hye, hyle⟩ | ⟨hyf, hyle⟩ := hY.origin
    · rw [hye] at hB
      obtain hout | hout := h f e hA hB
      · exact hout.not_le hyle
      · exact hout.not_le hxle
    · rw [hyf] at hB
      exact h.not_both f ⟨hA, hB⟩

theorem Exclusive.takes_self (h : Exclusive stamp A B X Y) (hX : Takes stamp e f X X')
    (hY : Takes stamp e f Y Y') {q : E} (hq : q ≠ e) (hA : On A (X' e)) (hB : On B (Y' q)) :
    PutsOut stamp B (Y' e) (Y' q) ∨ PutsOut stamp A (X' q) (X' e) := by
  have hoff := h.takes_off hX hY hA
  rw [hY.apart q hq] at hB ⊢
  rw [hX.apart q hq]
  obtain ⟨hxe, -⟩ | ⟨hxf, -⟩ := hX.origin
  · rw [hxe] at hA ⊢
    obtain hout | hout := h e q hA hB
    · exact Or.inl ⟨hout.1.trans_le hY.own, hoff⟩
    · exact Or.inr hout
  · rw [hxf] at hA ⊢
    obtain hout | hout := h f q hA hB
    · exact Or.inl ⟨hout.1.trans_le hY.taken, hoff⟩
    · exact Or.inr hout

/-- A place that takes both registers from another one keeps them exclusive. -/
theorem Exclusive.takes (h : Exclusive stamp A B X Y) (hX : Takes stamp e f X X')
    (hY : Takes stamp e f Y Y') : Exclusive stamp A B X' Y' := by
  intro p q hA hB
  by_cases hp : p = e
  · subst hp
    by_cases hq : q = p
    · subst hq
      exact (h.takes_off hX hY hA hB).elim
    · exact h.takes_self hX hY hq hA hB
  · by_cases hq : q = e
    · subst hq
      exact (h.symm.takes_self hY hX hp hB hA).symm
    · rw [hX.apart p hp] at hA ⊢
      rw [hY.apart q hq] at hB ⊢
      rw [hX.apart q hq, hY.apart p hp]
      exact h p q hA hB

/-- A place writes its register with a later stamp. If it makes it active, it holds what puts
out every active `Y`. -/
theorem Exclusive.writes (h : Exclusive stamp A B X Y) (hapart : ∀ g, g ≠ e → X' g = X g)
    (hlater : rank stamp (X e) ≤ rank stamp (X' e))
    (hactive : On A (X' e) → ∀ q, On B (Y q) → PutsOut stamp B (Y e) (Y q)) :
    Exclusive stamp A B X' Y := by
  intro p q hA hB
  by_cases hp : p = e
  · subst hp
    exact Or.inl (hactive hA q hB)
  · rw [hapart p hp] at hA ⊢
    obtain hout | hout := h p q hA hB
    · exact Or.inl hout
    · by_cases hq : q = e
      · subst hq
        refine Or.inr ⟨hout.1.trans_le hlater, fun hon => ?_⟩
        exact (hactive hon q hB).not_le le_rfl
      · rw [hapart q hq]
        exact Or.inr hout

/-! ## Replicas and their hub -/

section Nets
variable {D : Type} {n m : Net D α} {U V : α → Prop} {d : D}

/-- The register at the hub and at each party. -/
def held (n : Net D α) : Option D → Option α
  | none => n.hub
  | some d => n.replica d

/-- A sync brings no value that was nowhere. -/
theorem held_origin (h : Synced stamp d n m) (p : Option D) : ∃ q, held m p = held n q := by
  by_cases hw : n.withheld d
  · refine ⟨p, ?_⟩
    cases p with
    | none => exact (h.secret hw).2
    | some e =>
      by_cases he : e = d
      · subst he
        exact (h.secret hw).1
      · exact h.apart.replica e he
  · have hreplica : ∃ q, m.replica d = held n q := by
      obtain hrep | hrep := (h.pulled hw).1
      · exact ⟨some d, hrep⟩
      · exact ⟨none, hrep⟩
    cases p with
    | none =>
      obtain hhub | hhub := (h.pushed hw).1
      · exact ⟨none, hhub⟩
      · obtain ⟨q, hq⟩ := hreplica
        exact ⟨q, hhub.trans hq⟩
    | some e =>
      by_cases he : e = d
      · subst he
        exact hreplica
      · exact ⟨some e, h.apart.replica e he⟩

/-- A party has pulled and not yet pushed. -/
def pulled (n m : Net D α) : Option D → Option α
  | none => n.hub
  | some d => m.replica d

theorem takes_pulled (h : Synced stamp d n m) (hn : Tracked stamp U n) (hw : ¬ n.withheld d) :
    Takes stamp (some d) none (held n) (pulled n m) where
  apart
    | none, _ => rfl
    | some e, he => h.apart.replica e fun hed => he (congrArg some hed)
  either := (h.pulled hw).1
  own := (h.pulled hw).2.1
  taken := by
    obtain hlt | heq := (hn.seen_le d).lt_or_eq
    · exact (h.pulled hw).2.2 hlt
    · exact (hn.current d heq hw).trans (h.pulled hw).2.1

theorem takes_pushed (h : Synced stamp d n m) (hw : ¬ n.withheld d) :
    Takes stamp none (some d) (pulled n m) (held m) where
  apart
    | none, he => (he rfl).elim
    | some _, _ => rfl
  either := (h.pushed hw).1
  own := (h.pushed hw).2.1
  taken := (h.pushed hw).2.2

/-- A sync of two registers that its party does not withhold. -/
theorem Exclusive.synced {n' m' : Net D α} (h : Exclusive stamp A B (held n) (held n'))
    (hn : Synced stamp d n m) (hn' : Synced stamp d n' m') (ht : Tracked stamp U n)
    (ht' : Tracked stamp V n') (hw : ¬ n.withheld d) (hw' : ¬ n'.withheld d) :
    Exclusive stamp A B (held m) (held m') :=
  (h.takes (takes_pulled hn ht hw) (takes_pulled hn' ht' hw')).takes (takes_pushed hn hw)
    (takes_pushed hn' hw')

end Nets

end Tethra.ExclusiveRegisters
