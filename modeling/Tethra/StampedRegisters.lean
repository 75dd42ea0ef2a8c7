import Mathlib.Order.WithBot
import Mathlib.Tactic

set_option autoImplicit false

/-!
# Registers that keep the value with the latest stamp

Values carry a stamp from a linear order. A register takes an offered value when its own
stamp is strictly earlier, so on equal stamps the value in place stays.
-/
namespace Tethra.StampedRegisters

variable {α κ : Type}

/-- An empty register is below every stamp. -/
def rank (stamp : α → κ) : Option α → WithBot κ
  | none => ⊥
  | some a => (stamp a : WithBot κ)

variable {stamp : α → κ}

@[simp] theorem rank_none : rank stamp none = ⊥ := rfl

@[simp] theorem rank_some (a : α) : rank stamp (some a) = (stamp a : WithBot κ) := rfl

theorem rank_eq_bot {r : Option α} : rank stamp r = ⊥ ↔ r = none := by
  cases r <;> simp

/-- Values of one history with distinct stamps: equal ranks are equal registers. -/
theorem eq_of_rank_eq {U : α → Prop} (hU : ∀ a b, U a → U b → stamp a = stamp b → a = b)
    {r s : Option α} (hr : ∀ a, r = some a → U a) (hs : ∀ a, s = some a → U a)
    (h : rank stamp r = rank stamp s) : r = s := by
  cases r with
  | none => exact (rank_eq_bot.1 h.symm).symm
  | some a =>
    cases s with
    | none => simp at h
    | some b =>
      rw [rank_some, rank_some, WithBot.coe_inj] at h
      exact congrArg some (hU a b (hr a rfl) (hs b rfl) h)

section
variable [LinearOrder κ]

def offer (stamp : α → κ) (r : Option α) (x : α) : Option α :=
  if rank stamp r < (stamp x : WithBot κ) then some x else r

def offerAll (stamp : α → κ) (r : Option α) (xs : List α) : Option α := xs.foldl (offer stamp) r

theorem offer_eq_some_or (stamp : α → κ) (r : Option α) (x : α) :
    offer stamp r x = some x ∨ offer stamp r x = r := by
  unfold offer
  split
  · exact Or.inl rfl
  · exact Or.inr rfl

theorem rank_offer (r : Option α) (x : α) :
    rank stamp (offer stamp r x) = max (rank stamp r) (stamp x) := by
  unfold offer
  split
  · rename_i h
    rw [rank_some, max_eq_right h.le]
  · rename_i h
    rw [max_eq_left (not_lt.1 h)]

theorem offer_of_le {r : Option α} {x : α} (h : (stamp x : WithBot κ) ≤ rank stamp r) :
    offer stamp r x = r := by
  rw [offer, if_neg (not_lt.2 h)]

theorem offer_of_lt {r : Option α} {x : α} (h : rank stamp r < (stamp x : WithBot κ)) :
    offer stamp r x = some x := by
  rw [offer, if_pos h]

theorem rank_le_offer (r : Option α) (x : α) : rank stamp r ≤ rank stamp (offer stamp r x) := by
  rw [rank_offer]
  exact le_max_left _ _

theorem stamp_le_offer (r : Option α) (x : α) :
    (stamp x : WithBot κ) ≤ rank stamp (offer stamp r x) := by
  rw [rank_offer]
  exact le_max_right _ _

theorem rank_le_offerAll (r : Option α) (xs : List α) :
    rank stamp r ≤ rank stamp (offerAll stamp r xs) := by
  induction xs generalizing r with
  | nil => exact le_refl _
  | cons x xs ih => exact (rank_le_offer r x).trans (ih _)

theorem stamp_le_offerAll {r : Option α} {xs : List α} {x : α} (hx : x ∈ xs) :
    (stamp x : WithBot κ) ≤ rank stamp (offerAll stamp r xs) := by
  induction xs generalizing r with
  | nil => cases hx
  | cons y xs ih =>
    rcases List.mem_cons.1 hx with rfl | hx
    · exact (stamp_le_offer r x).trans (rank_le_offerAll _ xs)
    · exact ih hx

theorem offerAll_eq_or (stamp : α → κ) (r : Option α) (xs : List α) :
    offerAll stamp r xs = r ∨ ∃ x ∈ xs, offerAll stamp r xs = some x := by
  induction xs generalizing r with
  | nil => exact Or.inl rfl
  | cons y xs ih =>
    change offerAll stamp (offer stamp r y) xs = r ∨ _
    rcases ih (offer stamp r y) with h | ⟨x, hx, h⟩
    · rcases offer_eq_some_or stamp r y with hy | hy
      · exact Or.inr ⟨y, List.mem_cons_self, h.trans hy⟩
      · exact Or.inl (h.trans hy)
    · exact Or.inr ⟨x, List.mem_cons_of_mem _ hx, h⟩

theorem offerAll_of_le {r : Option α} {xs : List α}
    (h : ∀ x ∈ xs, (stamp x : WithBot κ) ≤ rank stamp r) : offerAll stamp r xs = r := by
  induction xs with
  | nil => rfl
  | cons x xs ih =>
    change offerAll stamp (offer stamp r x) xs = r
    rw [offer_of_le (h x List.mem_cons_self)]
    exact ih fun y hy => h y (List.mem_cons_of_mem _ hy)

/-- Offering one value again changes nothing. -/
theorem offerAll_same {r : Option α} {a : α} {xs : List α} (hne : xs ≠ [])
    (h : ∀ x ∈ xs, x = a) : offerAll stamp r xs = offer stamp r a := by
  cases xs with
  | nil => exact absurd rfl hne
  | cons x xs =>
    obtain rfl := h x List.mem_cons_self
    change offerAll stamp (offer stamp r x) xs = offer stamp r x
    refine offerAll_of_le fun y hy => ?_
    rw [h y (List.mem_cons_of_mem _ hy)]
    exact stamp_le_offer r x

/-- The latest of the values that beat the register are one value. -/
def Settled (stamp : α → κ) (r : Option α) (xs : List α) : Prop :=
  ∀ a ∈ xs, ∀ b ∈ xs, rank stamp r < (stamp a : WithBot κ) → (∀ c ∈ xs, stamp c ≤ stamp a) →
    stamp b = stamp a → b = a

/-- What is left is the register, if nothing beats it, or one of the latest values. -/
theorem offerAll_cases (stamp : α → κ) (r : Option α) (xs : List α) :
    (offerAll stamp r xs = r ∧ ∀ c ∈ xs, (stamp c : WithBot κ) ≤ rank stamp r) ∨
      ∃ a ∈ xs, offerAll stamp r xs = some a ∧ rank stamp r < (stamp a : WithBot κ) ∧
        ∀ c ∈ xs, stamp c ≤ stamp a := by
  by_cases hle : ∀ c ∈ xs, (stamp c : WithBot κ) ≤ rank stamp r
  · exact Or.inl ⟨offerAll_of_le hle, hle⟩
  · simp only [not_forall, not_le] at hle
    obtain ⟨c, hc, hlt⟩ := hle
    have hbeats := hlt.trans_le (stamp_le_offerAll (r := r) hc)
    refine Or.inr ?_
    rcases offerAll_eq_or stamp r xs with hr | ⟨a, ha, hr⟩
    · rw [hr] at hbeats
      exact absurd hbeats (lt_irrefl _)
    · rw [hr] at hbeats
      refine ⟨a, ha, hr, hbeats, fun d hd => ?_⟩
      have hle : (stamp d : WithBot κ) ≤ rank stamp (offerAll stamp r xs) := stamp_le_offerAll hd
      rw [hr] at hle
      exact WithBot.coe_le_coe.1 hle

/-- Offers with a settled outcome may come in any order. -/
theorem offerAll_perm {r : Option α} {xs ys : List α} (h : Settled stamp r xs)
    (hperm : ys.Perm xs) : offerAll stamp r ys = offerAll stamp r xs := by
  obtain ⟨hx, hle⟩ | ⟨a, ha, hx, hlt, hlatest⟩ := offerAll_cases stamp r xs
  · rw [hx]
    exact offerAll_of_le fun c hc => hle c (hperm.mem_iff.1 hc)
  · obtain ⟨-, hle⟩ | ⟨b, hb, hy, -, hlatest'⟩ := offerAll_cases stamp r ys
    · exact absurd hlt (not_lt.2 (hle a (hperm.mem_iff.2 ha)))
    · have hb' := hperm.mem_iff.1 hb
      have hstamp := le_antisymm (hlatest b hb') (hlatest' a (hperm.mem_iff.2 ha))
      rw [hx, hy, h a ha b hb' hlt hlatest hstamp]

/-- No other condition is enough. -/
theorem settled_of_perm [DecidableEq α] {r : Option α} {xs : List α}
    (h : ∀ ys, ys.Perm xs → offerAll stamp r ys = offerAll stamp r xs) : Settled stamp r xs := by
  intro a ha b hb hlt hlatest hstamp
  have hfirst : ∀ c ∈ xs, stamp c = stamp a → offerAll stamp r xs = some c := by
    intro c hc hcstamp
    rw [← h (c :: xs.erase c) (List.perm_cons_erase hc).symm]
    change offerAll stamp (offer stamp r c) _ = _
    rw [offer_of_lt (hcstamp ▸ hlt)]
    refine offerAll_of_le fun d hd => WithBot.coe_le_coe.2 ?_
    rw [hcstamp]
    exact hlatest d (List.mem_of_mem_erase hd)
  exact Option.some.inj ((hfirst b hb hstamp).symm.trans (hfirst a ha rfl))

/-- The register holds a value of `U` no value of `U` beats. -/
def IsLatest (stamp : α → κ) (U : α → Prop) (r : Option α) : Prop :=
  (∀ a, r = some a → U a) ∧ ∀ u, U u → (stamp u : WithBot κ) ≤ rank stamp r

end
end Tethra.StampedRegisters
