import Mathlib.Computability.Language
import Mathlib.Tactic

set_option autoImplicit false

/-!
# Patterns that are searched for from left to right

A pattern tries its ways to match in a fixed order, longer repetitions first. What it can match
is a language. Replacing goes through a text once and takes the first way at each place.
-/
namespace Tethra.TextPatterns
open Computability

inductive Pattern (α : Type) where
  | sym (p : α → Bool)
  | seq (r t : Pattern α)
  | alt (r t : Pattern α)
  | many (r : Pattern α)
  | upTo (n : ℕ) (r : Pattern α)

namespace Pattern
variable {α : Type}

/-- At most `n` rounds, each of which takes something. -/
def rounds (f : List α → List (List α)) : ℕ → List α → List (List α)
  | 0, s => [s]
  | n + 1, s => ((f s).filter fun t => t.length < s.length).flatMap (rounds f n) ++ [s]

/-- What is left of a text after a match at its start, for every way to match, in order. -/
def rests : Pattern α → List α → List (List α)
  | .sym _, [] => []
  | .sym p, a :: s => if p a then [s] else []
  | .seq r t, s => (r.rests s).flatMap t.rests
  | .alt r t, s => r.rests s ++ t.rests s
  | .many r, s => rounds r.rests s.length s
  | .upTo n r, s => rounds r.rests n s

def language : Pattern α → Language α
  | .sym p => {w | ∃ a, p a = true ∧ w = [a]}
  | .seq r t => r.language * t.language
  | .alt r t => r.language + t.language
  | .many r => r.language∗
  | .upTo n r => {w | ∃ words : List (List α), words.length ≤ n ∧ w = words.flatten ∧
      ∀ word ∈ words, word ∈ r.language}

def plus (r : Pattern α) : Pattern α := .seq r (.many r)

def opt (r : Pattern α) : Pattern α := .upTo 1 r

/-! ## The ways to match and the language -/

theorem mem_rounds {f : List α → List (List α)} {L : Language α}
    (hf : ∀ s t, t ∈ f s ↔ ∃ w ∈ L, s = w ++ t) (n : ℕ) (s t : List α) :
    t ∈ rounds f n s ↔ ∃ words : List (List α), words.length ≤ n ∧ s = words.flatten ++ t ∧
      ∀ word ∈ words, word ∈ L ∧ word ≠ [] := by
  induction n generalizing s with
  | zero =>
    constructor
    · intro h
      exact ⟨[], le_refl _, (List.mem_singleton.1 h).symm, fun _ h => by cases h⟩
    · rintro ⟨words, hlength, hs, -⟩
      rw [List.length_eq_zero_iff.1 (Nat.le_zero.1 hlength)] at hs
      exact List.mem_singleton.2 hs.symm
  | succ n ih =>
    rw [rounds, List.mem_append, List.mem_flatMap]
    constructor
    · rintro (⟨u, hu, ht⟩ | ht)
      · obtain ⟨hmem, hshort⟩ := List.mem_filter.1 hu
        obtain ⟨word, hword, rfl⟩ := (hf s u).1 hmem
        obtain ⟨words, hlength, rfl, hwords⟩ := (ih u).1 ht
        refine ⟨word :: words, Nat.succ_le_succ hlength, ?_, ?_⟩
        · rw [List.flatten_cons, List.append_assoc]
        · intro w hw
          obtain rfl | hw := List.mem_cons.1 hw
          · refine ⟨hword, fun hnil => ?_⟩
            rw [hnil, List.nil_append] at hshort
            simp at hshort
          · exact hwords w hw
      · exact ⟨[], Nat.zero_le _, (List.mem_singleton.1 ht).symm, fun _ h => by cases h⟩
    · rintro ⟨words, hlength, hs, hwords⟩
      cases words with
      | nil => exact Or.inr (List.mem_singleton.2 hs.symm)
      | cons word words =>
        obtain ⟨hword, hnil⟩ := hwords word List.mem_cons_self
        rw [List.flatten_cons, List.append_assoc] at hs
        refine Or.inl ⟨words.flatten ++ t, List.mem_filter.2 ⟨(hf s _).2 ⟨word, hword, hs⟩, ?_⟩, ?_⟩
        · have hpos := List.length_pos_iff.2 hnil
          have hlonger : t.length + words.flatten.length < s.length := by
            rw [hs, List.length_append, List.length_append]
            omega
          rw [List.length_append]
          exact decide_eq_true (by omega)
        · exact (ih _).2 ⟨words, Nat.le_of_succ_le_succ hlength, rfl,
            fun w hw => hwords w (List.mem_cons_of_mem word hw)⟩

/-- The words of a text but for the empty ones. -/
theorem flatten_filter_ne_nil (words : List (List α)) :
    (words.filter fun w => !w.isEmpty).flatten = words.flatten := by
  induction words with
  | nil => rfl
  | cons word words ih =>
    cases word with
    | nil => exact ih
    | cons a word =>
      rw [List.filter_cons_of_pos (by rfl), List.flatten_cons, List.flatten_cons, ih]

theorem length_le_flatten {words : List (List α)} (h : ∀ word ∈ words, word ≠ []) :
    words.length ≤ words.flatten.length := by
  induction words with
  | nil => exact le_refl _
  | cons word words ih =>
    have hpos := List.length_pos_iff.2 (h word List.mem_cons_self)
    have hrest := ih fun w hw => h w (List.mem_cons_of_mem word hw)
    rw [List.flatten_cons, List.length_append, List.length_cons]
    omega

theorem nonempty_words {words : List (List α)} {L : Language α} (h : ∀ w ∈ words, w ∈ L) :
    ∀ w ∈ words.filter fun w => !w.isEmpty, w ∈ L ∧ w ≠ [] := by
  intro w hw
  obtain ⟨hmem, hne⟩ := List.mem_filter.1 hw
  refine ⟨h w hmem, fun hnil => ?_⟩
  rw [hnil] at hne
  cases hne

/-- A way to match leaves what follows a word of the language. -/
theorem mem_rests (r : Pattern α) (s t : List α) :
    t ∈ r.rests s ↔ ∃ w ∈ r.language, s = w ++ t := by
  induction r generalizing s t with
  | sym p =>
    constructor
    · intro h
      cases s with
      | nil => cases h
      | cons a s =>
        rw [rests] at h
        split at h
        · rename_i hp
          exact ⟨[a], ⟨a, hp, rfl⟩, by rw [List.mem_singleton.1 h]; rfl⟩
        · cases h
    · rintro ⟨w, ⟨a, hp, rfl⟩, rfl⟩
      change t ∈ rests (.sym p) (a :: t)
      rw [rests, if_pos hp]
      exact List.mem_singleton_self t
  | seq r q ihr ihq =>
    rw [rests, List.mem_flatMap]
    constructor
    · rintro ⟨u, hu, ht⟩
      obtain ⟨w, hw, rfl⟩ := (ihr s u).1 hu
      obtain ⟨x, hx, rfl⟩ := (ihq u t).1 ht
      exact ⟨w ++ x, Language.mem_mul.2 ⟨w, hw, x, hx, rfl⟩, (List.append_assoc _ _ _).symm⟩
    · rintro ⟨y, hy, rfl⟩
      obtain ⟨w, hw, x, hx, rfl⟩ := Language.mem_mul.1 hy
      exact ⟨x ++ t, (ihr _ _).2 ⟨w, hw, List.append_assoc _ _ _⟩, (ihq _ _).2 ⟨x, hx, rfl⟩⟩
  | alt r q ihr ihq =>
    rw [rests, List.mem_append, ihr, ihq]
    constructor
    · rintro (⟨w, hw, hs⟩ | ⟨w, hw, hs⟩)
      · exact ⟨w, Or.inl hw, hs⟩
      · exact ⟨w, Or.inr hw, hs⟩
    · rintro ⟨w, hw | hw, hs⟩
      · exact Or.inl ⟨w, hw, hs⟩
      · exact Or.inr ⟨w, hw, hs⟩
  | many r ih =>
    rw [rests, mem_rounds ih]
    constructor
    · rintro ⟨words, -, hs, hwords⟩
      exact ⟨words.flatten, Language.mem_kstar.2 ⟨words, rfl, fun w hw => (hwords w hw).1⟩, hs⟩
    · rintro ⟨w, hw, hs⟩
      obtain ⟨words, rfl, hwords⟩ := Language.mem_kstar.1 hw
      have hne := nonempty_words hwords
      refine ⟨words.filter fun w => !w.isEmpty, ?_, ?_, hne⟩
      · have hlength := length_le_flatten fun w hw => (hne w hw).2
        rw [flatten_filter_ne_nil] at hlength
        rw [hs, List.length_append]
        omega
      · rw [flatten_filter_ne_nil]
        exact hs
  | upTo n r ih =>
    rw [rests, mem_rounds ih]
    constructor
    · rintro ⟨words, hlength, hs, hwords⟩
      exact ⟨words.flatten, ⟨words, hlength, rfl, fun w hw => (hwords w hw).1⟩, hs⟩
    · rintro ⟨w, ⟨words, hlength, rfl, hwords⟩, hs⟩
      refine ⟨words.filter fun w => !w.isEmpty, ?_, ?_, nonempty_words hwords⟩
      · exact (List.length_filter_le _ _).trans hlength
      · rw [flatten_filter_ne_nil]
        exact hs

/-! ## Replacing -/

/-- `text.replace(r, by)` with the flag `g`, for a pattern that matches no empty text. -/
def replaceFrom (r : Pattern α) (replacement : List α) : ℕ → List α → List α
  | 0, s => s
  | _ + 1, [] => []
  | n + 1, a :: s =>
    match (r.rests (a :: s)).head? with
    | some t => replacement ++ replaceFrom r replacement n t
    | none => a :: replaceFrom r replacement n s

def replaceAll (r : Pattern α) (replacement s : List α) : List α :=
  replaceFrom r replacement s.length s

/-- Every match takes something. -/
def Proper (r : Pattern α) : Prop := [] ∉ r.language

def Occurs (r : Pattern α) (s : List α) : Prop :=
  ∃ before w after, w ∈ r.language ∧ s = before ++ w ++ after

theorem occurs_cons {r : Pattern α} {a : α} {s : List α} :
    r.Occurs (a :: s) ↔ r.rests (a :: s) ≠ [] ∨ r.Occurs s := by
  constructor
  · rintro ⟨before, w, after, hw, hs⟩
    cases before with
    | nil =>
      refine Or.inl fun hnil => ?_
      have hmem : after ∈ r.rests (a :: s) := (r.mem_rests _ _).2 ⟨w, hw, hs⟩
      rw [hnil] at hmem
      cases hmem
    | cons b before =>
      refine Or.inr ⟨before, w, after, hw, ?_⟩
      rw [List.cons_append, List.cons_append] at hs
      exact (List.cons.inj hs).2
  · rintro (hne | ⟨before, w, after, hw, hs⟩)
    · obtain ⟨t, ht⟩ := List.exists_mem_of_ne_nil _ hne
      obtain ⟨w, hw, hs⟩ := (r.mem_rests _ _).1 ht
      exact ⟨[], w, t, hw, hs⟩
    · exact ⟨a :: before, w, after, hw, by rw [hs]; rfl⟩

theorem not_occurs_nil {r : Pattern α} (h : r.Proper) : ¬ r.Occurs [] := by
  rintro ⟨before, w, after, hw, hs⟩
  have hnil := List.append_eq_nil_iff.1 (List.append_eq_nil_iff.1 hs.symm).1
  rw [hnil.2] at hw
  exact h hw

theorem occurs_iff_tails {r : Pattern α} {s : List α} :
    r.Occurs s ↔ ∃ t ∈ s.tails, r.rests t ≠ [] := by
  constructor
  · rintro ⟨before, w, after, hw, rfl⟩
    refine ⟨w ++ after, (List.mem_tails _ _).2 ?_, fun hnil => ?_⟩
    · rw [List.append_assoc]
      exact List.suffix_append before (w ++ after)
    · have hmem : after ∈ r.rests (w ++ after) := (r.mem_rests _ _).2 ⟨w, hw, rfl⟩
      rw [hnil] at hmem
      cases hmem
  · rintro ⟨t, ht, hne⟩
    obtain ⟨before, rfl⟩ := (List.mem_tails _ _).1 ht
    obtain ⟨after, hafter⟩ := List.exists_mem_of_ne_nil _ hne
    obtain ⟨w, hw, rfl⟩ := (r.mem_rests _ _).1 hafter
    exact ⟨before, w, after, hw, (List.append_assoc _ _ _).symm⟩

instance [DecidableEq α] (r : Pattern α) (s : List α) : Decidable (r.Occurs s) :=
  decidable_of_iff (∃ t ∈ s.tails, r.rests t ≠ []) occurs_iff_tails.symm

theorem replaceFrom_of_not_occurs {r : Pattern α} (replacement : List α) (n : ℕ)
    {s : List α} (hs : ¬ r.Occurs s) : replaceFrom r replacement n s = s := by
  induction n generalizing s with
  | zero => rfl
  | succ n ih =>
    cases s with
    | nil => rfl
    | cons a s =>
      rw [occurs_cons, not_or, not_not] at hs
      rw [replaceFrom, hs.1]
      exact congrArg (a :: ·) (ih hs.2)

/-- A pattern that occurs nowhere is not replaced. -/
theorem replaceAll_of_not_occurs {r : Pattern α} (replacement : List α)
    {s : List α} (hs : ¬ r.Occurs s) : replaceAll r replacement s = s :=
  replaceFrom_of_not_occurs replacement s.length hs

/-- What a removal leaves was there before, in that order. -/
theorem removeFrom_sublist (r : Pattern α) (n : ℕ) (s : List α) :
    (replaceFrom r [] n s).Sublist s := by
  induction n generalizing s with
  | zero => exact List.Sublist.refl s
  | succ n ih =>
    cases s with
    | nil => exact List.Sublist.refl []
    | cons a s =>
      rw [replaceFrom]
      cases hhead : (r.rests (a :: s)).head? with
      | none => exact (ih s).cons_cons a
      | some t =>
        obtain ⟨w, -, hs⟩ := (r.mem_rests _ _).1 (List.mem_of_head? hhead)
        change (replaceFrom r [] n t).Sublist (a :: s)
        rw [hs]
        exact (ih t).trans (List.sublist_append_right w t)

theorem removeAll_sublist (r : Pattern α) (s : List α) : (replaceAll r [] s).Sublist s :=
  removeFrom_sublist r s.length s

theorem removeFrom_shorter {r : Pattern α} (h : r.Proper) {n : ℕ} {s : List α}
    (hn : s.length ≤ n) (hs : r.Occurs s) : (replaceFrom r [] n s).length < s.length := by
  induction n generalizing s with
  | zero =>
    rw [List.length_eq_zero_iff.1 (Nat.le_zero.1 hn)] at hs
    exact absurd hs (not_occurs_nil h)
  | succ n ih =>
    cases s with
    | nil => exact absurd hs (not_occurs_nil h)
    | cons a s =>
      rw [replaceFrom]
      cases hhead : (r.rests (a :: s)).head? with
      | none =>
        have hnil : r.rests (a :: s) = [] := List.head?_eq_none_iff.1 hhead
        have hrest := ih (Nat.le_of_succ_le_succ hn)
          ((occurs_cons.1 hs).resolve_left fun hne => hne hnil)
        exact Nat.succ_lt_succ hrest
      | some t =>
        obtain ⟨w, hw, heq⟩ := (r.mem_rests _ _).1 (List.mem_of_head? hhead)
        have hpos : 0 < w.length := List.length_pos_iff.2 fun hnil => h (hnil ▸ hw)
        have hle := (removeFrom_sublist r n t).length_le
        change (replaceFrom r [] n t).length < (a :: s).length
        rw [heq, List.length_append]
        omega

/-- Where a match holds a match of another pattern, so does the text. -/
theorem Occurs.mono {r t : Pattern α} {s : List α} (h : r.Occurs s)
    (hrt : ∀ w ∈ r.language, t.Occurs w) : t.Occurs s := by
  obtain ⟨before, w, after, hw, rfl⟩ := h
  obtain ⟨first, x, last, hx, rfl⟩ := hrt w hw
  refine ⟨before ++ first, x, last ++ after, hx, ?_⟩
  simp only [List.append_assoc]

theorem occurs_of_mem {r : Pattern α} {w : List α} (h : w ∈ r.language) : r.Occurs w :=
  ⟨[], w, [], h, (List.append_nil w).symm⟩

/-! ## Words of a pattern -/

theorem mem_seq {r t : Pattern α} {w : List α} :
    w ∈ (seq r t).language ↔ ∃ x ∈ r.language, ∃ y ∈ t.language, x ++ y = w := Language.mem_mul

theorem mem_many {r : Pattern α} {w : List α} : w ∈ (many r).language ↔
    ∃ words : List (List α), w = words.flatten ∧ ∀ word ∈ words, word ∈ r.language :=
  Language.mem_kstar

theorem nil_mem_many (r : Pattern α) : [] ∈ (many r).language :=
  mem_many.2 ⟨[], rfl, fun _ h => by cases h⟩

theorem nil_mem_upTo (n : ℕ) (r : Pattern α) : [] ∈ (upTo n r).language :=
  ⟨[], Nat.zero_le n, rfl, fun _ h => by cases h⟩

theorem mem_many_of_upTo {n : ℕ} {r : Pattern α} {w : List α} (h : w ∈ (upTo n r).language) :
    w ∈ (many r).language := by
  obtain ⟨words, -, hw, hwords⟩ := h
  exact mem_many.2 ⟨words, hw, hwords⟩

theorem mem_many_sym {p : α → Bool} {w : List α} :
    w ∈ (many (sym p)).language ↔ ∀ a ∈ w, p a = true := by
  rw [mem_many]
  constructor
  · rintro ⟨words, rfl, hwords⟩ a ha
    obtain ⟨word, hword, haword⟩ := List.mem_flatten.1 ha
    obtain ⟨b, hb, rfl⟩ := hwords word hword
    rw [List.mem_singleton.1 haword]
    exact hb
  · intro h
    refine ⟨w.map fun a => [a], ?_, ?_⟩
    · rw [← List.flatMap_def, List.flatMap_singleton']
    · intro word hword
      obtain ⟨a, ha, rfl⟩ := List.mem_map.1 hword
      exact ⟨a, h a ha, rfl⟩

theorem mem_plus_sym {p : α → Bool} {w : List α} :
    w ∈ (plus (sym p)).language ↔ w ≠ [] ∧ ∀ a ∈ w, p a = true := by
  rw [plus, mem_seq]
  constructor
  · rintro ⟨x, ⟨a, ha, rfl⟩, y, hy, rfl⟩
    refine ⟨List.cons_ne_nil a y, fun b hb => ?_⟩
    obtain rfl | hb := List.mem_cons.1 hb
    · exact ha
    · exact mem_many_sym.1 hy b hb
  · rintro ⟨hne, h⟩
    cases w with
    | nil => exact absurd rfl hne
    | cons a w =>
      refine ⟨[a], ⟨a, h a List.mem_cons_self, rfl⟩, w, ?_, rfl⟩
      exact mem_many_sym.2 fun b hb => h b (List.mem_cons_of_mem a hb)

/-- A sequence of patterns whose parts are wider is wider. -/
theorem seq_mono {r r' t t' : Pattern α} (hr : ∀ w ∈ r.language, w ∈ r'.language)
    (ht : ∀ w ∈ t.language, w ∈ t'.language) : ∀ w ∈ (seq r t).language, w ∈ (seq r' t').language := by
  intro w hw
  obtain ⟨x, hx, y, hy, rfl⟩ := mem_seq.1 hw
  exact mem_seq.2 ⟨x, hr x hx, y, ht y hy, rfl⟩

/-! ## Single symbols -/

theorem rests_sym_cons (p : α → Bool) (a : α) (s : List α) :
    rests (.sym p) (a :: s) = if p a then [s] else [] := rfl

theorem replaceFrom_sym (p : α → Bool) (replacement : List α) {n : ℕ} {s : List α}
    (hn : s.length ≤ n) : replaceFrom (.sym p) replacement n s =
      s.flatMap fun a => if p a then replacement else [a] := by
  induction n generalizing s with
  | zero =>
    rw [List.length_eq_zero_iff.1 (Nat.le_zero.1 hn)]
    rfl
  | succ n ih =>
    cases s with
    | nil => rfl
    | cons a s =>
      have hrest := ih (Nat.le_of_succ_le_succ hn)
      rw [replaceFrom, rests_sym_cons, List.flatMap_cons]
      by_cases hp : p a = true
      · rw [if_pos hp, if_pos hp]
        exact congrArg (replacement ++ ·) hrest
      · rw [if_neg hp, if_neg hp]
        exact congrArg (a :: ·) hrest

/-- Each symbol for itself. -/
theorem replaceAll_sym (p : α → Bool) (replacement s : List α) :
    replaceAll (.sym p) replacement s = s.flatMap fun a => if p a then replacement else [a] :=
  replaceFrom_sym p replacement (le_refl s.length)

theorem rounds_sym {p : α → Bool} {w s : List α} (hw : ∀ a ∈ w, p a = true)
    (hs : ∀ a, s.head? = some a → p a = false) {n : ℕ} (hn : w.length ≤ n) :
    rounds (rests (.sym p)) n (w ++ s) = (w.tails.map (· ++ s)).reverse := by
  induction w generalizing n with
  | nil =>
    cases n with
    | zero => rfl
    | succ n =>
      have hnone : rests (.sym p) s = [] := by
        cases s with
        | nil => rfl
        | cons a s => rw [rests_sym_cons, hs a rfl, if_neg Bool.false_ne_true]
      rw [List.nil_append, rounds, hnone]
      rfl
  | cons a w ih =>
    cases n with
    | zero => cases hn
    | succ n =>
      have hrest := ih (fun b hb => hw b (List.mem_cons_of_mem a hb)) (Nat.le_of_succ_le_succ hn)
      have hshort : ([w ++ s].filter fun t => t.length < (a :: (w ++ s)).length) = [w ++ s] :=
        List.filter_eq_self.2 fun t ht => by
          rw [List.mem_singleton.1 ht]
          exact decide_eq_true (Nat.lt_succ_self _)
      rw [List.cons_append, rounds, rests_sym_cons, if_pos (hw a List.mem_cons_self),
        hshort, List.flatMap_singleton, hrest,
        List.tails_cons, List.map_cons, List.reverse_cons, List.cons_append]

/-- A repetition takes as much as it can first, and then gives back one symbol after the other. -/
theorem rests_many_sym {p : α → Bool} {w s : List α} (hw : ∀ a ∈ w, p a = true)
    (hs : ∀ a, s.head? = some a → p a = false) :
    rests (.many (.sym p)) (w ++ s) = (w.tails.map (· ++ s)).reverse := by
  rw [rests]
  exact rounds_sym hw hs (by rw [List.length_append]; exact Nat.le_add_right _ _)

theorem getLast?_tails (w : List α) : w.tails.getLast? = some [] := by
  induction w with
  | nil => rfl
  | cons a w ih => rw [List.tails_cons, List.getLast?_cons, ih, Option.getD_some]

theorem head?_many_sym {p : α → Bool} {w s : List α} (hw : ∀ a ∈ w, p a = true)
    (hs : ∀ a, s.head? = some a → p a = false) :
    (rests (.many (.sym p)) (w ++ s)).head? = some s := by
  rw [rests_many_sym hw hs, List.head?_reverse, List.getLast?_map, getLast?_tails]
  rfl

theorem head?_plus_sym {p : α → Bool} {w s : List α} (hne : w ≠ []) (hw : ∀ a ∈ w, p a = true)
    (hs : ∀ a, s.head? = some a → p a = false) :
    (rests (plus (.sym p)) (w ++ s)).head? = some s := by
  cases w with
  | nil => exact absurd rfl hne
  | cons a w =>
    rw [plus, rests, List.cons_append, rests_sym_cons, if_pos (hw a List.mem_cons_self),
      List.flatMap_singleton]
    exact head?_many_sym (fun b hb => hw b (List.mem_cons_of_mem a hb)) hs

theorem head?_seq {r t : Pattern α} {s u v : List α} (hr : (r.rests s).head? = some u)
    (ht : (t.rests u).head? = some v) : ((seq r t).rests s).head? = some v := by
  cases hrests : r.rests s with
  | nil =>
    rw [hrests] at hr
    cases hr
  | cons x xs =>
    rw [hrests] at hr
    cases hr
    rw [rests, hrests, List.flatMap_cons, List.head?_append, ht]
    rfl

/-- All symbols of a run but the last, where the last is needed. -/
theorem head?_many_sym_seq {p q : α → Bool} {w s v : List α} {a b : α} {t : Pattern α}
    (hw : ∀ c ∈ w ++ [a], p c = true) (hb : p b = false) (hqb : q b = false) (hqa : q a = true)
    (ht : (t.rests (b :: s)).head? = some v) :
    ((seq (.many (.sym p)) (.seq (.sym q) t)).rests (w ++ a :: b :: s)).head? = some v := by
  have hrests : rests (.many (.sym p)) (w ++ a :: b :: s) =
      (b :: s) :: ((w.tails.map (· ++ [a])).reverse.map (· ++ b :: s)) := by
    have hhead : ∀ c, (b :: s).head? = some c → p c = false := by
      rintro c hc
      cases hc
      exact hb
    rw [List.append_cons, rests_many_sym hw hhead, List.tails_append, List.map_append,
      List.reverse_append, List.map_reverse]
    rfl
  have hfirst : ((w.tails.map (· ++ [a])).reverse.map (· ++ b :: s)).head? =
      some (a :: b :: s) := by
    rw [List.head?_map, List.head?_reverse, List.getLast?_map, getLast?_tails]
    rfl
  rw [rests, hrests, List.flatMap_cons]
  have hnone : (seq (.sym q) t).rests (b :: s) = [] := by
    rw [rests, rests_sym_cons, hqb, if_neg Bool.false_ne_true, List.flatMap_nil]
  rw [hnone, List.nil_append]
  cases hmore : (w.tails.map (· ++ [a])).reverse.map (· ++ b :: s) with
  | nil =>
    rw [hmore] at hfirst
    cases hfirst
  | cons x xs =>
    rw [hmore] at hfirst
    cases hfirst
    rw [List.flatMap_cons, List.head?_append, rests, rests_sym_cons, if_pos hqa,
      List.flatMap_singleton, ht]
    rfl

/-- As few symbols of `p` as possible and one of `stop`. -/
def lazily (p stop : α → Bool) : List α → List (List α)
  | [] => []
  | a :: s => (if stop a then [s] else []) ++ if p a then lazily p stop s else []

theorem head?_lazily {p stop : α → Bool} {w s : List α} {a : α} (hw : ∀ b ∈ w, p b = true)
    (hstop : ∀ b ∈ w, stop b = false) (ha : stop a = true) :
    (lazily p stop (w ++ a :: s)).head? = some s := by
  induction w with
  | nil =>
    rw [List.nil_append, lazily, if_pos ha]
    rfl
  | cons b w ih =>
    rw [List.cons_append, lazily, hstop b List.mem_cons_self, if_neg Bool.false_ne_true,
      if_pos (hw b List.mem_cons_self), List.nil_append]
    exact ih (fun c hc => hw c (List.mem_cons_of_mem b hc))
      fun c hc => hstop c (List.mem_cons_of_mem b hc)

/-! ## Where a pattern can start -/

/-- Every match starts with such a symbol. -/
def StartsWith (p : α → Prop) (r : Pattern α) : Prop :=
  ∀ w ∈ r.language, ∃ a rest, w = a :: rest ∧ p a

theorem StartsWith.proper {p : α → Prop} {r : Pattern α} (h : StartsWith p r) : r.Proper := by
  intro hnil
  obtain ⟨a, rest, hcons, -⟩ := h [] hnil
  cases hcons

theorem StartsWith.not_occurs {p : α → Prop} {r : Pattern α} (h : StartsWith p r) {s : List α}
    (hs : ∀ a ∈ s, ¬ p a) : ¬ r.Occurs s := by
  rintro ⟨before, w, after, hw, rfl⟩
  obtain ⟨a, rest, rfl, ha⟩ := h w hw
  exact hs a (List.mem_append_left _ (List.mem_append_right _ List.mem_cons_self)) ha

theorem startsWith_sym {p : α → Bool} : StartsWith (fun a => p a = true) (.sym p) := by
  rintro w ⟨a, hp, rfl⟩
  exact ⟨a, [], rfl, hp⟩

theorem StartsWith.seq {p : α → Prop} {r : Pattern α} (h : StartsWith p r) (t : Pattern α) :
    StartsWith p (.seq r t) := by
  intro w hw
  obtain ⟨x, hx, y, -, rfl⟩ := Language.mem_mul.1 hw
  obtain ⟨a, rest, rfl, ha⟩ := h x hx
  exact ⟨a, rest ++ y, rfl, ha⟩

theorem StartsWith.alt {p : α → Prop} {r t : Pattern α} (h : StartsWith p r)
    (h' : StartsWith p t) : StartsWith p (.alt r t) := by
  rintro w (hw | hw)
  · exact h w hw
  · exact h' w hw

theorem StartsWith.mono {p q : α → Prop} {r : Pattern α} (h : StartsWith p r)
    (hpq : ∀ a, p a → q a) : StartsWith q r := by
  intro w hw
  obtain ⟨a, rest, hcons, ha⟩ := h w hw
  exact ⟨a, rest, hcons, hpq a ha⟩

end Pattern
end Tethra.TextPatterns
