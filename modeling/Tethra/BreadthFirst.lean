import Mathlib.Data.List.Nodup
import Mathlib.Data.List.Infix

set_option autoImplicit false

/-!
# Breadth first with a work list

A work list is taken from the front; what is taken for the first time is put in order, and its
successors go to the back. What comes out are the levels of the graph one after another, each
element where it comes first.
-/
namespace Tethra.BreadthFirst

variable {α : Type*} [DecidableEq α] (next : α → List α) (starts : List α)

/-- What `n` steps lead to. -/
def level : ℕ → List α
  | 0 => starts
  | n + 1 => (level n).flatMap next

def levels (n : ℕ) : List α := (List.range n).flatMap (level next starts)

/-- Elements have been taken from the work list, and it holds the rest of what was put there. -/
structure Explores (taken queue order : List α) : Prop where
  firsts : order = taken.eraseDups
  content : taken ++ queue = starts ++ order.flatMap next
  reached : ∀ a ∈ taken ++ queue, ∃ n, a ∈ level next starts n

variable {next starts}

/-! ## First occurrences -/

theorem eraseDups_snoc_of_mem {l : List α} {a : α} (h : a ∈ l) :
    (l ++ [a]).eraseDups = l.eraseDups := by
  have hall : [a].removeAll l = [] := by
    simpa [List.removeAll] using h
  rw [List.eraseDups_append, hall, List.eraseDups_nil, List.append_nil]

theorem eraseDups_snoc_of_not_mem {l : List α} {a : α} (h : a ∉ l) :
    (l ++ [a]).eraseDups = l.eraseDups ++ [a] := by
  have hall : [a].removeAll l = [a] := by
    simpa [List.removeAll] using h
  rw [List.eraseDups_append, hall]
  rfl

@[simp] theorem mem_eraseDups {l : List α} {a : α} : a ∈ l.eraseDups ↔ a ∈ l := by
  induction l using List.reverseRecOn with
  | nil => rfl
  | append_singleton l b ih =>
    by_cases hb : b ∈ l
    · rw [eraseDups_snoc_of_mem hb, ih, List.mem_append, List.mem_singleton]
      exact ⟨Or.inl, fun h => h.elim id fun hab => hab ▸ hb⟩
    · rw [eraseDups_snoc_of_not_mem hb, List.mem_append, List.mem_append, ih]

theorem nodup_eraseDups (l : List α) : l.eraseDups.Nodup := by
  induction l using List.reverseRecOn with
  | nil => exact List.nodup_nil
  | append_singleton l b ih =>
    by_cases hb : b ∈ l
    · rw [eraseDups_snoc_of_mem hb]
      exact ih
    · rw [eraseDups_snoc_of_not_mem hb, List.nodup_append]
      refine ⟨ih, List.nodup_singleton b, fun a ha c hc => ?_⟩
      rw [List.mem_singleton.1 hc]
      exact fun hab => hb (mem_eraseDups.1 (hab ▸ ha))

theorem eraseDups_prefix {l m : List α} (h : l <+: m) : l.eraseDups <+: m.eraseDups := by
  obtain ⟨rest, rfl⟩ := h
  rw [List.eraseDups_append]
  exact List.prefix_append _ _

/-- The successors of a repeated element are repeated too. -/
theorem eraseDups_flatMap (l s : List α) :
    (s ++ l.flatMap next).eraseDups = (s ++ l.eraseDups.flatMap next).eraseDups := by
  induction l using List.reverseRecOn with
  | nil => rfl
  | append_singleton l b ih =>
    rw [List.flatMap_append, ← List.append_assoc, List.eraseDups_append, ih]
    by_cases hb : b ∈ l
    · have hall : ([b].flatMap next).removeAll (s ++ l.flatMap next) = [] := by
        rw [List.removeAll, List.filter_eq_nil_iff]
        intro a ha
        have hsub : a ∈ s ++ l.flatMap next :=
          List.mem_append_right _ (List.mem_flatMap.2 ⟨b, hb, by simpa using ha⟩)
        simpa [or_iff_not_imp_left] using hsub
      rw [eraseDups_snoc_of_mem hb, hall, List.eraseDups_nil, List.append_nil]
    · have hsame : ([b].flatMap next).removeAll (s ++ l.flatMap next) =
          ([b].flatMap next).removeAll (s ++ l.eraseDups.flatMap next) := by
        refine List.filter_congr fun a _ => ?_
        simp [List.mem_flatMap]
      rw [eraseDups_snoc_of_not_mem hb, List.flatMap_append, ← List.append_assoc, hsame,
        ← List.eraseDups_append]

/-! ## Levels -/

omit [DecidableEq α] in
theorem levels_succ (n : ℕ) : levels next starts (n + 1) =
    starts ++ (levels next starts n).flatMap next := by
  have hmap : (List.range n).flatMap (fun i => level next starts (i + 1)) =
      (levels next starts n).flatMap next := by
    rw [levels, List.flatMap_assoc]
    rfl
  rw [levels, List.range_succ_eq_map, List.flatMap_cons, List.flatMap_map]
  exact congrArg _ hmap

omit [DecidableEq α] in
theorem mem_levels {n : ℕ} {a : α} :
    a ∈ levels next starts n ↔ ∃ m < n, a ∈ level next starts m := by
  simp [levels, List.mem_flatMap]

namespace Explores
variable {taken queue order : List α} {a : α}

theorem start : Explores next starts [] starts [] where
  firsts := rfl
  content := by simp
  reached _ ha := ⟨0, ha⟩

theorem mem_taken (h : Explores next starts taken queue order) : a ∈ order ↔ a ∈ taken := by
  rw [h.firsts, mem_eraseDups]

/-- An element that has been taken before is dropped. -/
theorem skip (h : Explores next starts taken (a :: queue) order) (ha : a ∈ order) :
    Explores next starts (taken ++ [a]) queue order where
  firsts := by
    rw [eraseDups_snoc_of_mem (h.mem_taken.1 ha)]
    exact h.firsts
  content := by
    rw [List.append_assoc]
    exact h.content
  reached b hb := by
    rw [List.append_assoc] at hb
    exact h.reached b hb

theorem visit (h : Explores next starts taken (a :: queue) order) (ha : a ∉ order) :
    Explores next starts (taken ++ [a]) (queue ++ next a) (order ++ [a]) where
  firsts := by
    rw [eraseDups_snoc_of_not_mem fun hin => ha (h.mem_taken.2 hin), h.firsts]
  content := by
    have hqueue : taken ++ a :: queue ++ next a = starts ++ order.flatMap next ++ next a := by
      rw [h.content]
    rw [List.flatMap_append, List.flatMap_singleton, ← List.append_assoc starts, ← hqueue]
    simp
  reached b hb := by
    have hb : b ∈ taken ++ a :: queue ∨ b ∈ next a := by simpa [or_assoc] using hb
    obtain hold | hnew := hb
    · exact h.reached b hold
    · obtain ⟨n, hn⟩ := h.reached a (by simp)
      exact ⟨n + 1, List.mem_flatMap.2 ⟨a, hn, hnew⟩⟩

variable (h : Explores next starts taken [] order)
include h

theorem order_eq : order = (starts ++ order.flatMap next).eraseDups := by
  have hqueue := h.content
  rw [List.append_nil] at hqueue
  rw [← hqueue]
  exact h.firsts

theorem mem_iff : a ∈ order ↔ ∃ n, a ∈ level next starts n := by
  constructor
  · intro ha
    exact h.reached a (by simpa using h.mem_taken.1 ha)
  · rintro ⟨n, ha⟩
    induction n generalizing a with
    | zero =>
      rw [h.order_eq, mem_eraseDups]
      exact List.mem_append_left _ ha
    | succ n ih =>
      obtain ⟨b, hb, hab⟩ := List.mem_flatMap.1 ha
      rw [h.order_eq, mem_eraseDups]
      exact List.mem_append_right _ (List.mem_flatMap.2 ⟨b, ih hb, hab⟩)

theorem nodup : order.Nodup := by
  rw [h.firsts]
  exact nodup_eraseDups _

/-- The levels come first. -/
theorem levels_prefix (n : ℕ) : (levels next starts n).eraseDups <+: order := by
  induction n with
  | zero => exact List.nil_prefix
  | succ n ih =>
    rw [levels_succ, eraseDups_flatMap, h.order_eq]
    obtain ⟨rest, hrest⟩ := ih
    refine eraseDups_prefix ⟨rest.flatMap next, ?_⟩
    rw [List.append_assoc, ← List.flatMap_append, hrest]

theorem eq_levels : ∃ n, ∀ m, n ≤ m → order = (levels next starts m).eraseDups := by
  have hbound : ∀ l : List α, (∀ a ∈ l, ∃ n, a ∈ level next starts n) →
      ∃ n, ∀ a ∈ l, a ∈ levels next starts n := by
    intro l
    induction l with
    | nil => exact fun _ => ⟨0, fun _ ha => by cases ha⟩
    | cons b l ih =>
      intro hl
      obtain ⟨n, hn⟩ := ih fun a ha => hl a (List.mem_cons_of_mem _ ha)
      obtain ⟨m, hm⟩ := hl b List.mem_cons_self
      refine ⟨max n (m + 1), fun a ha => mem_levels.2 ?_⟩
      obtain rfl | ha := List.mem_cons.1 ha
      · exact ⟨m, by omega, hm⟩
      · obtain ⟨k, hk, hak⟩ := mem_levels.1 (hn a ha)
        exact ⟨k, by omega, hak⟩
  obtain ⟨n, hn⟩ := hbound order fun a ha => h.mem_iff.1 ha
  refine ⟨n, fun m hm => ?_⟩
  obtain ⟨rest, hrest⟩ := h.levels_prefix m
  have hnone : rest = [] := by
    rw [List.eq_nil_iff_forall_not_mem]
    intro a ha
    have hnodup := h.nodup
    rw [← hrest, List.nodup_append] at hnodup
    obtain ⟨k, hk, hak⟩ := mem_levels.1 (hn a (hrest ▸ List.mem_append_right _ ha))
    exact hnodup.2.2 a (mem_eraseDups.2 (mem_levels.2 ⟨k, by omega, hak⟩)) a ha rfl
  rw [← hrest, hnone, List.append_nil]

theorem starts_prefix : starts.eraseDups <+: order := by
  have hfirst := h.levels_prefix 1
  rwa [levels_succ, show levels next starts 0 = [] from rfl, List.flatMap_nil,
    List.append_nil] at hfirst

/-- An element is in order before those that take more steps. -/
theorem pairwise_level : order.Pairwise fun a b =>
    ∀ n, b ∈ level next starts n → ∃ m ≤ n, a ∈ level next starts m := by
  rw [List.pairwise_iff_forall_sublist]
  intro a b hsub n hb
  obtain ⟨rest, hrest⟩ := h.levels_prefix (n + 1)
  have hnodup := h.nodup
  rw [← hrest, List.nodup_append] at hnodup
  have hpairwise : order.Pairwise fun a b => b ∈ (levels next starts (n + 1)).eraseDups →
      a ∈ (levels next starts (n + 1)).eraseDups := by
    rw [← hrest, List.pairwise_append]
    refine ⟨?_, ?_, fun a ha b _ _ => ha⟩
    · exact List.pairwise_of_forall_mem_list fun a ha b _ _ => ha
    · refine List.pairwise_of_forall_mem_list fun a _ b hb hin => ?_
      exact absurd rfl (hnodup.2.2 b hin b hb)
  have hb' : b ∈ (levels next starts (n + 1)).eraseDups :=
    mem_eraseDups.2 (mem_levels.2 ⟨n, Nat.lt_succ_self n, hb⟩)
  have ha := List.pairwise_iff_forall_sublist.1 hpairwise hsub hb'
  obtain ⟨m, hm, ham⟩ := mem_levels.1 (mem_eraseDups.1 ha)
  exact ⟨m, Nat.le_of_lt_succ hm, ham⟩

end Explores

end Tethra.BreadthFirst
