import Mathlib.Data.List.Nodup
import Mathlib.Data.List.Sort
import Mathlib.Tactic

set_option autoImplicit false

/-!
# Tables with a primary key

Rows in insertion order, no two with one key. A write replaces the row of its key where
it stands or adds the row at the end, as an `INSERT .. ON CONFLICT DO UPDATE` does.
-/
namespace Tethra.KeyedTables

variable {α κ : Type} [DecidableEq κ]

def upsert (key : α → κ) (a : α) : List α → List α
  | [] => [a]
  | b :: l => if key b = key a then a :: l else b :: upsert key a l

def lookup (key : α → κ) (k : κ) : List α → Option α
  | [] => none
  | b :: l => if key b = k then some b else lookup key k l

theorem lookup_upsert_self (key : α → κ) (a : α) (l : List α) :
    lookup key (key a) (upsert key a l) = some a := by
  induction l with
  | nil => simp [upsert, lookup]
  | cons b l ih =>
    by_cases h : key b = key a
    · simp [upsert, lookup, h]
    · simp [upsert, lookup, h, ih]

theorem lookup_upsert_of_ne (key : α → κ) (a : α) {k : κ} (hk : k ≠ key a) (l : List α) :
    lookup key k (upsert key a l) = lookup key k l := by
  induction l with
  | nil => simp [upsert, lookup, hk.symm]
  | cons b l ih =>
    by_cases h : key b = key a
    · simp [upsert, lookup, h, hk.symm]
    · simp [upsert, lookup, h, ih]

theorem mem_upsert {key : α → κ} {a b : α} {l : List α} (h : b ∈ upsert key a l) :
    b = a ∨ b ∈ l := by
  induction l with
  | nil => simpa [upsert] using h
  | cons c l ih =>
    by_cases hc : key c = key a
    · simp only [upsert, hc, ↓reduceIte, List.mem_cons] at h ⊢
      tauto
    · simp only [upsert, hc, ↓reduceIte, List.mem_cons] at h ⊢
      tauto

theorem lookup_key {key : α → κ} {k : κ} {a : α} {l : List α} (h : lookup key k l = some a) :
    key a = k := by
  induction l with
  | nil => cases h
  | cons b l ih =>
    by_cases hb : key b = k
    · simp only [lookup, hb, ↓reduceIte, Option.some.injEq] at h
      exact h ▸ hb
    · simp only [lookup, hb, ↓reduceIte] at h
      exact ih h

theorem lookup_mem {key : α → κ} {k : κ} {a : α} {l : List α} (h : lookup key k l = some a) :
    a ∈ l := by
  induction l with
  | nil => cases h
  | cons b l ih =>
    by_cases hb : key b = k
    · simp only [lookup, hb, ↓reduceIte, Option.some.injEq] at h
      simp [h]
    · simp only [lookup, hb, ↓reduceIte] at h
      exact List.mem_cons_of_mem _ (ih h)

theorem upsert_nodup {key : α → κ} {l : List α} (a : α) (h : (l.map key).Nodup) :
    ((upsert key a l).map key).Nodup := by
  induction l with
  | nil => simp [upsert]
  | cons b l ih =>
    rw [List.map_cons, List.nodup_cons] at h
    by_cases hb : key b = key a
    · simpa only [upsert, hb, ↓reduceIte, List.map_cons, List.nodup_cons] using ⟨hb ▸ h.1, h.2⟩
    · simp only [upsert, hb, ↓reduceIte, List.map_cons, List.nodup_cons]
      refine ⟨?_, ih h.2⟩
      intro hm
      obtain ⟨c, hc, hkc⟩ := List.mem_map.1 hm
      rcases mem_upsert hc with rfl | hc
      · exact hb hkc.symm
      · exact h.1 (List.mem_map.2 ⟨c, hc, hkc⟩)

/-- Rows with pairwise distinct keys. -/
structure Table (α κ : Type) (key : α → κ) where
  rows : List α
  nodup : (rows.map key).Nodup

namespace Table
variable {key : α → κ}

def empty : Table α κ key := ⟨[], List.nodup_nil⟩

def get (t : Table α κ key) (k : κ) : Option α := lookup key k t.rows

def put (t : Table α κ key) (a : α) : Table α κ key :=
  ⟨upsert key a t.rows, upsert_nodup a t.nodup⟩

@[simp] theorem get_empty (k : κ) : (empty : Table α κ key).get k = none := rfl

theorem get_put (t : Table α κ key) (a : α) (k : κ) :
    (t.put a).get k = if k = key a then some a else t.get k := by
  by_cases h : k = key a
  · subst h
    simp [get, put, lookup_upsert_self]
  · simp [get, put, lookup_upsert_of_ne, h]

@[simp] theorem get_put_self (t : Table α κ key) (a : α) : (t.put a).get (key a) = some a := by
  simp [get_put]

theorem get_key {t : Table α κ key} {k : κ} {a : α} (h : t.get k = some a) : key a = k :=
  lookup_key h

theorem mem_rows_iff (t : Table α κ key) (a : α) : a ∈ t.rows ↔ t.get (key a) = some a := by
  constructor
  · intro h
    obtain ⟨rows, nodup⟩ := t
    induction rows with
    | nil => cases h
    | cons b l ih =>
      rw [List.map_cons, List.nodup_cons] at nodup
      rcases List.mem_cons.1 h with rfl | h
      · simp [get, lookup]
      · have hb : key b ≠ key a := fun he => nodup.1 (List.mem_map.2 ⟨a, h, he.symm⟩)
        simpa [get, lookup, hb] using ih nodup.2 h
  · exact fun h => lookup_mem h

/-- The rows `p` accepts. -/
def filter (p : α → Bool) (t : Table α κ key) : Table α κ key :=
  ⟨t.rows.filter p, t.nodup.sublist ((List.filter_sublist).map key)⟩

theorem get_filter (p : α → Bool) (t : Table α κ key) (k : κ) :
    (t.filter p).get k = (t.get k).filter p := by
  apply Option.ext
  intro a
  have hiff : ∀ u : Table α κ key, u.get k = some a ↔ a ∈ u.rows ∧ key a = k := by
    intro u
    rw [mem_rows_iff]
    constructor
    · intro h
      obtain rfl := get_key h
      exact ⟨h, rfl⟩
    · rintro ⟨h, rfl⟩
      exact h
  rw [hiff, Option.filter_eq_some_iff, hiff]
  change a ∈ t.rows.filter p ∧ _ ↔ _
  rw [List.mem_filter]
  tauto

end Table
end Tethra.KeyedTables
