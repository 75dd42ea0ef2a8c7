import Mathlib.Data.List.Basic
import Mathlib.Tactic

set_option autoImplicit false

/-!
# Files read and written at a position

A file is the list of its bytes. A copy made piece by piece is a prefix of its source at
every moment, and each further piece keeps it one.
-/
namespace Tethra.RandomAccessFiles
variable {α : Type}

def readAt (file : List α) (position count : ℕ) : List α := (file.drop position).take count

/-- Writing past the end fills the gap; writing nothing leaves the file as it is. -/
def writeAt (fill : α) (file : List α) (position : ℕ) (bytes : List α) : List α :=
  if bytes.isEmpty then file
  else file.takeD position fill ++ bytes ++ file.drop (position + bytes.length)

theorem readAt_length (file : List α) (position count : ℕ) :
    (readAt file position count).length = min count (file.length - position) := by
  simp [readAt]

theorem readAt_eq_nil (file : List α) {position count : ℕ} (hc : 0 < count) :
    readAt file position count = [] ↔ file.length ≤ position := by
  rw [← List.length_eq_zero_iff, readAt_length]
  omega

theorem takeD_of_le (fill : α) {file : List α} {position : ℕ} (h : position ≤ file.length) :
    file.takeD position fill = file.take position := by
  induction position generalizing file with
  | zero => simp
  | succ n ih =>
    cases file with
    | nil => simp at h
    | cons a file => simp [List.takeD, ih (Nat.le_of_succ_le_succ h)]

/-- `file` holds the first bytes of `source`, at least `count` of them. -/
structure Copied (source file : List α) (count : ℕ) : Prop where
  isPrefix : file <+: source
  count_le : count ≤ file.length

namespace Copied
variable {source file : List α} {count : ℕ}

theorem start (source : List α) : Copied source [] 0 := ⟨List.nil_prefix, Nat.le_refl 0⟩

theorem whole (file : List α) : Copied file file file.length := ⟨List.prefix_refl file, Nat.le_refl _⟩

theorem mono (h : Copied source file count) {n : ℕ} (hn : n ≤ count) : Copied source file n :=
  ⟨h.isPrefix, hn.trans h.count_le⟩

theorem eq_source (h : Copied source file count) (hc : source.length ≤ count) : file = source :=
  h.isPrefix.eq_of_length (Nat.le_antisymm h.isPrefix.length_le (hc.trans h.count_le))

/-- The next piece of the source lands where it belongs. -/
theorem writeAt (fill : α) (h : Copied source file count) (n : ℕ) :
    Copied source (writeAt fill file count (readAt source count n))
      (count + (readAt source count n).length) := by
  set piece := readAt source count n with hpiece
  by_cases hp : piece = []
  · rw [RandomAccessFiles.writeAt, hp]
    exact h.mono (Nat.le_refl _)
  · have hempty : piece.isEmpty = false := by simpa using hp
    rw [RandomAccessFiles.writeAt, hempty, takeD_of_le fill h.count_le]
    obtain ⟨rest, hrest⟩ := h.isPrefix
    have hlow : file.take count = source.take count := by
      rw [← hrest, List.take_append_of_le_length h.count_le]
    have hjoin : source.take count ++ piece = source.take (count + piece.length) := by
      have hlen : piece.length = min n (source.length - count) := readAt_length ..
      rw [List.take_add, hpiece, readAt, List.length_take, List.length_drop]
      congr 1
      rw [← List.take_take, List.take_of_length_le (l := source.drop count)
        (i := source.length - count) (by simp)]
    have hcount : count + piece.length ≤ source.length := by
      have hlen : piece.length = min n (source.length - count) := readAt_length ..
      have hpos : 0 < piece.length := List.length_pos_of_ne_nil hp
      omega
    rw [hlow]
    refine ⟨?_, ?_⟩
    · simp only [Bool.false_eq_true, ↓reduceIte]
      rw [hjoin]
      by_cases hend : file.length ≤ count + piece.length
      · rw [List.drop_eq_nil_of_le hend, List.append_nil]
        exact List.take_prefix _ _
      · have hfile : source.take (count + piece.length) = file.take (count + piece.length) := by
          rw [← hrest, List.take_append_of_le_length (by omega)]
        rw [hfile, List.take_append_drop]
        exact ⟨rest, hrest⟩
    · simp only [Bool.false_eq_true, ↓reduceIte, List.length_append, List.length_take]
      omega

end Copied

end Tethra.RandomAccessFiles
