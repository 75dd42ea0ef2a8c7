import Tethra.BreadthFirst
import Tethra.SshConfigImports

set_option autoImplicit false

/-!
# The order of an import

The selected aliases, then the jump hosts behind them, hop by hop.
-/
namespace Tethra.JumpClosure
open BreadthFirst RepositoryRequests SshConfigImports VaultTypes

variable {parsed : List SshConfigHost} {selected queue seen order taken : List String}

/-- The first hop of an alias, inside the configuration. -/
def jumps (parsed : List SshConfigHost) (hostAlias : String) : List String :=
  (byAlias parsed hostAlias).elim [] (jumpOf parsed)

def unknown (parsed : List SshConfigHost) (hostAlias : String) : Bool :=
  (byAlias parsed hostAlias).isNone

theorem jumpOf_known {host : SshConfigHost} {jump : String} (h : jump ∈ jumpOf parsed host) :
    unknown parsed jump = false := by
  unfold jumpOf at h
  split at h
  · split at h
    · rename_i hsome
      rw [List.mem_singleton] at h
      rw [h, unknown, Option.isNone_eq_false_iff]
      exact hsome
    · cases h
  · cases h

theorem importLoop_unknown {a : String} (hnone : byAlias parsed a = none) :
    importLoop parsed (a :: queue) seen order = .error (unknownAlias a) := by
  rw [importLoop]
  split
  · rfl
  · rename_i hsome
    cases hnone.symm.trans hsome

theorem importLoop_skip {a : String} {host : SshConfigHost} (hhost : byAlias parsed a = some host)
    (ha : a ∈ seen) :
    importLoop parsed (a :: queue) seen order = importLoop parsed queue seen order := by
  rw [importLoop]
  split
  · rename_i hnone
    cases hhost.symm.trans hnone
  · rw [dif_pos ha]

/-- The loop stops at the first alias of its queue that is not in the configuration, or puts in
order what the aliases lead to. -/
theorem importLoop_spec (h : Explores (jumps parsed) selected taken queue order)
    (hseen : ∀ a, a ∈ seen ↔ a ∈ order) :
    match importLoop parsed queue seen order with
    | .error e => (queue.find? (unknown parsed)).map unknownAlias = some e
    | .ok result => queue.find? (unknown parsed) = none ∧
        ∃ taken, Explores (jumps parsed) selected taken [] result := by
  induction queue, seen, order using importLoop.induct parsed generalizing taken with
  | case1 seen order =>
    rw [importLoop]
    exact ⟨rfl, taken, h⟩
  | case2 a queue seen order hnone =>
    have hunknown : unknown parsed a = true := by rw [unknown, hnone, Option.isNone_none]
    rw [importLoop_unknown hnone, List.find?_cons_of_pos hunknown]
    rfl
  | case3 a queue seen order host hhost hin ih =>
    have hknown : ¬ unknown parsed a = true := by
      rw [unknown, hhost, Option.isNone_some]
      decide
    rw [importLoop_skip hhost hin, List.find?_cons_of_neg hknown]
    exact ih (h.skip ((hseen a).1 hin)) hseen
  | case4 a queue seen order host hhost hin ih =>
    have hknown : ¬ unknown parsed a = true := by
      rw [unknown, hhost, Option.isNone_some]
      decide
    have hjumps : jumps parsed a = jumpOf parsed host := by rw [jumps, hhost, Option.elim_some]
    have hfind : (queue ++ jumpOf parsed host).find? (unknown parsed) =
        queue.find? (unknown parsed) := by
      have hnone : (jumpOf parsed host).find? (unknown parsed) = none :=
        List.find?_eq_none.2 fun jump hjump => by simp [jumpOf_known hjump]
      rw [List.find?_append, hnone, Option.or_none]
    have hvisit := h.visit fun ha => hin ((hseen a).2 ha)
    rw [hjumps] at hvisit
    have hnext := ih hvisit fun b => by
      rw [List.mem_cons, List.mem_append, List.mem_singleton, hseen, or_comm]
    rw [hfind] at hnext
    rw [importLoop_visit hhost hin, List.find?_cons_of_neg hknown]
    exact hnext

theorem mem_jumps {hostAlias jump : String} : jump ∈ jumps parsed hostAlias ↔
    ∃ host, byAlias parsed hostAlias = some host ∧ jump ∈ jumpOf parsed host := by
  unfold jumps
  cases byAlias parsed hostAlias <;> simp

theorem reachable_iff_level {a : String} :
    Reachable parsed selected a ↔ ∃ n, a ∈ level (jumps parsed) selected n := by
  constructor
  · intro h
    induction h with
    | selected ha => exact ⟨0, ha⟩
    | jump _ hhost hjump ih =>
      obtain ⟨n, hn⟩ := ih
      exact ⟨n + 1, List.mem_flatMap.2 ⟨_, hn, mem_jumps.2 ⟨_, hhost, hjump⟩⟩⟩
  · rintro ⟨n, ha⟩
    induction n generalizing a with
    | zero => exact .selected ha
    | succ n ih =>
      obtain ⟨b, hb, hab⟩ := List.mem_flatMap.1 ha
      obtain ⟨host, hhost, hjump⟩ := mem_jumps.1 hab
      exact .jump (ih hb) hhost hjump

/-- An import fails at the first selected alias that is not in the configuration. Otherwise it
has each alias that can be reached once: the selected ones first, and level by level from the
left to the right. -/
theorem import_order_closure (parsed : List SshConfigHost) (selected : List String) :
    match importOrder parsed selected with
    | .error e => ∃ a ∈ selected, byAlias parsed a = none ∧ e = unknownAlias a
    | .ok order => (∀ a ∈ selected, byAlias parsed a ≠ none) ∧ order.Nodup ∧
        (∀ a, a ∈ order ↔ Reachable parsed selected a) ∧ selected.eraseDups <+: order ∧
        (∃ n, ∀ m, n ≤ m → order = (levels (jumps parsed) selected m).eraseDups) ∧
        order.Pairwise fun a b => ∀ n, b ∈ level (jumps parsed) selected n →
          ∃ m ≤ n, a ∈ level (jumps parsed) selected m := by
  have hstart : Explores (jumps parsed) selected [] selected [] := .start
  have hseen : ∀ a, a ∈ ([] : List String) ↔ a ∈ ([] : List String) := fun _ => Iff.rfl
  have hloop := importLoop_spec hstart hseen
  unfold importOrder
  split
  · rename_i e herror
    rw [herror] at hloop
    obtain ⟨a, hfind, he⟩ := Option.map_eq_some_iff.1 hloop
    have hunknown : unknown parsed a = true := List.find?_some hfind
    exact ⟨a, List.mem_of_find?_eq_some hfind, Option.isNone_iff_eq_none.1 hunknown, he.symm⟩
  · rename_i order hok
    rw [hok] at hloop
    obtain ⟨hknown, taken, hexplores⟩ := hloop
    refine ⟨fun a ha hnone => ?_, hexplores.nodup, fun a => ?_, hexplores.starts_prefix,
      hexplores.eq_levels, hexplores.pairwise_level⟩
    · exact List.find?_eq_none.1 hknown a ha (by rw [unknown, hnone, Option.isNone_none])
    · rw [hexplores.mem_iff, reachable_iff_level]

end Tethra.JumpClosure
