import Mathlib.Tactic

set_option autoImplicit false

/-!
# Limits on a sliding window

A limiter remembers the times of what it admitted, forgets those that are a window old, and
admits while fewer than the limit are left. Then no window of that width, wherever it begins,
holds more than the limit.
-/
namespace Tethra.SlidingWindows

/-- The times that are less than a window old. -/
def recent (width now : ℕ) (times : List ℕ) : List ℕ := times.filter fun t => now - t < width

/-- The times of the window that begins at `start`. -/
def within (width start : ℕ) (times : List ℕ) : List ℕ :=
  times.filter fun t => start ≤ t ∧ t < start + width

/-- `log` are times the limiter admitted, `hits` is what it remembers. -/
structure Tracks (limit width now : ℕ) (hits log : List ℕ) : Prop where
  past : ∀ t ∈ log, t ≤ now
  kept : (recent width now log).Sublist (recent width now hits)
  bounded : ∀ start, (within width start log).length ≤ limit

variable {limit width now : ℕ} {hits log : List ℕ}

theorem recent_recent {later : ℕ} (h : now ≤ later) (times : List ℕ) :
    recent width later (recent width now times) = recent width later times := by
  unfold recent
  rw [List.filter_filter]
  refine List.filter_congr fun t _ => ?_
  rw [← Bool.decide_and, decide_eq_decide]
  omega

theorem recent_append (xs ys : List ℕ) :
    recent width now (xs ++ ys) = recent width now xs ++ recent width now ys :=
  List.filter_append ..

theorem within_append (start : ℕ) (xs ys : List ℕ) :
    within width start (xs ++ ys) = within width start xs ++ within width start ys :=
  List.filter_append ..

/-- A window that `now` is in holds recent times only. -/
theorem within_sublist_recent {start : ℕ} (hpast : ∀ t ∈ log, t ≤ now)
    (hnow : now < start + width) : (within width start log).Sublist (recent width now log) := by
  have heq : within width start log = within width start (recent width now log) := by
    unfold within recent
    rw [List.filter_filter]
    refine List.filter_congr fun t ht => ?_
    have hle := hpast t ht
    rw [← Bool.decide_and, decide_eq_decide]
    omega
  rw [heq]
  exact List.filter_sublist

theorem Tracks.start (hits : List ℕ) : Tracks limit width now hits [] where
  past := by simp
  kept := List.nil_sublist _
  bounded start := Nat.zero_le _

theorem Tracks.wait {later : ℕ} (h : Tracks limit width now hits log) (hle : now ≤ later) :
    Tracks limit width later hits log where
  past t ht := (h.past t ht).trans hle
  kept := by
    have hsub := h.kept.filter fun t => decide (later - t < width)
    change (recent width later (recent width now log)).Sublist
      (recent width later (recent width now hits)) at hsub
    rwa [recent_recent hle, recent_recent hle] at hsub
  bounded := h.bounded

/-- What is forgotten is old. -/
theorem Tracks.refuse (h : Tracks limit width now hits log) :
    Tracks limit width now (recent width now hits) log where
  past := h.past
  kept := by
    rw [recent_recent (le_refl now)]
    exact h.kept
  bounded := h.bounded

/-- An admission that is not counted. -/
theorem Tracks.pass (h : Tracks limit width now hits log) :
    Tracks limit width now (recent width now hits ++ [now]) log where
  past := h.past
  kept := by
    rw [recent_append, recent_recent (le_refl now)]
    exact h.kept.trans (List.sublist_append_left _ _)
  bounded := h.bounded

theorem Tracks.admitted (h : Tracks limit width now hits log)
    (hlt : (recent width now hits).length < limit) :
    Tracks limit width now (recent width now hits ++ [now]) (log ++ [now]) where
  past t ht := by
    rcases List.mem_append.1 ht with ht | ht
    · exact h.past t ht
    · exact (List.mem_singleton.1 ht).le
  kept := by
    rw [recent_append, recent_append, recent_recent (le_refl now)]
    exact h.kept.append (List.Sublist.refl _)
  bounded start := by
    rw [within_append, List.length_append]
    by_cases hin : start ≤ now ∧ now < start + width
    · have hold := (within_sublist_recent h.past hin.2).length_le
      have hkept := h.kept.length_le
      have hone : (within width start [now]).length ≤ 1 := List.length_filter_le _ _
      omega
    · have hnone : within width start [now] = [] := by
        unfold within
        rw [List.filter_singleton]
        simp [hin]
      have hold := h.bounded start
      rw [hnone, List.length_nil]
      omega

end Tethra.SlidingWindows
