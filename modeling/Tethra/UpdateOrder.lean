import Mathlib.Data.List.DropRight
import Mathlib.Data.List.GetD
import Mathlib.Order.PiLex
import Tethra.RustText
import Tethra.SyncItems

set_option autoImplicit false

/-!
# The order of updates

A version is compared by its numbers, and what cannot be read as a number is zero. Seen as
infinite sequences that end in zeros, versions are in lexicographic order.
-/
namespace Tethra.UpdateOrder
open RustText
open SyncItems (parseU64)

structure PlatformEntry where
  signature : String
  url : String
  deriving DecidableEq

structure UpdateManifest where
  version : String
  notes : Option String
  pubDate : String
  platforms : List (String × PlatformEntry)
  deriving DecidableEq

def platformKey (target arch : String) : String := target ++ "-" ++ arch

/-- The numbers of a version: no leading `v`, nothing from a hyphen on. -/
def parts (v : String) : List UInt64 :=
  (((v.toList.dropWhile (· = 'v')).takeWhile (· ≠ '-')).splitOn '.').map fun p =>
    (parseU64 (String.ofList p)).getD 0

/-- The loop of `is_newer` over `n` places from place `i` on. -/
def newerFrom (a b : List UInt64) : ℕ → ℕ → Bool
  | _, 0 => false
  | i, n + 1 =>
    let x := a.getD i 0
    let y := b.getD i 0
    if x ≠ y then decide (y < x) else newerFrom a b (i + 1) n

def isNewer (candidate current : String) : Bool :=
  let a := parts candidate
  let b := parts current
  newerFrom a b 0 (max a.length b.length)

def localizeUrl (base : String) (entry : PlatformEntry) : PlatformEntry :=
  let file := afterLast '/' entry.url
  if file.isEmpty then entry
  else { entry with url := base ++ "/updates/download/" ++ file }

def localizeUrls (manifest : UpdateManifest) (baseUrl : String) : UpdateManifest :=
  let base := String.ofList (baseUrl.toList.rdropWhile (· = '/'))
  { manifest with platforms := manifest.platforms.map fun p => (p.1, localizeUrl base p.2) }

/-- `check_update`, with the manifest that is loaded; no answer is `204`. -/
def checkUpdate (manifest : Option UpdateManifest) (clientUrl : Option String)
    (target arch currentVersion : String) : Option UpdateManifest :=
  match manifest with
  | none => none
  | some manifest =>
    if !isNewer manifest.version currentVersion then none
    else
      let key := platformKey target arch
      if !manifest.platforms.any (fun p => p.1 = key) then none
      else
        let manifest :=
          { manifest with platforms := manifest.platforms.filter fun p => p.1 = key }
        match clientUrl with
        | some base => some (localizeUrls manifest base)
        | none => some manifest

/-- One request of a client, and what the server has then. -/
structure Visit where
  manifest : Option UpdateManifest
  clientUrl : Option String
  target : String
  arch : String

/-- The client runs the newest of the versions it has had, and installs what it is offered. -/
def visit (installed : String × List String) (v : Visit) : String × List String :=
  match checkUpdate v.manifest v.clientUrl v.target v.arch installed.1 with
  | some offered => (offered.version, installed.1 :: installed.2)
  | none => installed

/-- All versions that a client has had after the visits, the newest first. -/
def history (first : String) (visits : List Visit) : List String :=
  let installed := visits.foldl visit (first, [])
  installed.1 :: installed.2

/-! ## Versions as sequences -/

/-- The numbers of a version, with zeros behind them. -/
def sequence (v : String) : Lex (ℕ → ℕ) := toLex fun i => ((parts v).getD i 0).toNat

theorem newerFrom_iff (a b : List UInt64) (i n : ℕ) : newerFrom a b i n = true ↔
    ∃ k, i ≤ k ∧ k < i + n ∧ b.getD k 0 < a.getD k 0 ∧
      ∀ j, i ≤ j → j < k → a.getD j 0 = b.getD j 0 := by
  induction n generalizing i with
  | zero =>
    simp only [newerFrom, Bool.false_eq_true, false_iff]
    rintro ⟨k, hik, hk, -⟩
    omega
  | succ n ih =>
    unfold newerFrom
    dsimp only
    by_cases hne : a.getD i 0 = b.getD i 0
    · rw [if_neg (not_not.2 hne), ih]
      constructor
      · rintro ⟨k, hik, hk, hlt, heq⟩
        refine ⟨k, by omega, by omega, hlt, fun j hij hjk => ?_⟩
        obtain rfl | hlt' := Nat.eq_or_lt_of_le hij
        · exact hne
        · exact heq j (by omega) hjk
      · rintro ⟨k, hik, hk, hlt, heq⟩
        have hki : k ≠ i := by
          rintro rfl
          rw [hne] at hlt
          exact UInt64.lt_irrefl _ hlt
        exact ⟨k, by omega, by omega, hlt, fun j hij hjk => heq j (by omega) hjk⟩
    · rw [if_pos hne, decide_eq_true_iff]
      constructor
      · intro hlt
        exact ⟨i, le_refl i, by omega, hlt, fun j hij hji => by omega⟩
      · rintro ⟨k, hik, -, hlt, heq⟩
        obtain rfl | hik := Nat.eq_or_lt_of_le hik
        · exact hlt
        · exact absurd (heq i (le_refl i) hik) hne

/-- The places past both lists are equal, so they decide nothing. -/
theorem isNewer_iff (candidate current : String) :
    isNewer candidate current = true ↔ sequence current < sequence candidate := by
  unfold isNewer
  dsimp only
  rw [newerFrom_iff]
  constructor
  · rintro ⟨k, -, -, hlt, heq⟩
    refine ⟨k, fun j hj => ?_, UInt64.lt_iff_toNat_lt.1 hlt⟩
    exact congrArg UInt64.toNat (heq j (Nat.zero_le j) hj).symm
  · rintro ⟨k, heq, hlt⟩
    refine ⟨k, Nat.zero_le k, ?_, UInt64.lt_iff_toNat_lt.2 hlt, fun j _ hj => ?_⟩
    · by_contra hk
      rw [Nat.zero_add, not_lt, max_le_iff] at hk
      have ha : (parts candidate).getD k 0 = 0 := List.getD_eq_default _ _ hk.1
      have hb : (parts current).getD k 0 = 0 := List.getD_eq_default _ _ hk.2
      change ((parts current).getD k 0).toNat < ((parts candidate).getD k 0).toNat at hlt
      rw [ha, hb] at hlt
      exact lt_irrefl _ hlt
    · exact UInt64.toNat_inj.1 (heq j hj).symm

/-- Neither is newer than the other. -/
def Incomparable (u v : String) : Prop := isNewer u v = false ∧ isNewer v u = false

theorem incomparable_iff {u v : String} : Incomparable u v ↔ sequence u = sequence v := by
  unfold Incomparable
  rw [← Bool.not_eq_true, ← Bool.not_eq_true, isNewer_iff, isNewer_iff]
  constructor
  · rintro ⟨huv, hvu⟩
    exact le_antisymm (not_lt.1 huv) (not_lt.1 hvu)
  · intro h
    rw [h]
    exact ⟨lt_irrefl _, lt_irrefl _⟩

theorem isNewer_trans {u v w : String} (h : isNewer u v = true) (h' : isNewer v w = true) :
    isNewer u w = true :=
  (isNewer_iff u w).2 (((isNewer_iff v w).1 h').trans ((isNewer_iff u v).1 h))

/-! ## Chains of updates -/

theorem checkUpdate_newer {manifest : Option UpdateManifest} {clientUrl : Option String}
    {target arch current : String} {offered : UpdateManifest}
    (h : checkUpdate manifest clientUrl target arch current = some offered) :
    isNewer offered.version current = true := by
  unfold checkUpdate at h
  split at h
  · cases h
  · rename_i manifest
    split at h
    · cases h
    · rename_i hnewer
      dsimp only at h
      split at h
      · cases h
      · rw [Bool.not_eq_true, Bool.not_eq_false'] at hnewer
        split at h
        · cases h
          exact hnewer
        · cases h
          exact hnewer

theorem history_newer (first : String) (visits : List Visit) :
    (history first visits).Pairwise fun u v => isNewer u v = true := by
  have hstep : ∀ (installed : String × List String) (v : Visit),
      (installed.1 :: installed.2).Pairwise (fun u v => isNewer u v = true) →
      ((visit installed v).1 :: (visit installed v).2).Pairwise fun u v => isNewer u v = true := by
    intro installed v h
    unfold visit
    split
    · rename_i offered hoffered
      have hnewer := checkUpdate_newer hoffered
      refine List.pairwise_cons.2 ⟨fun w hw => ?_, h⟩
      obtain rfl | hw := List.mem_cons.1 hw
      · exact hnewer
      · exact isNewer_trans hnewer ((List.pairwise_cons.1 h).1 w hw)
    · exact h
  have hrun : ∀ installed : String × List String,
      (installed.1 :: installed.2).Pairwise (fun u v => isNewer u v = true) →
      ((visits.foldl visit installed).1 :: (visits.foldl visit installed).2).Pairwise
        fun u v => isNewer u v = true := by
    induction visits with
    | nil => exact fun _ h => h
    | cons v visits ih => exact fun installed h => ih _ (hstep installed v h)
  exact hrun (first, []) (List.pairwise_singleton _ _)

/-- `is_newer` is a strict weak order, and no chain of offered updates comes back to a version. -/
theorem isNewer_strict_weak_order :
    (∀ v, isNewer v v = false) ∧
      (∀ u v w, isNewer u v = true → isNewer v w = true → isNewer u w = true) ∧
      (∀ u v w, Incomparable u v → Incomparable v w → Incomparable u w) ∧
      ∀ first visits, (history first visits).Nodup := by
  refine ⟨fun v => ?_, fun u v w => isNewer_trans, fun u v w h h' => ?_, fun first visits => ?_⟩
  · rw [← Bool.not_eq_true, isNewer_iff]
    exact lt_irrefl _
  · exact incomparable_iff.2 ((incomparable_iff.1 h).trans (incomparable_iff.1 h'))
  · refine (history_newer first visits).imp fun {u v} h heq => ?_
    subst heq
    exact lt_irrefl _ ((isNewer_iff u u).1 h)

example : isNewer "v1.2" "1.2.0-rc1" = false ∧ isNewer "1.10" "1.9.x" = true := by decide +kernel

end Tethra.UpdateOrder
