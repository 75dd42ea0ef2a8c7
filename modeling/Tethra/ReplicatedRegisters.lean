import Tethra.StampedRegisters

set_option autoImplicit false

/-!
# Replicas of a register that meet at a hub

Each party keeps its own register and writes it with ever later stamps. A sync of a party
takes what the hub holds, unless the party has seen the hub's current revision, and leaves
the later of the two registers at the hub. A party may withhold its register: then a sync
moves nothing either way, yet the party has seen the revision.
-/
namespace Tethra.ReplicatedRegisters
open StampedRegisters

variable {D α κ : Type}

structure Net (D α : Type) where
  hub : Option α
  replica : D → Option α
  withheld : D → Prop
  revision : ℕ
  seen : D → ℕ

variable [LinearOrder κ]

/-- The registers of the other parties stay. -/
structure Apart (d : D) (x y : Net D α) : Prop where
  replica : ∀ e, e ≠ d → y.replica e = x.replica e
  withheld : ∀ e, e ≠ d → (y.withheld e ↔ x.withheld e)
  seen : ∀ e, e ≠ d → y.seen e = x.seen e

/-- Party `d` writes `a`, which it withholds or not. -/
structure Wrote (stamp : α → κ) (d : D) (a : α) (secret : Prop) (x y : Net D α) : Prop where
  apart : Apart d x y
  replica : y.replica d = some a
  later : rank stamp (x.replica d) < (stamp a : WithBot κ)
  withheld : y.withheld d ↔ secret
  hub : y.hub = x.hub
  revision : y.revision = x.revision
  seen : y.seen d = x.seen d

/-- The register written is no longer withheld. The hub's is not later, or the next sync will
take it. -/
def Rejoins (stamp : α → κ) (d : D) (a : α) (secret : Prop) (x : Net D α) : Prop :=
  x.withheld d → ¬ secret →
    rank stamp x.hub ≤ (stamp a : WithBot κ) ∨ x.seen d < x.revision

structure Synced (stamp : α → κ) (d : D) (x y : Net D α) : Prop where
  apart : Apart d x y
  withheld : y.withheld d ↔ x.withheld d
  secret : x.withheld d → y.replica d = x.replica d ∧ y.hub = x.hub
  pulled : ¬ x.withheld d → (y.replica d = x.replica d ∨ y.replica d = x.hub) ∧
    rank stamp (x.replica d) ≤ rank stamp (y.replica d) ∧
    (x.seen d < x.revision → rank stamp x.hub ≤ rank stamp (y.replica d))
  pushed : ¬ x.withheld d → (y.hub = x.hub ∨ y.hub = y.replica d) ∧
    rank stamp x.hub ≤ rank stamp y.hub ∧ rank stamp (y.replica d) ≤ rank stamp y.hub
  revision : x.revision ≤ y.revision
  bumped : y.hub ≠ x.hub → x.revision < y.revision
  seen : y.seen d = y.revision

/-- `U` is what has been written and not withheld. -/
structure Tracked (stamp : α → κ) (U : α → Prop) (x : Net D α) : Prop where
  hub : ∀ a, x.hub = some a → U a
  replica : ∀ d a, x.replica d = some a → ¬ x.withheld d → U a
  kept : ∀ a, U a → ∃ d, (stamp a : WithBot κ) ≤ rank stamp (x.replica d)
  seen_le : ∀ d, x.seen d ≤ x.revision
  current : ∀ d, x.seen d = x.revision → ¬ x.withheld d →
    rank stamp x.hub ≤ rank stamp (x.replica d)

variable {stamp : α → κ} {U : α → Prop} {x y : Net D α} {d : D}

theorem Tracked.wrote {a : α} {secret : Prop} (hx : Tracked stamp U x)
    (h : Wrote stamp d a secret x y) (hr : Rejoins stamp d a secret x) :
    Tracked stamp (fun b => U b ∨ b = a ∧ ¬ secret) y where
  hub b hb := by
    rw [h.hub] at hb
    exact Or.inl (hx.hub b hb)
  replica e b hb hw := by
    by_cases he : e = d
    · subst he
      rw [h.replica, Option.some.injEq] at hb
      exact Or.inr ⟨hb.symm, fun hs => hw (h.withheld.2 hs)⟩
    · rw [h.apart.replica e he] at hb
      exact Or.inl (hx.replica e b hb fun hx => hw ((h.apart.withheld e he).2 hx))
  kept b hb := by
    obtain hb | ⟨rfl, -⟩ := hb
    · obtain ⟨e, he⟩ := hx.kept b hb
      by_cases hed : e = d
      · subst hed
        exact ⟨e, by rw [h.replica, rank_some]; exact he.trans h.later.le⟩
      · exact ⟨e, by rw [h.apart.replica e hed]; exact he⟩
    · exact ⟨d, by rw [h.replica, rank_some]⟩
  seen_le e := by
    rw [h.revision]
    by_cases he : e = d
    · rw [he, h.seen]
      exact hx.seen_le d
    · rw [h.apart.seen e he]
      exact hx.seen_le e
  current e hs hw := by
    rw [h.revision] at hs
    rw [h.hub]
    by_cases he : e = d
    · subst he
      rw [h.seen] at hs
      rw [h.replica, rank_some]
      by_cases hold : x.withheld e
      · obtain hle | hlt := hr hold fun hsecret => hw (h.withheld.2 hsecret)
        · exact hle
        · omega
      · exact (hx.current e hs hold).trans h.later.le
    · rw [h.apart.seen e he] at hs
      rw [h.apart.replica e he]
      exact hx.current e hs fun hx => hw ((h.apart.withheld e he).2 hx)

theorem Tracked.mono {V : α → Prop} (hx : Tracked stamp U x) (hUV : ∀ a, U a ↔ V a) :
    Tracked stamp V x where
  hub a ha := (hUV a).1 (hx.hub a ha)
  replica d a ha hw := (hUV a).1 (hx.replica d a ha hw)
  kept a ha := hx.kept a ((hUV a).2 ha)
  seen_le := hx.seen_le
  current := hx.current

theorem Synced.rank_replica_le (h : Synced stamp d x y) (e : D) :
    rank stamp (x.replica e) ≤ rank stamp (y.replica e) := by
  by_cases he : e = d
  · subst he
    by_cases hw : x.withheld e
    · rw [(h.secret hw).1]
    · exact (h.pulled hw).2.1
  · rw [h.apart.replica e he]

theorem Synced.rank_hub_le (h : Synced stamp d x y) : rank stamp x.hub ≤ rank stamp y.hub := by
  by_cases hw : x.withheld d
  · rw [(h.secret hw).2]
  · exact (h.pushed hw).2.1

theorem Tracked.synced (hx : Tracked stamp U x) (h : Synced stamp d x y) :
    Tracked stamp U y where
  hub a ha := by
    by_cases hw : x.withheld d
    · rw [(h.secret hw).2] at ha
      exact hx.hub a ha
    · obtain hhub | hhub := (h.pushed hw).1
      · rw [hhub] at ha
        exact hx.hub a ha
      · rw [hhub] at ha
        obtain hrep | hrep := (h.pulled hw).1
        · rw [hrep] at ha
          exact hx.replica d a ha hw
        · rw [hrep] at ha
          exact hx.hub a ha
  replica e a ha hw := by
    by_cases he : e = d
    · subst he
      have hwx : ¬ x.withheld e := fun hx => hw (h.withheld.2 hx)
      obtain hrep | hrep := (h.pulled hwx).1
      · rw [hrep] at ha
        exact hx.replica e a ha hwx
      · rw [hrep] at ha
        exact hx.hub a ha
    · rw [h.apart.replica e he] at ha
      exact hx.replica e a ha fun hx => hw ((h.apart.withheld e he).2 hx)
  kept a ha := by
    obtain ⟨e, he⟩ := hx.kept a ha
    exact ⟨e, he.trans (h.rank_replica_le e)⟩
  seen_le e := by
    by_cases he : e = d
    · rw [he, h.seen]
    · rw [h.apart.seen e he]
      exact (hx.seen_le e).trans h.revision
  current e hs hw := by
    by_cases he : e = d
    · subst he
      have hwx : ¬ x.withheld e := fun hx => hw (h.withheld.2 hx)
      obtain hhub | hhub := (h.pushed hwx).1
      · rw [hhub]
        obtain hlt | heq := (hx.seen_le e).lt_or_eq
        · exact (h.pulled hwx).2.2 hlt
        · exact (hx.current e heq hwx).trans (h.pulled hwx).2.1
      · rw [hhub]
    · rw [h.apart.seen e he] at hs
      have hhub : y.hub = x.hub := by
        by_contra hne
        have hlt := h.bumped hne
        have hle := hx.seen_le e
        omega
      have hrev : x.seen e = x.revision := by
        have hle := hx.seen_le e
        have hrevision := h.revision
        omega
      rw [hhub, h.apart.replica e he]
      exact hx.current e hrev fun hx => hw ((h.apart.withheld e he).2 hx)

/-- A party that withholds nothing and has synced agrees with the hub. -/
theorem Tracked.rank_eq_of_synced (hx : Tracked stamp U x)
    (h : Synced stamp d x y) (hw : ¬ x.withheld d) :
    rank stamp (y.replica d) = rank stamp y.hub :=
  le_antisymm (h.pushed hw).2.2
    ((hx.synced h).current d h.seen fun hy => hw (h.withheld.1 hy))

/-- Syncs of the listed parties, one after another. -/
inductive Round (stamp : α → κ) : List D → Net D α → Net D α → Prop where
  | nil (x : Net D α) : Round stamp [] x x
  | cons {d : D} {ds : List D} {x y z : Net D α} (h : Synced stamp d x y)
      (hs : Round stamp ds y z) : Round stamp (d :: ds) x z

section Rounds
variable {ds : List D}

theorem Round.tracked (h : Round stamp ds x y) (hx : Tracked stamp U x) : Tracked stamp U y := by
  induction h with
  | nil x => exact hx
  | cons hs _ ih => exact ih (hx.synced hs)

theorem Round.rank_hub_le (h : Round stamp ds x y) : rank stamp x.hub ≤ rank stamp y.hub := by
  induction h with
  | nil x => exact le_refl _
  | cons hs _ ih => exact hs.rank_hub_le.trans ih

theorem Synced.withheld_iff (h : Synced stamp d x y) (e : D) : y.withheld e ↔ x.withheld e := by
  by_cases he : e = d
  · rw [he]
    exact h.withheld
  · exact h.apart.withheld e he

theorem Round.withheld_iff (h : Round stamp ds x y) (e : D) : y.withheld e ↔ x.withheld e := by
  induction h with
  | nil x => exact Iff.rfl
  | cons hs _ ih => exact ih.trans (hs.withheld_iff e)

/-- Every listed party's register has been collected at the hub. -/
theorem Round.collected (h : Round stamp ds x y) (hx : Tracked stamp U x)
    (hw : ∀ d, ¬ x.withheld d)
    (hdone : ∀ d, d ∉ ds → rank stamp (x.replica d) ≤ rank stamp x.hub) (d : D) :
    rank stamp (y.replica d) ≤ rank stamp y.hub := by
  induction h with
  | nil x => exact hdone d (by simp)
  | @cons c ds x y z hs _ ih =>
    refine ih (hx.synced hs) (fun e he => hw e ((hs.withheld_iff e).1 he)) fun e he => ?_
    by_cases hec : e = c
    · rw [hec]
      exact (hx.rank_eq_of_synced hs (hw c)).le
    · rw [hs.apart.replica e hec]
      exact (hdone e (by simp [he, hec])).trans hs.rank_hub_le

/-- Once the hub has the latest register, every listed party comes to have it. -/
theorem Round.distributed (h : Round stamp ds x y) (hx : Tracked stamp U x)
    (hw : ∀ d, ¬ x.withheld d) (hlatest : ∀ a, U a → (stamp a : WithBot κ) ≤ rank stamp x.hub)
    (hdone : ∀ d, d ∉ ds → rank stamp (x.replica d) = rank stamp x.hub) (d : D) :
    rank stamp (y.replica d) = rank stamp y.hub := by
  induction h with
  | nil x => exact hdone d (by simp)
  | @cons c ds x y z hs _ ih =>
    have hy := hx.synced hs
    have hsame : rank stamp y.hub = rank stamp x.hub := by
      refine le_antisymm ?_ hs.rank_hub_le
      cases hyhub : y.hub with
      | none => exact bot_le
      | some a => exact hlatest a (hy.hub a hyhub)
    refine ih hy (fun e he => hw e ((hs.withheld_iff e).1 he))
      (fun a ha => (hlatest a ha).trans hsame.ge) fun e he => ?_
    by_cases hec : e = c
    · rw [hec]
      exact hx.rank_eq_of_synced hs (hw c)
    · rw [hs.apart.replica e hec, hsame]
      exact hdone e (by simp [he, hec])

/-- Two rounds over all parties: hub and replicas hold the latest of what was written. -/
theorem Round.converges {es : List D} {z : Net D α} (h₁ : Round stamp ds x y)
    (h₂ : Round stamp es y z) (hx : Tracked stamp U x) (hw : ∀ d, ¬ x.withheld d)
    (hds : ∀ d, d ∈ ds) (hes : ∀ d, d ∈ es)
    (hU : ∀ a b, U a → U b → stamp a = stamp b → a = b) :
    IsLatest stamp U z.hub ∧ ∀ d, z.replica d = z.hub := by
  have hy := h₁.tracked hx
  have hz := h₂.tracked hy
  have hwy : ∀ d, ¬ y.withheld d := fun d hd => hw d ((h₁.withheld_iff d).1 hd)
  have hwz : ∀ d, ¬ z.withheld d := fun d hd => hwy d ((h₂.withheld_iff d).1 hd)
  have hlatest : ∀ a, U a → (stamp a : WithBot κ) ≤ rank stamp y.hub := by
    intro a ha
    obtain ⟨d, hd⟩ := hy.kept a ha
    exact hd.trans (h₁.collected hx hw (fun d hd => absurd (hds d) hd) d)
  have heq := h₂.distributed hy hwy hlatest fun d hd => absurd (hes d) hd
  refine ⟨⟨hz.hub, fun a ha => (hlatest a ha).trans h₂.rank_hub_le⟩, fun d => ?_⟩
  exact eq_of_rank_eq hU (fun a ha => hz.replica d a ha (hwz d)) hz.hub (heq d)

end Rounds
end Tethra.ReplicatedRegisters
