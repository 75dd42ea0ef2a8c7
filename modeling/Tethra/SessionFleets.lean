import Tethra.ExclusiveRegisters
import Tethra.RunningSessions
import Tethra.SecretFleets
import Tethra.SyncFleets
import Tethra.SyncLiveness

set_option autoImplicit false

/-!
# Running sessions across devices

Any number of devices mark, end and delete, write other rows, and sync with one directory.
A session and another of its project, and a session and the tombstone of its project, are
registers that are not to be active together.
-/
namespace Tethra.SessionFleets
open AtomicPrograms AuthenticatedEncryption Base64Strings ExclusiveRegisters ReplicatedRegisters
open RepositoryRequests RepositoryUpdates RunningSessions StampedRegisters SyncEngine
open StatefulActions SyncFileBackend SyncFleets SyncItems SyncLiveness VaultCrypto VaultState
open VaultTypes

/-- An operation, a write of another row, any other change of a device's vault, and a sync. -/
inductive Step (D : Type) where
  | operate (d : D) (op : Operation)
  | edit (d : D) (row : ItemRow) (vault : Vault)
  | other (d : D) (vault : Vault)
  | sync (d : D)

section Runs
variable {D : Type} [DecidableEq D] (x : Externals) (toLowercase : String → String)
variable (b64 : Base64) (key : VaultKey)

def perform (s : Fleet D) : Step D → Fleet D
  | .operate d op => setVault s d ((op.program x toLowercase).run (s.devices d).vault).2
  | .edit d _ vault => setVault s d vault
  | .other d vault => setVault s d vault
  | .sync d => SyncFleets.perform x.aead b64 s (.sync d)

def run (s : Fleet D) (steps : List (Step D)) : Fleet D :=
  steps.foldl (perform x toLowercase b64) s

/-- What the directory and each device hold under `id`. -/
def reg (s : Fleet D) (id : Uuid) : Option D → Option SyncItem := held (net b64 s id)

/-- A live session of the project. -/
def Running (p : Uuid) (item : SyncItem) : Prop :=
  ∃ row, itemRowFromSync b64 item = .ok row ∧ LiveSession x key p row

/-- A tombstone of a project. -/
def Buried (item : SyncItem) : Prop :=
  ∃ row, itemRowFromSync b64 item = .ok row ∧ row.kind = .project ∧ row.deleted = true

/-- The device has a session of its own, or something later, for every live session of the
project anywhere, and something later and live for every tombstone of the project. The
identifier it draws next is nowhere. -/
structure MayMark (s : Fleet D) (d : D) (p : Uuid) : Prop where
  sessions : ∀ id q, On (Running x b64 key p) (reg b64 s id q) →
    On (Running x b64 key p) (reg b64 s id (some d)) ∨
      rank SyncItem.stamp (reg b64 s id q) < rank SyncItem.stamp (reg b64 s id (some d))
  project : ∀ q, On (Buried b64) (reg b64 s p q) →
    PutsOut SyncItem.stamp (Buried b64) (reg b64 s p (some d)) (reg b64 s p q)
  fresh : ∀ q, reg b64 s (newId (s.devices d).vault) q = none

/-- For every live session of the project anywhere the device has its own session, no
earlier, or something later. -/
def MayDelete (s : Fleet D) (d : D) (p : Uuid) : Prop :=
  ∀ id q, On (Running x b64 key p) (reg b64 s id q) →
    (On (Running x b64 key p) (reg b64 s id (some d)) ∧
      rank SyncItem.stamp (reg b64 s id q) ≤ rank SyncItem.stamp (reg b64 s id (some d))) ∨
    rank SyncItem.stamp (reg b64 s id q) < rank SyncItem.stamp (reg b64 s id (some d))

def May (s : Fleet D) (d : D) : Operation → Prop
  | .markProjectRunning p _ _ _ => MayMark x b64 key s d p
  | .endRunningSession _ => True
  | .deleteProject p => MayDelete x b64 key s d p

/-- No row of the device is of the last version. -/
def Versions (s : Fleet D) (d : D) : Prop :=
  ∀ id w, row s d id = some w → w.version.toNat + 1 < 2 ^ 64

/-- Rows of sessions and projects. -/
def Tracks (item : SyncItem) : Prop :=
  item.kind = ItemKind.runningSession.asStr ∨ item.kind = ItemKind.project.asStr

/-- Operations are made where their project is known as it is, and other writes are the next
versions of rows that are no sessions and no tombstones of projects. Syncs succeed. -/
def Careful (s : Fleet D) : Step D → Prop
  | .operate d op => Keyed key (s.devices d).vault ∧ Versions s d ∧ May x b64 key s d op
  | .edit d w vault => w.version.toNat = versionOf (row s d w.id) + 1 ∧
      (∀ id, vault.db.getItem id = ((s.devices d).vault.db.upsertItem w).getItem id) ∧
      w.kind ≠ .runningSession ∧ (w.kind = .project → w.deleted = false ∧ w.localOnly = false) ∧
      ((∃ old, row s d w.id = some old ∧ old.kind = w.kind) ∨ ∀ q, reg b64 s w.id q = none)
  | .other d vault => ∀ id, vault.db.getItem id = row s d id
  | .sync d => (∃ report, (syncOutcome x.aead b64 s d).1 = .ok report) ∧
      (perform x toLowercase b64 s (.sync d)).backend.revision.toNat < 2 ^ 64 - 1

def Along : Fleet D → List (Step D) → Prop
  | _, [] => True
  | s, step :: steps => Careful x toLowercase b64 key s step ∧
      Along (perform x toLowercase b64 s step) steps

/-- At most one live session a project, and none of a project with a tombstone. -/
def OneSession (v : Vault) : Prop :=
  (∀ p i j r r', v.db.getItem i = some r → v.db.getItem j = some r' →
    LiveSession x key p r → LiveSession x key p r' → r = r') ∧
  ∀ p t, v.db.getItem p = some t → t.kind = .project → t.deleted = true →
    ∀ i r, v.db.getItem i = some r → ¬ LiveSession x key p r

/-! ## The invariant -/

/-- The rows are of sessions and projects, none is kept to its device, and the sync has
tracked them. -/
structure Plain (s : Fleet D) (id : Uuid) : Prop where
  kinds : ∀ q item, reg b64 s id q = some item → Tracks item
  shared : ∀ d, ¬ (net b64 s id).withheld d
  tracked : ∃ U, Tracked SyncItem.stamp U (net b64 s id)

structure Kept (s : Fleet D) : Prop where
  sound : Sound b64 s
  seen : ∀ id d, (net b64 s id).seen d ≤ (net b64 s id).revision
  proper : ∀ id q item row r, reg b64 s id q = some item → itemRowFromSync b64 item = .ok row →
    row.kind = .runningSession → Holds x key (runningSession x.texts) row r → r.id = row.id
  sorts : ∀ id, (∀ q item, reg b64 s id q = some item → ¬ Tracks item) ∨ Plain b64 s id
  sessions : ∀ p a b, a ≠ b → Exclusive SyncItem.stamp (Running x b64 key p)
    (Running x b64 key p) (reg b64 s a) (reg b64 s b)
  projects : ∀ p a, a ≠ p → Exclusive SyncItem.stamp (Running x b64 key p) (Buried b64)
    (reg b64 s a) (reg b64 s p)

variable {x toLowercase b64 key} {s : Fleet D} {d : D}

theorem parse_eq_ok {text : String} {kind : ItemKind} (h : ItemKind.parse text = .ok kind) :
    text = kind.asStr := by
  unfold ItemKind.parse at h
  split at h <;> cases h <;> rfl

theorem tracks_of_running {p : Uuid} {item : SyncItem} (h : Running x b64 key p item) :
    Tracks item := by
  obtain ⟨row, hrow, hkind, -⟩ := h
  obtain ⟨-, hparse, -⟩ := itemRowFromSync_eq_ok hrow
  rw [hkind] at hparse
  exact Or.inl (parse_eq_ok hparse)

theorem tracks_of_buried {item : SyncItem} (h : Buried b64 item) : Tracks item := by
  obtain ⟨row, hrow, hkind, -⟩ := h
  obtain ⟨-, hparse, -⟩ := itemRowFromSync_eq_ok hrow
  rw [hkind] at hparse
  exact Or.inr (parse_eq_ok hparse)

theorem running_iff {p : Uuid} {w : ItemRow} :
    Running x b64 key p (syncItemFromRow b64 w) ↔ LiveSession x key p w := by
  constructor
  · rintro ⟨row, hrow, h⟩
    rw [itemRowFromSync_syncItemFromRow, Except.ok.injEq] at hrow
    subst hrow
    exact h
  · intro h
    exact ⟨_, itemRowFromSync_syncItemFromRow b64 w, h⟩

theorem buried_iff {w : ItemRow} :
    Buried b64 (syncItemFromRow b64 w) ↔ w.kind = .project ∧ w.deleted = true := by
  constructor
  · rintro ⟨row, hrow, h⟩
    rw [itemRowFromSync_syncItemFromRow, Except.ok.injEq] at hrow
    subst hrow
    exact h
  · intro h
    exact ⟨_, itemRowFromSync_syncItemFromRow b64 w, h⟩

omit [DecidableEq D] in
theorem reg_some (id : Uuid) :
    reg b64 s id (some d) = (row s d id).map (syncItemFromRow b64) := rfl

omit [DecidableEq D] in
/-- The invariant gives what is claimed of every device. -/
theorem Kept.oneSession (h : Kept x b64 key s) (d : D) :
    OneSession x key (s.devices d).vault := by
  have hreg : ∀ i r, (s.devices d).vault.db.getItem i = some r →
      reg b64 s i (some d) = some (syncItemFromRow b64 r) := by
    intro i r hr
    rw [reg_some, SyncFleets.row, hr]
    rfl
  constructor
  · intro p i j r r' hi hj hr hr'
    by_cases hij : i = j
    · subst hij
      exact Option.some.inj (hi.symm.trans hj)
    · refine ((h.sessions p i j hij).not_both (some d) ⟨?_, ?_⟩).elim
      · rw [hreg i r hi]
        exact on_some.2 (running_iff.2 hr)
      · rw [hreg j r' hj]
        exact on_some.2 (running_iff.2 hr')
  · intro p t hp hkind hdeleted i r hi hr
    by_cases hip : i = p
    · subst hip
      obtain rfl := Option.some.inj (hi.symm.trans hp)
      rw [hr.1] at hkind
      cases hkind
    · refine (h.projects p i hip).not_both (some d) ⟨?_, ?_⟩
      · rw [hreg i r hi]
        exact on_some.2 (running_iff.2 hr)
      · rw [hreg p t hp]
        exact on_some.2 (buried_iff.2 ⟨hkind, hdeleted⟩)

omit [DecidableEq D] in
theorem Kept.properVault (h : Kept x b64 key s) (d : D) :
    Proper x key (s.devices d).vault := by
  intro id w r hw hkind hr
  refine h.proper id (some d) (syncItemFromRow b64 w) { w with localOnly := false } r ?_
    (itemRowFromSync_syncItemFromRow b64 w) hkind hr
  rw [reg_some, SyncFleets.row, hw]
  rfl

/-! ## One written row -/

/-- The device's vault is `vault`, where one row has been put in place. -/
structure Puts (x : Externals) (b64 : Base64) (key : VaultKey) (s : Fleet D) (d : D)
    (w : ItemRow) (vault : Vault) : Prop where
  rows : ∀ id, vault.db.getItem id = ((s.devices d).vault.db.upsertItem w).getItem id
  version : w.version.toNat = versionOf (row s d w.id) + 1
  shared : Tracks (syncItemFromRow b64 w) → w.localOnly = false
  sort : (∃ old, row s d w.id = some old ∧ old.kind = w.kind) ∨ ∀ q, reg b64 s w.id q = none
  proper : w.kind = .runningSession →
    ∀ r, Holds x key (runningSession x.texts) w r → r.id = w.id
  /-- A live session puts out the others and the tombstone of its project. -/
  running : ∀ p, LiveSession x key p w →
    (∀ b, b ≠ w.id → ∀ q, On (Running x b64 key p) (reg b64 s b q) →
      PutsOut SyncItem.stamp (Running x b64 key p) (reg b64 s b (some d)) (reg b64 s b q)) ∧
    (w.id ≠ p → ∀ q, On (Buried b64) (reg b64 s p q) →
      PutsOut SyncItem.stamp (Buried b64) (reg b64 s p (some d)) (reg b64 s p q))
  /-- The tombstone of a project puts out its sessions. -/
  buried : w.kind = .project → w.deleted = true → ∀ a, a ≠ w.id →
    ∀ q, On (Running x b64 key w.id) (reg b64 s a q) →
      PutsOut SyncItem.stamp (Running x b64 key w.id) (reg b64 s a (some d)) (reg b64 s a q)

section Write
variable {w : ItemRow} {vault : Vault}

theorem Puts.wrote (h : Puts x b64 key s d w vault) :
    Wrote SyncItem.stamp d (syncItemFromRow b64 w) (w.localOnly = true) (net b64 s w.id)
      (net b64 (setVault s d vault) w.id) :=
  SyncFleets.wrote (show Allowed x.aead b64 s (.write d w vault) from ⟨h.version, h.rows⟩)

theorem Puts.reg_of_ne (h : Puts x b64 key s d w vault) {id : Uuid}
    (hid : id ≠ w.id) : net b64 (setVault s d vault) id = net b64 s id :=
  net_write_of_ne (show Allowed x.aead b64 s (.write d w vault) from ⟨h.version, h.rows⟩) hid

theorem Puts.reg_self (h : Puts x b64 key s d w vault) :
    reg b64 (setVault s d vault) w.id (some d) = some (syncItemFromRow b64 w) := h.wrote.replica

theorem Puts.reg_apart (h : Puts x b64 key s d w vault) (q : Option D)
    (hq : q ≠ some d) : reg b64 (setVault s d vault) w.id q = reg b64 s w.id q := by
  cases q with
  | none => exact h.wrote.hub
  | some e => exact h.wrote.apart.replica e fun he => hq (congrArg some he)

theorem Puts.later (h : Puts x b64 key s d w vault) :
    rank SyncItem.stamp (reg b64 s w.id (some d)) ≤
      rank SyncItem.stamp (reg b64 (setVault s d vault) w.id (some d)) := by
  rw [h.reg_self]
  exact h.wrote.later.le

theorem tracks_syncItem {w : ItemRow} :
    Tracks (syncItemFromRow b64 w) ↔ w.kind = .runningSession ∨ w.kind = .project := by
  change w.kind.asStr = _ ∨ w.kind.asStr = _ ↔ _
  cases w.kind <;> decide

omit [DecidableEq D] in
/-- An identifier without rows is tracked. -/
theorem tracked_of_empty {id : Uuid} (hseen : ∀ d, (net b64 s id).seen d ≤ (net b64 s id).revision)
    (hempty : ∀ q, reg b64 s id q = none) :
    Tracked SyncItem.stamp (fun _ => False) (net b64 s id) where
  hub a ha := by
    rw [show (net b64 s id).hub = none from hempty none] at ha
    cases ha
  replica e a ha _ := by
    rw [show (net b64 s id).replica e = none from hempty (some e)] at ha
    cases ha
  kept _ ha := ha.elim
  seen_le := hseen
  current e _ _ := by
    rw [show (net b64 s id).hub = none from hempty none]
    exact bot_le

theorem Puts.sorts (h : Puts x b64 key s d w vault)
    (hs : Kept x b64 key s) :
    (∀ q item, reg b64 (setVault s d vault) w.id q = some item → ¬ Tracks item) ∨
      Plain b64 (setVault s d vault) w.id := by
  have hall : ∀ P : SyncItem → Prop, P (syncItemFromRow b64 w) →
      (∀ q item, reg b64 s w.id q = some item → P item) →
      ∀ q item, reg b64 (setVault s d vault) w.id q = some item → P item := by
    intro P hw hold q item hitem
    by_cases hq : q = some d
    · subst hq
      rw [h.reg_self, Option.some.injEq] at hitem
      rw [← hitem]
      exact hw
    · rw [h.reg_apart q hq] at hitem
      exact hold q item hitem
  by_cases htracks : Tracks (syncItemFromRow b64 w)
  · have hplain : (∀ q item, reg b64 s w.id q = some item → Tracks item) ∧
        (∀ e, ¬ (net b64 s w.id).withheld e) ∧
        ∃ U, Tracked SyncItem.stamp U (net b64 s w.id) := by
      obtain ⟨old, hold, hkind⟩ | hempty := h.sort
      · have hreg : reg b64 s w.id (some d) = some (syncItemFromRow b64 old) := by
          rw [reg_some, hold]
          rfl
        have holdtracks : Tracks (syncItemFromRow b64 old) := by
          rw [tracks_syncItem, hkind]
          exact tracks_syncItem.1 htracks
        obtain hforeign | hplain := hs.sorts w.id
        · exact (hforeign _ _ hreg holdtracks).elim
        · exact ⟨hplain.kinds, hplain.shared, hplain.tracked⟩
      · refine ⟨fun q item hitem => ?_, fun e hwithheld => ?_,
          _, tracked_of_empty (hs.seen w.id) hempty⟩
        · rw [hempty q] at hitem
          cases hitem
        · obtain ⟨r, hr, -⟩ := hwithheld
          have hnone := hempty (some e)
          rw [reg_some, hr] at hnone
          cases hnone
    obtain ⟨hkinds, hshared, U, hU⟩ := hplain
    refine Or.inr ⟨hall Tracks htracks hkinds, fun e => ?_,
      _, hU.wrote h.wrote fun hwithheld => (hshared d hwithheld).elim⟩
    by_cases he : e = d
    · subst he
      rw [h.wrote.withheld, h.shared htracks]
      decide
    · rw [h.wrote.apart.withheld e he]
      exact hshared e
  · refine Or.inl (hall (fun item => ¬ Tracks item) htracks fun q item hitem => ?_)
    obtain ⟨old, hold, hkind⟩ | hempty := h.sort
    · have hreg : reg b64 s w.id (some d) = some (syncItemFromRow b64 old) := by
        rw [reg_some, hold]
        rfl
      have holdtracks : ¬ Tracks (syncItemFromRow b64 old) := by
        rw [tracks_syncItem, hkind]
        exact fun h => htracks (tracks_syncItem.2 h)
      obtain hforeign | hplain := hs.sorts w.id
      · exact hforeign q item hitem
      · exact (holdtracks (hplain.kinds _ _ hreg)).elim
    · rw [hempty q] at hitem
      cases hitem

theorem Kept.write (hs : Kept x b64 key s)
    (h : Puts x b64 key s d w vault) :
    Kept x b64 key (setVault s d vault) where
  sound := hs.sound.setVault vault
  seen id e := by
    have hseen := hs.seen id e
    simp only [net, cursor_setVault] at hseen ⊢
    exact hseen
  proper id q item r record hitem hrow hkind hholds := by
    by_cases hid : id = w.id
    · subst hid
      by_cases hq : q = some d
      · subst hq
        rw [h.reg_self, Option.some.injEq] at hitem
        subst hitem
        rw [itemRowFromSync_syncItemFromRow, Except.ok.injEq] at hrow
        subst hrow
        exact h.proper hkind record hholds
      · rw [h.reg_apart q hq] at hitem
        exact hs.proper w.id q item r record hitem hrow hkind hholds
    · rw [reg, h.reg_of_ne hid] at hitem
      exact hs.proper id q item r record hitem hrow hkind hholds
  sorts id := by
    by_cases hid : id = w.id
    · rw [hid]
      exact h.sorts hs
    · have hnet := h.reg_of_ne hid
      obtain hforeign | hplain := hs.sorts id
      · refine Or.inl fun q item hitem => hforeign q item ?_
        rwa [reg, hnet] at hitem
      · refine Or.inr ⟨fun q item hitem => hplain.kinds q item ?_, ?_, ?_⟩
        · rwa [reg, hnet] at hitem
        · rw [hnet]
          exact hplain.shared
        · rw [hnet]
          exact hplain.tracked
  sessions p a b hab := by
    have hwrites : ∀ c, c ≠ w.id → Exclusive SyncItem.stamp (Running x b64 key p)
        (Running x b64 key p) (reg b64 (setVault s d vault) w.id)
        (reg b64 (setVault s d vault) c) := by
      intro c hc
      rw [reg, reg, h.reg_of_ne hc]
      refine (hs.sessions p w.id c (Ne.symm hc)).writes h.reg_apart h.later fun hon q hq => ?_
      have hlive : LiveSession x key p w := by
        obtain ⟨item, hitem, hrun⟩ := hon
        rw [show held (net b64 (setVault s d vault) w.id) (some d) = _ from h.reg_self,
          Option.some.injEq] at hitem
        subst hitem
        exact running_iff.1 hrun
      exact (h.running p hlive).1 c hc q hq
    by_cases ha : a = w.id
    · subst ha
      exact hwrites b (Ne.symm hab)
    · by_cases hb : b = w.id
      · subst hb
        exact (hwrites a hab).symm
      · rw [reg, reg, h.reg_of_ne ha, h.reg_of_ne hb]
        exact hs.sessions p a b hab
  projects p a hap := by
    by_cases ha : a = w.id
    · subst ha
      rw [show reg b64 (setVault s d vault) p = reg b64 s p from
        congrArg held (h.reg_of_ne (Ne.symm hap))]
      refine (hs.projects p w.id hap).writes h.reg_apart h.later fun hon q hq => ?_
      have hlive : LiveSession x key p w := by
        obtain ⟨item, hitem, hrun⟩ := hon
        rw [h.reg_self, Option.some.injEq] at hitem
        subst hitem
        exact running_iff.1 hrun
      exact (h.running p hlive).2 hap q hq
    · rw [show reg b64 (setVault s d vault) a = reg b64 s a from
        congrArg held (h.reg_of_ne ha)]
      by_cases hp : p = w.id
      · subst hp
        refine ((hs.projects w.id a hap).symm.writes h.reg_apart h.later fun hon q hq => ?_).symm
        obtain ⟨item, hitem, hburied⟩ := hon
        rw [h.reg_self, Option.some.injEq] at hitem
        subst hitem
        obtain ⟨hkind, hdeleted⟩ := buried_iff.1 hburied
        exact h.buried hkind hdeleted a hap q hq
      · rw [show reg b64 (setVault s d vault) p = reg b64 s p from
          congrArg held (h.reg_of_ne hp)]
        exact hs.projects p a hap

end Write

/-! ## Steps -/

omit [DecidableEq D] in
theorem reg_of_row {id : Uuid} {w : ItemRow} (h : row s d id = some w) :
    reg b64 s id (some d) = some (syncItemFromRow b64 w) := by
  rw [reg_some, h]
  rfl

/-- Rows and cursors stay where only the rest of a vault changes. -/
theorem Kept.same (hs : Kept x b64 key s) {vault : Vault}
    (h : ∀ id, vault.db.getItem id = row s d id) : Kept x b64 key (setVault s d vault) := by
  have hnet : ∀ id, net b64 (setVault s d vault) id = net b64 s id := fun id => net_setVault (h id)
  have hreg : ∀ id, reg b64 (setVault s d vault) id = reg b64 s id := fun id =>
    congrArg held (hnet id)
  refine ⟨hs.sound.setVault vault, fun id e => ?_, fun id q item r record hitem => ?_,
    fun id => ?_, fun p a b hab => ?_, fun p a hap => ?_⟩
  · rw [hnet]
    exact hs.seen id e
  · rw [hreg] at hitem
    exact hs.proper id q item r record hitem
  · obtain hforeign | hplain := hs.sorts id
    · refine Or.inl ?_
      rw [hreg]
      exact hforeign
    · refine Or.inr ⟨?_, ?_, ?_⟩
      · rw [hreg]
        exact hplain.kinds
      · rw [hnet]
        exact hplain.shared
      · rw [hnet]
        exact hplain.tracked
  · rw [hreg, hreg]
    exact hs.sessions p a b hab
  · rw [hreg, hreg]
    exact hs.projects p a hap

/-- A sync of a device under every identifier. -/
theorem Kept.sync (hs : Kept x b64 key s) {t : Fleet D} (hsound : Sound b64 t)
    (h : ∀ id, Synced SyncItem.stamp d (net b64 s id) (net b64 t id)) : Kept x b64 key t := by
  have horigin : ∀ id q, ∃ q', reg b64 t id q = reg b64 s id q' := fun id q =>
    held_origin (h id) q
  have hforeign : ∀ id, (∀ q item, reg b64 s id q = some item → ¬ Tracks item) →
      ∀ q item, reg b64 t id q = some item → ¬ Tracks item := by
    intro id hid q item hitem
    obtain ⟨q', hq'⟩ := horigin id q
    rw [hq'] at hitem
    exact hid q' item hitem
  have hexclusive : ∀ (A B : SyncItem → Prop) (a b : Uuid), (∀ item, A item → Tracks item) →
      (∀ item, B item → Tracks item) →
      Exclusive SyncItem.stamp A B (reg b64 s a) (reg b64 s b) →
      Exclusive SyncItem.stamp A B (reg b64 t a) (reg b64 t b) := by
    intro A B a b hA hB hex
    obtain ha | ha := hs.sorts a
    · refine exclusive_of_off fun q => ?_
      rintro ⟨item, hitem, hon⟩
      exact hforeign a ha q item hitem (hA item hon)
    · obtain hb | hb := hs.sorts b
      · refine (exclusive_of_off fun q => ?_).symm
        rintro ⟨item, hitem, hon⟩
        exact hforeign b hb q item hitem (hB item hon)
      · obtain ⟨U, hU⟩ := ha.tracked
        obtain ⟨V, hV⟩ := hb.tracked
        exact hex.synced (h a) (h b) hU hV (ha.shared d) (hb.shared d)
  refine ⟨hsound, fun id e => ?_, fun id q item r record hitem => ?_, fun id => ?_,
    fun p a b hab => ?_, fun p a hap => ?_⟩
  · by_cases he : e = d
    · rw [he, (h id).seen]
    · rw [(h id).apart.seen e he]
      exact (hs.seen id e).trans (h id).revision
  · obtain ⟨q', hq'⟩ := horigin id q
    rw [hq'] at hitem
    exact hs.proper id q' item r record hitem
  · obtain hid | hplain := hs.sorts id
    · exact Or.inl (hforeign id hid)
    · refine Or.inr ⟨fun q item hitem => ?_, fun e hwithheld => ?_, ?_⟩
      · obtain ⟨q', hq'⟩ := horigin id q
        rw [hq'] at hitem
        exact hplain.kinds q' item hitem
      · by_cases he : e = d
        · subst he
          exact hplain.shared e ((h id).withheld.1 hwithheld)
        · exact hplain.shared e (((h id).apart.withheld e he).1 hwithheld)
      · obtain ⟨U, hU⟩ := hplain.tracked
        exact ⟨U, hU.synced (h id)⟩
  · exact hexclusive _ _ a b (fun _ => tracks_of_running) (fun _ => tracks_of_running)
      (hs.sessions p a b hab)
  · exact hexclusive _ _ a p (fun _ => tracks_of_running) (fun _ => tracks_of_buried)
      (hs.projects p a hap)

/-! ## Operations -/

omit [DecidableEq D] in
theorem LiveSession.unique {p p' : Uuid} {w : ItemRow} (h : LiveSession x key p w)
    (h' : LiveSession x key p' w) : p' = p := by
  obtain ⟨-, -, r, hr, rfl⟩ := h
  obtain ⟨-, -, r', hr', rfl⟩ := h'
  rw [Holds.unique hr hr']

omit [DecidableEq D] in
theorem live_of_on {p id : Uuid} (h : On (Running x b64 key p) (reg b64 s id (some d))) :
    ∃ w, row s d id = some w ∧ LiveSession x key p w := by
  obtain ⟨item, hitem, hrun⟩ := h
  obtain ⟨w, hw, rfl⟩ := Option.map_eq_some_iff.1 hitem
  exact ⟨w, hw, running_iff.1 hrun⟩

omit [DecidableEq D] in
theorem on_of_live {p id : Uuid} {w : ItemRow} (hw : row s d id = some w)
    (h : LiveSession x key p w) : On (Running x b64 key p) (reg b64 s id (some d)) := by
  rw [reg_of_row hw]
  exact on_some.2 (running_iff.2 h)

omit [DecidableEq D] in
/-- A device with a live session of the project has no other. -/
theorem Kept.off_of_live (hs : Kept x b64 key s) {p id b : Uuid} {old : ItemRow}
    (hold : row s d id = some old) (hlive : LiveSession x key p old) (hb : b ≠ id) :
    ¬ On (Running x b64 key p) (reg b64 s b (some d)) := fun hon =>
  (hs.sessions p id b (Ne.symm hb)).not_both (some d) ⟨on_of_live hold hlive, hon⟩

omit [DecidableEq D] in
theorem off_of_found {p id : Uuid} (h : Found x key (s.devices d).vault p none) :
    ¬ On (Running x b64 key p) (reg b64 s id (some d)) := by
  intro hon
  obtain ⟨w, hw, hlive⟩ := live_of_on hon
  exact h id w hw hlive

omit [DecidableEq D] in
theorem puts_ends {old w : ItemRow} {vault : Vault} (hversions : Versions s d)
    (h : EndsRow x key (s.devices d).vault old w)
    (hrows : ∀ i, vault.db.getItem i = ((s.devices d).vault.db.upsertItem w).getItem i) :
    Puts x b64 key s d w vault := by
  obtain ⟨r, hr⟩ := h.session
  refine ⟨hrows, next_version (hversions _ _ h.row) h.row h.version, fun _ => hr.shared,
    Or.inl ⟨old, h.row, h.kind.trans hr.kind.symm⟩, fun _ r' hr' => ?_, fun p hlive => ?_,
    fun hkind => ?_⟩
  · rw [Holds.unique hr' hr.holds]
    exact hr.id
  · have hdeleted := hlive.2.1
    rw [h.deleted] at hdeleted
    cases hdeleted
  · rw [hr.kind] at hkind
    cases hkind

omit [DecidableEq D] in
theorem puts_marked {p : Uuid} {w : ItemRow} {r : RunningSession} {vault : Vault}
    (hsession : Session x key w r) (hproject : r.projectId = p)
    (hrows : ∀ i, vault.db.getItem i = ((s.devices d).vault.db.upsertItem w).getItem i)
    (hversion : w.version.toNat = versionOf (row s d w.id) + 1)
    (hsort : (∃ old, row s d w.id = some old ∧ old.kind = w.kind) ∨
      ∀ q, reg b64 s w.id q = none)
    (hoff : ∀ b, b ≠ w.id → ¬ On (Running x b64 key p) (reg b64 s b (some d)))
    (hmay : MayMark x b64 key s d p) : Puts x b64 key s d w vault := by
  refine ⟨hrows, hversion, fun _ => hsession.shared, hsort, fun _ r' hr' => ?_,
    fun p' hlive => ?_, fun hkind => ?_⟩
  · rw [Holds.unique hr' hsession.holds]
    exact hsession.id
  · obtain ⟨-, -, r', hr', rfl⟩ := hlive
    rw [Holds.unique hr' hsession.holds, hproject]
    refine ⟨fun b hb q hon => ?_, fun _ q hon => hmay.project q hon⟩
    obtain hown | hlt := hmay.sessions b q hon
    · exact (hoff b hb hown).elim
    · exact ⟨hlt, hoff b hb⟩
  · rw [hsession.kind] at hkind
    cases hkind

omit [DecidableEq D] in
theorem puts_buried {p : Uuid} {old z : ItemRow} {vault v : Vault} (h : Buries v p old z)
    (hold : row s d p = some old) (hlt : old.version.toNat + 1 < 2 ^ 64)
    (hrows : ∀ i, vault.db.getItem i = ((s.devices d).vault.db.upsertItem z).getItem i)
    (hout : ∀ a, a ≠ p → ∀ q, On (Running x b64 key p) (reg b64 s a q) →
      PutsOut SyncItem.stamp (Running x b64 key p) (reg b64 s a (some d)) (reg b64 s a q)) :
    Puts x b64 key s d z vault := by
  have hid := h.id
  subst hid
  refine ⟨hrows, next_version hlt hold h.version, fun _ => h.shared,
    Or.inl ⟨old, hold, h.kindOld.trans h.kind.symm⟩, fun hkind => ?_, fun p hlive => ?_,
    fun _ _ => hout⟩
  · rw [h.kind] at hkind
    cases hkind
  · have hkind := hlive.1
    rw [h.kind] at hkind
    cases hkind

theorem Kept.operate (hc : x.aead.Correct) (hs : Kept x b64 key s) {op : Operation}
    (h : Careful x toLowercase b64 key s (.operate d op)) :
    Kept x b64 key (perform x toLowercase b64 s (.operate d op)) := by
  obtain ⟨hkeyed, hversions, hmay⟩ := h
  obtain ⟨-, ws, heffect, hafter⟩ := does_operation hc toLowercase hkeyed (hs.properVault d) op
  change Kept x b64 key (setVault s d ((op.program x toLowercase).run (s.devices d).vault).2)
  generalize ((op.program x toLowercase).run (s.devices d).vault).2 = t at hafter
  cases heffect with
  | nothing => exact hs.same hafter
  | reattached hold hlive hsession hproject hdeleted hversion =>
    exact hs.write (puts_marked hsession hproject hafter
      (next_version (hversions _ _ hold) hold hversion)
      (Or.inl ⟨_, hold, hlive.1.trans hsession.kind.symm⟩)
      (fun b hb => hs.off_of_live hold hlive hb) hmay)
  | started hfound hid hsession hproject hdeleted hversion =>
    have hempty := hmay.fresh
    rw [← hid] at hempty
    refine hs.write (puts_marked hsession hproject hafter ?_ (Or.inr hempty)
      (fun b _ => off_of_found hfound) hmay)
    have hnone := hempty (some d)
    rw [reg_some, Option.map_eq_none_iff] at hnone
    rw [hnone, hversion]
    rfl
  | ended hends => exact hs.write (puts_ends hversions hends hafter)
  | cutShort hends hlive => exact hs.write (puts_ends hversions hends hafter)
  | buried hfound hburies =>
    refine hs.write (puts_buried hburies hburies.row (hversions _ _ hburies.row) hafter
      fun a _ q hon => ?_)
    obtain ⟨hown, -⟩ | hlt := hmay a q hon
    · exact (off_of_found hfound hown).elim
    · exact ⟨hlt, off_of_found hfound⟩
  | @cleared p old w pold z hends hlive hburies =>
    have hne : p ≠ w.id := by
      rintro rfl
      have hsame := Option.some.inj (hends.row.symm.trans hburies.row)
      have hkind := hburies.kindOld
      rw [← hsame, hends.kind] at hkind
      cases hkind
    -- The vault between the two writes.
    set u : Vault := { t with db := (s.devices d).vault.db.upsertItem w } with hu
    have hputs : Puts x b64 key s d w u := puts_ends hversions hends fun _ => rfl
    have hmid : Kept x b64 key (setVault s d u) := hs.write hputs
    have htwice : setVault s d t = setVault (setVault s d u) d t := by
      simp [SyncFleets.setVault]
    have hpold : row (setVault s d u) d p = some pold := by
      rw [row_setVault_self, hu]
      change ((s.devices d).vault.db.upsertItem w).getItem p = _
      rw [VaultDb.getItem_upsertItem, if_neg hne]
      exact hburies.row
    rw [htwice]
    refine hmid.write (puts_buried hburies hpold (hversions _ _ hburies.row) ?_
      fun a hap q hon => ?_)
    · intro i
      have hvault : ((setVault s d u).devices d).vault = u := by simp [SyncFleets.setVault]
      rw [hafter i, hvault]
      rfl
    · by_cases ha : a = w.id
      · subst ha
        have hoff : ¬ On (Running x b64 key p) (reg b64 (setVault s d u) w.id (some d)) := by
          rw [hputs.reg_self, on_some, running_iff]
          rintro ⟨-, hdeleted, -⟩
          rw [hends.deleted] at hdeleted
          cases hdeleted
        have hq : q ≠ some d := by
          rintro rfl
          exact hoff hon
        have hlater : rank SyncItem.stamp (reg b64 s w.id (some d)) <
            rank SyncItem.stamp (reg b64 (setVault s d u) w.id (some d)) := by
          rw [hputs.reg_self]
          exact hputs.wrote.later
        rw [hputs.reg_apart q hq] at hon ⊢
        obtain ⟨-, hle⟩ | hlt := hmay w.id q hon
        · exact ⟨hle.trans_lt hlater, hoff⟩
        · exact ⟨hlt.trans hlater, hoff⟩
      · have hreg : reg b64 (setVault s d u) a = reg b64 s a :=
          congrArg held (hputs.reg_of_ne ha)
        rw [hreg] at hon ⊢
        have hoff := hs.off_of_live hends.row hlive ha
        obtain ⟨hown, -⟩ | hlt := hmay a q hon
        · exact (hoff hown).elim
        · exact ⟨hlt, hoff⟩

theorem Kept.edit (hs : Kept x b64 key s) {w : ItemRow} {vault : Vault}
    (h : Careful x toLowercase b64 key s (.edit d w vault)) :
    Kept x b64 key (setVault s d vault) := by
  obtain ⟨hversion, hrows, hkind, hproject, hsort⟩ := h
  refine hs.write ⟨hrows, hversion, fun htracks => ?_, hsort, fun h => (hkind h).elim,
    fun p hlive => (hkind hlive.1).elim, fun hp hdeleted => ?_⟩
  · obtain h | h := tracks_syncItem.1 htracks
    · exact (hkind h).elim
    · exact (hproject h).2
  · rw [(hproject hp).1] at hdeleted
    cases hdeleted

theorem Kept.perform (hc : x.aead.Correct) (hs : Kept x b64 key s) {step : Step D}
    (h : Careful x toLowercase b64 key s step) :
    Kept x b64 key (perform x toLowercase b64 s step) := by
  cases step with
  | operate d op => exact hs.operate hc h
  | edit d w vault => exact hs.edit h
  | other d vault => exact hs.same h
  | sync d =>
    obtain ⟨hok, hbelow⟩ := h
    have hallowed : Allowed x.aead b64 s (.sync d) := hok
    exact hs.sync (hs.sound.perform hallowed) fun id =>
      perform_synced hs.sound hallowed hbelow id

omit [DecidableEq D] in
theorem reg_fresh (h : SyncFleets.Fresh s) (id : Uuid) (q : Option D) : reg b64 s id q = none := by
  cases q with
  | none =>
    change s.backend.item id = none
    rw [FileBackend.item, h.items]
    rfl
  | some e =>
    rw [reg_some, SyncFleets.row, VaultDb.getItem, h.rows e]
    rfl

omit [DecidableEq D] in
/-- The first mark of all. -/
theorem mayMark_fresh (h : SyncFleets.Fresh s) (d : D) (p : Uuid) : MayMark x b64 key s d p := by
  refine ⟨fun id q hon => ?_, fun q hon => ?_, fun q => reg_fresh h _ q⟩
  · rw [reg_fresh h] at hon
    exact (not_on_none hon).elim
  · rw [reg_fresh h] at hon
    exact (not_on_none hon).elim

omit [DecidableEq D] in
theorem Fresh.kept (h : SyncFleets.Fresh s) : Kept x b64 key s := by
  have hempty : ∀ id q, reg b64 s id q = none := reg_fresh h
  have hoff : ∀ (A : SyncItem → Prop) id q, ¬ On A (reg b64 s id q) := by
    intro A id q
    rw [hempty id q]
    exact not_on_none
  have hseen : ∀ id e, (net b64 s id).seen e ≤ (net b64 s id).revision := fun id e =>
    (SyncFleets.Fresh.tracked h id).seen_le e
  refine ⟨h.sound, hseen, fun id q item r record hitem => ?_,
    fun id => Or.inl fun q item hitem => ?_,
    fun p a b _ => exclusive_of_off (hoff _ a), fun p a _ => exclusive_of_off (hoff _ a)⟩
  · rw [hempty id q] at hitem
    cases hitem
  · rw [hempty id q] at hitem
    cases hitem

theorem Kept.run (hc : x.aead.Correct) (hs : Kept x b64 key s) {steps : List (Step D)}
    (h : Along x toLowercase b64 key s steps) :
    Kept x b64 key (run x toLowercase b64 s steps) := by
  induction steps generalizing s with
  | nil => exact hs
  | cons step steps ih => exact ih (hs.perform hc h.1) h.2

/-- In a run whose operations are made where their project is known as it is, every device
has at most one live session a project and none of a project it holds a tombstone of. -/
theorem one_session (hc : x.aead.Correct) (hs : SyncFleets.Fresh s) {steps : List (Step D)}
    (h : Along x toLowercase b64 key s steps) (d : D) :
    OneSession x key ((run x toLowercase b64 s steps).devices d).vault :=
  ((Fresh.kept hs).run hc h).oneSession d

/-- Nothing fails in the vault, and it has header `h`. -/
def Open (h : VaultHeader) (v : Vault) : Prop := Ready v ∧ v.db.header = some h

/-- What only the lock, the rows and the failures to come decide. -/
theorem working_keeps {I : Vault → Prop} (hkey : requireKey.Keeps I)
    (hdraw : ∀ v n, I { v with world.draws := n } ↔ I v)
    (hput : ∀ v w n, I v → I { v with db := v.db.upsertItem w, world.draws := n }) :
    Working fun m => m.Keeps I where
  requireKey := hkey
  withDb g v hv := by
    have hleft := leaves_withDb (f := fun v : Vault => { v with world.draws := 0 })
      (fun _ _ => rfl) g v
    dsimp only at hleft
    rw [← hdraw _ 0, hleft, hdraw]
    exact hv
  ofExcept r := Action.Keeps.ofExcept r
  fail e := Action.Keeps.fail e
  attempt hm := hm.attempt
  draw supply v hv := (hdraw v _).2 hv
  read f := Action.Keeps.read f
  put w := keeps_withDbMut _ (fun v n hv => (hdraw v n).2 hv) fun v n hv => hput v w n hv

theorem ready_draws (v : Vault) (n : ℕ) : Ready { v with world.draws := n } ↔ Ready v :=
  ⟨fun h => h.drawn v.world.draws, fun h => h.drawn n⟩

theorem working_ready : Working fun m => m.Keeps Ready := by
  refine working_keeps (fun v hv => ?_) ready_draws fun v w n hv => hv.stored _ n
  obtain ⟨vaultKey, authKey, hrun, hready⟩ := hv.requireKey
  rw [hrun]
  exact hready

theorem working_open (h : VaultHeader) : Working fun m => m.Keeps (Open h) := by
  refine working_keeps (fun v hv => ?_) (fun v n => and_congr (ready_draws v n) Iff.rfl)
    fun v w n hv => ⟨hv.1.stored _ n, hv.2⟩
  refine ⟨working_ready.requireKey v hv.1, ?_⟩
  obtain ⟨vaultKey, authKey, hrun, -⟩ := hv.1.requireKey
  rw [hrun]
  exact hv.2

/-- An operation keeps the header and fails nothing. -/
theorem keeps_open {h : VaultHeader} (op : Operation) :
    (op.program x toLowercase).run.Keeps (Open h) := fun _ hv =>
  ((Program.Yields.of_each ((working_open h).operation toLowercase op)).run hv).1

end Runs

/-! ## A project marked on two devices -/

section Samples

/-- The epoch as it is written; other times are not written below. -/
def sampleTime : JsonValues.Text DateTime where
  display t := if t = 0 then "1970-01-01T00:00:00Z" else SecretFleets.unusedTime.display t
  parse text :=
    if text = "1970-01-01T00:00:00Z" then .ok 0 else SecretFleets.unusedTime.parse text
  parse_display t := by
    by_cases ht : t = 0
    · rw [if_pos ht, if_pos rfl, ht]
    · have hne : SecretFleets.unusedTime.display t ≠ "1970-01-01T00:00:00Z" := by
        intro h
        have hparse := SecretFleets.unusedTime.parse_display t
        rw [h] at hparse
        have htwenty : SecretFleets.unusedTime.parse "1970-01-01T00:00:00Z" = .ok 20 := by
          decide +kernel
        rw [htwenty, Except.ok.injEq] at hparse
        rw [← hparse] at h
        revert h
        decide +kernel
      rw [if_neg ht, if_neg hne]
      exact SecretFleets.unusedTime.parse_display t

def sampleTexts : VaultRecords.RecordTexts :=
  ⟨⟨Uuid.display, SecretFleets.parseUuid, SecretFleets.parseUuid_display⟩, sampleTime⟩

def sessionId (d : Bool) : Uuid := .lastByte (if d then 1 else 2)

def sampleProject : Uuid := ⟨Block.fill 16 0⟩

def deviceName (d : Bool) : String := if d then "laptop" else "desktop"

def idText (d : Bool) : String :=
  if d then "00000000-0000-0000-0000-000000000001" else "00000000-0000-0000-0000-000000000002"

def projectText : String := "00000000-0000-0000-0000-000000000000"

def muxText : String := "tethra-00000000-0000-0000-0000-"

def epochText : String := "1970-01-01T00:00:00Z"

def sessionJson (d : Bool) : JsonValues.Json :=
  .object [("id", .string (idText d)), ("project_id", .string projectText),
    ("host_id", .string projectText), ("agent_id", .null), ("mux_session", .string muxText),
    ("started_at", .string epochText), ("last_attached_at", .string epochText),
    ("started_on_device", .string (deviceName d))]

def sessionText (d : Bool) : Bytes :=
  let text := "\x7b\"id\":\"" ++ idText d ++ "\",\"project_id\":\"" ++ projectText ++
    "\",\"host_id\":\"" ++ projectText ++ "\",\"agent_id\":null,\"mux_session\":\"" ++ muxText ++
    "\",\"started_at\":\"" ++ epochText ++ "\",\"last_attached_at\":\"" ++ epochText ++
    "\",\"started_on_device\":\"" ++ deviceName d ++ "\"\x7d"
  text.toUTF8.data.toList

def sessionToVec : JsonValues.Json → Except String Bytes
  | .object [("id", .string id), ("project_id", .string project), ("host_id", .string host),
      ("agent_id", .null), ("mux_session", .string mux), ("started_at", .string started),
      ("last_attached_at", .string attached), ("started_on_device", .string device)] =>
    if project = projectText ∧ host = projectText ∧ mux = muxText ∧ started = epochText ∧
        attached = epochText then
      if id = idText true ∧ device = deviceName true then .ok (sessionText true)
      else if id = idText false ∧ device = deviceName false then .ok (sessionText false)
      else .error "not the sample"
    else .error "not the sample"
  | _ => .error "not the sample"

def sessionFromSlice (bytes : Bytes) : Except String JsonValues.Json :=
  if bytes = sessionText true then .ok (sessionJson true)
  else if bytes = sessionText false then .ok (sessionJson false)
  else .error "not the sample"

theorem sessionFromSlice_sessionText (d : Bool) :
    sessionFromSlice (sessionText d) = .ok (sessionJson d) := by
  cases d with
  | true => exact if_pos rfl
  | false =>
    have hne : sessionText false ≠ sessionText true := by decide +kernel
    exact (if_neg hne).trans (if_pos rfl)

theorem sessionFromSlice_sessionToVec (v : JsonValues.Json) (bytes : Bytes)
    (h : sessionToVec v = .ok bytes) : sessionFromSlice bytes = .ok v := by
  unfold sessionToVec at h
  split at h
  · split at h
    · rename_i hfields
      obtain ⟨rfl, rfl, rfl, rfl, rfl⟩ := hfields
      split at h
      · rename_i hid
        obtain ⟨rfl, rfl⟩ := hid
        rw [← Except.ok.inj h]
        exact sessionFromSlice_sessionText true
      · split at h
        · rename_i hid
          obtain ⟨rfl, rfl⟩ := hid
          rw [← Except.ok.inj h]
          exact sessionFromSlice_sessionText false
        · cases h
    · cases h
  · cases h

/-- The texts of the two session records below. -/
def sampleExternals : Externals where
  aead := transparent KEY_LEN
  texts := sampleTexts
  toVec := sessionToVec
  fromSlice := sessionFromSlice
  fromSlice_toVec := sessionFromSlice_sessionToVec
  decodeSecretKey _ _ := .error "no key"
  parseSshConfig _ := .ok []

def sampleFleet : Fleet Bool where
  devices d := ⟨⟨⟨some SecretFleets.sampleVaultHeader, KeyedTables.Table.empty⟩, none,
    .unlocked SecretFleets.sampleKey SecretFleets.sampleKey.expose 0, IDLE_LOCK_DISABLED,
    { World.quiet with uuidAt := fun _ => sessionId d }⟩, .default⟩
  backend := SecretFleets.samplePeers.store.store

theorem sampleFleet_fresh : SyncFleets.Fresh sampleFleet := ⟨fun _ => rfl, fun _ => rfl, rfl⟩

def markOn (d : Bool) : Step Bool :=
  .operate d (.markProjectRunning sampleProject sampleProject none (deviceName d))

def marked (d : Bool) : Vault :=
  (((Operation.markProjectRunning sampleProject sampleProject none (deviceName d)).program
    sampleExternals id).run (sampleFleet.devices d).vault).2

theorem sampleFleet_open (d : Bool) :
    Open SecretFleets.sampleVaultHeader (sampleFleet.devices d).vault :=
  ⟨⟨fun _ => rfl, _, _, _, rfl, Or.inl rfl⟩, rfl⟩

theorem sampleFleet_keyed (d : Bool) :
    Keyed SecretFleets.sampleKey (sampleFleet.devices d).vault := by
  intro vaultKey auth t h
  cases h
  rfl

theorem marked_isSome : ∀ d, ((marked d).db.getItem (sessionId d)).isSome = true := by
  decide +kernel

/-- A mark writes one live session. -/
theorem marked_row (d : Bool) : ∃ w, w.id = sessionId d ∧ w.localOnly = false ∧
    LiveSession sampleExternals SecretFleets.sampleKey sampleProject w ∧
    ∀ id, (marked d).db.getItem id = if id = sessionId d then some w else none := by
  have hempty : ∀ id, (sampleFleet.devices d).vault.db.getItem id = none := fun _ => rfl
  have hproper : Proper sampleExternals SecretFleets.sampleKey (sampleFleet.devices d).vault := by
    intro id row r hrow
    rw [hempty] at hrow
    cases hrow
  obtain ⟨-, ws, heffect, hafter⟩ := does_operation (transparent_correct KEY_LEN) id
    (sampleFleet_keyed d) hproper
    (.markProjectRunning sampleProject sampleProject none (deviceName d))
  have hsome := marked_isSome d
  change After _ (marked d) ws at hafter
  cases heffect with
  | nothing =>
    rw [hafter (sessionId d)] at hsome
    cases hsome
  | reattached hold =>
    rw [hempty] at hold
    cases hold
  | @started _ _ _ _ w r hfound hid hsession hproject hdeleted hversion =>
    have hwid : w.id = sessionId d := hid
    refine ⟨w, hwid, hsession.shared, ⟨hsession.kind, hdeleted, r, hsession.holds, hproject⟩,
      fun id => ?_⟩
    rw [hafter id]
    change (VaultDb.upsertItem _ w).getItem id = _
    rw [VaultDb.getItem_upsertItem, hwid]
    rfl

theorem marked_open (d : Bool) : Open SecretFleets.sampleVaultHeader (marked d) :=
  keeps_open _ _ (sampleFleet_open d)

/-- Devices that have yet to sync with an empty directory. -/
def unsynced (vaults : Bool → Vault) : Fleet Bool :=
  ⟨fun d => ⟨vaults d, .default⟩, sampleFleet.backend⟩

theorem run_marks :
    run sampleExternals id standard sampleFleet [markOn true, markOn false] = unsynced marked := by
  change SyncFleets.setVault (SyncFleets.setVault sampleFleet true (marked true)) false
    (marked false) = _
  unfold SyncFleets.setVault unsynced
  refine congrArg (fun devices => Fleet.mk devices sampleFleet.backend) (funext fun d => ?_)
  cases d <;> rfl

section Race
variable {vaults : Bool → Vault} (hopen : ∀ d, Open SecretFleets.sampleVaultHeader (vaults d))
include hopen

theorem unsynced_calm : Calm standard SecretFleets.sampleVaultHeader
    ((unsynced vaults).devices true, (unsynced vaults).backend) where
  ready := (hopen true).1
  healthy := ⟨fun _ => rfl, fun _ h => (by cases h), fun _ h => (by cases h),
    fun _ _ h => (by cases h)⟩
  header := (hopen true).2
  remote _ h := by cases h
  decodes item h := by
    obtain ⟨file, hfile, -⟩ := h
    cases hfile

/-- Each device has a row, and both sync. The second ends with both. -/
theorem race_rows {w w' : ItemRow} (hshared : w.localOnly = false) (hshared' : w'.localOnly = false)
    (hne : w.id ≠ w'.id)
    (hrows : ∀ id, (vaults true).db.getItem id = if id = w.id then some w else none)
    (hrows' : ∀ id, (vaults false).db.getItem id = if id = w'.id then some w' else none) :
    let s := run sampleExternals id standard (unsynced vaults) [.sync true, .sync false]
    (row s false w.id).map (syncItemFromRow standard) = some (syncItemFromRow standard w) ∧
      row s false w'.id = some w' := by
  have hfree : ∀ id r, (vaults true).db.getItem id = some r → r.localOnly = false := by
    intro id r hr
    rw [hrows id] at hr
    split at hr
    · cases hr
      exact hshared
    · cases hr
  have hfresh : Sound standard sampleFleet := sampleFleet_fresh.sound
  have hsound : Sound standard (unsynced vaults) := ⟨hfresh.wellNamed, hfresh.encoded⟩
  -- The first sync pushes the row of the first device.
  obtain ⟨report, t, hrun, hcalm⟩ :=
    syncNow_succeeds sampleExternals.aead _ (unsynced_calm hopen)
  have hallowed : Allowed sampleExternals.aead standard (unsynced vaults) (.sync true) :=
    ⟨report, congrArg Prod.fst hrun⟩
  have hspec := sync_spec hsound hallowed
  rw [show syncOutcome sampleExternals.aead standard (unsynced vaults) true = (.ok report, t)
    from hrun] at hspec
  have hsent : t.2.item w.id = some (syncItemFromRow standard w) := by
    rw [(hspec.ahead (hfree w.id) bot_le).2, show ((unsynced vaults).devices true).vault.db.getItem
      w.id = some w from (hrows w.id).trans (if_pos rfl)]
    exact offer_of_lt (WithBot.bot_lt_coe _)
  have hkept : t.2.item w'.id = none := by
    rw [(hspec.ahead (hfree w'.id) bot_le).2, show ((unsynced vaults).devices true).vault.db.getItem
      w'.id = none from (hrows w'.id).trans (if_neg hne.symm)]
    rfl
  have hrevision : SyncCursor.default.parseRevision < t.2.revision := by
    obtain hsame | ⟨r, -, hr⟩ := hspec.bumped
    · have hnone : t.2.item w.id = none := hsame w.id
      rw [hsent] at hnone
      cases hnone
    · rw [hr, UInt64.lt_iff_toNat_lt, FileBackend.toNat_saturatingSucc]
      have hzero : SyncCursor.default.parseRevision = 0 := by decide
      rw [hzero]
      simp
  -- The second sync takes it and keeps the row of the second device.
  set y : Fleet Bool :=
    SyncFleets.perform sampleExternals.aead standard (unsynced vaults) (.sync true) with hy
  have hdevice : y.devices false = ⟨vaults false, .default⟩ := rfl
  have hbackend : y.backend = t.2 := congrArg (fun o => o.2.2) hrun
  have hcalm' : Calm standard SecretFleets.sampleVaultHeader (y.devices false, y.backend) := by
    rw [hdevice, hbackend]
    exact ⟨(hopen false).1, hcalm.healthy, (hopen false).2, hcalm.remote, hcalm.decodes⟩
  obtain ⟨report', t', hrun', -⟩ := syncNow_succeeds sampleExternals.aead _ hcalm'
  have hallowed' : Allowed sampleExternals.aead standard y (.sync false) :=
    ⟨report', congrArg Prod.fst hrun'⟩
  have hspec' := sync_spec (hsound.perform hallowed) hallowed'
  rw [← hy, hdevice, hbackend] at hspec'
  have hend : ∀ i, row (run sampleExternals id standard (unsynced vaults)
      [.sync true, .sync false]) false i =
      (syncOutcome sampleExternals.aead standard y false).2.1.vault.db.getItem i := by
    intro i
    change (Function.update y.devices false _ false).vault.db.getItem i = _
    rw [Function.update_self]
    rfl
  have hmissing : (vaults false).db.getItem w.id = none := (hrows' w.id).trans (if_neg hne)
  have hown : (vaults false).db.getItem w'.id = some w' := (hrows' w'.id).trans (if_pos rfl)
  refine ⟨?_, ?_⟩
  · rw [hend]
    exact hspec'.behind hmissing hsent hrevision
  · have hfree' : ∀ r, (vaults false).db.getItem w'.id = some r → r.localOnly = false := by
      intro r hr
      rw [hown] at hr
      cases hr
      exact hshared'
    have hahead : rank SyncItem.stamp (t.2.item w'.id) ≤
        rank SyncItem.stamp (((vaults false).db.getItem w'.id).map (syncItemFromRow standard)) := by
      rw [hkept]
      exact bot_le
    rw [hend, (hspec'.ahead hfree' hahead).1]
    exact hown

end Race

theorem sample_below : (perform sampleExternals id standard (perform sampleExternals id standard
    sampleFleet (markOn true)) (.sync true)).backend.revision.toNat < 2 ^ 64 - 1 := by
  decide +kernel

/-- The first device marks the project and syncs. -/
theorem one_session_sample :
    OneSession sampleExternals SecretFleets.sampleKey ((run sampleExternals id standard
      sampleFleet [markOn true, .sync true]).devices true).vault ∧
    OneSession sampleExternals SecretFleets.sampleKey ((run sampleExternals id standard
      sampleFleet [markOn true, .sync true]).devices false).vault := by
  have hmark : Careful sampleExternals id standard SecretFleets.sampleKey sampleFleet
      (markOn true) := by
    refine ⟨sampleFleet_keyed true, ?_, mayMark_fresh sampleFleet_fresh true _⟩
    intro id w hw
    cases hw
  obtain ⟨report, t, hrun, -⟩ :=
    syncNow_succeeds sampleExternals.aead _ (unsynced_calm marked_open)
  have hsync : Careful sampleExternals id standard SecretFleets.sampleKey
      (perform sampleExternals id standard sampleFleet (markOn true)) (.sync true) :=
    ⟨⟨report, congrArg Prod.fst hrun⟩, sample_below⟩
  have halong : Along sampleExternals id standard SecretFleets.sampleKey sampleFleet
      [markOn true, .sync true] := ⟨hmark, hsync, trivial⟩
  exact ⟨one_session (transparent_correct KEY_LEN) sampleFleet_fresh halong true,
    one_session (transparent_correct KEY_LEN) sampleFleet_fresh halong false⟩

/-- The mark sees the device's own sessions only. -/
theorem one_session_fails :
    SyncFleets.Fresh sampleFleet ∧ ¬ OneSession sampleExternals SecretFleets.sampleKey
      ((run sampleExternals id standard sampleFleet
        [markOn true, markOn false, .sync true, .sync false]).devices false).vault := by
  have hrun : run sampleExternals id standard sampleFleet
      [markOn true, markOn false, .sync true, .sync false] =
        run sampleExternals id standard (unsynced marked) [.sync true, .sync false] := by
    rw [← run_marks]
    simp only [run, List.foldl_cons, List.foldl_nil]
  rw [hrun]
  refine And.intro sampleFleet_fresh ?_
  intro hone
  obtain ⟨w, hwid, hshared, hlive, hrows⟩ := marked_row true
  obtain ⟨w', hwid', hshared', hlive', hrows'⟩ := marked_row false
  rw [← hwid] at hrows
  rw [← hwid'] at hrows'
  have hne : w.id ≠ w'.id := by
    rw [hwid, hwid']
    decide
  obtain ⟨htaken, hown⟩ := race_rows marked_open hshared hshared' hne hrows hrows'
  obtain ⟨r, hr, hitem⟩ := Option.map_eq_some_iff.1 htaken
  have hrlive : LiveSession sampleExternals SecretFleets.sampleKey sampleProject r := by
    refine running_iff.1 (?_ : Running sampleExternals standard _ _ (syncItemFromRow standard r))
    rw [hitem]
    exact running_iff.2 hlive
  have hsame := hone.1 sampleProject w.id w'.id r w' hr hown hrlive hlive'
  have hid := VaultDb.getItem_id hr
  rw [hsame] at hid
  exact hne hid.symm

end Samples
end Tethra.SessionFleets
