import Tethra.FailedPushes
import Tethra.SecretFleets

set_option autoImplicit false

/-!
# Writes a cursor passes over

Syncs of any number of engines on one directory, one backend call at a time, with local edits
in between. The cursor a sync returns is the later one of its pull and its push, and what
another engine stored between the two is below it.
-/
namespace Tethra.SkippedWrites
open AtomicPrograms AuthenticatedEncryption Base64Strings FailedPushes KeyedTables StampedRegisters
open StatefulActions SyncEngine SyncFileBackend SyncItems SyncRuns VaultState VaultTypes

/-- The directory, and a record of the pulls and pushes that succeeded. -/
structure Site (D : Type) where
  backend : FileBackend
  /-- What an engine was served by a pull, or has pushed. -/
  served : D → List SyncItem
  /-- What a push stored, with the revision it returned. -/
  stored : List (SyncItem × UInt64)
  /-- Another engine has stored an item since the last pull of this one. -/
  behind : D → Bool
  /-- An engine that was behind has pushed. -/
  late : Bool

section Tracking
variable {D : Type} [DecidableEq D]

def track {α : Type} (m : FileM α) (note : FileBackend → Except Error α → Site D → Site D) :
    Action (Site D) Error α := fun s =>
  ((m s.backend).1,
    note s.backend (m s.backend).1 { s with backend := (m s.backend).2 })

def notePull (d : D) : Except Error (List SyncItem × SyncCursor) → Site D → Site D
  | .ok (items, _), s =>
      { s with
        served := Function.update s.served d (items ++ s.served d)
        behind := Function.update s.behind d false }
  | .error _, s => s

def notePush (d : D) (items : List SyncItem) (before : FileBackend) :
    Except Error SyncCursor → Site D → Site D
  | .ok cursor, s =>
    let stored := newlyStored before s.backend items
    { backend := s.backend
      served := Function.update s.served d (items ++ s.served d)
      stored := stored.map (fun y => (y, cursor.parseRevision)) ++ s.stored
      behind := fun e => s.behind e || (decide (e ≠ d) && !stored.isEmpty)
      late := s.late || s.behind d }
  | .error _, s => s

/-- The directory as engine `d` uses it. -/
def tracked (d : D) : SyncBackend (Site D) where
  pull since := track (FileBackend.pull since) fun _ => notePull d
  push items := track (FileBackend.push items) (notePush d items)
  getHeader := track FileBackend.getHeader fun _ _ s => s
  putHeader header := track (FileBackend.putHeader header) fun _ _ s => s

omit [DecidableEq D] in
/-- The record changes no answer, and nothing in the directory. -/
theorem track_backend {α : Type} (m : FileM α)
    {note : FileBackend → Except Error α → Site D → Site D}
    (hnote : ∀ before r s, (note before r s).backend = s.backend) (s : Site D) :
    (track m note s).1 = (m s.backend).1 ∧ (track m note s).2.backend = (m s.backend).2 :=
  ⟨rfl, hnote _ _ _⟩

end Tracking

/-! ## What a site says, and how it grows -/

section Sites
variable {D : Type}

structure Site.Sound (s : Site D) : Prop where
  wellNamed : s.backend.WellNamed
  revision : ∀ e ∈ s.stored, e.2 ≤ s.backend.revision
  stored : ∀ e ∈ s.stored, (e.1.stamp : WithBot Stamp) ≤ rank SyncItem.stamp (s.backend.item e.1.id)
  served : ∀ d, ∀ y ∈ s.served d,
    (y.stamp : WithBot Stamp) ≤ rank SyncItem.stamp (s.backend.item y.id)

/-- What an action of any engine does to the site. -/
structure Grows (s t : Site D) : Prop where
  sound : s.Sound → t.Sound
  revision : s.backend.revision ≤ t.backend.revision
  stored : ∀ e ∈ t.stored, e ∈ s.stored ∨ s.backend.revision < e.2
  kept : ∀ e ∈ s.stored, e ∈ t.stored
  holds : s.Sound → ∀ e ∈ s.stored, t.backend.Holds e.1 → s.backend.Holds e.1
  served : ∀ d, ∀ y ∈ s.served d, y ∈ t.served d

/-- What it does as another engine `d` sees it. -/
structure Beside (d : D) (s t : Site D) : Prop extends Grows s t where
  same : t.served d = s.served d
  behind : t.behind d = false → s.behind d = false ∧ ∀ e ∈ t.stored, e ∈ s.stored

variable {s t u : Site D}

theorem Grows.refl (s : Site D) : Grows s s where
  sound h := h
  revision := UInt64.le_refl _
  stored _ he := Or.inl he
  kept _ he := he
  holds _ _ _ h := h
  served _ _ hy := hy

theorem Grows.trans (h : Grows s t) (h' : Grows t u) : Grows s u where
  sound hs := h'.sound (h.sound hs)
  revision := UInt64.le_trans h.revision h'.revision
  stored e he := by
    obtain he | hlt := h'.stored e he
    · exact h.stored e he
    · exact Or.inr (UInt64.lt_of_le_of_lt h.revision hlt)
  kept e he := h'.kept e (h.kept e he)
  holds hs e he hu := h.holds hs e he (h'.holds (h.sound hs) e (h.kept e he) hu)
  served d y hy := h'.served d y (h.served d y hy)

theorem Beside.refl (d : D) (s : Site D) : Beside d s s :=
  ⟨Grows.refl s, rfl, fun h => ⟨h, fun _ he => he⟩⟩

theorem Beside.trans {d : D} (h : Beside d s t) (h' : Beside d t u) : Beside d s u where
  toGrows := h.toGrows.trans h'.toGrows
  same := h'.same.trans h.same
  behind hu := by
    obtain ⟨ht, hstored'⟩ := h'.behind hu
    obtain ⟨hs, hstored⟩ := h.behind ht
    exact ⟨hs, fun e he => hstored e (hstored' e he)⟩

/-- An action that leaves the items of the directory and the record alone. -/
theorem beside_of_items {g : FileBackend} (hitems : g.items = s.backend.items)
    (hrev : s.backend.revision ≤ g.revision) (d : D) : Beside d s { s with backend := g } where
  sound hs := by
    have hitem : ∀ id, g.item id = s.backend.item id := fun id => by
      rw [FileBackend.item, FileBackend.item, hitems]
    refine ⟨fun id y hy => hs.wellNamed id y ((hitem id).symm.trans hy), fun e he => ?_,
      fun e he => ?_, fun e y hy => ?_⟩
    · exact UInt64.le_trans (hs.revision e he) hrev
    · change _ ≤ rank SyncItem.stamp (g.item e.1.id)
      rw [hitem]
      exact hs.stored e he
    · change _ ≤ rank SyncItem.stamp (g.item y.id)
      rw [hitem]
      exact hs.served e y hy
  revision := hrev
  stored _ he := Or.inl he
  kept _ he := he
  holds _ e _ h := by
    change g.Holds e.1 at h
    rwa [FileBackend.Holds, hitems] at h
  served _ _ hy := hy
  same := rfl
  behind h := ⟨h, fun _ he => he⟩

end Sites

section Calls
variable {D : Type} [DecidableEq D] {s : Site D} {d : D}

/-- What every call of engine `d` does to the site. -/
def Serves (d : D) (s t : Site D) : Prop := Grows s t ∧ ∀ e, e ≠ d → Beside e s t

omit [DecidableEq D] in
theorem serves_of_items {g : FileBackend} (hitems : g.items = s.backend.items)
    (hrev : s.backend.revision ≤ g.revision) : Serves d s { s with backend := g } :=
  ⟨(beside_of_items hitems hrev d).toGrows, fun e _ => beside_of_items hitems hrev e⟩

theorem serves_getHeader (d : D) (s : Site D) : Serves d s ((tracked d).getHeader s).2 := by
  have hstored := FileBackend.leaves_getHeader s.backend
  exact serves_of_items (FileBackend.items_of_stored hstored)
    (UInt64.le_of_eq (FileBackend.revision_of_stored hstored).symm)

theorem serves_putHeader (d : D) (header : SyncedVaultHeader) (s : Site D) :
    Serves d s ((tracked d).putHeader header s).2 := by
  obtain ⟨hitems, -, hrev, -⟩ := FileBackend.putHeader_spec header s.backend
  refine serves_of_items hitems ?_
  obtain hrev | hrev := hrev
  · exact UInt64.le_of_eq hrev.symm
  · rw [hrev]
    exact FileBackend.le_saturatingSucc _

/-- A pull serves all that is stored, if the cursor is below the revision. -/
theorem pull_serves (since : SyncCursor) (s : Site D) :
    Serves d s ((tracked d).pull since s).2 ∧
      ∀ items cursor, ((tracked d).pull since s).1 = .ok (items, cursor) →
        ((tracked d).pull since s).2.backend.revision = s.backend.revision ∧
        cursor.parseRevision = s.backend.revision ∧
        ((tracked d).pull since s).2.stored = s.stored ∧
        ((tracked d).pull since s).2.served d = items ++ s.served d ∧
        (∀ y, ((tracked d).pull since s).2.backend.Holds y ↔ s.backend.Holds y) ∧
        (s.backend.revision ≤ since.parseRevision → items = []) ∧
        (since.parseRevision < s.backend.revision → ∀ y, y ∈ items ↔ s.backend.Holds y) := by
  have hstored := FileBackend.leaves_pull since s.backend
  rcases hpull : FileBackend.pull since s.backend with ⟨r, g⟩
  have hrun : (tracked d).pull since s = (r, notePull d r { s with backend := g }) := by
    change ((FileBackend.pull since s.backend).1, notePull d (FileBackend.pull since s.backend).1
      { s with backend := (FileBackend.pull since s.backend).2 }) = _
    rw [hpull]
  rw [hpull] at hstored
  have hstored : g.stored = s.backend.stored := hstored
  have hrev := FileBackend.revision_of_stored hstored
  have hitems := FileBackend.items_of_stored hstored
  have hquiet : Serves d s { s with backend := g } :=
    serves_of_items hitems (UInt64.le_of_eq hrev.symm)
  rw [hrun]
  cases r with
  | error e => exact ⟨hquiet, fun _ _ h => by cases h⟩
  | ok answer =>
    obtain ⟨items, cursor⟩ := answer
    obtain ⟨-, rfl, hnone, hall⟩ := FileBackend.pull_eq_ok hpull
    have hholds : ∀ y ∈ items, s.backend.Holds y := by
      intro y hy
      by_cases hlt : since.parseRevision < s.backend.revision
      · exact (hall hlt y).1 hy
      · rw [hnone (UInt64.not_lt.1 hlt)] at hy
        cases hy
    have hserved : ∀ e, e ≠ d → (notePull d (.ok (items, .fromRevision s.backend.revision))
        { s with backend := g }).served e = s.served e := fun e he => Function.update_of_ne he _ _
    have hown : (notePull d (.ok (items, .fromRevision s.backend.revision))
        { s with backend := g }).served d = items ++ s.served d := Function.update_self _ _ _
    have hgrows : Grows s (notePull d (.ok (items, .fromRevision s.backend.revision))
        { s with backend := g }) := by
      refine ⟨fun hs => ?_, hquiet.1.revision, hquiet.1.stored, hquiet.1.kept, hquiet.1.holds,
        fun e y hy => ?_⟩
      · have hsound := hquiet.1.sound hs
        refine ⟨hsound.wellNamed, hsound.revision, hsound.stored, fun e y hy => ?_⟩
        by_cases he : e = d
        · rw [he, hown] at hy
          obtain hnew | hold := List.mem_append.1 hy
          · have hitem := (hs.wellNamed.holds_iff y).1 (hholds y hnew)
            have hsame : g.item y.id = some y := (FileBackend.item_of_stored hstored y.id).trans hitem
            change _ ≤ rank SyncItem.stamp (g.item y.id)
            rw [hsame]
            exact le_refl _
          · exact hsound.served d y hold
        · rw [hserved e he] at hy
          exact hsound.served e y hy
      · by_cases he : e = d
        · rw [he] at hy
          rw [he, hown]
          exact List.mem_append_right _ hy
        · rw [hserved e he]
          exact hy
    refine ⟨⟨hgrows, fun e he => ⟨hgrows, hserved e he, fun hbehind => ?_⟩⟩,
      fun items' cursor' h => ?_⟩
    · have hsame : (notePull d (.ok (items, .fromRevision s.backend.revision))
          { s with backend := g }).behind e = s.behind e := Function.update_of_ne he _ _
      exact ⟨hsame.symm.trans hbehind, fun _ h => h⟩
    · cases h
      refine ⟨hrev, parseRevision_fromRevision _, rfl, hown, fun y => ?_, hnone, hall⟩
      change g.Holds y ↔ s.backend.Holds y
      rw [FileBackend.Holds, FileBackend.Holds, hitems]

/-- What a push that returns has stored is new, and above the revision there was. -/
theorem push_serves (items : List SyncItem) (s : Site D)
    (hbelow : ((tracked d).push items s).2.backend.revision.toNat < 2 ^ 64 - 1) :
    Serves d s ((tracked d).push items s).2 ∧
      ∀ cursor, ((tracked d).push items s).1 = .ok cursor →
        cursor.parseRevision = ((tracked d).push items s).2.backend.revision ∧
        ((tracked d).push items s).2.late = (s.late || s.behind d) ∧
        ((tracked d).push items s).2.served d = items ++ s.served d ∧
        ∀ e ∈ ((tracked d).push items s).2.stored, e ∈ s.stored ∨ e.1 ∈ items := by
  obtain ⟨done, hpre, hoff, hrev, hok⟩ := FileBackend.push_spec items s.backend
  rcases hpush : FileBackend.push items s.backend with ⟨r, g⟩
  have hrun : (tracked d).push items s =
      (r, notePush d items s.backend r { s with backend := g }) := by
    change ((FileBackend.push items s.backend).1,
      notePush d items s.backend (FileBackend.push items s.backend).1
        { s with backend := (FileBackend.push items s.backend).2 }) = _
    rw [hpush]
  rw [hpush] at hoff hrev hok
  dsimp only at hoff hrev hok
  rw [hrun] at hbelow ⊢
  have hle : s.backend.revision ≤ g.revision := by
    obtain hrev | hrev := hrev
    · exact UInt64.le_of_eq hrev.symm
    · rw [hrev]
      exact FileBackend.le_saturatingSucc _
  have hrank : ∀ id, rank SyncItem.stamp (s.backend.item id) ≤ rank SyncItem.stamp (g.item id) :=
    fun id => by
      rw [hoff.item id]
      exact rank_le_offerAll _ _
  have hholds : s.Sound → ∀ e ∈ s.stored, g.Holds e.1 → s.backend.Holds e.1 := by
    intro hs e he hg
    have hitem := ((hoff.wellNamed hs.wellNamed).holds_iff e.1).1 hg
    refine (hs.wellNamed.holds_iff e.1).2 ?_
    rw [hoff.item] at hitem
    obtain ⟨hsame, -⟩ | ⟨a, -, ha, hlt, -⟩ := offerAll_cases SyncItem.stamp
      (s.backend.item e.1.id) (done.filter fun x => x.id = e.1.id)
    · rw [← hsame]
      exact hitem
    · rw [hitem, Option.some.injEq] at ha
      rw [← ha] at hlt
      exact absurd hlt (not_lt.2 (hs.stored e he))
  have hsound : s.Sound → Site.Sound { s with backend := g } := fun hs =>
    ⟨hoff.wellNamed hs.wellNamed, fun e he => UInt64.le_trans (hs.revision e he) hle,
      fun e he => (hs.stored e he).trans (hrank _), fun e y hy => (hs.served e y hy).trans (hrank _)⟩
  have hquiet : Grows s { s with backend := g } :=
    ⟨hsound, hle, fun _ he => Or.inl he, fun _ he => he, hholds, fun _ _ hy => hy⟩
  cases r with
  | error e =>
    exact ⟨⟨hquiet, fun e _ => ⟨hquiet, rfl, fun h => ⟨h, fun _ he => he⟩⟩⟩, fun _ h => by cases h⟩
  | ok cursor =>
    obtain ⟨rfl, hcursor, hchange⟩ := hok cursor rfl
    have hparse : cursor.parseRevision = g.revision := by
      rw [hcursor, parseRevision_fromRevision]
    have hbelow : g.revision.toNat < 2 ^ 64 - 1 := hbelow
    have hnew : ∀ y ∈ newlyStored s.backend g done,
        g.item y.id = some y ∧ s.backend.revision < g.revision := by
      intro y hy
      have hy' := (List.mem_filter.1 hy).2
      rw [Bool.and_eq_true] at hy'
      have hstored := of_decide_eq_true hy'.1
      refine ⟨hstored, ?_⟩
      obtain ⟨-, hsame⟩ | hsucc := hchange
      · exact absurd ((hsame y.id).symm.trans hstored) (of_decide_eq_true hy'.2)
      · rw [UInt64.lt_iff_toNat_lt, hsucc, FileBackend.toNat_saturatingSucc]
        rw [hsucc, FileBackend.toNat_saturatingSucc] at hbelow
        omega
    have hstored : ∀ e ∈ (notePush d done s.backend (.ok cursor) { s with backend := g }).stored,
        e ∈ s.stored ∨ ∃ y ∈ newlyStored s.backend g done, e = (y, g.revision) := by
      intro e he
      obtain hnewly | hold := List.mem_append.1 he
      · obtain ⟨y, hy, rfl⟩ := List.mem_map.1 hnewly
        exact Or.inr ⟨y, hy, by rw [hparse]⟩
      · exact Or.inl hold
    have hserved : ∀ e, e ≠ d →
        (notePush d done s.backend (.ok cursor) { s with backend := g }).served e = s.served e :=
      fun e he => Function.update_of_ne he _ _
    have hown : (notePush d done s.backend (.ok cursor) { s with backend := g }).served d =
        done ++ s.served d := Function.update_self _ _ _
    have hgrows : Grows s (notePush d done s.backend (.ok cursor) { s with backend := g }) := by
      refine ⟨fun hs => ?_, hle, fun e he => ?_, fun e he => List.mem_append_right _ he, hholds,
        fun e y hy => ?_⟩
      · refine ⟨(hsound hs).wellNamed, fun e he => ?_, fun e he => ?_, fun e y hy => ?_⟩
        · obtain hold | ⟨y, -, rfl⟩ := hstored e he
          · exact (hsound hs).revision e hold
          · exact UInt64.le_refl _
        · obtain hold | ⟨y, hy, rfl⟩ := hstored e he
          · exact (hsound hs).stored e hold
          · change _ ≤ rank SyncItem.stamp (g.item y.id)
            rw [(hnew y hy).1]
            exact le_refl _
        · by_cases hed : e = d
          · rw [hed, hown] at hy
            obtain hsent | hold := List.mem_append.1 hy
            · exact hoff.stamp_le hsent
            · exact (hsound hs).served d y hold
          · rw [hserved e hed] at hy
            exact (hsound hs).served e y hy
      · obtain hold | ⟨y, hy, rfl⟩ := hstored e he
        · exact Or.inl hold
        · exact Or.inr (hnew y hy).2
      · by_cases hed : e = d
        · rw [hed, hown]
          rw [hed] at hy
          exact List.mem_append_right _ hy
        · rw [hserved e hed]
          exact hy
    refine ⟨⟨hgrows, fun e hed => ⟨hgrows, hserved e hed, fun hbehind => ?_⟩⟩, fun c hc => ?_⟩
    · -- an engine that is not behind saw no item stored
      have hboth : s.behind e = false ∧ (newlyStored s.backend g done).isEmpty = true := by
        have hor : (s.behind e || (decide (e ≠ d) && !(newlyStored s.backend g done).isEmpty)) =
            false := hbehind
        rw [Bool.or_eq_false_iff, decide_eq_true hed, Bool.true_and, Bool.not_eq_false'] at hor
        exact hor
      refine ⟨hboth.1, fun entry hentry => ?_⟩
      obtain hold | ⟨y, hy, -⟩ := hstored entry hentry
      · exact hold
      · rw [List.isEmpty_iff.1 hboth.2] at hy
        cases hy
    · cases hc
      refine ⟨hparse, rfl, hown, fun e he => ?_⟩
      obtain hold | ⟨y, hy, rfl⟩ := hstored e he
      · exact Or.inl hold
      · exact Or.inr (List.mem_filter.1 hy).1

end Calls

/-! ## What an engine relies on -/

section Engines
variable {D : Type}

/-- The engine's row is its own alone, or the item does not beat it. -/
def Reached (engine : Engine) (y : SyncItem) : Prop :=
  ∃ row, engine.vault.db.getItem y.id = some row ∧ (row.localOnly = true ∨ winsOver y row = false)

/-- The item was served if it is still there, and it or a later one has reached the row. -/
def Delivered (d : D) (v : Engine × Site D) (y : SyncItem) : Prop :=
  (v.2.backend.Holds y → y ∈ v.2.served d) ∧
    ∃ z ∈ v.2.served d, z.id = y.id ∧ y.stamp ≤ z.stamp ∧ Reached v.1 z

/-- The cursor passes over no item. -/
structure Upto (d : D) (v : Engine × Site D) (cursor : SyncCursor) : Prop where
  sound : v.2.Sound
  below : cursor.parseRevision ≤ v.2.backend.revision
  delivered : ∀ e ∈ v.2.stored, e.2 ≤ cursor.parseRevision → Delivered d v e.1

/-- What other engines and local edits do to what an engine sees. -/
structure Rely (d : D) (v w : Engine × Site D) : Prop where
  cursor : w.1.cursor = v.1.cursor
  rows : ∀ id row, v.1.vault.db.getItem id = some row →
    ∃ row', w.1.vault.db.getItem id = some row' ∧ rowStamp row ≤ rowStamp row'
  reached : ∀ z ∈ v.2.served d, Reached v.1 z → Reached w.1 z
  site : Beside d v.2 w.2

/-- What an action of a sync of engine `d` does. -/
structure Guarantees (d : D) (v w : Engine × Site D) : Prop where
  site : Serves d v.2 w.2
  reached : ∀ z ∈ v.2.served d, Reached v.1 z → Reached w.1 z
  upto : Upto d v v.1.cursor → Upto d w w.1.cursor

/-- No push has been late, and the revision still grows. -/
def Timely (s : Site D) : Prop := s.late = false ∧ s.backend.revision.toNat < 2 ^ 64 - 1

instance decidableTimely (s : Site D) : Decidable (Timely s) := inferInstanceAs (Decidable (_ ∧ _))

variable {d : D} {v w : Engine × Site D} {cursor : SyncCursor}

theorem not_winsOver_iff {y : SyncItem} {row : ItemRow} :
    winsOver y row = false ↔ y.stamp ≤ rowStamp row := by
  rw [← not_lt, ← winsOver_iff, Bool.not_eq_true]

theorem Reached.of_rows {engine engine' : Engine} {y : SyncItem} (h : Reached engine y)
    (hrows : engine'.vault.db.items = engine.vault.db.items) : Reached engine' y := by
  obtain ⟨row, hrow, hbeats⟩ := h
  refine ⟨row, ?_, hbeats⟩
  rwa [VaultDb.getItem, hrows]

/-- A row that an item has reached, no earlier item of the identifier beats. -/
theorem Reached.earlier {engine : Engine} {y z : SyncItem} (h : Reached engine z)
    (hid : z.id = y.id) (hle : y.stamp ≤ z.stamp) : Reached engine y := by
  obtain ⟨row, hrow, hbeats⟩ := h
  rw [hid] at hrow
  exact ⟨row, hrow, hbeats.imp_right fun hz => not_winsOver_iff.2 (hle.trans (not_winsOver_iff.1 hz))⟩

theorem Upto.grows (h : Upto d v cursor) (hgrows : Grows v.2 w.2)
    (hreached : ∀ z ∈ v.2.served d, Reached v.1 z → Reached w.1 z) : Upto d w cursor where
  sound := hgrows.sound h.sound
  below := UInt64.le_trans h.below hgrows.revision
  delivered e he hle := by
    obtain hold | hlt := hgrows.stored e he
    · obtain ⟨hserved, z, hz, hid, hstamp, hrow⟩ := h.delivered e hold hle
      exact ⟨fun hholds => hgrows.served d _ (hserved (hgrows.holds h.sound e hold hholds)),
        z, hgrows.served d z hz, hid, hstamp, hreached z hz hrow⟩
    · exact absurd (UInt64.lt_of_lt_of_le hlt (UInt64.le_trans hle h.below)) (UInt64.lt_irrefl _)

theorem Upto.rely (h : Upto d v cursor) (hr : Rely d v w) : Upto d w cursor :=
  h.grows hr.site.toGrows hr.reached

theorem Rely.refl (d : D) (v : Engine × Site D) : Rely d v v :=
  ⟨rfl, fun _ row h => ⟨row, h, le_refl _⟩, fun _ _ h => h, Beside.refl d v.2⟩

theorem Rely.trans {x : Engine × Site D} (h : Rely d v w) (h' : Rely d w x) : Rely d v x where
  cursor := h'.cursor.trans h.cursor
  rows id row hrow := by
    obtain ⟨row', hrow', hle⟩ := h.rows id row hrow
    obtain ⟨row'', hrow'', hle'⟩ := h'.rows id row' hrow'
    exact ⟨row'', hrow'', hle.trans hle'⟩
  reached z hz hrow := h'.reached z (h.site.served d z hz) (h.reached z hz hrow)
  site := h.site.trans h'.site

/-- Between the syncs of an engine, and while one runs, all up to its cursor is delivered. -/
def Ready (d : D) (v : Engine × Site D) : Prop := Upto d v v.1.cursor

theorem Ready.rely (h : Ready d v) (hr : Rely d v w) : Ready d w := by
  rw [Ready, hr.cursor]
  exact Upto.rely h hr

/-- An action that leaves rows and cursor alone. -/
theorem guarantees_of_rows (hcursor : w.1.cursor = v.1.cursor)
    (hrows : w.1.vault.db.items = v.1.vault.db.items) (hsite : Serves d v.2 w.2) :
    Guarantees d v w where
  site := hsite
  reached _ _ h := h.of_rows hrows
  upto h := by
    rw [hcursor]
    exact h.grows hsite.1 fun _ _ hreached => hreached.of_rows hrows

theorem Serves.refl (d : D) (s : Site D) : Serves d s s := ⟨Grows.refl s, fun e _ => Beside.refl e s⟩

/-- Syncs of one engine, one at a time, among those of others. -/
def discipline (D : Type) : Discipline D Engine (Site D) Error SyncReport where
  rely := Rely
  assumed := Timely
  guarantee := Guarantees
  outcome d r v := v.2.Sound ∧ ∀ report, r = .ok report → Upto d v report.cursor
  rely_trans _ _ _ _ := Rely.trans
  rely_other _ e he _ _ _ h :=
    ⟨rfl, fun _ row hrow => ⟨row, hrow, le_refl _⟩, fun _ _ h => h, h.site.2 e he⟩
  outcome_rely _ _ _ _ hr h :=
    ⟨hr.site.sound h.1, fun report hok => (h.2 report hok).rely hr⟩
  outcome_guarantee _ _ _ _ hg h :=
    ⟨hg.site.1.sound h.1, fun report hok => (h.2 report hok).grows hg.site.1 hg.reached⟩

end Engines

/-! ## One sync -/

section Syncs
variable {D : Type} [DecidableEq D] {d : D} {v w : Engine × Site D}

abbrev Safe (d : D) {α : Type} (Q : Except Error α → Engine × Site D → Prop)
    (p : EngineM (Site D) α) (v : Engine × Site D) : Prop :=
  Program.Meets (Rely d) (fun v => Timely v.2) (Guarantees d) Q p v

theorem guarantees_header {γ : Type} {m : Action (Engine × Site D) Error γ}
    (hm : HeaderAction (tracked d) m) (v : Engine × Site D) : Guarantees d v (m v).2 := by
  cases hm with
  | vault hm => exact guarantees_of_rows rfl (hm v.1.vault).1 (Serves.refl d v.2)
  | getHeader => exact guarantees_of_rows rfl rfl (serves_getHeader d v.2)
  | putHeader header => exact guarantees_of_rows rfl rfl (serves_putHeader d header v.2)
  | ofExcept r => exact guarantees_of_rows rfl rfl (Serves.refl d v.2)

theorem safe_headers {α : Type} {p : EngineM (Site D) α} (hp : p.Each (HeaderAction (tracked d)))
    (hv : Ready d v) : Safe d (fun _ w => Ready d w) p v := by
  induction p generalizing v with
  | ret a => exact fun w hw => hv.rely hw
  | act m next ih =>
    intro w hw _
    have hg := guarantees_header hp.1 w
    have hready := hg.upto (hv.rely hw)
    refine ⟨hg, ?_⟩
    rcases hm : m w with ⟨r, u⟩
    rw [hm] at hready
    cases r with
    | ok b => exact ih b (hp.2 b) hready
    | error e => exact hready

/-- After a pull with the cursor `remote`: the items in `rest` are still to be applied. -/
structure Applying (d : D) (rest : List SyncItem) (remote : SyncCursor)
    (v : Engine × Site D) : Prop where
  ready : Ready d v
  below : remote.parseRevision ≤ v.2.backend.revision
  served : ∀ z ∈ rest, z ∈ v.2.served d
  latest : ∀ z ∈ rest, ∀ y ∈ v.2.served d, y.id = z.id → y.stamp ≤ z.stamp
  behind : v.2.behind d = false → ∀ e ∈ v.2.stored, e.2 ≤ remote.parseRevision
  due : ∀ e ∈ v.2.stored, e.2 ≤ remote.parseRevision →
    (v.2.backend.Holds e.1 → e.1 ∈ v.2.served d) ∧ ∃ z ∈ v.2.served d, z.id = e.1.id ∧
      e.1.stamp ≤ z.stamp ∧ (z ∈ rest ∨ Reached v.1 z)

omit [DecidableEq D] in
theorem Applying.rely {rest : List SyncItem} {remote : SyncCursor} (h : Applying d rest remote v)
    (hr : Rely d v w) : Applying d rest remote w where
  ready := h.ready.rely hr
  below := UInt64.le_trans h.below hr.site.revision
  served z hz := hr.site.served d z (h.served z hz)
  latest z hz y hy := by
    rw [hr.site.same] at hy
    exact h.latest z hz y hy
  behind hbehind e he := by
    obtain ⟨hbefore, hstored⟩ := hr.site.behind hbehind
    exact h.behind hbefore e (hstored e he)
  due e he hle := by
    obtain hold | hlt := hr.site.stored e he
    · obtain ⟨hserved, z, hz, hid, hstamp, hwhere⟩ := h.due e hold hle
      exact ⟨fun hholds => hr.site.served d _
        (hserved (hr.site.holds h.ready.sound e hold hholds)), z, hr.site.served d z hz, hid, hstamp,
        hwhere.imp_right (hr.reached z hz)⟩
    · exact absurd (UInt64.lt_of_lt_of_le hlt (UInt64.le_trans hle h.below)) (UInt64.lt_irrefl _)

omit [DecidableEq D] in
theorem safe_getCursor (hv : Ready d v) :
    Safe d (fun r w => Ready d w ∧ ∀ since, r = .ok since → since = w.1.cursor) getCursor v := by
  refine Program.Meets.lift fun w hw _ => ⟨?_, fun e he => (by cases he), fun since u hok hu => ?_⟩
  · exact guarantees_of_rows rfl rfl (Serves.refl d w.2)
  · cases hok
    refine ⟨(hv.rely hw).rely hu, fun since h => ?_⟩
    rw [← Except.ok.inj h]
    exact hu.cursor.symm

/-- A pull from the engine's own cursor serves all that the cursor leaves out. -/
theorem safe_pull {since : SyncCursor} (hv : Ready d v) (hsince : since = v.1.cursor) :
    Safe d (fun r w => Ready d w ∧ ∀ items remote, r = .ok (items, remote) →
      Applying d items remote w) (onBackend ((tracked d).pull since)) v := by
  refine Program.Meets.lift fun w hw _ => ?_
  have hready := hv.rely hw
  obtain ⟨hsite, hpull⟩ := pull_serves (d := d) since w.2
  have hg : Guarantees d w (backendAction ((tracked d).pull since) w).2 :=
    guarantees_of_rows rfl rfl hsite
  refine ⟨hg, fun e he => ⟨hg.upto hready, fun items remote h => by cases h⟩, ?_⟩
  rintro ⟨items, remote⟩ u hok hu
  obtain ⟨hrev, hremote, hstored, hserved, hholds, hnone, hall⟩ := hpull items remote hok
  have happlying : Applying d items remote (backendAction ((tracked d).pull since) w).2 := by
    have hcursor : w.1.cursor = since := hw.cursor.trans hsince.symm
    have hheld : ∀ z ∈ items, w.2.backend.item z.id = some z := by
      intro z hz
      by_cases hlt : since.parseRevision < w.2.backend.revision
      · exact (hready.sound.wellNamed.holds_iff z).1 ((hall hlt z).1 hz)
      · rw [hnone (UInt64.not_lt.1 hlt)] at hz
        cases hz
    refine ⟨hg.upto hready, ?_, fun z hz => ?_, fun z hz y hy hid => ?_, fun _ e he => ?_,
      fun e he hle => ?_⟩
    · rw [hremote]
      exact UInt64.le_of_eq hrev.symm
    · change z ∈ ((tracked d).pull since w.2).2.served d
      rw [hserved]
      exact List.mem_append_left _ hz
    · have hz' := hheld z hz
      change y ∈ ((tracked d).pull since w.2).2.served d at hy
      rw [hserved] at hy
      obtain hnew | hold := List.mem_append.1 hy
      · have hy' := hheld y hnew
        rw [hid, hz', Option.some.injEq] at hy'
        rw [hy']
      · have hle := hready.sound.served d y hold
        rw [hid, hz'] at hle
        exact WithBot.coe_le_coe.1 hle
    · change e ∈ ((tracked d).pull since w.2).2.stored at he
      rw [hstored] at he
      rw [hremote]
      exact hready.sound.revision e he
    · by_cases hlt : since.parseRevision < w.2.backend.revision
      · change e ∈ ((tracked d).pull since w.2).2.stored at he
        rw [hstored] at he
        have hserves : ∀ z, w.2.backend.Holds z → z ∈ ((tracked d).pull since w.2).2.served d := by
          intro z hz
          rw [hserved]
          exact List.mem_append_left _ ((hall hlt z).2 hz)
        have hrank := hready.sound.stored e he
        cases hitem : w.2.backend.item e.1.id with
        | none =>
          rw [hitem] at hrank
          exact absurd hrank (not_le.2 (WithBot.bot_lt_coe _))
        | some z =>
          have hz := FileBackend.holds_of_item hitem
          rw [hitem] at hrank
          exact ⟨fun h => hserves e.1 ((hholds e.1).1 h), z, hserves z hz,
            hready.sound.wellNamed _ z hitem, WithBot.coe_le_coe.1 hrank,
            Or.inl ((hall hlt z).2 hz)⟩
      · have hpassed : e.2 ≤ (backendAction ((tracked d).pull since) w).2.1.cursor.parseRevision := by
          change e.2 ≤ w.1.cursor.parseRevision
          rw [hcursor]
          rw [hremote] at hle
          exact UInt64.le_trans hle (UInt64.not_lt.1 hlt)
        obtain ⟨hheld, z, hz, hid, hstamp, hreached⟩ := (hg.upto hready).delivered e he hpassed
        exact ⟨hheld, z, hz, hid, hstamp, Or.inr hreached⟩
  refine ⟨Ready.rely (hg.upto hready) hu, fun items' remote' h => ?_⟩
  cases h
  exact happlying.rely hu

variable {b64 : Base64}

omit [DecidableEq D] in
/-- The apply loop is through with an item that has reached its row. -/
theorem Applying.skip {item : SyncItem} {rest : List SyncItem} {remote : SyncCursor}
    (h : Applying d (item :: rest) remote v) (hreached : Reached v.1 item) :
    Applying d rest remote v where
  ready := h.ready
  below := h.below
  served z hz := h.served z (List.mem_cons_of_mem _ hz)
  latest z hz := h.latest z (List.mem_cons_of_mem _ hz)
  behind := h.behind
  due e he hle := by
    obtain ⟨hserved, z, hz, hid, hstamp, hrest | hrow⟩ := h.due e he hle
    · obtain rfl | hrest := List.mem_cons.1 hrest
      · exact ⟨hserved, z, hz, hid, hstamp, Or.inr hreached⟩
      · exact ⟨hserved, z, hz, hid, hstamp, Or.inl hrest⟩
    · exact ⟨hserved, z, hz, hid, hstamp, Or.inr hrow⟩

omit [DecidableEq D] in
/-- An action that leaves rows, cursor and site alone. -/
theorem Applying.idle {rest : List SyncItem} {remote : SyncCursor} (h : Applying d rest remote v)
    (hcursor : w.1.cursor = v.1.cursor) (hrows : w.1.vault.db.items = v.1.vault.db.items)
    (hsite : w.2 = v.2) : Applying d rest remote w := by
  refine h.rely ⟨hcursor, fun id row hrow => ⟨row, ?_, le_refl _⟩,
    fun _ _ hreached => hreached.of_rows hrows, ?_⟩
  · rwa [VaultDb.getItem, hrows]
  · rw [hsite]
    exact Beside.refl d v.2

omit [DecidableEq D] in
/-- A row is written over by an item that is later than all that was served under its id. -/
theorem Applying.write {item : SyncItem} {row : ItemRow} {rest : List SyncItem}
    {remote : SyncCursor} (h : Applying d (item :: rest) remote v)
    (hrow : itemRowFromSync b64 item = .ok row)
    (hdb : w.1.vault.db = v.1.vault.db.upsertItem row) (hcursor : w.1.cursor = v.1.cursor)
    (hsite : w.2 = v.2) : Guarantees d v w ∧ Applying d rest remote w := by
  have hid := (itemRowFromSync_eq_ok hrow).1
  have hstamp := rowStamp_of_itemRowFromSync hrow
  have hnew : ∀ y : SyncItem, y.id = item.id → y.stamp ≤ item.stamp → Reached w.1 y := by
    intro y hy hle
    refine ⟨row, ?_, Or.inr (not_winsOver_iff.2 (hle.trans_eq hstamp.symm))⟩
    rw [hdb, VaultDb.getItem_upsertItem, hid, if_pos hy]
  have hreached : ∀ z ∈ v.2.served d, Reached v.1 z → Reached w.1 z := by
    intro z hz hold
    by_cases hsame : z.id = item.id
    · exact hnew z hsame (h.latest item List.mem_cons_self z hz hsame)
    · obtain ⟨old, hget, hbeats⟩ := hold
      refine ⟨old, ?_, hbeats⟩
      rw [hdb, VaultDb.getItem_upsertItem, hid, if_neg hsame]
      exact hget
  have hg : Guarantees d v w := by
    refine ⟨?_, hreached, fun hupto => ?_⟩
    · rw [hsite]
      exact Serves.refl d v.2
    · rw [hcursor]
      refine hupto.grows ?_ hreached
      rw [hsite]
      exact Grows.refl v.2
  refine ⟨hg, hg.upto h.ready, ?_, fun z hz => ?_, fun z hz y hy => ?_, fun hbehind e he => ?_,
    fun e he hle => ?_⟩
  · rw [hsite]
    exact h.below
  · rw [hsite]
    exact h.served z (List.mem_cons_of_mem _ hz)
  · rw [hsite] at hy
    exact h.latest z (List.mem_cons_of_mem _ hz) y hy
  · rw [hsite] at hbehind he
    exact h.behind hbehind e he
  · rw [hsite] at he ⊢
    obtain ⟨hserved, z, hz, hzid, hzstamp, hrest | hold⟩ := h.due e he hle
    · obtain rfl | hrest := List.mem_cons.1 hrest
      · exact ⟨hserved, z, hz, hzid, hzstamp, Or.inr (hnew z rfl (le_refl _))⟩
      · exact ⟨hserved, z, hz, hzid, hzstamp, Or.inl hrest⟩
    · exact ⟨hserved, z, hz, hzid, hzstamp, Or.inr (hreached z hz hold)⟩

omit [DecidableEq D] in
theorem safe_applyItems (applied : UInt32) {items : List SyncItem} {remote : SyncCursor}
    (hv : Applying d items remote v) :
    Safe d (fun r w => Ready d w ∧ ∀ n, r = .ok n → Applying d [] remote w)
      (applyItems b64 applied items) v := by
  induction items generalizing applied v with
  | nil => exact fun w hw => ⟨(hv.rely hw).ready, fun _ _ => hv.rely hw⟩
  | cons item items ih =>
    refine Program.Meets.bind (P := fun r w => Applying d (item :: items) remote w ∧
      ∀ row, r = .ok row → shouldApply item row = false → Reached w.1 item) ?_ (Rely.refl d) ?_ ?_
    · refine Program.Meets.lift fun w hw _ => ?_
      have hdb : (withDb (fun db => .ok (db.getItem item.id)) w.1.vault).2.db = w.1.vault.db :=
        leaves_withDb (f := Vault.db) (fun _ _ => rfl) _ _
      have hrows := congrArg VaultDb.items hdb
      have happlying := (hv.rely hw).idle (w := (vaultAction (withDb fun db =>
        .ok (db.getItem item.id)) w).2) rfl hrows rfl
      refine ⟨guarantees_of_rows rfl hrows (Serves.refl d w.2),
        fun e he => ⟨happlying, fun row h => by cases h⟩, fun row u hok hu => ?_⟩
      refine ⟨happlying.rely hu, fun row' h hskip => ?_⟩
      cases h
      refine hu.reached item (happlying.served item List.mem_cons_self) ?_
      have hget := Except.ok.inj (withDb_eq_ok (Prod.ext hok rfl)).1
      cases row with
      | none => cases hskip
      | some row =>
        refine ⟨row, ?_, ?_⟩
        · change (withDb _ w.1.vault).2.db.getItem item.id = some row
          rw [hdb]
          exact hget
        · cases hlocal : row.localOnly with
          | true => exact Or.inl rfl
          | false =>
            rw [shouldApply, hlocal, if_neg (by decide)] at hskip
            exact Or.inr hskip
    · rintro row w ⟨hw, hskip⟩
      split
      · refine Program.Meets.bind (P := fun r u => Applying d (item :: items) remote u ∧
          ∀ new, r = .ok new → itemRowFromSync b64 item = .ok new) ?_ (Rely.refl d) ?_ ?_
        · refine Program.Meets.lift fun u hu _ => ⟨?_, fun e _ => ⟨hw.rely hu, fun _ h => ?_⟩,
            fun new x hok hx => ⟨(hw.rely hu).rely hx, fun new' h => ?_⟩⟩
          · exact guarantees_of_rows rfl rfl (Serves.refl d u.2)
          · cases h
          · cases h
            exact hok
        · rintro new u ⟨hu, hnew⟩
          refine Program.Meets.bind (P := fun r x => Ready d x ∧ ∀ n, r = .ok n →
            Applying d items remote x) ?_ (Rely.refl d) (fun _ x hx => ih _ (hx.2 _ rfl)) ?_
          · refine Program.Meets.lift fun x hx _ => ?_
            have hlate := hu.rely hx
            obtain ⟨e, he⟩ | hok := withDbMut_cases (fun db => db.upsertItem new) x.1.vault
            · have hrows : (vaultAction (withDbMut fun db => db.upsertItem new) x).2.1.vault.db.items =
                  x.1.vault.db.items := by
                change (withDbMut (fun db => db.upsertItem new) x.1.vault).2.db.items = _
                rw [he]
              refine ⟨guarantees_of_rows rfl hrows (Serves.refl d x.2),
                fun _ _ => ⟨(hlate.idle (w := (vaultAction _ x).2) rfl hrows rfl).ready,
                  fun _ h => (by cases h)⟩, fun _ y hfine => ?_⟩
              change (withDbMut (fun db => db.upsertItem new) x.1.vault).1 = _ at hfine
              rw [he] at hfine
              cases hfine
            · have hdb : (vaultAction (withDbMut fun db => db.upsertItem new) x).2.1.vault.db =
                  x.1.vault.db.upsertItem new := by
                change (withDbMut (fun db => db.upsertItem new) x.1.vault).2.db = _
                rw [hok]
              obtain ⟨hg, hdone⟩ := hlate.write (w := (vaultAction (β := Site D) _ x).2) (hnew new rfl)
                hdb rfl rfl
              exact ⟨hg, fun _ _ => ⟨hdone.ready, fun _ h => (by cases h)⟩,
                fun _ y _ hy => ⟨(hdone.rely hy).ready, fun _ _ => hdone.rely hy⟩⟩
          · exact fun e x hx => ⟨hx.1, fun _ h => by cases h⟩
        · exact fun e u hu => ⟨hu.1.ready, fun _ h => by cases h⟩
      · rename_i hfalse
        exact ih applied (hw.skip (hskip row rfl (Bool.not_eq_true _ ▸ hfalse)))
    · exact fun e w hw => ⟨hw.1.ready, fun _ h => by cases h⟩

/-- The engine's row under the item's identifier is no earlier than the item. -/
def Held (engine : Engine) (y : SyncItem) : Prop :=
  ∃ row, engine.vault.db.getItem y.id = some row ∧ y.stamp ≤ rowStamp row

omit [DecidableEq D] in
theorem Held.rely {y : SyncItem} (h : Held v.1 y) (hr : Rely d v w) : Held w.1 y := by
  obtain ⟨row, hrow, hle⟩ := h
  obtain ⟨row', hrow', hle'⟩ := hr.rows y.id row hrow
  exact ⟨row', hrow', hle.trans hle'⟩

omit [DecidableEq D] in
theorem safe_listSyncEligibleItems (b64 : Base64) {remote : SyncCursor}
    (hv : Applying d [] remote v) :
    Safe d (fun r w => Applying d [] remote w ∧ ∀ rows, r = .ok rows →
      ∀ y ∈ rows.map (syncItemFromRow b64), Held w.1 y) listSyncEligibleItems v := by
  have hidle : ∀ {α : Type} (m : VaultM α), m.Leaves Vault.db → ∀ w, Applying d [] remote w →
      Guarantees d w (vaultAction m w).2 ∧ Applying d [] remote (vaultAction m w).2 := by
    intro α m hm w hw
    have hrows : (vaultAction (β := Site D) m w).2.1.vault.db.items = w.1.vault.db.items :=
      congrArg VaultDb.items (hm w.1.vault)
    exact ⟨guarantees_of_rows rfl hrows (Serves.refl d w.2), hw.idle rfl hrows rfl⟩
  refine Program.Meets.bind (P := fun _ w => Applying d [] remote w) ?_ (Rely.refl d) ?_ ?_
  · refine Program.Meets.lift fun w hw _ => ?_
    obtain ⟨hg, happlying⟩ :=
      hidle requireKey (leaves_requireKey (f := Vault.db) fun _ _ => rfl) w (hv.rely hw)
    exact ⟨hg, fun _ _ => happlying, fun _ _ _ hu => happlying.rely hu⟩
  · rintro key w hw
    refine Program.Meets.lift fun u hu _ => ?_
    have hleaves : (withDb fun db => .ok (syncEligible db)).Leaves Vault.db :=
      leaves_withDb (f := Vault.db) (fun _ _ => rfl) _
    obtain ⟨hg, happlying⟩ := hidle _ hleaves u (hw.rely hu)
    refine ⟨hg, fun _ _ => ⟨happlying, fun _ h => by cases h⟩,
      fun rows x hok hx => ⟨happlying.rely hx, fun rows' h y hy => ?_⟩⟩
    cases h
    obtain ⟨row, hrow, rfl⟩ := List.mem_map.1 hy
    have hrows := Except.ok.inj (withDb_eq_ok (Prod.ext hok rfl)).1
    rw [← hrows] at hrow
    refine Held.rely (v := (vaultAction (withDb fun db => .ok (syncEligible db)) u).2) ?_ hx
    refine ⟨row, ?_, le_refl _⟩
    change (withDb _ u.1.vault).2.db.getItem row.id = some row
    rw [show (withDb _ u.1.vault).2.db = u.1.vault.db from hleaves u.1.vault]
    exact (mem_syncEligible.1 hrow).1
  · exact fun e w hw => ⟨hw, fun _ h => by cases h⟩

/-- A push by an engine that is not behind: the later of the two cursors passes over nothing. -/
theorem safe_push {items : List SyncItem} {remote : SyncCursor} (hv : Applying d [] remote v)
    (hitems : ∀ y ∈ items, Held v.1 y) :
    Safe d (fun r w => Ready d w ∧ ∀ pushCursor, r = .ok pushCursor →
      Upto d w (laterCursor pushCursor remote)) (onBackend ((tracked d).push items)) v := by
  refine Program.Meets.lift fun w hw htimely => ?_
  have happlying := hv.rely hw
  obtain ⟨hsite, hpush⟩ := push_serves items w.2 htimely.2
  have hg : Guarantees d w (backendAction ((tracked d).push items) w).2 :=
    guarantees_of_rows rfl rfl hsite
  have hready := hg.upto happlying.ready
  refine ⟨hg, fun _ _ => ⟨hready, fun _ h => by cases h⟩, fun cursor u hok hu => ?_⟩
  obtain ⟨hcursor, hlate, hserved, hstored⟩ := hpush cursor hok
  have hbehind : w.2.behind d = false := by
    have hlate' : ((tracked d).push items w.2).2.late = false := htimely.1
    rw [hlate, Bool.or_eq_false_iff] at hlate'
    exact hlate'.2
  have hpulled : Upto d w remote := by
    refine ⟨happlying.ready.sound, happlying.below, fun e he hle => ?_⟩
    obtain ⟨hheld, z, hz, hid, hstamp, hnone | hreached⟩ := happlying.due e he hle
    · cases hnone
    · exact ⟨hheld, z, hz, hid, hstamp, hreached⟩
  have hpulled := hpulled.grows hg.site.1 hg.reached
  have hnext : Upto d (backendAction ((tracked d).push items) w).2 (laterCursor cursor remote) := by
    refine ⟨hready.sound, ?_, fun e he _ => ?_⟩
    · unfold laterCursor
      split
      · exact UInt64.le_of_eq hcursor
      · exact hpulled.below
    · obtain hold | hsent := hstored e he
      · exact hpulled.delivered e he (happlying.behind hbehind e hold)
      · have hmem : e.1 ∈ ((tracked d).push items w.2).2.served d := by
          rw [hserved]
          exact List.mem_append_left _ hsent
        obtain ⟨row, hrow, hle⟩ := (hitems e.1 hsent).rely hw
        exact ⟨fun _ => hmem, e.1, hmem, rfl, le_refl _, row, hrow,
          Or.inr (not_winsOver_iff.2 hle)⟩
  refine ⟨Ready.rely hready hu, fun pushCursor h => ?_⟩
  cases h
  exact hnext.rely hu

theorem safe_exchangeItems (hv : Ready d v) :
    Safe d ((discipline D).outcome d) (exchangeItems b64 (tracked d)) v := by
  have hfails : ∀ (e : Error) (w : Engine × Site D), Ready d w →
      (discipline D).outcome d (.error e) w := fun _ _ hw => ⟨hw.sound, fun _ h => by cases h⟩
  refine Program.Meets.bind (safe_getCursor hv) (Rely.refl d) ?_ fun e w hw => hfails e w hw.1
  rintro since w ⟨hw, hsince⟩
  refine Program.Meets.bind (safe_pull hw (hsince since rfl)) (Rely.refl d) ?_
    fun e w hw => hfails e w hw.1
  rintro ⟨items, remote⟩ u ⟨-, hu⟩
  refine Program.Meets.bind (safe_applyItems 0 (hu items remote rfl)) (Rely.refl d) ?_
    fun e w hw => hfails e w hw.1
  rintro applied x ⟨-, hx⟩
  refine Program.Meets.bind (safe_listSyncEligibleItems b64 (hx applied rfl))
    (Rely.refl d) ?_ fun e w hw => hfails e w hw.1.ready
  rintro rows y ⟨hy, hrows⟩
  refine Program.Meets.bind (safe_push hy (hrows rows rfl)) (Rely.refl d) ?_
    fun e w hw => hfails e w hw.1
  rintro pushCursor z ⟨-, hz⟩
  have hnext := hz pushCursor rfl
  refine Program.Meets.bind (P := fun _ w => Upto d w (laterCursor pushCursor remote)) ?_
    (Rely.refl d) ?_ ?_
  · refine Program.Meets.lift fun w hw _ => ?_
    have hlater := hnext.rely hw
    have hset : Upto d ({ w.1 with cursor := laterCursor pushCursor remote }, w.2)
        (laterCursor pushCursor remote) := ⟨hlater.sound, hlater.below, hlater.delivered⟩
    refine ⟨⟨Serves.refl d w.2, fun _ _ h => h, fun _ => hset⟩, fun e he => (by cases he),
      fun _ u _ hu => hset.rely hu⟩
  · exact fun _ w hw u hu => ⟨hu.site.sound hw.sound, fun report h => by cases h; exact hw.rely hu⟩
  · exact fun e w hw => ⟨hw.sound, fun _ h => by cases h⟩

variable (aead : Aead KeyBytes)

/-- A sync, whatever the other engines do. -/
theorem safe_syncNow (hv : Ready d v) :
    Safe d ((discipline D).outcome d) (syncNow aead b64 (tracked d)) v := by
  have hfails : ∀ (e : Error) (w : Engine × Site D), Ready d w →
      (discipline D).outcome d (.error e) w := fun _ _ hw => ⟨hw.sound, fun _ h => by cases h⟩
  refine Program.Meets.bind (safe_headers (each_isUnlocked_header _) hv) (Rely.refl d) ?_ hfails
  intro unlocked w hw
  cases unlocked with
  | false =>
    refine Program.Meets.lift fun u hu _ => ⟨?_, fun e _ => hfails e u (hw.rely hu), ?_⟩
    · exact guarantees_of_rows rfl rfl (Serves.refl d u.2)
    · intro _ _ h
      cases h
  | true =>
    refine Program.Meets.bind (safe_headers (each_adoptRemoteRekey_header aead _) hw)
      (Rely.refl d) ?_ hfails
    intro _ u hu
    refine Program.Meets.bind (safe_headers (each_publishHeader_header _) hu) (Rely.refl d) ?_ hfails
    exact fun _ x hx => safe_exchangeItems hx

end Syncs

/-! ## Runs -/

section Runs
variable {D T : Type} [DecidableEq D] [DecidableEq T]

abbrev Peers (D T : Type) := Machine D T Engine (Site D) Error SyncReport

/-- A sync of an engine none of whose syncs is running. -/
def OneSync (aead : Aead KeyBytes) (b64 : Base64) (x : Peers D T) (_ : T) (d : D)
    (p : EngineM (Site D) SyncReport) : Prop :=
  p = syncNow aead b64 (tracked d) ∧ ∀ u q, x.tasks u ≠ some (.running d q)

/-- The rows of the vault are as they were or of a next version. -/
structure LocalEdit (engine engine' : Engine) : Prop where
  cursor : engine'.cursor = engine.cursor
  rows : ∀ id row, engine.vault.db.getItem id = some row →
    ∃ row', engine'.vault.db.getItem id = some row' ∧ (row' = row ∨ row.version < row'.version)

/-- A row that is shared again is not beaten by an item that the engine was served. -/
def SharesLatest (d : D) (v : Engine × Site D) (engine' : Engine) : Prop :=
  ∀ id row row', v.1.vault.db.getItem id = some row → engine'.vault.db.getItem id = some row' →
    row.localOnly = true → row'.localOnly = false →
      ∀ y ∈ v.2.served d, y.id = id → winsOver y row' = false

def Edits (d : D) (v : Engine × Site D) (engine' : Engine) : Prop :=
  LocalEdit v.1 engine' ∧ SharesLatest d v engine'

/-- No sync, no record and cursors at the start. -/
structure Fresh (x : Peers D T) : Prop where
  tasks : ∀ t, x.tasks t = none
  wellNamed : x.shared.backend.WellNamed
  served : ∀ d, x.shared.served d = []
  stored : x.shared.stored = []
  cursor : ∀ d, (x.own d).cursor = .default

omit [DecidableEq D] in
theorem rely_edit {d : D} {v : Engine × Site D} {engine' : Engine} (h : Edits d v engine') :
    Rely d v (engine', v.2) where
  cursor := h.1.cursor
  rows id row hrow := by
    obtain ⟨row', hrow', rfl | hlt⟩ := h.1.rows id row hrow
    · exact ⟨row', hrow', le_refl _⟩
    · exact ⟨row', hrow', (stampOf_lt.2 (Or.inl hlt)).le⟩
  reached z hz hreached := by
    obtain ⟨row, hrow, hbeats⟩ := hreached
    obtain ⟨row', hrow', rfl | hlt⟩ := h.1.rows z.id row hrow
    · exact ⟨row', hrow', hbeats⟩
    · refine ⟨row', hrow', ?_⟩
      cases hlocal' : row'.localOnly with
      | true => exact Or.inl rfl
      | false =>
        obtain hlocal | hbeats := hbeats
        · exact Or.inr (h.2 z.id row row' hrow hrow' hlocal hlocal' z hz rfl)
        · have hstamp : rowStamp row < rowStamp row' := stampOf_lt.2 (Or.inl hlt)
          exact Or.inr (not_winsOver_iff.2 ((not_winsOver_iff.1 hbeats).trans hstamp.le))
  site := Beside.refl d v.2

structure Kept (x : Peers D T) : Prop where
  justified : (discipline D).Justifies x
  exclusive : x.Exclusive
  ready : ∀ d, Ready d (x.view d)

theorem Kept.advance {x : Peers D T} (hx : Kept x) (t : T) (htimely : Timely (x.advance t).shared) :
    Kept (x.advance t) := by
  refine ⟨hx.justified.advance (fun d => Rely.refl d _) t htimely (Or.inl hx.exclusive),
    hx.exclusive.advance t, ?_⟩
  obtain h | ⟨d, a, -, h⟩ | ⟨d, β, m, next, htask, h⟩ := x.advance_cases t
  · rw [h]
    exact hx.ready
  · rw [h]
    exact hx.ready
  · rw [h] at htimely ⊢
    obtain ⟨hg, -⟩ := hx.justified.1 t d _ htask (x.view d) (Rely.refl d _) htimely
    intro e
    rw [Machine.view_settle]
    by_cases he : e = d
    · rw [he, Machine.view_write_self]
      exact hg.upto (hx.ready d)
    · rw [Machine.view_write_of_ne x he]
      exact (hx.ready e).rely ((discipline D).rely_other d e he _ _ (x.own e) hg)

variable {aead : Aead KeyBytes} {b64 : Base64} {x₀ x : Peers D T}

theorem Kept.run (hx₀ : Fresh x₀) (hrun : Machine.Run (OneSync aead b64) Edits Timely x₀ x) :
    Kept x := by
  induction hrun with
  | init =>
    refine ⟨⟨fun t d p ht => ?_, fun t d r ht => ?_⟩, fun t u d p q ht => ?_, fun d => ?_⟩
    · rw [hx₀.tasks] at ht
      cases ht
    · rw [hx₀.tasks] at ht
      cases ht
    · rw [hx₀.tasks] at ht
      cases ht
    · have hnone : ∀ e, e ∉ x₀.shared.stored := fun e he => by
        rw [hx₀.stored] at he
        cases he
      refine ⟨⟨hx₀.wellNamed, fun e he => (hnone e he).elim, fun e he => (hnone e he).elim,
        fun e y hy => ?_⟩, ?_, fun e he => (hnone e he).elim⟩
      · have hy' : y ∈ x₀.shared.served e := hy
        rw [hx₀.served] at hy'
        cases hy'
      · change (x₀.own d).cursor.parseRevision ≤ _
        rw [hx₀.cursor, parseRevision_default, UInt64.le_iff_toNat_le]
        exact Nat.zero_le _
  | start hx t d p hfresh hp ih =>
    obtain ⟨rfl, hidle⟩ := hp
    refine ⟨ih.justified.settle t ?_ fun e r he => (by cases he), ih.exclusive.start hidle _,
      ih.ready⟩
    intro e p he
    cases he
    exact safe_syncNow aead (ih.ready d)
  | advance hx t htimely ih => exact ih.advance t htimely
  | @edit x hx d engine' hedit ih =>
    have hrely := rely_edit hedit
    refine ⟨ih.justified.edit hrely, ih.exclusive, fun e => ?_⟩
    by_cases he : e = d
    · rw [he, Machine.edit, Machine.view_write_self]
      exact (ih.ready d).rely hrely
    · rw [Machine.edit, Machine.view_write_of_ne _ he]
      exact ih.ready e

/-- A sync that returned has been served, up to its cursor, every item that is still there, and
no item beats the row it came to. -/
theorem cursor_passes_nothing (hx₀ : Fresh x₀)
    (hrun : Machine.Run (OneSync aead b64) Edits Timely x₀ x) {t : T} {d : D} {report : SyncReport}
    (hdone : x.tasks t = some (.finished d (.ok report))) {e : SyncItem × UInt64}
    (he : e ∈ x.shared.stored) (hle : e.2 ≤ report.cursor.parseRevision) :
    (x.shared.backend.Holds e.1 → e.1 ∈ x.shared.served d) ∧
      ∃ row, (x.own d).vault.db.getItem e.1.id = some row ∧
        (row.localOnly = true ∨ winsOver e.1 row = false) := by
  have hupto : Upto d (x.view d) report.cursor :=
    ((Kept.run hx₀ hrun).justified.2 t d _ hdone).2 report rfl
  obtain ⟨hserved, z, -, hid, hstamp, hreached⟩ := hupto.delivered e he hle
  exact ⟨hserved, hreached.earlier hid hstamp⟩

theorem run_advances {allowed : Peers D T → T → D → EngineM (Site D) SyncReport → Prop}
    {edits : D → Engine × Site D → Engine → Prop} {assumed : Site D → Prop}
    (hx : Machine.Run allowed edits assumed x₀ x) (ts : List T)
    (h : ∀ n < ts.length, assumed ((ts.take (n + 1)).foldl Machine.advance x).shared) :
    Machine.Run allowed edits assumed x₀ (ts.foldl Machine.advance x) := by
  induction ts generalizing x with
  | nil => exact hx
  | cons t ts ih =>
    exact ih (hx.advance t (h 0 (Nat.succ_pos _))) fun n hn => h (n + 1) (Nat.succ_lt_succ hn)

end Runs

section Samples
open SecretFleets (sampleKey sampleVaultHeader)

def emptyDirectory : FileBackend :=
  ⟨none, none, Table.empty, 0, fun _ => none, fun _ => .asStored⟩

def sampleRow : ItemRow := ⟨World.quiet.uuidAt 0, .host, 1, 0, false, false, ⟨[], []⟩⟩

/-- Engine `false` has a host. -/
def sampleEngine (d : Bool) : Engine :=
  ⟨⟨⟨some sampleVaultHeader, if d then Table.empty else Table.empty.put sampleRow⟩, none,
    .unlocked sampleKey sampleKey.expose 0, IDLE_LOCK_DISABLED, World.quiet⟩, .default⟩

def samplePeers : Peers Bool ℕ where
  own := sampleEngine
  shared := ⟨emptyDirectory, fun _ => [], [], fun _ => false, false⟩
  tasks _ := none

theorem samplePeers_fresh : Fresh samplePeers where
  tasks _ := rfl
  wellNamed id y h := by cases h
  served _ := rfl
  stored := rfl
  cursor _ := rfl

abbrev sampleSync (d : Bool) : EngineM (Site Bool) SyncReport :=
  syncNow (transparent KEY_LEN) standard (tracked d)

/-- The syncs of both engines, started. -/
def bothSyncs : Peers Bool ℕ := (samplePeers.start 0 true (sampleSync true)).start 1 false
  (sampleSync false)

/-- Engine `true` pulls; engine `false` syncs; engine `true` goes on. -/
def overtaken : List ℕ := List.replicate 7 0 ++ List.replicate 12 1 ++ List.replicate 5 0

/-- Engine `false` syncs, and then engine `true`. -/
def inTurn : List ℕ := List.replicate 12 1 ++ List.replicate 15 0

def cursorOf : Option (Task Bool Engine (Site Bool) Error SyncReport) → Option (Bool × UInt64)
  | some (.finished d (.ok report)) => some (d, report.cursor.parseRevision)
  | _ => none

theorem finished_of_cursorOf {task : Option (Task Bool Engine (Site Bool) Error SyncReport)}
    {d : Bool} {revision : UInt64} (h : cursorOf task = some (d, revision)) :
    ∃ report, task = some (.finished d (.ok report)) ∧
      report.cursor.parseRevision = revision := by
  unfold cursorOf at h
  split at h
  · rename_i e report
    rw [Option.some.injEq, Prod.mk.injEq] at h
    exact ⟨report, by rw [h.1], h.2⟩
  · cases h

theorem bothSyncs_run {edits : Bool → Engine × Site Bool → Engine → Prop}
    {assumed : Site Bool → Prop} : Machine.Run (OneSync (transparent KEY_LEN) standard) edits assumed
      samplePeers bothSyncs := by
  refine .start (.start .init 0 true _ rfl ⟨rfl, fun u q h => by cases h⟩) 1 false _ rfl
    ⟨rfl, fun u q h => ?_⟩
  by_cases hu : u = 0
  · rw [hu, Machine.start, Machine.tasks_settle_self] at h
    cases h
  · rw [Machine.start, Machine.tasks_settle_of_ne _ hu] at h
    cases h

/-- What engine `false` stored meanwhile is below the cursor of engine `true`, which has no row. -/
theorem cursor_passes_nothing_fails :
    ¬ ∀ x : Peers Bool ℕ, Machine.Run (OneSync (transparent KEY_LEN) standard) Edits
        (fun s => s.backend.revision.toNat < 2 ^ 64 - 1) samplePeers x →
      ∀ t d report, x.tasks t = some (.finished d (.ok report)) →
        ∀ e ∈ x.shared.stored, e.2 ≤ report.cursor.parseRevision →
          (x.shared.backend.Holds e.1 → e.1 ∈ x.shared.served d) ∧
            ∃ row, (x.own d).vault.db.getItem e.1.id = some row ∧
              (row.localOnly = true ∨ winsOver e.1 row = false) := by
  intro hall
  have hbelow : ∀ n < overtaken.length,
      ((overtaken.take (n + 1)).foldl Machine.advance bothSyncs).shared.backend.revision.toNat <
        2 ^ 64 - 1 := by decide +kernel
  have hrun : Machine.Run (OneSync (transparent KEY_LEN) standard) Edits
      (fun s => s.backend.revision.toNat < 2 ^ 64 - 1) samplePeers
      (overtaken.foldl Machine.advance bothSyncs) := run_advances bothSyncs_run overtaken hbelow
  obtain ⟨report, hdone, hcursor⟩ : ∃ report, (overtaken.foldl Machine.advance bothSyncs).tasks 0 =
      some (.finished true (.ok report)) ∧ report.cursor.parseRevision = 2 :=
    finished_of_cursorOf (by decide +kernel)
  have hstored : (overtaken.foldl Machine.advance bothSyncs).shared.stored.map Prod.snd = [2] := by
    decide +kernel
  obtain ⟨e, he, hrevision⟩ : ∃ e ∈ (overtaken.foldl Machine.advance bothSyncs).shared.stored,
      e.2 = 2 := List.mem_map.1 (hstored ▸ List.mem_cons_self)
  obtain ⟨-, row, hrow, -⟩ := hall _ hrun 0 true report hdone e he
    (UInt64.le_of_eq (hrevision.trans hcursor.symm))
  have hempty : ((overtaken.foldl Machine.advance bothSyncs).own true).vault.db.items.rows = [] := by
    decide +kernel
  change lookup ItemRow.id e.1.id _ = some row at hrow
  rw [hempty] at hrow
  cases hrow

theorem cursor_passes_nothing_sample :
    ∃ (report : SyncReport) (e : SyncItem × UInt64),
      e ∈ (inTurn.foldl Machine.advance bothSyncs).shared.stored ∧
      e.2 ≤ report.cursor.parseRevision ∧
      ∃ row, ((inTurn.foldl Machine.advance bothSyncs).own true).vault.db.getItem e.1.id = some row ∧
        (row.localOnly = true ∨ winsOver e.1 row = false) := by
  have htimely : ∀ n < inTurn.length,
      Timely ((inTurn.take (n + 1)).foldl Machine.advance bothSyncs).shared := by decide +kernel
  obtain ⟨report, hdone, hcursor⟩ : ∃ report, (inTurn.foldl Machine.advance bothSyncs).tasks 0 =
      some (.finished true (.ok report)) ∧ report.cursor.parseRevision = 2 :=
    finished_of_cursorOf (by decide +kernel)
  have hstored : (inTurn.foldl Machine.advance bothSyncs).shared.stored.map Prod.snd = [2] := by
    decide +kernel
  obtain ⟨e, he, hrevision⟩ : ∃ e ∈ (inTurn.foldl Machine.advance bothSyncs).shared.stored,
      e.2 = 2 := List.mem_map.1 (hstored ▸ List.mem_cons_self)
  have hle : e.2 ≤ report.cursor.parseRevision :=
    UInt64.le_of_eq (hrevision.trans hcursor.symm)
  obtain ⟨-, hrow⟩ := cursor_passes_nothing samplePeers_fresh
    (run_advances bothSyncs_run inTurn htimely) hdone he hle
  exact ⟨report, e, he, hle, hrow⟩

end Samples
end Tethra.SkippedWrites
