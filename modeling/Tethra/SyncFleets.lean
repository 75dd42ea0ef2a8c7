import Tethra.ReplicatedRegisters
import Tethra.SyncRuns

set_option autoImplicit false

/-!
# Devices that sync one after another

Any number of devices edit their vaults and sync with one directory, one whole sync at a
time. Seen under one identifier, the devices and the directory are replicas that meet at a
hub.
-/
namespace Tethra.SyncFleets
open AtomicPrograms AuthenticatedEncryption Base64Strings KeyedTables ReplicatedRegisters StampedRegisters
open StatefulActions SyncEngine SyncFileBackend SyncItems SyncRuns VaultState VaultTypes

structure Fleet (D : Type) where
  devices : D → Engine
  backend : FileBackend

/-- A write of a row, any other change of a device's vault, and a sync. -/
inductive Step (D : Type) where
  | write (d : D) (row : ItemRow) (vault : Vault)
  | other (d : D) (vault : Vault)
  | sync (d : D)

section Runs
variable {D : Type} [DecidableEq D] (aead : Aead KeyBytes) (b64 : Base64)

def row (x : Fleet D) (d : D) (id : Uuid) : Option ItemRow := (x.devices d).vault.db.getItem id

def setVault (x : Fleet D) (d : D) (vault : Vault) : Fleet D :=
  { x with devices := Function.update x.devices d { x.devices d with vault := vault } }

def syncOutcome (x : Fleet D) (d : D) : Except Error SyncReport × Engine × FileBackend :=
  (syncNow aead b64 fileBackend).run (x.devices d, x.backend)

def perform (x : Fleet D) : Step D → Fleet D
  | .write d _ vault => setVault x d vault
  | .other d vault => setVault x d vault
  | .sync d => ⟨Function.update x.devices d (syncOutcome aead b64 x d).2.1,
      (syncOutcome aead b64 x d).2.2⟩

def run (x : Fleet D) (steps : List (Step D)) : Fleet D := steps.foldl (perform aead b64) x

def versionOf (r : Option ItemRow) : ℕ := r.elim 0 fun row => row.version.toNat

/-- Writes store the next version of their row; syncs succeed. -/
def Allowed (x : Fleet D) : Step D → Prop
  | .write d w vault => w.version.toNat = versionOf (row x d w.id) + 1 ∧
      ∀ id, vault.db.getItem id = ((x.devices d).vault.db.upsertItem w).getItem id
  | .other d vault => ∀ id, vault.db.getItem id = row x d id
  | .sync d => ∃ report, (syncOutcome aead b64 x d).1 = .ok report

/-- The step leaves the directory's revision below `u64::MAX`. -/
def Below (x : Fleet D) (step : Step D) : Prop :=
  (perform aead b64 x step).backend.revision.toNat < 2 ^ 64 - 1

/-- `P` holds of every step in the state it is taken in. -/
def Along (P : Fleet D → Step D → Prop) : Fleet D → List (Step D) → Prop
  | _, [] => True
  | x, step :: steps => P x step ∧ Along P (perform aead b64 x step) steps

instance (x : Fleet D) (step : Step D) : Decidable (Below aead b64 x step) :=
  inferInstanceAs (Decidable (_ < _))

instance decidableAlong (P : Fleet D → Step D → Prop) [∀ x step, Decidable (P x step)] :
    (x : Fleet D) → (steps : List (Step D)) → Decidable (Along aead b64 P x steps)
  | _, [] => instDecidableTrue
  | x, step :: steps =>
    have := decidableAlong P (perform aead b64 x step) steps
    inferInstanceAs (Decidable (P x step ∧ Along aead b64 P (perform aead b64 x step) steps))

def written (steps : List (Step D)) : List ItemRow :=
  steps.filterMap fun
    | .write _ row _ => some row
    | _ => none

/-- No rows, cursors at the start, and a directory without items. -/
structure Fresh (x : Fleet D) : Prop where
  rows : ∀ d, (x.devices d).vault.db.items = Table.empty
  cursors : ∀ d, (x.devices d).cursor = .default
  items : x.backend.items = Table.empty

def net (x : Fleet D) (id : Uuid) : Net D SyncItem where
  hub := x.backend.item id
  replica d := (row x d id).map (syncItemFromRow b64)
  withheld d := ∃ w, row x d id = some w ∧ w.localOnly = true
  revision := x.backend.revision.toNat
  seen d := (x.devices d).cursor.parseRevision.toNat

/-- Every item of the directory is a row some device sent, in the file of its name. -/
structure Sound (x : Fleet D) : Prop where
  wellNamed : x.backend.WellNamed
  encoded : ∀ id item, x.backend.item id = some item → ∃ w, item = syncItemFromRow b64 w

variable {aead b64}

theorem along_append {P : Fleet D → Step D → Prop} {x : Fleet D} {steps more : List (Step D)} :
    Along aead b64 P x (steps ++ more) ↔
      Along aead b64 P x steps ∧ Along aead b64 P (run aead b64 x steps) more := by
  induction steps generalizing x with
  | nil => simp [Along, run]
  | cons step steps ih =>
    simp only [List.cons_append, Along, ih, and_assoc]
    rfl

theorem run_append (x : Fleet D) (steps more : List (Step D)) :
    run aead b64 x (steps ++ more) = run aead b64 (run aead b64 x steps) more :=
  List.foldl_append

end Runs

section Applying
variable {b64 : Base64}

theorem applyAll_withheld {r : Option ItemRow} {w : ItemRow} (hr : r = some w)
    (hw : w.localOnly = true) (items : List SyncItem) : applyAll b64 r items = r := by
  induction items with
  | nil => rfl
  | cons item items ih =>
    have hskip : shouldApply item r = false := by rw [hr, shouldApply, if_pos hw]
    change applyAll b64 (applyTo b64 r item) items = r
    rw [applyTo, hskip, if_neg (by decide), ih]

/-- On a row that is not withheld the apply loop is last-write-wins. -/
theorem applyAll_offered {r : Option ItemRow} (hr : ∀ w, r = some w → w.localOnly = false)
    {items : List SyncItem} (hitems : ∀ item ∈ items, ∃ w, item = syncItemFromRow b64 w) :
    (applyAll b64 r items).map (syncItemFromRow b64) =
        offerAll SyncItem.stamp (r.map (syncItemFromRow b64)) items ∧
      ∀ w, applyAll b64 r items = some w → w.localOnly = false := by
  induction items generalizing r with
  | nil => exact ⟨rfl, hr⟩
  | cons item items ih =>
    obtain ⟨v, rfl⟩ := hitems item List.mem_cons_self
    have hrank : rank SyncItem.stamp (r.map (syncItemFromRow b64)) = rank rowStamp r := by
      cases r <;> rfl
    have hiff : shouldApply (syncItemFromRow b64 v) r = true ↔
        rank rowStamp r < (rowStamp v : WithBot Stamp) := by
      rw [shouldApply_iff]
      cases r with
      | none => simp
      | some w => simp [hr w rfl]
    have hturn : (applyTo b64 r (syncItemFromRow b64 v)).map (syncItemFromRow b64) =
        offer SyncItem.stamp (r.map (syncItemFromRow b64)) (syncItemFromRow b64 v) ∧
        ∀ w, applyTo b64 r (syncItemFromRow b64 v) = some w → w.localOnly = false := by
      rw [applyTo, offer, hrank, stamp_syncItemFromRow]
      by_cases hlt : rank rowStamp r < (rowStamp v : WithBot Stamp)
      · rw [if_pos hlt, if_pos (hiff.2 hlt), itemRowFromSync_syncItemFromRow]
        exact ⟨rfl, fun w hw => by cases hw; rfl⟩
      · rw [if_neg hlt, if_neg fun h => hlt (hiff.1 h)]
        exact ⟨rfl, hr⟩
    obtain ⟨hmap, hlocal⟩ := ih hturn.2 fun x hx => hitems x (List.mem_cons_of_mem _ hx)
    refine ⟨?_, hlocal⟩
    change (applyAll b64 (applyTo b64 r _) items).map _ = offerAll _ (offer _ _ _) items
    rw [hmap, hturn.1]

/-- Rows that are not withheld are known by their items. -/
theorem eq_of_map_syncItemFromRow {r s : Option ItemRow}
    (h : r.map (syncItemFromRow b64) = s.map (syncItemFromRow b64))
    (hr : ∀ w, r = some w → w.localOnly = false) (hs : ∀ w, s = some w → w.localOnly = false) :
    r = s := by
  cases r with
  | none => exact (Option.map_eq_none_iff.1 h.symm).symm
  | some v =>
    obtain ⟨w, rfl, hitem⟩ := Option.map_eq_some_iff.1 h.symm
    have hv := hr v rfl
    have hw := hs w rfl
    have hvw := syncItemFromRow_inj hitem
    cases v
    cases w
    cases hv
    cases hw
    exact congrArg some hvw.symm

theorem mem_outgoing {db : VaultDb} {id : Uuid} {item : SyncItem} :
    item ∈ ((syncEligible db).map (syncItemFromRow b64)).filter (fun x => x.id = id) ↔
      ∃ w, db.getItem id = some w ∧ w.localOnly = false ∧ item = syncItemFromRow b64 w := by
  rw [List.mem_filter, List.mem_map]
  constructor
  · rintro ⟨⟨w, hw, rfl⟩, hid⟩
    obtain ⟨hget, hlocal⟩ := mem_syncEligible.1 hw
    obtain rfl : w.id = id := of_decide_eq_true hid
    exact ⟨w, hget, hlocal, rfl⟩
  · rintro ⟨w, hget, hlocal, rfl⟩
    obtain rfl := VaultDb.getItem_id hget
    exact ⟨⟨w, mem_syncEligible.2 ⟨hget, hlocal⟩, rfl⟩, decide_eq_true rfl⟩

end Applying

section Syncing
variable {aead : Aead KeyBytes} {b64 : Base64}

/-- The header phases leave the items of the directory and never lower its revision. -/
theorem headers_backend {γ : Type} {p : EngineM FileBackend γ}
    (hp : p.Each (HeaderAction fileBackend)) (s : Engine × FileBackend) :
    (p.run s).2.2.items = s.2.items ∧ s.2.revision ≤ (p.run s).2.2.revision := by
  refine Program.Each.within
    (R := fun s t : Engine × FileBackend => t.2.items = s.2.items ∧ s.2.revision ≤ t.2.revision)
    (fun s => ⟨rfl, UInt64.le_refl _⟩)
    (fun h h' => ⟨h'.1.trans h.1, UInt64.le_trans h.2 h'.2⟩) (hp.mono fun {γ m} hm s => ?_) s
  cases hm with
  | vault hm => exact ⟨rfl, UInt64.le_refl _⟩
  | ofExcept r => exact ⟨rfl, UInt64.le_refl _⟩
  | getHeader =>
    have hstored := FileBackend.leaves_getHeader s.2
    exact ⟨FileBackend.items_of_stored hstored,
      UInt64.le_of_eq (FileBackend.revision_of_stored hstored).symm⟩
  | putHeader header =>
    obtain ⟨hitems, -, hrev, -⟩ := FileBackend.putHeader_spec header s.2
    refine ⟨hitems, ?_⟩
    obtain hrev | hrev := hrev
    · exact UInt64.le_of_eq hrev.symm
    · change s.2.revision ≤ (FileBackend.putHeader header s.2).2.revision
      rw [hrev]
      exact FileBackend.le_saturatingSucc _

/-- What a successful sync does under every identifier. -/
structure SyncSpec (b64 : Base64) (s t : Engine × FileBackend) : Prop where
  wellNamed : t.2.WellNamed
  encoded : ∀ id item, t.2.item id = some item → ∃ w, item = syncItemFromRow b64 w
  withheld : ∀ id w, s.1.vault.db.getItem id = some w → w.localOnly = true →
    t.1.vault.db.getItem id = some w ∧ t.2.item id = s.2.item id
  free : ∀ id, (∀ w, s.1.vault.db.getItem id = some w → w.localOnly = false) →
    (∀ w, t.1.vault.db.getItem id = some w → w.localOnly = false) ∧
    ∃ pulled sent,
      (∀ item ∈ pulled, s.2.item id = some item) ∧
      (s.1.cursor.parseRevision < s.2.revision → ∀ item, s.2.item id = some item → item ∈ pulled) ∧
      (t.2.revision ≤ s.1.cursor.parseRevision → pulled = []) ∧
      (t.1.vault.db.getItem id).map (syncItemFromRow b64) =
        offerAll SyncItem.stamp ((s.1.vault.db.getItem id).map (syncItemFromRow b64)) pulled ∧
      (∀ item, item ∈ sent ↔ (t.1.vault.db.getItem id).map (syncItemFromRow b64) = some item) ∧
      t.2.item id = offerAll SyncItem.stamp (s.2.item id) sent
  revision : s.2.revision ≤ t.2.revision
  bumped : (∀ id, t.2.item id = s.2.item id) ∨ ∃ r, s.2.revision ≤ r ∧
    t.2.revision = saturatingSucc r
  cursor : t.1.cursor.parseRevision = t.2.revision

/-- A row the directory does not beat stays and is sent. -/
theorem SyncSpec.ahead {s t : Engine × FileBackend} (h : SyncSpec b64 s t) {id : Uuid}
    (hfree : ∀ w, s.1.vault.db.getItem id = some w → w.localOnly = false)
    (hahead : rank SyncItem.stamp (s.2.item id) ≤
      rank SyncItem.stamp ((s.1.vault.db.getItem id).map (syncItemFromRow b64))) :
    t.1.vault.db.getItem id = s.1.vault.db.getItem id ∧
      t.2.item id = ((s.1.vault.db.getItem id).map (syncItemFromRow b64)).elim (s.2.item id)
        (offer SyncItem.stamp (s.2.item id)) := by
  obtain ⟨hlocal, pulled, sent, hin, -, -, hmap, hsent, hhub⟩ := h.free id hfree
  have hstay : (t.1.vault.db.getItem id).map (syncItemFromRow b64) =
      (s.1.vault.db.getItem id).map (syncItemFromRow b64) := by
    rw [hmap]
    refine offerAll_of_le fun item hitem => ?_
    rwa [hin item hitem] at hahead
  refine ⟨eq_of_map_syncItemFromRow hstay hlocal hfree, ?_⟩
  rw [hstay] at hsent
  rw [hhub]
  cases hrow : (s.1.vault.db.getItem id).map (syncItemFromRow b64) with
  | none =>
    have hempty : sent = [] := by
      rw [List.eq_nil_iff_forall_not_mem]
      intro item hitem
      have hsome := (hsent item).1 hitem
      rw [hrow] at hsome
      cases hsome
    rw [hempty]
    rfl
  | some item =>
    refine offerAll_same (List.ne_nil_of_mem ((hsent item).2 hrow)) fun y hy => ?_
    have hsome := (hsent y).1 hy
    rw [hrow, Option.some.injEq] at hsome
    exact hsome.symm

/-- A device without a row takes the directory's item. -/
theorem SyncSpec.behind {s t : Engine × FileBackend} (h : SyncSpec b64 s t) {id : Uuid}
    {item : SyncItem} (hnone : s.1.vault.db.getItem id = none) (hitem : s.2.item id = some item)
    (hbehind : s.1.cursor.parseRevision < s.2.revision) :
    (t.1.vault.db.getItem id).map (syncItemFromRow b64) = some item := by
  obtain ⟨-, pulled, sent, hin, hall, -, hmap, -, -⟩ := h.free id fun w hw => by
    rw [hnone] at hw
    cases hw
  rw [hmap, hnone]
  refine (offerAll_same (List.ne_nil_of_mem (hall hbehind item hitem)) fun y hy => ?_).trans
    (offer_of_lt (WithBot.bot_lt_coe _))
  exact Option.some.inj ((hin y hy).symm.trans hitem)

theorem laterCursor_parse {pushed remote : UInt64} (h : remote ≤ pushed) :
    (laterCursor (.fromRevision pushed) (.fromRevision remote)).parseRevision = pushed := by
  unfold laterCursor
  rw [parseRevision_fromRevision, parseRevision_fromRevision]
  split
  · exact parseRevision_fromRevision pushed
  · rename_i hle
    rw [parseRevision_fromRevision]
    exact UInt64.le_antisymm h (UInt64.not_lt.1 hle)

theorem exchangeItems_spec {s t : Engine × FileBackend} {report : SyncReport}
    (hname : s.2.WellNamed)
    (henc : ∀ id item, s.2.item id = some item → ∃ w, item = syncItemFromRow b64 w)
    (h : (exchangeItems b64 fileBackend).run s = (.ok report, t)) : SyncSpec b64 s t := by
  obtain ⟨items, remoteCursor, b₁, pushCursor, hpull, hrows, -, hpush, hcursor, -⟩ :=
    exchangeItems_eq_ok h
  obtain ⟨hstored, rfl, hnone, hall⟩ := FileBackend.pull_eq_ok hpull
  set outgoing := (syncEligible t.1.vault.db).map (syncItemFromRow b64) with houtgoing
  obtain ⟨done, -, hoff, hrev, hok⟩ := FileBackend.push_spec outgoing b₁
  have hpush' : FileBackend.push outgoing b₁ = (.ok pushCursor, t.2) := hpush
  rw [hpush'] at hoff hrev hok
  obtain ⟨rfl, hpushed, hchange⟩ := hok pushCursor rfl
  dsimp only at hrev hpushed hchange
  replace hoff : FileBackend.Offered s.2 t.2 outgoing := hoff.congr_left hstored
  rw [FileBackend.revision_of_stored hstored] at hrev hchange
  have hpulled : ∀ id, ∀ item ∈ items.filter (fun x => x.id = id), s.2.item id = some item := by
    intro id item hmem
    obtain ⟨hin, hid⟩ := List.mem_filter.1 hmem
    obtain rfl : item.id = id := of_decide_eq_true hid
    by_cases hlt : s.1.cursor.parseRevision < s.2.revision
    · exact (hname.holds_iff item).1 ((hall hlt item).1 hin)
    · rw [hnone (UInt64.not_lt.1 hlt)] at hin
      cases hin
  have hle : s.2.revision ≤ t.2.revision := by
    obtain hrev | hrev := hrev
    · exact UInt64.le_of_eq hrev.symm
    · rw [hrev]
      exact FileBackend.le_saturatingSucc _
  have hencoded : ∀ item ∈ outgoing, ∃ w, item = syncItemFromRow b64 w := by
    intro item hitem
    obtain ⟨w, -, hw⟩ := List.mem_map.1 hitem
    exact ⟨w, hw.symm⟩
  refine ⟨hoff.wellNamed hname, fun id item hitem => ?_, fun id w hw hlocal => ?_,
    fun id hfree => ?_, hle, ?_, ?_⟩
  · rw [hoff.item id] at hitem
    obtain hsame | ⟨y, hy, hres⟩ := offerAll_eq_or SyncItem.stamp (s.2.item id)
      (outgoing.filter fun x => x.id = id)
    · rw [hsame] at hitem
      exact henc id item hitem
    · rw [hres, Option.some.injEq] at hitem
      rw [← hitem]
      exact hencoded y (List.mem_filter.1 hy).1
  · have hrow : t.1.vault.db.getItem id = some w := by
      rw [hrows id, applyAll_withheld hw hlocal, hw]
    refine ⟨hrow, ?_⟩
    have hempty : outgoing.filter (fun x => x.id = id) = [] := by
      rw [List.eq_nil_iff_forall_not_mem]
      intro item hitem
      obtain ⟨v, hv, hfree, -⟩ := mem_outgoing.1 hitem
      rw [hrow, Option.some.injEq] at hv
      rw [← hv, hlocal] at hfree
      cases hfree
    rw [hoff.item id, hempty]
    rfl
  · have hencoded : ∀ item ∈ items.filter fun x => x.id = id,
        ∃ w, item = syncItemFromRow b64 w := fun item hitem =>
      henc id item (hpulled id item hitem)
    obtain ⟨hmap, hlocal⟩ := applyAll_offered hfree hencoded
    rw [← hrows id] at hmap hlocal
    refine ⟨hlocal, items.filter (fun x => x.id = id), outgoing.filter (fun x => x.id = id),
      hpulled id, fun hlt item hitem => ?_, fun hge => ?_, hmap, fun item => ?_, hoff.item id⟩
    · have hid : item.id = id := hname id item hitem
      refine List.mem_filter.2 ⟨(hall hlt item).2 ?_, decide_eq_true hid⟩
      exact (hname.holds_iff item).2 (by rw [hid]; exact hitem)
    · rw [hnone (UInt64.le_trans hle hge)]
      rfl
    · rw [mem_outgoing]
      constructor
      · rintro ⟨w, hw, -, rfl⟩
        rw [hw]
        rfl
      · intro hw
        obtain ⟨w, hget, hitem⟩ := Option.map_eq_some_iff.1 hw
        exact ⟨w, hget, hlocal w hget, hitem.symm⟩
  · obtain ⟨-, hsame⟩ | hbump := hchange
    · refine Or.inl fun id => (hsame id).trans (FileBackend.item_of_stored hstored id)
    · exact Or.inr ⟨s.2.revision, UInt64.le_refl _, hbump⟩
  · rw [hcursor, hpushed]
    exact laterCursor_parse hle

variable (aead) in
theorem syncNow_spec {s t : Engine × FileBackend} {report : SyncReport} (hname : s.2.WellNamed)
    (henc : ∀ id item, s.2.item id = some item → ∃ w, item = syncItemFromRow b64 w)
    (h : (syncNow aead b64 fileBackend).run s = (.ok report, t)) : SyncSpec b64 s t := by
  obtain ⟨r, u, w, hr, hu, hw, hexchange⟩ := syncNow_eq_ok aead h
  have hphase : tracked w = tracked s ∧ w.2.items = s.2.items ∧ s.2.revision ≤ w.2.revision := by
    have h₁ := headers_backend (each_isUnlocked_header fileBackend) s
    have h₂ := headers_backend (each_adoptRemoteRekey_header aead fileBackend) r
    have h₃ := headers_backend (each_publishHeader_header fileBackend) u
    have k₁ := leaves_headers (each_isUnlocked_header fileBackend) s
    have k₂ := leaves_headers (each_adoptRemoteRekey_header aead fileBackend) r
    have k₃ := leaves_headers (each_publishHeader_header fileBackend) u
    rw [hr] at h₁ k₁
    rw [hu] at h₂ k₂
    rw [hw] at h₃ k₃
    exact ⟨k₃.trans (k₂.trans k₁), h₃.1.trans (h₂.1.trans h₁.1),
      UInt64.le_trans h₁.2 (UInt64.le_trans h₂.2 h₃.2)⟩
  obtain ⟨htracked, hitems, hrev⟩ := hphase
  have hitem : ∀ id, w.2.item id = s.2.item id := fun id => by
    rw [FileBackend.item, FileBackend.item, hitems]
  have hrow : ∀ id, w.1.vault.db.getItem id = s.1.vault.db.getItem id := fun id => by
    rw [VaultDb.getItem, VaultDb.getItem,
      show w.1.vault.db.items = s.1.vault.db.items from congrArg Prod.fst htracked]
  have hcursor : w.1.cursor = s.1.cursor := congrArg Prod.snd htracked
  have hspec : SyncSpec b64 w t := by
    refine exchangeItems_spec (fun id item hi => hname id item ?_)
      (fun id item hi => henc id item ?_) hexchange
    · rwa [← hitem id]
    · rwa [← hitem id]
  refine ⟨hspec.wellNamed, hspec.encoded, fun id v hv hl => ?_, fun id hfree => ?_,
    UInt64.le_trans hrev hspec.revision, ?_, hspec.cursor⟩
  · rw [← hrow id] at hv
    rw [← hitem id]
    exact hspec.withheld id v hv hl
  · obtain ⟨hlocal, pulled, sent, hin, hall, hnone, hmap, hsent, hhub⟩ :=
      hspec.free id fun v hv => hfree v (by rwa [← hrow id])
    refine ⟨hlocal, pulled, sent, fun item hp => ?_, fun hlt item hi => ?_, ?_, ?_, hsent, ?_⟩
    · rw [← hitem id]
      exact hin item hp
    · rw [hcursor] at hall
      exact hall (UInt64.lt_of_lt_of_le hlt hrev) item (by rwa [hitem id])
    · rwa [hcursor] at hnone
    · rw [← hrow id]
      exact hmap
    · rw [← hitem id]
      exact hhub
  · obtain hsame | ⟨q, hq, hbump⟩ := hspec.bumped
    · exact Or.inl fun id => (hsame id).trans (hitem id)
    · exact Or.inr ⟨q, UInt64.le_trans hrev hq, hbump⟩

end Syncing

section Steps
variable {D : Type} [DecidableEq D] {aead : Aead KeyBytes} {b64 : Base64} {x : Fleet D} {d : D}

theorem Sound.setVault (hx : Sound b64 x) (vault : Vault) : Sound b64 (setVault x d vault) :=
  ⟨hx.wellNamed, hx.encoded⟩

theorem row_setVault_self (x : Fleet D) (d : D) (vault : Vault) (id : Uuid) :
    row (setVault x d vault) d id = vault.db.getItem id := by
  simp [row, SyncFleets.setVault]

theorem row_setVault_of_ne (x : Fleet D) {d e : D} (h : e ≠ d) (vault : Vault) (id : Uuid) :
    row (setVault x d vault) e id = row x e id := by
  simp [row, SyncFleets.setVault, h]

theorem cursor_setVault (x : Fleet D) (d e : D) (vault : Vault) :
    ((setVault x d vault).devices e).cursor = (x.devices e).cursor := by
  by_cases h : e = d
  · subst h
    simp [SyncFleets.setVault]
  · simp [SyncFleets.setVault, h]

/-- A device's vault may change where the rows of an identifier do not. -/
theorem net_setVault {vault : Vault} {id : Uuid} (h : vault.db.getItem id = row x d id) :
    net b64 (setVault x d vault) id = net b64 x id := by
  have hrow : ∀ e, row (SyncFleets.setVault x d vault) e id = row x e id := by
    intro e
    by_cases he : e = d
    · rw [he, row_setVault_self, h]
    · exact row_setVault_of_ne x he vault id
  unfold net
  simp only [hrow, cursor_setVault]
  rfl

omit [DecidableEq D] in
/-- A version that has not reached the last one has a next. -/
theorem next_version {id : Uuid} {old w : ItemRow} (hlt : old.version.toNat + 1 < 2 ^ 64)
    (hold : row x d id = some old) (hversion : w.version = old.version + 1) :
    w.version.toNat = versionOf (row x d id) + 1 := by
  rw [hold, hversion, UInt64.toNat_add]
  change (old.version.toNat + 1) % 2 ^ 64 = old.version.toNat + 1
  exact Nat.mod_eq_of_lt hlt

theorem rowStamp_lt {r : Option ItemRow} {w : ItemRow}
    (h : w.version.toNat = versionOf r + 1) : rank rowStamp r < (rowStamp w : WithBot Stamp) := by
  cases r with
  | none => exact WithBot.bot_lt_coe _
  | some v =>
    rw [rank_some, WithBot.coe_lt_coe, rowStamp, rowStamp, stampOf_lt, UInt64.lt_iff_toNat_lt]
    change w.version.toNat = v.version.toNat + 1 at h
    omega

theorem rank_syncItemFromRow (b64 : Base64) (r : Option ItemRow) :
    rank SyncItem.stamp (r.map (syncItemFromRow b64)) = rank rowStamp r := by
  cases r <;> rfl

theorem wrote {w : ItemRow} {vault : Vault} (h : Allowed aead b64 x (.write d w vault)) :
    Wrote SyncItem.stamp d (syncItemFromRow b64 w) (w.localOnly = true) (net b64 x w.id)
      (net b64 (setVault x d vault) w.id) := by
  obtain ⟨hversion, hitems⟩ := h
  have hrow : vault.db.getItem w.id = some w := by
    rw [hitems, VaultDb.getItem_upsertItem, if_pos rfl]
  refine ⟨⟨fun e he => ?_, fun e he => ?_, fun e _ => ?_⟩, ?_, ?_, ?_, rfl, rfl, ?_⟩
  · simp only [net, row_setVault_of_ne x he]
  · simp only [net, row_setVault_of_ne x he]
  · simp only [net, cursor_setVault]
  · simp only [net, row_setVault_self, hrow, Option.map_some]
  · rw [stamp_syncItemFromRow]
    exact (rank_syncItemFromRow b64 _).trans_lt (rowStamp_lt hversion)
  · simp only [net, row_setVault_self, hrow, Option.some.injEq, exists_eq_left']
  · simp only [net, cursor_setVault]

theorem net_write_of_ne {w : ItemRow} {vault : Vault} (h : Allowed aead b64 x (.write d w vault))
    {id : Uuid} (hid : id ≠ w.id) : net b64 (setVault x d vault) id = net b64 x id := by
  refine net_setVault ?_
  rw [h.2, VaultDb.getItem_upsertItem, if_neg hid, row]

theorem SyncSpec.synced {y : Fleet D} {t : Engine × FileBackend}
    (h : SyncSpec b64 (x.devices d, x.backend) t)
    (hy : y = ⟨Function.update x.devices d t.1, t.2⟩) (hbelow : t.2.revision.toNat < 2 ^ 64 - 1)
    (id : Uuid) : Synced SyncItem.stamp d (net b64 x id) (net b64 y id) := by
  subst hy
  have hself : row ⟨Function.update x.devices d t.1, t.2⟩ d id = t.1.vault.db.getItem id := by
    simp [row]
  have hcursor : ((Function.update x.devices d t.1) d).cursor.parseRevision = t.2.revision := by
    rw [Function.update_self, h.cursor]
  have hother : ∀ e, e ≠ d →
      row (⟨Function.update x.devices d t.1, t.2⟩ : Fleet D) e id = row x e id := by
    intro e he
    simp [row, he]
  have hfree : ¬ (net b64 x id).withheld d →
      ∀ w, row x d id = some w → w.localOnly = false := by
    intro hw w hget
    by_contra hlocal
    exact hw ⟨w, hget, by simpa using hlocal⟩
  refine ⟨⟨fun e he => ?_, fun e he => ?_, fun e he => ?_⟩, ?_, ?_, fun hw => ?_, fun hw => ?_, ?_,
    fun hne => ?_, ?_⟩
  · simp only [net, hother e he]
  · simp only [net, hother e he]
  · simp only [net, Function.update_of_ne he]
  · simp only [net, hself]
    by_cases hw : (net b64 x id).withheld d
    · obtain ⟨w, hget, hlocal⟩ := hw
      have hkeep := (h.withheld id w hget hlocal).1
      exact ⟨fun _ => ⟨w, hget, hlocal⟩, fun _ => ⟨w, hkeep, hlocal⟩⟩
    · refine ⟨fun ⟨w, hget, hlocal⟩ => ?_, fun hin => absurd hin hw⟩
      rw [(h.free id (hfree hw)).1 w hget] at hlocal
      cases hlocal
  · rintro ⟨w, hget, hlocal⟩
    obtain ⟨hkeep, hhub⟩ := h.withheld id w hget hlocal
    refine ⟨?_, hhub⟩
    simp only [net, hself, hkeep, hget]
  · obtain ⟨-, pulled, sent, hin, hall, -, hmap, -, -⟩ := h.free id (hfree hw)
    have hrep : (net b64 ⟨Function.update x.devices d t.1, t.2⟩ id).replica d =
        offerAll SyncItem.stamp ((net b64 x id).replica d) pulled := by
      simp only [net, hself]
      exact hmap
    rw [hrep]
    refine ⟨?_, rank_le_offerAll _ _, fun hlt => ?_⟩
    · obtain hsame | ⟨y, hy, hres⟩ := offerAll_eq_or SyncItem.stamp ((net b64 x id).replica d) pulled
      · exact Or.inl hsame
      · exact Or.inr (hres.trans (hin y hy).symm)
    · cases hhub : (net b64 x id).hub with
      | none => exact bot_le
      | some item => exact stamp_le_offerAll (hall (UInt64.lt_iff_toNat_lt.2 hlt) item hhub)
  · obtain ⟨-, pulled, sent, -, -, -, -, hsent, hhub⟩ := h.free id (hfree hw)
    have hrep : (net b64 ⟨Function.update x.devices d t.1, t.2⟩ id).replica d =
        (t.1.vault.db.getItem id).map (syncItemFromRow b64) := by
      simp only [net, hself]
    have hnew : (net b64 ⟨Function.update x.devices d t.1, t.2⟩ id).hub =
        offerAll SyncItem.stamp ((net b64 x id).hub) sent := hhub
    rw [hrep, hnew]
    refine ⟨?_, rank_le_offerAll _ _, ?_⟩
    · obtain hsame | ⟨y, hy, hres⟩ := offerAll_eq_or SyncItem.stamp ((net b64 x id).hub) sent
      · exact Or.inl hsame
      · exact Or.inr (hres.trans ((hsent y).1 hy).symm)
    · cases hget : (t.1.vault.db.getItem id).map (syncItemFromRow b64) with
      | none => exact bot_le
      | some item => exact stamp_le_offerAll ((hsent item).2 hget)
  · exact UInt64.le_iff_toNat_le.1 h.revision
  · change x.backend.revision.toNat < t.2.revision.toNat
    obtain hsame | ⟨r, hr, hbump⟩ := h.bumped
    · exact absurd (hsame id) hne
    · have hle := UInt64.le_iff_toNat_le.1 hr
      rw [hbump, FileBackend.toNat_saturatingSucc] at hbelow ⊢
      change x.backend.revision.toNat ≤ r.toNat at hle
      omega
  · change ((Function.update x.devices d t.1) d).cursor.parseRevision.toNat = t.2.revision.toNat
    rw [hcursor]

omit [DecidableEq D] in
theorem sync_spec (hx : Sound b64 x) (h : Allowed aead b64 x (.sync d)) :
    SyncSpec b64 (x.devices d, x.backend) (syncOutcome aead b64 x d).2 := by
  obtain ⟨report, hreport⟩ := h
  exact syncNow_spec aead hx.wellNamed hx.encoded (Prod.ext hreport rfl)

theorem Sound.perform (hx : Sound b64 x) {step : Step D} (h : Allowed aead b64 x step) :
    Sound b64 (perform aead b64 x step) := by
  cases step with
  | write e w vault => exact hx.setVault vault
  | other e vault => exact hx.setVault vault
  | sync e =>
    have hspec := sync_spec hx h
    exact ⟨hspec.wellNamed, hspec.encoded⟩

theorem perform_synced (hx : Sound b64 x) (h : Allowed aead b64 x (.sync d))
    (hbelow : Below aead b64 x (.sync d)) (id : Uuid) :
    Synced SyncItem.stamp d (net b64 x id) (net b64 (perform aead b64 x (.sync d)) id) :=
  (sync_spec hx h).synced rfl hbelow id

end Steps

section Histories
variable {D : Type} [DecidableEq D] {aead : Aead KeyBytes} {b64 : Base64} {x₀ : Fleet D}

/-- The items of the writes under `id` that were not kept to their device. -/
def Shared (b64 : Base64) (steps : List (Step D)) (id : Uuid) (item : SyncItem) : Prop :=
  ∃ w ∈ written steps, w.id = id ∧ w.localOnly = false ∧ item = syncItemFromRow b64 w

/-- A write that gives up `local_only` is not beaten by the directory's item, or the device
has yet to pull the directory's revision. -/
def RejoinsLate (id : Uuid) (x : Fleet D) : Step D → Prop
  | .write d w _ => w.id = id → w.localOnly = false →
      (∃ old, row x d id = some old ∧ old.localOnly = true) →
      (∀ item, x.backend.item id = some item → item.stamp ≤ rowStamp w) ∨
        (x.devices d).cursor.parseRevision < x.backend.revision
  | _ => True

omit [DecidableEq D] in
theorem written_append (steps more : List (Step D)) :
    written (steps ++ more) = written steps ++ written more :=
  List.filterMap_append

omit [DecidableEq D] in
theorem Fresh.sound (h : Fresh x₀) : Sound b64 x₀ := by
  have hitem : ∀ id, x₀.backend.item id = none := fun id => by
    rw [FileBackend.item, h.items]
    rfl
  refine ⟨fun id item hi => ?_, fun id item hi => ?_⟩
  · rw [hitem id] at hi
    cases hi
  · rw [hitem id] at hi
    cases hi

omit [DecidableEq D] in
theorem Fresh.tracked (h : Fresh x₀) (id : Uuid) :
    Tracked SyncItem.stamp (Shared b64 ([] : List (Step D)) id) (net b64 x₀ id) := by
  have hhub : (net b64 x₀ id).hub = none := by
    change x₀.backend.item id = none
    rw [FileBackend.item, h.items]
    rfl
  have hrow : ∀ d, row x₀ d id = none := fun d => by
    rw [row, VaultDb.getItem, h.rows d]
    rfl
  refine ⟨fun a ha => ?_, fun d a ha => ?_, fun a ha => ?_, fun d => ?_, fun d _ _ => ?_⟩
  · rw [hhub] at ha
    cases ha
  · simp only [net, hrow d] at ha
    cases ha
  · obtain ⟨w, hw, -⟩ := ha
    cases hw
  · simp only [net, h.cursors d, parseRevision_default]
    exact Nat.zero_le _
  · rw [hhub]
    exact bot_le

theorem sound_run (h₀ : Fresh x₀) {steps : List (Step D)}
    (h : Along aead b64 (Allowed aead b64) x₀ steps) : Sound b64 (run aead b64 x₀ steps) := by
  induction steps using List.reverseRecOn with
  | nil => exact h₀.sound
  | append_singleton steps step ih =>
    obtain ⟨hsteps, hstep, -⟩ := along_append.1 h
    rw [run_append]
    exact (ih hsteps).perform hstep

/-- What the devices and the directory hold under `id` is tracked through every run. -/
theorem tracked_run (h₀ : Fresh x₀) {steps : List (Step D)} {id : Uuid}
    (h : Along aead b64 (Allowed aead b64) x₀ steps)
    (hbelow : Along aead b64 (Below aead b64) x₀ steps)
    (hrejoins : Along aead b64 (RejoinsLate id) x₀ steps) :
    Tracked SyncItem.stamp (Shared b64 steps id) (net b64 (run aead b64 x₀ steps) id) := by
  induction steps using List.reverseRecOn with
  | nil => exact h₀.tracked id
  | append_singleton steps step ih =>
    obtain ⟨hsteps, hstep, -⟩ := along_append.1 h
    obtain ⟨hbsteps, hbstep, -⟩ := along_append.1 hbelow
    obtain ⟨hrsteps, hrstep, -⟩ := along_append.1 hrejoins
    have hx := ih hsteps hbsteps hrsteps
    have hsound := sound_run h₀ hsteps
    rw [run_append]
    set x := run aead b64 x₀ steps with hxdef
    change Tracked _ _ (net b64 (perform aead b64 x step) id)
    cases step with
    | other d vault =>
      have hnet : net b64 (setVault x d vault) id = net b64 x id :=
        net_setVault (hstep id)
      change Tracked _ _ (net b64 (setVault x d vault) id)
      rw [hnet]
      refine hx.mono fun a => ?_
      simp [Shared, written]
    | sync d =>
      refine (hx.synced (perform_synced hsound hstep hbstep id)).mono fun a => ?_
      simp [Shared, written]
    | write d w vault =>
      change Tracked _ _ (net b64 (setVault x d vault) id)
      have hshared : ∀ a, Shared b64 (steps ++ [.write d w vault]) id a ↔
          Shared b64 steps id a ∨ w.id = id ∧ w.localOnly = false ∧ a = syncItemFromRow b64 w := by
        intro a
        rw [Shared, written_append]
        constructor
        · rintro ⟨v, hv, hrest⟩
          obtain hv | hv := List.mem_append.1 hv
          · exact Or.inl ⟨v, hv, hrest⟩
          · obtain rfl : v = w := by simpa [written] using hv
            exact Or.inr hrest
        · rintro (⟨v, hv, hrest⟩ | hrest)
          · exact ⟨v, List.mem_append_left _ hv, hrest⟩
          · exact ⟨w, List.mem_append_right _ (by simp [written]), hrest⟩
      by_cases hid : w.id = id
      · subst hid
        have hrejoin : Rejoins SyncItem.stamp d (syncItemFromRow b64 w) (w.localOnly = true)
            (net b64 x w.id) := by
          intro hw hs
          obtain hle | hlt := hrstep rfl (by simpa using hs) hw
          · refine Or.inl ?_
            cases hhub : (net b64 x w.id).hub with
            | none => exact bot_le
            | some item => exact WithBot.coe_le_coe.2 (hle item hhub)
          · exact Or.inr (UInt64.lt_iff_toNat_lt.1 hlt)
        refine (hx.wrote (wrote hstep) hrejoin).mono fun a => ?_
        rw [hshared]
        simp [and_comm]
      · rw [net_write_of_ne hstep (Ne.symm hid)]
        refine hx.mono fun a => ?_
        rw [hshared]
        simp [hid]

theorem round_run {x : Fleet D} (hx : Sound b64 x) {ds : List D} (id : Uuid)
    (h : Along aead b64 (Allowed aead b64) x (ds.map .sync))
    (hbelow : Along aead b64 (Below aead b64) x (ds.map .sync)) :
    Round SyncItem.stamp ds (net b64 x id) (net b64 (run aead b64 x (ds.map .sync)) id) := by
  induction ds generalizing x with
  | nil => exact Round.nil _
  | cons d ds ih =>
    exact Round.cons (perform_synced hx h.1 hbelow.1 id) (ih (hx.perform h.1) h.2 hbelow.2)

/-- No two writes of one identifier carry one stamp. -/
def Distinct (steps : List (Step D)) : Prop :=
  ((written steps).map fun w => (w.id, rowStamp w)).Nodup

/-- Under `id` every device and the directory hold the latest of the shared writes. -/
def Agreed (b64 : Base64) (steps : List (Step D)) (id : Uuid) (x : Fleet D) : Prop :=
  ∃ r, IsLatest rowStamp (fun w => w ∈ written steps ∧ w.id = id ∧ w.localOnly = false) r ∧
    (∀ d, row x d id = r) ∧ x.backend.item id = r.map (syncItemFromRow b64)

omit [DecidableEq D] in
theorem Distinct.shared_inj {steps : List (Step D)} (h : Distinct steps) {id : Uuid}
    {a b : SyncItem} (ha : Shared b64 steps id a) (hb : Shared b64 steps id b)
    (hab : a.stamp = b.stamp) : a = b := by
  obtain ⟨v, hv, hvid, -, rfl⟩ := ha
  obtain ⟨w, hw, hwid, -, rfl⟩ := hb
  have hvw : v = w := by
    refine List.inj_on_of_nodup_map h hv hw (Prod.ext (hvid.trans hwid.symm) ?_)
    exact hab
  rw [hvw]

omit [DecidableEq D] in
/-- Registers that agree under the projection are rows that agree. -/
theorem agreed_of_latest {steps : List (Step D)} {id : Uuid} {x : Fleet D}
    (hlatest : IsLatest SyncItem.stamp (Shared b64 steps id) (net b64 x id).hub)
    (hreplica : ∀ d, (net b64 x id).replica d = (net b64 x id).hub)
    (hfree : ∀ d w, row x d id = some w → w.localOnly = false) : Agreed b64 steps id x := by
  have hshared : ∀ w, w ∈ written steps → w.id = id → w.localOnly = false →
      (rowStamp w : WithBot Stamp) ≤ rank SyncItem.stamp (net b64 x id).hub :=
    fun w hw hid hlocal => hlatest.2 _ ⟨w, hw, hid, hlocal, rfl⟩
  cases hhub : (net b64 x id).hub with
  | none =>
    rw [hhub] at hreplica hshared
    refine ⟨none, ⟨fun w hw => (by cases hw), fun w hw => hshared w hw.1 hw.2.1 hw.2.2⟩,
      fun d => ?_, hhub⟩
    exact Option.map_eq_none_iff.1 (hreplica d)
  | some item =>
    rw [hhub] at hreplica hshared
    obtain ⟨w, hw, hid, hlocal, rfl⟩ := hlatest.1 item hhub
    refine ⟨some w, ⟨fun v hv => ?_, fun v hv => hshared v hv.1 hv.2.1 hv.2.2⟩, fun d => ?_, hhub⟩
    · cases hv
      exact ⟨hw, hid, hlocal⟩
    · refine eq_of_map_syncItemFromRow (hreplica d) (hfree d) fun v hv => ?_
      cases hv
      exact hlocal

/-- The run ends with two rounds of syncs over all devices. -/
theorem agreed_run (h₀ : Fresh x₀) {steps : List (Step D)} {first second : List D} {id : Uuid}
    (hfirst : ∀ d, d ∈ first) (hsecond : ∀ d, d ∈ second)
    (h : Along aead b64 (Allowed aead b64) x₀ (steps ++ (first ++ second).map .sync))
    (hbelow : Along aead b64 (Below aead b64) x₀ (steps ++ (first ++ second).map .sync))
    (hrejoins : Along aead b64 (RejoinsLate id) x₀ steps) (hdistinct : Distinct steps)
    (hshared : ∀ d w, row (run aead b64 x₀ steps) d id = some w → w.localOnly = false) :
    Agreed b64 steps id (run aead b64 x₀ (steps ++ (first ++ second).map .sync)) := by
  rw [List.map_append] at h hbelow ⊢
  obtain ⟨hsteps, hrest⟩ := along_append.1 h
  obtain ⟨hbsteps, hbrest⟩ := along_append.1 hbelow
  obtain ⟨hone, htwo⟩ := along_append.1 hrest
  obtain ⟨hbone, hbtwo⟩ := along_append.1 hbrest
  rw [run_append, run_append]
  set x := run aead b64 x₀ steps
  set y := run aead b64 x (first.map .sync) with hy
  have hx : Tracked SyncItem.stamp (Shared b64 steps id) (net b64 x id) :=
    tracked_run h₀ hsteps hbsteps hrejoins
  have hsoundx : Sound b64 x := sound_run h₀ hsteps
  have hsoundy : Sound b64 y := by
    rw [hy, ← run_append]
    exact sound_run h₀ (along_append.2 ⟨hsteps, hone⟩)
  have hround₁ : Round SyncItem.stamp first (net b64 x id) (net b64 y id) :=
    round_run hsoundx id hone hbone
  have hround₂ := round_run hsoundy id htwo hbtwo
  have hfree : ∀ d, ¬ (net b64 x id).withheld d := by
    rintro d ⟨w, hw, hlocal⟩
    rw [hshared d w hw] at hlocal
    cases hlocal
  obtain ⟨hlatest, hreplica⟩ := hround₁.converges hround₂ hx hfree hfirst hsecond
    fun a b ha hb => hdistinct.shared_inj ha hb
  refine agreed_of_latest hlatest hreplica fun d w hw => ?_
  by_contra hlocal
  refine hfree d ((hround₁.withheld_iff d).1 ((hround₂.withheld_iff d).1 ⟨w, hw, ?_⟩))
  simpa using hlocal

end Histories
end Tethra.SyncFleets
