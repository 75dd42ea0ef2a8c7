import Tethra.StatefulActions
import Tethra.SyncItems

set_option autoImplicit false

/-!
# Sync backends, and the one that keeps a directory

The directory is a table of item files by name, a manifest and a header. A file holds what
its text parses to, or the parser's message. Every file-system call may fail.
-/
namespace Tethra.SyncFileBackend
open KeyedTables StampedRegisters StatefulActions SyncItems VaultTypes
open StatefulActions.Action (fail read update)

/-- The methods of the trait `SyncBackend`. -/
structure SyncBackend (β : Type) where
  pull : SyncCursor → Action β Error (List SyncItem × SyncCursor)
  push : List SyncItem → Action β Error SyncCursor
  getHeader : Action β Error (Option SyncedVaultHeader)
  putHeader : SyncedVaultHeader → Action β Error Unit

abbrev Json (α : Type) := Except String α

def FORMAT_VERSION : UInt32 := 1

structure Manifest where
  formatVersion : UInt32
  revision : UInt64
  deriving DecidableEq

/-- `Manifest::default`. -/
def Manifest.default : Manifest := ⟨FORMAT_VERSION, 0⟩

structure ItemFile where
  name : Uuid
  content : Json SyncItem

/-- The order in which a directory lists its entries. -/
structure Listing where
  order : List ItemFile → List ItemFile
  perm : ∀ entries, (order entries).Perm entries

theorem perm_id (entries : List ItemFile) : (id entries).Perm entries := .rfl

def Listing.asStored : Listing := ⟨id, perm_id⟩

structure FileBackend where
  manifest : Option (Json Manifest)
  header : Option (Json SyncedVaultHeader)
  items : Table ItemFile Uuid ItemFile.name
  calls : ℕ
  faultAt : ℕ → Option String
  listingAt : ℕ → Listing

abbrev FileM (α : Type) := Action FileBackend Error α

/-- `u64::saturating_add(1)`. -/
def saturatingSucc (revision : UInt64) : UInt64 :=
  if revision.toNat + 1 < 2 ^ 64 then revision + 1 else revision

def Manifest.bump (manifest : Manifest) : Manifest :=
  { manifest with revision := saturatingSucc manifest.revision }

namespace FileBackend

/-- One call of the file system, which may fail. -/
def io : FileM Unit := fun f =>
  match f.faultAt f.calls with
  | some message => (.error (.io message), { f with calls := f.calls + 1 })
  | none => (.ok (), { f with calls := f.calls + 1 })

/-- The file is complete or untouched. -/
def atomicWriteJson (write : FileBackend → FileBackend) : FileM Unit := do
  io
  update write

def writeManifest (manifest : Manifest) : FileM Unit :=
  atomicWriteJson fun f => { f with manifest := some (.ok manifest) }

def ensureLayout : FileM Unit := do
  io
  match ← read FileBackend.manifest with
  | some _ => pure ()
  | none => writeManifest .default

def readManifest : FileM Manifest := do
  match ← read FileBackend.manifest with
  | none => pure .default
  | some content => do
    io
    match content with
    | .ok manifest => pure manifest
    | .error e => fail (.other ("sync manifest: " ++ e))

/-- Unreadable items are skipped. -/
def readEntries : List ItemFile → FileM (List SyncItem)
  | [] => pure []
  | entry :: entries => do
    io
    let out ← readEntries entries
    match entry.content with
    | .ok item => pure (item :: out)
    | .error _ => pure out

def readAllItems : FileM (List SyncItem) := do
  let entries ← read fun f => (f.listingAt f.calls).order f.items.rows
  io
  readEntries entries

def pull (since : SyncCursor) : FileM (List SyncItem × SyncCursor) := do
  ensureLayout
  let manifest ← readManifest
  let items ← (if since.parseRevision ≥ manifest.revision then pure [] else readAllItems)
  pure (items, SyncCursor.fromRevision manifest.revision)

/-- Whether `incoming` replaces what is stored under its id. -/
def isWinner (incoming : SyncItem) : FileM Bool := do
  match ← read fun f => f.items.get incoming.id with
  | none => pure true
  | some file => do
    io
    match file.content with
    | .ok existing => pure (itemWinsOver incoming existing)
    | .error e => fail (.other ("sync item " ++ incoming.id.display ++ ": " ++ e))

/-- The loop of `push`. -/
def pushItems : Bool → List SyncItem → FileM Bool
  | changed, [] => pure changed
  | changed, incoming :: items => do
    if ← isWinner incoming then
      atomicWriteJson fun f => { f with items := f.items.put ⟨incoming.id, .ok incoming⟩ }
      pushItems true items
    else pushItems changed items

/-- The end of `push` and `put_header`. -/
def bumpRevision : FileM Manifest := do
  let manifest ← readManifest
  writeManifest manifest.bump
  pure manifest.bump

def push (items : List SyncItem) : FileM SyncCursor := do
  ensureLayout
  if items.isEmpty then do
    let manifest ← readManifest
    pure (SyncCursor.fromRevision manifest.revision)
  else do
    let changed ← pushItems false items
    let manifest ← (if changed then bumpRevision else readManifest)
    pure (SyncCursor.fromRevision manifest.revision)

def getHeader : FileM (Option SyncedVaultHeader) := do
  ensureLayout
  match ← read FileBackend.header with
  | none => pure none
  | some content => do
    io
    match content with
    | .ok header => pure (some header)
    | .error e => fail (.other ("sync vault header: " ++ e))

def putHeader (header : SyncedVaultHeader) : FileM Unit := do
  ensureLayout
  atomicWriteJson fun f => { f with header := some (.ok header) }
  let _ ← bumpRevision

/-! ## What the directory says -/

def item (f : FileBackend) (id : Uuid) : Option SyncItem :=
  match f.items.get id with
  | some ⟨_, .ok x⟩ => some x
  | _ => none

def revision (f : FileBackend) : UInt64 :=
  match f.manifest with
  | some (.ok manifest) => manifest.revision
  | _ => 0

def stored (f : FileBackend) :
    Option (Json SyncedVaultHeader) × Table ItemFile Uuid ItemFile.name × UInt64 :=
  (f.header, f.items, f.revision)

theorem header_of_stored {f g : FileBackend} (h : g.stored = f.stored) : g.header = f.header :=
  congrArg Prod.fst h

theorem items_of_stored {f g : FileBackend} (h : g.stored = f.stored) : g.items = f.items :=
  congrArg (fun s => s.2.1) h

theorem revision_of_stored {f g : FileBackend} (h : g.stored = f.stored) :
    g.revision = f.revision :=
  congrArg (fun s => s.2.2) h

theorem item_of_stored {f g : FileBackend} (h : g.stored = f.stored) (id : Uuid) :
    g.item id = f.item id := by
  rw [item, item, items_of_stored h]

theorem item_eq_some {f : FileBackend} {id : Uuid} {x : SyncItem} :
    f.item id = some x ↔ f.items.get id = some ⟨id, .ok x⟩ := by
  unfold item
  constructor
  · intro h
    split at h
    · rename_i name y hy
      cases h
      rw [hy, show name = id from Table.get_key hy]
    · cases h
  · intro h
    rw [h]

/-- The items of the directory, whatever the names of their files. -/
def Holds (f : FileBackend) (x : SyncItem) : Prop := ∃ file ∈ f.items.rows, file.content = .ok x

theorem holds_of_item {f : FileBackend} {id : Uuid} {x : SyncItem} (h : f.item id = some x) :
    f.Holds x :=
  ⟨⟨id, .ok x⟩, (Table.mem_rows_iff f.items ⟨id, .ok x⟩).2 (item_eq_some.1 h), rfl⟩

/-- Every readable item stands in the file named after it. -/
def WellNamed (f : FileBackend) : Prop := ∀ id x, f.item id = some x → x.id = id

theorem WellNamed.holds_iff {f : FileBackend} (hf : f.WellNamed) (x : SyncItem) :
    f.Holds x ↔ f.item x.id = some x := by
  constructor
  · rintro ⟨⟨name, content⟩, hfile, hx⟩
    rw [show content = .ok x from hx] at hfile
    have hi : f.item name = some x := item_eq_some.2 ((Table.mem_rows_iff f.items _).1 hfile)
    rwa [hf name x hi]
  · exact holds_of_item

section Reads

theorem leaves_io : io.Leaves stored := by
  intro f
  unfold io
  cases f.faultAt f.calls <;> rfl

theorem leaves_ensureLayout : ensureLayout.Leaves stored := by
  refine leaves_io.bind fun _ f => ?_
  change ((match f.manifest with
    | some _ => pure ()
    | none => writeManifest .default : FileM Unit) f).2.stored = f.stored
  cases hm : f.manifest with
  | some m => rfl
  | none =>
    change ((io >>= fun _ => update _) f).2.stored = f.stored
    have hio := leaves_io f
    rcases he : io f with ⟨r, g⟩
    rw [he] at hio
    cases r with
    | error e => rw [Action.bind_error he]; exact hio
    | ok u =>
      have hg : g.stored = f.stored := hio
      have hrev : f.revision = 0 := by rw [revision, hm]
      rw [Action.bind_ok he]
      exact Prod.ext (show g.header = f.header from header_of_stored hg)
        (Prod.ext (show g.items = f.items from items_of_stored hg) hrev.symm)

theorem leaves_readManifest : readManifest.Leaves stored := by
  refine (Action.Leaves.read _).bind fun m => ?_
  cases m with
  | none => exact Action.Leaves.pure _
  | some content =>
    refine leaves_io.bind fun _ => ?_
    cases content with
    | ok manifest => exact Action.Leaves.pure _
    | error e => exact Action.Leaves.fail _

theorem readManifest_eq_ok {f g : FileBackend} {manifest : Manifest}
    (h : readManifest f = (.ok manifest, g)) :
    manifest.revision = f.revision ∧ g.stored = f.stored := by
  refine ⟨?_, leaves_readManifest.after h⟩
  unfold readManifest at h
  obtain ⟨m, t, hread, h⟩ := Action.bind_eq_ok.1 h
  obtain ⟨hm, rfl⟩ := Action.read_eq_ok.1 hread
  unfold revision
  rw [hm]
  cases m with
  | none =>
    obtain ⟨rfl, -⟩ := Action.pure_eq_ok.1 h
    rfl
  | some content =>
    obtain ⟨u, w, -, h⟩ := Action.bind_eq_ok.1 h
    cases content with
    | ok m' =>
      obtain ⟨rfl, -⟩ := Action.pure_eq_ok.1 h
      rfl
    | error e => exact (Action.fail_eq_ok.1 h).elim

theorem leaves_readEntries (entries : List ItemFile) : (readEntries entries).Leaves stored := by
  induction entries with
  | nil => exact Action.Leaves.pure _
  | cons entry entries ih =>
    refine leaves_io.bind fun _ => ih.bind fun out => ?_
    cases entry.content with
    | ok x => exact Action.Leaves.pure _
    | error e => exact Action.Leaves.pure _

theorem readEntries_eq_ok {entries : List ItemFile} {f g : FileBackend} {out : List SyncItem}
    (h : readEntries entries f = (.ok out, g)) (x : SyncItem) :
    x ∈ out ↔ ∃ file ∈ entries, file.content = .ok x := by
  induction entries generalizing f g out with
  | nil =>
    obtain ⟨rfl, -⟩ := Action.pure_eq_ok.1 h
    simp
  | cons entry entries ih =>
    obtain ⟨_, t, -, h⟩ := Action.bind_eq_ok.1 h
    obtain ⟨rest, u, hrest, h⟩ := Action.bind_eq_ok.1 h
    have hmem := ih hrest
    cases hc : entry.content with
    | ok y =>
      rw [hc] at h
      obtain ⟨rfl, -⟩ := Action.pure_eq_ok.1 h
      simp only [List.mem_cons, hmem, exists_eq_or_imp, hc, Except.ok.injEq]
      exact or_congr_left eq_comm
    | error e =>
      rw [hc] at h
      obtain ⟨rfl, -⟩ := Action.pure_eq_ok.1 h
      simp [hmem, hc]

theorem leaves_readAllItems : readAllItems.Leaves stored :=
  (Action.Leaves.read _).bind fun _ => leaves_io.bind fun _ => leaves_readEntries _

theorem readAllItems_eq_ok {f g : FileBackend} {out : List SyncItem}
    (h : readAllItems f = (.ok out, g)) (x : SyncItem) : x ∈ out ↔ f.Holds x := by
  obtain ⟨entries, t, he, h⟩ := Action.bind_eq_ok.1 h
  obtain ⟨rfl, rfl⟩ := Action.read_eq_ok.1 he
  obtain ⟨_, u, -, h⟩ := Action.bind_eq_ok.1 h
  rw [readEntries_eq_ok h, Holds]
  have hperm := (f.listingAt f.calls).perm f.items.rows
  constructor
  · rintro ⟨file, hfile, hx⟩
    exact ⟨file, hperm.mem_iff.1 hfile, hx⟩
  · rintro ⟨file, hfile, hx⟩
    exact ⟨file, hperm.mem_iff.2 hfile, hx⟩

theorem leaves_pull (since : SyncCursor) : (pull since).Leaves stored := by
  refine leaves_ensureLayout.bind fun _ => leaves_readManifest.bind fun manifest => ?_
  refine Action.Leaves.bind ?_ fun _ => Action.Leaves.pure _
  by_cases h : since.parseRevision ≥ manifest.revision
  · rw [if_pos h]; exact Action.Leaves.pure _
  · rw [if_neg h]; exact leaves_readAllItems

/-- A pull returns every item of the directory, or nothing when the cursor is at the revision. -/
theorem pull_eq_ok {since cursor : SyncCursor} {items : List SyncItem} {f g : FileBackend}
    (h : pull since f = (.ok (items, cursor), g)) :
    g.stored = f.stored ∧ cursor = SyncCursor.fromRevision f.revision ∧
      (since.parseRevision ≥ f.revision → items = []) ∧
      (since.parseRevision < f.revision → ∀ x, x ∈ items ↔ f.Holds x) := by
  refine ⟨(leaves_pull since).after h, ?_⟩
  unfold pull at h
  obtain ⟨_, t, ht, h⟩ := Action.bind_eq_ok.1 h
  have htf := leaves_ensureLayout.after ht
  obtain ⟨manifest, u, hu, h⟩ := Action.bind_eq_ok.1 h
  obtain ⟨hrev, hut⟩ := readManifest_eq_ok hu
  rw [revision_of_stored htf] at hrev
  obtain ⟨out, w, hout, h⟩ := Action.bind_eq_ok.1 h
  obtain ⟨he, -⟩ := Action.pure_eq_ok.1 h
  rw [Prod.mk.injEq] at he
  obtain ⟨rfl, rfl⟩ := he
  rw [hrev] at hout ⊢
  refine ⟨rfl, ?_, ?_⟩
  · intro hge
    rw [if_pos hge] at hout
    exact (Action.pure_eq_ok.1 hout).1.symm
  · intro hlt x
    rw [if_neg (show ¬ since.parseRevision ≥ f.revision from UInt64.not_le.2 hlt)] at hout
    rw [readAllItems_eq_ok hout, Holds, Holds, items_of_stored hut, items_of_stored htf]

theorem leaves_getHeader : getHeader.Leaves stored := by
  refine leaves_ensureLayout.bind fun _ => (Action.Leaves.read _).bind fun m => ?_
  cases m with
  | none => exact Action.Leaves.pure _
  | some content =>
    refine leaves_io.bind fun _ => ?_
    cases content with
    | ok header => exact Action.Leaves.pure _
    | error e => exact Action.Leaves.fail _

theorem getHeader_eq_ok {f g : FileBackend} {header : Option SyncedVaultHeader}
    (h : getHeader f = (.ok header, g)) : g.stored = f.stored ∧ f.header = header.map .ok := by
  refine ⟨leaves_getHeader.after h, ?_⟩
  unfold getHeader at h
  obtain ⟨_, t, ht, h⟩ := Action.bind_eq_ok.1 h
  have htf := leaves_ensureLayout.after ht
  obtain ⟨m, u, hread, h⟩ := Action.bind_eq_ok.1 h
  obtain ⟨hm, rfl⟩ := Action.read_eq_ok.1 hread
  rw [header_of_stored htf] at hm
  rw [hm]
  cases m with
  | none =>
    obtain ⟨rfl, -⟩ := Action.pure_eq_ok.1 h
    rfl
  | some content =>
    obtain ⟨_, w, -, h⟩ := Action.bind_eq_ok.1 h
    cases content with
    | ok header' =>
      obtain ⟨rfl, -⟩ := Action.pure_eq_ok.1 h
      rfl
    | error e => exact (Action.fail_eq_ok.1 h).elim

end Reads

section Writes

theorem toNat_saturatingSucc (revision : UInt64) :
    (saturatingSucc revision).toNat = min (revision.toNat + 1) (2 ^ 64 - 1) := by
  have hlt := revision.toNat_lt
  unfold saturatingSucc
  split
  · rename_i h
    rw [UInt64.toNat_add]
    change (revision.toNat + 1) % 2 ^ 64 = _
    omega
  · omega

theorem le_saturatingSucc (revision : UInt64) : revision ≤ saturatingSucc revision := by
  have hlt := revision.toNat_lt
  rw [UInt64.le_iff_toNat_le, toNat_saturatingSucc]
  omega

/-- What storing `done` leaves: under each id the latest of what stood there and its items. -/
structure Offered (f g : FileBackend) (done : List SyncItem) : Prop where
  header : g.header = f.header
  item : ∀ id, g.item id = offerAll SyncItem.stamp (f.item id) (done.filter fun x => x.id = id)
  holds : ∀ x, g.Holds x → f.Holds x ∨ x ∈ done

theorem Offered.of_stored {f g : FileBackend} (h : g.stored = f.stored) : Offered f g [] where
  header := header_of_stored h
  item := item_of_stored h
  holds x hx := by
    rw [Holds, items_of_stored h] at hx
    exact Or.inl hx

theorem Offered.congr_left {e f g : FileBackend} {done : List SyncItem} (h : Offered f g done)
    (he : f.stored = e.stored) : Offered e g done where
  header := h.header.trans (header_of_stored he)
  item id := by rw [h.item id, item_of_stored he]
  holds x hx := by
    have hf := h.holds x hx
    rwa [Holds, items_of_stored he] at hf

theorem Offered.congr_right {f g h : FileBackend} {done : List SyncItem} (hfg : Offered f g done)
    (hgh : h.header = g.header) (hitems : h.items = g.items) : Offered f h done where
  header := hgh.trans hfg.header
  item id := by rw [← hfg.item id, FileBackend.item, FileBackend.item, hitems]
  holds x hx := by
    rw [Holds, hitems] at hx
    exact hfg.holds x hx

theorem Offered.wellNamed {f g : FileBackend} {done : List SyncItem} (h : Offered f g done)
    (hf : f.WellNamed) : g.WellNamed := by
  intro id x hx
  rw [h.item id] at hx
  rcases offerAll_eq_or SyncItem.stamp (f.item id)
    (done.filter fun x => x.id = id) with he | ⟨y, hy, he⟩
  · exact hf id x (he ▸ hx)
  · rw [he, Option.some.injEq] at hx
    rw [← hx]
    exact of_decide_eq_true (List.mem_filter.1 hy).2

theorem Offered.stamp_le {f g : FileBackend} {done : List SyncItem} (h : Offered f g done)
    {x : SyncItem} (hx : x ∈ done) :
    (x.stamp : WithBot Stamp) ≤ rank SyncItem.stamp (g.item x.id) := by
  rw [h.item x.id]
  exact stamp_le_offerAll (List.mem_filter.2 ⟨hx, decide_eq_true rfl⟩)

theorem leaves_isWinner (incoming : SyncItem) : (isWinner incoming).Leaves stored := by
  refine (Action.Leaves.read _).bind fun file => ?_
  cases file with
  | none => exact Action.Leaves.pure _
  | some file =>
    refine leaves_io.bind fun _ => ?_
    cases file.content with
    | ok existing => exact Action.Leaves.pure _
    | error e => exact Action.Leaves.fail _

theorem isWinner_eq_ok {incoming : SyncItem} {f g : FileBackend} {wins : Bool}
    (h : isWinner incoming f = (.ok wins, g)) :
    g.stored = f.stored ∧
      (wins = true ↔ rank SyncItem.stamp (f.item incoming.id) < (incoming.stamp : WithBot Stamp)) := by
  refine ⟨(leaves_isWinner incoming).after h, ?_⟩
  obtain ⟨file, t, hread, h⟩ := Action.bind_eq_ok.1 h
  obtain ⟨hfile, rfl⟩ := Action.read_eq_ok.1 hread
  unfold FileBackend.item
  rw [hfile]
  cases file with
  | none =>
    obtain ⟨rfl, -⟩ := Action.pure_eq_ok.1 h
    simp [WithBot.bot_lt_coe]
  | some file =>
    obtain ⟨_, w, -, h⟩ := Action.bind_eq_ok.1 h
    obtain ⟨name, content⟩ := file
    cases content with
    | ok existing =>
      obtain ⟨rfl, -⟩ := Action.pure_eq_ok.1 h
      rw [itemWinsOver_iff, rank_some, WithBot.coe_lt_coe]
    | error e => exact (Action.fail_eq_ok.1 h).elim

theorem item_put (f : FileBackend) (x : SyncItem) (id : Uuid) :
    FileBackend.item { f with items := f.items.put ⟨x.id, .ok x⟩ } id =
      if id = x.id then some x else f.item id := by
  unfold FileBackend.item
  rw [Table.get_put]
  by_cases h : id = x.id
  · simp [h]
  · simp [h]

theorem holds_put {f : FileBackend} {x y : SyncItem}
    (h : Holds { f with items := f.items.put ⟨x.id, .ok x⟩ } y) : f.Holds y ∨ y = x := by
  obtain ⟨file, hfile, hy⟩ := h
  rcases mem_upsert hfile with rfl | hfile
  · exact Or.inr (Except.ok.inj hy).symm
  · exact Or.inl ⟨file, hfile, hy⟩

/-- Storing a winner. -/
theorem Offered.cons_winner {f g : FileBackend} {x : SyncItem} {done : List SyncItem}
    (hx : rank SyncItem.stamp (f.item x.id) < (x.stamp : WithBot Stamp))
    (h : Offered { f with items := f.items.put ⟨x.id, .ok x⟩ } g done) :
    Offered f g (x :: done) where
  header := h.header
  item id := by
    rw [h.item id, item_put]
    by_cases hid : id = x.id
    · rw [if_pos hid, hid, List.filter_cons_of_pos (by simp)]
      change _ = offerAll _ (offer _ _ x) _
      rw [offer_of_lt hx]
    · rw [if_neg hid, List.filter_cons_of_neg (by simpa using Ne.symm hid)]
  holds y hy := by
    rcases h.holds y hy with hy | hy
    · rcases holds_put hy with hy | rfl
      · exact Or.inl hy
      · exact Or.inr List.mem_cons_self
    · exact Or.inr (List.mem_cons_of_mem _ hy)

/-- Passing over a loser. -/
theorem Offered.cons_loser {f g : FileBackend} {x : SyncItem} {done : List SyncItem}
    (hx : (x.stamp : WithBot Stamp) ≤ rank SyncItem.stamp (f.item x.id)) (h : Offered f g done) :
    Offered f g (x :: done) where
  header := h.header
  item id := by
    rw [h.item id]
    by_cases hid : id = x.id
    · rw [hid, List.filter_cons_of_pos (by simp)]
      change _ = offerAll _ (offer _ _ x) _
      rw [offer_of_le hx]
    · rw [List.filter_cons_of_neg (by simpa using Ne.symm hid)]
  holds y hy := (h.holds y hy).imp_right (List.mem_cons_of_mem _)

theorem atomicWriteJson_cases (write : FileBackend → FileBackend) (f : FileBackend) :
    (∃ e, atomicWriteJson write f = (.error e, (io f).2)) ∨
      atomicWriteJson write f = (.ok (), write (io f).2) := by
  rcases he : io f with ⟨r, g⟩
  unfold atomicWriteJson
  cases r with
  | error e => exact Or.inl ⟨e, by rw [Action.bind_error he]⟩
  | ok u => exact Or.inr (by rw [Action.bind_ok he]; rfl)

theorem Offered.trans_rank_lt {f g : FileBackend} {x : SyncItem} {done : List SyncItem}
    (hx : rank SyncItem.stamp (f.item x.id) < (x.stamp : WithBot Stamp))
    (h : Offered f g (x :: done)) : g.item x.id ≠ f.item x.id := by
  intro he
  have hle := h.stamp_le List.mem_cons_self
  rw [he] at hle
  exact absurd hx (not_lt.2 hle)

/-- The loop of `push`, whatever its outcome: a prefix of the items has been offered. -/
theorem pushItems_spec (changed : Bool) (items : List SyncItem) (f : FileBackend) :
    ∃ done, done <+: items ∧ Offered f (pushItems changed items f).2 done ∧
      (pushItems changed items f).2.revision = f.revision ∧
      ∀ c, (pushItems changed items f).1 = .ok c → done = items ∧
        (c = true ↔ changed = true ∨ ∃ id, (pushItems changed items f).2.item id ≠ f.item id) := by
  induction items generalizing changed f with
  | nil =>
    refine ⟨[], List.prefix_refl _, Offered.of_stored rfl, rfl, ?_⟩
    intro c hc
    cases hc
    simp [pushItems, Action.pure_run]
  | cons x items ih =>
    rcases hw : isWinner x f with ⟨r, g⟩
    have hgf : g.stored = f.stored := (leaves_isWinner x).after hw
    cases r with
    | error e =>
      have hrun : pushItems changed (x :: items) f = (.error e, g) := Action.bind_error hw
      rw [hrun]
      refine ⟨[], List.nil_prefix, Offered.of_stored hgf, revision_of_stored hgf, ?_⟩
      intro c hc
      cases hc
    | ok wins =>
      obtain ⟨-, hwins⟩ := isWinner_eq_ok hw
      have hrun : pushItems changed (x :: items) f =
          (if wins then (atomicWriteJson fun f => { f with items := f.items.put ⟨x.id, .ok x⟩ }) >>=
            fun _ => pushItems true items else pushItems changed items : FileM Bool) g :=
        Action.bind_ok hw
      cases wins with
      | false =>
        rw [hrun, if_neg (by decide)]
        have hloser : (x.stamp : WithBot Stamp) ≤ rank SyncItem.stamp (f.item x.id) :=
          not_lt.1 fun hlt => by simpa using hwins.2 hlt
        obtain ⟨done, hdone, hoff, hrev, hok⟩ := ih changed g
        refine ⟨x :: done, (List.prefix_cons_inj x).2 hdone,
          (hoff.congr_left hgf).cons_loser hloser, hrev.trans (revision_of_stored hgf), ?_⟩
        intro c hc
        obtain ⟨rfl, hiff⟩ := hok c hc
        refine ⟨rfl, hiff.trans ?_⟩
        simp only [item_of_stored hgf]
      | true =>
        rw [hrun, if_pos rfl]
        have hwinner : rank SyncItem.stamp (f.item x.id) < (x.stamp : WithBot Stamp) :=
          hwins.1 rfl
        have hio : (io g).2.stored = f.stored := (leaves_io g).trans hgf
        obtain ⟨e, he⟩ | hwrite :=
          atomicWriteJson_cases (fun f => { f with items := f.items.put ⟨x.id, .ok x⟩ }) g
        · rw [Action.bind_error he]
          refine ⟨[], List.nil_prefix, Offered.of_stored hio, revision_of_stored hio, ?_⟩
          intro c hc
          cases hc
        · rw [Action.bind_ok hwrite]
          have hlt : rank SyncItem.stamp ((io g).2.item x.id) < (x.stamp : WithBot Stamp) := by
            rwa [item_of_stored hio]
          obtain ⟨done, hdone, hoff, hrev, hok⟩ :=
            ih true { (io g).2 with items := (io g).2.items.put ⟨x.id, .ok x⟩ }
          have hall := (Offered.cons_winner hlt hoff).congr_left hio
          refine ⟨x :: done, (List.prefix_cons_inj x).2 hdone, hall,
            hrev.trans (show (io g).2.revision = f.revision from revision_of_stored hio), ?_⟩
          intro c hc
          obtain ⟨rfl, hiff⟩ := hok c hc
          have htrue : c = true := hiff.2 (Or.inl rfl)
          exact ⟨rfl, iff_of_true htrue (Or.inr ⟨x.id, hall.trans_rank_lt hwinner⟩)⟩

theorem bumpRevision_spec (f : FileBackend) :
    (bumpRevision f).2.header = f.header ∧ (bumpRevision f).2.items = f.items ∧
      ((bumpRevision f).2.revision = f.revision ∨
        (bumpRevision f).2.revision = saturatingSucc f.revision) ∧
      ∀ manifest, (bumpRevision f).1 = .ok manifest →
        manifest.revision = saturatingSucc f.revision ∧
          (bumpRevision f).2.revision = saturatingSucc f.revision := by
  rcases hm : readManifest f with ⟨r, g⟩
  have hgf : g.stored = f.stored := leaves_readManifest.after hm
  cases r with
  | error e =>
    have hrun : bumpRevision f = (.error e, g) := Action.bind_error hm
    rw [hrun]
    exact ⟨header_of_stored hgf, items_of_stored hgf, Or.inl (revision_of_stored hgf),
      fun _ h => by cases h⟩
  | ok manifest =>
    obtain ⟨hrev, -⟩ := readManifest_eq_ok hm
    have hio : (io g).2.stored = f.stored := (leaves_io g).trans hgf
    have hrun : bumpRevision f =
        (writeManifest manifest.bump >>= fun _ => pure manifest.bump : FileM Manifest) g :=
      Action.bind_ok hm
    obtain ⟨e, he⟩ | hwrite :=
      atomicWriteJson_cases (fun f => { f with manifest := some (.ok manifest.bump) }) g
    · rw [hrun, writeManifest, Action.bind_error he]
      exact ⟨header_of_stored hio, items_of_stored hio, Or.inl (revision_of_stored hio),
        fun _ h => by cases h⟩
    · rw [hrun, writeManifest, Action.bind_ok hwrite]
      refine ⟨show (io g).2.header = f.header from header_of_stored hio,
        show (io g).2.items = f.items from items_of_stored hio,
        Or.inr (congrArg saturatingSucc hrev), ?_⟩
      intro manifest' h
      cases h
      exact ⟨congrArg saturatingSucc hrev, congrArg saturatingSucc hrev⟩

/-- An empty push is the loop over no items. -/
theorem push_eq (items : List SyncItem) :
    push items = ensureLayout >>= fun _ => pushItems false items >>= fun changed =>
      (if changed then bumpRevision else readManifest) >>= fun manifest =>
        pure (SyncCursor.fromRevision manifest.revision) := by
  cases items with
  | nil => rfl
  | cons x items => rfl

/-- How a push ends: the counter goes up if an item was stored. -/
theorem closing_spec (changed : Bool) (f : FileBackend) :
    let closing : FileM Manifest := if changed then bumpRevision else readManifest
    (closing f).2.header = f.header ∧ (closing f).2.items = f.items ∧
      ((closing f).2.revision = f.revision ∨ (closing f).2.revision = saturatingSucc f.revision) ∧
      ∀ manifest, (closing f).1 = .ok manifest → manifest.revision = (closing f).2.revision ∧
        (closing f).2.revision = if changed then saturatingSucc f.revision else f.revision := by
  cases changed with
  | true =>
    obtain ⟨hhead, hitems, hrev, hok⟩ := bumpRevision_spec f
    refine ⟨hhead, hitems, hrev, fun manifest h => ?_⟩
    obtain ⟨hm, hr⟩ := hok manifest h
    exact ⟨hm.trans hr.symm, hr⟩
  | false =>
    have hs : (readManifest f).2.stored = f.stored := leaves_readManifest f
    refine ⟨header_of_stored hs, items_of_stored hs, Or.inl (revision_of_stored hs), ?_⟩
    intro manifest h
    obtain ⟨hm, -⟩ := readManifest_eq_ok (g := (readManifest f).2) (Prod.ext h rfl)
    exact ⟨hm.trans (revision_of_stored hs).symm, revision_of_stored hs⟩

/-- A push, whatever its outcome. -/
theorem push_spec (items : List SyncItem) (f : FileBackend) :
    ∃ done, done <+: items ∧ Offered f (push items f).2 done ∧
      ((push items f).2.revision = f.revision ∨
        (push items f).2.revision = saturatingSucc f.revision) ∧
      ∀ cursor, (push items f).1 = .ok cursor → done = items ∧
        cursor = SyncCursor.fromRevision (push items f).2.revision ∧
        ((push items f).2.revision = f.revision ∧ (∀ id, (push items f).2.item id = f.item id) ∨
          (push items f).2.revision = saturatingSucc f.revision) := by
  rcases hl : ensureLayout f with ⟨r, g⟩
  have hgf : g.stored = f.stored := leaves_ensureLayout.after hl
  cases r with
  | error e =>
    have hrun : push items f = (.error e, g) := Action.bind_error hl
    rw [hrun]
    exact ⟨[], List.nil_prefix, Offered.of_stored hgf, Or.inl (revision_of_stored hgf),
      fun _ h => by cases h⟩
  | ok u =>
    rw [push_eq, Action.bind_ok hl]
    obtain ⟨done, hdone, hoff, hrev, hok⟩ := pushItems_spec false items g
    rcases hp : pushItems false items g with ⟨q, w⟩
    rw [hp] at hoff hrev hok
    replace hoff : Offered f w done := hoff.congr_left hgf
    replace hrev : w.revision = f.revision := hrev.trans (revision_of_stored hgf)
    cases q with
    | error e =>
      rw [Action.bind_error hp]
      exact ⟨done, hdone, hoff, Or.inl hrev, fun _ h => by cases h⟩
    | ok changed =>
      obtain ⟨rfl, hiff⟩ := hok changed rfl
      rw [Action.bind_ok hp]
      obtain ⟨hhead, hitems, hb, hbok⟩ := closing_spec changed w
      rw [hrev] at hb hbok
      rcases hclose : (if changed then bumpRevision else readManifest : FileM Manifest) w
        with ⟨q, y⟩
      rw [hclose] at hhead hitems hb hbok
      have hoffy : Offered f y done := hoff.congr_right hhead hitems
      cases q with
      | error e =>
        rw [Action.bind_error hclose]
        exact ⟨done, hdone, hoffy, hb, fun _ h => by cases h⟩
      | ok manifest =>
        obtain ⟨hman, hy⟩ := hbok manifest rfl
        rw [Action.bind_ok hclose]
        refine ⟨done, hdone, hoffy, hb, ?_⟩
        intro cursor hc
        cases hc
        refine ⟨rfl, by rw [hman]; rfl, ?_⟩
        cases changed with
        | true => exact Or.inr hy
        | false =>
          refine Or.inl ⟨hy, fun id => ?_⟩
          by_contra hne
          have hchanged := hiff.2 (Or.inr ⟨id, fun he => hne ?_⟩)
          · simp at hchanged
          · change y.item id = f.item id
            rw [FileBackend.item, hitems, ← FileBackend.item]
            change w.item id = g.item id at he
            rw [he, item_of_stored hgf]

theorem putHeader_spec (header : SyncedVaultHeader) (f : FileBackend) :
    (putHeader header f).2.items = f.items ∧
      ((putHeader header f).2.header = f.header ∨
        (putHeader header f).2.header = some (.ok header)) ∧
      ((putHeader header f).2.revision = f.revision ∨
        (putHeader header f).2.revision = saturatingSucc f.revision) ∧
      ∀ u, (putHeader header f).1 = .ok u →
        (putHeader header f).2.header = some (.ok header) ∧
          (putHeader header f).2.revision = saturatingSucc f.revision := by
  rcases hl : ensureLayout f with ⟨r, g⟩
  have hgf : g.stored = f.stored := leaves_ensureLayout.after hl
  cases r with
  | error e =>
    have hrun : putHeader header f = (.error e, g) := Action.bind_error hl
    rw [hrun]
    exact ⟨items_of_stored hgf, Or.inl (header_of_stored hgf), Or.inl (revision_of_stored hgf),
      fun _ h => by cases h⟩
  | ok u =>
    have hio : (io g).2.stored = f.stored := (leaves_io g).trans hgf
    have hrun : putHeader header f =
        ((atomicWriteJson fun f => { f with header := some (.ok header) }) >>= fun _ =>
          bumpRevision >>= fun _ => pure () : FileM Unit) g := Action.bind_ok hl
    rw [hrun]
    obtain ⟨e, he⟩ | hwrite :=
      atomicWriteJson_cases (fun f => { f with header := some (.ok header) }) g
    · rw [Action.bind_error he]
      exact ⟨items_of_stored hio, Or.inl (header_of_stored hio), Or.inl (revision_of_stored hio),
        fun _ h => by cases h⟩
    · rw [Action.bind_ok hwrite]
      have hitem : FileBackend.items { (io g).2 with header := some (.ok header) } = f.items :=
        show (io g).2.items = f.items from items_of_stored hio
      have hrev : FileBackend.revision { (io g).2 with header := some (.ok header) } =
          f.revision := show (io g).2.revision = f.revision from revision_of_stored hio
      obtain ⟨hhead, hitems, hb, hbok⟩ :=
        bumpRevision_spec { (io g).2 with header := some (.ok header) }
      rw [hrev] at hb hbok
      rcases hbump : bumpRevision { (io g).2 with header := some (.ok header) } with ⟨q, y⟩
      rw [hbump] at hhead hitems hb hbok
      cases q with
      | error e =>
        rw [Action.bind_error hbump]
        exact ⟨hitems.trans hitem, Or.inr hhead, hb, fun _ h => by cases h⟩
      | ok manifest =>
        rw [Action.bind_ok hbump]
        exact ⟨hitems.trans hitem, Or.inr hhead, hb, fun _ _ => ⟨hhead, (hbok manifest rfl).2⟩⟩

end Writes

end FileBackend

def fileBackend : SyncBackend FileBackend where
  pull := FileBackend.pull
  push := FileBackend.push
  getHeader := FileBackend.getHeader
  putHeader := FileBackend.putHeader

end Tethra.SyncFileBackend
