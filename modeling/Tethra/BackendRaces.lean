import Tethra.SyncFileBackend

set_option autoImplicit false

/-!
# Requests on one directory at once

Any number of `push` and `put_header` requests run on a directory, as the handlers of the
sync server start them. One step is one look for a file, one read, one write of a temporary
file or one rename.
-/
namespace Tethra.BackendRaces
open KeyedTables StampedRegisters StatefulActions SyncFileBackend SyncItems VaultTypes

inductive Path where
  | manifest
  | header
  | item (id : Uuid)
  deriving DecidableEq

/-- What the text of a file parses to. -/
abbrev Document : Path → Type
  | .manifest => Json Manifest
  | .header => Json SyncedVaultHeader
  | .item _ => Json SyncItem

def place (f : FileBackend) : (path : Path) → Document path → FileBackend
  | .manifest, manifest => { f with manifest := some manifest }
  | .header, header => { f with header := some header }
  | .item id, item => { f with items := f.items.put ⟨id, item⟩ }

structure Directory where
  files : FileBackend
  /-- The files at `path.with_extension("json.tmp")`. -/
  tmp : (path : Path) → Option (Document path)

inductive Request where
  | push (items : List SyncItem)
  | putHeader (header : SyncedVaultHeader)

/-- The next file call of a request. `write` and `rename` are `atomic_write_json`. -/
inductive Pc where
  | ensureLayout (request : Request)
  | write (path : Path) (value : Document path) (next : Pc)
  | rename (path : Path) (value : Document path) (next : Pc)
  | findItem (changed : Bool) (incoming : SyncItem) (items : List SyncItem)
  | readItem (changed : Bool) (incoming : SyncItem) (items : List SyncItem)
  | findManifest (changed : Bool)
  | readManifest (changed : Bool)
  | done (changed : Bool) (outcome : Except Error UInt64)

def noSuchFile : Error := .io "No such file or directory (os error 2)"

/-- The loop of `push`. -/
def pushItems (changed : Bool) : List SyncItem → Pc
  | [] => .findManifest changed
  | incoming :: items => .findItem changed incoming items

/-- A request after `ensure_layout`. -/
def body : Request → Pc
  | .push items => pushItems false items
  | .putHeader header => .write .header (.ok header) (.findManifest true)

/-- The end of `push` and `put_header`, the manifest read. -/
def conclude (changed : Bool) (manifest : Manifest) : Pc :=
  if changed then
    .write .manifest (.ok manifest.bump) (.done true (.ok manifest.bump.revision))
  else .done false (.ok manifest.revision)

def next (d : Directory) : Pc → Except Error Pc × Directory
  | .ensureLayout request =>
    match d.files.manifest with
    | some _ => (.ok (body request), d)
    | none => (.ok (.write .manifest (.ok .default) (body request)), d)
  | .write path value next =>
    (.ok (.rename path value next), { d with tmp := Function.update d.tmp path (some value) })
  | .rename path _ next =>
    match d.tmp path with
    | none => (.error noSuchFile, d)
    | some value => (.ok next, ⟨place d.files path value, Function.update d.tmp path none⟩)
  | .findItem changed incoming items =>
    match d.files.items.get incoming.id with
    | none => (.ok (.write (.item incoming.id) (.ok incoming) (pushItems true items)), d)
    | some _ => (.ok (.readItem changed incoming items), d)
  | .readItem changed incoming items =>
    match d.files.items.get incoming.id with
    | none => (.error noSuchFile, d)
    | some ⟨_, .ok existing⟩ =>
      (.ok (if itemWinsOver incoming existing then
        .write (.item incoming.id) (.ok incoming) (pushItems true items)
      else pushItems changed items), d)
    | some ⟨_, .error e⟩ =>
      (.error (.other ("sync item " ++ incoming.id.display ++ ": " ++ e)), d)
  | .findManifest changed =>
    match d.files.manifest with
    | none => (.ok (conclude changed .default), d)
    | some _ => (.ok (.readManifest changed), d)
  | .readManifest changed =>
    match d.files.manifest with
    | none => (.error noSuchFile, d)
    | some (.ok manifest) => (.ok (conclude changed manifest), d)
    | some (.error e) => (.error (.other ("sync manifest: " ++ e)), d)
  | .done changed outcome => (.ok (.done changed outcome), d)

/-- A request with the revision current when it began. -/
structure Call where
  request : Request
  began : UInt64
  interrupted : Bool
  pc : Pc

structure Site (T : Type) where
  directory : Directory
  calls : T → Option Call

inductive Step (T : Type) where
  | begin (t : T) (request : Request)
  | advance (t : T)
  /-- The file system refuses a call, a refused write leaving any text. -/
  | fail (t : T) (message : String) (left : (path : Path) → Option (Document path))

def settle : Except Error Pc → Pc
  | .ok pc => pc
  | .error e => .done false (.error e)

def Directory.spoil (d : Directory) (left : (path : Path) → Option (Document path)) :
    Pc → Directory
  | .write path _ _ => { d with tmp := Function.update d.tmp path (left path) }
  | _ => d

def Pc.returned : Pc → Bool
  | .done _ _ => true
  | _ => false

section Steps
variable {T : Type} [DecidableEq T]

def Site.set (x : Site T) (t : T) (d : Directory) (c : Call) : Site T :=
  ⟨d, Function.update x.calls t (some c)⟩

def perform (x : Site T) : Step T → Site T
  | .begin t request =>
    match x.calls t with
    | some _ => x
    | none => x.set t x.directory
        ⟨request, x.directory.files.revision, false, .ensureLayout request⟩
  | .advance t =>
    match x.calls t with
    | none => x
    | some c =>
      let outcome := next x.directory c.pc
      x.set t outcome.2 { c with pc := settle outcome.1 }
  | .fail t message left =>
    match x.calls t with
    | none => x
    | some c =>
      if c.pc.returned then x
      else x.set t (x.directory.spoil left c.pc)
        { c with interrupted := true, pc := .done false (.error (.io message)) }

def run (x : Site T) (steps : List (Step T)) : Site T := steps.foldl perform x

/-- The file a request has looked at and is about to replace. -/
def Pc.inside : Pc → Option Path
  | .write path _ _ => some path
  | .rename path _ _ => some path
  | _ => none

/-- No two requests are about to replace one file. -/
def Exclusive (x : Site T) : Prop :=
  ∀ t u c e path, t ≠ u → x.calls t = some c → x.calls u = some e →
    c.pc.inside = some path → e.pc.inside ≠ some path

def Along : Site T → List (Step T) → Prop
  | _, [] => True
  | x, step :: steps => Exclusive (perform x step) ∧ Along (perform x step) steps

def Request.items : Request → List SyncItem
  | .push items => items
  | .putHeader _ => []

/-- The values a register may hold: what stood there and what was pushed under its id. -/
def Offered (f : FileBackend) (x : Site T) (id : Uuid) (y : SyncItem) : Prop :=
  f.item id = some y ∨ ∃ t c, x.calls t = some c ∧ y ∈ c.request.items ∧ y.id = id

/-- The file exists and its text does not parse. -/
def Unreadable (f : FileBackend) : Path → Prop
  | .manifest => ∃ e, f.manifest = some (.error e)
  | .header => ∃ e, f.header = some (.error e)
  | .item id => ∃ e, f.items.get id = some ⟨id, .error e⟩

end Steps

/-! ## A request run alone -/

section Alone
variable {d : Directory} {f g : FileBackend}

/-- The steps of one request with nothing between them. -/
def Goes : Directory × Pc → Directory × Pc → Prop :=
  Relation.ReflTransGen fun a b => next a.1 a.2 = (.ok b.2, b.1)

theorem goes_one {d e : Directory} {pc pc' : Pc} (h : next d pc = (.ok pc', e)) :
    Goes (d, pc) (e, pc') := Relation.ReflTransGen.single h

theorem goes_trans {a b c : Directory × Pc} (h : Goes a b) (h' : Goes b c) : Goes a c :=
  Relation.ReflTransGen.trans h h'

theorem goes_write (d : Directory) (path : Path) (value : Document path) (k : Pc) :
    ∃ tmp, Goes (d, .write path value k) (⟨place d.files path value, tmp⟩, k) := by
  have hrename : next { d with tmp := Function.update d.tmp path (some value) }
      (.rename path value k) = (.ok k, ⟨place d.files path value,
        Function.update (Function.update d.tmp path (some value)) path none⟩) := by
    simp only [next, Function.update_self]
  exact ⟨_, goes_trans (goes_one rfl) (goes_one hrename)⟩

/-- The two have the same files, whatever calls were made. -/
def SameFiles (f g : FileBackend) : Prop :=
  f.manifest = g.manifest ∧ f.header = g.header ∧ f.items = g.items

theorem SameFiles.place (h : SameFiles f g) (path : Path) (value : Document path) :
    SameFiles (place f path value) (place g path value) := by
  obtain ⟨hm, hh, hi⟩ := h
  cases path with
  | manifest => exact ⟨rfl, hh, hi⟩
  | header => exact ⟨hm, rfl, hi⟩
  | item id =>
    refine ⟨hm, hh, ?_⟩
    simp only [BackendRaces.place, hi]

theorem io_eq_ok {u : Unit} (h : FileBackend.io f = (.ok u, g)) : SameFiles f g := by
  unfold FileBackend.io at h
  split at h
  · cases h
  · cases h
    exact ⟨rfl, rfl, rfl⟩

theorem SameFiles.trans {e : FileBackend} (h : SameFiles e f) (h' : SameFiles f g) :
    SameFiles e g := ⟨h.1.trans h'.1, h.2.1.trans h'.2.1, h.2.2.trans h'.2.2⟩

/-- `atomic_write_json` in one step and in two. -/
theorem atomicWriteJson_alone (path : Path) (value : Document path) {u : Unit} (k : Pc)
    (hd : SameFiles d.files f)
    (h : FileBackend.atomicWriteJson (fun f => place f path value) f = (.ok u, g)) :
    ∃ e, Goes (d, .write path value k) (e, k) ∧ SameFiles e.files g := by
  obtain ⟨_, f', hio, h⟩ := Action.bind_eq_ok.1 h
  obtain rfl := Action.update_eq_ok.1 h
  obtain ⟨tmp, hgoes⟩ := goes_write d path value k
  exact ⟨_, hgoes, (hd.trans (io_eq_ok hio)).place path value⟩

theorem ensureLayout_alone {u : Unit} (request : Request) (hd : SameFiles d.files f)
    (h : FileBackend.ensureLayout f = (.ok u, g)) :
    ∃ e, Goes (d, .ensureLayout request) (e, body request) ∧ SameFiles e.files g := by
  obtain ⟨_, f', hio, h⟩ := Action.bind_eq_ok.1 h
  obtain ⟨found, f'', hread, h⟩ := Action.bind_eq_ok.1 h
  obtain ⟨hfound, rfl⟩ := Action.read_eq_ok.1 hread
  have hd' := hd.trans (io_eq_ok hio)
  rw [← hd'.1] at hfound
  cases found with
  | some manifest =>
    obtain ⟨-, rfl⟩ := Action.pure_eq_ok.1 h
    exact ⟨d, goes_one (by simp only [next, hfound]), hd'⟩
  | none =>
    obtain ⟨e, hgoes, he⟩ := atomicWriteJson_alone .manifest (.ok .default) (body request) hd' h
    exact ⟨e, goes_trans (goes_one (by simp only [next, hfound])) hgoes, he⟩

theorem readManifest_alone {manifest : Manifest} (changed : Bool) (hd : SameFiles d.files f)
    (h : FileBackend.readManifest f = (.ok manifest, g)) :
    Goes (d, .findManifest changed) (d, conclude changed manifest) ∧ SameFiles d.files g := by
  obtain ⟨found, f', hread, h⟩ := Action.bind_eq_ok.1 h
  obtain ⟨hfound, rfl⟩ := Action.read_eq_ok.1 hread
  rw [← hd.1] at hfound
  cases found with
  | none =>
    obtain ⟨rfl, rfl⟩ := Action.pure_eq_ok.1 h
    exact ⟨goes_one (by simp only [next, hfound]), hd⟩
  | some content =>
    obtain ⟨_, f'', hio, h⟩ := Action.bind_eq_ok.1 h
    cases content with
    | error e => exact (Action.fail_eq_ok.1 h).elim
    | ok manifest' =>
      obtain ⟨rfl, rfl⟩ := Action.pure_eq_ok.1 h
      have hfind : next d (.findManifest changed) = (.ok (.readManifest changed), d) := by
        simp only [next, hfound]
      exact ⟨goes_trans (goes_one hfind) (goes_one (by simp only [next, hfound])),
        hd.trans (io_eq_ok hio)⟩

/-- Whether an item is stored, by looking and by looking and reading. -/
theorem isWinner_alone {incoming : SyncItem} {wins : Bool} (changed : Bool)
    (items : List SyncItem) (hd : SameFiles d.files f)
    (h : FileBackend.isWinner incoming f = (.ok wins, g)) :
    Goes (d, .findItem changed incoming items) (d, if wins then
      .write (.item incoming.id) (.ok incoming) (pushItems true items)
      else pushItems changed items) ∧ SameFiles d.files g := by
  obtain ⟨found, f', hread, h⟩ := Action.bind_eq_ok.1 h
  obtain ⟨hfound, rfl⟩ := Action.read_eq_ok.1 hread
  rw [← hd.2.2] at hfound
  cases found with
  | none =>
    obtain ⟨rfl, rfl⟩ := Action.pure_eq_ok.1 h
    exact ⟨goes_one (by simp only [next, hfound, if_true]), hd⟩
  | some file =>
    obtain ⟨name, content⟩ := file
    obtain ⟨_, f'', hio, h⟩ := Action.bind_eq_ok.1 h
    cases content with
    | error e => exact (Action.fail_eq_ok.1 h).elim
    | ok existing =>
      obtain ⟨rfl, rfl⟩ := Action.pure_eq_ok.1 h
      have hfind : next d (.findItem changed incoming items) =
          (.ok (.readItem changed incoming items), d) := by
        simp only [next, hfound]
      exact ⟨goes_trans (goes_one hfind) (goes_one (by simp only [next, hfound])),
        hd.trans (io_eq_ok hio)⟩

theorem pushItems_alone {items : List SyncItem} {changed changed' : Bool}
    (hd : SameFiles d.files f)
    (h : FileBackend.pushItems changed items f = (.ok changed', g)) :
    ∃ e, Goes (d, pushItems changed items) (e, .findManifest changed') ∧
      SameFiles e.files g := by
  induction items generalizing changed d f with
  | nil =>
    obtain ⟨rfl, rfl⟩ := Action.pure_eq_ok.1 h
    exact ⟨d, Relation.ReflTransGen.refl, hd⟩
  | cons incoming items ih =>
    obtain ⟨wins, f', hwins, h⟩ := Action.bind_eq_ok.1 h
    obtain ⟨hgoes, hd'⟩ := isWinner_alone changed items hd hwins
    cases wins with
    | true =>
      obtain ⟨_, f'', hwrite, h⟩ := Action.bind_eq_ok.1 h
      obtain ⟨e, hwritten, he⟩ := atomicWriteJson_alone (.item incoming.id) (.ok incoming)
        (pushItems true items) hd' hwrite
      obtain ⟨e', hrest, he'⟩ := ih he h
      exact ⟨e', goes_trans hgoes (goes_trans hwritten hrest), he'⟩
    | false =>
      obtain ⟨e', hrest, he'⟩ := ih hd' h
      exact ⟨e', goes_trans hgoes hrest, he'⟩

theorem bumpRevision_alone {manifest : Manifest} (hd : SameFiles d.files f)
    (h : FileBackend.bumpRevision f = (.ok manifest, g)) :
    ∃ e, Goes (d, .findManifest true) (e, .done true (.ok manifest.revision)) ∧
      SameFiles e.files g := by
  obtain ⟨manifest', f1, hread, h⟩ := Action.bind_eq_ok.1 h
  obtain ⟨hgoes, hd'⟩ := readManifest_alone true hd hread
  obtain ⟨_, f2, hwrite, h⟩ := Action.bind_eq_ok.1 h
  obtain ⟨rfl, rfl⟩ := Action.pure_eq_ok.1 h
  obtain ⟨e, hwritten, he⟩ := atomicWriteJson_alone .manifest (.ok manifest'.bump)
    (.done true (.ok manifest'.bump.revision)) hd' hwrite
  exact ⟨e, goes_trans hgoes hwritten, he⟩

/-- The steps of `push` with nothing between them. -/
theorem push_alone {items : List SyncItem} {cursor : SyncCursor} (hd : SameFiles d.files f)
    (h : FileBackend.push items f = (.ok cursor, g)) :
    ∃ e changed r, Goes (d, .ensureLayout (.push items)) (e, .done changed (.ok r)) ∧
      SameFiles e.files g ∧ cursor = SyncCursor.fromRevision r := by
  obtain ⟨_, f1, hlayout, h⟩ := Action.bind_eq_ok.1 h
  obtain ⟨d1, hbegun, hd1⟩ := ensureLayout_alone (.push items) hd hlayout
  cases items with
  | nil =>
    obtain ⟨manifest, f2, hmanifest, h⟩ := Action.bind_eq_ok.1 h
    obtain ⟨rfl, rfl⟩ := Action.pure_eq_ok.1 h
    obtain ⟨hgoes, he⟩ := readManifest_alone false hd1 hmanifest
    exact ⟨d1, false, manifest.revision, goes_trans hbegun hgoes, he, rfl⟩
  | cons incoming items =>
    obtain ⟨changed, f2, hitems, h⟩ := Action.bind_eq_ok.1 h
    obtain ⟨d2, hpushed, hd2⟩ := pushItems_alone hd1 hitems
    obtain ⟨manifest, f3, hmanifest, h⟩ := Action.bind_eq_ok.1 h
    obtain ⟨rfl, rfl⟩ := Action.pure_eq_ok.1 h
    cases changed with
    | true =>
      obtain ⟨e, hbumped, he⟩ := bumpRevision_alone hd2 hmanifest
      exact ⟨e, true, manifest.revision, goes_trans hbegun (goes_trans hpushed hbumped), he, rfl⟩
    | false =>
      obtain ⟨hgoes, he⟩ := readManifest_alone false hd2 hmanifest
      exact ⟨d2, false, manifest.revision, goes_trans hbegun (goes_trans hpushed hgoes), he, rfl⟩

theorem putHeader_alone {header : SyncedVaultHeader} {u : Unit} (hd : SameFiles d.files f)
    (h : FileBackend.putHeader header f = (.ok u, g)) :
    ∃ e r, Goes (d, .ensureLayout (.putHeader header)) (e, .done true (.ok r)) ∧
      SameFiles e.files g := by
  obtain ⟨_, f1, hlayout, h⟩ := Action.bind_eq_ok.1 h
  obtain ⟨d1, hbegun, hd1⟩ := ensureLayout_alone (.putHeader header) hd hlayout
  obtain ⟨_, f2, hwrite, h⟩ := Action.bind_eq_ok.1 h
  obtain ⟨d2, hwritten, hd2⟩ := atomicWriteJson_alone .header (.ok header) (.findManifest true)
    hd1 hwrite
  obtain ⟨manifest, f3, hbump, h⟩ := Action.bind_eq_ok.1 h
  obtain ⟨-, rfl⟩ := Action.pure_eq_ok.1 h
  obtain ⟨e, hbumped, he⟩ := bumpRevision_alone hd2 hbump
  exact ⟨e, manifest.revision, goes_trans hbegun (goes_trans hwritten hbumped), he⟩

end Alone

/-! ## What a request may rely on -/

section Calls

/-- The document may replace the file as it is now. -/
def Justified (f : FileBackend) : (path : Path) → Document path → Prop
  | .manifest, value => ∃ manifest, value = .ok manifest ∧ f.revision ≤ manifest.revision
  | .header, value => ∃ header, value = .ok header
  | .item id, value => ∃ item, value = .ok item ∧ item.id = id ∧
      rank SyncItem.stamp (f.item id) < (item.stamp : WithBot Stamp)

def Pc.Current (d : Directory) : Pc → Prop
  | .write path value _ => Justified d.files path value
  | .rename path value _ => d.tmp path = some value ∧ Justified d.files path value
  | .readItem _ incoming _ => (d.files.items.get incoming.id).isSome = true
  | .readManifest _ => d.files.manifest.isSome = true
  | _ => True

def written : (path : Path) → Document path → List SyncItem
  | .item _, .ok item => [item]
  | _, _ => []

/-- The items a request has not stored or passed over. -/
def Pc.pending : Pc → List SyncItem
  | .ensureLayout request => request.items
  | .write path value next => written path value ++ next.pending
  | .rename path value next => written path value ++ next.pending
  | .findItem _ incoming items => incoming :: items
  | .readItem _ incoming items => incoming :: items
  | _ => []

/-- The revision a request that changed something will return. -/
def Pc.result : Pc → Option UInt64
  | .write _ _ next => next.result
  | .rename _ _ next => next.result
  | .done true (.ok revision) => some revision
  | _ => none

def announced : (path : Path) → Document path → Option UInt64
  | .manifest, .ok manifest => some manifest.revision
  | _, _ => none

/-- The revision returned is the one written last, and what follows a rename can begin on
any directory. -/
def Pc.Announces : Pc → Prop
  | .write path value next => (∀ r, next.result = some r → announced path value = some r) ∧
      (∀ d, next.Current d) ∧ next.Announces ∧ ∀ changed e, next ≠ .done changed (.error e)
  | .rename path value next => (∀ r, next.result = some r → announced path value = some r) ∧
      (∀ d, next.Current d) ∧ next.Announces ∧ ∀ changed e, next ≠ .done changed (.error e)
  | _ => True

/-- Later than `began`, or the counter is full. -/
def Late (began r : UInt64) : Prop := r.toNat = 2 ^ 64 - 1 ∨ began < r

structure CallSound (f : FileBackend) (d : Directory) (c : Call) : Prop where
  pending : ∀ y ∈ c.pc.pending, y ∈ c.request.items
  offered : (∀ changed e, c.pc ≠ .done changed (.error e)) → ∀ y ∈ c.request.items,
    y ∈ c.pc.pending ∨ (y.stamp : WithBot Stamp) ≤ rank SyncItem.stamp (d.files.item y.id)
  current : c.pc.Current d
  began : c.began ≤ d.files.revision
  announces : c.pc.Announces
  late : ∀ r, c.pc.result = some r → Late c.began r
  reply : ∀ r, c.pc = .done true (.ok r) → r ≤ d.files.revision
  failed : ∀ changed e, c.pc = .done changed (.error e) →
    c.interrupted = true ∨ ∃ path, Unreadable f path

end Calls

/-! ## Files beside the one a step touches -/

section Moves
variable {f g : FileBackend} {d e : Directory}

theorem item_place_item (f : FileBackend) (item : SyncItem) (id : Uuid) :
    (place f (.item item.id) (.ok item)).item id = if id = item.id then some item else f.item id :=
  FileBackend.item_put f item id

theorem get_place_item (f : FileBackend) (id : Uuid) (value : Json SyncItem) (id' : Uuid) :
    (place f (.item id) value).items.get id' =
      if id' = id then some ⟨id, value⟩ else f.items.get id' :=
  Table.get_put f.items ⟨id, value⟩ id'

/-- What no step of another request takes away from the files outside `touched`. -/
structure Beside (touched : Path → Prop) (d e : Directory) : Prop where
  rank : ∀ id, rank SyncItem.stamp (d.files.item id) ≤ rank SyncItem.stamp (e.files.item id)
  revision : d.files.revision ≤ e.files.revision
  item : ∀ id, (d.files.items.get id).isSome = true → (e.files.items.get id).isSome = true
  manifest : d.files.manifest.isSome = true → e.files.manifest.isSome = true
  tmp : ∀ path, ¬ touched path → e.tmp path = d.tmp path
  justified : ∀ path value, ¬ touched path → Justified d.files path value →
    Justified e.files path value
  unreadable : ∀ path, Unreadable e.files path → Unreadable d.files path

theorem Beside.of_files {touched : Path → Prop} (hfiles : e.files = d.files)
    (htmp : ∀ path, ¬ touched path → e.tmp path = d.tmp path) : Beside touched d e := by
  constructor
  case rank => intro id; rw [hfiles]
  case revision => rw [hfiles]; exact UInt64.le_refl _
  case item => intro id h; rwa [hfiles]
  case manifest => intro h; rwa [hfiles]
  case tmp => exact htmp
  case justified => intro path value _ h; rwa [hfiles]
  case unreadable => intro path h; rwa [hfiles] at h

theorem Beside.refl (touched : Path → Prop) (d : Directory) : Beside touched d d :=
  .of_files rfl fun _ _ => rfl

theorem Beside.mono {touched touched' : Path → Prop} (h : Beside touched d e)
    (htouched : ∀ path, touched path → touched' path) : Beside touched' d e where
  rank := h.rank
  revision := h.revision
  item := h.item
  manifest := h.manifest
  tmp path hpath := h.tmp path fun ht => hpath (htouched path ht)
  justified path value hpath := h.justified path value fun ht => hpath (htouched path ht)
  unreadable := h.unreadable

theorem stamp_le_place {path : Path} {value : Document path} (h : Justified f path value)
    {y : SyncItem} (hy : y ∈ written path value) :
    (y.stamp : WithBot Stamp) ≤ rank SyncItem.stamp ((place f path value).item y.id) := by
  cases path with
  | manifest => cases hy
  | header => cases hy
  | item id =>
    obtain ⟨item, rfl, rfl, -⟩ := h
    obtain rfl : y = item := List.mem_singleton.1 hy
    rw [item_place_item, if_pos rfl]
    exact le_refl _

theorem revision_place {path : Path} {value : Document path} {r : UInt64}
    (h : announced path value = some r) : (place f path value).revision = r := by
  cases path with
  | header => cases h
  | item id => cases h
  | manifest =>
    cases value with
    | error e => cases h
    | ok manifest =>
      cases h
      rfl

/-- Replacing a file by a document that is justified for it. -/
theorem beside_place {path : Path} {value : Document path} (h : Justified d.files path value)
    (tmp : (path : Path) → Option (Document path))
    (htmp : ∀ q, q ≠ path → tmp q = d.tmp q) :
    Beside (fun q => q = path) d ⟨place d.files path value, tmp⟩ := by
  cases path with
  | manifest =>
    obtain ⟨manifest, rfl, hle⟩ := h
    constructor
    case rank => exact fun id => le_refl _
    case revision => exact hle
    case item => exact fun id hid => hid
    case manifest => exact fun _ => rfl
    case tmp => exact htmp
    case justified =>
      intro q value' hq hj
      cases q with
      | manifest => exact absurd rfl hq
      | header => exact hj
      | item id => exact hj
    case unreadable =>
      intro q hq
      cases q with
      | manifest => obtain ⟨e, he⟩ := hq; cases he
      | header => exact hq
      | item id => exact hq
  | header =>
    obtain ⟨header, rfl⟩ := h
    constructor
    case rank => exact fun id => le_refl _
    case revision => exact UInt64.le_refl _
    case item => exact fun id hid => hid
    case manifest => exact fun hm => hm
    case tmp => exact htmp
    case justified =>
      intro q value' hq hj
      cases q with
      | manifest => exact hj
      | header => exact absurd rfl hq
      | item id => exact hj
    case unreadable =>
      intro q hq
      cases q with
      | manifest => exact hq
      | header => obtain ⟨e, he⟩ := hq; cases he
      | item id => exact hq
  | item id =>
    obtain ⟨item, rfl, rfl, hlt⟩ := h
    constructor
    case rank =>
      intro id
      rw [item_place_item]
      by_cases hid : id = item.id
      · rw [if_pos hid, hid]
        exact hlt.le
      · rw [if_neg hid]
    case revision => exact UInt64.le_refl _
    case item =>
      intro id hid
      rw [get_place_item]
      by_cases h : id = item.id
      · simp [h]
      · rwa [if_neg h]
    case manifest => exact fun hm => hm
    case tmp => exact htmp
    case justified =>
      intro q value' hq hj
      cases q with
      | manifest => exact hj
      | header => exact hj
      | item id =>
        obtain ⟨item', hvalue, hid, hlt'⟩ := hj
        refine ⟨item', hvalue, hid, ?_⟩
        have hne : id ≠ item.id := fun hc => hq (by rw [hc])
        rwa [item_place_item, if_neg hne]
    case unreadable =>
      intro q hq
      cases q with
      | manifest => exact hq
      | header => exact hq
      | item id =>
        obtain ⟨e, he⟩ := hq
        rw [get_place_item] at he
        by_cases h : id = item.id
        · rw [if_pos h] at he
          simp at he
        · rw [if_neg h] at he
          exact ⟨e, he⟩

theorem Pc.Current.beside {touched : Path → Prop} {pc : Pc} (h : pc.Current d)
    (hb : Beside touched d e) (hpc : ∀ path, pc.inside = some path → ¬ touched path) :
    pc.Current e := by
  cases pc with
  | write path value next => exact hb.justified path value (hpc path rfl) h
  | rename path value next =>
    exact ⟨(hb.tmp path (hpc path rfl)).trans h.1, hb.justified path value (hpc path rfl) h.2⟩
  | readItem changed incoming items => exact hb.item _ h
  | readManifest changed => exact hb.manifest h
  | ensureLayout request => trivial
  | findItem changed incoming items => trivial
  | findManifest changed => trivial
  | done changed outcome => trivial

/-- A request keeps what it relies on while another file is touched. -/
theorem CallSound.beside {touched : Path → Prop} {c : Call} (h : CallSound f d c)
    (hb : Beside touched d e) (hpc : ∀ path, c.pc.inside = some path → ¬ touched path) :
    CallSound f e c where
  pending := h.pending
  offered hok y hy := (h.offered hok y hy).imp_right fun hle => hle.trans (hb.rank y.id)
  current := h.current.beside hb hpc
  began := UInt64.le_trans h.began hb.revision
  announces := h.announces
  late := h.late
  reply r hr := UInt64.le_trans (h.reply r hr) hb.revision
  failed := h.failed

end Moves

/-! ## One step of a request -/

section Next
variable {f : FileBackend} {d e : Directory} {c : Call}

@[simp] theorem settle_ok (pc : Pc) : settle (.ok pc) = pc := rfl

@[simp] theorem pending_pushItems (changed : Bool) (items : List SyncItem) :
    (pushItems changed items).pending = items := by
  cases items <;> rfl

@[simp] theorem pending_body (request : Request) : (body request).pending = request.items := by
  cases request with
  | push items => exact pending_pushItems false items
  | putHeader header => rfl

theorem result_pushItems (changed : Bool) (items : List SyncItem) :
    (pushItems changed items).result = none := by
  cases items <;> rfl

theorem result_body (request : Request) : (body request).result = none := by
  cases request with
  | push items => exact result_pushItems false items
  | putHeader header => rfl

theorem current_pushItems (changed : Bool) (items : List SyncItem) :
    (pushItems changed items).Current d := by
  cases items <;> trivial

theorem current_body (request : Request) : (body request).Current d := by
  cases request with
  | push items => exact current_pushItems false items
  | putHeader header => exact ⟨header, rfl⟩

theorem announces_pushItems (changed : Bool) (items : List SyncItem) :
    (pushItems changed items).Announces := by
  cases items <;> trivial

theorem pushItems_ne_failed (changed : Bool) (items : List SyncItem) (changed' : Bool)
    (e : Error) : pushItems changed items ≠ .done changed' (.error e) := by
  cases items <;> exact fun h => (by cases h)

theorem body_ne_failed (request : Request) (changed : Bool) (e : Error) :
    body request ≠ .done changed (.error e) := by
  cases request with
  | push items => exact pushItems_ne_failed false items changed e
  | putHeader header => exact fun h => (by cases h)

theorem announces_body (request : Request) : (body request).Announces := by
  cases request with
  | push items => exact announces_pushItems false items
  | putHeader header =>
    exact ⟨fun r hr => (by cases hr), fun _ => trivial, trivial, fun _ _ h => (by cases h)⟩

/-- A request that goes on. -/
theorem CallSound.moves (h : CallSound f d c) {pc : Pc} {touched : Path → Prop}
    (hb : Beside touched d e) (hok : ∀ changed e, c.pc ≠ .done changed (.error e))
    (hpending : ∀ y ∈ pc.pending, y ∈ c.pc.pending)
    (hoffered : ∀ y ∈ c.pc.pending, y ∈ pc.pending ∨
      (y.stamp : WithBot Stamp) ≤ rank SyncItem.stamp (e.files.item y.id))
    (hcurrent : pc.Current e) (hannounces : pc.Announces)
    (hlate : ∀ r, pc.result = some r → Late c.began r)
    (hreply : ∀ r, pc = .done true (.ok r) → r ≤ e.files.revision)
    (hfailed : ∀ changed e, pc ≠ .done changed (.error e)) :
    CallSound f e { c with pc := pc } where
  pending y hy := h.pending y (hpending y hy)
  offered _ y hy := by
    obtain hp | hle := h.offered hok y hy
    · exact hoffered y hp
    · exact Or.inr (hle.trans (hb.rank y.id))
  current := hcurrent
  began := UInt64.le_trans h.began hb.revision
  announces := hannounces
  late := hlate
  reply := hreply
  failed changed e he := (hfailed changed e he).elim

/-- A request that stops at a file that does not parse. -/
theorem CallSound.stops (h : CallSound f d c) {error : Error}
    (hfailed : c.interrupted = true ∨ ∃ path, Unreadable f path) :
    CallSound f d { c with pc := .done false (.error error) } where
  pending y hy := (by cases hy)
  offered hok := (hok _ _ rfl).elim
  current := trivial
  began := h.began
  announces := trivial
  late r hr := (by cases hr)
  reply r hr := (by cases hr)
  failed _ _ _ := hfailed

theorem late_saturatingSucc {began revision : UInt64} (h : began ≤ revision) :
    Late began (saturatingSucc revision) := by
  have hle := UInt64.le_iff_toNat_le.1 h
  have hsucc := FileBackend.toNat_saturatingSucc revision
  have hlt := revision.toNat_lt
  by_cases hfull : revision.toNat + 1 < 2 ^ 64
  · apply Or.inr
    rw [UInt64.lt_iff_toNat_lt]
    omega
  · apply Or.inl
    omega

/-- The end of a request, given the manifest of the moment. -/
theorem CallSound.concludes (h : CallSound f d c)
    (hok : ∀ changed e, c.pc ≠ .done changed (.error e)) (hpending : c.pc.pending = [])
    (changed : Bool) {manifest : Manifest} (hrevision : d.files.revision = manifest.revision) :
    CallSound f d { c with pc := conclude changed manifest } := by
  have hnone : ∀ y, y ∉ c.pc.pending := fun y hy => (by rw [hpending] at hy; cases hy)
  have hbump : d.files.revision ≤ manifest.bump.revision := by
    rw [hrevision]
    exact FileBackend.le_saturatingSucc manifest.revision
  cases changed with
  | true =>
    apply h.moves (.refl (fun _ => False) d) hok
    case hpending => exact fun y hy => (by cases hy)
    case hoffered => exact fun y hy => (hnone y hy).elim
    case hcurrent => exact ⟨manifest.bump, rfl, hbump⟩
    case hannounces =>
      exact ⟨fun r hr => hr, fun _ => trivial, trivial, fun _ _ he => (by cases he)⟩
    case hlate =>
      intro r hr
      cases hr
      apply late_saturatingSucc
      rw [← hrevision]
      exact h.began
    case hreply => exact fun r hr => (by cases hr)
    case hfailed => exact fun _ _ he => (by cases he)
  | false =>
    apply h.moves (.refl (fun _ => False) d) hok
    case hpending => exact fun y hy => (by cases hy)
    case hoffered => exact fun y hy => (hnone y hy).elim
    case hcurrent => trivial
    case hannounces => trivial
    case hlate => exact fun r hr => (by cases hr)
    case hreply => exact fun r hr => (by cases hr)
    case hfailed => exact fun _ _ he => (by cases he)

/-- A request that goes on by reading only. -/
theorem CallSound.looks (h : CallSound f d c) {pc : Pc}
    (hok : ∀ changed e, c.pc ≠ .done changed (.error e))
    (hpending : ∀ y ∈ pc.pending, y ∈ c.pc.pending)
    (hoffered : ∀ y ∈ c.pc.pending, y ∈ pc.pending ∨
      (y.stamp : WithBot Stamp) ≤ rank SyncItem.stamp (d.files.item y.id))
    (hcurrent : pc.Current d) (hannounces : pc.Announces) (hresult : pc.result = none)
    (hfailed : ∀ changed e, pc ≠ .done changed (.error e)) :
    CallSound f d { c with pc := pc } := by
  apply h.moves (.refl (fun _ => False) d) hok hpending hoffered hcurrent hannounces
  case hlate => exact fun r hr => (by rw [hresult] at hr; cases hr)
  case hreply => exact fun r hr => (by rw [hr] at hresult; cases hresult)
  case hfailed => exact hfailed

/-- Stored under the id, readable: the register holds it. -/
theorem item_of_get {id : Uuid} {item : SyncItem}
    (h : d.files.items.get id = some ⟨id, .ok item⟩) : d.files.item id = some item :=
  FileBackend.item_eq_some.2 h

theorem item_of_missing {id : Uuid} (h : d.files.items.get id = none) : d.files.item id = none := by
  unfold FileBackend.item
  rw [h]

/-- A request about to store an item that wins. -/
theorem CallSound.stores (h : CallSound f d c)
    (hok : ∀ changed e, c.pc ≠ .done changed (.error e)) {incoming : SyncItem}
    {items : List SyncItem} (hpending : c.pc.pending = incoming :: items)
    (hwins : rank SyncItem.stamp (d.files.item incoming.id) < (incoming.stamp : WithBot Stamp)) :
    CallSound f d { c with
      pc := .write (.item incoming.id) (.ok incoming) (pushItems true items) } := by
  have hsame : (Pc.write (.item incoming.id) (.ok incoming) (pushItems true items)).pending =
      c.pc.pending := by
    simp [Pc.pending, written, hpending]
  apply h.looks hok
  case hpending => exact fun y hy => (by rwa [hsame] at hy)
  case hoffered => exact fun y hy => Or.inl (by rwa [hsame])
  case hcurrent => exact ⟨incoming, rfl, rfl, hwins⟩
  case hannounces =>
    exact ⟨fun r hr => (by rw [result_pushItems] at hr; cases hr),
      fun _ => current_pushItems _ _, announces_pushItems _ _, pushItems_ne_failed _ _⟩
  case hresult => exact result_pushItems _ _
  case hfailed => exact fun _ _ he => (by cases he)

/-- A step of a request touches the file it is inside, and leaves what it relies on. -/
theorem CallSound.next (h : CallSound f d c) (hf : ∀ path, Unreadable d.files path →
    Unreadable f path) {r : Except Error Pc} (hnext : next d c.pc = (r, e)) :
    Beside (fun q => c.pc.inside = some q) d e ∧ CallSound f e { c with pc := settle r } := by
  have hcurrent := h.current
  obtain ⟨request, began, interrupted, pc⟩ := c
  cases pc with
  | ensureLayout request' =>
    cases hm : d.files.manifest with
    | some manifest =>
      simp only [BackendRaces.next, hm] at hnext
      cases hnext
      refine ⟨.refl _ d, h.looks (fun _ _ he => (by cases he)) ?_ ?_ (current_body _)
        (announces_body _) (result_body _) (body_ne_failed _)⟩
      · exact fun y hy => (by simpa [Pc.pending] using hy)
      · exact fun y hy => Or.inl (by simpa [Pc.pending] using hy)
    | none =>
      simp only [BackendRaces.next, hm] at hnext
      cases hnext
      refine ⟨.refl _ d, h.looks (fun _ _ he => (by cases he)) ?_ ?_ ?_ ?_ (result_body _)
        (fun _ _ he => (by cases he))⟩
      · exact fun y hy => (by simpa [Pc.pending, written] using hy)
      · exact fun y hy => Or.inl (by simpa [Pc.pending, written] using hy)
      · refine ⟨.default, rfl, ?_⟩
        rw [FileBackend.revision, hm]
        exact UInt64.le_refl _
      · exact ⟨fun r hr => (by rw [result_body] at hr; cases hr), fun _ => current_body _,
          announces_body _, body_ne_failed _⟩
  | write path value k =>
    cases hnext
    have hb : Beside (fun q => (Pc.write path value k).inside = some q) d
        { d with tmp := Function.update d.tmp path (some value) } :=
      .of_files rfl fun q hq => Function.update_of_ne (fun hc => hq (by rw [hc]; rfl)) _ _
    refine ⟨hb, h.moves hb (fun _ _ he => (by cases he)) (fun y hy => hy)
      (fun y hy => Or.inl hy) ?_ h.announces h.late (fun r hr => (by cases hr))
      (fun _ _ he => (by cases he))⟩
    exact ⟨Function.update_self _ _ _, hcurrent⟩
  | rename path value k =>
    obtain ⟨htmp, hjustified⟩ := hcurrent
    simp only [BackendRaces.next, htmp] at hnext
    cases hnext
    have hplaced := beside_place hjustified (Function.update d.tmp path none)
      fun q hq => Function.update_of_ne hq _ _
    have hb : Beside (fun q => (Pc.rename path value k).inside = some q) d
        ⟨place d.files path value, Function.update d.tmp path none⟩ :=
      hplaced.mono fun q hq => (by rw [hq]; rfl)
    obtain ⟨hresult, hfollows, hannounces, hfailed⟩ := h.announces
    refine ⟨hb, h.moves hb (fun _ _ he => (by cases he)) ?_ ?_ (hfollows _) hannounces h.late ?_
      hfailed⟩
    · exact fun y hy => List.mem_append_right _ hy
    · intro y hy
      obtain hy | hy := List.mem_append.1 hy
      · exact Or.inr (stamp_le_place hjustified hy)
      · exact Or.inl hy
    · intro r hr
      have hk : k = .done true (.ok r) := hr
      rw [revision_place (hresult r (by rw [hk]; rfl))]
      exact UInt64.le_refl r
  | findItem changed incoming items =>
    cases hg : d.files.items.get incoming.id with
    | none =>
      simp only [BackendRaces.next, hg] at hnext
      cases hnext
      refine ⟨.refl _ d, h.stores (fun _ _ he => (by cases he)) rfl ?_⟩
      rw [item_of_missing hg]
      exact WithBot.bot_lt_coe _
    | some file =>
      simp only [BackendRaces.next, hg] at hnext
      cases hnext
      refine ⟨.refl _ d, h.looks (fun _ _ he => (by cases he)) (fun y hy => hy)
        (fun y hy => Or.inl hy) ?_ trivial rfl (fun _ _ he => (by cases he))⟩
      change (d.files.items.get incoming.id).isSome = true
      rw [hg]
      rfl
  | readItem changed incoming items =>
    cases hg : d.files.items.get incoming.id with
    | none =>
      have hsome : (d.files.items.get incoming.id).isSome = true := hcurrent
      rw [hg] at hsome
      cases hsome
    | some file =>
      obtain ⟨name, content⟩ := file
      obtain rfl : name = incoming.id := Table.get_key hg
      cases content with
      | error e =>
        simp only [BackendRaces.next, hg] at hnext
        cases hnext
        exact ⟨.refl _ d, h.stops (Or.inr ⟨.item incoming.id, hf _ ⟨e, hg⟩⟩)⟩
      | ok existing =>
        have hitem := item_of_get hg
        cases hw : itemWinsOver incoming existing with
        | true =>
          simp only [BackendRaces.next, hg, hw, if_true] at hnext
          cases hnext
          refine ⟨.refl _ d, h.stores (fun _ _ he => (by cases he)) rfl ?_⟩
          rw [hitem, rank_some, WithBot.coe_lt_coe]
          exact (itemWinsOver_iff incoming existing).1 hw
        | false =>
          simp only [BackendRaces.next, hg, hw, Bool.false_eq_true, if_false] at hnext
          cases hnext
          refine ⟨.refl _ d, h.looks (fun _ _ he => (by cases he)) ?_ ?_ (current_pushItems _ _)
            (announces_pushItems _ _) (result_pushItems _ _) (pushItems_ne_failed _ _)⟩
          · intro y hy
            rw [settle_ok, pending_pushItems] at hy
            exact List.mem_cons_of_mem _ hy
          · intro y hy
            obtain rfl | hy := List.mem_cons.1 hy
            · apply Or.inr
              rw [hitem, rank_some, WithBot.coe_le_coe]
              apply not_lt.1
              rw [← itemWinsOver_iff, hw]
              exact Bool.false_ne_true
            · exact Or.inl (by rwa [settle_ok, pending_pushItems])
  | findManifest changed =>
    cases hm : d.files.manifest with
    | none =>
      simp only [BackendRaces.next, hm] at hnext
      cases hnext
      refine ⟨.refl _ d, h.concludes (fun _ _ he => (by cases he)) rfl changed ?_⟩
      rw [FileBackend.revision, hm]
      rfl
    | some manifest =>
      simp only [BackendRaces.next, hm] at hnext
      cases hnext
      refine ⟨.refl _ d, h.looks (fun _ _ he => (by cases he)) (fun y hy => hy)
        (fun y hy => Or.inl hy) ?_ trivial rfl (fun _ _ he => (by cases he))⟩
      change d.files.manifest.isSome = true
      rw [hm]
      rfl
  | readManifest changed =>
    cases hm : d.files.manifest with
    | none =>
      have hsome : d.files.manifest.isSome = true := hcurrent
      rw [hm] at hsome
      cases hsome
    | some content =>
      cases content with
      | ok manifest =>
        simp only [BackendRaces.next, hm] at hnext
        cases hnext
        refine ⟨.refl _ d, h.concludes (fun _ _ he => (by cases he)) rfl changed ?_⟩
        rw [FileBackend.revision, hm]
      | error e =>
        simp only [BackendRaces.next, hm] at hnext
        cases hnext
        exact ⟨.refl _ d, h.stops (Or.inr ⟨.manifest, hf _ ⟨e, hm⟩⟩)⟩
  | done changed outcome =>
    cases hnext
    exact ⟨.refl _ d, h⟩

/-- Only a rename changes the files. -/
theorem next_files (d : Directory) (pc : Pc) :
    (next d pc).2.files = d.files ∨ ∃ path value k, pc = .rename path value k := by
  cases pc with
  | ensureLayout request => cases hm : d.files.manifest <;> simp [BackendRaces.next, hm]
  | write path value k => exact Or.inl rfl
  | rename path value k => exact Or.inr ⟨path, value, k, rfl⟩
  | findItem changed incoming items =>
    cases hg : d.files.items.get incoming.id <;> simp [BackendRaces.next, hg]
  | readItem changed incoming items =>
    rcases hg : d.files.items.get incoming.id with _ | ⟨name, _ | existing⟩ <;>
      simp [BackendRaces.next, hg]
  | findManifest changed => cases hm : d.files.manifest <;> simp [BackendRaces.next, hm]
  | readManifest changed =>
    rcases hm : d.files.manifest with _ | _ | manifest <;> simp [BackendRaces.next, hm]
  | done changed outcome => exact Or.inl rfl

/-- What a step stores was pending. -/
theorem CallSound.stored (h : CallSound f d c) {r : Except Error Pc}
    (hnext : BackendRaces.next d c.pc = (r, e)) {id : Uuid} {y : SyncItem}
    (hy : e.files.item id = some y) :
    d.files.item id = some y ∨ (y ∈ c.pc.pending ∧ y.id = id) := by
  have hcurrent := h.current
  have hfiles := next_files d c.pc
  rw [hnext] at hfiles
  obtain hsame | ⟨path, value, k, hpc⟩ := hfiles
  · rw [show e.files = d.files from hsame] at hy
    exact Or.inl hy
  · rw [hpc] at hcurrent hnext ⊢
    obtain ⟨htmp, hjustified⟩ := hcurrent
    simp only [BackendRaces.next, htmp] at hnext
    cases hnext
    cases path with
    | manifest => exact Or.inl hy
    | header => exact Or.inl hy
    | item id' =>
      obtain ⟨item, rfl, rfl, -⟩ := hjustified
      rw [item_place_item] at hy
      by_cases hid : id = item.id
      · rw [if_pos hid, Option.some.injEq] at hy
        subst hy
        exact Or.inr ⟨List.mem_cons_self, hid.symm⟩
      · rw [if_neg hid] at hy
        exact Or.inl hy

end Next

/-! ## Every run -/

section Runs
variable {T : Type} [DecidableEq T] {f : FileBackend} {x : Site T} {t : T} {c c' : Call}

structure SiteSound (f : FileBackend) (x : Site T) : Prop where
  exclusive : Exclusive x
  calls : ∀ t c, x.calls t = some c → CallSound f x.directory c
  stored : ∀ id y, x.directory.files.item id = some y → Offered f x id y
  kept : ∀ id, rank SyncItem.stamp (f.item id) ≤ rank SyncItem.stamp (x.directory.files.item id)
  unreadable : ∀ path, Unreadable x.directory.files path → Unreadable f path

theorem calls_set {d : Directory} {u : T} (h : (x.set t d c').calls u = some c) :
    (u = t ∧ c' = c) ∨ (u ≠ t ∧ x.calls u = some c) := by
  by_cases hut : u = t
  · subst u
    simp only [Site.set, Function.update_self, Option.some.injEq] at h
    exact Or.inl ⟨rfl, h⟩
  · simp only [Site.set, Function.update_of_ne hut] at h
    exact Or.inr ⟨hut, h⟩

theorem Offered.set {id : Uuid} {y : SyncItem} (h : Offered f x id y) {d : Directory}
    (hrequest : ∀ c, x.calls t = some c → c'.request = c.request) :
    Offered f (x.set t d c') id y := by
  obtain h | ⟨u, c, hu, hy, hid⟩ := h
  · exact Or.inl h
  · apply Or.inr
    by_cases hut : u = t
    · subst u
      exact ⟨t, c', Function.update_self _ _ _, by rwa [hrequest c hu], hid⟩
    · exact ⟨u, c, (Function.update_of_ne hut _ _).trans hu, hy, hid⟩

/-- A step of one request that touches only the file it is inside keeps the site sound. -/
theorem SiteSound.set (h : SiteSound f x) {e : Directory} (hexclusive : Exclusive (x.set t e c'))
    (ht : x.calls t = some c) (hrequest : c'.request = c.request)
    (hbeside : Beside (fun q => c.pc.inside = some q) x.directory e)
    (hcall : CallSound f e c')
    (hstored : ∀ id y, e.files.item id = some y →
      x.directory.files.item id = some y ∨ (y ∈ c.pc.pending ∧ y.id = id)) :
    SiteSound f (x.set t e c') where
  exclusive := hexclusive
  calls u c'' hu := by
    obtain ⟨-, rfl⟩ | ⟨hne, hu⟩ := calls_set hu
    · exact hcall
    · apply (h.calls u c'' hu).beside hbeside
      intro path hpath hinside
      exact h.exclusive u t c'' c path hne hu ht hpath hinside
  stored id y hy := by
    obtain hy | ⟨hy, hid⟩ := hstored id y hy
    · apply (h.stored id y hy).set
      intro c₀ hc₀
      rw [ht] at hc₀
      cases hc₀
      exact hrequest
    · refine Or.inr ⟨t, c', Function.update_self _ _ _, ?_, hid⟩
      rw [hrequest]
      exact (h.calls t c ht).pending y hy
  kept id := (h.kept id).trans (hbeside.rank id)
  unreadable path hpath := h.unreadable path (hbeside.unreadable path hpath)

theorem beside_spoil (d : Directory) (left : (path : Path) → Option (Document path)) (pc : Pc) :
    Beside (fun q => pc.inside = some q) d (d.spoil left pc) := by
  cases pc with
  | write path value k =>
    exact .of_files rfl fun q hq => Function.update_of_ne (fun hc => hq (by rw [hc]; rfl)) _ _
  | _ => exact .refl _ d

theorem files_spoil (d : Directory) (left : (path : Path) → Option (Document path)) (pc : Pc) :
    (d.spoil left pc).files = d.files := by
  cases pc <;> rfl

theorem SiteSound.begin (h : SiteSound f x) (ht : x.calls t = none) (request : Request) :
    SiteSound f (x.set t x.directory
      ⟨request, x.directory.files.revision, false, .ensureLayout request⟩) where
  exclusive u w c e path hne hu hw hpath hinside := by
    obtain ⟨rfl, rfl⟩ | ⟨-, hu⟩ := calls_set hu
    · cases hpath
    · obtain ⟨rfl, rfl⟩ | ⟨-, hw⟩ := calls_set hw
      · cases hinside
      · exact h.exclusive u w c e path hne hu hw hpath hinside
  calls u c hu := by
    obtain ⟨-, rfl⟩ | ⟨-, hu⟩ := calls_set hu
    · constructor
      case pending => exact fun y hy => hy
      case offered => exact fun _ y hy => Or.inl hy
      case current => trivial
      case began => exact UInt64.le_refl _
      case announces => trivial
      case late => exact fun r hr => (by cases hr)
      case reply => exact fun r hr => (by cases hr)
      case failed => exact fun _ _ he => (by cases he)
    · exact h.calls u c hu
  stored id y hy := (h.stored id y hy).set fun c hc => (by rw [ht] at hc; cases hc)
  kept := h.kept
  unreadable := h.unreadable

omit [DecidableEq T] in
theorem CallSound.refused (h : CallSound f x.directory c) {e : Directory}
    (hfiles : e.files = x.directory.files) (message : String) :
    CallSound f e { c with interrupted := true, pc := .done false (.error (.io message)) } := by
  constructor
  case pending => exact fun y hy => (by cases hy)
  case offered => exact fun hok => (hok _ _ rfl).elim
  case current => trivial
  case began => rw [hfiles]; exact h.began
  case announces => trivial
  case late => exact fun r hr => (by cases hr)
  case reply => exact fun r hr => (by cases hr)
  case failed => exact fun _ _ _ => Or.inl rfl

theorem SiteSound.perform (h : SiteSound f x) {step : Step T}
    (hexclusive : Exclusive (perform x step)) : SiteSound f (perform x step) := by
  cases step with
  | begin t request =>
    cases ht : x.calls t with
    | some c =>
      simp only [BackendRaces.perform, ht]
      exact h
    | none =>
      simp only [BackendRaces.perform, ht]
      exact h.begin ht request
  | advance t =>
    cases ht : x.calls t with
    | none =>
      simp only [BackendRaces.perform, ht]
      exact h
    | some c =>
      have hc := h.calls t c ht
      rcases hnext : next x.directory c.pc with ⟨r, e⟩
      obtain ⟨hbeside, hcall⟩ := hc.next h.unreadable hnext
      simp only [BackendRaces.perform, ht, hnext] at hexclusive ⊢
      exact h.set hexclusive ht rfl hbeside hcall fun id y hy => hc.stored hnext hy
  | fail t message left =>
    cases ht : x.calls t with
    | none =>
      simp only [BackendRaces.perform, ht]
      exact h
    | some c =>
      cases hreturned : c.pc.returned with
      | true =>
        simp only [BackendRaces.perform, ht, hreturned, if_true]
        exact h
      | false =>
        simp only [BackendRaces.perform, ht, hreturned, Bool.false_eq_true, if_false]
          at hexclusive ⊢
        have hfiles := files_spoil x.directory left c.pc
        apply h.set hexclusive ht rfl (beside_spoil x.directory left c.pc)
        · exact (h.calls t c ht).refused hfiles message
        · intro id y hy
          rw [hfiles] at hy
          exact Or.inl hy

theorem SiteSound.run (h : SiteSound f x) {steps : List (Step T)} (hsteps : Along x steps) :
    SiteSound f (run x steps) := by
  induction steps generalizing x with
  | nil => exact h
  | cons step steps ih => exact ih (h.perform hsteps.1) hsteps.2

/-- While no two requests are about to replace one file, the requests on a directory leave
every register at the latest of what was pushed to it. -/
theorem concurrent_requests (hidle : ∀ t, x.calls t = none) {steps : List (Step T)}
    (h : Along x steps) :
    (∀ t c changed e, (run x steps).calls t = some c → c.pc = .done changed (.error e) →
      c.interrupted = true ∨ ∃ path, Unreadable x.directory.files path) ∧
    ((∀ t c, (run x steps).calls t = some c → ∃ changed r, c.pc = .done changed (.ok r)) →
      ∀ id, IsLatest SyncItem.stamp (Offered x.directory.files (run x steps) id)
        ((run x steps).directory.files.item id)) ∧
    ∀ t c r, (run x steps).calls t = some c → c.pc = .done true (.ok r) →
      Late c.began r ∧ ∀ since items cursor g, since.parseRevision < r →
        FileBackend.pull since (run x steps).directory.files = (.ok (items, cursor), g) →
        ∀ id y, (run x steps).directory.files.item id = some y → y ∈ items := by
  have hstart : SiteSound x.directory.files x := by
    constructor
    case exclusive => exact fun t _ c _ _ _ ht => (by rw [hidle t] at ht; cases ht)
    case calls => exact fun t c ht => (by rw [hidle t] at ht; cases ht)
    case stored => exact fun id y hy => Or.inl hy
    case kept => exact fun id => le_refl _
    case unreadable => exact fun path hpath => hpath
  have hsound := hstart.run h
  refine ⟨fun t c changed e ht => (hsound.calls t c ht).failed changed e, ?_, ?_⟩
  · intro hall id
    refine ⟨fun y hy => hsound.stored id y hy, ?_⟩
    rintro y (hy | ⟨t, c, ht, hy, rfl⟩)
    · have hkept := hsound.kept id
      rwa [hy, rank_some] at hkept
    · obtain ⟨changed, r, hdone⟩ := hall t c ht
      obtain hp | hle := (hsound.calls t c ht).offered
        (fun _ _ he => (by rw [hdone] at he; cases he)) y hy
      · rw [hdone] at hp
        cases hp
      · exact hle
  · intro t c r ht hdone
    have hc := hsound.calls t c ht
    refine ⟨hc.late r (by rw [hdone]; rfl), ?_⟩
    intro since items cursor g hsince hpull id y hy
    obtain ⟨-, -, -, hitems⟩ := FileBackend.pull_eq_ok hpull
    have hlt : since.parseRevision < (BackendRaces.run x steps).directory.files.revision :=
      UInt64.lt_of_lt_of_le hsince (hc.reply r hdone)
    exact (hitems hlt y).2 (FileBackend.holds_of_item hy)

end Runs

section Samples

/-- Whether two requests are about to replace one file. -/
def apart (x : Site Bool) : Bool :=
  match (x.calls true).bind fun c => c.pc.inside, (x.calls false).bind fun c => c.pc.inside with
  | some path, some path' => path ≠ path'
  | _, _ => true

theorem exclusive_of_apart {x : Site Bool} (h : apart x = true) : Exclusive x := by
  have hboth : ∀ c e path, x.calls true = some c → x.calls false = some e →
      c.pc.inside = some path → e.pc.inside = some path → False := by
    intro c e path ht hf hc he
    simp [apart, ht, hf, hc, he] at h
  intro t u c e path hne ht hu hc he
  cases t <;> cases u
  case true.true => exact hne rfl
  case false.false => exact hne rfl
  case true.false => exact hboth c e path ht hu hc he
  case false.true => exact hboth e c path hu ht he hc

def allApart : Site Bool → List (Step Bool) → Bool
  | _, [] => true
  | x, step :: steps => apart (perform x step) && allApart (perform x step) steps

theorem along_of_allApart {x : Site Bool} {steps : List (Step Bool)}
    (h : allApart x steps = true) : Along x steps := by
  induction steps generalizing x with
  | nil => trivial
  | cons step steps ih =>
    simp only [allApart, Bool.and_eq_true] at h
    exact ⟨exclusive_of_apart h.1, ih h.2⟩

def sampleId : Uuid := ⟨Block.fill 16 0⟩

def sampleItem (version : UInt64) : SyncItem := ⟨sampleId, "host", version, 0, false, "", ""⟩

def sampleSite : Site Bool :=
  ⟨⟨⟨some (.ok .default), none, Table.empty, 0, fun _ => none, fun _ => .asStored⟩,
    fun _ => none⟩, fun _ => none⟩

/-- Both pushes look for the file before either has written it. -/
def racingStart : List (Step Bool) :=
  [.begin true (.push [sampleItem 2]), .begin false (.push [sampleItem 1]), .advance true,
    .advance false, .advance true, .advance false]

/-- The later version is in place when the earlier one is renamed over it. -/
def overwriting : List (Step Bool) :=
  racingStart ++ [.advance true, .advance true, .advance false, .advance false, .advance true,
    .advance true, .advance true, .advance true, .advance false, .advance false, .advance false,
    .advance false]

/-- Both temporary files are written, to one name, before the first rename. -/
def colliding : List (Step Bool) :=
  racingStart ++ [.advance true, .advance false, .advance true, .advance false]

theorem concurrent_requests_fails :
    ((run sampleSite overwriting).calls true =
      some ⟨.push [sampleItem 2], 0, false, .done true (.ok 1)⟩ ∧
    (run sampleSite overwriting).calls false =
      some ⟨.push [sampleItem 1], 0, false, .done true (.ok 2)⟩ ∧
    ¬ IsLatest SyncItem.stamp (Offered sampleSite.directory.files (run sampleSite overwriting)
      sampleId) ((run sampleSite overwriting).directory.files.item sampleId)) ∧
    (run sampleSite colliding).calls false =
      some ⟨.push [sampleItem 1], 0, false, .done false (.error noSuchFile)⟩ ∧
    ∀ path, ¬ Unreadable sampleSite.directory.files path := by
  have htrue : (run sampleSite overwriting).calls true =
      some ⟨.push [sampleItem 2], 0, false, .done true (.ok 1)⟩ := rfl
  have hitem : (run sampleSite overwriting).directory.files.item sampleId =
      some (sampleItem 1) := rfl
  refine ⟨⟨htrue, rfl, ?_⟩, rfl, ?_⟩
  · rintro ⟨-, hlatest⟩
    have hle := hlatest (sampleItem 2) (Or.inr ⟨true, _, htrue, List.mem_cons_self, rfl⟩)
    rw [hitem, rank_some, WithBot.coe_le_coe] at hle
    revert hle
    decide +kernel
  · intro path hpath
    cases path with
    | manifest => obtain ⟨e, he⟩ := hpath; cases he
    | header => obtain ⟨e, he⟩ := hpath; cases he
    | item id => obtain ⟨e, he⟩ := hpath; cases he

/-- The earlier version is read against the later one. -/
def takingTurns : List (Step Bool) :=
  [.begin true (.push [sampleItem 2]), .begin false (.push [sampleItem 1]), .advance true,
    .advance true, .advance true, .advance false, .advance true, .advance true, .advance false,
    .advance true, .advance false, .advance true, .advance false, .advance true,
    .advance false]

theorem concurrent_requests_sample :
    IsLatest SyncItem.stamp (Offered sampleSite.directory.files (run sampleSite takingTurns)
      sampleId) (some (sampleItem 2)) ∧
    ∃ c, (run sampleSite takingTurns).calls true = some c ∧ Late c.began 1 := by
  have halong : Along sampleSite takingTurns := along_of_allApart (by decide +kernel)
  obtain ⟨-, hlatest, hlate⟩ := concurrent_requests (fun _ => rfl) halong
  refine ⟨?_, ⟨.push [sampleItem 2], 0, false, .done true (.ok 1)⟩, rfl, ?_⟩
  · refine hlatest (fun t c ht => ?_) sampleId
    cases t with
    | true => cases ht; exact ⟨true, 1, rfl⟩
    | false => cases ht; exact ⟨false, 1, rfl⟩
  · exact (hlate true _ 1 rfl rfl).1

end Samples
end Tethra.BackendRaces
