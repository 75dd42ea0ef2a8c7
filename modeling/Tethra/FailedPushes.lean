import Tethra.SyncFleets

set_option autoImplicit false

/-!
# Pushes that fail half way

Clients of one directory pull, push and put headers, one call at a time. A client keeps the
cursor of its last pull and takes, after a push, the later of that and the push's own.
-/
namespace Tethra.FailedPushes
open KeyedTables StampedRegisters StatefulActions SyncEngine SyncFileBackend SyncFleets SyncItems
open VaultTypes

structure Client where
  cursor : SyncCursor
  /-- The cursor its last pull returned. -/
  pulled : SyncCursor
  /-- What it was served and what it pushed. -/
  held : List SyncItem
  /-- No other client has stored an item since its last pull. -/
  current : Bool

structure Site (D : Type) where
  backend : FileBackend
  clients : D → Client
  /-- What failed pushes have stored and no revision covers. -/
  uncovered : List SyncItem

inductive Call (D : Type) where
  | pull (d : D)
  | push (d : D) (items : List SyncItem)
  | putHeader (header : SyncedVaultHeader)

/-- The items of a push that it stored. -/
def newlyStored (f g : FileBackend) (items : List SyncItem) : List SyncItem :=
  items.filter fun y => decide (g.item y.id = some y) && decide (f.item y.id ≠ some y)

def Client.afterPush (c : Client) (items : List SyncItem) : Except Error SyncCursor → Client
  | .ok pushCursor =>
      { c with cursor := laterCursor pushCursor c.pulled, held := items ++ c.held }
  | .error _ => { c with held := items ++ c.held }

def Client.afterPull (c : Client) : Except Error (List SyncItem × SyncCursor) → Client
  | .ok (items, cursor) => ⟨c.cursor, cursor, items ++ c.held, true⟩
  | .error _ => c

def Client.beside (c : Client) (stored : List SyncItem) : Client :=
  { c with current := c.current && stored.isEmpty }

def uncoveredAfter (uncovered stored : List SyncItem) : Except Error SyncCursor → List SyncItem
  | .ok _ => if stored.isEmpty then uncovered else []
  | .error _ => stored ++ uncovered

section Runs
variable {D : Type} [DecidableEq D]

def perform (x : Site D) : Call D → Site D
  | .pull d =>
    let out := FileBackend.pull (x.clients d).cursor x.backend
    { x with
      backend := out.2
      clients := Function.update x.clients d ((x.clients d).afterPull out.1) }
  | .push d items =>
    let out := FileBackend.push items x.backend
    let stored := newlyStored x.backend out.2 items
    { backend := out.2
      clients := fun e =>
        if e = d then (x.clients d).afterPush items out.1 else (x.clients e).beside stored
      uncovered := uncoveredAfter x.uncovered stored out.1 }
  | .putHeader header => { x with backend := (FileBackend.putHeader header x.backend).2 }

def run (x : Site D) (calls : List (Call D)) : Site D := calls.foldl perform x

/-- The call is a push and returns `Ok`. -/
def PushOk (x : Site D) : Call D → Prop
  | .push _ items => ∃ cursor, (FileBackend.push items x.backend).1 = .ok cursor
  | _ => False

/-- A successful push is by a client that has pulled since another stored an item. Where failed
pushes have left items no revision covers, it has them all and stores an item itself. -/
def Covered (x : Site D) (call : Call D) : Prop :=
  x.backend.revision.toNat + 1 < 2 ^ 64 ∧ (PushOk x call → ∀ d items, call = .push d items →
    (x.clients d).current = true ∧ (x.uncovered ≠ [] →
      (∀ y ∈ x.uncovered, y ∈ items) ∧
        ∃ y ∈ items, rank SyncItem.stamp (x.backend.item y.id) < (y.stamp : WithBot Stamp)))

def Along : Site D → List (Call D) → Prop
  | _, [] => True
  | x, call :: calls => Covered x call ∧ Along (perform x call) calls

structure Fresh (x : Site D) : Prop where
  held : ∀ y, ¬ x.backend.Holds y
  cursor : ∀ d, (x.clients d).cursor = .default ∧ (x.clients d).pulled = .default
  uncovered : x.uncovered = []

/-- A client at the revision has been served every stored content. -/
def Served (x : Site D) : Prop :=
  ∀ d y, x.backend.Holds y → x.backend.revision ≤ (x.clients d).cursor.parseRevision →
    y ∈ (x.clients d).held

structure Sound (x : Site D) : Prop where
  wellNamed : x.backend.WellNamed
  cursor : ∀ d, (x.clients d).cursor.parseRevision ≤ x.backend.revision
  pulled : ∀ d, (x.clients d).pulled.parseRevision ≤ x.backend.revision
  served : ∀ d y, x.backend.Holds y → y ∉ x.uncovered →
    x.backend.revision ≤ (x.clients d).cursor.parseRevision → y ∈ (x.clients d).held
  current : ∀ d y, (x.clients d).current = true → x.backend.Holds y → y ∉ x.uncovered →
    y ∈ (x.clients d).held

variable {x : Site D}

omit [DecidableEq D] in
theorem Fresh.sound (hx : Fresh x) : Sound x where
  wellNamed id y hy := absurd (FileBackend.holds_of_item hy) (hx.held y)
  cursor d := by
    rw [(hx.cursor d).1, parseRevision_default, UInt64.le_iff_toNat_le]
    exact Nat.zero_le _
  pulled d := by
    rw [(hx.cursor d).2, parseRevision_default, UInt64.le_iff_toNat_le]
    exact Nat.zero_le _
  served d y hy := absurd hy (hx.held y)
  current d y _ hy := absurd hy (hx.held y)

omit [DecidableEq D] in
/-- A call that leaves the items and the clients alone, whatever it does to the revision. -/
theorem Sound.of_items (hx : Sound x) {g : FileBackend} (hitems : g.items = x.backend.items)
    (hrev : x.backend.revision ≤ g.revision) : Sound { x with backend := g } where
  wellNamed id y hy := by
    rw [FileBackend.item, hitems] at hy
    exact hx.wellNamed id y hy
  cursor d := UInt64.le_trans (hx.cursor d) hrev
  pulled d := UInt64.le_trans (hx.pulled d) hrev
  served d y hy hcov hle := by
    rw [FileBackend.Holds, hitems] at hy
    exact hx.served d y hy hcov (UInt64.le_trans hrev hle)
  current d y hcur hy hcov := by
    rw [FileBackend.Holds, hitems] at hy
    exact hx.current d y hcur hy hcov

theorem Sound.pull (hx : Sound x) (d : D) : Sound (perform x (.pull d)) := by
  have hstored := FileBackend.leaves_pull (x.clients d).cursor x.backend
  rcases hout : FileBackend.pull (x.clients d).cursor x.backend with ⟨r, g⟩
  rw [hout] at hstored
  have hstored : g.stored = x.backend.stored := hstored
  have hsame : Sound { x with backend := g } :=
    hx.of_items (FileBackend.items_of_stored hstored)
      (UInt64.le_of_eq (FileBackend.revision_of_stored hstored).symm)
  have hperform : perform x (.pull d) =
      { x with backend := g, clients := Function.update x.clients d ((x.clients d).afterPull r) } := by
    rw [perform, hout]
  rw [hperform]
  cases r with
  | error e =>
    rw [Client.afterPull, Function.update_eq_self]
    exact hsame
  | ok answer =>
    obtain ⟨items, cursor⟩ := answer
    obtain ⟨-, hcursor, -, hall⟩ := FileBackend.pull_eq_ok hout
    -- what it was not served it held already
    have hheld : ∀ y, g.Holds y → y ∉ x.uncovered → y ∈ items ++ (x.clients d).held := by
      intro y hy hcov
      by_cases hlt : (x.clients d).cursor.parseRevision < x.backend.revision
      · rw [FileBackend.Holds, FileBackend.items_of_stored hstored] at hy
        exact List.mem_append_left _ ((hall hlt y).2 hy)
      · refine List.mem_append_right _ (hsame.served d y hy hcov ?_)
        change g.revision ≤ _
        rw [FileBackend.revision_of_stored hstored]
        exact UInt64.not_lt.1 hlt
    have hclient : ∀ e, Function.update x.clients d ((x.clients d).afterPull (.ok (items, cursor))) e =
        if e = d then ⟨(x.clients d).cursor, cursor, items ++ (x.clients d).held, true⟩
        else x.clients e := fun e => Function.update_apply _ _ _ _
    constructor
    case wellNamed => exact hsame.wellNamed
    case cursor =>
      intro e
      dsimp only
      rw [hclient]
      by_cases he : e = d
      · rw [if_pos he]
        exact hsame.cursor d
      · rw [if_neg he]
        exact hsame.cursor e
    case pulled =>
      intro e
      dsimp only
      rw [hclient]
      by_cases he : e = d
      · rw [if_pos he]
        dsimp only
        rw [hcursor, parseRevision_fromRevision, FileBackend.revision_of_stored hstored]
        exact UInt64.le_refl _
      · rw [if_neg he]
        exact hsame.pulled e
    case served =>
      intro e y hy hcov hle
      dsimp only at *
      rw [hclient] at hle ⊢
      by_cases he : e = d
      · rw [if_pos he]
        exact hheld y hy hcov
      · rw [if_neg he] at hle ⊢
        exact hsame.served e y hy hcov hle
    case current =>
      intro e y hcur hy hcov
      dsimp only at *
      rw [hclient] at hcur ⊢
      by_cases he : e = d
      · rw [if_pos he]
        exact hheld y hy hcov
      · rw [if_neg he] at hcur ⊢
        exact hsame.current e y hcur hy hcov

theorem mem_newlyStored {f g : FileBackend} {items done : List SyncItem} (hg : g.WellNamed)
    (hdone : done <+: items) (hoff : FileBackend.Offered f g done) {y : SyncItem}
    (hy : g.Holds y) : f.Holds y ∨ y ∈ newlyStored f g items := by
  by_cases hf : f.Holds y
  · exact Or.inl hf
  · refine Or.inr (List.mem_filter.2 ⟨hdone.subset ((hoff.holds y hy).resolve_left hf), ?_⟩)
    rw [Bool.and_eq_true, decide_eq_true_eq, decide_eq_true_eq]
    exact ⟨(hg.holds_iff y).1 hy, fun hitem => hf (FileBackend.holds_of_item hitem)⟩

theorem laterCursor_le {pushed remote : SyncCursor} {revision : UInt64}
    (hpushed : pushed.parseRevision ≤ revision) (hremote : remote.parseRevision ≤ revision) :
    (laterCursor pushed remote).parseRevision ≤ revision := by
  unfold laterCursor
  split
  · exact hpushed
  · exact hremote

omit [DecidableEq D] in
/-- Everything a push does that the clients depend on. -/
theorem push_cases (hname : x.backend.WellNamed) (items : List SyncItem)
    {r : Except Error SyncCursor} {g : FileBackend}
    (hout : FileBackend.push items x.backend = (r, g)) :
    g.WellNamed ∧ x.backend.revision ≤ g.revision ∧
      (∀ y, g.Holds y → x.backend.Holds y ∨ y ∈ newlyStored x.backend g items) ∧
      ∀ cursor, r = .ok cursor → cursor = SyncCursor.fromRevision g.revision ∧
        (newlyStored x.backend g items ≠ [] → g.revision = saturatingSucc x.backend.revision) ∧
        ((∃ y ∈ items, rank SyncItem.stamp (x.backend.item y.id) < (y.stamp : WithBot Stamp)) →
          newlyStored x.backend g items ≠ []) := by
  obtain ⟨done, hdone, hoff, hrev, hok⟩ := FileBackend.push_spec items x.backend
  rw [hout] at hoff hrev hok
  have hg : g.WellNamed := hoff.wellNamed hname
  refine ⟨hg, ?_, fun y hy => mem_newlyStored hg hdone hoff hy, fun cursor hcursor => ?_⟩
  · obtain hrev | hrev := hrev
    · exact UInt64.le_of_eq hrev.symm
    · exact UInt64.le_trans (FileBackend.le_saturatingSucc _) (UInt64.le_of_eq hrev.symm)
  · obtain ⟨rfl, hpushed, hchange⟩ := hok cursor hcursor
    refine ⟨hpushed, fun hne => ?_, fun ⟨y, hy, hlt⟩ => ?_⟩
    · obtain ⟨y, hy⟩ := List.exists_mem_of_ne_nil _ hne
      have hdiff := (List.mem_filter.1 hy).2
      rw [Bool.and_eq_true, decide_eq_true_eq, decide_eq_true_eq] at hdiff
      obtain ⟨-, hsame⟩ | hbump := hchange
      · exact absurd ((hsame y.id).symm.trans hdiff.1) hdiff.2
      · exact hbump
    · -- the item that ends up under the identifier of a winner is new
      have hle := hoff.stamp_le hy
      have hlater : rank SyncItem.stamp (x.backend.item y.id) <
          rank SyncItem.stamp (g.item y.id) := hlt.trans_le hle
      obtain ⟨z, hz⟩ : ∃ z, g.item y.id = some z := by
        cases hz : g.item y.id with
        | none =>
          rw [hz] at hlater
          exact absurd hlater not_lt_bot
        | some z => exact ⟨z, rfl⟩
      have hid : z.id = y.id := hg y.id z hz
      have hdiff : x.backend.item y.id ≠ some z := by
        intro he
        rw [he, hz] at hlater
        exact absurd hlater (lt_irrefl _)
      obtain hold | hnew := mem_newlyStored hg hdone hoff (FileBackend.holds_of_item hz)
      · rw [hname.holds_iff z, hid] at hold
        exact absurd hold hdiff
      · exact List.ne_nil_of_mem hnew

theorem Sound.push (hx : Sound x) {d : D} {items : List SyncItem}
    (hcall : Covered x (.push d items)) : Sound (perform x (.push d items)) := by
  rcases hout : FileBackend.push items x.backend with ⟨r, g⟩
  obtain ⟨hname, hrev, hheld, hok⟩ := push_cases hx.wellNamed items hout
  set stored := newlyStored x.backend g items with hstored
  have hperform : perform x (.push d items) =
      { backend := g
        clients := fun e =>
          if e = d then (x.clients d).afterPush items r else (x.clients e).beside stored
        uncovered := uncoveredAfter x.uncovered stored r } := by
    rw [perform, hout]
  have hnew : ∀ y ∈ stored, y ∈ items := fun y hy => (List.mem_filter.1 hy).1
  rw [hperform]
  cases r with
  | error e =>
    constructor
    case wellNamed => exact hname
    case cursor =>
      intro e
      dsimp only
      by_cases he : e = d
      · rw [if_pos he]
        exact UInt64.le_trans (hx.cursor d) hrev
      · rw [if_neg he]
        exact UInt64.le_trans (hx.cursor e) hrev
    case pulled =>
      intro e
      dsimp only
      by_cases he : e = d
      · rw [if_pos he]
        exact UInt64.le_trans (hx.pulled d) hrev
      · rw [if_neg he]
        exact UInt64.le_trans (hx.pulled e) hrev
    case served =>
      intro e y hy hcov hle
      have hcov' : y ∉ stored ∧ y ∉ x.uncovered := by
        simpa [uncoveredAfter] using hcov
      have hy' : x.backend.Holds y := (hheld y hy).resolve_right hcov'.1
      dsimp only at hle ⊢
      by_cases he : e = d
      · rw [if_pos he] at hle ⊢
        exact List.mem_append_right _ (hx.served d y hy' hcov'.2 (UInt64.le_trans hrev hle))
      · rw [if_neg he] at hle ⊢
        exact hx.served e y hy' hcov'.2 (UInt64.le_trans hrev hle)
    case current =>
      intro e y hcur hy hcov
      have hcov' : y ∉ stored ∧ y ∉ x.uncovered := by
        simpa [uncoveredAfter] using hcov
      have hy' : x.backend.Holds y := (hheld y hy).resolve_right hcov'.1
      dsimp only at hcur ⊢
      by_cases he : e = d
      · rw [if_pos he] at hcur ⊢
        exact List.mem_append_right _ (hx.current d y hcur hy' hcov'.2)
      · rw [if_neg he] at hcur ⊢
        exact hx.current e y (Bool.and_eq_true_iff.1 hcur).1 hy' hcov'.2
  | ok cursor =>
    obtain ⟨hcursor, hbump, -⟩ := hok cursor rfl
    obtain ⟨hbound, hpush⟩ := hcall
    obtain ⟨hcurrent, hcovers⟩ := hpush ⟨cursor, by rw [hout]⟩ d items rfl
    -- the pushing client holds all there is
    have hall : ∀ y, g.Holds y → y ∉ uncoveredAfter x.uncovered stored (.ok cursor) →
        y ∈ items ++ (x.clients d).held := by
      intro y hy hcov
      obtain hold | hin := hheld y hy
      · by_cases hunc : y ∈ x.uncovered
        · exact List.mem_append_left _ ((hcovers (List.ne_nil_of_mem hunc)).1 y hunc)
        · exact List.mem_append_right _ (hx.current d y hcurrent hold hunc)
      · exact List.mem_append_left _ (hnew y hin)
    -- the others are behind, or nothing was stored
    have hothers : stored ≠ [] → ∀ e, (x.clients e).cursor.parseRevision < g.revision := by
      intro hne e
      have hlt : x.backend.revision < g.revision := by
        rw [hbump hne, UInt64.lt_iff_toNat_lt, FileBackend.toNat_saturatingSucc]
        omega
      exact UInt64.lt_of_le_of_lt (hx.cursor e) hlt
    have hsame : stored = [] → uncoveredAfter x.uncovered stored (.ok cursor) = x.uncovered ∧
        ∀ y, g.Holds y → x.backend.Holds y := by
      intro hnil
      refine ⟨by rw [uncoveredAfter, hnil]; rfl, fun y hy => (hheld y hy).resolve_right ?_⟩
      rw [hnil]
      exact List.not_mem_nil
    constructor
    case wellNamed => exact hname
    case cursor =>
      intro e
      dsimp only
      by_cases he : e = d
      · rw [if_pos he]
        refine laterCursor_le ?_ (UInt64.le_trans (hx.pulled d) hrev)
        rw [hcursor, parseRevision_fromRevision]
        exact UInt64.le_refl _
      · rw [if_neg he]
        exact UInt64.le_trans (hx.cursor e) hrev
    case pulled =>
      intro e
      dsimp only
      by_cases he : e = d
      · rw [if_pos he]
        exact UInt64.le_trans (hx.pulled d) hrev
      · rw [if_neg he]
        exact UInt64.le_trans (hx.pulled e) hrev
    case served =>
      intro e y hy hcov hle
      dsimp only at hle ⊢
      by_cases he : e = d
      · rw [if_pos he]
        exact hall y hy hcov
      · rw [if_neg he] at hle ⊢
        by_cases hnil : stored = []
        · obtain ⟨hunc, hback⟩ := hsame hnil
          dsimp only at hcov
          rw [hunc] at hcov
          exact hx.served e y (hback y hy) hcov (UInt64.le_trans hrev hle)
        · exact absurd hle (UInt64.not_le.2 (hothers hnil e))
    case current =>
      intro e y hcur hy hcov
      dsimp only at hcur ⊢
      by_cases he : e = d
      · rw [if_pos he]
        exact hall y hy hcov
      · rw [if_neg he] at hcur ⊢
        obtain ⟨hcur', hempty⟩ := Bool.and_eq_true_iff.1 hcur
        obtain ⟨hunc, hback⟩ := hsame (List.isEmpty_iff.1 hempty)
        dsimp only at hcov
        rw [hunc] at hcov
        exact hx.current e y hcur' (hback y hy) hcov

theorem Sound.perform (hx : Sound x) {call : Call D} (hcall : Covered x call) :
    Sound (perform x call) := by
  cases call with
  | pull d => exact hx.pull d
  | push d items => exact hx.push hcall
  | putHeader header =>
    obtain ⟨hitems, -, hrev, -⟩ := FileBackend.putHeader_spec header x.backend
    refine hx.of_items hitems ?_
    obtain hrev | hrev := hrev
    · exact UInt64.le_of_eq hrev.symm
    · exact UInt64.le_trans (FileBackend.le_saturatingSucc _) (UInt64.le_of_eq hrev.symm)

theorem Sound.run (hx : Sound x) {calls : List (Call D)} (h : Along x calls) :
    Sound (run x calls) := by
  induction calls generalizing x with
  | nil => exact hx
  | cons call calls ih => exact ih (hx.perform h.1) h.2

/-- After a successful push a client at the revision has been served everything. -/
theorem Sound.served_of_push (hx : Sound x) {call : Call D} (hcall : Covered x call)
    (hok : PushOk x call) : Served (FailedPushes.perform x call) := by
  have hnext := hx.perform hcall
  cases call with
  | pull d => exact hok.elim
  | putHeader header => exact hok.elim
  | push d items =>
    rcases hout : FileBackend.push items x.backend with ⟨r, g⟩
    obtain ⟨cursor, hcursor⟩ := hok
    rw [hout] at hcursor
    obtain rfl : r = .ok cursor := hcursor
    obtain ⟨-, -, -, hpush⟩ := push_cases hx.wellNamed items hout
    obtain ⟨-, hcovers⟩ := hcall.2 ⟨cursor, by rw [hout]⟩ d items rfl
    have hnone : (FailedPushes.perform x (.push d items)).uncovered = [] := by
      change uncoveredAfter x.uncovered (newlyStored x.backend
        (FileBackend.push items x.backend).2 items) (FileBackend.push items x.backend).1 = []
      rw [hout]
      change (if (newlyStored x.backend g items).isEmpty then x.uncovered else []) = []
      by_cases hunc : x.uncovered = []
      · rw [hunc, ite_self]
      · have hne := (hpush cursor rfl).2.2 (hcovers hunc).2
        rw [if_neg fun hempty => hne (List.isEmpty_iff.1 hempty)]
    intro e y hy hle
    refine hnext.served e y hy ?_ hle
    rw [hnone]
    exact List.not_mem_nil

/-- A failed push hides nothing in runs whose calls are covered. -/
theorem served_after_push (hx : Fresh x) {calls : List (Call D)} {call : Call D}
    (h : Along x calls) (hcall : Covered (run x calls) call) (hok : PushOk (run x calls) call) :
    Served (FailedPushes.perform (FailedPushes.run x calls) call) :=
  (hx.sound.run h).served_of_push hcall hok

end Runs

/-! ## A push that fails at the manifest -/

section Samples

def sampleItem (n : UInt8) : SyncItem :=
  ⟨Uuid.lastByte n, "host", 1, 5, false, "", ""⟩

/-- An empty directory whose eleventh file-system call fails. -/
def sampleSite : Site Bool where
  backend := ⟨none, none, Table.empty, 0, fun n => if n = 10 then some "disk full" else none,
    fun _ => .asStored⟩
  clients _ := ⟨.default, .default, [], false⟩
  uncovered := []

/-- One client is at the revision when the other's push stores an item and fails. -/
def sampleCalls : List (Call Bool) :=
  [.pull false, .push false [], .pull true, .push true [sampleItem 1]]

theorem sampleSite_fresh : Fresh sampleSite where
  held y h := by
    obtain ⟨file, hfile, -⟩ := h
    cases hfile
  cursor _ := ⟨rfl, rfl⟩
  uncovered := rfl

def pushed (x : Site Bool) (items : List SyncItem) : Bool :=
  (FileBackend.push items x.backend).1.isOk

theorem pushOk_iff {x : Site Bool} {d : Bool} {items : List SyncItem} :
    PushOk x (.push d items) ↔ pushed x items = true := by
  change (∃ cursor, (FileBackend.push items x.backend).1 = .ok cursor) ↔
    (FileBackend.push items x.backend).1.isOk = true
  generalize (FileBackend.push items x.backend).1 = r
  cases r with
  | ok cursor => exact iff_of_true ⟨cursor, rfl⟩ rfl
  | error e => exact iff_of_false (fun ⟨cursor, h⟩ => (by cases h)) Bool.false_ne_true

/-- The retry of the failed push succeeds and the item stays hidden. -/
theorem retry_hides_item :
    ¬ PushOk (run sampleSite (sampleCalls.take 3)) (.push true [sampleItem 1]) ∧
      PushOk (run sampleSite sampleCalls) (.push true [sampleItem 1]) ∧
      ¬ Served (perform (run sampleSite sampleCalls) (.push true [sampleItem 1])) := by
  refine ⟨?_, ?_, fun h => ?_⟩
  · rw [pushOk_iff]
    decide +kernel
  · rw [pushOk_iff]
    decide +kernel
  · have hstored : (perform (run sampleSite sampleCalls) (.push true [sampleItem 1])).backend.item
        (sampleItem 1).id = some (sampleItem 1) := by decide +kernel
    have hmem := h false (sampleItem 1) (FileBackend.holds_of_item hstored) (by decide +kernel)
    revert hmem
    decide +kernel

theorem covered_pull {x : Site Bool} {d : Bool} (h : x.backend.revision.toNat + 1 < 2 ^ 64) :
    Covered x (.pull d) := ⟨h, fun hok => hok.elim⟩

theorem covered_push {x : Site Bool} {d : Bool} {items : List SyncItem}
    (h : x.backend.revision.toNat + 1 < 2 ^ 64)
    (hpush : pushed x items = true → (x.clients d).current = true ∧ (x.uncovered ≠ [] →
      (∀ y ∈ x.uncovered, y ∈ items) ∧
        ∃ y ∈ items, rank SyncItem.stamp (x.backend.item y.id) < (y.stamp : WithBot Stamp))) :
    Covered x (.push d items) := by
  refine ⟨h, fun hok e others he => ?_⟩
  cases he
  exact hpush (pushOk_iff.1 hok)

theorem sampleCalls_along : Along sampleSite sampleCalls :=
  ⟨covered_pull (by decide +kernel), covered_push (by decide +kernel) (by decide +kernel),
    covered_pull (by decide +kernel), covered_push (by decide +kernel) (by decide +kernel), trivial⟩

/-- The same failure, then a push that adds an item. -/
theorem served_after_push_sample :
    Served (perform (run sampleSite sampleCalls) (.push true [sampleItem 1, sampleItem 2])) :=
  served_after_push sampleSite_fresh sampleCalls_along
    (covered_push (by decide +kernel) (by decide +kernel)) (pushOk_iff.2 (by decide +kernel))

end Samples
end Tethra.FailedPushes
