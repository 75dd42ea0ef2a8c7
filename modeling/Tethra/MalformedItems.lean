import Tethra.SyncFleets
import Tethra.SyncLiveness

set_option autoImplicit false

/-!
# A backend that holds items this client cannot read

The directory skips what does not parse; the apply loop returns at the first item it should
write and cannot convert.
-/
namespace Tethra.MalformedItems
open AtomicPrograms AuthenticatedEncryption Base64Strings KeyedTables StampedRegisters
open StatefulActions SyncEngine SyncFileBackend SyncFleets SyncItems SyncLiveness SyncRuns
open VaultCrypto VaultState VaultTypes

section Items
variable (b64 : Base64)

/-- An unknown kind, or a nonce or ciphertext that is not base64. -/
def malformed (item : SyncItem) : Bool :=
  match itemRowFromSync b64 item with
  | .ok _ => false
  | .error _ => true

def readableFile (file : ItemFile) : Bool :=
  match file.content with
  | .ok item => !malformed b64 item
  | .error _ => true

/-- The same content without the malformed items. -/
def withoutMalformed (f : FileBackend) : FileBackend :=
  { f with items := f.items.filter (readableFile b64) }

variable {b64}

theorem malformed_eq_false {item : SyncItem} :
    malformed b64 item = false ↔ ∃ row, itemRowFromSync b64 item = .ok row := by
  unfold malformed
  cases itemRowFromSync b64 item <;> simp

theorem applyTo_malformed {item : SyncItem} (h : malformed b64 item = true) (r : Option ItemRow) :
    applyTo b64 r item = r := by
  unfold malformed at h
  unfold applyTo
  cases hrow : itemRowFromSync b64 item with
  | ok row =>
    rw [hrow] at h
    cases h
  | error e => simp

/-- An item the row does not lose to is passed over. -/
theorem applyTo_of_stamp_le {item : SyncItem} {row : ItemRow} (h : item.stamp ≤ rowStamp row) :
    applyTo b64 (some row) item = some row := by
  have hskip : ¬ shouldApply item (some row) = true := fun happly =>
    absurd (shouldApply_iff.1 happly row rfl).2 (not_lt.2 h)
  rw [applyTo, if_neg hskip]

theorem applyTo_applied {item : SyncItem} {r : Option ItemRow} {row : ItemRow}
    (happly : shouldApply item r = true) (hrow : itemRowFromSync b64 item = .ok row) :
    applyTo b64 r item = some row := by
  rw [applyTo, if_pos happly, hrow]

theorem applyTo_applyTo (r : Option ItemRow) (item : SyncItem) :
    applyTo b64 (applyTo b64 r item) item = applyTo b64 r item := by
  cases happly : shouldApply item r with
  | false =>
    have hsame : applyTo b64 r item = r := by rw [applyTo, happly, if_neg (by decide)]
    rw [hsame, hsame]
  | true =>
    cases hrow : itemRowFromSync b64 item with
    | error e =>
      have hbad : malformed b64 item = true := by rw [malformed, hrow]
      rw [applyTo_malformed hbad, applyTo_malformed hbad]
    | ok row =>
      rw [applyTo_applied happly hrow]
      exact applyTo_of_stamp_le (rowStamp_of_itemRowFromSync hrow).ge

theorem applyAll_same {items : List SyncItem} {item : SyncItem} (hne : items ≠ [])
    (hitems : ∀ x ∈ items, x = item) (r : Option ItemRow) :
    applyAll b64 r items = applyTo b64 r item := by
  cases items with
  | nil => exact absurd rfl hne
  | cons x items =>
    obtain rfl := hitems x List.mem_cons_self
    have hrest : ∀ y ∈ items, y = x := fun y hy => hitems y (List.mem_cons_of_mem _ hy)
    clear hitems hne
    change applyAll b64 (applyTo b64 r x) items = applyTo b64 r x
    induction items with
    | nil => rfl
    | cons y items ih =>
      obtain rfl := hrest y List.mem_cons_self
      change applyAll b64 (applyTo b64 (applyTo b64 r y) y) items = applyTo b64 r y
      rw [applyTo_applyTo]
      exact ih fun z hz => hrest z (List.mem_cons_of_mem _ hz)

/-- With one item for an identifier, the loop stops only where it would have at once. -/
theorem applicable_iff {rows : Uuid → Option ItemRow} {items : List SyncItem}
    (hitems : ∀ x ∈ items, ∀ y ∈ items, x.id = y.id → x = y) :
    Applicable b64 rows items ↔
      ∀ x ∈ items, malformed b64 x = true → shouldApply x (rows x.id) = false := by
  induction items generalizing rows with
  | nil => simp [Applicable]
  | cons item items ih =>
    have hrest := @ih (Function.update rows item.id (applyTo b64 (rows item.id) item))
      fun x hx y hy => hitems x (List.mem_cons_of_mem _ hx) y (List.mem_cons_of_mem _ hy)
    have hfirst : (shouldApply item (rows item.id) = true →
        ∃ row, itemRowFromSync b64 item = .ok row) ↔
        (malformed b64 item = true → shouldApply item (rows item.id) = false) := by
      rw [← malformed_eq_false]
      cases malformed b64 item <;> simp
    have hsame : ∀ x ∈ items, malformed b64 x = true →
        Function.update rows item.id (applyTo b64 (rows item.id) item) x.id = rows x.id := by
      intro x hx hbad
      by_cases hid : x.id = item.id
      · obtain rfl := hitems x (List.mem_cons_of_mem _ hx) item List.mem_cons_self hid
        rw [Function.update_self, applyTo_malformed hbad]
      · rw [Function.update_of_ne hid]
    rw [Applicable, hrest, hfirst, List.forall_mem_cons]
    refine and_congr_right fun _ => forall₂_congr fun x hx => ?_
    refine imp_congr_right fun hbad => ?_
    rw [hsame x hx hbad]

theorem item_withoutMalformed (f : FileBackend) (id : Uuid) :
    (withoutMalformed b64 f).item id = (f.item id).filter fun item => !malformed b64 item := by
  have hget : (withoutMalformed b64 f).items.get id = (f.items.get id).filter (readableFile b64) :=
    Table.get_filter _ _ _
  unfold FileBackend.item
  rw [hget]
  cases f.items.get id with
  | none => rfl
  | some file =>
    obtain ⟨name, content⟩ := file
    cases content with
    | error e => rfl
    | ok item =>
      cases hbad : malformed b64 item <;> simp [Option.filter_some, readableFile, hbad]

theorem holds_withoutMalformed {f : FileBackend} {item : SyncItem} :
    (withoutMalformed b64 f).Holds item ↔ f.Holds item ∧ malformed b64 item = false := by
  constructor
  · rintro ⟨file, hfile, hitem⟩
    obtain ⟨hin, hread⟩ := List.mem_filter.1 hfile
    rw [readableFile, hitem] at hread
    exact ⟨⟨file, hin, hitem⟩, by simpa using hread⟩
  · rintro ⟨⟨file, hfile, hitem⟩, hgood⟩
    refine ⟨file, List.mem_filter.2 ⟨hfile, ?_⟩, hitem⟩
    rw [readableFile, hitem]
    change (!malformed b64 item) = true
    rw [hgood]
    rfl

end Items

section Syncs
variable (aead : Aead KeyBytes) (b64 : Base64)

def row (s : Engine × FileBackend) (id : Uuid) : Option ItemRow := s.1.vault.db.getItem id

/-- The revision `pull` finds: publishing a first header has raised it. -/
def pullRevision (f : FileBackend) : UInt64 :=
  match f.header with
  | none => saturatingSucc f.revision
  | some _ => f.revision

/-- The item is among those `pull` returns. -/
def Pulled (s : Engine × FileBackend) (item : SyncItem) : Prop :=
  s.2.Holds item ∧ s.1.cursor.parseRevision < pullRevision s.2

/-- Nothing fails, and the directory's header is the vault's or a re-key of it. -/
structure Joined (h : VaultHeader) (s : Engine × FileBackend) : Prop where
  ready : Ready s.1.vault
  healthy : Healthy s.2
  header : s.1.vault.db.header = some h
  remote : ∀ r, s.2.header = some (.ok r) → sameVault r (exportHeader h) = true ∨
    ∃ vaultKey authKey t, s.1.vault.state = .unlocked vaultKey authKey t ∧
      verifyRekeyAttestation aead vaultKey (exportHeader h) r = .ok true

def outcome (s : Engine × FileBackend) : Except Error SyncReport × (Engine × FileBackend) :=
  (syncNow aead b64 fileBackend).run s

/-- The same state, its backend without the malformed items. -/
def cleaned (s : Engine × FileBackend) : Engine × FileBackend := (s.1, withoutMalformed b64 s.2)

/-- The malformed items of the backend do not stop the sync. -/
structure Unstopped (s : Engine × FileBackend) : Prop where
  applied : ∀ item w, Pulled s item → itemRowFromSync b64 item = .ok w →
    shouldApply item (row s item.id) = true → row (outcome aead b64 s).2 item.id = some w
  pushed : ∀ w, row s w.id = some w → w.localOnly = false →
    (∀ item, s.2.item w.id = some item → item.stamp < rowStamp w) →
      (outcome aead b64 s).2.2.item w.id = some (syncItemFromRow b64 w)
  kept : ∀ item, s.2.Holds item → malformed b64 item = true →
    row (outcome aead b64 s).2 item.id = row s item.id
  same : ∀ id, (∀ item, s.2.item id = some item → malformed b64 item = false) →
    row (outcome aead b64 s).2 id = row (outcome aead b64 (cleaned b64 s)).2 id ∧
      (outcome aead b64 s).2.2.item id = (outcome aead b64 (cleaned b64 s)).2.2.item id
  ended : (∃ report, (outcome aead b64 s).1 = .ok report) ↔
    ∃ report, (outcome aead b64 (cleaned b64 s)).1 = .ok report

variable {aead b64} {h : VaultHeader}

theorem sameVault_adoptHeader (h : VaultHeader) (remote : SyncedVaultHeader) :
    sameVault remote (exportHeader (adoptHeader h remote)) = true :=
  sameVault_iff.2 ⟨rfl, rfl, rfl⟩

theorem exportSyncHeader_ready {s : Engine × FileBackend} (hready : Ready s.1.vault)
    (hheader : s.1.vault.db.header = some h) : ∃ t,
    (exportSyncHeader : EngineM FileBackend SyncedVaultHeader).run s =
      (.ok (exportHeader h), t) ∧ Ready t.1.vault ∧ t.1.vault.db.header = some h ∧
      t.1.vault.state = s.1.vault.state ∧ t.2 = s.2 := by
  have hread := hready.withDb (readHeader_eq_ok.2 hheader)
  have hrun : (exportSyncHeader : EngineM FileBackend SyncedVaultHeader).run s =
      (.ok (exportHeader h), ({ s.1 with vault :=
        { s.1.vault with world.draws := s.1.vault.world.draws + 1 } }, s.2)) := by
    rw [exportSyncHeader, Program.run_bind, Action.bind_ok (by rw [onVault_run, hread])]
    rfl
  exact ⟨_, hrun, hready.drawn _, hheader, rfl, rfl⟩

theorem adoptSyncHeader_ready {s : Engine × FileBackend} (hready : Ready s.1.vault)
    (hheader : s.1.vault.db.header = some h) (remote : SyncedVaultHeader) : ∃ t,
    (adoptSyncHeader remote : EngineM FileBackend Unit).run s = (.ok (), t) ∧ Ready t.1.vault ∧
      t.1.vault.db.header = some (adoptHeader h remote) ∧ t.2 = s.2 := by
  have hread := hready.withDb (readHeader_eq_ok.2 hheader)
  have hwrite := (hready.drawn (s.1.vault.world.draws + 1)).withDbMut
    fun db => db.writeHeader (adoptHeader h remote)
  have hrun : (adoptSyncHeader remote : EngineM FileBackend Unit).run s =
      (.ok (), ({ s.1 with vault := { s.1.vault with
        db := s.1.vault.db.writeHeader (adoptHeader h remote)
        world.draws := s.1.vault.world.draws + 1 + 1 } }, s.2)) := by
    rw [adoptSyncHeader, Program.run_bind, Action.bind_ok (by rw [onVault_run, hread]),
      onVault_run, hwrite]
  exact ⟨_, hrun, hready.stored _ _, rfl, rfl⟩

theorem requireKey_ready {s : Engine × FileBackend} (hready : Ready s.1.vault)
    {vaultKey : VaultKey} {authKey : KeyBytes} {t : Instant}
    (hstate : s.1.vault.state = .unlocked vaultKey authKey t) : ∃ u,
    (onVault requireKey : EngineM FileBackend VaultKey).run s = (.ok vaultKey, u) ∧
      Ready u.1.vault ∧ u.1.vault.db = s.1.vault.db ∧ u.2 = s.2 := by
  obtain ⟨vaultKey', authKey', hkey, hready'⟩ := hready.requireKey
  obtain ⟨_, _, hstate', -⟩ := requireKey_eq_ok hkey
  rw [hstate] at hstate'
  cases hstate'
  have hrun : (onVault requireKey : EngineM FileBackend VaultKey).run s = (.ok vaultKey,
      ({ s.1 with vault :=
        { s.1.vault with state := .unlocked vaultKey authKey' s.1.vault.world.now } }, s.2)) := by
    rw [onVault_run, hkey]
  exact ⟨_, hrun, hready', rfl, rfl⟩

/-- After the first header phase the directory's header is the vault's. -/
theorem adoptRemoteRekey_joined {s : Engine × FileBackend} (hs : Joined aead h s) :
    ∃ h' t, (adoptRemoteRekeyIfNeeded aead fileBackend).run s = (.ok (), t) ∧
      Steady h' s.2.stored t := by
  obtain ⟨found, g, hget, hg⟩ := Healthy.getHeader s.2 hs.healthy
  obtain ⟨hstored, hfound⟩ := FileBackend.getHeader_eq_ok hget
  have hrun : (onBackend fileBackend.getHeader).run s = (.ok found, (s.1, g)) := by
    rw [onBackend_run]
    change ((FileBackend.getHeader s.2).1, (s.1, (FileBackend.getHeader s.2).2)) = _
    rw [hget]
  rw [adoptRemoteRekeyIfNeeded, Program.run_bind, Action.bind_ok hrun]
  cases found with
  | none =>
    refine ⟨h, _, rfl, hs.ready, hg, hs.header, hstored, fun r hr => ?_⟩
    change s.2.header = _ at hr
    rw [hfound] at hr
    cases hr
  | some remote =>
    obtain ⟨u, hexport, hu, huh, hus, hug⟩ :=
      exportSyncHeader_ready (s := (s.1, g)) hs.ready hs.header
    have honly : ∀ r, s.2.header = some (.ok r) → r = remote := by
      intro r hr
      rw [hfound] at hr
      cases hr
      rfl
    change ∃ h' t, Program.run (exportSyncHeader >>= _) _ = _ ∧ _
    rw [Program.run_bind, Action.bind_ok hexport]
    by_cases hsame : sameVault remote (exportHeader h) = true
    · rw [if_pos hsame]
      refine ⟨h, u, rfl, hu, ?_, huh, ?_, fun r hr => ?_⟩
      · rw [hug]
        exact hg
      · rw [hug]
        exact hstored
      · rw [honly r hr]
        exact hsame
    · obtain ⟨vaultKey, authKey, last, hstate, hverify⟩ :=
        (hs.remote remote hfound).resolve_left hsame
      obtain ⟨w, hkey, hw, hwd, hwg⟩ := requireKey_ready hu (hus.trans hstate)
      rw [if_neg hsame, Program.run_bind, Action.bind_ok hkey, hverify]
      change ∃ h' t, (adoptSyncHeader remote).run w = _ ∧ _
      obtain ⟨t, hadopt, ht, hth, htg⟩ :=
        adoptSyncHeader_ready hw ((congrArg VaultDb.header hwd).trans huh) remote
      have hend : t.2 = g := htg.trans (hwg.trans hug)
      refine ⟨adoptHeader h remote, t, hadopt, ht, ?_, hth, ?_, fun r hr => ?_⟩
      · rw [hend]
        exact hg
      · rw [hend]
        exact hstored
      · rw [honly r hr]
        exact sameVault_adoptHeader h remote

/-- A sync of a joined state is its exchange. -/
theorem syncNow_joined {s : Engine × FileBackend} (hs : Joined aead h s) :
    ∃ h' w, Steady h' (published h' s.2.stored) w ∧ tracked w = tracked s ∧
      outcome aead b64 s = (exchangeItems b64 fileBackend).run w := by
  obtain ⟨h', u, hadopt, hu⟩ := adoptRemoteRekey_joined hs
  obtain ⟨_, w, hpublish, hw⟩ := publishHeader_succeeds u hu
  have hunlocked : (onVault isUnlocked).run s = (.ok true, s) := by
    rw [onVault_run, hs.ready.isUnlocked]
  have k₂ := leaves_headers (each_adoptRemoteRekey_header aead fileBackend) s
  have k₃ := leaves_headers (each_publishHeader_header fileBackend) u
  rw [hadopt] at k₂
  rw [hpublish] at k₃
  refine ⟨h', w, hw, k₃.trans k₂, ?_⟩
  rw [outcome, syncNow, Program.run_bind, Action.bind_ok hunlocked, if_pos rfl, syncNowInner,
    Program.run_bind, Action.bind_ok hadopt, Program.run_bind, Action.bind_ok hpublish]

theorem revision_published (h : VaultHeader) (f : FileBackend) :
    (published h f.stored).2.2 = pullRevision f := by
  unfold pullRevision FileBackend.stored
  cases f.header <;> rfl

theorem row_of_tracked {s w : Engine × FileBackend} (hw : tracked w = tracked s) :
    row w = row s ∧ w.1.cursor = s.1.cursor := by
  refine ⟨funext fun id => ?_, congrArg Prod.snd hw⟩
  rw [row, row, VaultDb.getItem, VaultDb.getItem,
    show w.1.vault.db.items = s.1.vault.db.items from congrArg Prod.fst hw]

/-- A sync succeeds if and only if no pulled malformed item would replace its row. -/
theorem outcome_ok_iff {s : Engine × FileBackend} (hs : Joined aead h s) (hname : s.2.WellNamed) :
    (∃ report, (outcome aead b64 s).1 = .ok report) ↔
      ∀ item, Pulled s item → malformed b64 item = true →
        shouldApply item (row s item.id) = false := by
  obtain ⟨h', w, hw, htracked, hrun⟩ := syncNow_joined hs
  obtain ⟨hrow, hcursor⟩ := row_of_tracked htracked
  obtain ⟨items, hall, hnone, r, t, hexchange, hiff, -⟩ := exchangeItems_ok_iff b64 hw
  rw [hcursor, revision_published, published_items] at hall
  rw [hcursor, revision_published] at hnone
  have hpulled : ∀ item, item ∈ items ↔ Pulled s item := by
    intro item
    by_cases hlt : s.1.cursor.parseRevision < pullRevision s.2
    · rw [hall hlt item]
      exact ⟨fun hin => ⟨hin, hlt⟩, fun hin => hin.1⟩
    · rw [hnone (UInt64.not_lt.1 hlt)]
      exact ⟨fun hin => (by cases hin), fun hin => absurd hin.2 hlt⟩
  have hone : ∀ x ∈ items, ∀ y ∈ items, x.id = y.id → x = y := by
    intro x hx y hy hid
    have hx' := (hname.holds_iff x).1 ((hpulled x).1 hx).1
    have hy' := (hname.holds_iff y).1 ((hpulled y).1 hy).1
    rw [← hid, hx', Option.some.injEq] at hy'
    exact hy'
  rw [hrun, hexchange]
  change (∃ report, r = .ok report) ↔ _
  rw [hiff, show w.1.vault.db.getItem = row s from hrow, applicable_iff hone]
  exact forall_congr' fun item => by rw [hpulled]

/-- What a sync leaves as the row of an identifier. -/
def received (b64 : Base64) (s : Engine × FileBackend) (id : Uuid) : Option ItemRow :=
  if s.1.cursor.parseRevision < pullRevision s.2 then
    (s.2.item id).elim (row s id) (applyTo b64 (row s id))
  else row s id

/-- What a sync leaves of a stored item when its row is `r`. -/
def sent (b64 : Base64) (r : Option ItemRow) (stored : Option SyncItem) : Option SyncItem :=
  (r.filter fun w => !w.localOnly).elim stored
    fun w => offer SyncItem.stamp stored (syncItemFromRow b64 w)

theorem offerAll_outgoing (db : VaultDb) (id : Uuid) (stored : Option SyncItem) :
    offerAll SyncItem.stamp stored
      (((syncEligible db).map (syncItemFromRow b64)).filter fun x => x.id = id) =
      sent b64 (db.getItem id) stored := by
  cases hget : db.getItem id with
  | none =>
    have hempty : ((syncEligible db).map (syncItemFromRow b64)).filter (fun x => x.id = id) = [] := by
      rw [List.eq_nil_iff_forall_not_mem]
      intro item hitem
      obtain ⟨w, hw, -⟩ := mem_outgoing.1 hitem
      rw [hget] at hw
      cases hw
    rw [hempty]
    rfl
  | some w =>
    cases hlocal : w.localOnly with
    | true =>
      have hempty : ((syncEligible db).map (syncItemFromRow b64)).filter (fun x => x.id = id) =
          [] := by
        rw [List.eq_nil_iff_forall_not_mem]
        intro item hitem
        obtain ⟨v, hv, hfree, -⟩ := mem_outgoing.1 hitem
        rw [hget, Option.some.injEq] at hv
        rw [← hv, hlocal] at hfree
        cases hfree
      rw [hempty, sent, Option.filter_some, hlocal]
      rfl
    | false =>
      have hmem : syncItemFromRow b64 w ∈
          ((syncEligible db).map (syncItemFromRow b64)).filter fun x => x.id = id :=
        mem_outgoing.2 ⟨w, hget, hlocal, rfl⟩
      rw [sent, Option.filter_some, hlocal]
      refine offerAll_same (List.ne_nil_of_mem hmem) fun x hx => ?_
      obtain ⟨v, hv, -, rfl⟩ := mem_outgoing.1 hx
      rw [hget, Option.some.injEq] at hv
      rw [hv]

/-- The state a successful sync leaves. -/
theorem outcome_spec {s : Engine × FileBackend} (hs : Joined aead h s) (hname : s.2.WellNamed)
    (hok : ∃ report, (outcome aead b64 s).1 = .ok report) (id : Uuid) :
    row (outcome aead b64 s).2 id = received b64 s id ∧
      (outcome aead b64 s).2.2.item id = sent b64 (received b64 s id) (s.2.item id) := by
  obtain ⟨h', w, hw, htracked, hrun⟩ := syncNow_joined hs
  obtain ⟨hrow, hcursor⟩ := row_of_tracked htracked
  obtain ⟨report, hreport⟩ := hok
  have hexchange : (exchangeItems b64 fileBackend).run w =
      (.ok report, (outcome aead b64 s).2) := hrun.symm.trans (Prod.ext hreport rfl)
  obtain ⟨items, remoteCursor, b₁, pushCursor, hpull, hrows, -, hpush, -, -⟩ :=
    exchangeItems_eq_ok hexchange
  obtain ⟨hstored, -, hnone, hall⟩ := FileBackend.pull_eq_ok hpull
  have hrevision : w.2.revision = pullRevision s.2 :=
    (congrArg (fun x => x.2.2) hw.stored).trans (revision_published h' s.2)
  have hitems : w.2.items = s.2.items :=
    (congrArg (fun x => x.2.1) hw.stored).trans (published_items h' s.2.stored)
  have hitem : ∀ id, w.2.item id = s.2.item id := fun id => by
    rw [FileBackend.item, FileBackend.item, hitems]
  rw [hcursor, hrevision] at hnone hall
  have hfinal : row (outcome aead b64 s).2 id = received b64 s id := by
    rw [row, hrows id, show w.1.vault.db.getItem id = row s id from congrFun hrow id, received]
    by_cases hlt : s.1.cursor.parseRevision < pullRevision s.2
    · rw [if_pos hlt]
      have hmem : ∀ x, x ∈ items.filter (fun x => x.id = id) ↔ s.2.item id = some x := by
        intro x
        rw [List.mem_filter, hall hlt, FileBackend.Holds, hitems]
        constructor
        · rintro ⟨hin, hid⟩
          rw [← of_decide_eq_true hid]
          exact (hname.holds_iff x).1 hin
        · intro hx
          exact ⟨FileBackend.holds_of_item hx, decide_eq_true (hname id x hx)⟩
      cases hst : s.2.item id with
      | none =>
        have hempty : items.filter (fun x => x.id = id) = [] := by
          rw [List.eq_nil_iff_forall_not_mem]
          intro x hx
          have hsome := (hmem x).1 hx
          rw [hst] at hsome
          cases hsome
        rw [hempty]
        rfl
      | some item =>
        refine applyAll_same (List.ne_nil_of_mem ((hmem item).2 hst)) (fun x hx => ?_) _
        have hsome := (hmem x).1 hx
        rw [hst, Option.some.injEq] at hsome
        exact hsome.symm
    · rw [if_neg hlt, hnone (UInt64.not_lt.1 hlt)]
      rfl
  refine ⟨hfinal, ?_⟩
  obtain ⟨done, -, hoff, -, hdone⟩ := FileBackend.push_spec
    ((syncEligible (outcome aead b64 s).2.1.vault.db).map (syncItemFromRow b64)) b₁
  have hpush' : FileBackend.push ((syncEligible (outcome aead b64 s).2.1.vault.db).map
      (syncItemFromRow b64)) b₁ = (.ok pushCursor, (outcome aead b64 s).2.2) := hpush
  rw [hpush'] at hoff hdone
  obtain ⟨rfl, -⟩ := hdone pushCursor rfl
  have hlast := hoff.item id
  dsimp only at hlast
  rw [hlast, offerAll_outgoing, FileBackend.item_of_stored hstored, hitem]
  exact congrArg (fun r => sent b64 r (s.2.item id)) hfinal

theorem Joined.cleaned {s : Engine × FileBackend} (hs : Joined aead h s) :
    Joined aead h (cleaned b64 s) := by
  refine ⟨hs.ready, ⟨hs.healthy.calls, hs.healthy.manifest, hs.healthy.header, ?_⟩, hs.header,
    hs.remote⟩
  intro id file hfile
  have hget : (s.2.items.get id).filter (readableFile b64) = some file :=
    (Table.get_filter _ _ _).symm.trans hfile
  exact hs.healthy.items id file (Option.filter_eq_some_iff.1 hget).1

theorem wellNamed_cleaned {s : Engine × FileBackend} (hname : s.2.WellNamed) :
    (cleaned b64 s).2.WellNamed := by
  intro id item hitem
  rw [cleaned, item_withoutMalformed, Option.filter_eq_some_iff] at hitem
  exact hname id item hitem.1

/-- Without malformed items a sync succeeds. -/
theorem outcome_cleaned {s : Engine × FileBackend} (hs : Joined aead h s)
    (hname : s.2.WellNamed) : ∃ report, (outcome aead b64 (cleaned b64 s)).1 = .ok report := by
  refine (outcome_ok_iff hs.cleaned (wellNamed_cleaned hname)).2 fun item hitem hbad => ?_
  rw [(holds_withoutMalformed.1 hitem.1).2] at hbad
  cases hbad

theorem received_cleaned {s : Engine × FileBackend} {id : Uuid}
    (hgood : ∀ item, s.2.item id = some item → malformed b64 item = false) :
    (cleaned b64 s).2.item id = s.2.item id ∧ received b64 (cleaned b64 s) id = received b64 s id := by
  have hitem : (cleaned b64 s).2.item id = s.2.item id := by
    rw [cleaned, item_withoutMalformed]
    cases hst : s.2.item id with
    | none => rfl
    | some item => rw [Option.filter_some, hgood item hst]; rfl
  refine ⟨hitem, ?_⟩
  rw [received, received, hitem]
  rfl

/-- Malformed items do not stop a sync if and only if none of those it pulls would replace the
row of its identifier. -/
theorem unstopped_iff {s : Engine × FileBackend} (hs : Joined aead h s)
    (hname : s.2.WellNamed) :
    Unstopped aead b64 s ↔ ∀ item, Pulled s item → malformed b64 item = true →
      shouldApply item (row s item.id) = false := by
  rw [← outcome_ok_iff hs hname]
  constructor
  · intro hall
    exact hall.ended.2 (outcome_cleaned hs hname)
  · intro hok
    have hspec := outcome_spec hs hname hok
    have hclean : ∀ id, row (outcome aead b64 (cleaned b64 s)).2 id =
        received b64 (cleaned b64 s) id ∧ (outcome aead b64 (cleaned b64 s)).2.2.item id =
          sent b64 (received b64 (cleaned b64 s) id) ((cleaned b64 s).2.item id) :=
      outcome_spec hs.cleaned (wellNamed_cleaned hname) (outcome_cleaned hs hname)
    constructor
    case applied =>
      intro item w hpulled hw happly
      have hitem := (hname.holds_iff item).1 hpulled.1
      rw [(hspec item.id).1, received, if_pos hpulled.2, hitem]
      exact applyTo_applied happly hw
    case pushed =>
      intro w hw hlocal hbeats
      have hstay : received b64 s w.id = some w := by
        rw [received, hw]
        cases hst : s.2.item w.id with
        | none => exact ite_self _
        | some item =>
          change (if _ then applyTo b64 (some w) item else some w) = some w
          rw [applyTo_of_stamp_le (hbeats item hst).le, ite_self]
      rw [(hspec w.id).2, hstay, sent, Option.filter_some, hlocal]
      refine offer_of_lt ?_
      cases hst : s.2.item w.id with
      | none => exact WithBot.bot_lt_coe _
      | some item => exact WithBot.coe_lt_coe.2 (hbeats item hst)
    case kept =>
      intro item hholds hbad
      rw [(hspec item.id).1, received, (hname.holds_iff item).1 hholds]
      change (if _ then applyTo b64 (row s item.id) item else row s item.id) = row s item.id
      rw [applyTo_malformed hbad, ite_self]
    case same =>
      intro id hgood
      obtain ⟨hitem, hreceived⟩ := received_cleaned hgood
      rw [(hspec id).1, (hspec id).2, (hclean id).1, (hclean id).2, hitem, hreceived]
      exact ⟨rfl, rfl⟩
    case ended =>
      exact iff_of_true hok (outcome_cleaned hs hname)

end Syncs

/-! ## An item of a newer client -/

section Samples

def sampleUuid (n : UInt8) : Uuid := Uuid.lastByte n

def sampleKey : VaultKey := ⟨Block.fill 32 7⟩

def sampleHeader : VaultHeader := ⟨[], .default, ⟨[], []⟩, none, 0⟩

/-- A host of this device, not yet sent. -/
def localRow : ItemRow := ⟨sampleUuid 1, .host, 1, 5, false, false, ⟨[], []⟩⟩

def newerItem (kind : String) : SyncItem := ⟨sampleUuid 2, kind, 1, 5, false, "", ""⟩

def otherItem : SyncItem := ⟨sampleUuid 3, "host", 1, 5, false, "", ""⟩

def sampleBackend (kind : String) : FileBackend where
  manifest := some (.ok ⟨FORMAT_VERSION, 2⟩)
  header := some (.ok (exportHeader sampleHeader))
  items := (Table.empty.put ⟨sampleUuid 2, .ok (newerItem kind)⟩).put ⟨sampleUuid 3, .ok otherItem⟩
  calls := 0
  faultAt _ := none
  listingAt _ := .asStored

def sampleState (rows : List ItemRow) (kind : String) : Engine × FileBackend :=
  (⟨⟨⟨some sampleHeader, (VaultDb.empty.upsertItemsTransaction rows).items⟩, none,
    .unlocked sampleKey sampleKey.expose 0, IDLE_LOCK_DISABLED, World.quiet⟩, .default⟩,
    sampleBackend kind)

theorem sampleState_joined (rows : List ItemRow) (kind : String) :
    Joined (transparent KEY_LEN) sampleHeader (sampleState rows kind) where
  ready := ⟨fun _ => rfl, sampleKey, sampleKey.expose, 0, rfl, Or.inl rfl⟩
  healthy := by
    refine ⟨fun _ => rfl, fun e h => (by cases h), fun e h => (by cases h), fun id file h => ?_⟩
    change ((Table.empty.put _).put _).get id = some file at h
    rw [Table.get_put, Table.get_put] at h
    split at h
    · cases h
      exact ⟨_, rfl⟩
    · split at h
      · cases h
        exact ⟨_, rfl⟩
      · cases h
  header := rfl
  remote r hr := by
    cases hr
    exact Or.inl (sameVault_refl _)

theorem sampleState_wellNamed (rows : List ItemRow) (kind : String) :
    (sampleState rows kind).2.WellNamed := by
  intro id item hitem
  have hget := FileBackend.item_eq_some.1 hitem
  change ((Table.empty.put _).put _).get id = some _ at hget
  rw [Table.get_put, Table.get_put] at hget
  split at hget
  · cases hget
    rfl
  · split at hget
    · cases hget
      rfl
    · cases hget

/-- An item of unknown kind stands before a host: the host is not applied and nothing is sent. -/
theorem unknownKind_stops :
    (outcome (transparent KEY_LEN) standard (sampleState [localRow] "snippet")).1.isOk = false ∧
      row (outcome (transparent KEY_LEN) standard (sampleState [localRow] "snippet")).2
        otherItem.id = none ∧
      (outcome (transparent KEY_LEN) standard (sampleState [localRow] "snippet")).2.2.item
        localRow.id = none ∧
      ¬ Unstopped (transparent KEY_LEN) standard (sampleState [localRow] "snippet") := by
  have hlost : row (outcome (transparent KEY_LEN) standard (sampleState [localRow] "snippet")).2
      otherItem.id = none := by decide +kernel
  refine ⟨by decide +kernel, hlost, by decide +kernel, fun hall => ?_⟩
  have hpulled : Pulled (sampleState [localRow] "snippet") otherItem :=
    ⟨⟨⟨sampleUuid 3, .ok otherItem⟩, List.mem_cons_of_mem _ List.mem_cons_self, rfl⟩,
      by decide +kernel⟩
  have happlied := hall.applied otherItem ⟨sampleUuid 3, .host, 1, 5, false, false, ⟨[], []⟩⟩
    hpulled rfl rfl
  rw [hlost] at happlied
  cases happlied

/-- A later version of the row the item of unknown kind names. -/
def laterRow : ItemRow := ⟨sampleUuid 2, .identity, 3, 9, false, false, ⟨[], []⟩⟩

theorem unstopped_iff_sample :
    Unstopped (transparent KEY_LEN) standard (sampleState [localRow, laterRow] "snippet") := by
  have hgood : malformed standard otherItem = false := by decide +kernel
  refine (unstopped_iff (sampleState_joined _ _) (sampleState_wellNamed _ _)).2
    fun item hitem hbad => ?_
  obtain ⟨⟨file, hfile, hcontent⟩, -⟩ := hitem
  change file ∈ [(⟨sampleUuid 2, .ok (newerItem "snippet")⟩ : ItemFile),
    ⟨sampleUuid 3, .ok otherItem⟩] at hfile
  obtain rfl | rfl := List.mem_pair.1 hfile
  · cases hcontent
    decide +kernel
  · cases hcontent
    rw [hgood] at hbad
    cases hbad

end Samples
end Tethra.MalformedItems
