import Tethra.SyncEngine

set_option autoImplicit false

/-!
# A sync that nothing interferes with

The header phases leave rows and cursor alone. The apply loop changes a row only by an item
it was handed; what it leaves under an id is a fold over the items with that id.
-/
namespace Tethra.SyncRuns
open AtomicPrograms AuthenticatedEncryption Base64Strings StampedRegisters StatefulActions
open SyncEngine SyncFileBackend SyncItems VaultCrypto VaultState VaultTypes

section Rows
variable (b64 : Base64)

/-- One turn of the apply loop for the row of the item's id. -/
def applyTo (r : Option ItemRow) (item : SyncItem) : Option ItemRow :=
  if shouldApply item r then
    match itemRowFromSync b64 item with
    | .ok row => some row
    | .error _ => r
  else r

def applyAll (r : Option ItemRow) (items : List SyncItem) : Option ItemRow :=
  items.foldl (applyTo b64) r

variable {b64}

theorem shouldApply_iff {item : SyncItem} {r : Option ItemRow} :
    shouldApply item r = true ↔
      ∀ row, r = some row → row.localOnly = false ∧ rowStamp row < item.stamp := by
  cases r with
  | none => simp [shouldApply]
  | some row =>
    cases hl : row.localOnly with
    | true => simp [shouldApply, hl]
    | false => simp [shouldApply, hl, winsOver_iff]

/-- A row the loop has changed is an item it was handed, and beats the row it found. -/
theorem applyAll_cases (b64 : Base64) (r : Option ItemRow) (items : List SyncItem) :
    applyAll b64 r items = r ∨ ∃ item ∈ items, ∃ row, itemRowFromSync b64 item = .ok row ∧
      applyAll b64 r items = some row ∧
      ∀ old, r = some old → old.localOnly = false ∧ rowStamp old < rowStamp row := by
  induction items generalizing r with
  | nil => exact Or.inl rfl
  | cons item items ih =>
    change applyAll b64 (applyTo b64 r item) items = r ∨ _
    have hturn : applyTo b64 r item = r ∨ ∃ row, itemRowFromSync b64 item = .ok row ∧
        applyTo b64 r item = some row ∧
        ∀ old, r = some old → old.localOnly = false ∧ rowStamp old < rowStamp row := by
      unfold applyTo
      split
      · rename_i happly
        cases hrow : itemRowFromSync b64 item with
        | error e => exact Or.inl rfl
        | ok row =>
          refine Or.inr ⟨row, rfl, rfl, fun old hold => ?_⟩
          rw [rowStamp_of_itemRowFromSync hrow]
          exact shouldApply_iff.1 happly old hold
      · exact Or.inl rfl
    obtain hsame | ⟨y, hy, row, hrow, hres, hbeats⟩ := ih (applyTo b64 r item)
    · obtain ht | ⟨row, hrow, ht, hbeats⟩ := hturn
      · exact Or.inl (hsame.trans ht)
      · exact Or.inr ⟨item, List.mem_cons_self, row, hrow, hsame.trans ht, hbeats⟩
    · refine Or.inr ⟨y, List.mem_cons_of_mem _ hy, row, hrow, hres, fun old hold => ?_⟩
      obtain ht | ⟨row', hrow', ht, hbeats'⟩ := hturn
      · exact hbeats old (ht.trans hold)
      · obtain ⟨hloc, hlt⟩ := hbeats' old hold
        exact ⟨hloc, hlt.trans (hbeats row' ht).2⟩

end Rows

section Loop
variable {β : Type} (b64 : Base64)

/-- What applying `done` leaves of the vault. -/
structure Applied (s t : Engine × β) (done : List SyncItem) : Prop where
  item : ∀ id, t.1.vault.db.getItem id =
    applyAll b64 (s.1.vault.db.getItem id) (done.filter fun x => x.id = id)
  header : t.1.vault.db.header = s.1.vault.db.header
  state : t.1.vault.state = s.1.vault.state
  cursor : t.1.cursor = s.1.cursor
  backend : t.2 = s.2

variable {b64}

theorem Applied.of_db {s t : Engine × β} (hdb : t.1.vault.db = s.1.vault.db)
    (hstate : t.1.vault.state = s.1.vault.state) (hcursor : t.1.cursor = s.1.cursor)
    (hbackend : t.2 = s.2) : Applied b64 s t [] where
  item id := by rw [hdb]; rfl
  header := by rw [hdb]
  state := hstate
  cursor := hcursor
  backend := hbackend

theorem Applied.congr {s t u : Engine × β} {done : List SyncItem} (h : Applied b64 t u done)
    (hdb : t.1.vault.db = s.1.vault.db) (hstate : t.1.vault.state = s.1.vault.state)
    (hcursor : t.1.cursor = s.1.cursor) (hbackend : t.2 = s.2) : Applied b64 s u done where
  item id := by rw [h.item id, hdb]
  header := by rw [h.header, hdb]
  state := h.state.trans hstate
  cursor := h.cursor.trans hcursor
  backend := h.backend.trans hbackend

theorem Applied.cons_skip {s t : Engine × β} {item : SyncItem} {done : List SyncItem}
    (hskip : shouldApply item (s.1.vault.db.getItem item.id) = false)
    (h : Applied b64 s t done) : Applied b64 s t (item :: done) where
  item id := by
    rw [h.item id]
    by_cases hid : item.id = id
    · subst hid
      rw [List.filter_cons_of_pos (by simp)]
      change _ = applyAll b64 (applyTo b64 _ item) _
      rw [applyTo, hskip, if_neg (by decide)]
    · rw [List.filter_cons_of_neg (by simpa using hid)]
  header := h.header
  state := h.state
  cursor := h.cursor
  backend := h.backend

theorem Applied.cons_write {s t u : Engine × β} {item : SyncItem} {row : ItemRow}
    {done : List SyncItem} (happly : shouldApply item (s.1.vault.db.getItem item.id) = true)
    (hrow : itemRowFromSync b64 item = .ok row)
    (hdb : t.1.vault.db = s.1.vault.db.upsertItem row)
    (hstate : t.1.vault.state = s.1.vault.state) (hcursor : t.1.cursor = s.1.cursor)
    (hbackend : t.2 = s.2) (h : Applied b64 t u done) : Applied b64 s u (item :: done) where
  item id := by
    have hid := (itemRowFromSync_eq_ok hrow).1
    rw [h.item id, hdb, VaultDb.getItem_upsertItem, hid]
    by_cases he : item.id = id
    · subst he
      rw [if_pos rfl, List.filter_cons_of_pos (by simp)]
      change _ = applyAll b64 (applyTo b64 _ item) _
      rw [applyTo, if_pos happly, hrow]
    · rw [if_neg (Ne.symm he), List.filter_cons_of_neg (by simpa using he)]
  header := by rw [h.header, hdb]; rfl
  state := h.state.trans hstate
  cursor := h.cursor.trans hcursor
  backend := h.backend.trans hbackend

/-- The apply loop, whatever its outcome: a prefix of the items has been applied. -/
theorem applyItems_ends (b64 : Base64) (applied : UInt32) (items : List SyncItem) (s : Engine × β) :
    (applyItems b64 applied items : EngineM β UInt32).run.Ends (fun r t =>
      ∃ done, done <+: items ∧ Applied b64 s t done ∧ ∀ n, r = .ok n → done = items) s := by
  induction items generalizing applied s with
  | nil => exact ⟨[], List.prefix_refl _, Applied.of_db rfl rfl rfl rfl, fun _ _ => rfl⟩
  | cons item items ih =>
    rw [applyItems, Program.run_bind]
    refine Action.Ends.bind (P := fun r t => t.1.vault.db = s.1.vault.db ∧
      t.1.vault.state = s.1.vault.state ∧ t.1.cursor = s.1.cursor ∧ t.2 = s.2 ∧
      ∀ row, r = .ok row → row = s.1.vault.db.getItem item.id) ?_ ?_ ?_
    · rw [Action.Ends, onVault_run]
      refine ⟨leaves_withDb (f := Vault.db) (fun _ _ => rfl) _ _,
        leaves_withDb (f := Vault.state) (fun _ _ => rfl) _ _, rfl, rfl, fun row hrow => ?_⟩
      exact (Except.ok.inj (withDb_eq_ok (Prod.ext hrow rfl)).1).symm
    · rintro row t ⟨hdb, hstate, hcursor, hbackend, hrow⟩
      obtain rfl := hrow row rfl
      cases happly : shouldApply item (s.1.vault.db.getItem item.id) with
      | false =>
        rw [if_neg (by decide)]
        obtain ⟨done, hpre, hdone, hok⟩ := ih applied t
        exact ⟨item :: done, (List.prefix_cons_inj item).2 hpre,
          (hdone.congr hdb hstate hcursor hbackend).cons_skip happly,
          fun n hn => by rw [hok n hn]⟩
      | true =>
        rw [if_pos rfl, Program.run_bind, Program.run_lift]
        cases hdecode : itemRowFromSync b64 item with
        | error e =>
          exact ⟨[], List.nil_prefix, Applied.of_db hdb hstate hcursor hbackend,
            fun n hn => by cases hn⟩
        | ok row =>
          change Action.Ends _ (Program.run (onVault (withDbMut fun db => db.upsertItem row) >>=
            fun _ => applyItems b64 (applied + 1) items)) t
          rw [Program.run_bind]
          refine Action.Ends.bind (P := fun r u => u.1.vault.state = s.1.vault.state ∧
            u.1.cursor = s.1.cursor ∧ u.2 = s.2 ∧
            (∀ e, r = .error e → u.1.vault.db = s.1.vault.db) ∧
            ∀ x, r = .ok x → u.1.vault.db = s.1.vault.db.upsertItem row) ?_ ?_ ?_
          · rw [Action.Ends, onVault_run, ← hdb]
            obtain ⟨e, he⟩ | hok := withDbMut_cases (fun db => db.upsertItem row) t.1.vault
            · rw [he]
              exact ⟨hstate, hcursor, hbackend, fun _ _ => rfl, fun _ h => by cases h⟩
            · rw [hok]
              exact ⟨hstate, hcursor, hbackend, fun _ h => (by cases h), fun _ _ => rfl⟩
          · rintro x u ⟨hus, huc, hub, -, hudb⟩
            obtain ⟨done, hpre, hdone, hall⟩ := ih (applied + 1) u
            exact ⟨item :: done, (List.prefix_cons_inj item).2 hpre,
              Applied.cons_write happly hdecode (hudb x rfl) hus huc hub hdone,
              fun n hn => by rw [hall n hn]⟩
          · rintro e u ⟨hus, huc, hub, hudb, -⟩
            exact ⟨[], List.nil_prefix, Applied.of_db (hudb e rfl) hus huc hub,
              fun n hn => by cases hn⟩
    · rintro e t ⟨hdb, hstate, hcursor, hbackend, -⟩
      exact ⟨[], List.nil_prefix, Applied.of_db hdb hstate hcursor hbackend,
        fun n hn => by cases hn⟩

end Loop

theorem mem_syncEligible {db : VaultDb} {row : ItemRow} :
    row ∈ syncEligible db ↔ db.getItem row.id = some row ∧ row.localOnly = false := by
  rw [syncEligible, List.mem_flatMap]
  constructor
  · rintro ⟨kind, -, hrow⟩
    obtain ⟨hlist, hlocal⟩ := List.mem_filter.1 hrow
    exact ⟨((VaultDb.mem_listItems db kind true row).1 hlist).1, by simpa using hlocal⟩
  · rintro ⟨hrow, hlocal⟩
    refine ⟨row.kind, ?_, List.mem_filter.2 ⟨?_, by simp [hlocal]⟩⟩
    · cases row.kind <;> decide
    · exact (VaultDb.mem_listItems db row.kind true row).2 ⟨hrow, rfl, Or.inl rfl⟩

section Phases
variable {β : Type}

/-- Rows and cursor of an engine. -/
def tracked (s : Engine × β) : KeyedTables.Table ItemRow Uuid ItemRow.id × SyncCursor :=
  (s.1.vault.db.items, s.1.cursor)

/-- The actions of a sync before its exchange. -/
inductive HeaderAction (backend : SyncBackend β) :
    ∀ {γ : Type}, Action (Engine × β) Error γ → Prop where
  | vault {γ : Type} {m : VaultM γ} (hm : m.Within SameRows) :
      HeaderAction backend (vaultAction m)
  | getHeader : HeaderAction backend (backendAction backend.getHeader)
  | putHeader (header : SyncedVaultHeader) :
      HeaderAction backend (backendAction (backend.putHeader header))
  | ofExcept {γ : Type} (r : Except Error γ) : HeaderAction backend (Action.ofExcept r)

section Headers
variable (aead : Aead KeyBytes) (backend : SyncBackend β)

theorem each_isUnlocked_header :
    (onVault isUnlocked : EngineM β Bool).Each (HeaderAction backend) :=
  Program.Each.lift (.vault sameRows_isUnlocked)

theorem each_exportSyncHeader_header :
    (exportSyncHeader : EngineM β SyncedVaultHeader).Each (HeaderAction backend) :=
  Program.Each.bind (Program.Each.lift (.vault (sameRows_withDb _)))
    fun _ => Program.Each.pure _

theorem each_fail_header {α : Type} (e : Error) :
    (Program.fail e : EngineM β α).Each (HeaderAction backend) :=
  Program.Each.lift (.ofExcept (.error e))

theorem each_adoptRemoteRekey_header :
    (adoptRemoteRekeyIfNeeded aead backend).Each (HeaderAction backend) := by
  refine Program.Each.bind (Program.Each.lift .getHeader) fun found => ?_
  cases found with
  | none => exact Program.Each.pure _
  | some remote =>
    refine Program.Each.bind (each_exportSyncHeader_header backend) fun header => ?_
    split
    · exact Program.Each.pure _
    · refine Program.Each.bind
        (Program.Each.lift (.vault sameRows_requireKey)) fun key => ?_
      refine Program.Each.bind (Program.Each.lift (.ofExcept _)) fun verified => ?_
      split
      · refine Program.Each.bind
          (Program.Each.lift (.vault (sameRows_withDb _))) fun old => ?_
        exact Program.Each.lift (.vault (sameRows_writeHeader _))
      · exact Program.Each.pure _

theorem each_publishHeader_header : (publishHeader backend).Each (HeaderAction backend) := by
  refine Program.Each.bind (each_exportSyncHeader_header backend) fun header => ?_
  refine Program.Each.bind (Program.Each.lift .getHeader) fun found => ?_
  cases found with
  | none => exact Program.Each.lift (.putHeader _)
  | some remote =>
    unfold publishOver
    dsimp only
    split
    · exact Program.Each.pure _
    · split
      · split
        · exact Program.Each.lift (.putHeader _)
        · exact each_fail_header backend _
      · exact each_fail_header backend _

variable {backend}

theorem HeaderAction.leaves_tracked {γ : Type} {m : Action (Engine × β) Error γ}
    (hm : HeaderAction backend m) : m.Leaves tracked := by
  intro s
  cases hm with
  | vault hm => exact Prod.ext (hm s.1.vault).1 rfl
  | getHeader => rfl
  | putHeader header => rfl
  | ofExcept r => rfl

theorem leaves_headers {α : Type} {p : EngineM β α} (hp : p.Each (HeaderAction backend)) :
    p.run.Leaves tracked :=
  Program.Each.within (R := fun s t => tracked t = tracked s) (fun _ => rfl)
    (fun h h' => h'.trans h) (hp.mono fun hm => hm.leaves_tracked)

end Headers

variable (aead : Aead KeyBytes) (b64 : Base64) (backend : SyncBackend β)

/-- What was handed to the apply loop: nothing, or a prefix of one answer to `pull`. -/
def Pulled (done : List SyncItem) : Prop :=
  done = [] ∨ ∃ since b items cursor b',
    backend.pull since b = (.ok (items, cursor), b') ∧ done <+: items

theorem listSyncEligibleItems_ends (s : Engine × β) :
    (listSyncEligibleItems : EngineM β (List ItemRow)).run.Ends (fun r t =>
      t.1.vault.db = s.1.vault.db ∧ t.1.cursor = s.1.cursor ∧ t.2 = s.2 ∧
        ∀ rows, r = .ok rows → rows = syncEligible s.1.vault.db) s := by
  rw [listSyncEligibleItems, Program.run_bind]
  refine Action.Ends.bind (P := fun _ t => t.1.vault.db = s.1.vault.db ∧
    t.1.cursor = s.1.cursor ∧ t.2 = s.2) ?_ ?_ ?_
  · rw [Action.Ends, onVault_run]
    exact ⟨leaves_requireKey (f := Vault.db) (fun _ _ => rfl) _, rfl, rfl⟩
  · rintro key t ⟨hdb, hcursor, hbackend⟩
    rw [Action.Ends, onVault_run]
    refine ⟨(leaves_withDb (f := Vault.db) (fun _ _ => rfl) _ _).trans hdb, hcursor, hbackend, ?_⟩
    intro rows hrows
    rw [← hdb]
    exact (Except.ok.inj (withDb_eq_ok (Prod.ext hrows rfl)).1).symm
  · rintro e t ⟨hdb, hcursor, hbackend⟩
    exact ⟨hdb, hcursor, hbackend, fun _ h => by cases h⟩

/-- An exchange changes the rows by a prefix of what it pulled, whatever its outcome. -/
theorem exchangeItems_ends (s : Engine × β) :
    (exchangeItems b64 backend).run.Ends (fun _ t => ∃ done, Pulled backend done ∧
      (∀ id, t.1.vault.db.getItem id =
        applyAll b64 (s.1.vault.db.getItem id) (done.filter fun x => x.id = id)) ∧
      t.1.vault.db.header = s.1.vault.db.header) s := by
  rw [exchangeItems, Program.run_bind]
  refine Action.Ends.bind (P := fun _ t => t = s) ?_ ?_ ?_
  · rw [getCursor, Program.run_lift]
    rfl
  · rintro since t rfl
    rw [Program.run_bind]
    refine Action.Ends.bind (P := fun r u => u.1 = t.1 ∧ (backend.pull since t.2).1 = r) ?_ ?_ ?_
    · rw [Action.Ends, onBackend_run]
      exact ⟨rfl, rfl⟩
    · rintro ⟨items, cursor⟩ u ⟨hu, hpull⟩
      dsimp only
      rw [Program.run_bind]
      refine Action.Ends.bind (applyItems_ends b64 0 items u) ?_ ?_
      · rintro n w ⟨done, hpre, hdone, -⟩
        have hpulled : Pulled backend done :=
          Or.inr ⟨since, t.2, items, cursor, _, Prod.ext hpull rfl, hpre⟩
        rw [Program.run_bind]
        refine Action.Ends.bind (listSyncEligibleItems_ends w) ?_ ?_
        · rintro rows x ⟨hdb, -⟩
          rw [Program.run_bind]
          refine Action.Ends.bind (P := fun _ y => y.1 = x.1) ?_ ?_ ?_
          · rw [Action.Ends, onBackend_run]
          · rintro pushCursor y hy
            refine ⟨done, hpulled, fun id => ?_, ?_⟩
            · change y.1.vault.db.getItem id = _
              rw [hy, hdb, hdone.item id, hu]
            · change y.1.vault.db.header = _
              rw [hy, hdb, hdone.header, hu]
          · rintro e y hy
            refine ⟨done, hpulled, fun id => ?_, ?_⟩
            · rw [hy, hdb, hdone.item id, hu]
            · rw [hy, hdb, hdone.header, hu]
        · rintro e x ⟨hdb, -⟩
          refine ⟨done, hpulled, fun id => ?_, ?_⟩
          · rw [hdb, hdone.item id, hu]
          · rw [hdb, hdone.header, hu]
      · rintro e w ⟨done, hpre, hdone, -⟩
        refine ⟨done, Or.inr ⟨since, t.2, items, cursor, _, Prod.ext hpull rfl, hpre⟩,
          fun id => ?_, ?_⟩
        · rw [hdone.item id, hu]
        · rw [hdone.header, hu]
    · rintro e u ⟨hu, -⟩
      exact ⟨[], Or.inl rfl, fun id => by rw [hu]; rfl, by rw [hu]⟩
  · rintro e t rfl
    exact ⟨[], Or.inl rfl, fun id => rfl, rfl⟩

variable {b64 backend}

/-- A successful exchange, step by step. -/
theorem exchangeItems_eq_ok {s t : Engine × β} {report : SyncReport}
    (h : (exchangeItems b64 backend).run s = (.ok report, t)) :
    ∃ items remoteCursor b₁ pushCursor,
      backend.pull s.1.cursor s.2 = (.ok (items, remoteCursor), b₁) ∧
      (∀ id, t.1.vault.db.getItem id =
        applyAll b64 (s.1.vault.db.getItem id) (items.filter fun x => x.id = id)) ∧
      t.1.vault.db.header = s.1.vault.db.header ∧
      backend.push ((syncEligible t.1.vault.db).map (syncItemFromRow b64)) b₁ =
        (.ok pushCursor, t.2) ∧
      t.1.cursor = laterCursor pushCursor remoteCursor ∧ report.cursor = t.1.cursor := by
  rw [exchangeItems, Program.run_bind] at h
  obtain ⟨since, s', hget, h⟩ := Action.bind_eq_ok.1 h
  rw [getCursor, Program.run_lift] at hget
  obtain ⟨rfl, rfl⟩ := Action.read_eq_ok.1 hget
  rw [Program.run_bind] at h
  obtain ⟨⟨items, remoteCursor⟩, u, hpull, h⟩ := Action.bind_eq_ok.1 h
  obtain ⟨hpull, hu⟩ := onBackend_eq_ok hpull
  dsimp only at h
  rw [Program.run_bind] at h
  obtain ⟨n, w, happly, h⟩ := Action.bind_eq_ok.1 h
  have hends := applyItems_ends b64 0 items u
  rw [Action.Ends, happly] at hends
  obtain ⟨done, -, hdone, hall⟩ := hends
  obtain rfl := hall n rfl
  rw [Program.run_bind] at h
  obtain ⟨rows, x, hlist, h⟩ := Action.bind_eq_ok.1 h
  have hlends := listSyncEligibleItems_ends w
  rw [Action.Ends, hlist] at hlends
  obtain ⟨hdb, hcursor, hbackend, hrows⟩ := hlends
  obtain rfl := hrows rows rfl
  rw [Program.run_bind] at h
  obtain ⟨pushCursor, y, hpush, h⟩ := Action.bind_eq_ok.1 h
  obtain ⟨hpush, hy⟩ := onBackend_eq_ok hpush
  rw [Program.run_bind] at h
  obtain ⟨_, z, hset, h⟩ := Action.bind_eq_ok.1 h
  rw [setCursor, Program.run_lift] at hset
  obtain rfl := Action.update_eq_ok.1 hset
  obtain ⟨rfl, rfl⟩ := Action.pure_eq_ok.1 h
  refine ⟨done, remoteCursor, u.2, pushCursor, hpull, fun id => ?_, ?_, ?_, rfl, rfl⟩
  · change y.1.vault.db.getItem id = _
    rw [hy, hdb, hdone.item id, hu]
  · change y.1.vault.db.header = _
    rw [hy, hdb, hdone.header, hu]
  · change backend.push ((syncEligible y.1.vault.db).map _) u.2 = (.ok pushCursor, y.2)
    rw [hy, hdb]
    have hx : x.2 = u.2 := hbackend.trans hdone.backend
    rw [hx] at hpush
    exact hpush

/-- A sync changes the rows by a prefix of what it pulled, whatever its outcome. -/
theorem syncNow_rows (b64 : Base64) (backend : SyncBackend β) (s : Engine × β) :
    (syncNow aead b64 backend).run.Ends (fun _ t => ∃ done, Pulled backend done ∧
      ∀ id, t.1.vault.db.getItem id =
        applyAll b64 (s.1.vault.db.getItem id) (done.filter fun x => x.id = id)) s := by
  have hnone : ∀ t : Engine × β, tracked t = tracked s → ∃ done, Pulled backend done ∧
      ∀ id, t.1.vault.db.getItem id =
        applyAll b64 (s.1.vault.db.getItem id) (done.filter fun x => x.id = id) := by
    intro t ht
    refine ⟨[], Or.inl rfl, fun id => ?_⟩
    rw [VaultDb.getItem, show t.1.vault.db.items = s.1.vault.db.items from congrArg Prod.fst ht]
    rfl
  rw [syncNow, Program.run_bind]
  refine Action.Ends.bind (P := fun _ t => tracked t = tracked s) ?_ ?_ fun e t => hnone t
  · exact leaves_headers (each_isUnlocked_header backend) s
  · intro unlocked t ht
    cases unlocked with
    | false =>
      rw [if_neg (by decide)]
      exact hnone _ ((leaves_headers (each_fail_header backend _) t).trans ht)
    | true =>
      rw [if_pos rfl, syncNowInner, Program.run_bind]
      refine Action.Ends.bind (P := fun _ t => tracked t = tracked s) ?_ ?_ fun e t => hnone t
      · exact (leaves_headers (each_adoptRemoteRekey_header aead backend) t).trans ht
      · intro _ u hu
        rw [Program.run_bind]
        refine Action.Ends.bind (P := fun _ t => tracked t = tracked s) ?_ ?_ fun e t => hnone t
        · exact (leaves_headers (each_publishHeader_header backend) u).trans hu
        · intro _ w hw
          obtain ⟨done, hpulled, hrows, -⟩ := exchangeItems_ends b64 backend w
          refine ⟨done, hpulled, fun id => ?_⟩
          rw [hrows id, VaultDb.getItem, VaultDb.getItem,
            show w.1.vault.db.items = s.1.vault.db.items from congrArg Prod.fst hw]

/-- A successful sync is its header phases followed by a successful exchange. -/
theorem syncNow_eq_ok {s t : Engine × β} {report : SyncReport}
    (h : (syncNow aead b64 backend).run s = (.ok report, t)) :
    ∃ r u w, (onVault isUnlocked).run s = (.ok true, r) ∧
      (adoptRemoteRekeyIfNeeded aead backend).run r = (.ok (), u) ∧
      (publishHeader backend).run u = (.ok (), w) ∧
      (exchangeItems b64 backend).run w = (.ok report, t) := by
  rw [syncNow, Program.run_bind] at h
  obtain ⟨unlocked, r, hr, h⟩ := Action.bind_eq_ok.1 h
  cases unlocked with
  | false =>
    rw [if_neg (by decide), Program.run_fail] at h
    exact (Action.fail_eq_ok.1 h).elim
  | true =>
    rw [if_pos rfl, syncNowInner, Program.run_bind] at h
    obtain ⟨_, u, hu, h⟩ := Action.bind_eq_ok.1 h
    rw [Program.run_bind] at h
    obtain ⟨_, w, hw, h⟩ := Action.bind_eq_ok.1 h
    exact ⟨r, u, w, hr, hu, hw, h⟩

end Phases
end Tethra.SyncRuns
