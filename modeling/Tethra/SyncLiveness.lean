import Tethra.SyncRuns

set_option autoImplicit false

/-!
# A sync succeeds when nothing fails

The database and the file system answer, the vault is unlocked, the directory parses and
its header is of the vault.
-/
namespace Tethra.SyncLiveness
open AtomicPrograms AuthenticatedEncryption Base64Strings KeyedTables StatefulActions
open SyncEngine SyncFileBackend SyncItems SyncRuns VaultCrypto VaultState VaultTypes

structure Healthy (f : FileBackend) : Prop where
  calls : ∀ n, f.faultAt n = none
  manifest : ∀ e, f.manifest ≠ some (.error e)
  header : ∀ e, f.header ≠ some (.error e)
  items : ∀ id file, f.items.get id = some file → ∃ x, file.content = .ok x

namespace Healthy

theorem io : FileBackend.io.Succeeds Healthy fun _ => Healthy := by
  intro f hf
  refine ⟨(), { f with calls := f.calls + 1 }, ?_, hf.calls, hf.manifest, hf.header, hf.items⟩
  rw [FileBackend.io, hf.calls]

theorem atomicWriteJson {g : FileBackend → FileBackend} (hg : ∀ f, Healthy f → Healthy (g f)) :
    (FileBackend.atomicWriteJson g).Succeeds Healthy fun _ => Healthy :=
  io.bind fun _ f hf => ⟨(), g f, rfl, hg f hf⟩

theorem writeManifest (manifest : Manifest) :
    (FileBackend.writeManifest manifest).Succeeds Healthy fun _ => Healthy :=
  atomicWriteJson fun _ hf => ⟨hf.calls, fun e h => (by cases h), hf.header, hf.items⟩

theorem ensureLayout : FileBackend.ensureLayout.Succeeds Healthy fun _ => Healthy := by
  refine io.bind fun _ => (Action.Succeeds.read _).bind fun m => ?_
  cases m with
  | some m => exact Action.Succeeds.pure fun _ h => h.1
  | none => exact fun f hf => writeManifest .default f hf.1

theorem readManifest : FileBackend.readManifest.Succeeds Healthy fun _ => Healthy := by
  refine (Action.Succeeds.read _).bind fun m => ?_
  cases m with
  | none => exact Action.Succeeds.pure fun _ h => h.1
  | some content =>
    cases content with
    | error e => exact fun f hf => absurd hf.2 (hf.1.manifest e)
    | ok manifest =>
      refine fun f hf => (io.bind fun _ => ?_ : Action.Succeeds Healthy _ _) f hf.1
      exact Action.Succeeds.pure fun _ h => h

theorem readEntries (entries : List ItemFile) :
    (FileBackend.readEntries entries).Succeeds Healthy fun _ => Healthy := by
  induction entries with
  | nil => exact Action.Succeeds.pure fun _ h => h
  | cons entry entries ih =>
    refine io.bind fun _ => ih.bind fun out => ?_
    cases entry.content with
    | ok x => exact Action.Succeeds.pure fun _ h => h
    | error e => exact Action.Succeeds.pure fun _ h => h

theorem readAllItems : FileBackend.readAllItems.Succeeds Healthy fun _ => Healthy := by
  refine (Action.Succeeds.read _).bind fun entries f hf => ?_
  exact (io.bind fun _ => readEntries entries : Action.Succeeds Healthy _ _) f hf.1

theorem pull (since : SyncCursor) : (FileBackend.pull since).Succeeds Healthy fun _ => Healthy := by
  refine ensureLayout.bind fun _ => readManifest.bind fun manifest => ?_
  refine Action.Succeeds.bind (P := fun _ => Healthy) ?_ fun _ => Action.Succeeds.pure fun _ h => h
  split
  · exact Action.Succeeds.pure fun _ h => h
  · exact readAllItems

theorem isWinner (incoming : SyncItem) :
    (FileBackend.isWinner incoming).Succeeds Healthy fun _ => Healthy := by
  refine (Action.Succeeds.read _).bind fun file => ?_
  cases file with
  | none => exact Action.Succeeds.pure fun _ h => h.1
  | some file =>
    intro f hf
    obtain ⟨x, hx⟩ := hf.1.items incoming.id file hf.2
    refine (io.bind fun _ => ?_ : Action.Succeeds Healthy _ _) f hf.1
    rw [hx]
    exact Action.Succeeds.pure fun _ h => h

theorem put {f : FileBackend} (hf : Healthy f) (x : SyncItem) :
    Healthy { f with items := f.items.put ⟨x.id, .ok x⟩ } := by
  refine ⟨hf.calls, hf.manifest, hf.header, fun id file hfile => ?_⟩
  change (f.items.put ⟨x.id, .ok x⟩).get id = some file at hfile
  rw [Table.get_put] at hfile
  split at hfile
  · cases hfile
    exact ⟨x, rfl⟩
  · exact hf.items id file hfile

theorem pushItems (changed : Bool) (items : List SyncItem) :
    (FileBackend.pushItems changed items).Succeeds Healthy fun _ => Healthy := by
  induction items generalizing changed with
  | nil => exact Action.Succeeds.pure fun _ h => h
  | cons x items ih =>
    refine (isWinner x).bind fun wins => ?_
    cases wins with
    | true => exact (atomicWriteJson fun _ hf => hf.put x).bind fun _ => ih true
    | false => exact ih changed

theorem bumpRevision : FileBackend.bumpRevision.Succeeds Healthy fun _ => Healthy :=
  readManifest.bind fun _ => (writeManifest _).bind fun _ => Action.Succeeds.pure fun _ h => h

theorem push (items : List SyncItem) :
    (FileBackend.push items).Succeeds Healthy fun _ => Healthy := by
  refine ensureLayout.bind fun _ => ?_
  split
  · exact readManifest.bind fun _ => Action.Succeeds.pure fun _ h => h
  · refine (pushItems false items).bind fun changed => ?_
    refine Action.Succeeds.bind (P := fun _ => Healthy) ?_ fun _ => Action.Succeeds.pure fun _ h => h
    split
    · exact bumpRevision
    · exact readManifest

theorem getHeader : FileBackend.getHeader.Succeeds Healthy fun _ => Healthy := by
  refine ensureLayout.bind fun _ => (Action.Succeeds.read _).bind fun m => ?_
  cases m with
  | none => exact Action.Succeeds.pure fun _ h => h.1
  | some content =>
    cases content with
    | error e => exact fun f hf => absurd hf.2 (hf.1.header e)
    | ok header =>
      refine fun f hf => (io.bind fun _ => ?_ : Action.Succeeds Healthy _ _) f hf.1
      exact Action.Succeeds.pure fun _ h => h

theorem putHeader (header : SyncedVaultHeader) :
    (FileBackend.putHeader header).Succeeds Healthy fun _ => Healthy := by
  refine ensureLayout.bind fun _ => (atomicWriteJson fun f hf => ?_).bind fun _ =>
    bumpRevision.bind fun _ => Action.Succeeds.pure fun _ h => h
  exact ⟨hf.calls, hf.manifest, fun e h => (by cases h), hf.items⟩

end Healthy

/-- The database answers and the vault is unlocked and not idle. -/
structure Ready (v : Vault) : Prop where
  faults : ∀ n, v.world.dbFaultAt n = none
  awake : ∃ vaultKey authKey last, v.state = .unlocked vaultKey authKey last ∧
    (v.idleTimeout = IDLE_LOCK_DISABLED ∨ v.world.now - last < v.idleTimeout)

namespace Ready

theorem touchIdle {v : Vault} (hv : Ready v) : (VaultState.touchIdle v) = (.ok (), v) := by
  obtain ⟨vaultKey, authKey, last, hs, ht⟩ := hv.awake
  rw [VaultState.touchIdle, Action.update]
  by_cases hd : v.idleTimeout = IDLE_LOCK_DISABLED
  · rw [if_pos hd]
  · have hlt := ht.resolve_left hd
    have hexp : v.state.expired v.world.now v.idleTimeout = false := by
      rw [hs]
      exact decide_eq_false (Nat.not_le_of_lt hlt)
    rw [if_neg hd, hexp, if_neg (by decide)]

theorem isUnlocked {v : Vault} (hv : Ready v) : VaultState.isUnlocked v = (.ok true, v) := by
  obtain ⟨vaultKey, authKey, last, hs, -⟩ := hv.awake
  rw [VaultState.isUnlocked, Action.bind_ok hv.touchIdle, Action.read, hs]
  rfl

theorem withDb {α : Type} {g : VaultDb → Except Error α} {v : Vault} (hv : Ready v) {a : α}
    (hg : g v.db = .ok a) :
    VaultState.withDb g v = (.ok a, { v with world.draws := v.world.draws + 1 }) :=
  withDb_calm (hv.faults _) hg

theorem withDbMut (g : VaultDb → VaultDb) {v : Vault} (hv : Ready v) :
    VaultState.withDbMut g v =
      (.ok (), { v with db := g v.db, world.draws := v.world.draws + 1 }) :=
  withDbMut_calm (hv.faults _)

theorem drawn {v : Vault} (hv : Ready v) (n : ℕ) : Ready { v with world.draws := n } :=
  ⟨hv.faults, hv.awake⟩

theorem stored {v : Vault} (hv : Ready v) (db : VaultDb) (n : ℕ) :
    Ready { v with db := db, world.draws := n } := ⟨hv.faults, hv.awake⟩

theorem requireKey {v : Vault} (hv : Ready v) :
    ∃ vaultKey authKey, VaultState.requireKey v =
      (.ok vaultKey, { v with state := .unlocked vaultKey authKey v.world.now }) ∧
      Ready { v with state := .unlocked vaultKey authKey v.world.now } := by
  obtain ⟨vaultKey, authKey, last, hs, ht⟩ := hv.awake
  refine ⟨vaultKey, authKey, ?_, hv.faults, vaultKey, authKey, v.world.now, rfl, ?_⟩
  · have hread : (Action.read Vault.state : VaultM LockState) v =
        (.ok (.unlocked vaultKey authKey last), v) := by
      rw [← hs]
      rfl
    rw [VaultState.requireKey, Action.bind_ok hv.touchIdle, Action.bind_ok hread]
    rfl
  · obtain hd | hlt := ht
    · exact Or.inl hd
    · refine Or.inr ?_
      change v.world.now - v.world.now < v.idleTimeout
      rw [Nat.sub_self]
      exact Nat.lt_of_le_of_lt (Nat.zero_le _) hlt

end Ready

/-- Nothing fails, and the directory is of the vault with header `h`. -/
structure Calm (b64 : Base64) (h : VaultHeader) (s : Engine × FileBackend) : Prop where
  ready : Ready s.1.vault
  healthy : Healthy s.2
  header : s.1.vault.db.header = some h
  remote : ∀ r, s.2.header = some (.ok r) → sameVault r (exportHeader h) = true
  decodes : ∀ x, s.2.Holds x → ∃ row, itemRowFromSync b64 x = .ok row

/-- Nothing fails, and the directory stores `x`, of the vault with header `h`. -/
structure Steady (h : VaultHeader)
    (x : Option (Json SyncedVaultHeader) × Table ItemFile Uuid ItemFile.name × UInt64)
    (s : Engine × FileBackend) : Prop where
  ready : Ready s.1.vault
  healthy : Healthy s.2
  header : s.1.vault.db.header = some h
  stored : s.2.stored = x
  remote : ∀ r, x.1 = some (.ok r) → sameVault r (exportHeader h) = true

/-- What `publish_header` leaves in the directory. -/
def published (h : VaultHeader) :
    Option (Json SyncedVaultHeader) × Table ItemFile Uuid ItemFile.name × UInt64 →
    Option (Json SyncedVaultHeader) × Table ItemFile Uuid ItemFile.name × UInt64
  | (none, items, revision) => (some (.ok (exportHeader h)), items, saturatingSucc revision)
  | (some header, items, revision) => (some header, items, revision)

/-- The apply loop meets no item it should write and cannot read. -/
def Applicable (b64 : Base64) : (Uuid → Option ItemRow) → List SyncItem → Prop
  | _, [] => True
  | rows, item :: items =>
    (shouldApply item (rows item.id) = true → ∃ row, itemRowFromSync b64 item = .ok row) ∧
      Applicable b64 (Function.update rows item.id (applyTo b64 (rows item.id) item)) items

theorem applicable_of_decodes {b64 : Base64} {items : List SyncItem}
    (hitems : ∀ x ∈ items, ∃ row, itemRowFromSync b64 x = .ok row)
    (rows : Uuid → Option ItemRow) : Applicable b64 rows items := by
  induction items generalizing rows with
  | nil => trivial
  | cons item items ih =>
    exact ⟨fun _ => hitems item List.mem_cons_self,
      ih (fun x hx => hitems x (List.mem_cons_of_mem _ hx)) _⟩

section Engines
variable {aead : Aead KeyBytes} {b64 : Base64} {h : VaultHeader}
  {x : Option (Json SyncedVaultHeader) × Table ItemFile Uuid ItemFile.name × UInt64}

theorem run_bind_succeeds {α γ : Type} {I : Engine × FileBackend → Prop}
    {P : α → Engine × FileBackend → Prop} {Q : γ → Engine × FileBackend → Prop}
    {p : EngineM FileBackend α} {f : α → EngineM FileBackend γ} (hp : p.run.Succeeds I P)
    (hf : ∀ a, (f a).run.Succeeds (P a) Q) : (p >>= f).run.Succeeds I Q := by
  rw [Program.run_bind]
  exact hp.bind hf

theorem run_pure_succeeds {α : Type} {I : Engine × FileBackend → Prop}
    {Q : α → Engine × FileBackend → Prop} {a : α} (hQ : ∀ s, I s → Q a s) :
    (pure a : EngineM FileBackend α).run.Succeeds I Q := by
  rw [Program.run_pure]
  exact Action.Succeeds.pure hQ

/-- The vault may change where its header does not. -/
theorem Steady.vault {s : Engine × FileBackend} (hs : Steady h x s) {v : Vault} (hv : Ready v)
    (hheader : v.db.header = s.1.vault.db.header) :
    Steady h x ({ s.1 with vault := v }, s.2) :=
  ⟨hv, hs.healthy, hheader.trans hs.header, hs.stored, hs.remote⟩

theorem Steady.read {s : Engine × FileBackend} (hs : Steady h x s) {g : FileBackend}
    (hg : Healthy g) (hstored : g.stored = s.2.stored) : Steady h x (s.1, g) :=
  ⟨hs.ready, hg, hs.header, hstored.trans hs.stored, hs.remote⟩

theorem Calm.vault {s : Engine × FileBackend} (hs : Calm b64 h s) {v : Vault} (hv : Ready v)
    (hheader : v.db.header = s.1.vault.db.header) :
    Calm b64 h ({ s.1 with vault := v }, s.2) :=
  ⟨hv, hs.healthy, hheader.trans hs.header, hs.remote, hs.decodes⟩

theorem Calm.steady {s : Engine × FileBackend} (hs : Calm b64 h s) : Steady h s.2.stored s :=
  ⟨hs.ready, hs.healthy, hs.header, rfl, hs.remote⟩

theorem isUnlocked_succeeds : (onVault isUnlocked : EngineM FileBackend Bool).run.Succeeds
    (Steady h x) fun unlocked s => unlocked = true ∧ Steady h x s := by
  intro s hs
  refine ⟨true, s, ?_, rfl, hs⟩
  rw [onVault_run, hs.ready.isUnlocked]

theorem readHeader_succeeds :
    (onVault (withDb VaultDb.readHeader) : EngineM FileBackend VaultHeader).run.Succeeds
      (Steady h x) fun header s => header = h ∧ Steady h x s := by
  intro s hs
  have hread : s.1.vault.db.readHeader = .ok h := readHeader_eq_ok.2 hs.header
  refine ⟨h, _, ?_, rfl, hs.vault (hs.ready.drawn (s.1.vault.world.draws + 1)) rfl⟩
  rw [onVault_run, hs.ready.withDb hread]

theorem readDb_succeeds {α : Type} (g : VaultDb → α) :
    (onVault (withDb fun db => .ok (g db)) : EngineM FileBackend α).run.Succeeds (Steady h x)
      fun _ => Steady h x := by
  intro s hs
  have hread := hs.ready.withDb (g := fun db => .ok (g db)) rfl
  refine ⟨g s.1.vault.db, _, ?_, hs.vault (hs.ready.drawn (s.1.vault.world.draws + 1)) rfl⟩
  rw [onVault_run, hread]

theorem exportSyncHeader_succeeds :
    (exportSyncHeader : EngineM FileBackend SyncedVaultHeader).run.Succeeds (Steady h x)
      fun header s => header = exportHeader h ∧ Steady h x s :=
  run_bind_succeeds readHeader_succeeds fun _ =>
    run_pure_succeeds fun _ hs => ⟨congrArg exportHeader hs.1, hs.2⟩

theorem getHeader_succeeds :
    (onBackend fileBackend.getHeader : EngineM FileBackend _).run.Succeeds (Steady h x)
      fun found s => x.1 = found.map .ok ∧ Steady h x s := by
  intro s hs
  obtain ⟨found, g, hget, hg⟩ := Healthy.getHeader s.2 hs.healthy
  obtain ⟨hstored, hheader⟩ := FileBackend.getHeader_eq_ok hget
  refine ⟨found, (s.1, g), ?_, ?_, hs.read hg hstored⟩
  · rw [onBackend_run]
    change ((FileBackend.getHeader s.2).1, (s.1, (FileBackend.getHeader s.2).2)) = _
    rw [hget]
  · rw [← hs.stored]
    exact hheader

theorem putHeader_succeeds {items : Table ItemFile Uuid ItemFile.name} {revision : UInt64} :
    (onBackend (fileBackend.putHeader (exportHeader h)) : EngineM FileBackend Unit).run.Succeeds
      (Steady h (none, items, revision))
      fun _ => Steady h (published h (none, items, revision)) := by
  intro s hs
  obtain ⟨u, g, hput, hg⟩ := Healthy.putHeader (exportHeader h) s.2 hs.healthy
  obtain ⟨hitems, -, -, hok⟩ := FileBackend.putHeader_spec (exportHeader h) s.2
  rw [hput] at hitems hok
  obtain ⟨hheader, hrevision⟩ := hok u rfl
  refine ⟨u, (s.1, g), ?_, hs.ready, hg, hs.header, ?_, fun r hr => ?_⟩
  · rw [onBackend_run]
    change ((FileBackend.putHeader _ s.2).1, (s.1, (FileBackend.putHeader _ s.2).2)) = _
    rw [hput]
  · refine Prod.ext hheader (Prod.ext ?_ ?_)
    · exact hitems.trans (congrArg (fun x => x.2.1) hs.stored)
    · refine hrevision.trans (congrArg saturatingSucc ?_)
      exact congrArg (fun x => x.2.2) hs.stored
  · cases hr
    exact sameVault_refl _

variable (aead) in
theorem adoptRemoteRekey_succeeds :
    (adoptRemoteRekeyIfNeeded aead fileBackend).run.Succeeds (Steady h x) fun _ => Steady h x := by
  refine run_bind_succeeds getHeader_succeeds fun found => ?_
  cases found with
  | none => exact run_pure_succeeds fun _ hs => hs.2
  | some remote =>
    intro s hs
    have hsame := hs.2.remote remote hs.1
    refine (run_bind_succeeds exportSyncHeader_succeeds fun header => ?_ :
      Action.Succeeds (Steady h x) _ _) s hs.2
    intro t ht
    rw [ht.1, if_pos hsame]
    exact run_pure_succeeds (fun _ h => h) t ht.2

theorem publishHeader_succeeds :
    (publishHeader fileBackend).run.Succeeds (Steady h x) fun _ => Steady h (published h x) := by
  refine run_bind_succeeds exportSyncHeader_succeeds fun header s hs => ?_
  rw [hs.1]
  refine (run_bind_succeeds getHeader_succeeds fun found => ?_ :
    Action.Succeeds (Steady h x) _ _) s hs.2
  intro t ht
  obtain ⟨header, items, revision⟩ := x
  cases found with
  | none =>
    obtain rfl : header = none := ht.1
    exact putHeader_succeeds t ht.2
  | some remote =>
    obtain rfl : header = some (.ok remote) := ht.1
    rw [publishOver, if_pos (ht.2.remote remote rfl)]
    exact run_pure_succeeds (fun _ h => h) t ht.2

variable (b64) in
/-- The apply loop stops at the first item it should write and cannot read. -/
theorem applyItems_ok_iff (items : List SyncItem) (n : UInt32) {s : Engine × FileBackend}
    (hs : Steady h x s) : ∃ r t, (applyItems b64 n items : EngineM FileBackend UInt32).run s = (r, t) ∧
      Steady h x t ∧ ((∃ m, r = .ok m) ↔ Applicable b64 s.1.vault.db.getItem items) := by
  induction items generalizing n s with
  | nil => exact ⟨.ok n, s, rfl, hs, ⟨fun _ => trivial, fun _ => ⟨n, rfl⟩⟩⟩
  | cons item items ih =>
    have hread := hs.ready.withDb (g := fun db => .ok (db.getItem item.id)) rfl
    have hdrawn : Steady h x ({ s.1 with vault :=
        { s.1.vault with world.draws := s.1.vault.world.draws + 1 } }, s.2) :=
      hs.vault (hs.ready.drawn _) rfl
    rw [applyItems, Program.run_bind, Action.bind_ok (a := s.1.vault.db.getItem item.id)
      (by rw [onVault_run, hread])]
    cases happly : shouldApply item (s.1.vault.db.getItem item.id) with
    | false =>
      rw [if_neg (by decide)]
      obtain ⟨r, t, hrun, ht, hiff⟩ := ih n hdrawn
      refine ⟨r, t, hrun, ht, hiff.trans ?_⟩
      rw [Applicable, happly, applyTo, happly, if_neg (by decide), Function.update_eq_self]
      simp
    | true =>
      rw [if_pos rfl, Program.run_bind, Program.run_lift]
      cases hdecode : itemRowFromSync b64 item with
      | error e =>
        refine ⟨.error e, _, rfl, hdrawn, ⟨fun hok => ?_, fun hall => ?_⟩⟩
        · obtain ⟨m, hm⟩ := hok
          cases hm
        · obtain ⟨row, hrow⟩ := hall.1 happly
          rw [hdecode] at hrow
          cases hrow
      | ok row =>
        have hid := (itemRowFromSync_eq_ok hdecode).1
        have hwrite := hdrawn.ready.withDbMut fun db => db.upsertItem row
        have hstored := hdrawn.vault (hdrawn.ready.stored
          (s.1.vault.db.upsertItem row) (s.1.vault.world.draws + 1 + 1)) rfl
        change ∃ r t, Program.run (onVault (withDbMut fun db => db.upsertItem row) >>=
          fun _ => applyItems b64 (n + 1) items) _ = (r, t) ∧ _
        rw [Program.run_bind, Action.bind_ok (a := ()) (by rw [onVault_run, hwrite])]
        obtain ⟨r, t, hrun, ht, hiff⟩ := ih (n + 1) hstored
        refine ⟨r, t, hrun, ht, hiff.trans ?_⟩
        rw [Applicable, applyTo, if_pos happly, hdecode]
        have hrows : VaultDb.getItem (s.1.vault.db.upsertItem row) =
            Function.update s.1.vault.db.getItem item.id (some row) := by
          funext id
          rw [VaultDb.getItem_upsertItem, hid, Function.update_apply]
        change Applicable b64 (VaultDb.getItem (s.1.vault.db.upsertItem row)) items ↔ _
        rw [hrows]
        exact ⟨fun hrest => ⟨fun _ => ⟨row, rfl⟩, hrest⟩, fun hall => hall.2⟩

theorem listSyncEligibleItems_succeeds :
    (listSyncEligibleItems : EngineM FileBackend (List ItemRow)).run.Succeeds (Steady h x)
      fun _ => Steady h x := by
  refine run_bind_succeeds (P := fun _ => Steady h x) ?_ fun key => ?_
  · intro s hs
    obtain ⟨vaultKey, authKey, hkey, hready⟩ := hs.ready.requireKey
    refine ⟨vaultKey, _, ?_, hs.vault hready rfl⟩
    rw [onVault_run, hkey]
  · exact readDb_succeeds syncEligible

theorem pull_succeeds (since : SyncCursor) :
    (onBackend (fileBackend.pull since) : EngineM FileBackend _).run.Succeeds (Steady h x)
      fun answer s => (since.parseRevision < x.2.2 → ∀ item, item ∈ answer.1 ↔
          ∃ file ∈ x.2.1.rows, file.content = .ok item) ∧
        (x.2.2 ≤ since.parseRevision → answer.1 = []) ∧ Steady h x s := by
  intro s hs
  obtain ⟨⟨items, cursor⟩, g, hpull, hg⟩ := Healthy.pull since s.2 hs.healthy
  obtain ⟨hstored, -, hnone, hall⟩ := FileBackend.pull_eq_ok hpull
  have hrevision : s.2.revision = x.2.2 := congrArg (fun x => x.2.2) hs.stored
  have hitems : s.2.items = x.2.1 := congrArg (fun x => x.2.1) hs.stored
  rw [hrevision] at hnone hall
  refine ⟨(items, cursor), (s.1, g), ?_, fun hlt item => ?_, hnone, hs.read hg hstored⟩
  · rw [onBackend_run]
    change ((FileBackend.pull since s.2).1, (s.1, (FileBackend.pull since s.2).2)) = _
    rw [hpull]
  · rw [← hitems]
    exact hall hlt item

theorem push_succeeds (rows : List ItemRow) :
    (onBackend (fileBackend.push (rows.map (syncItemFromRow b64))) :
      EngineM FileBackend SyncCursor).run.Succeeds (Steady h x) fun _ s =>
        Ready s.1.vault ∧ Healthy s.2 ∧ s.1.vault.db.header = some h ∧ s.2.header = x.1 ∧
        ∀ item, s.2.Holds item → (∃ file ∈ x.2.1.rows, file.content = .ok item) ∨
          ∃ row, item = syncItemFromRow b64 row := by
  intro s hs
  obtain ⟨cursor, g, hpush, hg⟩ := Healthy.push (rows.map (syncItemFromRow b64)) s.2 hs.healthy
  obtain ⟨done, hdone, hoff, -⟩ := FileBackend.push_spec (rows.map (syncItemFromRow b64)) s.2
  rw [hpush] at hoff
  refine ⟨cursor, (s.1, g), ?_, hs.ready, hg, hs.header, ?_, fun item hitem => ?_⟩
  · rw [onBackend_run]
    change ((FileBackend.push _ s.2).1, (s.1, (FileBackend.push _ s.2).2)) = _
    rw [hpush]
  · exact hoff.header.trans (congrArg Prod.fst hs.stored)
  · obtain hold | hnew := hoff.holds item hitem
    · have hitems : s.2.items = x.2.1 := congrArg (fun x => x.2.1) hs.stored
      rw [FileBackend.Holds, hitems] at hold
      exact Or.inl hold
    · obtain ⟨row, -, rfl⟩ := List.mem_map.1 (hdone.subset hnew)
      exact Or.inr ⟨row, rfl⟩

/-- What a push leaves of a steady state. -/
def Pushed (b64 : Base64) (h : VaultHeader)
    (x : Option (Json SyncedVaultHeader) × Table ItemFile Uuid ItemFile.name × UInt64)
    (s : Engine × FileBackend) : Prop :=
  Ready s.1.vault ∧ Healthy s.2 ∧ s.1.vault.db.header = some h ∧ s.2.header = x.1 ∧
    ∀ item, s.2.Holds item → (∃ file ∈ x.2.1.rows, file.content = .ok item) ∨
      ∃ row, item = syncItemFromRow b64 row

variable (b64) in
/-- Nothing but an item it cannot read stops an exchange. -/
theorem exchangeItems_ok_iff {s : Engine × FileBackend} (hs : Steady h x s) :
    ∃ items, (s.1.cursor.parseRevision < x.2.2 → ∀ item, item ∈ items ↔
        ∃ file ∈ x.2.1.rows, file.content = .ok item) ∧
      (x.2.2 ≤ s.1.cursor.parseRevision → items = []) ∧
      ∃ r t, (exchangeItems b64 fileBackend).run s = (r, t) ∧
        ((∃ report, r = .ok report) ↔ Applicable b64 s.1.vault.db.getItem items) ∧
        ((∃ report, r = .ok report) → Pushed b64 h x t) := by
  obtain ⟨⟨items, cursor⟩, u, hpull, hall, hnone, hu⟩ := pull_succeeds s.1.cursor s hs
  have hvault : u.1 = s.1 := (onBackend_eq_ok hpull).2
  obtain ⟨r, w, happly, hw, hiff⟩ := applyItems_ok_iff b64 items 0 hu
  rw [hvault] at hiff
  refine ⟨items, hall, hnone, ?_⟩
  have hstart : (exchangeItems b64 fileBackend).run s =
      ((applyItems b64 0 items).run >>= fun applied => Program.run (do
        let rows ← listSyncEligibleItems
        let outgoing := rows.map (syncItemFromRow b64)
        let pushCursor ← onBackend (fileBackend.push outgoing)
        let next := laterCursor pushCursor cursor
        setCursor next
        pure ⟨UInt32.ofNat items.length, applied, UInt32.ofNat outgoing.length, next⟩)) u := by
    have hcursor : (getCursor : EngineM FileBackend SyncCursor).run s = (.ok s.1.cursor, s) := by
      rw [getCursor, Program.run_lift]
      rfl
    rw [exchangeItems, Program.run_bind, Action.bind_ok hcursor, Program.run_bind,
      Action.bind_ok hpull]
    change Program.run (applyItems b64 0 items >>= _) u = _
    rw [Program.run_bind]
  rw [hstart]
  cases r with
  | error e =>
    rw [Action.bind_error happly]
    refine ⟨.error e, w, rfl, by simpa using hiff, fun hok => ?_⟩
    obtain ⟨report, hreport⟩ := hok
    cases hreport
  | ok n =>
    rw [Action.bind_ok happly]
    have hrest : Action.Succeeds (Steady h x) (fun _ => Pushed b64 h x) (Program.run (do
        let rows ← listSyncEligibleItems
        let outgoing := rows.map (syncItemFromRow b64)
        let pushCursor ← onBackend (fileBackend.push outgoing)
        let next := laterCursor pushCursor cursor
        setCursor next
        pure ⟨UInt32.ofNat items.length, n, UInt32.ofNat outgoing.length, next⟩ :
          EngineM FileBackend SyncReport)) := by
      refine run_bind_succeeds listSyncEligibleItems_succeeds fun rows => ?_
      refine run_bind_succeeds (push_succeeds rows) fun pushCursor => ?_
      refine run_bind_succeeds (P := fun _ => Pushed b64 h x) (fun t ht => ?_) fun _ =>
        run_pure_succeeds fun _ ht => ht
      refine ⟨(), ({ t.1 with cursor := laterCursor pushCursor cursor }, t.2), ?_, ht⟩
      rw [setCursor, Program.run_lift]
      rfl
    obtain ⟨report, t, hrun, ht⟩ := hrest w hw
    rw [hrun]
    exact ⟨.ok report, t, rfl, ⟨fun _ => hiff.1 ⟨n, rfl⟩, fun _ => ⟨report, rfl⟩⟩, fun _ => ht⟩

variable (aead b64) in
/-- A sync of a steady state is its exchange, from the state its header phases leave. -/
theorem syncNow_steady {s : Engine × FileBackend} (hs : Steady h x s) :
    ∃ w, Steady h (published h x) w ∧ tracked w = tracked s ∧
      (syncNow aead b64 fileBackend).run s = (exchangeItems b64 fileBackend).run w := by
  obtain ⟨unlocked, r, hr, rfl, hr'⟩ := isUnlocked_succeeds s hs
  obtain ⟨_, u, hu, hu'⟩ := adoptRemoteRekey_succeeds aead r hr'
  obtain ⟨_, w, hw, hw'⟩ := publishHeader_succeeds u hu'
  have k₁ := leaves_headers (each_isUnlocked_header fileBackend) s
  have k₂ := leaves_headers (each_adoptRemoteRekey_header aead fileBackend) r
  have k₃ := leaves_headers (each_publishHeader_header fileBackend) u
  rw [hr] at k₁
  rw [hu] at k₂
  rw [hw] at k₃
  refine ⟨w, hw', k₃.trans (k₂.trans k₁), ?_⟩
  rw [syncNow, Program.run_bind, Action.bind_ok hr, if_pos rfl, syncNowInner, Program.run_bind,
    Action.bind_ok hu, Program.run_bind, Action.bind_ok hw]

theorem published_items (h : VaultHeader)
    (x : Option (Json SyncedVaultHeader) × Table ItemFile Uuid ItemFile.name × UInt64) :
    (published h x).2.1 = x.2.1 := by
  obtain ⟨header, items, revision⟩ := x
  cases header <;> rfl

theorem published_header {r : SyncedVaultHeader}
    (hx : ∀ r, x.1 = some (.ok r) → sameVault r (exportHeader h) = true)
    (hr : (published h x).1 = some (.ok r)) : sameVault r (exportHeader h) = true := by
  obtain ⟨header, items, revision⟩ := x
  cases header with
  | none =>
    cases hr
    exact sameVault_refl _
  | some header => exact hx r hr

variable (aead) in
theorem syncNow_succeeds :
    (syncNow aead b64 fileBackend).run.Succeeds (Calm b64 h) fun _ => Calm b64 h := by
  intro s hs
  obtain ⟨w, hw, -, hrun⟩ := syncNow_steady aead b64 hs.steady
  obtain ⟨items, hall, hnone, r, t, hexchange, hiff, hpushed⟩ := exchangeItems_ok_iff b64 hw
  have hdecodes : ∀ item, (∃ file ∈ (published h s.2.stored).2.1.rows, file.content = .ok item) →
      ∃ row, itemRowFromSync b64 item = .ok row := by
    intro item hitem
    rw [published_items] at hitem
    exact hs.decodes item hitem
  have hitems : ∀ item ∈ items, ∃ row, itemRowFromSync b64 item = .ok row := by
    intro item hitem
    by_cases hlt : w.1.cursor.parseRevision < (published h s.2.stored).2.2
    · exact hdecodes item ((hall hlt item).1 hitem)
    · rw [hnone (UInt64.not_lt.1 hlt)] at hitem
      cases hitem
  have hok := hiff.2 (applicable_of_decodes hitems _)
  obtain ⟨hready, hhealthy, hheader, hremote, hholds⟩ := hpushed hok
  obtain ⟨report, rfl⟩ := hok
  refine ⟨report, t, hrun.trans hexchange, hready, hhealthy, hheader, fun r hr => ?_, fun item hi => ?_⟩
  · rw [hremote] at hr
    exact published_header hs.remote hr
  · obtain hold | ⟨row, rfl⟩ := hholds item hi
    · exact hdecodes item hold
    · exact ⟨_, itemRowFromSync_syncItemFromRow b64 row⟩

end Engines
end Tethra.SyncLiveness
