import Tethra.SyncFleets
import Tethra.SyncLiveness

set_option autoImplicit false

/-!
# Convergence

Two rounds of syncs bring every device and the directory to the latest write of every
identifier that was never kept to a device, as long as the directory's revision has not
stopped at `u64::MAX`.
-/
namespace Tethra.SyncConvergence
open AtomicPrograms AuthenticatedEncryption Base64Strings KeyedTables ReplicatedRegisters
open StampedRegisters StatefulActions SyncEngine SyncFileBackend SyncFleets SyncItems SyncLiveness
open SyncRuns VaultCrypto VaultState VaultTypes

section Convergence
variable {D : Type} [DecidableEq D] {aead : Aead KeyBytes} {b64 : Base64} {x₀ : Fleet D}

/-- A row is `local_only` only if some write of it was. -/
theorem free_run (h₀ : Fresh x₀) {steps : List (Step D)} {id : Uuid}
    (h : Along aead b64 (Allowed aead b64) x₀ steps)
    (hid : ∀ w ∈ written steps, w.id = id → w.localOnly = false) :
    ∀ d w, row (run aead b64 x₀ steps) d id = some w → w.localOnly = false := by
  induction steps using List.reverseRecOn with
  | nil =>
    intro d w hw
    change (x₀.devices d).vault.db.getItem id = some w at hw
    rw [VaultDb.getItem, h₀.rows d] at hw
    cases hw
  | append_singleton steps step ih =>
    obtain ⟨hsteps, hstep, -⟩ := along_append.1 h
    have hfree := ih hsteps fun w hw => hid w (by
      rw [written_append]
      exact List.mem_append_left _ hw)
    have hsound := sound_run h₀ hsteps
    rw [run_append]
    intro d w hw
    change row (perform aead b64 (run aead b64 x₀ steps) step) d id = some w at hw
    cases step with
    | other e vault =>
      by_cases hde : d = e
      · subst hde
        rw [perform, row_setVault_self, hstep] at hw
        exact hfree d w hw
      · rw [perform, row_setVault_of_ne _ hde] at hw
        exact hfree d w hw
    | write e v vault =>
      by_cases hde : d = e
      · subst hde
        rw [perform, row_setVault_self, hstep.2, VaultDb.getItem_upsertItem] at hw
        by_cases hv : id = v.id
        · rw [if_pos hv] at hw
          cases hw
          exact hid w (by simp [written]) hv.symm
        · rw [if_neg hv] at hw
          exact hfree d w hw
      · rw [perform, row_setVault_of_ne _ hde] at hw
        exact hfree d w hw
    | sync e =>
      by_cases hde : d = e
      · subst hde
        have hspec := sync_spec hsound hstep
        refine (hspec.free id (hfree d)).1 w ?_
        rw [← hw, row, perform]
        simp
      · refine hfree d w ?_
        rw [← hw, row, row, perform]
        simp [hde]

theorem rejoinsLate_of_free (h₀ : Fresh x₀) {steps : List (Step D)} {id : Uuid}
    (h : Along aead b64 (Allowed aead b64) x₀ steps)
    (hid : ∀ w ∈ written steps, w.id = id → w.localOnly = false) :
    Along aead b64 (RejoinsLate id) x₀ steps := by
  induction steps using List.reverseRecOn with
  | nil => trivial
  | append_singleton steps step ih =>
    obtain ⟨hsteps, -⟩ := along_append.1 h
    have hid' : ∀ w ∈ written steps, w.id = id → w.localOnly = false := fun w hw => hid w (by
      rw [written_append]
      exact List.mem_append_left _ hw)
    refine along_append.2 ⟨ih hsteps hid', ?_, trivial⟩
    cases step with
    | other d vault => trivial
    | sync d => trivial
    | write d w vault =>
      rintro - - ⟨old, hold, hlocal⟩
      rw [free_run h₀ hsteps hid' d old hold] at hlocal
      cases hlocal

theorem devices_converge (h₀ : Fresh x₀) {steps : List (Step D)} {first second : List D}
    (hfirst : ∀ d, d ∈ first) (hsecond : ∀ d, d ∈ second)
    (h : Along aead b64 (Allowed aead b64) x₀ (steps ++ (first ++ second).map .sync))
    (hbelow : Along aead b64 (Below aead b64) x₀ (steps ++ (first ++ second).map .sync))
    (hdistinct : Distinct steps) {id : Uuid}
    (hid : ∀ w ∈ written steps, w.id = id → w.localOnly = false) :
    ∃ r, IsLatest rowStamp (fun w => w ∈ written steps ∧ w.id = id) r ∧
      (∀ d, row (run aead b64 x₀ (steps ++ (first ++ second).map .sync)) d id = r) ∧
      (run aead b64 x₀ (steps ++ (first ++ second).map .sync)).backend.item id =
        r.map (syncItemFromRow b64) := by
  have hsteps := (along_append.1 h).1
  obtain ⟨r, hlatest, hrows, hitem⟩ := agreed_run h₀ hfirst hsecond h hbelow
    (rejoinsLate_of_free h₀ hsteps hid) hdistinct (free_run h₀ hsteps hid)
  refine ⟨r, ⟨fun w hw => ?_, fun w hw => ?_⟩, hrows, hitem⟩
  · obtain ⟨hmem, hwid, -⟩ := hlatest.1 w hw
    exact ⟨hmem, hwid⟩
  · exact hlatest.2 w ⟨hw.1, hw.2, hid w hw.1 hw.2⟩

end Convergence

/-! ## Fleets in which nothing fails -/

section Quiet
variable {D : Type} [DecidableEq D] {aead : Aead KeyBytes} {b64 : Base64} {x : Fleet D}

def Quiet (b64 : Base64) (h : VaultHeader) (x : Fleet D) : Prop :=
  ∀ d, Calm b64 h (x.devices d, x.backend)

variable (aead) in
/-- Every sync succeeds and leaves the fleet as quiet. -/
theorem Quiet.sync {h : VaultHeader} (hx : Quiet b64 h x) (d : D) :
    Allowed aead b64 x (.sync d) ∧ Quiet b64 h (perform aead b64 x (.sync d)) := by
  obtain ⟨report, t, ht, hcalm⟩ := syncNow_succeeds aead _ (hx d)
  have hout : syncOutcome aead b64 x d = (.ok report, t) := ht
  refine ⟨⟨report, by rw [hout]⟩, fun e => ?_⟩
  rw [perform, hout]
  by_cases he : e = d
  · subst he
    simpa using hcalm
  · have hold := hx e
    simp only [Function.update_of_ne he]
    exact ⟨hold.ready, hcalm.healthy, hold.header, hcalm.remote, hcalm.decodes⟩

theorem Quiet.setVault {h : VaultHeader} (hx : Quiet b64 h x) {d : D} {vault : Vault}
    (hready : Ready vault) (hheader : vault.db.header = some h) :
    Quiet b64 h (SyncFleets.setVault x d vault) := by
  intro e
  by_cases he : e = d
  · subst he
    simpa [SyncFleets.setVault] using
      (hx e).vault hready (hheader.trans (hx e).header.symm)
  · simpa [SyncFleets.setVault, he] using hx e

theorem Quiet.syncs {h : VaultHeader} (hx : Quiet b64 h x) (ds : List D) :
    Along aead b64 (Allowed aead b64) x (ds.map .sync) ∧
      Quiet b64 h (run aead b64 x (ds.map .sync)) := by
  induction ds generalizing x with
  | nil => exact ⟨trivial, hx⟩
  | cons d ds ih =>
    obtain ⟨hok, hnext⟩ := hx.sync aead d
    obtain ⟨halong, hfinal⟩ := ih hnext
    exact ⟨⟨hok, halong⟩, hfinal⟩

end Quiet

section Samples

def sampleUuid (n : ℕ) : Uuid := ⟨List.replicate 16 (UInt8.ofNat n), by simp⟩

def sampleRow (id : Uuid) (version : ℕ) : ItemRow :=
  ⟨id, .host, UInt64.ofNat version, 0, false, false, ⟨[], []⟩⟩

def sampleHeader : VaultHeader := ⟨[], .default, ⟨[], []⟩, none, 0⟩

def sampleVault (rows : List ItemRow) : Vault where
  db := rows.foldl VaultDb.upsertItem ⟨some sampleHeader, Table.empty⟩
  recoverySecret := none
  state := .unlocked ⟨Block.fill 32 0⟩ (Block.fill 32 0) 0
  idleTimeout := IDLE_LOCK_DISABLED
  world := .quiet

def emptyDirectory : FileBackend := ⟨none, none, Table.empty, 0, fun _ => none, fun _ => .asStored⟩

def sampleFleet : Fleet Bool := ⟨fun _ => ⟨sampleVault [], .default⟩, emptyDirectory⟩

theorem sampleFleet_fresh : Fresh sampleFleet := ⟨fun _ => rfl, fun _ => rfl, rfl⟩

theorem sampleVault_ready (rows : List ItemRow) : Ready (sampleVault rows) :=
  ⟨fun _ => rfl, _, _, _, rfl, Or.inl rfl⟩

theorem header_foldl (rows : List ItemRow) (db : VaultDb) :
    (rows.foldl VaultDb.upsertItem db).header = db.header := by
  induction rows generalizing db with
  | nil => rfl
  | cons w rows ih => exact (ih _).trans (VaultDb.header_upsertItem db w)

theorem sampleVault_header (rows : List ItemRow) :
    (sampleVault rows).db.header = some sampleHeader := header_foldl rows _

theorem sampleFleet_quiet (b64 : Base64) : Quiet b64 sampleHeader sampleFleet := by
  refine fun _ => ⟨sampleVault_ready [], ⟨fun _ => rfl, fun e h => (by cases h),
    fun e h => (by cases h), fun id file h => (by cases h)⟩, rfl, fun r h => (by cases h), ?_⟩
  rintro x ⟨file, hfile, -⟩
  cases hfile

def sampleAead : Aead KeyBytes := recorded []

/-- Written at time `t` before the device has heard of any other. -/
def firstWrite (t : DateTime) : ItemRow := { sampleRow (sampleUuid 1) 1 with updatedAt := t }

def sampleSteps : List (Step Bool) :=
  [.write true (firstWrite 3) (sampleVault [firstWrite 3]), .sync true,
   .write false (firstWrite 5) (sampleVault [firstWrite 5])]

theorem sampleSteps_allowed :
    Along sampleAead standard (Allowed sampleAead standard) sampleFleet
      (sampleSteps ++ ([true, false] ++ [true, false]).map .sync) := by
  have hfleet := sampleFleet_quiet standard
  have hone : Quiet standard sampleHeader
      (setVault sampleFleet true (sampleVault [firstWrite 3])) :=
    hfleet.setVault (sampleVault_ready _) (sampleVault_header _)
  obtain ⟨hsync, htwo⟩ := hone.sync sampleAead true
  have hthree := htwo.setVault (d := false) (sampleVault_ready [firstWrite 5])
    (sampleVault_header _)
  exact along_append.2 ⟨⟨⟨rfl, fun _ => rfl⟩, hsync, ⟨rfl, fun _ => rfl⟩, trivial⟩,
    (hthree.syncs _).1⟩

theorem devices_converge_sample :
    (run sampleAead standard sampleFleet
      (sampleSteps ++ ([true, false] ++ [true, false]).map .sync)).backend.item (sampleUuid 1) =
        some (syncItemFromRow standard (firstWrite 5)) := by
  have hbelow : Along sampleAead standard (Below sampleAead standard) sampleFleet
      (sampleSteps ++ ([true, false] ++ [true, false]).map .sync) := by decide +kernel
  have hfree : ∀ w ∈ written sampleSteps, w.id = sampleUuid 1 → w.localOnly = false := by decide
  obtain ⟨r, hlatest, -, hitem⟩ := devices_converge sampleFleet_fresh (by decide) (by decide)
    sampleSteps_allowed hbelow (by unfold Distinct; decide) hfree
  have hlate := hlatest.2 (firstWrite 5) (by decide)
  rw [hitem]
  cases r with
  | none => cases hlate
  | some w =>
    have hmem : w = firstWrite 3 ∨ w = firstWrite 5 := by
      simpa [written, sampleSteps] using (hlatest.1 w rfl).1
    obtain rfl | rfl := hmem
    · exact absurd hlate (by decide)
    · rfl

/-! ## A directory at its last revision -/

/-- One device writes version after version of one row and syncs after each. -/
def fill : ℕ → List (Step Bool)
  | 0 => []
  | n + 1 => fill n ++ [.write true (sampleRow (sampleUuid 1) (n + 1))
      (sampleVault [sampleRow (sampleUuid 1) (n + 1)]), .sync true]

/-- The row of that device after `n` writes. -/
def filled (n : ℕ) (id : Uuid) : Option ItemRow :=
  if n = 0 then none
  else if id = sampleUuid 1 then some (sampleRow (sampleUuid 1) n) else none

theorem filled_of_ne (n : ℕ) {id : Uuid} (hid : id ≠ sampleUuid 1) : filled n id = none := by
  rw [filled, if_neg hid]
  split <;> rfl

theorem filled_free (n : ℕ) (id : Uuid) :
    ∀ w, filled n id = some w → w.localOnly = false := by
  intro w hw
  unfold filled at hw
  split at hw
  · cases hw
  · split at hw
    · cases hw
      rfl
    · cases hw

structure Filled (n : ℕ) (x : Fleet Bool) : Prop where
  quiet : Quiet standard sampleHeader x
  writer : ∀ id, row x true id = filled n id
  items : ∀ id, x.backend.item id = (filled n id).map (syncItemFromRow standard)
  reader : ∀ id, row x false id = none
  revision : n ≤ x.backend.revision.toNat

theorem getItem_sampleVault (w : ItemRow) (id : Uuid) :
    (sampleVault [w]).db.getItem id = if id = w.id then some w else none :=
  VaultDb.getItem_upsertItem _ w id

theorem toNat_sampleRow {n : ℕ} (hn : n < 2 ^ 64) (id : Uuid) :
    (sampleRow id n).version.toNat = n := UInt64.toNat_ofNat_of_lt hn

theorem versionOf_filled {n : ℕ} (hn : n < 2 ^ 64) :
    versionOf (filled n (sampleUuid 1)) = n := by
  unfold filled
  split
  · rename_i h
    exact h.symm
  · rw [if_pos rfl]
    exact toNat_sampleRow hn _

theorem rank_filled_lt {n : ℕ} (hn : n + 1 < 2 ^ 64) :
    rank SyncItem.stamp ((filled n (sampleUuid 1)).map (syncItemFromRow standard)) <
      (rowStamp (sampleRow (sampleUuid 1) (n + 1)) : WithBot Stamp) := by
  refine (rank_syncItemFromRow standard _).trans_lt (rowStamp_lt ?_)
  rw [toNat_sampleRow hn, versionOf_filled (by omega)]

/-- One more write and sync. -/
theorem Filled.next {n : ℕ} {x : Fleet Bool} (hx : Filled n x) (hsound : Sound standard x)
    (hn : n + 1 < 2 ^ 64) :
    Along sampleAead standard (Allowed sampleAead standard) x
        [.write true (sampleRow (sampleUuid 1) (n + 1))
          (sampleVault [sampleRow (sampleUuid 1) (n + 1)]), .sync true] ∧
      Filled (n + 1) (run sampleAead standard x
        [.write true (sampleRow (sampleUuid 1) (n + 1))
          (sampleVault [sampleRow (sampleUuid 1) (n + 1)]), .sync true]) := by
  set w := sampleRow (sampleUuid 1) (n + 1) with hw
  set y := setVault x true (sampleVault [w]) with hy
  have hquiet : Quiet standard sampleHeader y :=
    hx.quiet.setVault (sampleVault_ready _) (sampleVault_header _)
  obtain ⟨hsync, hafter⟩ := hquiet.sync sampleAead true
  have hrow : ∀ id, row y true id = filled (n + 1) id := by
    intro id
    rw [hy, row_setVault_self, getItem_sampleVault, filled, if_neg (Nat.succ_ne_zero n)]
    rfl
  have hwrite : Allowed sampleAead standard x (.write true w (sampleVault [w])) := by
    refine ⟨?_, fun id => ?_⟩
    · rw [hx.writer, show w.id = sampleUuid 1 from rfl, versionOf_filled (by omega), hw,
        toNat_sampleRow hn]
    · rw [getItem_sampleVault, VaultDb.getItem_upsertItem]
      by_cases hid : id = w.id
      · rw [if_pos hid, if_pos hid]
      · rw [if_neg hid, if_neg hid]
        exact ((hx.writer id).trans (filled_of_ne n hid)).symm
  refine ⟨⟨hwrite, hsync, trivial⟩, ?_⟩
  change Filled (n + 1) (perform sampleAead standard y (.sync true))
  have hspec := sync_spec (hsound.setVault (d := true) (sampleVault [w])) hsync
  have hahead : ∀ id, rank SyncItem.stamp (y.backend.item id) ≤
      rank SyncItem.stamp ((row y true id).map (syncItemFromRow standard)) := by
    intro id
    rw [hrow id]
    change rank _ (x.backend.item id) ≤ _
    rw [hx.items id]
    by_cases hid : id = sampleUuid 1
    · subst hid
      have hlt := rank_filled_lt hn
      rw [filled, filled, if_neg (Nat.succ_ne_zero n), if_pos rfl, if_pos rfl] at *
      exact hlt.le
    · rw [filled_of_ne n hid]
      exact bot_le
  have hfree : ∀ id w, row y true id = some w → w.localOnly = false := by
    intro id v hv
    rw [hrow id] at hv
    exact filled_free (n + 1) id v hv
  have hitem : ∀ id, (perform sampleAead standard y (.sync true)).backend.item id =
      (filled (n + 1) id).map (syncItemFromRow standard) := by
    intro id
    refine (hspec.ahead (hfree id) (hahead id)).2.trans ?_
    change ((row y true id).map _).elim (x.backend.item id) (offer _ (x.backend.item id)) = _
    rw [hrow id, hx.items id]
    by_cases hid : id = sampleUuid 1
    · subst hid
      rw [filled, if_neg (Nat.succ_ne_zero n), if_pos rfl]
      exact offer_of_lt (rank_filled_lt hn)
    · rw [filled_of_ne n hid, filled_of_ne (n + 1) hid]
      rfl
  refine ⟨hafter, fun id => ?_, hitem, fun id => ?_, ?_⟩
  · rw [← hrow id]
    refine Eq.trans ?_ (hspec.ahead (hfree id) (hahead id)).1
    simp [row, perform, hy]
  · rw [← hx.reader id]
    simp [row, perform, hy, setVault]
  · have hchanged : ¬ ∀ id, (perform sampleAead standard y (.sync true)).backend.item id =
        y.backend.item id := by
      intro hsame
      have hlt := rank_filled_lt hn
      have hnew := (hitem (sampleUuid 1)).symm.trans (hsame (sampleUuid 1))
      change _ = x.backend.item (sampleUuid 1) at hnew
      rw [hx.items, filled, if_neg (Nat.succ_ne_zero n), if_pos rfl] at hnew
      rw [← hnew] at hlt
      exact absurd hlt (lt_irrefl _)
    obtain hsame | ⟨r, hr, hbump⟩ := hspec.bumped
    · exact absurd hsame hchanged
    · change n + 1 ≤ (syncOutcome sampleAead standard y true).2.2.revision.toNat
      rw [hbump, FileBackend.toNat_saturatingSucc]
      have hle : x.backend.revision.toNat ≤ r.toNat := UInt64.le_iff_toNat_le.1 hr
      have hrev := hx.revision
      omega

theorem filled_fill {n : ℕ} (hn : n < 2 ^ 64) :
    Along sampleAead standard (Allowed sampleAead standard) sampleFleet (fill n) ∧
      Filled n (run sampleAead standard sampleFleet (fill n)) := by
  induction n with
  | zero =>
    exact ⟨trivial, sampleFleet_quiet standard, fun _ => rfl, fun _ => rfl, fun _ => rfl,
      Nat.zero_le _⟩
  | succ n ih =>
    obtain ⟨hallowed, hfilled⟩ := ih (by omega)
    obtain ⟨hmore, hnext⟩ := hfilled.next (sound_run sampleFleet_fresh hallowed) hn
    rw [fill, run_append]
    exact ⟨along_append.2 ⟨hallowed, hmore⟩, hnext⟩

/-- A reader at the last revision that lacks a row: no sync brings it. -/
structure Stuck (id : Uuid) (x : Fleet Bool) : Prop where
  quiet : Quiet standard sampleHeader x
  sound : Sound standard x
  row : SyncFleets.row x false id = none
  cursor : 2 ^ 64 - 1 ≤ (x.devices false).cursor.parseRevision.toNat
  revision : 2 ^ 64 - 1 ≤ x.backend.revision.toNat

theorem Stuck.sync {id : Uuid} {x : Fleet Bool} (hx : Stuck id x) (d : Bool) :
    Stuck id (perform sampleAead standard x (.sync d)) := by
  obtain ⟨hallowed, hquiet⟩ := hx.quiet.sync sampleAead d
  have hspec := sync_spec hx.sound hallowed
  have hrev : 2 ^ 64 - 1 ≤ (perform sampleAead standard x (.sync d)).backend.revision.toNat :=
    hx.revision.trans (UInt64.le_iff_toNat_le.1 hspec.revision)
  refine ⟨hquiet, hx.sound.perform hallowed, ?_, ?_, hrev⟩
  · cases d with
    | true => simpa [SyncFleets.row, perform] using hx.row
    | false =>
      have hfree : ∀ w, (x.devices false).vault.db.getItem id = some w → w.localOnly = false := by
        intro w hw
        rw [show (x.devices false).vault.db.getItem id = none from hx.row] at hw
        cases hw
      obtain ⟨-, pulled, sent, -, -, hnone, hmap, -, -⟩ := hspec.free id hfree
      have hpulled : pulled = [] := by
        refine hnone (UInt64.le_iff_toNat_le.2 ?_)
        have hlt := (syncOutcome sampleAead standard x false).2.2.revision.toNat_lt
        exact (Nat.le_sub_one_of_lt hlt).trans hx.cursor
      rw [hpulled, show (x.devices false).vault.db.getItem id = none from hx.row] at hmap
      simpa [SyncFleets.row, perform] using Option.map_eq_none_iff.1 hmap
  · cases d with
    | true => simpa [perform] using hx.cursor
    | false =>
      refine hrev.trans (le_of_eq ?_)
      simp only [perform, Function.update_self]
      rw [hspec.cursor]

theorem Stuck.syncs {id : Uuid} {x : Fleet Bool} (hx : Stuck id x) (ds : List Bool) :
    Stuck id (run sampleAead standard x (ds.map .sync)) := by
  induction ds generalizing x with
  | nil => exact hx
  | cons d ds ih => exact ih (hx.sync d)

theorem written_fill (n : ℕ) :
    written (fill n) = (List.range n).map fun k => sampleRow (sampleUuid 1) (k + 1) := by
  induction n with
  | zero => rfl
  | succ n ih =>
    rw [fill, written_append, ih, List.range_succ, List.map_append]
    rfl

/-- The writer's last row is of another identifier. -/
def saturatedSteps (n : ℕ) : List (Step Bool) :=
  fill n ++ [.sync false, .write true (sampleRow (sampleUuid 2) 1)
    (sampleVault [sampleRow (sampleUuid 1) n, sampleRow (sampleUuid 2) 1])]

theorem saturatedSteps_distinct {n : ℕ} (hn : n < 2 ^ 64) : Distinct (saturatedSteps n) := by
  have hwritten : written (saturatedSteps n) =
      ((List.range n).map fun k => sampleRow (sampleUuid 1) (k + 1)) ++
        [sampleRow (sampleUuid 2) 1] := by
    rw [saturatedSteps, written_append, written_fill]
    rfl
  rw [Distinct, hwritten, List.map_append]
  refine List.Nodup.append ?_ (List.nodup_singleton _) ?_
  · rw [List.map_map]
    refine List.Nodup.map_on (fun a ha b hb hab => ?_) List.nodup_range
    have hversion : (sampleRow (sampleUuid 1) (a + 1)).version.toNat =
        (sampleRow (sampleUuid 1) (b + 1)).version.toNat :=
      congrArg (fun p : Uuid × Stamp => (ofLex p.2).1) hab
    rw [toNat_sampleRow, toNat_sampleRow] at hversion
    · omega
    · have := List.mem_range.1 hb
      omega
    · have := List.mem_range.1 ha
      omega
  · intro p hp hq
    obtain ⟨w, hw, rfl⟩ := List.mem_map.1 hp
    obtain ⟨k, -, rfl⟩ := List.mem_map.1 hw
    have hid : sampleUuid 1 = sampleUuid 2 := congrArg Prod.fst (List.mem_singleton.1 hq)
    exact absurd hid (by decide)

/-- The reader syncs at the last revision, then the writer adds a row. -/
theorem Filled.saturate {n : ℕ} {x : Fleet Bool} (hx : Filled n x) (hsound : Sound standard x)
    (hn : n = 2 ^ 64 - 1) :
    Along sampleAead standard (Allowed sampleAead standard) x
        [.sync false, .write true (sampleRow (sampleUuid 2) 1)
          (sampleVault [sampleRow (sampleUuid 1) n, sampleRow (sampleUuid 2) 1])] ∧
      Stuck (sampleUuid 2) (run sampleAead standard x
        [.sync false, .write true (sampleRow (sampleUuid 2) 1)
          (sampleVault [sampleRow (sampleUuid 1) n, sampleRow (sampleUuid 2) 1])]) := by
  obtain ⟨hsync, hquiet⟩ := hx.quiet.sync sampleAead false
  have hspec := sync_spec hsound hsync
  set y := perform sampleAead standard x (.sync false) with hy
  have hwriter : ∀ id, row y true id = filled n id := by
    intro id
    rw [← hx.writer id]
    simp [row, perform, hy]
  have hreader : row y false (sampleUuid 2) = none := by
    have hnone : (x.devices false).vault.db.getItem (sampleUuid 2) = none := hx.reader _
    obtain ⟨-, pulled, sent, hin, -, -, hmap, -, -⟩ := hspec.free (sampleUuid 2) (by
      intro w hw
      rw [hnone] at hw
      cases hw)
    have hpulled : pulled = [] := by
      rw [List.eq_nil_iff_forall_not_mem]
      intro item hitem
      have hheld := hin item hitem
      change x.backend.item (sampleUuid 2) = some item at hheld
      rw [hx.items, filled_of_ne n (by decide)] at hheld
      cases hheld
    rw [hpulled, hnone] at hmap
    simpa [row, perform, hy] using Option.map_eq_none_iff.1 hmap
  have hrev : 2 ^ 64 - 1 ≤ y.backend.revision.toNat :=
    (hn ▸ hx.revision).trans (UInt64.le_iff_toNat_le.1 hspec.revision)
  have hcursor : 2 ^ 64 - 1 ≤ (y.devices false).cursor.parseRevision.toNat := by
    refine hrev.trans (le_of_eq ?_)
    simp only [hy, perform, Function.update_self]
    rw [hspec.cursor]
  have hwrite : Allowed sampleAead standard y (.write true (sampleRow (sampleUuid 2) 1)
      (sampleVault [sampleRow (sampleUuid 1) n, sampleRow (sampleUuid 2) 1])) := by
    refine ⟨?_, fun id => ?_⟩
    · rw [hwriter, show (sampleRow (sampleUuid 2) 1).id = sampleUuid 2 from rfl,
        filled_of_ne n (by decide)]
      rfl
    · have hvault : (sampleVault [sampleRow (sampleUuid 1) n, sampleRow (sampleUuid 2) 1]).db =
          (sampleVault [sampleRow (sampleUuid 1) n]).db.upsertItem (sampleRow (sampleUuid 2) 1) := rfl
      have hold : (sampleVault [sampleRow (sampleUuid 1) n]).db.getItem id =
          (y.devices true).vault.db.getItem id := by
        refine Eq.trans ?_ (hwriter id).symm
        have hpos : n ≠ 0 := by omega
        rw [getItem_sampleVault, filled, if_neg (c := n = 0) hpos]
        rfl
      rw [hvault, VaultDb.getItem_upsertItem, VaultDb.getItem_upsertItem, hold]
  refine ⟨⟨hsync, hwrite, trivial⟩, ?_⟩
  refine ⟨hquiet.setVault (sampleVault_ready _) (sampleVault_header _),
    (hsound.perform hsync).setVault (d := true) _, ?_, ?_, hrev⟩
  · exact (row_setVault_of_ne y (by decide) _ _).trans hreader
  · change _ ≤ ((setVault y true _).devices false).cursor.parseRevision.toNat
    rwa [cursor_setVault]

/-- After `u64::MAX` pushes the revision stands still and cursors hide what is pushed next. -/
theorem devices_diverge_saturated :
    ¬ ∀ (x₀ : Fleet Bool) (steps : List (Step Bool)) (first second : List Bool) (id : Uuid),
      Fresh x₀ → x₀.backend.manifest = none → (∀ d, d ∈ first) → (∀ d, d ∈ second) →
      Along sampleAead standard (Allowed sampleAead standard) x₀
        (steps ++ (first ++ second).map .sync) →
      Distinct steps → (∀ w ∈ written steps, w.id = id → w.localOnly = false) →
      ∃ r, IsLatest rowStamp (fun w => w ∈ written steps ∧ w.id = id) r ∧
        (∀ d, row (run sampleAead standard x₀ (steps ++ (first ++ second).map .sync)) d id = r) ∧
        (run sampleAead standard x₀ (steps ++ (first ++ second).map .sync)).backend.item id =
          r.map (syncItemFromRow standard) := by
  intro h
  obtain ⟨n, hn⟩ : ∃ n : ℕ, n = 2 ^ 64 - 1 := ⟨_, rfl⟩
  obtain ⟨hfill, hfilled⟩ := filled_fill (n := n) (by omega)
  obtain ⟨hlast, hstuck⟩ := hfilled.saturate (sound_run sampleFleet_fresh hfill) hn
  have hallowed : Along sampleAead standard (Allowed sampleAead standard) sampleFleet
      (saturatedSteps n ++ ([true, false] ++ [true, false]).map .sync) := by
    refine along_append.2 ⟨along_append.2 ⟨hfill, hlast⟩, ?_⟩
    rw [saturatedSteps, run_append]
    exact (hstuck.quiet.syncs _).1
  have hlocal : ∀ w ∈ written (saturatedSteps n), w.id = sampleUuid 2 → w.localOnly = false := by
    intro w hw _
    rw [saturatedSteps, written_append, written_fill] at hw
    obtain hw | hw := List.mem_append.1 hw
    · obtain ⟨k, -, rfl⟩ := List.mem_map.1 hw
      rfl
    · obtain rfl : w = sampleRow (sampleUuid 2) 1 := by simpa [written] using hw
      rfl
  obtain ⟨r, hlatest, hrows, -⟩ := h sampleFleet (saturatedSteps n) [true, false] [true, false]
    (sampleUuid 2) sampleFleet_fresh rfl (by decide) (by decide) hallowed
    (saturatedSteps_distinct (by omega)) hlocal
  have hnone : r = none := by
    rw [← hrows false, run_append, saturatedSteps, run_append]
    exact (hstuck.syncs _).row
  have hlast : (rowStamp (sampleRow (sampleUuid 2) 1) : WithBot Stamp) ≤ rank rowStamp r := by
    refine hlatest.2 _ ⟨?_, rfl⟩
    rw [saturatedSteps, written_append]
    exact List.mem_append_right _ (by simp [written])
  rw [hnone] at hlast
  cases hlast

end Samples
end Tethra.SyncConvergence
