import Tethra.RepositoryActions

set_option autoImplicit false

/-!
# What the parts of an operation return when they succeed

The vault holds one key. A part that only reads leaves the rows and the supplies; a put leaves
its row in place of the one that was there.
-/
namespace Tethra.RepositoryRuns
open AtomicPrograms AuthenticatedEncryption JsonValues RepositoryActions RepositoryRequests
open RepositoryUpdates RowUpdates SecretLinks StatefulActions VaultCrypto VaultRecords
open VaultRepository VaultState VaultTypes
open RunningSessions (Same ends_get ends_put same_of_idles requireKey_ok)
open AtomicPrograms.Program (lift fail run_bind_eq_ok run_lift)
open StatefulActions.Action (read ofExcept)

variable {x : Externals} {key : VaultKey} {α β : Type} {v t u : Vault}

/-! ## Supplies -/

/-- The identifiers to come are the same, but for those that have been drawn. -/
structure Draws (v t : Vault) : Prop where
  supply : t.world.uuidAt = v.world.uuidAt
  draws : v.world.draws ≤ t.world.draws

theorem Draws.refl (v : Vault) : Draws v v := ⟨rfl, le_refl _⟩

theorem Draws.trans (h : Draws v t) (h' : Draws t u) : Draws v u :=
  ⟨h'.supply.trans h.supply, h.draws.trans h'.draws⟩

theorem draws_of_leaves {m : VaultM α} (hm : m.Leaves Vault.world) : m.Within Draws := fun v =>
  ⟨congrArg World.uuidAt (hm v), (congrArg World.draws (hm v)).ge⟩

theorem draws_draw (supply : World → ℕ → α) : (draw supply).Within Draws :=
  fun _ => ⟨rfl, Nat.le_succ _⟩

theorem acting_draws : Acting fun m => m.Within Draws where
  requireKey := draws_of_leaves (leaves_requireKey fun _ _ => rfl)
  withDb f := by
    refine Action.Within.bind (R := Draws) Draws.trans (draws_draw _) fun fault => ?_
    cases fault with
    | some e => exact Draws.refl
    | none =>
      refine Action.Within.bind (R := Draws) Draws.trans Draws.refl fun db => ?_
      exact fun v => Draws.refl v
  ofExcept r := Draws.refl
  fail e := Draws.refl
  attempt hm := hm
  draw := draws_draw
  read f := Draws.refl
  withDbMut g := by
    intro v
    obtain ⟨e, h⟩ | h := withDbMut_cases g v
    · rw [h]
      exact ⟨rfl, Nat.le_succ _⟩
    · rw [h]
      exact ⟨rfl, Nat.le_succ _⟩
  mapError hm := hm

theorem draws_operation (op : Operation) : ((op.program x).run).Within Draws :=
  (acting_draws.operation op).within Draws.refl Draws.trans

/-- No identifier has been drawn twice. -/
def DistinctDraws (v : Vault) : Prop :=
  ∀ m n, m < n → n < v.world.draws → v.world.uuidAt m ≠ v.world.uuidAt n

theorem DistinctDraws.mono (h : DistinctDraws t) (hd : Draws v t) : DistinctDraws v := by
  intro m n hmn hn
  rw [← hd.supply]
  exact h m n hmn (hn.trans_le hd.draws)

/-- A quiet world whose identifiers end in their number. -/
def numbered : World :=
  { World.quiet with uuidAt := fun n => .lastByte (UInt8.ofNat n) }

theorem distinctDraws_numbered (hsupply : v.world.uuidAt = numbered.uuidAt)
    (hdraws : v.world.draws ≤ 256) : DistinctDraws v := by
  intro m n hmn hn heq
  rw [hsupply] at heq
  have hbytes : List.replicate 15 0 ++ [UInt8.ofNat m] = List.replicate 15 0 ++ [UInt8.ofNat n] :=
    congrArg (fun id : Uuid => id.asBytes.1) heq
  have hlast := congrArg UInt8.toNat
    (List.singleton_inj.1 ((List.append_right_inj _).1 hbytes))
  rw [UInt8.toNat_ofNat', UInt8.toNat_ofNat'] at hlast
  omega

/-! ## Reading -/

structure Calm (key : VaultKey) (v t : Vault) : Prop extends Same key v t, Draws v t

theorem Calm.trans (h : Calm key v t) (h' : Calm key t u) : Calm key v u :=
  ⟨h.toSame.trans h'.toSame, h.toDraws.trans h'.toDraws⟩

theorem Calm.refl (hv : Keyed key v) : Calm key v v := ⟨⟨fun _ => rfl, hv⟩, Draws.refl v⟩

/-- An action that leaves the rows and the supplies. -/
def Calms (key : VaultKey) {α : Type} (m : VaultM α) : Prop :=
  Idles rows (Keyed key) m ∧ m.Within Draws

theorem reading_calms : Reading fun m => Calms key m where
  requireKey := ⟨reading_idles.requireKey, acting_draws.requireKey⟩
  withDb f := ⟨reading_idles.withDb f, acting_draws.withDb f⟩
  ofExcept r := ⟨reading_idles.ofExcept r, acting_draws.ofExcept r⟩
  fail e := ⟨reading_idles.fail e, acting_draws.fail e⟩
  attempt hm := ⟨reading_idles.attempt hm.1, acting_draws.attempt hm.2⟩

theorem calms_draw (supply : World → ℕ → α) : Calms key (draw supply) :=
  ⟨idles_draw supply, draws_draw supply⟩

theorem calms_read (f : Vault → α) : Calms key (read f : VaultM α) :=
  ⟨idles_read f, acting_draws.read f⟩

theorem calm_of_calms {m : VaultM α} (hm : Calms key m) (hv : Keyed key v) :
    Calm key v (m v).2 := ⟨same_of_idles hm.1 hv, hm.2 v⟩

theorem calm_of_each {p : RepositoryM α} (hp : p.Each fun m => Calms key m) (hv : Keyed key v)
    {r : Except Error α} (h : p.run v = (r, t)) : Calm key v t := by
  have hwithin := Program.Each.within
    (R := fun s t : Vault => Keyed key s → Calm key s t) (fun s hs => Calm.refl hs)
    (fun h h' hs => (h hs).trans (h' (h hs).keyed))
    (hp.mono fun hm s hs => calm_of_calms hm hs) v hv
  rw [h] at hwithin
  exact hwithin

theorem calm_of_lift {m : VaultM α} (hm : Calms key m) (hv : Keyed key v)
    {r : Except Error α} (h : (lift m).run v = (r, t)) : Calm key v t :=
  calm_of_each (Program.Each.lift hm) hv h

theorem key_ok (hv : Keyed key v) {vaultKey : VaultKey}
    (h : (lift requireKey : RepositoryM VaultKey).run v = (.ok vaultKey, t)) :
    vaultKey = key ∧ Calm key v t := by
  refine ⟨?_, calm_of_lift reading_calms.requireKey hv h⟩
  rw [run_lift] at h
  exact (requireKey_ok hv h).1

theorem query_ok {f : VaultDb → Except Error α} {a : α} (hv : Keyed key v)
    (h : (lift (withDb f) : RepositoryM α).run v = (.ok a, t)) :
    f v.db = .ok a ∧ Calm key v t := by
  refine ⟨?_, calm_of_lift (reading_calms.withDb f) hv h⟩
  rw [run_lift] at h
  exact (withDb_eq_ok h).1

theorem computed_ok {r : Except Error α} {a : α}
    (h : (lift (ofExcept r) : RepositoryM α).run v = (.ok a, t)) : r = .ok a ∧ v = t := by
  rw [run_lift] at h
  exact Action.ofExcept_eq_ok.1 h

theorem run_computed {r : Except Error α} {a : α} (h : r = .ok a) (f : α → RepositoryM β) :
    (lift (ofExcept r) >>= f).run v = (f a).run v := by
  rw [Program.run_bind, run_lift, h]
  rfl

theorem failed_ok {e : Error} {a : α} (h : (fail e : RepositoryM α).run v = (.ok a, t)) :
    False := by
  rw [Program.run_fail] at h
  exact Action.fail_eq_ok.1 h

theorem pure_ok {a b : α} (h : (pure a : RepositoryM α).run v = (.ok b, t)) : a = b ∧ v = t :=
  Action.pure_eq_ok.1 h

/-- An identifier is the next of the supply. -/
theorem draw_ok {id : Uuid} (hv : Keyed key v)
    (h : (lift (draw World.uuidAt) : RepositoryM Uuid).run v = (.ok id, t)) :
    id = v.world.uuidAt v.world.draws ∧ v.world.draws < t.world.draws ∧ Calm key v t := by
  have hcalm := calm_of_lift (calms_draw World.uuidAt) hv h
  rw [run_lift] at h
  cases h
  exact ⟨rfl, Nat.lt_succ_self _, hcalm⟩

theorem get_ok {f : Format α} {id : Uuid} {a : α} {row : ItemRow} (hv : Keyed key v)
    (h : (getEncryptedJson x f id).run v = (.ok (a, row), t)) :
    v.db.getItem id = some row ∧ row.deleted = false ∧ Holds x key f row a ∧ Calm key v t := by
  have hends : (getEncryptedJson x f id).run.Ends _ v := ends_get hv
  rw [Action.Ends, h] at hends
  obtain ⟨hrow, hlive, hholds⟩ := hends.2 a row rfl
  exact ⟨hrow, hlive, hholds, calm_of_each (reading_calms.get f id) hv h⟩

theorem checkKind_ok {row : ItemRow} {kind : ItemKind} {message : String}
    (h : (checkKind row kind message).run v = (.ok (), t)) : row.kind = kind ∧ v = t := by
  unfold checkKind at h
  split at h
  · rename_i hkind
    exact ⟨hkind, (pure_ok h).2⟩
  · exact (failed_ok h).elim

/-! ## Writing -/

/-- The rows of `t` are those of `v` with `w` in place. -/
structure Put (key : VaultKey) (v t : Vault) (w : ItemRow) : Prop extends Draws v t where
  rows : ∀ id, t.db.getItem id = (v.db.upsertItem w).getItem id
  keyed : Keyed key t

theorem Put.getItem {w : ItemRow} (h : Put key v t w) (id : Uuid) :
    t.db.getItem id = if id = w.id then some w else v.db.getItem id := by
  rw [h.rows, VaultDb.getItem_upsertItem]

theorem Put.stored {w : ItemRow} (h : Put key v t w) : t.db.getItem w.id = some w :=
  (h.getItem w.id).trans (if_pos rfl)

/-- A put after reads. -/
theorem Put.after {w : ItemRow} (h : Put key t u w) (hcalm : Calm key v t) : Put key v u w where
  toDraws := hcalm.toDraws.trans h.toDraws
  rows id := by rw [h.getItem, VaultDb.getItem_upsertItem, hcalm.rows]
  keyed := h.keyed

theorem draws_run {p : RepositoryM α} (hp : p.Each fun m => m.Within Draws)
    {r : Except Error α} (h : p.run v = (r, t)) : Draws v t := by
  have hdraws := hp.within Draws.refl Draws.trans v
  rw [h] at hdraws
  exact hdraws

theorem put_ok (hc : x.aead.Correct) {f : Format α} {id : Uuid} {kind : ItemKind}
    {version : UInt64} {localOnly deleted : Bool} {value : α} (hv : Keyed key v)
    (h : (putEncryptedJson x f id kind version localOnly deleted value).run v = (.ok (), t)) :
    ∃ w, Stores x key f id kind version localOnly deleted value w ∧ Put key v t w := by
  have hends : (putEncryptedJson x f id kind version localOnly deleted value).run.Ends _ v :=
    ends_put hc hv
  rw [Action.Ends, h] at hends
  obtain ⟨w, hw, hrows⟩ := hends.2.2 rfl
  exact ⟨w, hw, draws_run (acting_draws.put f id kind version localOnly deleted value) h, hrows,
    hends.1⟩

theorem bind_cases {p : RepositoryM α} {f : α → RepositoryM β} {r : Except Error β}
    (h : (p >>= f).run v = (r, t)) :
    (∃ e, r = .error e ∧ p.run v = (.error e, t)) ∨
      ∃ a u, p.run v = (.ok a, u) ∧ (f a).run u = (r, t) := by
  cases r with
  | ok b => exact Or.inr (run_bind_eq_ok.1 h)
  | error e => exact (Program.run_bind_eq_error.1 h).imp_left fun hp => ⟨e, rfl, hp⟩

/-- A put that fails leaves the rows. -/
theorem put_cases (hc : x.aead.Correct) {f : Format α} {id : Uuid} {kind : ItemKind}
    {version : UInt64} {localOnly deleted : Bool} {value : α} {r : Except Error Unit}
    (hv : Keyed key v)
    (h : (putEncryptedJson x f id kind version localOnly deleted value).run v = (r, t)) :
    ((∃ e, r = .error e) ∧ Same key v t) ∨
      r = .ok () ∧ ∃ w, Stores x key f id kind version localOnly deleted value w ∧
        Put key v t w := by
  cases r with
  | ok a => exact Or.inr ⟨rfl, put_ok hc hv h⟩
  | error e =>
    have hends : (putEncryptedJson x f id kind version localOnly deleted value).run.Ends _ v :=
      ends_put hc hv
    rw [Action.Ends, h] at hends
    exact Or.inl ⟨⟨e, rfl⟩, hends.2.1 e rfl, hends.1⟩

theorem nextVersion_ok {id : Uuid} {version : UInt64} (hv : Keyed key v)
    (h : (nextVersion id).run v = (.ok version, t)) :
    (∀ row, v.db.getItem id = some row → version = row.version + 1) ∧ Calm key v t := by
  obtain ⟨found, v₁, hfound, h⟩ := run_bind_eq_ok.1 h
  obtain ⟨hget, hcalm⟩ := query_ok hv hfound
  rw [Except.ok.injEq] at hget
  subst hget
  cases hrow : v.db.getItem id with
  | none =>
    rw [hrow] at h
    obtain ⟨-, rfl⟩ := pure_ok h
    exact ⟨fun _ h => (by cases h), hcalm⟩
  | some row =>
    rw [hrow] at h
    obtain ⟨rfl, rfl⟩ := pure_ok h
    refine ⟨fun _ h => ?_, hcalm⟩
    cases h
    rfl

/-! ## The hosts of an identity -/

theorem summarizeHost_ok {host : Host} {s : HostSummary} (hv : Keyed key v)
    (h : (summarizeHost x host).run v = (.ok s, t)) :
    s.id = host.id ∧ s.identityId = host.identityId ∧ Calm key v t := by
  have hcalm := calm_of_each (reading_calms.summarizeHost host) hv h
  obtain ⟨identity, w, -, hs⟩ := run_bind_eq_ok.1 h
  obtain ⟨rfl, -⟩ := pure_ok hs
  exact ⟨rfl, rfl, hcalm⟩

/-- The summaries are of the records, row by row. -/
theorem listHostRows_ok {listed : List ItemRow} {summaries : List HostSummary} (hv : Keyed key v)
    (h : (listHostRows x key listed).run v = (.ok summaries, t)) (id identityId : Uuid) :
    (∃ s ∈ summaries, s.id = id ∧ s.identityId = some identityId) ↔
      ∃ row ∈ listed, ∃ r, Holds x key x.texts.host row r ∧ r.id = id ∧
        r.identityId = some identityId := by
  induction listed generalizing v t summaries with
  | nil =>
    obtain ⟨rfl, -⟩ := pure_ok h
    simp
  | cons row listed ih =>
    rw [listHostRows] at h
    obtain ⟨plaintext, v₁, hplain, h⟩ := run_bind_eq_ok.1 h
    obtain ⟨hopens, rfl⟩ := computed_ok hplain
    obtain ⟨record, v₂, hrecord, h⟩ := run_bind_eq_ok.1 h
    obtain ⟨hdecodes, rfl⟩ := computed_ok hrecord
    obtain ⟨s, v₃, hs, h⟩ := run_bind_eq_ok.1 h
    obtain ⟨hid, hidentity, hcalm⟩ := summarizeHost_ok hv hs
    obtain ⟨rest, v₄, hrest, h⟩ := run_bind_eq_ok.1 h
    obtain ⟨rfl, -⟩ := pure_ok h
    have hholds : Holds x key x.texts.host row record := ⟨plaintext, hopens, hdecodes⟩
    have hone : (∃ r, Holds x key x.texts.host row r ∧ r.id = id ∧
        r.identityId = some identityId) ↔ s.id = id ∧ s.identityId = some identityId := by
      rw [hid, hidentity]
      constructor
      · rintro ⟨r, hr, h⟩
        rwa [RunningSessions.Holds.unique hr hholds] at h
      · exact fun h => ⟨record, hholds, h⟩
    simp only [List.mem_cons, exists_eq_or_imp, hone, ih hcalm.keyed hrest]

/-- The row is a live host that refers to the identity. -/
structure Refers (x : Externals) (key : VaultKey) (identityId : Uuid) (row : ItemRow)
    (r : HostRecord) : Prop where
  kind : row.kind = .host
  live : row.deleted = false
  holds : Holds x key x.texts.host row r
  identity : r.identityId = some identityId

/-- Exactly the hosts that refer to the identity are found, under the ids of their records. -/
theorem hostsUsingIdentity_ok {identityId : Uuid} {hosts : List (Uuid × String)}
    (hv : Keyed key v) (h : (hostsUsingIdentity x identityId).run v = (.ok hosts, t)) :
    Calm key v t ∧ ∀ id, id ∈ hosts.map Prod.fst ↔
      ∃ row r, v.db.getItem row.id = some row ∧ Refers x key identityId row r ∧ r.id = id := by
  refine ⟨calm_of_each (reading_calms.hostsUsingIdentity identityId) hv h, fun id => ?_⟩
  obtain ⟨summaries, v₁, hlist, h⟩ := run_bind_eq_ok.1 h
  obtain ⟨rfl, -⟩ := pure_ok h
  obtain ⟨k, v₂, hk, hlist⟩ := run_bind_eq_ok.1 hlist
  obtain ⟨rfl, hcalm⟩ := key_ok hv hk
  obtain ⟨listed, v₃, hlisted, hlist⟩ := run_bind_eq_ok.1 hlist
  obtain ⟨hrows, hcalm'⟩ := query_ok hcalm.keyed hlisted
  have hall := listHostRows_ok hcalm'.keyed hlist
  have hmem : ∀ row, row ∈ listed ↔ v.db.getItem row.id = some row ∧ row.kind = .host ∧
      row.deleted = false := by
    intro row
    rw [← Except.ok.inj hrows, VaultDb.mem_listItems, hcalm.rows]
    simp
  have hiff := listHostRows_ok hcalm'.keyed hlist id identityId
  have hfound : id ∈ ((summaries.filter fun s => s.identityId = some identityId).map
      fun s => (s.id, s.label)).map Prod.fst ↔
        ∃ s ∈ summaries, s.id = id ∧ s.identityId = some identityId := by
    simp only [List.map_map, List.mem_map, List.mem_filter, Function.comp_apply,
      decide_eq_true_eq]
    constructor
    · rintro ⟨s, ⟨hs, hidentity⟩, hid⟩
      exact ⟨s, hs, hid, hidentity⟩
    · rintro ⟨s, hs, hid, hidentity⟩
      exact ⟨s, ⟨hs, hidentity⟩, hid⟩
  rw [hfound, hiff]
  constructor
  · rintro ⟨row, hrow, r, hholds, hid, hidentity⟩
    obtain ⟨hget, hkind, hlive⟩ := (hmem row).1 hrow
    exact ⟨row, r, hget, ⟨hkind, hlive, hholds, hidentity⟩, hid⟩
  · rintro ⟨row, r, hget, hrefers, hid⟩
    exact ⟨row, (hmem row).2 ⟨hget, hrefers.kind, hrefers.live⟩, r, hrefers.holds, hid,
      hrefers.identity⟩

end Tethra.RepositoryRuns
