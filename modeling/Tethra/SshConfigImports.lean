import Tethra.JsonTexts
import Tethra.RepositoryRuns

set_option autoImplicit false

/-!
# What an import of an SSH configuration writes

The selected aliases and the jump hosts behind them, each to the host of that label that was
updated last, or to a new one, in one transaction.
-/
namespace Tethra.SshConfigImports
open AtomicPrograms AuthenticatedEncryption JsonValues RepositoryActions RepositoryRequests
open RepositoryRuns RepositoryUpdates SecretLinks StatefulActions VaultCrypto VaultRecords
open VaultRepository VaultState VaultTypes
open AtomicPrograms.Program (lift fail run_bind_eq_ok)
open RunningSessions (Same)
open StatefulActions.Action (read ofExcept)

/-! ## The aliases -/

section Order
variable (parsed : List SshConfigHost)

/-- Selected, or the first hop of one that is reachable, inside the configuration. -/
inductive Reachable (selected : List String) : String → Prop
  | selected {hostAlias : String} : hostAlias ∈ selected → Reachable selected hostAlias
  | jump {hostAlias jump : String} {host : SshConfigHost} : Reachable selected hostAlias →
      byAlias parsed hostAlias = some host → jump ∈ jumpOf parsed host → Reachable selected jump

theorem byAlias_some {parsed : List SshConfigHost} {hostAlias : String} {host : SshConfigHost}
    (h : byAlias parsed hostAlias = some host) : host.hostAlias = hostAlias := by
  simpa using List.find?_some h

/-- The loop has its queue, and every jump host of what it has put in order, still to see. -/
structure Explored (selected queue seen order : List String) : Prop where
  seen : ∀ a, a ∈ seen ↔ a ∈ order
  nodup : order.Nodup
  reachable : ∀ a, a ∈ order ∨ a ∈ queue → Reachable parsed selected a
  known : ∀ a ∈ order, ∃ host, byAlias parsed a = some host
  closed : ∀ a ∈ order, ∀ host, byAlias parsed a = some host →
    ∀ jump ∈ jumpOf parsed host, jump ∈ order ∨ jump ∈ queue
  selected : ∀ a ∈ selected, a ∈ order ∨ a ∈ queue

variable {parsed}

theorem Explored.skip {selected queue seen order : List String} {a : String}
    (h : Explored parsed selected (a :: queue) seen order) (ha : a ∈ seen) :
    Explored parsed selected queue seen order where
  seen := h.seen
  nodup := h.nodup
  reachable b hb := h.reachable b (hb.imp_right (List.mem_cons_of_mem _))
  known := h.known
  closed b hb host hhost jump hjump := by
    obtain hold | hnew := h.closed b hb host hhost jump hjump
    · exact Or.inl hold
    · obtain rfl | hnew := List.mem_cons.1 hnew
      · exact Or.inl ((h.seen _).1 ha)
      · exact Or.inr hnew
  selected b hb := by
    obtain hold | hnew := h.selected b hb
    · exact Or.inl hold
    · obtain rfl | hnew := List.mem_cons.1 hnew
      · exact Or.inl ((h.seen _).1 ha)
      · exact Or.inr hnew

theorem Explored.visit {selected queue seen order : List String} {a : String}
    {host : SshConfigHost} (h : Explored parsed selected (a :: queue) seen order)
    (hhost : byAlias parsed a = some host) (ha : a ∉ seen) :
    Explored parsed selected (queue ++ jumpOf parsed host) (a :: seen)
      (order ++ [a]) where
  seen b := by
    rw [List.mem_cons, List.mem_append, List.mem_singleton, h.seen, or_comm]
  nodup := by
    rw [List.nodup_append]
    refine ⟨h.nodup, List.nodup_singleton a, fun b hb c hc => ?_⟩
    rw [List.mem_singleton.1 hc]
    rintro rfl
    exact ha ((h.seen b).2 hb)
  reachable b hb := by
    have hself : Reachable parsed selected a := h.reachable a (Or.inr List.mem_cons_self)
    rw [List.mem_append, List.mem_append, List.mem_singleton] at hb
    obtain (hb | rfl) | hb | hb := hb
    · exact h.reachable b (Or.inl hb)
    · exact hself
    · exact h.reachable b (Or.inr (List.mem_cons_of_mem _ hb))
    · exact hself.jump hhost hb
  known b hb := by
    rw [List.mem_append, List.mem_singleton] at hb
    obtain hb | rfl := hb
    · exact h.known b hb
    · exact ⟨host, hhost⟩
  closed b hb other hother jump hjump := by
    rw [List.mem_append, List.mem_singleton] at hb
    rw [List.mem_append, List.mem_append, List.mem_singleton]
    obtain hb | rfl := hb
    · obtain hold | hnew := h.closed b hb other hother jump hjump
      · exact Or.inl (Or.inl hold)
      · obtain rfl | hnew := List.mem_cons.1 hnew
        · exact Or.inl (Or.inr rfl)
        · exact Or.inr (Or.inl hnew)
    · rw [hhost, Option.some.injEq] at hother
      exact Or.inr (Or.inr (hother ▸ hjump))
  selected b hb := by
    rw [List.mem_append, List.mem_append, List.mem_singleton]
    obtain hold | hnew := h.selected b hb
    · exact Or.inl (Or.inl hold)
    · obtain rfl | hnew := List.mem_cons.1 hnew
      · exact Or.inl (Or.inr rfl)
      · exact Or.inr (Or.inl hnew)

theorem importLoop_ok {selected queue seen order result : List String}
    (h : importLoop parsed queue seen order = .ok result)
    (hinv : Explored parsed selected queue seen order) :
    Explored parsed selected [] result result := by
  induction queue, seen, order using importLoop.induct parsed with
  | case1 seen order =>
    rw [importLoop] at h
    cases h
    exact ⟨fun _ => Iff.rfl, hinv.nodup, hinv.reachable, hinv.known, hinv.closed, hinv.selected⟩
  | case2 seen order a queue hnone =>
    rw [importLoop] at h
    split at h
    · cases h
    · rename_i hsome
      cases hnone.symm.trans hsome
  | case3 seen order a queue host hhost hseen ih =>
    rw [importLoop] at h
    split at h
    · cases h
    · rw [dif_pos hseen] at h
      exact ih h (hinv.skip hseen)
  | case4 seen order a queue host hhost hseen ih =>
    rw [importLoop] at h
    split at h
    · cases h
    · rename_i host' hhost'
      cases hhost.symm.trans hhost'
      rw [dif_neg hseen] at h
      exact ih h (hinv.visit hhost hseen)

/-- Each reachable alias once. -/
theorem importOrder_ok {selected order : List String}
    (h : importOrder parsed selected = .ok order) :
    order.Nodup ∧ (∀ a, a ∈ order ↔ Reachable parsed selected a) ∧
      ∀ a ∈ order, ∃ host, byAlias parsed a = some host := by
  have hstart : Explored parsed selected selected [] [] :=
    ⟨fun _ => Iff.rfl, List.nodup_nil, fun a ha => .selected (by simpa using ha), by simp, by simp,
      fun _ ha => Or.inr ha⟩
  have hend := importLoop_ok h hstart
  refine ⟨hend.nodup, fun a => ⟨fun ha => hend.reachable a (Or.inl ha), fun ha => ?_⟩, hend.known⟩
  induction ha with
  | selected ha => simpa using hend.selected _ ha
  | jump _ hhost hjump ih => simpa using hend.closed _ ih _ hhost _ hjump

end Order

variable {x : Externals} {key : VaultKey} {v t u : Vault}

/-! ## The hosts of a label -/

/-- A live host of the label. -/
structure Labelled (x : Externals) (key : VaultKey) (v : Vault) (label : String) (row : ItemRow)
    (record : HostRecord) : Prop where
  stored : v.db.getItem row.id = some row
  kind : row.kind = .host
  live : row.deleted = false
  holds : Holds x key x.texts.host row record
  label : record.label = label

/-- Of the live hosts of the label, one that was updated last. -/
def Latest (x : Externals) (key : VaultKey) (v : Vault) (label : String) (row : ItemRow)
    (record : HostRecord) : Prop :=
  Labelled x key v label row record ∧
    ∀ row' record', Labelled x key v label row' record' → row'.updatedAt ≤ row.updatedAt

theorem labelledHosts_cons {row : ItemRow} {listed : List ItemRow}
    {existing : List (String × HostRecord × ItemRow)}
    (h : labelledHosts x key (row :: listed) = .ok existing) :
    ∃ record rest, Holds x key x.texts.host row record ∧
      labelledHosts x key listed = .ok rest ∧ existing = (record.label, record, row) :: rest := by
  simp only [labelledHosts, bind, Except.bind] at h
  split at h
  · cases h
  · rename_i plaintext hplain
    split at h
    · cases h
    · rename_i record hrecord
      split at h
      · cases h
      · rename_i rest hrest
        cases h
        exact ⟨record, rest, ⟨plaintext, hplain, hrecord⟩, hrest, rfl⟩

/-- The first entry of a label, in a list by the time of the last update. -/
theorem labelledHosts_lookup {listed : List ItemRow}
    {existing : List (String × HostRecord × ItemRow)}
    (h : labelledHosts x key listed = .ok existing)
    (hsorted : listed.Pairwise fun a b => b.updatedAt ≤ a.updatedAt) (label : String) :
    match existing.lookup label with
    | some (record, row) => row ∈ listed ∧ Holds x key x.texts.host row record ∧
        record.label = label ∧ ∀ row' ∈ listed, ∀ record', Holds x key x.texts.host row' record' →
          record'.label = label → row'.updatedAt ≤ row.updatedAt
    | none => ∀ row ∈ listed, ∀ record, Holds x key x.texts.host row record →
        record.label ≠ label := by
  induction listed generalizing existing with
  | nil =>
    cases h
    exact fun row hrow => by cases hrow
  | cons first listed ih =>
    obtain ⟨record, rest, hholds, hrest, rfl⟩ := labelledHosts_cons h
    obtain ⟨hfirst, hsorted⟩ := List.pairwise_cons.1 hsorted
    by_cases hlabel : record.label = label
    · have hlookup : ((record.label, record, first) :: rest).lookup label =
          some (record, first) := by
        rw [List.lookup_cons, hlabel, beq_self_eq_true]
      rw [hlookup]
      refine ⟨List.mem_cons_self, hholds, hlabel, fun row' hrow' _ _ _ => ?_⟩
      obtain rfl | hrow' := List.mem_cons.1 hrow'
      · exact le_refl _
      · exact hfirst row' hrow'
    · have hlookup : ((record.label, record, first) :: rest).lookup label =
          rest.lookup label := by
        rw [List.lookup_cons, beq_false_of_ne (Ne.symm hlabel)]
      have hother : ∀ record', Holds x key x.texts.host first record' →
          record'.label ≠ label := by
        intro record' hrecord'
        rw [RunningSessions.Holds.unique hrecord' hholds]
        exact hlabel
      have hih := ih hrest hsorted
      rw [hlookup]
      cases hfound : rest.lookup label with
      | none =>
        rw [hfound] at hih
        intro row' hrow' record' hrecord'
        obtain rfl | hrow' := List.mem_cons.1 hrow'
        · exact hother record' hrecord'
        · exact hih row' hrow' record' hrecord'
      | some found =>
        rw [hfound] at hih
        obtain ⟨hmem, hrest⟩ := hih
        refine ⟨List.mem_cons_of_mem _ hmem, hrest.1, hrest.2.1, fun row' hrow' record' hr hl => ?_⟩
        obtain rfl | hrow' := List.mem_cons.1 hrow'
        · exact absurd hl (hother record' hr)
        · exact hrest.2.2 row' hrow' record' hr hl

theorem listItems_sorted (db : VaultDb) (kind : ItemKind) (includeDeleted : Bool) :
    (db.listItems kind includeDeleted).Pairwise fun a b => b.updatedAt ≤ a.updatedAt := by
  have htotal : Std.Total fun a b : ItemRow => b.updatedAt ≤ a.updatedAt :=
    ⟨fun a b => le_total _ _⟩
  have htrans : IsTrans ItemRow fun a b => b.updatedAt ≤ a.updatedAt :=
    ⟨fun a b c hab hbc => hbc.trans hab⟩
  exact List.pairwise_insertionSort _ _

theorem lookup_ids (existing : List (String × HostRecord × ItemRow)) (label : String) :
    (existing.map fun entry => (entry.1, entry.2.1.id)).lookup label =
      (existing.lookup label).map fun found => found.1.id := by
  induction existing with
  | nil => rfl
  | cons entry existing ih =>
    rw [List.map_cons, List.lookup_cons, ih]
    obtain ⟨a, record, row⟩ := entry
    rw [List.lookup_cons]
    cases label == a <;> rfl

/-- What an import knows of the vault: the host of each label. -/
structure Knows (x : Externals) (key : VaultKey) (v : Vault)
    (existing : List (String × HostRecord × ItemRow)) : Prop where
  found : ∀ label record row, existing.lookup label = some (record, row) →
    Latest x key v label row record
  missing : ∀ label, existing.lookup label = none →
    ∀ row record, ¬ Labelled x key v label row record

theorem knows_labelledHosts {existing : List (String × HostRecord × ItemRow)}
    (h : labelledHosts x key (v.db.listItems .host false) = .ok existing) :
    Knows x key v existing := by
  have hmem : ∀ row, row ∈ v.db.listItems .host false ↔ v.db.getItem row.id = some row ∧
      row.kind = .host ∧ row.deleted = false := by
    intro row
    rw [VaultDb.mem_listItems]
    simp
  constructor
  · intro label record row hlookup
    have hfirst := labelledHosts_lookup h (listItems_sorted _ _ _) label
    rw [hlookup] at hfirst
    obtain ⟨hin, hholds, hlabel, hlast⟩ := hfirst
    obtain ⟨hrow, hkind, hlive⟩ := (hmem row).1 hin
    refine ⟨⟨hrow, hkind, hlive, hholds, hlabel⟩, fun row' record' h' => ?_⟩
    exact hlast row' ((hmem row').2 ⟨h'.stored, h'.kind, h'.live⟩) record' h'.holds h'.label
  · intro label hlookup row record h'
    have hnone := labelledHosts_lookup h (listItems_sorted _ _ _) label
    rw [hlookup] at hnone
    exact hnone row ((hmem row).2 ⟨h'.stored, h'.kind, h'.live⟩) record h'.holds h'.label

/-! ## The identifiers -/

/-- The identifier was drawn between `v` and `t`. -/
def DrawnBetween (v t : Vault) (id : Uuid) : Prop :=
  ∃ n, v.world.draws ≤ n ∧ n < t.world.draws ∧ id = v.world.uuidAt n

/-- Every label has an identifier: the one it had, or a drawn one. -/
structure Assigned (v t : Vault) (labels : List String) (ids out : List (String × Uuid)) :
    Prop where
  kept : ∀ label id, ids.lookup label = some id → out.lookup label = some id
  total : ∀ label ∈ labels, (out.lookup label).isSome = true
  drawn : ∀ label id, ids.lookup label = none → out.lookup label = some id →
    label ∈ labels ∧ DrawnBetween v t id
  distinct : DistinctDraws t → ∀ a b id, ids.lookup a = none → ids.lookup b = none →
    out.lookup a = some id → out.lookup b = some id → a = b

theorem lookup_append_one (ids : List (String × Uuid)) (label a : String) (id : Uuid) :
    (ids ++ [(label, id)]).lookup a =
      (ids.lookup a).or (if a = label then some id else none) := by
  rw [List.lookup_append]
  congr 1
  rw [List.lookup_cons]
  by_cases h : a = label
  · simp [h]
  · simp [h, beq_false_of_ne h]

theorem Assigned.weaken {labels : List String} {ids out : List (String × Uuid)} {label : String}
    {id : Uuid} (h : Assigned v t labels ids out) (hid : ids.lookup label = some id) :
    Assigned v t (label :: labels) ids out where
  kept := h.kept
  total a ha := by
    obtain rfl | ha := List.mem_cons.1 ha
    · rw [h.kept _ _ hid]
      rfl
    · exact h.total a ha
  drawn a i hnone hi := (h.drawn a i hnone hi).imp_left (List.mem_cons_of_mem _)
  distinct := h.distinct

theorem assignIds_ok {labels : List String} {ids out : List (String × Uuid)} (hv : Keyed key v)
    (h : (assignIds labels ids).run v = (.ok out, t)) :
    Calm key v t ∧ Assigned v t labels ids out := by
  induction labels generalizing ids v with
  | nil =>
    obtain ⟨rfl, rfl⟩ := pure_ok h
    refine ⟨Calm.refl hv, fun _ _ h => h, fun _ h => (by cases h), fun _ _ hnone hsome => ?_,
      fun _ _ _ _ hnone _ hsome => ?_⟩
    · cases hnone.symm.trans hsome
    · cases hnone.symm.trans hsome
  | cons label labels ih =>
    unfold assignIds at h
    split at h
    · rename_i id hid
      obtain ⟨hcalm, hassigned⟩ := ih hv h
      exact ⟨hcalm, hassigned.weaken hid⟩
    · rename_i hnone
      obtain ⟨id, v₁, hdraw, h⟩ := run_bind_eq_ok.1 h
      obtain ⟨rfl, hlt, hcalm⟩ := draw_ok hv hdraw
      obtain ⟨hcalm₁, hassigned⟩ := ih hcalm.keyed h
      have hself : (ids ++ [(label, v.world.uuidAt v.world.draws)]).lookup label =
          some (v.world.uuidAt v.world.draws) := by
        rw [lookup_append_one, hnone, if_pos rfl]
        rfl
      have hothers : ∀ a, ids.lookup a = none → a ≠ label →
          (ids ++ [(label, v.world.uuidAt v.world.draws)]).lookup a = none := by
        intro a ha hne
        rw [lookup_append_one, ha, if_neg hne]
        rfl
      have hlater : ∀ i, DrawnBetween v₁ t i → ∃ n, v.world.draws < n ∧ n < t.world.draws ∧
          i = v.world.uuidAt n := by
        rintro i ⟨n, hn, hnt, rfl⟩
        exact ⟨n, hlt.trans_le hn, hnt, congrFun hcalm.supply n⟩
      have hapart : DistinctDraws t → ∀ i, DrawnBetween v₁ t i →
          i ≠ v.world.uuidAt v.world.draws := by
        intro hdistinct i hi heq
        obtain ⟨n, hn, hnt, rfl⟩ := hlater i hi
        have hne := hdistinct v.world.draws n hn hnt
        rw [(hcalm.trans hcalm₁).supply] at hne
        exact hne heq.symm
      refine ⟨hcalm.trans hcalm₁, fun a i hi => ?_, fun a ha => ?_, fun a i ha hi => ?_,
        fun hdistinct a b i ha hb hai hbi => ?_⟩
      · refine hassigned.kept a i ?_
        rw [lookup_append_one, hi]
        rfl
      · obtain rfl | ha := List.mem_cons.1 ha
        · rw [hassigned.kept _ _ hself]
          rfl
        · exact hassigned.total a ha
      · by_cases hlabel : a = label
        · subst hlabel
          rw [hassigned.kept _ _ hself, Option.some.injEq] at hi
          exact ⟨List.mem_cons_self, _, le_refl _, hlt.trans_le hcalm₁.draws, hi.symm⟩
        · obtain ⟨hmem, hi⟩ := hassigned.drawn a i (hothers a ha hlabel) hi
          obtain ⟨n, hn, hnt, rfl⟩ := hlater i hi
          exact ⟨List.mem_cons_of_mem _ hmem, n, hn.le, hnt, rfl⟩
      · by_cases hla : a = label
        · by_cases hlb : b = label
          · rw [hla, hlb]
          · subst hla
            rw [hassigned.kept _ _ hself, Option.some.injEq] at hai
            exact absurd hai.symm
              (hapart hdistinct i (hassigned.drawn b i (hothers b hb hlb) hbi).2)
        · by_cases hlb : b = label
          · subst hlb
            rw [hassigned.kept _ _ hself, Option.some.injEq] at hbi
            exact absurd hbi.symm
              (hapart hdistinct i (hassigned.drawn a i (hothers a ha hla) hai).2)
          · exact hassigned.distinct hdistinct a b i (hothers a ha hla) (hothers b hb hlb) hai hbi

/-! ## The rows -/

/-- The row an alias is written to. -/
structure Imports (x : Externals) (key : VaultKey) (parsed : List SshConfigHost)
    (existing : List (String × HostRecord × ItemRow)) (ids : List (String × Uuid))
    (row : ItemRow) (host : Host) : Prop where
  source : ∃ imported hostId, byAlias parsed host.label = some imported ∧
    ids.lookup host.label = some hostId ∧
    host = importedHost ids (existing.lookup host.label) hostId imported
  id : row.id = host.id
  kind : row.kind = .host
  live : row.deleted = false
  shared : row.localOnly = false
  version : row.version = match existing.lookup host.label with
    | some (_, row) => row.version + 1
    | none => 1
  opens : Opens x key row (x.texts.writeHost host)

theorem importRows_ok (hc : x.aead.Correct) {parsed : List SshConfigHost}
    {existing : List (String × HostRecord × ItemRow)} {ids : List (String × Uuid)}
    {labels : List String} {imported : List (ItemRow × Host)} (hv : Keyed key v)
    (h : (importRows x key parsed existing ids labels).run v = (.ok imported, t)) :
    Calm key v t ∧ imported.map (fun entry => entry.2.label) = labels ∧
      ∀ entry ∈ imported, Imports x key parsed existing ids entry.1 entry.2 := by
  induction labels generalizing v t imported with
  | nil =>
    obtain ⟨rfl, rfl⟩ := pure_ok h
    exact ⟨Calm.refl hv, rfl, fun _ h => (by cases h)⟩
  | cons label labels ih =>
    unfold importRows at h
    split at h
    · exact (failed_ok h).elim
    · exact (failed_ok h).elim
    · rename_i host hostId hhost hid
      obtain ⟨plaintext, v₁, hplain, h⟩ := run_bind_eq_ok.1 h
      obtain ⟨hencode, rfl⟩ := computed_ok hplain
      obtain ⟨nonce, v₂, hnonce, h⟩ := run_bind_eq_ok.1 h
      have hcalm₂ := calm_of_lift (calms_draw _) hv hnonce
      obtain ⟨blob, v₃, hblob, h⟩ := run_bind_eq_ok.1 h
      obtain ⟨hencrypt, rfl⟩ := computed_ok hblob
      obtain ⟨now, v₄, hnow, h⟩ := run_bind_eq_ok.1 h
      have hcalm₄ := hcalm₂.trans (calm_of_lift (calms_read _) hcalm₂.keyed hnow)
      obtain ⟨rest, v₅, hrest, h⟩ := run_bind_eq_ok.1 h
      obtain ⟨hcalm₅, hlabels, hrows⟩ := ih hcalm₄.keyed hrest
      obtain ⟨rfl, rfl⟩ := pure_ok h
      have hlabel : (importedHost ids (existing.lookup label) hostId host).label = label :=
        byAlias_some hhost
      refine ⟨hcalm₄.trans hcalm₅, congrArg₂ _ hlabel hlabels, fun entry hentry => ?_⟩
      obtain rfl | hentry := List.mem_cons.1 hentry
      · refine ⟨?_, rfl, rfl, rfl, rfl, ?_, ?_⟩
        · exact ⟨host, hostId, (congrArg _ hlabel).trans hhost,
            (congrArg (fun a => ids.lookup a) hlabel).trans hid, by rw [hlabel]⟩
        · exact congrArg (fun a => match existing.lookup a with
            | some (_, row) => row.version + 1
            | none => 1) hlabel.symm
        · exact ⟨plaintext, decryptRaw_encryptRaw hc hencrypt,
            x.fromSlice_toVec _ _ (toVec_of_encode hencode)⟩
      · exact hrows entry hentry

/-- A transaction leaves its rows, and the rows it does not touch. -/
theorem getItem_upsertItems (rows : List ItemRow) (db : VaultDb) (id : Uuid) :
    (∃ row ∈ rows, row.id = id ∧ (db.upsertItemsTransaction rows).getItem id = some row) ∨
      (∀ row ∈ rows, row.id ≠ id) ∧ (db.upsertItemsTransaction rows).getItem id = db.getItem id := by
  induction rows generalizing db with
  | nil => exact Or.inr ⟨fun _ h => (by cases h), rfl⟩
  | cons row rows ih =>
    obtain ⟨row', hmem, hid, hget⟩ | ⟨hne, hget⟩ := ih (db.upsertItem row)
    · exact Or.inl ⟨row', List.mem_cons_of_mem _ hmem, hid, hget⟩
    · change ((db.upsertItem row).upsertItemsTransaction rows).getItem id = _ at hget
      rw [VaultDb.getItem_upsertItem] at hget
      by_cases hid : id = row.id
      · rw [if_pos hid] at hget
        exact Or.inl ⟨row, List.mem_cons_self, hid.symm, hget⟩
      · rw [if_neg hid] at hget
        refine Or.inr ⟨fun row' hrow' => ?_, hget⟩
        obtain rfl | hrow' := List.mem_cons.1 hrow'
        · exact Ne.symm hid
        · exact hne row' hrow'

theorem getItem_upsertItems_congr {db db' : VaultDb} (h : ∀ id, db.getItem id = db'.getItem id)
    (rows : List ItemRow) (id : Uuid) : (db.upsertItemsTransaction rows).getItem id =
      (db'.upsertItemsTransaction rows).getItem id := by
  induction rows generalizing db db' with
  | nil => exact h id
  | cons row rows ih =>
    refine ih fun i => ?_
    rw [VaultDb.getItem_upsertItem, VaultDb.getItem_upsertItem, h]

theorem Labelled.of_rows {label : String} {row : ItemRow} {record : HostRecord}
    (h : Labelled x key v label row record) (hrows : ∀ id, t.db.getItem id = v.db.getItem id) :
    Labelled x key t label row record :=
  ⟨(hrows _).trans h.stored, h.kind, h.live, h.holds, h.label⟩

theorem Knows.of_rows {existing : List (String × HostRecord × ItemRow)}
    (h : Knows x key v existing) (hrows : ∀ id, t.db.getItem id = v.db.getItem id) :
    Knows x key t existing where
  found label record row hfound := by
    obtain ⟨hlabelled, hlast⟩ := h.found label record row hfound
    refine ⟨hlabelled.of_rows hrows, fun row' record' h' => ?_⟩
    exact hlast row' record' (h'.of_rows fun id => (hrows id).symm)
  missing label hnone row record h' :=
    h.missing label hnone row record (h'.of_rows fun id => (hrows id).symm)

/-- What an import has read, chosen and written. -/
structure Import (x : Externals) (key : VaultKey) (contents : String) (selected : List String)
    (v t : Vault) (parsed : List SshConfigHost)
    (existing : List (String × HostRecord × ItemRow)) (ids : List (String × Uuid))
    (imported : List (ItemRow × Host)) : Prop extends Draws v t where
  parses : x.parseSshConfig contents = .ok parsed
  nodup : (imported.map fun entry => entry.2.label).Nodup
  aliases : ∀ a, a ∈ imported.map (fun entry => entry.2.label) ↔ Reachable parsed selected a
  knows : Knows x key v existing
  assigned : Assigned v t (imported.map fun entry => entry.2.label)
    (existing.map fun entry => (entry.1, entry.2.1.id)) ids
  rows : ∀ entry ∈ imported, Imports x key parsed existing ids entry.1 entry.2
  stored : ∀ id, t.db.getItem id =
    (v.db.upsertItemsTransaction (imported.map Prod.fst)).getItem id
  keyed : Keyed key t

theorem Assigned.later {labels : List String} {ids out : List (String × Uuid)}
    (h : Assigned v t labels ids out) (hd : Draws t u) : Assigned v u labels ids out where
  kept := h.kept
  total := h.total
  drawn a i hnone hi := by
    obtain ⟨hmem, n, hn, hnt, heq⟩ := h.drawn a i hnone hi
    exact ⟨hmem, n, hn, hnt.trans_le hd.draws, heq⟩
  distinct hdistinct := h.distinct (hdistinct.mono hd)

theorem Assigned.earlier {labels : List String} {ids out : List (String × Uuid)}
    (h : Assigned t u labels ids out) (hd : Draws v t) : Assigned v u labels ids out where
  kept := h.kept
  total := h.total
  drawn a i hnone hi := by
    obtain ⟨hmem, n, hn, hnt, heq⟩ := h.drawn a i hnone hi
    exact ⟨hmem, n, hd.draws.trans hn, hnt, heq.trans (congrFun hd.supply n)⟩
  distinct := h.distinct

theorem importSshConfig_ok (hc : x.aead.Correct) (hv : Keyed key v) {contents : String}
    {selected : List String} {summaries : List HostSummary}
    (h : (importSshConfig x contents selected).run v = (.ok summaries, t)) :
    ∃ parsed existing ids imported,
      Import x key contents selected v t parsed existing ids imported := by
  obtain ⟨parsed, v₁, hparsed, h⟩ := run_bind_eq_ok.1 h
  obtain ⟨hparses, rfl⟩ := computed_ok hparsed
  obtain ⟨order, v₂, horder, h⟩ := run_bind_eq_ok.1 h
  obtain ⟨horders, rfl⟩ := computed_ok horder
  obtain ⟨k, v₃, hk, h⟩ := run_bind_eq_ok.1 h
  obtain ⟨rfl, hcalm₃⟩ := key_ok hv hk
  obtain ⟨listed, v₄, hlisted, h⟩ := run_bind_eq_ok.1 h
  obtain ⟨hlist, hcalm₄⟩ := query_ok hcalm₃.keyed hlisted
  obtain ⟨existing, v₅, hexisting, h⟩ := run_bind_eq_ok.1 h
  obtain ⟨hlabelled, rfl⟩ := computed_ok hexisting
  obtain ⟨ids, v₆, hids, h⟩ := run_bind_eq_ok.1 h
  obtain ⟨hcalm₆, hassigned⟩ := assignIds_ok hcalm₄.keyed hids
  obtain ⟨imported, v₇, himported, h⟩ := run_bind_eq_ok.1 h
  obtain ⟨hcalm₇, hlabels, hrows⟩ := importRows_ok hc hcalm₆.keyed himported
  obtain ⟨⟨⟩, v₈, hstore, h⟩ := run_bind_eq_ok.1 h
  obtain ⟨-, rfl⟩ := pure_ok h
  have hbefore := (hcalm₃.trans hcalm₄).trans (hcalm₆.trans hcalm₇)
  have hd := draws_run (Program.Each.lift (acting_draws.withDbMut _)) hstore
  rw [Except.ok.injEq] at hlist
  subst hlist
  obtain ⟨hnodup, haliases, -⟩ := importOrder_ok horders
  rw [Program.run_lift] at hstore
  obtain ⟨e, he⟩ | hok := withDbMut_cases
    (fun db => db.upsertItemsTransaction (imported.map Prod.fst)) v₇
  · rw [he] at hstore
    cases hstore
  · rw [hok] at hstore
    cases hstore
    refine ⟨parsed, existing, ids, imported, hbefore.toDraws.trans hd, hparses, hlabels ▸ hnodup,
      hlabels ▸ haliases, ?_, ?_, hrows, fun id => ?_, hbefore.keyed⟩
    · exact (knows_labelledHosts hlabelled).of_rows fun id => (hcalm₃.rows id).symm
    · rw [hlabels]
      exact (hassigned.later (hcalm₇.toDraws.trans hd)).earlier
        (hcalm₃.trans hcalm₄).toDraws
    · exact getItem_upsertItems_congr hbefore.rows _ id

/-! ## What it comes to -/

/-- The identifiers to be drawn are of no row, and differ. -/
structure FreshIds (v t : Vault) : Prop where
  distinct : DistinctDraws t
  unused : ∀ id, DrawnBetween v t id → v.db.getItem id = none

section Outcome
variable {contents : String} {selected : List String} {parsed : List SshConfigHost}
  {existing : List (String × HostRecord × ItemRow)} {ids : List (String × Uuid)}
  {imported : List (ItemRow × Host)}

/-- Where an identifier comes from. -/
theorem Import.source (h : Import x key contents selected v t parsed existing ids imported)
    (hown : OwnIds x key v) {a : String} {id : Uuid} (hid : ids.lookup a = some id) :
    (∃ record row, existing.lookup a = some (record, row) ∧ row.id = id ∧ record.id = id) ∨
      (existing.lookup a = none ∧ a ∈ imported.map (fun entry => entry.2.label) ∧
        DrawnBetween v t id) := by
  cases hfound : existing.lookup a with
  | some found =>
    obtain ⟨record, row⟩ := found
    have hkept := h.assigned.kept a record.id (by rw [lookup_ids, hfound]; rfl)
    rw [hid, Option.some.injEq] at hkept
    obtain ⟨hl, -⟩ := h.knows.found a record row hfound
    have hrecord := hown row.id row record hl.stored hl.kind hl.live hl.holds
    exact Or.inl ⟨record, row, rfl, hrecord.symm.trans hkept.symm, hkept.symm⟩
  | none =>
    have hnone : (existing.map fun entry => (entry.1, entry.2.1.id)).lookup a = none := by
      rw [lookup_ids, hfound]
      rfl
    exact Or.inr ⟨rfl, h.assigned.drawn a id hnone hid⟩

theorem Import.ids_inj (h : Import x key contents selected v t parsed existing ids imported)
    (hown : OwnIds x key v) (hfresh : FreshIds v t) {a b : String} {id : Uuid}
    (ha : ids.lookup a = some id) (hb : ids.lookup b = some id) : a = b := by
  have hstored : ∀ {c : String} {record : HostRecord} {row : ItemRow},
      existing.lookup c = some (record, row) → Labelled x key v c row record :=
    fun hfound => (h.knows.found _ _ _ hfound).1
  obtain ⟨ra, rowa, hfa, hra, -⟩ | ⟨hna, -, hda⟩ := h.source hown ha
  · obtain ⟨rb, rowb, hfb, hrb, -⟩ | ⟨-, -, hdb⟩ := h.source hown hb
    · have hsame := (hstored hfa).stored
      rw [hra.trans hrb.symm, (hstored hfb).stored, Option.some.injEq] at hsame
      subst hsame
      rw [← (hstored hfa).label, ← (hstored hfb).label,
        RunningSessions.Holds.unique (hstored hfa).holds (hstored hfb).holds]
    · have hnone := hfresh.unused id hdb
      rw [← hra, (hstored hfa).stored] at hnone
      cases hnone
  · obtain ⟨rb, rowb, hfb, hrb, -⟩ | ⟨hnb, -, -⟩ := h.source hown hb
    · have hnone := hfresh.unused id hda
      rw [← hrb, (hstored hfb).stored] at hnone
      cases hnone
    · refine h.assigned.distinct hfresh.distinct a b id ?_ ?_ ha hb
      · rw [lookup_ids, hna]
        rfl
      · rw [lookup_ids, hnb]
        rfl

/-- The alias is written to `w`, which holds `host`. -/
structure Writes (x : Externals) (key : VaultKey) (v t : Vault) (parsed : List SshConfigHost)
    (a : String) (w : ItemRow) (host : HostRecord) : Prop where
  labelled : Labelled x key t a w host
  own : host.id = w.id
  resolved : ∃ imported, byAlias parsed a = some imported ∧ host.hostname = imported.hostname ∧
    host.port = imported.port ∧ host.username = imported.username ∧
    ∀ id, host.jumpHostId = some id → ∃ jump row record,
      imported.proxyJump.bind proxyJumpAlias = some jump ∧ row.id = id ∧
        Labelled x key t jump row record
  target : (∃ row record, Latest x key v a row record ∧ w.id = row.id ∧
      w.version = row.version + 1 ∧ host = { record with
        hostname := host.hostname
        port := host.port
        username := host.username
        jumpHostId := host.jumpHostId }) ∨
    ((∀ row record, ¬ Labelled x key v a row record) ∧ v.db.getItem w.id = none ∧
      DrawnBetween v t w.id ∧ w.version = 1 ∧
      host = { Host.new w.id a host.hostname host.username with
        port := host.port
        jumpHostId := host.jumpHostId })

theorem Imports.hostId {row : ItemRow} {host : Host}
    (h : Imports x key parsed existing ids row host) : ids.lookup host.label = some row.id := by
  obtain ⟨imported, hostId, -, hid, heq⟩ := h.source
  rw [hid, h.id, heq]
  rfl

/-- Each entry is in place. -/
theorem Import.stored_entry (h : Import x key contents selected v t parsed existing ids imported)
    (hown : OwnIds x key v) (hfresh : FreshIds v t) {entry : ItemRow × Host}
    (hentry : entry ∈ imported) : Labelled x key t entry.2.label entry.1 entry.2 := by
  have himports := h.rows entry hentry
  refine ⟨?_, himports.kind, himports.live, decode_of_opens himports.opens, rfl⟩
  rw [h.stored]
  obtain ⟨row, hrow, hid, hget⟩ | ⟨hne, -⟩ :=
    getItem_upsertItems (imported.map Prod.fst) v.db entry.1.id
  · obtain ⟨other, hother, rfl⟩ := List.mem_map.1 hrow
    have hlabels : other.2.label = entry.2.label := by
      refine h.ids_inj hown hfresh (h.rows other hother).hostId ?_
      rw [hid]
      exact himports.hostId
    rw [hget, List.inj_on_of_nodup_map h.nodup hother hentry hlabels]
  · exact absurd rfl (hne entry.1 (List.mem_map_of_mem hentry))

theorem Import.ids_nodup (h : Import x key contents selected v t parsed existing ids imported)
    (hown : OwnIds x key v) (hfresh : FreshIds v t) :
    (imported.map fun entry => entry.1.id).Nodup := by
  refine List.Nodup.map_on (fun e he e' he' hid => ?_) (List.Nodup.of_map _ h.nodup)
  refine List.inj_on_of_nodup_map h.nodup he he' (h.ids_inj hown hfresh (h.rows e he).hostId ?_)
  rw [hid]
  exact (h.rows e' he').hostId

/-- A host of a label that was there, or that is written, is there afterwards. -/
theorem Import.labelled (h : Import x key contents selected v t parsed existing ids imported)
    (hown : OwnIds x key v) (hfresh : FreshIds v t) {a : String} {id : Uuid}
    (hid : ids.lookup a = some id) :
    ∃ row record, row.id = id ∧ Labelled x key t a row record := by
  obtain ⟨row, hrow, hrowid, -⟩ | ⟨hne, hget⟩ :=
    getItem_upsertItems (imported.map Prod.fst) v.db id
  · obtain ⟨entry, hentry, rfl⟩ := List.mem_map.1 hrow
    have hlabel : entry.2.label = a := by
      refine h.ids_inj hown hfresh (h.rows entry hentry).hostId ?_
      rw [hrowid]
      exact hid
    exact ⟨entry.1, entry.2, hrowid, hlabel ▸ h.stored_entry hown hfresh hentry⟩
  · obtain ⟨record, row, hfound, hrow, -⟩ | ⟨-, hmem, -⟩ := h.source hown hid
    · obtain ⟨hl, -⟩ := h.knows.found a record row hfound
      refine ⟨row, record, hrow, ?_, hl.kind, hl.live, hl.holds, hl.label⟩
      rw [h.stored, hrow, hget, ← hrow]
      exact hl.stored
    · obtain ⟨entry, hentry, rfl⟩ := List.mem_map.1 hmem
      refine absurd ?_ (hne entry.1 (List.mem_map_of_mem hentry))
      have hentryId := (h.rows entry hentry).hostId
      rw [hid, Option.some.injEq] at hentryId
      exact hentryId.symm

theorem Import.writes (h : Import x key contents selected v t parsed existing ids imported)
    (hown : OwnIds x key v) (hfresh : FreshIds v t) {entry : ItemRow × Host}
    (hentry : entry ∈ imported) :
    Writes x key v t parsed entry.2.label entry.1 entry.2 := by
  have himports := h.rows entry hentry
  obtain ⟨host, hostId, hhost, hid, heq⟩ := himports.source
  have hversion := himports.version
  refine ⟨h.stored_entry hown hfresh hentry, himports.id.symm, ⟨host, hhost, ?_, ?_, ?_, ?_⟩, ?_⟩
  · rw [heq]; rfl
  · rw [heq]; rfl
  · rw [heq]; rfl
  · intro id hjump
    rw [heq] at hjump
    obtain ⟨jump, hjump, hlookup⟩ := Option.bind_eq_some_iff.1
      (show (host.proxyJump.bind proxyJumpAlias).bind (fun jump => ids.lookup jump) = some id
        from hjump)
    obtain ⟨row, record, hrow, hl⟩ := h.labelled hown hfresh hlookup
    exact ⟨jump, row, record, hjump, hrow, hl⟩
  · cases hfound : existing.lookup entry.2.label with
    | some found =>
      obtain ⟨record, row⟩ := found
      have hlast := h.knows.found _ _ _ hfound
      obtain ⟨record', row', hfound', hrow, hrecord⟩ | ⟨hnone, -, -⟩ :=
        h.source hown himports.hostId
      · cases hfound.symm.trans hfound'
        rw [hfound] at hversion
        refine Or.inl ⟨row, record, hlast, hrow.symm, hversion, ?_⟩
        have hkept : hostId = record.id := (Option.some.inj (hid.symm.trans himports.hostId)).trans
          hrecord.symm
        have hlabel : host.hostAlias = record.label := (byAlias_some hhost).trans hlast.1.label.symm
        rw [heq, hfound, hkept]
        simp only [importedHost, hlabel]
      · cases hfound.symm.trans hnone
    | none =>
      obtain ⟨record, row, hsome, -⟩ | ⟨-, -, hdrawn⟩ := h.source hown himports.hostId
      · cases hfound.symm.trans hsome
      · rw [hfound] at hversion
        refine Or.inr ⟨h.knows.missing _ hfound, hfresh.unused _ hdrawn, hdrawn, hversion, ?_⟩
        have hkept : hostId = entry.1.id := Option.some.inj (hid.symm.trans himports.hostId)
        have hlabel : host.hostAlias = entry.2.label := byAlias_some hhost
        rw [heq, hfound, ← hkept]
        simp only [importedHost, hlabel]
        rfl

/-- The rows that are not written stay. -/
theorem Import.frame (h : Import x key contents selected v t parsed existing ids imported)
    {id : Uuid} (hid : id ∉ imported.map fun entry => entry.1.id) :
    t.db.getItem id = v.db.getItem id := by
  rw [h.stored]
  obtain ⟨row, hrow, hrowid, -⟩ | ⟨-, hget⟩ :=
    getItem_upsertItems (imported.map Prod.fst) v.db id
  · obtain ⟨entry, hentry, rfl⟩ := List.mem_map.1 hrow
    exact absurd (List.mem_map.2 ⟨entry, hentry, hrowid⟩) hid
  · exact hget

theorem Import.ownIds (h : Import x key contents selected v t parsed existing ids imported)
    (hown : OwnIds x key v) (hfresh : FreshIds v t) : OwnIds x key t := by
  intro id row record hrow hkind hlive hholds
  by_cases hid : id ∈ imported.map fun entry => entry.1.id
  · obtain ⟨entry, hentry, rfl⟩ := List.mem_map.1 hid
    have hwrites := h.writes hown hfresh hentry
    have hsame := hwrites.labelled.stored
    rw [hrow, Option.some.injEq] at hsame
    subst hsame
    rw [RunningSessions.Holds.unique hholds hwrites.labelled.holds]
    exact hwrites.own
  · rw [h.frame hid] at hrow
    exact hown id row record hrow hkind hlive hholds

end Outcome

/-- Every alias that is reachable is written once, and nothing else. -/
def Imported (x : Externals) (key : VaultKey) (contents : String) (selected : List String)
    (v t : Vault) : Prop :=
  ∃ (parsed : List SshConfigHost) (written : List (ItemRow × HostRecord)),
    x.parseSshConfig contents = .ok parsed ∧
    (written.map fun entry => entry.2.label).Nodup ∧
    (written.map fun entry => entry.1.id).Nodup ∧
    (∀ a, a ∈ written.map (fun entry => entry.2.label) ↔ Reachable parsed selected a) ∧
    (∀ entry ∈ written, Writes x key v t parsed entry.2.label entry.1 entry.2) ∧
    ∀ id ∉ written.map fun entry => entry.1.id, t.db.getItem id = v.db.getItem id

/-- No row is new, and the rows that change are of live hosts. -/
def NoNewHost (t u : Vault) : Prop :=
  ∀ id, u.db.getItem id = t.db.getItem id ∨
    ∃ row, t.db.getItem id = some row ∧ row.kind = .host ∧ row.deleted = false

theorem Import.again {contents : String} {selected : List String} {v' t' : Vault}
    {parsed parsed' : List SshConfigHost} {existing existing' : List (String × HostRecord × ItemRow)}
    {ids ids' : List (String × Uuid)} {imported imported' : List (ItemRow × Host)}
    (h : Import x key contents selected v t parsed existing ids imported)
    (hown : OwnIds x key v) (hfresh : FreshIds v t) (hrows : ∀ id, v'.db.getItem id = t.db.getItem id)
    (h' : Import x key contents selected v' t' parsed' existing' ids' imported') :
    NoNewHost t t' := by
  have hparsed : parsed = parsed' := Except.ok.inj (h.parses.symm.trans h'.parses)
  subst hparsed
  have hown' : OwnIds x key v' := by
    intro id row record hrow
    exact h.ownIds hown hfresh id row record ((hrows id).symm.trans hrow)
  intro id
  by_cases hid : id ∈ imported'.map fun entry => entry.1.id
  · obtain ⟨entry', hentry', rfl⟩ := List.mem_map.1 hid
    have hreach := (h'.aliases entry'.2.label).1 (List.mem_map_of_mem hentry')
    obtain ⟨entry, hentry, hlabel⟩ := List.mem_map.1 ((h.aliases _).2 hreach)
    have hstored := (h.stored_entry hown hfresh hentry).of_rows hrows
    obtain ⟨record, row, hfound, hrow, -⟩ | ⟨hnone, -, -⟩ :=
      h'.source hown' (h'.rows entry' hentry').hostId
    · obtain ⟨hl, -⟩ := h'.knows.found _ _ _ hfound
      refine Or.inr ⟨row, ?_, hl.kind, hl.live⟩
      rw [← hrow, ← hrows]
      exact hl.stored
    · exact absurd (hlabel ▸ hstored) (h'.knows.missing _ hnone entry.1 entry.2)
  · exact Or.inl ((h'.frame hid).trans (hrows id))

/-! ## Imports that fail -/

theorem failed_bind {α β : Type} {p : RepositoryM α} {f : α → RepositoryM β} {e : Error}
    (hp : p.Each fun m => Calms key m) (hv : Keyed key v)
    (h : (p >>= f).run v = (.error e, t))
    (hf : ∀ a u, Keyed key u → (f a).run u = (.error e, t) →
      ∀ id, t.db.getItem id = u.db.getItem id) : ∀ id, t.db.getItem id = v.db.getItem id := by
  obtain hfail | ⟨a, u, hok, h⟩ := Program.run_bind_eq_error.1 h
  · exact (calm_of_each hp hv hfail).rows
  · have hcalm := calm_of_each hp hv hok
    exact fun id => (hf a u hcalm.keyed h id).trans (hcalm.rows id)

theorem calms_assignIds (labels : List String) (ids : List (String × Uuid)) :
    (assignIds labels ids).Each fun m => Calms key m := by
  induction labels generalizing ids with
  | nil => exact .pure _
  | cons label labels ih =>
    unfold assignIds
    split
    · exact ih ids
    · exact (Program.Each.lift (calms_draw _)).bind fun id => ih _

theorem calms_importRows {vaultKey : VaultKey} {parsed : List SshConfigHost}
    {existing : List (String × HostRecord × ItemRow)} {ids : List (String × Uuid)}
    (labels : List String) :
    (importRows x vaultKey parsed existing ids labels).Each fun m => Calms key m := by
  induction labels with
  | nil => exact .pure _
  | cons label labels ih =>
    unfold importRows
    split
    · exact reading_calms.failed _
    · exact reading_calms.failed _
    · exact (reading_calms.decoded _).bind fun _ => (Program.Each.lift (calms_draw _)).bind fun _ =>
        (reading_calms.decoded _).bind fun _ => (Program.Each.lift (calms_read _)).bind fun _ =>
          ih.bind fun _ => .pure _

theorem importSshConfig_error {contents : String} {selected : List String} {e : Error}
    (hv : Keyed key v) (h : (importSshConfig x contents selected).run v = (.error e, t)) :
    ∀ id, t.db.getItem id = v.db.getItem id := by
  refine failed_bind (reading_calms.decoded _) hv h fun parsed v₁ hv₁ h => ?_
  refine failed_bind (reading_calms.decoded _) hv₁ h fun order v₂ hv₂ h => ?_
  refine failed_bind (Program.Each.lift reading_calms.requireKey) hv₂ h fun k v₃ hv₃ h => ?_
  refine failed_bind (Program.Each.lift (reading_calms.withDb _)) hv₃ h fun listed v₄ hv₄ h => ?_
  refine failed_bind (reading_calms.decoded _) hv₄ h fun existing v₅ hv₅ h => ?_
  refine failed_bind (calms_assignIds _ _) hv₅ h fun ids v₆ hv₆ h => ?_
  refine failed_bind (calms_importRows _) hv₆ h fun imported v₇ hv₇ h => ?_
  obtain hstore | ⟨⟨⟩, u, -, hdone⟩ := Program.run_bind_eq_error.1 h
  · rw [Program.run_lift] at hstore
    obtain ⟨e', he⟩ | hok := withDbMut_cases
      (fun db => db.upsertItemsTransaction (imported.map Prod.fst)) v₇
    · rw [he] at hstore
      cases hstore
      exact fun _ => rfl
    · rw [hok] at hstore
      cases hstore
  · cases hdone

section Samples
open SecretFleets (sampleKey sampleVaultHeader)

def jumpConfig : List SshConfigHost :=
  [⟨"web", "web.example", 22, "root", some "jump"⟩, ⟨"jump", "jump.example", 22, "root", none⟩]

def emptyVault : Vault :=
  ⟨⟨some sampleVaultHeader, KeyedTables.Table.empty⟩, none, .unlocked sampleKey sampleKey.expose 0,
    IDLE_LOCK_DISABLED, numbered⟩

def jumpTexts : JsonTexts.Samples where
  values := [SessionFleets.sampleTexts.writeHost
      { Host.new (numbered.uuidAt 1) "web" "web.example" "root" with
        jumpHostId := some (numbered.uuidAt 2) },
    SessionFleets.sampleTexts.writeHost
      (Host.new (numbered.uuidAt 2) "jump" "jump.example" "root")]
  distinct := by decide +kernel

def jumpExternals : Externals :=
  jumpTexts.externals (fun _ _ => .error "no key") fun _ => .ok jumpConfig

def jumpImport : Except Error (List HostSummary) × Vault :=
  (importSshConfig jumpExternals "" ["web"]).run emptyVault

theorem importLoop_visit {parsed : List SshConfigHost} {a : String} {host : SshConfigHost}
    {queue seen order : List String} (hhost : byAlias parsed a = some host) (ha : a ∉ seen) :
    importLoop parsed (a :: queue) seen order =
      importLoop parsed (queue ++ jumpOf parsed host) (a :: seen) (order ++ [a]) := by
  rw [importLoop]
  split
  · rename_i hnone
    cases hhost.symm.trans hnone
  · rename_i host' hhost'
    cases hhost.symm.trans hhost'
    rw [dif_neg ha]

theorem jump_order : importOrder jumpConfig ["web"] = .ok ["web", "jump"] := by
  have hweb : byAlias jumpConfig "web" =
    some ⟨"web", "web.example", 22, "root", some "jump"⟩ := rfl
  have hjump : byAlias jumpConfig "jump" =
    some ⟨"jump", "jump.example", 22, "root", none⟩ := rfl
  have hfirst : jumpOf jumpConfig ⟨"web", "web.example", 22, "root", some "jump"⟩ = ["jump"] := by
    decide +kernel
  rw [importOrder, importLoop_visit hweb (by decide), hfirst, List.nil_append,
    importLoop_visit hjump (by decide)]
  change importLoop jumpConfig [] _ _ = _
  rw [importLoop]
  rfl

end Samples

end Tethra.SshConfigImports
