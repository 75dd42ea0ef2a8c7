import Tethra.PartialWrites
import Tethra.SshConfigImports

set_option autoImplicit false

/-!
# Hosts and the identities they refer to

Any sequence of operations that succeed, on one device. Drawn identifiers are new, as
identifiers of version 7 are.
-/
namespace Tethra.IdentityReferences
open AtomicPrograms AuthenticatedEncryption JsonValues RepositoryActions RepositoryRequests
open RepositoryRuns RepositoryUpdates SecretLinks StatefulActions VaultCrypto VaultRecords
open VaultRepository VaultState VaultTypes
open AtomicPrograms.Program (lift fail run_bind_eq_ok)
open RunningSessions (Same)
open StatefulActions.Action (read ofExcept)

variable {x : Externals} {key : VaultKey} {v t u : Vault} {spared : Option Uuid}

/-! ## Records of one kind do not read as those of another -/

section Readers
variable (texts : RecordTexts)

theorem readHost_writeIdentity (r : IdentityRecord) (s : HostRecord) :
    texts.readHost (texts.writeIdentity r) ≠ .ok s := by
  have hid : field texts.uuidFormat "id" (texts.writeIdentity r) = .ok r.id := by
    cases r <;> exact field_written rfl
  rw [RecordTexts.readHost, hid]
  cases r with
  | password id label password syncSecret =>
    intro h
    cases h
  | sshKey id label privateKey passphrase createdAt syncSecret =>
    cases passphrase <;> (intro h; cases h)

theorem readHost_writeApiKey (r : ApiKeyRecord) (s : HostRecord) :
    texts.readHost (texts.writeApiKey r) ≠ .ok s := by
  have hid : field texts.uuidFormat "id" (texts.writeApiKey r) = .ok r.id := field_written rfl
  rw [RecordTexts.readHost, hid]
  intro h
  cases h

theorem readIdentity_writeHost (r : HostRecord) (s : IdentityRecord) :
    texts.readIdentity (texts.writeHost r) ≠ .ok s := by
  have hid : field texts.uuidFormat "id" (texts.writeHost r) = .ok r.id := field_written rfl
  change texts.readPasswordIdentity _ ≠ _
  rw [RecordTexts.readPasswordIdentity, hid]
  intro h
  cases h

theorem readIdentity_writeApiKey (r : ApiKeyRecord) (s : IdentityRecord) :
    texts.readIdentity (texts.writeApiKey r) ≠ .ok s := by
  have hid : field texts.uuidFormat "id" (texts.writeApiKey r) = .ok r.id := field_written rfl
  change texts.readPasswordIdentity _ ≠ _
  rw [RecordTexts.readPasswordIdentity, hid]
  intro h
  cases h

end Readers

theorem read_of_opens {α : Type} {f : Format α} {row : ItemRow} {value : α} {text : Json}
    (hopens : Opens x key row text) (h : Holds x key f row value) : f.read text = .ok value := by
  obtain ⟨plaintext, hplain, hslice⟩ := hopens
  obtain ⟨plaintext', hplain', hdecode⟩ := h
  rw [hplain, Except.ok.injEq] at hplain'
  subst hplain'
  obtain ⟨v, hv, hread⟩ := Externals.decode_eq_ok.1 hdecode
  rw [hslice, Except.ok.injEq] at hv
  rw [hv]
  exact hread

/-- A row that reads as a host is one. -/
theorem host_of_holds (hv : LinkedVault x key v) {id : Uuid} {row : ItemRow} {r : HostRecord}
    (hrow : v.db.getItem id = some row) (h : Holds x key x.texts.host row r) :
    row.kind = .host := by
  have hlinked := hv.rows id row hrow
  unfold Linked at hlinked
  split at hlinked
  · assumption
  · obtain ⟨s, hopens, -⟩ := hlinked
    exact absurd (read_of_opens hopens h) (readHost_writeIdentity _ s r)
  · obtain ⟨s, hopens, -⟩ := hlinked
    exact absurd (read_of_opens hopens h) (readHost_writeApiKey _ s r)
  · exact hlinked.elim
  · exact hlinked.elim

theorem identity_of_holds (hv : LinkedVault x key v) {id : Uuid} {row : ItemRow}
    {r : IdentityRecord} (hrow : v.db.getItem id = some row)
    (h : Holds x key x.texts.identity row r) : row.kind = .identity := by
  have hlinked := hv.rows id row hrow
  unfold Linked at hlinked
  split at hlinked
  · obtain ⟨s, hopens⟩ := hlinked
    exact absurd (read_of_opens hopens h) (readIdentity_writeHost _ s r)
  · assumption
  · obtain ⟨s, hopens, -⟩ := hlinked
    exact absurd (read_of_opens hopens h) (readIdentity_writeApiKey _ s r)
  · exact hlinked.elim
  · exact hlinked.elim

/-! ## The invariant -/

def LiveIdentity (v : Vault) (id : Uuid) : Prop :=
  ∃ row, v.db.getItem id = some row ∧ row.kind = .identity ∧ row.deleted = false

def Drawn (v : Vault) (id : Uuid) : Prop := ∃ n < v.world.draws, v.world.uuidAt n = id

/-- Every live host but the spared one refers to a live identity, or to none. -/
structure Sound (x : Externals) (key : VaultKey) (spared : Option Uuid) (v : Vault) : Prop where
  typed : LinkedVault x key v
  hosts : ∀ id row r, v.db.getItem id = some row → Holds x key x.texts.host row r → r.id = id
  identities : ∀ id row r, v.db.getItem id = some row → Holds x key x.texts.identity row r →
    r.id = id
  linked : ∀ id row r identityId, v.db.getItem id = some row → some id ≠ spared →
    Refers x key identityId row r → LiveIdentity v identityId
  drawn : ∀ id row, v.db.getItem id = some row → Drawn v id

theorem Drawn.mono {id : Uuid} (h : Drawn v id) (hd : Draws v t) : Drawn t id := by
  obtain ⟨n, hn, hid⟩ := h
  refine ⟨n, hn.trans_le hd.draws, ?_⟩
  rw [hd.supply]
  exact hid

theorem linkedVault_calm (hv : LinkedVault x key v) (h : Calm key v t) : LinkedVault x key t where
  rows id row hrow := hv.rows id row ((h.rows id).symm.trans hrow)
  keyed := h.keyed

theorem LiveIdentity.calm {id : Uuid} (h : LiveIdentity v id) (hcalm : Calm key v t) :
    LiveIdentity t id := by
  obtain ⟨row, hrow, hrest⟩ := h
  exact ⟨row, (hcalm.rows id).trans hrow, hrest⟩

theorem Sound.keyed (hs : Sound x key spared v) : Keyed key v := hs.typed.keyed

theorem Sound.calm (hs : Sound x key spared v) (h : Calm key v t) : Sound x key spared t where
  typed := linkedVault_calm hs.typed h
  hosts id row r hrow := hs.hosts id row r ((h.rows id).symm.trans hrow)
  identities id row r hrow := hs.identities id row r ((h.rows id).symm.trans hrow)
  linked id row r identityId hrow hne hrefers :=
    (hs.linked id row r identityId ((h.rows id).symm.trans hrow) hne hrefers).calm h
  drawn id row hrow := (hs.drawn id row ((h.rows id).symm.trans hrow)).mono h.toDraws

/-- The next identifier is of no row. -/
theorem Sound.fresh (hs : Sound x key spared v) (hdistinct : DistinctDraws t) {n : ℕ}
    (hd : Draws v t) (hn : v.world.draws ≤ n) (hlt : n < t.world.draws) :
    v.db.getItem (v.world.uuidAt n) = none := by
  by_contra hsome
  obtain ⟨row, hrow⟩ := Option.ne_none_iff_exists'.1 hsome
  obtain ⟨m, hm, heq⟩ := hs.drawn _ row hrow
  rw [← hd.supply] at heq
  exact hdistinct m n (hm.trans_le hn) hlt heq

theorem Sound.spare (hs : Sound x key none v) (id : Option Uuid) : Sound x key id v :=
  { hs with linked := fun i row r j hrow _ => hs.linked i row r j hrow nofun }

/-- A spared host that is deleted refers to nothing. -/
theorem Sound.settle {id : Uuid} (hs : Sound x key (some id) v)
    (hdeleted : ∀ row, v.db.getItem id = some row → row.deleted = true) : Sound x key none v where
  typed := hs.typed
  hosts := hs.hosts
  identities := hs.identities
  drawn := hs.drawn
  linked i row r j hrow _ hrefers := by
    by_cases hi : i = id
    · subst hi
      have hlive := hrefers.live
      rw [hdeleted row hrow] at hlive
      cases hlive
    · exact hs.linked i row r j hrow (fun h => hi (Option.some.inj h)) hrefers

/-! ## One row -/

section Puts
variable {id : Uuid} {version : UInt64} {localOnly deleted : Bool} {w : ItemRow}

/-- A row is put in place of one of its kind. -/
theorem Sound.put (hs : Sound x key spared v) (htyped : LinkedVault x key t)
    (hput : Put key v t w) (hdrawn : Drawn t w.id)
    (hfree : ∀ old, v.db.getItem w.id = some old → old.kind = w.kind)
    (hhost : ∀ r, Holds x key x.texts.host w r → r.id = w.id)
    (hidentity : ∀ r, Holds x key x.texts.identity w r → r.id = w.id)
    (hlink : some w.id ≠ spared → ∀ r j, Refers x key j w r → LiveIdentity v j)
    (hunused : w.kind = .identity → w.deleted = true → ∀ i row r, v.db.getItem i = some row →
      some i ≠ spared → ¬ Refers x key w.id row r) : Sound x key spared t := by
  refine ⟨htyped, ?_, ?_, ?_, ?_⟩
  · intro i row r hrow hholds
    rw [hput.getItem] at hrow
    split at hrow
    · rename_i hi
      cases hrow
      exact (hhost r hholds).trans hi.symm
    · exact hs.hosts i row r hrow hholds
  · intro i row r hrow hholds
    rw [hput.getItem] at hrow
    split at hrow
    · rename_i hi
      cases hrow
      exact (hidentity r hholds).trans hi.symm
    · exact hs.identities i row r hrow hholds
  · intro i row r j hrow hne hrefers
    -- An identity that is put is not deleted, or nothing refers to it.
    have hkept : LiveIdentity v j ∧ (j = w.id → w.kind = .identity → w.deleted = false) := by
      rw [hput.getItem] at hrow
      split at hrow
      · rename_i hi
        cases hrow
        refine ⟨hlink (hi ▸ hne) r j hrefers, fun _ hkind => ?_⟩
        rw [hrefers.kind] at hkind
        cases hkind
      · refine ⟨hs.linked i row r j hrow hne hrefers, ?_⟩
        rintro rfl hkind
        by_contra hdeleted
        exact hunused hkind (Bool.eq_true_of_not_eq_false hdeleted) i row r hrow hne hrefers
    obtain ⟨⟨irow, hirow, hkind, hlive⟩, hlast⟩ := hkept
    by_cases hj : j = w.id
    · have hwkind : w.kind = .identity := (hfree irow (hj ▸ hirow)).symm.trans hkind
      exact ⟨w, (hput.getItem j).trans (if_pos hj), hwkind, hlast hj hwkind⟩
    · exact ⟨irow, (hput.getItem j).trans ((if_neg hj).trans hirow), hkind, hlive⟩
  · intro i row hrow
    rw [hput.getItem] at hrow
    split at hrow
    · rename_i hi
      exact hi ▸ hdrawn
    · exact (hs.drawn i row hrow).mono hput.toDraws

theorem Sound.put_host (hs : Sound x key spared v) {value : HostRecord}
    (htyped : LinkedVault x key t) (hput : Put key v t w)
    (hw : Stores x key x.texts.host id .host version localOnly deleted value w)
    (hid : value.id = id) (hdrawn : Drawn t id)
    (hfree : ∀ old, v.db.getItem id = some old → old.kind = .host)
    (hlink : deleted = false → some id ≠ spared →
      ∀ identityId, value.identityId = some identityId → LiveIdentity v identityId) :
    Sound x key spared t := by
  obtain rfl := hw.id
  refine hs.put htyped hput hdrawn (fun old hold => (hfree old hold).trans hw.kind.symm)
    (fun r hr => ?_) (fun r hr => ?_) (fun hne r j hr => ?_) fun hkind => ?_
  · rw [RunningSessions.Holds.unique hr hw.holds]
    exact hid
  · have hkind := identity_of_holds htyped hput.stored hr
    rw [hw.kind] at hkind
    cases hkind
  · refine hlink (hw.deleted.symm.trans hr.live) hne j ?_
    rw [← RunningSessions.Holds.unique hr.holds hw.holds]
    exact hr.identity
  · rw [hw.kind] at hkind
    cases hkind

theorem Sound.put_identity (hs : Sound x key spared v) {value : IdentityRecord}
    (htyped : LinkedVault x key t) (hput : Put key v t w)
    (hw : Stores x key x.texts.identity id .identity version localOnly deleted value w)
    (hid : value.id = id) (hdrawn : Drawn t id)
    (hfree : ∀ old, v.db.getItem id = some old → old.kind = .identity)
    (hunused : deleted = true → ∀ i row r, v.db.getItem i = some row → some i ≠ spared →
      ¬ Refers x key id row r) : Sound x key spared t := by
  obtain rfl := hw.id
  refine hs.put htyped hput hdrawn (fun old hold => (hfree old hold).trans hw.kind.symm)
    (fun r hr => ?_) (fun r hr => ?_) (fun _ r j hr => ?_)
    fun _ hdeleted => hunused (hw.deleted.symm.trans hdeleted)
  · have hkind := host_of_holds htyped hput.stored hr
    rw [hw.kind] at hkind
    cases hkind
  · rw [RunningSessions.Holds.unique hr hw.holds]
    exact hid
  · have hkind := hr.kind
    rw [hw.kind] at hkind
    cases hkind

theorem Sound.put_apiKey (hs : Sound x key spared v) {value : ApiKeyRecord}
    (htyped : LinkedVault x key t) (hput : Put key v t w)
    (hw : Stores x key x.texts.apiKey id .apiKey version localOnly deleted value w)
    (hdrawn : Drawn t id) (hfree : ∀ old, v.db.getItem id = some old → old.kind = .apiKey) :
    Sound x key spared t := by
  have hother : ∀ {kind : ItemKind}, w.kind = kind → kind = .apiKey := fun hkind =>
    hkind.symm.trans hw.kind
  obtain rfl := hw.id
  refine hs.put htyped hput hdrawn (fun old hold => (hfree old hold).trans hw.kind.symm)
    (fun r hr => ?_) (fun r hr => ?_) (fun _ r j hr => ?_) fun hkind => ?_
  · cases hother (host_of_holds htyped hput.stored hr)
  · cases hother (identity_of_holds htyped hput.stored hr)
  · cases hother hr.kind
  · cases hother hkind

theorem Sound.putHost (hc : x.aead.Correct) (hs : Sound x key spared v) {value : HostRecord}
    (h : (putHostRecord x id version deleted value).run v = (.ok (), t)) (hid : value.id = id)
    (hdrawn : Drawn v id) (hfree : ∀ old, v.db.getItem id = some old → old.kind = .host)
    (hlink : deleted = false → some id ≠ spared →
      ∀ identityId, value.identityId = some identityId → LiveIdentity v identityId) :
    Sound x key spared t ∧
      ∃ w, Stores x key x.texts.host id .host version false deleted value w ∧ Put key v t w := by
  have htyped := ((yields_putHost hc id version deleted value).run hs.typed).1
  rw [h] at htyped
  obtain ⟨w, hw, hput⟩ := put_ok hc hs.keyed h
  exact ⟨hs.put_host htyped hput hw hid (hdrawn.mono hput.toDraws) hfree hlink, w, hw, hput⟩

theorem Sound.putIdentity (hc : x.aead.Correct) (hs : Sound x key spared v)
    {value : IdentityRecord} (hlocal : localOnly = !value.syncSecret)
    (h : (putIdentity x id version localOnly deleted value).run v = (.ok (), t))
    (hid : value.id = id) (hdrawn : Drawn v id)
    (hfree : ∀ old, v.db.getItem id = some old → old.kind = .identity)
    (hunused : deleted = true → ∀ i row r, v.db.getItem i = some row → some i ≠ spared →
      ¬ Refers x key id row r) :
    Sound x key spared t ∧ ∃ w, Stores x key x.texts.identity id .identity version localOnly
      deleted value w ∧ Put key v t w := by
  have htyped := ((yields_putIdentity hc id version deleted hlocal).run hs.typed).1
  rw [h] at htyped
  obtain ⟨w, hw, hput⟩ := put_ok hc hs.keyed h
  exact ⟨hs.put_identity htyped hput hw hid (hdrawn.mono hput.toDraws) hfree hunused, w, hw, hput⟩

theorem Sound.putApiKey (hc : x.aead.Correct) (hs : Sound x key spared v)
    {value : ApiKeyRecord} (hlocal : localOnly = !value.syncSecret)
    (h : (putApiKeyRecord x id version localOnly deleted value).run v = (.ok (), t))
    (hdrawn : Drawn v id) (hfree : ∀ old, v.db.getItem id = some old → old.kind = .apiKey) :
    Sound x key spared t := by
  have htyped := ((yields_putApiKey hc id version deleted hlocal).run hs.typed).1
  rw [h] at htyped
  obtain ⟨w, hw, hput⟩ := put_ok hc hs.keyed h
  exact hs.put_apiKey htyped hput hw (hdrawn.mono hput.toDraws) hfree

end Puts

/-! ## The operations -/

section Operations
variable {id : Uuid}

/-- A new identity is of no row, and live once it is stored. -/
theorem Sound.newIdentity (hc : x.aead.Correct) (hs : Sound x key none v)
    {value : IdentityRecord} {localOnly : Bool} (hlocal : localOnly = !value.syncSecret)
    (hnone : v.db.getItem id = none) (hdrawn : Drawn v id) (hid : value.id = id)
    (h : (VaultRepository.putIdentity x id 1 localOnly false value).run v = (.ok (), t)) :
    Sound x key none t ∧ LiveIdentity t id ∧ Draws v t ∧
      ∀ i, i ≠ id → t.db.getItem i = v.db.getItem i := by
  obtain ⟨hs', w, hw, hput⟩ := hs.putIdentity hc hlocal h hid hdrawn
    (fun old hold => by rw [hnone] at hold; cases hold) fun hd => by cases hd
  refine ⟨hs', ⟨w, ?_, hw.kind, hw.deleted⟩, hput.toDraws, fun i hi => ?_⟩
  · rw [hput.getItem, if_pos hw.id.symm]
  · rw [hput.getItem, if_neg (hw.id ▸ hi)]

/-- The identifier that is drawn next. -/
theorem Sound.next (hs : Sound x key none v) (hdistinct : DistinctDraws t) (hd : Draws u t)
    (hcalm : Calm key v u) (hlt : v.world.draws < u.world.draws) :
    u.db.getItem (v.world.uuidAt v.world.draws) = none ∧ Drawn u (v.world.uuidAt v.world.draws) ∧
      ∀ n < v.world.draws, v.world.uuidAt n ≠ v.world.uuidAt v.world.draws := by
  have hvt := hcalm.toDraws.trans hd
  refine ⟨?_, ⟨_, hlt, congrFun hcalm.supply _⟩, fun n hn => ?_⟩
  · rw [hcalm.rows]
    exact hs.fresh hdistinct hvt (le_refl _) (hlt.trans_le hd.draws)
  · rw [← hvt.supply]
    exact hdistinct n _ hn (hlt.trans_le hd.draws)

theorem createHostIdentity_ok (hc : x.aead.Correct) (hs : Sound x key none v)
    {request : CreateHostRequest} {identityId : Option Uuid}
    (h : (createHostIdentity x request).run v = (.ok identityId, t)) (hdistinct : DistinctDraws t) :
    Sound x key none t ∧ (∀ i, identityId = some i → LiveIdentity t i) ∧ Draws v t ∧
      ∀ n < v.world.draws, t.db.getItem (v.world.uuidAt n) = v.db.getItem (v.world.uuidAt n) := by
  unfold createHostIdentity at h
  split at h
  · rename_i i hchosen
    obtain ⟨⟨identity, row⟩, v₁, hget, h⟩ := run_bind_eq_ok.1 h
    obtain ⟨hrow, hlive, hholds, hcalm⟩ := get_ok hs.keyed (Program.run_mapError_eq_ok hget)
    dsimp only at h
    split at h
    · obtain ⟨rfl, rfl⟩ := pure_ok h
      refine ⟨hs.calm hcalm, fun j hj => ?_, hcalm.toDraws, fun n _ => hcalm.rows _⟩
      cases hj
      exact LiveIdentity.calm ⟨row, hrow, identity_of_holds hs.typed hrow hholds, hlive⟩ hcalm
    · exact (failed_ok h).elim
  · rename_i password hid hpassword
    obtain ⟨i, v₁, hi, h⟩ := run_bind_eq_ok.1 h
    obtain ⟨hnext, hlt, hcalm⟩ := draw_ok hs.keyed hi
    obtain ⟨⟨⟩, v₂, hputs, h⟩ := run_bind_eq_ok.1 h
    obtain ⟨rfl, rfl⟩ := pure_ok h
    have hd := draws_run (acting_draws.put _ _ _ _ _ _ _) hputs
    obtain ⟨hnone, hdrawn, hne⟩ := hs.next hdistinct hd hcalm hlt
    rw [← hnext] at hnone hdrawn hne
    obtain ⟨hs', hlive, -, hframe⟩ := (hs.calm hcalm).newIdentity hc rfl hnone hdrawn rfl hputs
    refine ⟨hs', fun j hj => ?_, hcalm.toDraws.trans hd, fun n hn => ?_⟩
    · cases hj
      exact hlive
    · rw [hframe _ (hne n hn), hcalm.rows]
  · obtain ⟨rfl, rfl⟩ := pure_ok h
    exact ⟨hs, fun j hj => (by cases hj), Draws.refl _, fun _ _ => rfl⟩

theorem createHost_sound (hc : x.aead.Correct) (hs : Sound x key none v)
    {request : CreateHostRequest} {summary : HostSummary}
    (h : (createHost x request).run v = (.ok summary, t)) (hdistinct : DistinctDraws t) :
    Sound x key none t := by
  obtain ⟨hostId, v₁, hdraw, h⟩ := run_bind_eq_ok.1 h
  obtain ⟨hnext, hlt, hcalm⟩ := draw_ok hs.keyed hdraw
  obtain ⟨color, v₂, hcolor, h⟩ := run_bind_eq_ok.1 h
  obtain ⟨-, rfl⟩ := computed_ok hcolor
  obtain ⟨identityId, v₃, hidentity, h⟩ := run_bind_eq_ok.1 h
  obtain ⟨⟨⟩, v₄, hput, h⟩ := run_bind_eq_ok.1 h
  have hput₄ := draws_run (acting_draws.put _ _ _ _ _ _ _) hput
  have hlast := draws_run (acting_draws.summarizeHost _) h
  obtain ⟨hs₃, hlive, hd₃, hframe⟩ := createHostIdentity_ok hc (hs.calm hcalm) hidentity
    (hdistinct.mono (hput₄.trans hlast))
  obtain ⟨hnone, hdrawn, -⟩ := hs.next hdistinct (hd₃.trans (hput₄.trans hlast)) hcalm hlt
  rw [← hnext] at hnone hdrawn
  have hnone₃ : v₃.db.getItem hostId = none := by
    have hsame := hframe v.world.draws hlt
    rw [hcalm.supply, ← hnext] at hsame
    exact hsame.trans hnone
  obtain ⟨hs₄, -⟩ := hs₃.putHost hc hput rfl (hdrawn.mono hd₃)
    (fun old hold => by cases hnone₃.symm.trans hold) fun _ _ j hj => hlive j hj
  exact hs₄.calm (calm_of_each (reading_calms.summarizeHost _) hs₄.keyed h)

/-- A put of an identity leaves the hosts. -/
theorem hosts_of_put {i : Uuid} {version : UInt64} {localOnly deleted : Bool}
    {value : IdentityRecord} {w row : ItemRow}
    (hw : Stores x key x.texts.identity id .identity version localOnly deleted value w)
    (hput : Put key v t w) (hfree : ∀ old, v.db.getItem id = some old → old.kind = .identity)
    (hrow : v.db.getItem i = some row) (hkind : row.kind = .host) :
    t.db.getItem i = some row := by
  rw [hput.getItem, if_neg, hrow]
  rintro rfl
  rw [hw.id] at hrow
  rw [hfree row hrow] at hkind
  cases hkind

theorem LiveIdentity.kind {i : Uuid} (h : LiveIdentity v i) {old : ItemRow}
    (hold : v.db.getItem i = some old) : old.kind = .identity := by
  obtain ⟨row, hrow, hkind, -⟩ := h
  rw [hrow, Option.some.injEq] at hold
  exact hold ▸ hkind

/-- The identity of a host is replaced in place. -/
theorem Sound.replaceIdentity (hc : x.aead.Correct) (hs : Sound x key none v)
    (hlive : LiveIdentity v id) {version : UInt64} {localOnly : Bool} {value : IdentityRecord}
    (hlocal : localOnly = !value.syncSecret) (hid : value.id = id)
    (h : (VaultRepository.putIdentity x id version localOnly false value).run v = (.ok (), t)) :
    Sound x key none t ∧ LiveIdentity t id ∧ Draws v t ∧
      ∀ i row, v.db.getItem i = some row → row.kind = .host → t.db.getItem i = some row := by
  obtain ⟨row, hrow, hrest⟩ := hlive
  have hlive : LiveIdentity v id := ⟨row, hrow, hrest⟩
  obtain ⟨hs', w, hw, hput⟩ := hs.putIdentity hc hlocal h hid (hs.drawn id row hrow)
    (fun old hold => hlive.kind hold) fun hd => by cases hd
  refine ⟨hs', ⟨w, ?_, hw.kind, hw.deleted⟩, hput.toDraws, fun i row hrow hkind => ?_⟩
  · rw [hput.getItem, if_pos hw.id.symm]
  · exact hosts_of_put hw hput (fun old hold => hlive.kind hold) hrow hkind

theorem updateHostIdentity_ok (hc : x.aead.Correct) (hs : Sound x key none v)
    {record : HostRecord} {request : CreateHostRequest} {identityId : Option Uuid}
    (hrecord : ∀ i, record.identityId = some i → LiveIdentity v i)
    (h : (updateHostIdentity x record request).run v = (.ok identityId, t))
    (hdistinct : DistinctDraws t) :
    Sound x key none t ∧ (∀ i, identityId = some i → LiveIdentity t i) ∧
      ∀ i row, v.db.getItem i = some row → row.kind = .host → t.db.getItem i = some row := by
  have hcalmly : ∀ {u : Vault} {i : Uuid}, Calm key v u → LiveIdentity v i →
      Sound x key none u ∧ (∀ j, some i = some j → LiveIdentity u j) ∧
        ∀ j row, v.db.getItem j = some row → row.kind = .host → u.db.getItem j = some row := by
    intro u i hcalm hlive
    refine ⟨hs.calm hcalm, fun j hj => ?_, fun j row hrow _ => (hcalm.rows j).trans hrow⟩
    cases hj
    exact hlive.calm hcalm
  unfold updateHostIdentity at h
  split at h
  · obtain ⟨⟨identity, row⟩, v₁, hget, h⟩ := run_bind_eq_ok.1 h
    obtain ⟨hrow, hlive, hholds, hcalm⟩ := get_ok hs.keyed (Program.run_mapError_eq_ok hget)
    obtain ⟨rfl, rfl⟩ := pure_ok h
    exact hcalmly hcalm ⟨row, hrow, identity_of_holds hs.typed hrow hholds, hlive⟩
  · rename_i password i hid hpassword hidentity
    obtain ⟨version, v₁, hversion, h⟩ := run_bind_eq_ok.1 h
    obtain ⟨-, hcalm⟩ := nextVersion_ok hs.keyed hversion
    obtain ⟨⟨⟩, v₂, hputs, h⟩ := run_bind_eq_ok.1 h
    obtain ⟨rfl, rfl⟩ := pure_ok h
    obtain ⟨hs', hlive, -, hframe⟩ := (hs.calm hcalm).replaceIdentity hc
      ((hrecord i hidentity).calm hcalm) rfl rfl hputs
    refine ⟨hs', fun j hj => ?_, fun j row hrow => hframe j row ((hcalm.rows j).trans hrow)⟩
    cases hj
    exact hlive
  · obtain ⟨i, v₁, hi, h⟩ := run_bind_eq_ok.1 h
    obtain ⟨hnext, hlt, hcalm⟩ := draw_ok hs.keyed hi
    obtain ⟨⟨⟩, v₂, hputs, h⟩ := run_bind_eq_ok.1 h
    obtain ⟨rfl, rfl⟩ := pure_ok h
    have hd := draws_run (acting_draws.put _ _ _ _ _ _ _) hputs
    obtain ⟨hnone, hdrawn, -⟩ := hs.next hdistinct hd hcalm hlt
    rw [← hnext] at hnone hdrawn
    obtain ⟨hs', hlive, -, hframe⟩ := (hs.calm hcalm).newIdentity hc rfl hnone hdrawn rfl hputs
    refine ⟨hs', fun j hj => ?_, fun j row hrow _ => ?_⟩
    · cases hj
      exact hlive
    · have hv₁ := (hcalm.rows j).trans hrow
      rw [hframe j, hv₁]
      rintro rfl
      rw [hnone] at hv₁
      cases hv₁
  · rename_i i hid hpassword hidentity
    obtain ⟨found, v₁, hfound, h⟩ := run_bind_eq_ok.1 h
    have hcalm := calm_of_each (reading_calms.attempted (reading_calms.get _ _)) hs.keyed hfound
    rw [Program.run_attempt, Prod.mk.injEq, Except.ok.injEq] at hfound
    split at h
    · rename_i i' label password slot row
      have hgot := get_ok hs.keyed (Prod.ext hfound.1 rfl)
      have hi' : i' = i := hs.identities i row _ hgot.1 hgot.2.2.1
      split at h
      · obtain ⟨rfl, rfl⟩ := pure_ok h
        exact hcalmly hcalm (hrecord i hidentity)
      · obtain ⟨⟨⟩, v₂, hputs, h⟩ := run_bind_eq_ok.1 h
        obtain ⟨rfl, rfl⟩ := pure_ok h
        obtain ⟨hs', hlive, -, hframe⟩ := (hs.calm hcalm).replaceIdentity hc
          ((hrecord i hidentity).calm hcalm) rfl
          (show IdentityRecord.id (.password i' label password request.syncSecret) = i from hi')
          hputs
        refine ⟨hs', fun j hj => ?_, fun j row hrow => hframe j row ((hcalm.rows j).trans hrow)⟩
        cases hj
        exact hlive
    · obtain ⟨rfl, rfl⟩ := pure_ok h
      exact hcalmly hcalm (hrecord i hidentity)
  · obtain ⟨rfl, rfl⟩ := pure_ok h
    exact ⟨hs, fun j hj => (by cases hj), fun _ _ hrow _ => hrow⟩

/-- The identity of a live host. -/
theorem Sound.identityOf (hs : Sound x key none v) {row : ItemRow} {record : HostRecord}
    (hrow : v.db.getItem id = some row) (hlive : row.deleted = false)
    (hholds : Holds x key x.texts.host row record) :
    ∀ i, record.identityId = some i → LiveIdentity v i := fun i hi =>
  hs.linked id row record i hrow nofun ⟨host_of_holds hs.typed hrow hholds, hlive, hholds, hi⟩

theorem updateHost_sound (hc : x.aead.Correct) (hs : Sound x key none v)
    {request : CreateHostRequest} {summary : HostSummary}
    (h : (updateHost x id request).run v = (.ok summary, t)) (hdistinct : DistinctDraws t) :
    Sound x key none t := by
  obtain ⟨⟨record, row⟩, v₁, hget, h⟩ := run_bind_eq_ok.1 h
  obtain ⟨hrow, hlive, hholds, hcalm⟩ := get_ok hs.keyed hget
  obtain ⟨⟨⟩, v₂, hcheck, h⟩ := run_bind_eq_ok.1 h
  obtain ⟨hkind, rfl⟩ := checkKind_ok hcheck
  obtain ⟨color, v₃, hcolor, h⟩ := run_bind_eq_ok.1 h
  obtain ⟨-, rfl⟩ := computed_ok hcolor
  obtain ⟨identityId, v₄, hidentity, h⟩ := run_bind_eq_ok.1 h
  obtain ⟨⟨⟩, v₅, hput, h⟩ := run_bind_eq_ok.1 h
  have hlater := (draws_run (acting_draws.put _ _ _ _ _ _ _) hput).trans
    (draws_run (acting_draws.summarizeHost _) h)
  obtain ⟨hs₄, hlive₄, hframe⟩ := updateHostIdentity_ok hc (hs.calm hcalm)
    (fun i hi => (hs.identityOf hrow hlive hholds i hi).calm hcalm) hidentity
    (hdistinct.mono hlater)
  have hrow₄ := hframe id row ((hcalm.rows id).trans hrow) hkind
  obtain ⟨hs₅, -⟩ := hs₄.putHost hc hput (hs.hosts id row record hrow hholds)
    (hs₄.drawn id row hrow₄) (fun old hold => by cases hrow₄.symm.trans hold; exact hkind)
    fun _ _ j hj => hlive₄ j hj
  exact hs₅.calm (calm_of_each (reading_calms.summarizeHost _) hs₅.keyed h)

/-- A host is stored again with the identity it had. -/
theorem Sound.rewriteHost (hc : x.aead.Correct) (hs : Sound x key none v) {row : ItemRow}
    {record : HostRecord} (value : HostRecord) {version : UInt64}
    (hrow : v.db.getItem id = some row)
    (hlive : row.deleted = false) (hholds : Holds x key x.texts.host row record)
    (hid : value.id = record.id)
    (hidentity : value.identityId = record.identityId ∨ value.identityId = none)
    (h : (putHostRecord x id version false value).run v = (.ok (), t)) : Sound x key none t := by
  refine (hs.putHost hc h (hid.trans (hs.hosts id row record hrow hholds)) (hs.drawn id row hrow)
    (fun old hold => ?_) fun _ _ j hj => ?_).1
  · cases hrow.symm.trans hold
    exact host_of_holds hs.typed hrow hholds
  · obtain heq | hnone := hidentity
    · exact hs.identityOf hrow hlive hholds j (heq.symm.trans hj)
    · cases hnone.symm.trans hj

theorem setHostTags_sound (hc : x.aead.Correct) (hs : Sound x key none v) {tags : List String}
    {summary : HostSummary} (h : (setHostTags x id tags).run v = (.ok summary, t)) :
    Sound x key none t := by
  obtain ⟨⟨record, row⟩, v₁, hget, h⟩ := run_bind_eq_ok.1 h
  obtain ⟨hrow, hlive, hholds, hcalm⟩ := get_ok hs.keyed hget
  obtain ⟨⟨⟩, v₂, hcheck, h⟩ := run_bind_eq_ok.1 h
  obtain ⟨-, rfl⟩ := checkKind_ok hcheck
  obtain ⟨⟨⟩, v₃, hput, h⟩ := run_bind_eq_ok.1 h
  have hs₃ := (hs.calm hcalm).rewriteHost hc { record with tags := cleanTags tags }
    ((hcalm.rows id).trans hrow) hlive hholds rfl (Or.inl rfl) hput
  exact hs₃.calm (calm_of_each (reading_calms.summarizeHost _) hs₃.keyed h)

theorem touchHostConnected_sound (hc : x.aead.Correct) (hs : Sound x key none v)
    {summary : HostSummary} (h : (touchHostConnected x id).run v = (.ok summary, t)) :
    Sound x key none t := by
  obtain ⟨⟨record, row⟩, v₁, hget, h⟩ := run_bind_eq_ok.1 h
  obtain ⟨hrow, hlive, hholds, hcalm⟩ := get_ok hs.keyed hget
  obtain ⟨⟨⟩, v₂, hcheck, h⟩ := run_bind_eq_ok.1 h
  obtain ⟨-, rfl⟩ := checkKind_ok hcheck
  obtain ⟨now, v₃, hnow, h⟩ := run_bind_eq_ok.1 h
  have hcalm₃ := hcalm.trans (calm_of_lift (calms_read _) hcalm.keyed hnow)
  obtain ⟨⟨⟩, v₄, hput, h⟩ := run_bind_eq_ok.1 h
  have hs₄ := (hs.calm hcalm₃).rewriteHost hc
    { record with lastConnectedAt := some now } ((hcalm₃.rows id).trans hrow) hlive hholds rfl
    (Or.inl rfl) hput
  exact hs₄.calm (calm_of_each (reading_calms.summarizeHost _) hs₄.keyed h)

theorem setKnownHostKey_sound (hc : x.aead.Correct) (hs : Sound x key none v)
    {hostKey : KnownHostKey} (h : (setKnownHostKey x id hostKey).run v = (.ok (), t)) :
    Sound x key none t := by
  obtain ⟨⟨record, row⟩, v₁, hget, h⟩ := run_bind_eq_ok.1 h
  obtain ⟨hrow, hlive, hholds, hcalm⟩ := get_ok hs.keyed (Program.run_mapError_eq_ok hget)
  exact (hs.calm hcalm).rewriteHost hc { record with knownHostKey := some hostKey }
    ((hcalm.rows id).trans hrow) hlive hholds rfl (Or.inl rfl) h

theorem deleteHostIdentity_ok (hc : x.aead.Correct) (hs : Sound x key none v) {row : ItemRow}
    {record : HostRecord} (hrow : v.db.getItem id = some row) (hlive : row.deleted = false)
    (hholds : Holds x key x.texts.host row record)
    (h : (deleteHostIdentity x id record.identityId).run v = (.ok (), t)) :
    Sound x key (some id) t ∧ t.db.getItem id = some row := by
  have hkind := host_of_holds hs.typed hrow hholds
  unfold deleteHostIdentity at h
  split at h
  · obtain ⟨-, rfl⟩ := pure_ok h
    exact ⟨hs.spare _, hrow⟩
  · rename_i i hidentity
    have hi : LiveIdentity v i := hs.identityOf hrow hlive hholds i hidentity
    obtain ⟨dependents, v₁, hdependents, h⟩ := run_bind_eq_ok.1 h
    obtain ⟨hcalm, hmem⟩ := hostsUsingIdentity_ok hs.keyed hdependents
    split at h
    · rename_i honly
      obtain ⟨found, v₂, hfound, h⟩ := run_bind_eq_ok.1 h
      have hcalm₂ := hcalm.trans (calm_of_each (reading_calms.attempted (reading_calms.get _ _))
        hcalm.keyed hfound)
      rw [Program.run_attempt, Prod.mk.injEq, Except.ok.injEq] at hfound
      split at h
      · rename_i identity irow
        obtain ⟨hirow, hilive, hiholds, -⟩ := get_ok hcalm.keyed (Prod.ext hfound.1 rfl)
        rw [hcalm.rows] at hirow
        have hi₂ := hi.calm hcalm₂
        obtain ⟨hs', w, hw, hput⟩ := ((hs.calm hcalm₂).spare (some id)).putIdentity hc rfl h
          (hs.identities i irow identity hirow hiholds)
          ((hs.drawn i irow hirow).mono hcalm₂.toDraws) (fun old hold => hi₂.kind hold)
          fun _ k krow r hkrow hne hrefers => by
            rw [hcalm₂.rows] at hkrow
            have hk : k ∈ dependents.map Prod.fst :=
              (hmem k).2 ⟨krow, r, VaultDb.getItem_id hkrow ▸ hkrow, hrefers,
                hs.hosts k krow r hkrow hrefers.holds⟩
            rw [honly, List.mem_singleton] at hk
            exact hne (congrArg some hk)
        exact ⟨hs', hosts_of_put hw hput (fun old hold => hi₂.kind hold)
          ((hcalm₂.rows id).trans hrow) hkind⟩
      · obtain ⟨-, rfl⟩ := pure_ok h
        exact ⟨(hs.calm hcalm₂).spare _, (hcalm₂.rows id).trans hrow⟩
    · obtain ⟨-, rfl⟩ := pure_ok h
      exact ⟨(hs.calm hcalm).spare _, (hcalm.rows id).trans hrow⟩

theorem deleteHost_sound (hc : x.aead.Correct) (hs : Sound x key none v)
    (h : (deleteHost x id).run v = (.ok (), t)) : Sound x key none t := by
  obtain ⟨⟨record, row⟩, v₁, hget, h⟩ := run_bind_eq_ok.1 h
  obtain ⟨hrow, hlive, hholds, hcalm⟩ := get_ok hs.keyed hget
  obtain ⟨⟨⟩, v₂, hidentity, h⟩ := run_bind_eq_ok.1 h
  obtain ⟨hs₂, hrow₂⟩ := deleteHostIdentity_ok hc (hs.calm hcalm) ((hcalm.rows id).trans hrow)
    hlive hholds hidentity
  obtain ⟨hs₃, w, hw, hput⟩ := hs₂.putHost hc h (hs.hosts id row record hrow hholds)
    (hs₂.drawn id row hrow₂)
    (fun old hold => by cases hrow₂.symm.trans hold; exact host_of_holds hs.typed hrow hholds)
    fun hd => by cases hd
  refine hs₃.settle fun old hold => ?_
  rw [hput.getItem, if_pos hw.id.symm, Option.some.injEq] at hold
  rw [← hold]
  exact hw.deleted

/-- An identity keeps its identifier. -/
theorem Sound.rewriteIdentity (hc : x.aead.Correct) (hs : Sound x key none v) {row : ItemRow}
    {record : IdentityRecord} (value : IdentityRecord) {version : UInt64} {localOnly : Bool}
    (hrow : v.db.getItem id = some row) (hlive : row.deleted = false)
    (hholds : Holds x key x.texts.identity row record) (hid : value.id = record.id)
    (hlocal : localOnly = !value.syncSecret)
    (h : (VaultRepository.putIdentity x id version localOnly false value).run v = (.ok (), t)) :
    Sound x key none t :=
  (hs.replaceIdentity hc ⟨row, hrow, identity_of_holds hs.typed hrow hholds, hlive⟩ hlocal
    (hid.trans (hs.identities id row record hrow hholds)) h).1

theorem requireLabel_ok {label trimmed : String} (hv : Keyed key v)
    (h : (requireLabel label).run v = (.ok trimmed, t)) : Calm key v t := by
  unfold requireLabel at h
  split at h
  · exact (failed_ok h).elim
  · obtain ⟨-, rfl⟩ := pure_ok h
    exact Calm.refl hv

theorem importSshKeyIdentity_sound (hc : x.aead.Correct) (hs : Sound x key none v)
    {label : String} {keyBytes : Bytes} {passphrase : Option String}
    {rememberPassphrase syncSecret : Bool} {summary : IdentitySummary}
    (h : (importSshKeyIdentity x label keyBytes passphrase rememberPassphrase syncSecret).run v =
      (.ok summary, t)) (hdistinct : DistinctDraws t) : Sound x key none t := by
  obtain ⟨trimmed, v₁, hlabel, h⟩ := run_bind_eq_ok.1 h
  have hcalm₁ := requireLabel_ok hs.keyed hlabel
  obtain ⟨parsed, v₂, hparsed, h⟩ := run_bind_eq_ok.1 h
  obtain ⟨-, rfl⟩ := computed_ok hparsed
  split at h
  · exact (failed_ok h).elim
  · obtain ⟨i, v₃, hi, h⟩ := run_bind_eq_ok.1 h
    obtain ⟨hnext, hlt, hcalm⟩ := draw_ok hcalm₁.keyed hi
    obtain ⟨createdAt, v₄, hcreated, h⟩ := run_bind_eq_ok.1 h
    have hcalm₄ := calm_of_lift (calms_read _) hcalm.keyed hcreated
    obtain ⟨⟨⟩, v₅, hput, h⟩ := run_bind_eq_ok.1 h
    have hd := (hcalm₄.toDraws.trans (draws_run (acting_draws.put _ _ _ _ _ _ _) hput)).trans
      (draws_run (acting_draws.identityToSummary _) h)
    obtain ⟨hnone, hdrawn, -⟩ := (hs.calm hcalm₁).next hdistinct hd hcalm hlt
    rw [← hnext] at hnone hdrawn
    obtain ⟨hs₅, -⟩ := (((hs.calm hcalm₁).calm hcalm).calm hcalm₄).newIdentity hc rfl
      ((hcalm₄.rows i).trans hnone) (hdrawn.mono hcalm₄.toDraws) rfl hput
    exact hs₅.calm (calm_of_each (reading_calms.identityToSummary _) hs₅.keyed h)

theorem renameIdentity_sound (hc : x.aead.Correct) (hs : Sound x key none v) {label : String}
    {summary : IdentitySummary} (h : (renameIdentity x id label).run v = (.ok summary, t)) :
    Sound x key none t := by
  obtain ⟨trimmed, v₁, hlabel, h⟩ := run_bind_eq_ok.1 h
  have hcalm₁ := requireLabel_ok hs.keyed hlabel
  obtain ⟨⟨identity, row⟩, v₂, hget, h⟩ := run_bind_eq_ok.1 h
  obtain ⟨hrow, hlive, hholds, hcalm₂⟩ := get_ok hcalm₁.keyed hget
  obtain ⟨⟨⟩, v₃, hcheck, h⟩ := run_bind_eq_ok.1 h
  obtain ⟨-, rfl⟩ := checkKind_ok hcheck
  obtain ⟨⟨⟩, v₄, hput, h⟩ := run_bind_eq_ok.1 h
  have hs₄ := ((hs.calm hcalm₁).calm hcalm₂).rewriteIdentity hc (identity.setLabel trimmed)
    ((hcalm₂.rows id).trans hrow) hlive hholds (by cases identity <;> rfl) rfl hput
  exact hs₄.calm (calm_of_each (reading_calms.identityToSummary _) hs₄.keyed h)

theorem setIdentitySyncSecret_sound (hc : x.aead.Correct) (hs : Sound x key none v)
    {syncSecret : Bool} {summary : IdentitySummary}
    (h : (setIdentitySyncSecret x id syncSecret).run v = (.ok summary, t)) :
    Sound x key none t := by
  obtain ⟨⟨identity, row⟩, v₁, hget, h⟩ := run_bind_eq_ok.1 h
  obtain ⟨hrow, hlive, hholds, hcalm₁⟩ := get_ok hs.keyed hget
  obtain ⟨⟨⟩, v₂, hcheck, h⟩ := run_bind_eq_ok.1 h
  obtain ⟨-, rfl⟩ := checkKind_ok hcheck
  obtain ⟨⟨⟩, v₃, hput, h⟩ := run_bind_eq_ok.1 h
  have hs₃ := (hs.calm hcalm₁).rewriteIdentity hc (identity.setSyncSecret syncSecret)
    ((hcalm₁.rows id).trans hrow) hlive hholds (by cases identity <;> rfl)
    (by rw [IdentityRecord.syncSecret_setSyncSecret]) hput
  exact hs₃.calm (calm_of_each (reading_calms.identityToSummary _) hs₃.keyed h)

/-- No host that is detached refers to anything; the others, and the identities, stay. -/
theorem detachHosts_ok (hc : x.aead.Correct) (hs : Sound x key none v)
    {hosts : List (Uuid × String)} (h : (detachHosts x hosts).run v = (.ok (), t)) :
    Sound x key none t ∧
      (∀ i row r j, t.db.getItem i = some row → Refers x key j row r →
        i ∉ hosts.map Prod.fst ∧ v.db.getItem i = some row) ∧
      ∀ i row, v.db.getItem i = some row → row.kind = .identity → t.db.getItem i = some row := by
  induction hosts generalizing v with
  | nil =>
    obtain ⟨-, rfl⟩ := pure_ok h
    exact ⟨hs, fun i row r j hrow _ => ⟨List.not_mem_nil, hrow⟩, fun i row hrow _ => hrow⟩
  | cons entry hosts ih =>
    obtain ⟨hostId, label⟩ := entry
    obtain ⟨⟨host, row⟩, v₁, hget, h⟩ := run_bind_eq_ok.1 h
    obtain ⟨hrow, hlive, hholds, hcalm⟩ := get_ok hs.keyed hget
    obtain ⟨⟨⟩, v₂, hput, h⟩ := run_bind_eq_ok.1 h
    have hrow₁ := (hcalm.rows hostId).trans hrow
    have hs₁ := hs.calm hcalm
    obtain ⟨hs₂, w, hw, hputs⟩ := hs₁.putHost hc hput
      (hs.hosts hostId row host hrow hholds) (hs₁.drawn hostId row hrow₁)
      (fun old hold => by cases hrow₁.symm.trans hold; exact host_of_holds hs.typed hrow hholds)
      fun _ _ j hj => by cases hj
    have hstored : ∀ i, v₂.db.getItem i = if i = hostId then some w else v.db.getItem i := by
      intro i
      rw [hputs.getItem, hw.id, hcalm.rows]
    obtain ⟨hst, hrefers, hidentities⟩ := ih hs₂ h
    refine ⟨hst, fun i irow r j hirow hr => ?_, fun i irow hirow hkind => ?_⟩
    · obtain ⟨hnot, hkept⟩ := hrefers i irow r j hirow hr
      rw [hstored] at hkept
      split at hkept
      · cases hkept
        have hnone := hr.identity
        rw [RunningSessions.Holds.unique hr.holds hw.holds] at hnone
        cases hnone
      · rename_i hne
        exact ⟨fun hmem => (List.mem_cons.1 hmem).elim hne hnot, hkept⟩
    · refine hidentities i irow ?_ hkind
      rw [hstored, if_neg, hirow]
      rintro rfl
      rw [hrow, Option.some.injEq] at hirow
      rw [← hirow, host_of_holds hs.typed hrow hholds] at hkind
      cases hkind

theorem deleteIdentity_sound (hc : x.aead.Correct) (hs : Sound x key none v) {force : Bool}
    {result : IdentityDeleteResult} (h : (deleteIdentity x id force).run v = (.ok result, t)) :
    Sound x key none t := by
  obtain ⟨⟨identity, row⟩, v₁, hget, h⟩ := run_bind_eq_ok.1 h
  obtain ⟨hrow, -, hholds, hcalm₁⟩ := get_ok hs.keyed hget
  obtain ⟨⟨⟩, v₂, hcheck, h⟩ := run_bind_eq_ok.1 h
  obtain ⟨hkind, rfl⟩ := checkKind_ok hcheck
  have hs₁ := hs.calm hcalm₁
  obtain ⟨dependents, v₃, hdependents, h⟩ := run_bind_eq_ok.1 h
  obtain ⟨hcalm₃, hmem⟩ := hostsUsingIdentity_ok hcalm₁.keyed hdependents
  have hs₃ := hs₁.calm hcalm₃
  split at h
  · obtain ⟨-, rfl⟩ := pure_ok h
    exact hs₃
  · obtain ⟨⟨⟩, v₄, hdetach, h⟩ := run_bind_eq_ok.1 h
    obtain ⟨hs₄, hrefers, hidentities⟩ := detachHosts_ok hc hs₃ hdetach
    obtain ⟨⟨⟩, v₅, hput, h⟩ := run_bind_eq_ok.1 h
    obtain ⟨-, rfl⟩ := pure_ok h
    have hrow₄ := hidentities id row ((hcalm₃.rows id).trans ((hcalm₁.rows id).trans hrow)) hkind
    refine (hs₄.putIdentity hc rfl hput (hs.identities id row identity hrow hholds)
      (hs₄.drawn id row hrow₄) (fun old hold => by cases hrow₄.symm.trans hold; exact hkind)
      fun _ i irow r hirow _ hr => ?_).1
    obtain ⟨hnot, hkept⟩ := hrefers i irow r id hirow hr
    rw [hcalm₃.rows] at hkept
    exact hnot ((hmem i).2 ⟨irow, r, VaultDb.getItem_id hkept ▸ hkept, hr,
      hs₁.hosts i irow r hkept hr.holds⟩)

/-! ## API keys and imports -/

theorem createApiKey_sound (hc : x.aead.Correct) (hs : Sound x key none v)
    {request : CreateApiKeyRequest} {summary : ApiKeySummary}
    (h : (createApiKey x request).run v = (.ok summary, t)) (hdistinct : DistinctDraws t) :
    Sound x key none t := by
  obtain ⟨⟨⟩, v₁, hvalid, h⟩ := run_bind_eq_ok.1 h
  obtain ⟨-, rfl⟩ := computed_ok hvalid
  obtain ⟨i, v₂, hi, h⟩ := run_bind_eq_ok.1 h
  obtain ⟨hnext, hlt, hcalm⟩ := draw_ok hs.keyed hi
  obtain ⟨⟨⟩, v₃, hput, h⟩ := run_bind_eq_ok.1 h
  obtain ⟨-, rfl⟩ := pure_ok h
  have hd := draws_run (acting_draws.put _ _ _ _ _ _ _) hput
  obtain ⟨hnone, hdrawn, -⟩ := hs.next hdistinct hd hcalm hlt
  rw [← hnext] at hnone hdrawn
  exact (hs.calm hcalm).putApiKey hc rfl hput hdrawn
    fun old hold => by cases hnone.symm.trans hold

/-- An API key is stored again, or deleted. -/
theorem Sound.rewriteApiKey (hc : x.aead.Correct) (hs : Sound x key none v) {row : ItemRow}
    {value : ApiKeyRecord} {version : UInt64} {localOnly deleted : Bool}
    (hrow : v.db.getItem id = some row) (hkind : row.kind = .apiKey)
    (hlocal : localOnly = !value.syncSecret)
    (h : (putApiKeyRecord x id version localOnly deleted value).run v = (.ok (), t)) :
    Sound x key none t :=
  hs.putApiKey hc hlocal h (hs.drawn id row hrow)
    fun old hold => by cases hrow.symm.trans hold; exact hkind

theorem updateApiKey_sound (hc : x.aead.Correct) (hs : Sound x key none v)
    {request : CreateApiKeyRequest} {summary : ApiKeySummary}
    (h : (updateApiKey x id request).run v = (.ok summary, t)) : Sound x key none t := by
  obtain ⟨⟨⟩, v₁, hvalid, h⟩ := run_bind_eq_ok.1 h
  obtain ⟨-, rfl⟩ := computed_ok hvalid
  obtain ⟨⟨record, row⟩, v₂, hget, h⟩ := run_bind_eq_ok.1 h
  obtain ⟨hrow, -, -, hcalm⟩ := get_ok hs.keyed hget
  obtain ⟨⟨⟩, v₃, hcheck, h⟩ := run_bind_eq_ok.1 h
  obtain ⟨hkind, rfl⟩ := checkKind_ok hcheck
  obtain ⟨⟨⟩, v₄, hput, h⟩ := run_bind_eq_ok.1 h
  obtain ⟨-, rfl⟩ := pure_ok h
  exact (hs.calm hcalm).rewriteApiKey hc ((hcalm.rows id).trans hrow) hkind rfl hput

theorem deleteApiKey_sound (hc : x.aead.Correct) (hs : Sound x key none v)
    (h : (deleteApiKey x id).run v = (.ok (), t)) : Sound x key none t := by
  obtain ⟨⟨record, row⟩, v₁, hget, h⟩ := run_bind_eq_ok.1 h
  obtain ⟨hrow, -, -, hcalm⟩ := get_ok hs.keyed hget
  obtain ⟨⟨⟩, v₂, hcheck, h⟩ := run_bind_eq_ok.1 h
  obtain ⟨hkind, rfl⟩ := checkKind_ok hcheck
  exact (hs.calm hcalm).rewriteApiKey hc ((hcalm.rows id).trans hrow) hkind rfl h

/-- Every host holds a record with its own identifier. -/
theorem Sound.ownIds (hs : Sound x key none v) : OwnIds x key v := by
  intro i row record hrow _ _ hholds
  rw [hs.hosts i row record hrow hholds, VaultDb.getItem_id hrow]

theorem Sound.freshIds (hs : Sound x key none v) (hd : Draws v t) (hdistinct : DistinctDraws t) :
    SshConfigImports.FreshIds v t where
  distinct := hdistinct
  unused i hi := by
    obtain ⟨n, hn, hlt, rfl⟩ := hi
    exact hs.fresh hdistinct hd hn hlt

theorem importSshConfig_sound (hc : x.aead.Correct) (hs : Sound x key none v) {contents : String}
    {selected : List String} {summaries : List HostSummary}
    (h : (importSshConfig x contents selected).run v = (.ok summaries, t))
    (hdistinct : DistinctDraws t) : Sound x key none t := by
  have htyped := ((yields_importSshConfig hc contents selected).run hs.typed).1
  rw [h] at htyped
  obtain ⟨parsed, existing, ids, imported, himport⟩ :=
    SshConfigImports.importSshConfig_ok hc hs.keyed h
  have hd := himport.toDraws
  have hfresh := hs.freshIds hd hdistinct
  have hrows : ∀ i row, t.db.getItem i = some row → v.db.getItem i = some row ∨
      ∃ host, SshConfigImports.Writes x key v t parsed host.label row host ∧ row.id = i := by
    intro i row hrow
    by_cases hi : i ∈ imported.map fun entry => entry.1.id
    · obtain ⟨entry, hentry, rfl⟩ := List.mem_map.1 hi
      have hwrites := himport.writes hs.ownIds hfresh hentry
      have hsame := hwrites.labelled.stored
      rw [hrow, Option.some.injEq] at hsame
      subst hsame
      exact Or.inr ⟨entry.2, hwrites, rfl⟩
    · exact Or.inl ((himport.frame hi).symm.trans hrow)
  have hlive : ∀ j, LiveIdentity v j → LiveIdentity t j := by
    rintro j ⟨row, hrow, hkind, hdeleted⟩
    refine ⟨row, ?_, hkind, hdeleted⟩
    rw [himport.frame, hrow]
    intro hj
    obtain ⟨entry, hentry, rfl⟩ := List.mem_map.1 hj
    obtain ⟨old, record, hold, hid, -⟩ | ⟨-, hnone, -⟩ :=
      (himport.writes hs.ownIds hfresh hentry).target
    · have hsame := hold.1.stored
      rw [← hid, hrow, Option.some.injEq] at hsame
      rw [hsame, hold.1.kind] at hkind
      cases hkind
    · cases hrow.symm.trans hnone
  refine ⟨htyped, fun i row r hrow hholds => ?_, fun i row r hrow hholds => ?_,
    fun i row r j hrow _ hrefers => hlive j ?_, fun i row hrow => ?_⟩
  · obtain hold | ⟨host, hwrites, rfl⟩ := hrows i row hrow
    · exact hs.hosts i row r hold hholds
    · rw [RunningSessions.Holds.unique hholds hwrites.labelled.holds]
      exact hwrites.own
  · obtain hold | ⟨host, hwrites, rfl⟩ := hrows i row hrow
    · exact hs.identities i row r hold hholds
    · have hkind := identity_of_holds htyped hrow hholds
      rw [hwrites.labelled.kind] at hkind
      cases hkind
  · obtain hold | ⟨host, hwrites, rfl⟩ := hrows i row hrow
    · exact hs.linked i row r j hold nofun hrefers
    · have hr := hrefers.identity
      rw [RunningSessions.Holds.unique hrefers.holds hwrites.labelled.holds] at hr
      obtain ⟨old, record, hlast, -, -, hhost⟩ | ⟨-, -, -, -, hhost⟩ := hwrites.target
      · rw [hhost] at hr
        exact hs.identityOf hlast.1.stored hlast.1.live hlast.1.holds j hr
      · rw [hhost] at hr
        cases hr
  · obtain hold | ⟨host, hwrites, rfl⟩ := hrows i row hrow
    · exact (hs.drawn i row hold).mono hd
    · obtain ⟨old, record, hlast, hid, -⟩ | ⟨-, -, ⟨n, -, hlt, hid⟩, -⟩ := hwrites.target
      · rw [hid]
        exact (hs.drawn _ old hlast.1.stored).mono hd
      · rw [hid]
        exact ⟨n, hlt, congrFun hd.supply n⟩

theorem operation_sound (hc : x.aead.Correct) (hs : Sound x key none v) {op : Operation}
    (h : (op.program x).run v = (.ok (), t)) (hdistinct : DistinctDraws t) :
    Sound x key none t := by
  -- Dropping a result reads and writes nothing.
  have hdrop : ∀ {α : Type} {p : RepositoryM α},
      (p >>= fun _ => pure ()).run v = (.ok (), t) → ∃ a, p.run v = (.ok a, t) := by
    intro α p hp
    obtain ⟨a, w, hrun, hpure⟩ := run_bind_eq_ok.1 hp
    obtain ⟨-, rfl⟩ := pure_ok hpure
    exact ⟨a, hrun⟩
  cases op with
  | createHost request => exact createHost_sound hc hs (hdrop h).choose_spec hdistinct
  | updateHost id request => exact updateHost_sound hc hs (hdrop h).choose_spec hdistinct
  | deleteHost id => exact deleteHost_sound hc hs h
  | importSshKeyIdentity label keyBytes passphrase rememberPassphrase syncSecret =>
    exact importSshKeyIdentity_sound hc hs (hdrop h).choose_spec hdistinct
  | renameIdentity id label => exact renameIdentity_sound hc hs (hdrop h).choose_spec
  | setIdentitySyncSecret id syncSecret =>
    exact setIdentitySyncSecret_sound hc hs (hdrop h).choose_spec
  | deleteIdentity id force => exact deleteIdentity_sound hc hs (hdrop h).choose_spec
  | createApiKey request => exact createApiKey_sound hc hs (hdrop h).choose_spec hdistinct
  | updateApiKey id request => exact updateApiKey_sound hc hs (hdrop h).choose_spec
  | deleteApiKey id => exact deleteApiKey_sound hc hs h
  | importSshConfig contents selected =>
    exact importSshConfig_sound hc hs (hdrop h).choose_spec hdistinct
  | setHostTags id tags => exact setHostTags_sound hc hs (hdrop h).choose_spec
  | touchHostConnected id => exact touchHostConnected_sound hc hs (hdrop h).choose_spec
  | setKnownHostKey id hostKey => exact setKnownHostKey_sound hc hs h

end Operations

/-! ## Runs -/

/-- From an empty vault, by operations that succeed. In between the vault may lock and unlock. -/
inductive Reached (x : Externals) (key : VaultKey) : Vault → Prop
  | empty {v : Vault} : (∀ id, v.db.getItem id = none) → Keyed key v → Reached x key v
  | operation {v t : Vault} (op : Operation) : Reached x key v →
      (op.program x).run v = (.ok (), t) → Reached x key t
  | meanwhile {v t : Vault} : Reached x key v → Calm key v t → Reached x key t

theorem Reached.run (h : Reached x key v) (op : Operation)
    (hok : ((op.program x).run v).1.isOk = true) : Reached x key ((op.program x).run v).2 := by
  rcases hrun : (op.program x).run v with ⟨r, t⟩
  rw [hrun] at hok
  cases r with
  | ok => exact h.operation op hrun
  | error e => cases hok

theorem reached_sound (hc : x.aead.Correct) (h : Reached x key v) (hdistinct : DistinctDraws v) :
    Sound x key none v := by
  induction h with
  | @empty v hempty hkeyed =>
    have hnone : ∀ {i row}, v.db.getItem i = some row → False := by
      intro i row hrow
      cases (hempty i).symm.trans hrow
    exact ⟨⟨fun i row hrow => (hnone hrow).elim, hkeyed⟩, fun i row r hrow => (hnone hrow).elim,
      fun i row r hrow => (hnone hrow).elim, fun i row r j hrow => (hnone hrow).elim,
      fun i row hrow => (hnone hrow).elim⟩
  | operation op _ hrun ih =>
    exact operation_sound hc (ih (hdistinct.mono (draws_run (acting_draws.operation op) hrun)))
      hrun hdistinct
  | meanwhile _ hcalm ih => exact (ih (hdistinct.mono hcalm.toDraws)).calm hcalm

theorem reached_ownIds (hc : x.aead.Correct) (h : Reached x key v) (hdistinct : DistinctDraws v) :
    OwnIds x key v := (reached_sound hc h hdistinct).ownIds

/-- The identity of every live host is live, and holds its own identifier. -/
theorem identity_live (hc : x.aead.Correct) (h : Reached x key v) (hdistinct : DistinctDraws v)
    {id : Uuid} {row : ItemRow} (hrow : v.db.getItem id = some row) (hkind : row.kind = .host)
    (hlive : row.deleted = false) :
    ∃ host, Holds x key x.texts.host row host ∧ (host.identityId = none ∨
      ∃ i irow identity, host.identityId = some i ∧ v.db.getItem i = some irow ∧
        irow.kind = .identity ∧ irow.deleted = false ∧
        Holds x key x.texts.identity irow identity ∧ identity.id = i) := by
  have hs := reached_sound hc h hdistinct
  have hlinked := hs.typed.rows id row hrow
  unfold Linked at hlinked
  rw [hkind] at hlinked
  obtain ⟨host, hopens⟩ := hlinked
  refine ⟨host, decode_of_opens hopens, ?_⟩
  cases hidentity : host.identityId with
  | none => exact Or.inl rfl
  | some i =>
    obtain ⟨irow, hirow, hikind, hilive⟩ :=
      hs.identityOf hrow hlive (decode_of_opens hopens) i hidentity
    have hidentities := hs.typed.rows i irow hirow
    unfold Linked at hidentities
    rw [hikind] at hidentities
    obtain ⟨identity, hiopens, -⟩ := hidentities
    have hholds : Holds x key x.texts.identity irow identity := decode_of_opens hiopens
    exact Or.inr ⟨i, irow, identity, rfl, hirow, hikind, hilive, hholds,
      hs.identities i irow identity hirow hholds⟩

section Samples
open PartialWrites (hostRequest)
open SecretFleets (sampleKey)
open SshConfigImports (emptyVault)

def webTexts : JsonTexts.Samples where
  values := [SessionFleets.sampleTexts.writeIdentity
      (.password (numbered.uuidAt 1) "web password" "pw" false),
    SessionFleets.sampleTexts.writeHost
      { Host.new (numbered.uuidAt 0) "web" "web.example" "root" with
        identityId := some (numbered.uuidAt 1) }]
  distinct := by decide +kernel

def webExternals : Externals :=
  webTexts.externals (fun _ _ => .error "no key") fun _ => .ok []

def webRun : Except Error Unit × Vault :=
  ((Operation.createHost hostRequest).program webExternals).run emptyVault

theorem webRun_ok : webRun.1.isOk = true ∧ webRun.2.world.draws ≤ 256 ∧
    (webRun.2.db.getItem (numbered.uuidAt 0)).any
      (fun row => row.kind = .host ∧ row.deleted = false) = true := by
  decide +kernel

theorem identity_live_sample : ∃ row host, webRun.2.db.getItem (numbered.uuidAt 0) = some row ∧
    Holds webExternals sampleKey webExternals.texts.host row host ∧ (host.identityId = none ∨
      ∃ i irow identity, host.identityId = some i ∧ webRun.2.db.getItem i = some irow ∧
        irow.kind = .identity ∧ irow.deleted = false ∧
        Holds webExternals sampleKey webExternals.texts.identity irow identity ∧
        identity.id = i) := by
  obtain ⟨hok, hdraws, hstored⟩ := webRun_ok
  have hd : Draws emptyVault webRun.2 :=
    draws_operation (x := webExternals) (.createHost hostRequest) emptyVault
  have hreached : Reached webExternals sampleKey webRun.2 :=
    Reached.run (.empty (fun _ => rfl) fun vaultKey auth t h => by cases h; rfl)
      (.createHost hostRequest) hok
  obtain ⟨row, hrow, hlive⟩ := (Option.any_eq_true _ _).1 hstored
  obtain ⟨hkind, hdeleted⟩ := of_decide_eq_true hlive
  obtain ⟨host, hlinked⟩ := identity_live (x := webExternals) (transparent_correct _) hreached
    (distinctDraws_numbered hd.supply hdraws) hrow hkind hdeleted
  exact ⟨row, host, hrow, hlinked⟩

end Samples

end Tethra.IdentityReferences
