import Tethra.SecretLinks

set_option autoImplicit false

/-!
# Devices that share a vault and a backend

Operations and syncs of any number of devices, one at a time, each with any outcome. The
backend holds what was pushed into it and nothing else.
-/
namespace Tethra.SecretFleets
open AtomicPrograms AuthenticatedEncryption BackendLogs Base64Strings JsonValues RepositoryRequests
open SecretLinks StatefulActions SyncEngine SyncFileBackend SyncItems SyncRuns
open VaultCrypto VaultRecords VaultRepository VaultState VaultTypes
open AtomicPrograms.Program (lift Yields)

section Shares
variable (x : Externals) (key : VaultKey) (b64 : Base64)

/-- Whoever applies the item gets a linked row. -/
def Shareable (item : SyncItem) : Prop :=
  ∀ row, itemRowFromSync b64 item = .ok row → Linked x key row

variable {D β : Type} (holds : β → SyncItem → Prop)

structure LinkedStore (s : Logged D β) : Prop where
  held : ∀ item, holds s.store item → Shareable x key b64 item
  passed : ∀ item, Passed s.calls item → Shareable x key b64 item

structure LinkedEngine (s : Engine × Logged D β) : Prop where
  vault : LinkedVault x key s.1.vault
  store : LinkedStore x key b64 holds s.2

variable {x key b64 holds}

theorem shareable_of_linked {row : ItemRow} (hrow : Linked x key row)
    (hlocal : row.localOnly = false) : Shareable x key b64 (syncItemFromRow b64 row) := by
  intro row' hrow'
  rw [itemRowFromSync_syncItemFromRow] at hrow'
  obtain rfl := Except.ok.inj hrow'
  have hsame : { row with localOnly := false } = row := by
    cases row
    subst hlocal
    rfl
  rwa [hsame]

theorem passed_cons_of_ne {calls : List (Call D)} {call : Call D} {item : SyncItem}
    (hcall : ∀ d items outcome, call ≠ .push d items outcome)
    (h : Passed (call :: calls) item) : Passed calls item := by
  obtain ⟨d, items, outcome, hmem, hitem⟩ := h
  obtain hhead | htail := List.mem_cons.1 hmem
  · exact absurd hhead.symm (hcall d items outcome)
  · exact ⟨d, items, outcome, htail, hitem⟩

/-- A call that is no push and adds nothing to the store. -/
theorem LinkedStore.logCall {s : Logged D β} (hs : LinkedStore x key b64 holds s) {α : Type}
    {m : Action β Error α} {call : Except Error α → Call D}
    (hstore : ∀ item, holds (m s.store).2 item → holds s.store item)
    (hcall : ∀ r d items outcome, call r ≠ .push d items outcome) :
    LinkedStore x key b64 holds (logCall m call s).2 where
  held item hitem := hs.held item (hstore item hitem)
  passed item hitem := hs.passed item (passed_cons_of_ne (hcall _) hitem)

theorem keeps_vaultAction {α : Type} {m : VaultM α} (hm : m.Keeps (LinkedVault x key)) :
    (vaultAction m).Keeps (LinkedEngine (D := D) x key b64 holds) :=
  fun s hs => ⟨hm s.1.vault hs.vault, hs.store⟩

theorem yields_onVault {α : Type} {m : VaultM α} (hm : m.Within SameRows) :
    (onVault m : EngineM (Logged D β) α).Yields (LinkedEngine x key b64 holds) fun _ => True :=
  Yields.lift (keeps_vaultAction (keeps_sameRows hm)) fun _ _ _ _ => trivial

variable {backend : SyncBackend β} (hb : Serves backend holds) (d : D)
include hb

theorem yields_headers {α : Type} {p : EngineM (Logged D β) α}
    (hp : p.Each (HeaderAction (logged d backend))) :
    p.Yields (LinkedEngine x key b64 holds) fun _ => True := by
  refine Yields.of_each (hp.mono fun hm s hs => ?_)
  cases hm with
  | vault hm => exact keeps_vaultAction (keeps_sameRows hm) s hs
  | getHeader =>
    exact ⟨hs.vault, hs.store.logCall (hb.getHeader _) fun _ _ _ _ h => by cases h⟩
  | putHeader header =>
    exact ⟨hs.vault, hs.store.logCall (hb.putHeader header _) fun _ _ _ _ h => by cases h⟩
  | ofExcept r => exact hs

theorem yields_pull (since : SyncCursor) :
    (onBackend ((logged d backend).pull since)).Yields (LinkedEngine x key b64 holds)
      fun pulled => ∀ item ∈ pulled.1, Shareable x key b64 item := by
  refine Yields.lift (fun s hs => ⟨hs.vault, ?_⟩) fun s pulled hs hpulled item hitem => ?_
  · exact hs.store.logCall (hb.pull since _) fun _ _ _ _ h => by cases h
  · exact hs.store.held item (hb.pulled since s.2.store pulled.1 pulled.2 hpulled item hitem)

theorem yields_push {items : List SyncItem} (hitems : ∀ item ∈ items, Shareable x key b64 item) :
    (onBackend ((logged d backend).push items)).Yields (LinkedEngine x key b64 holds)
      fun _ => True := by
  refine Yields.lift (fun s hs => ⟨hs.vault, ?_, ?_⟩) fun _ _ _ _ => trivial
  · intro item hitem
    obtain hold | hnew := hb.push items s.2.store item hitem
    · exact hs.store.held item hold
    · exact hitems item hnew
  · rintro item ⟨e, pushed, outcome, hmem, hitem⟩
    obtain hhead | htail := List.mem_cons.1 hmem
    · cases hhead
      exact hitems item hitem
    · exact hs.store.passed item ⟨e, pushed, outcome, htail, hitem⟩

omit hb

theorem yields_applyItems {items : List SyncItem}
    (hitems : ∀ item ∈ items, Shareable x key b64 item) (applied : UInt32) :
    (applyItems b64 applied items : EngineM (Logged D β) UInt32).Yields
      (LinkedEngine x key b64 holds) fun _ => True := by
  induction items generalizing applied with
  | nil => exact Yields.pure trivial
  | cons item items ih =>
    have hrest := ih fun other hother => hitems other (List.mem_cons_of_mem _ hother)
    refine (yields_onVault (sameRows_withDb _)).bind fun row _ => ?_
    split
    · refine Yields.bind (P := fun row => itemRowFromSync b64 item = .ok row)
        (Yields.lift (Action.Keeps.ofExcept _) fun _ _ _ h => h) fun row hrow => ?_
      have hlinked := hitems item List.mem_cons_self row hrow
      refine Yields.bind (P := fun _ => True)
        (Yields.lift (keeps_vaultAction (keeps_upsert hlinked)) fun _ _ _ _ => trivial) ?_
      exact fun _ _ => hrest (applied + 1)
    · exact hrest applied

theorem yields_listSyncEligibleItems :
    (listSyncEligibleItems : EngineM (Logged D β) (List ItemRow)).Yields
      (LinkedEngine x key b64 holds)
      fun rows => ∀ row ∈ rows, Linked x key row ∧ row.localOnly = false := by
  refine (yields_onVault sameRows_requireKey).bind fun _ _ => ?_
  refine Yields.lift (keeps_vaultAction (keeps_sameRows (sameRows_withDb _))) ?_
  intro s rows hs hrows row hrow
  obtain ⟨heq, -⟩ := withDb_eq_ok (v := s.1.vault) (Prod.ext hrows rfl)
  rw [← Except.ok.inj heq] at hrow
  obtain ⟨hget, hlocal⟩ := mem_syncEligible.1 hrow
  exact ⟨hs.vault.rows row.id row hget, hlocal⟩

include hb

/-- A sync with any outcome. -/
theorem yields_syncNow (aead : Aead KeyBytes) :
    (syncNow aead b64 (logged d backend)).Yields (LinkedEngine x key b64 holds)
      fun _ => True := by
  refine (yields_headers hb d (each_isUnlocked_header _)).bind fun unlocked _ => ?_
  split
  · refine (yields_headers hb d (each_adoptRemoteRekey_header aead _)).bind fun _ _ => ?_
    refine (yields_headers hb d (each_publishHeader_header _)).bind fun _ _ => ?_
    refine Yields.bind (P := fun _ => True)
      (Yields.lift (Action.Keeps.read _) fun _ _ _ _ => trivial) fun since _ => ?_
    refine (yields_pull hb d since).bind fun pulled hpulled => ?_
    refine (yields_applyItems hpulled 0).bind fun applied _ => ?_
    refine yields_listSyncEligibleItems.bind fun rows hrows => ?_
    have hshare : ∀ item ∈ rows.map (syncItemFromRow b64), Shareable x key b64 item := by
      intro item hitem
      obtain ⟨row, hrow, rfl⟩ := List.mem_map.1 hitem
      exact shareable_of_linked (hrows row hrow).1 (hrows row hrow).2
    refine (yields_push hb d hshare).bind fun pushCursor _ => ?_
    refine Yields.bind (P := fun _ => True) (Yields.lift ?_ fun _ _ _ _ => trivial)
      fun _ _ => Yields.pure trivial
    exact Action.Keeps.update fun s hs => ⟨hs.vault, hs.store⟩
  · exact Yields.lift (Action.Keeps.fail _) fun _ _ _ _ => trivial

end Shares

/-! ## Runs -/

structure Peers (D β : Type) where
  engines : D → Engine
  store : Logged D β

/-- An operation or a sync of one device, or a change of it that leaves its rows alone. -/
inductive Step (D : Type) where
  | operate (d : D) (op : Operation)
  | sync (d : D)
  | other (d : D) (engine : Engine)

section Runs
variable {D β : Type} [DecidableEq D] (x : Externals) (b64 : Base64) (backend : SyncBackend β)
  (key : VaultKey)

def perform (p : Peers D β) : Step D → Peers D β
  | .operate d op =>
    let vault := ((op.program x).run (p.engines d).vault).2
    { p with engines := Function.update p.engines d { p.engines d with vault := vault } }
  | .sync d =>
    let t := ((syncNow x.aead b64 (logged d backend)).run (p.engines d, p.store)).2
    ⟨Function.update p.engines d t.1, t.2⟩
  | .other d engine => { p with engines := Function.update p.engines d engine }

def run (p : Peers D β) (steps : List (Step D)) : Peers D β :=
  steps.foldl (perform x b64 backend) p

/-- Locking, unlocking, password changes and time: the rows stay, and so does the key. -/
def Allowed (p : Peers D β) : Step D → Prop
  | .other d engine => engine.vault.db.items = (p.engines d).vault.db.items ∧
      ∀ vaultKey auth t, engine.vault.state = .unlocked vaultKey auth t → vaultKey = key
  | _ => True

def Along (p : Peers D β) : List (Step D) → Prop
  | [] => True
  | step :: steps => Allowed key p step ∧ Along (perform x b64 backend p step) steps

/-- No rows, nothing stored, nothing pushed. -/
structure Fresh (holds : β → SyncItem → Prop) (p : Peers D β) : Prop where
  rows : ∀ d id, (p.engines d).vault.db.getItem id = none
  keyed : ∀ d vaultKey auth t, (p.engines d).vault.state = .unlocked vaultKey auth t →
    vaultKey = key
  held : ∀ item, ¬ holds p.store.store item
  passed : ∀ item, ¬ Passed p.store.calls item

structure LinkedPeers (holds : β → SyncItem → Prop) (p : Peers D β) : Prop where
  vaults : ∀ d, LinkedVault x key (p.engines d).vault
  store : LinkedStore x key b64 holds p.store

variable {x b64 backend key} {holds : β → SyncItem → Prop}

omit [DecidableEq D] in
theorem Fresh.linked {p : Peers D β} (hp : Fresh key holds p) :
    LinkedPeers x b64 key holds p where
  vaults d :=
    { rows := fun id row hrow => by rw [hp.rows d id] at hrow; cases hrow
      keyed := hp.keyed d }
  store :=
    { held := fun item hitem => absurd hitem (hp.held item)
      passed := fun item hitem => absurd hitem (hp.passed item) }

theorem LinkedPeers.perform (hc : x.aead.Correct) (hb : Serves backend holds) {p : Peers D β}
    (hp : LinkedPeers x b64 key holds p) {step : Step D} (h : Allowed key p step) :
    LinkedPeers x b64 key holds (perform x b64 backend p step) := by
  have hupdate : ∀ d (engine : Engine), LinkedVault x key engine.vault →
      ∀ e, LinkedVault x key (Function.update p.engines d engine e).vault := by
    intro d engine hengine e
    by_cases he : e = d
    · rw [he, Function.update_self]
      exact hengine
    · rw [Function.update_of_ne he]
      exact hp.vaults e
  cases step with
  | operate d op =>
    have hvault := ((yields_operation hc op).run (hp.vaults d)).1
    exact ⟨hupdate d { p.engines d with vault := _ } hvault, hp.store⟩
  | sync d =>
    have hstart : LinkedEngine x key b64 holds (p.engines d, p.store) := ⟨hp.vaults d, hp.store⟩
    have hend := ((yields_syncNow hb d x.aead).run hstart).1
    exact ⟨hupdate d _ hend.vault, hend.store⟩
  | other d engine =>
    exact ⟨hupdate d engine ((hp.vaults d).of_items h.1 h.2), hp.store⟩

theorem LinkedPeers.run (hc : x.aead.Correct) (hb : Serves backend holds) {p : Peers D β}
    (hp : LinkedPeers x b64 key holds p) {steps : List (Step D)}
    (h : Along x b64 backend key p steps) :
    LinkedPeers x b64 key holds (run x b64 backend p steps) := by
  induction steps generalizing p with
  | nil => exact hp
  | cons step steps ih => exact ih (hp.perform hc hb h.1) h.2

theorem linked_identity {row : ItemRow} (h : Linked x key row) (hkind : row.kind = .identity) :
    ∃ plaintext r, decryptItem x.aead key row.id row.version row.blob = .ok plaintext ∧
      x.decode x.texts.identity plaintext = .ok r ∧ row.localOnly = !r.syncSecret := by
  rw [Linked, hkind] at h
  obtain ⟨r, hopens, hlocal⟩ := h
  obtain ⟨plaintext, hplain, hdecode⟩ := decode_of_opens (f := x.texts.identity) hopens
  exact ⟨plaintext, r, hplain, hdecode, hlocal⟩

theorem linked_apiKey {row : ItemRow} (h : Linked x key row) (hkind : row.kind = .apiKey) :
    ∃ plaintext r, decryptItem x.aead key row.id row.version row.blob = .ok plaintext ∧
      x.decode x.texts.apiKey plaintext = .ok r ∧ row.localOnly = !r.syncSecret := by
  rw [Linked, hkind] at h
  obtain ⟨r, hopens, hlocal⟩ := h
  obtain ⟨plaintext, hplain, hdecode⟩ := decode_of_opens (f := x.texts.apiKey) hopens
  exact ⟨plaintext, r, hplain, hdecode, hlocal⟩

theorem decode_of_plaintext {α : Type} {f : Format α} {plaintext : Bytes}
    {v : JsonValues.Json} {value : α} (hslice : x.fromSlice plaintext = .ok v)
    (h : x.decode f plaintext = .ok value) : f.read v = .ok value := by
  obtain ⟨v', hv', hread⟩ := Externals.decode_eq_ok.1 h
  rw [hslice, Except.ok.injEq] at hv'
  rw [hv']
  exact hread

/-- Whatever kind it is given, a row that syncs holds no secret that should not. -/
theorem linked_synced {row : ItemRow} (h : Linked x key row) (hlocal : row.localOnly = false)
    {plaintext : Bytes}
    (hplain : decryptItem x.aead key row.id row.version row.blob = .ok plaintext) :
    (∀ r, x.decode x.texts.identity plaintext = .ok r → r.syncSecret = true) ∧
      ∀ r, x.decode x.texts.apiKey plaintext = .ok r → r.syncSecret = true := by
  have hsame : ∀ {v}, Opens x key row v → x.fromSlice plaintext = .ok v := by
    rintro v ⟨text, htext, hslice⟩
    rw [hplain] at htext
    rwa [Except.ok.inj htext]
  rw [Linked] at h
  split at h
  · obtain ⟨host, hopens⟩ := h
    constructor
    · intro r hr
      obtain ⟨e, he⟩ := x.texts.readIdentity_writeHost host
      have hread : x.texts.readIdentity (x.texts.writeHost host) = .ok r :=
        decode_of_plaintext (hsame hopens) hr
      rw [he] at hread
      cases hread
    · intro r hr
      obtain ⟨e, he⟩ := x.texts.readApiKey_writeHost host
      have hread : x.texts.readApiKey (x.texts.writeHost host) = .ok r :=
        decode_of_plaintext (hsame hopens) hr
      rw [he] at hread
      cases hread
  · obtain ⟨identity, hopens, hflag⟩ := h
    constructor
    · intro r hr
      have hread : x.texts.readIdentity (x.texts.writeIdentity identity) = .ok r :=
        decode_of_plaintext (hsame hopens) hr
      rw [x.texts.readIdentity_writeIdentity, Except.ok.injEq] at hread
      rw [← hread]
      simpa [hlocal] using hflag
    · intro r hr
      obtain ⟨e, he⟩ := x.texts.readApiKey_writeIdentity identity
      have hread : x.texts.readApiKey (x.texts.writeIdentity identity) = .ok r :=
        decode_of_plaintext (hsame hopens) hr
      rw [he] at hread
      cases hread
  · obtain ⟨apiKey, hopens, hflag⟩ := h
    constructor
    · intro r hr
      obtain ⟨e, he⟩ := x.texts.readIdentity_writeApiKey apiKey
      have hread : x.texts.readIdentity (x.texts.writeApiKey apiKey) = .ok r :=
        decode_of_plaintext (hsame hopens) hr
      rw [he] at hread
      cases hread
    · intro r hr
      have hread : x.texts.readApiKey (x.texts.writeApiKey apiKey) = .ok r :=
        decode_of_plaintext (hsame hopens) hr
      rw [x.texts.readApiKey_writeApiKey, Except.ok.injEq] at hread
      rw [← hread]
      simpa [hlocal] using hflag
  · exact h.elim
  · exact h.elim

theorem secrets_stay_local (hc : x.aead.Correct) (hb : Serves backend holds) {p : Peers D β}
    (hp : Fresh key holds p) {steps : List (Step D)} (h : Along x b64 backend key p steps) :
    (∀ d id row, ((run x b64 backend p steps).engines d).vault.db.getItem id = some row →
      (row.kind = .identity → ∃ plaintext r,
        decryptItem x.aead key row.id row.version row.blob = .ok plaintext ∧
          x.decode x.texts.identity plaintext = .ok r ∧ row.localOnly = !r.syncSecret) ∧
      (row.kind = .apiKey → ∃ plaintext r,
        decryptItem x.aead key row.id row.version row.blob = .ok plaintext ∧
          x.decode x.texts.apiKey plaintext = .ok r ∧ row.localOnly = !r.syncSecret)) ∧
    ∀ item, Passed (run x b64 backend p steps).store.calls item →
      ∀ row plaintext, itemRowFromSync b64 item = .ok row →
        decryptItem x.aead key row.id row.version row.blob = .ok plaintext →
        (∀ r, x.decode x.texts.identity plaintext = .ok r → r.syncSecret = true) ∧
          ∀ r, x.decode x.texts.apiKey plaintext = .ok r → r.syncSecret = true := by
  have hlinked : LinkedPeers x b64 key holds (run x b64 backend p steps) :=
    hp.linked.run hc hb h
  constructor
  · intro d id row hrow
    have hlink := (hlinked.vaults d).rows id row hrow
    exact ⟨linked_identity hlink, linked_apiKey hlink⟩
  · intro item hitem row plaintext hrow hplain
    obtain ⟨-, -, -, -, -, hlocal, -⟩ := itemRowFromSync_eq_ok hrow
    exact linked_synced (hlinked.store.passed item hitem row hrow) hlocal hplain

end Runs

/-! ## One API key, kept local -/

section Samples

def hexValue (c : Char) : ℕ := if c.isDigit then c.toNat - '0'.toNat else c.toNat - 'a'.toNat + 10

def unhex : List Char → Bytes
  | a :: b :: rest => UInt8.ofNat (hexValue a * 16 + hexValue b) :: unhex rest
  | _ => []

theorem unhex_flatMap (bytes : Bytes) : unhex (bytes.flatMap hexByte) = bytes := by
  induction bytes with
  | nil => rfl
  | cons b bytes ih =>
    have hbyte : ∀ n < 256,
        hexValue (Nat.digitChar (n / 16)) * 16 + hexValue (Nat.digitChar (n % 16)) = n := by
      decide +kernel
    rw [List.flatMap_cons]
    change UInt8.ofNat (hexValue (Nat.digitChar (b.toNat / 16)) * 16 +
      hexValue (Nat.digitChar (b.toNat % 16))) :: unhex (bytes.flatMap hexByte) = b :: bytes
    rw [ih, hbyte b.toNat b.toNat_lt, UInt8.ofNat_toNat]

theorem hexByte_ne_hyphen (b : UInt8) : ∀ c ∈ hexByte b, c ≠ '-' := by
  have hdigit : ∀ n < 16, Nat.digitChar n ≠ '-' := by decide
  have hb := b.toNat_lt
  intro c hc
  simp only [hexByte, List.mem_cons, List.not_mem_nil, or_false] at hc
  obtain rfl | rfl := hc
  · exact hdigit _ (by omega)
  · exact hdigit _ (by omega)

def parseUuid (text : String) : Except String Uuid :=
  if h : (unhex (text.toList.filter (· ≠ '-'))).length = 16 then .ok ⟨⟨_, h⟩⟩
  else .error "invalid length"

theorem slice_append_drop {α : Type} (l : List α) {i j : ℕ} (hij : i ≤ j) (hj : j ≤ l.length) :
    (l.take j).drop i ++ l.drop j = l.drop i := by
  have hlen : i ≤ (l.take j).length := by
    rw [List.length_take]
    omega
  rw [← List.drop_append_of_le_length hlen, List.take_append_drop]

theorem parseUuid_display (id : Uuid) : parseUuid id.display = .ok id := by
  have hhyphen : ∀ c ∈ id.asBytes.1.flatMap hexByte, decide (c ≠ '-') = true := by
    intro c hc
    obtain ⟨b, -, hmem⟩ := List.mem_flatMap.1 hc
    exact decide_eq_true (hexByte_ne_hyphen b c hmem)
  have hlen : (id.asBytes.1.flatMap hexByte).length = 32 := by
    have htwo : ∀ bytes : Bytes, (bytes.flatMap hexByte).length = 2 * bytes.length := by
      intro bytes
      induction bytes with
      | nil => rfl
      | cons b bytes ih =>
        rw [List.flatMap_cons, List.length_append, ih]
        change 2 + _ = _
        rw [List.length_cons]
        omega
    rw [htwo, id.asBytes.2]
  have hchars : id.display.toList.filter (· ≠ '-') = id.asBytes.1.flatMap hexByte := by
    generalize hhex : id.asBytes.1.flatMap hexByte = hex at hhyphen hlen
    have hkeep : ∀ i j, ((hex.take j).drop i).filter (· ≠ '-') = (hex.take j).drop i := by
      intro i j
      exact List.filter_eq_self.2 fun c hc =>
        hhyphen c (List.mem_of_mem_take (List.mem_of_mem_drop hc))
    have hlast : (hex.take 32).drop 20 = hex.drop 20 := by
      rw [← hlen, List.take_length]
    unfold Uuid.display
    rw [hhex, String.toList_ofList]
    simp only [List.filter_append, List.filter_cons, hkeep]
    simp only [ne_eq, not_true_eq_false, decide_false, Bool.false_eq_true, if_false]
    rw [List.append_assoc, List.append_assoc, List.append_assoc, hlast,
      slice_append_drop hex (by omega) (by omega), slice_append_drop hex (by omega) (by omega),
      slice_append_drop hex (by omega) (by omega), slice_append_drop hex (by omega) (by omega)]
    rfl
  have hbytes : unhex (id.display.toList.filter (· ≠ '-')) = id.asBytes.1 := by
    rw [hchars, unhex_flatMap]
  have hsixteen : (unhex (id.display.toList.filter (· ≠ '-'))).length = 16 := by
    rw [hbytes, id.asBytes.2]
  unfold parseUuid
  rw [dif_pos hsixteen]
  cases id
  exact congrArg (fun block => Except.ok (Uuid.mk block)) (Subtype.ext hbytes)

/-- No time is written below. -/
def unusedTime : Text DateTime where
  display t := String.ofList (if t < 0 then '-' :: List.replicate t.natAbs '1'
    else List.replicate t.natAbs '1')
  parse text := match text.toList with
    | '-' :: digits => .ok (-digits.length)
    | digits => .ok digits.length
  parse_display t := by
    rw [String.toList_ofList]
    by_cases ht : t < 0
    · rw [if_pos ht]
      change Except.ok (-((List.replicate t.natAbs '1').length : ℤ)) = _
      rw [List.length_replicate, Int.ofNat_natAbs_of_nonpos ht.le, neg_neg]
    · rw [if_neg ht]
      have hlen : ((List.replicate t.natAbs '1').length : ℤ) = t := by
        rw [List.length_replicate]
        exact Int.natAbs_of_nonneg (not_lt.1 ht)
      cases hn : List.replicate t.natAbs '1' with
      | nil => rw [hn] at hlen; exact congrArg Except.ok hlen
      | cons c rest =>
        have hc : c = '1' := by
          have hmem : c ∈ List.replicate t.natAbs '1' := by rw [hn]; exact List.mem_cons_self
          exact List.eq_of_mem_replicate hmem
        subst hc
        rw [hn] at hlen
        exact congrArg Except.ok hlen

def apiKeyJson (syncSecret : Bool) : JsonValues.Json :=
  .object [("id", .string "00000000-0000-0000-0000-000000000000"), ("label", .string "claude"),
    ("provider", .string "anthropic"), ("base_url", .null), ("model", .null),
    ("api_key", .string "sk"), ("sync_secret", .bool syncSecret)]

def apiKeyText (syncSecret : Bool) : Bytes :=
  let text := "\x7b\"id\":\"00000000-0000-0000-0000-000000000000\",\"label\":\"claude\"," ++
    "\"provider\":\"anthropic\",\"base_url\":null,\"model\":null,\"api_key\":\"sk\"," ++
    "\"sync_secret\":" ++ (if syncSecret then "true" else "false") ++ "\x7d"
  text.toList.map fun c => UInt8.ofNat c.toNat

def apiKeyToVec : JsonValues.Json → Except String Bytes
  | .object [("id", .string "00000000-0000-0000-0000-000000000000"), ("label", .string "claude"),
      ("provider", .string "anthropic"), ("base_url", .null), ("model", .null),
      ("api_key", .string "sk"), ("sync_secret", .bool syncSecret)] => .ok (apiKeyText syncSecret)
  | _ => .error "not the sample"

def apiKeyFromSlice (bytes : Bytes) : Except String JsonValues.Json :=
  if bytes = apiKeyText true then .ok (apiKeyJson true)
  else if bytes = apiKeyText false then .ok (apiKeyJson false)
  else .error "not the sample"

theorem apiKeyFromSlice_apiKeyToVec (v : JsonValues.Json) (bytes : Bytes)
    (h : apiKeyToVec v = .ok bytes) : apiKeyFromSlice bytes = .ok v := by
  unfold apiKeyToVec at h
  split at h
  · rename_i syncSecret
    cases h
    cases syncSecret
    · unfold apiKeyFromSlice
      rw [if_neg (by decide +kernel), if_pos rfl]
      rfl
    · unfold apiKeyFromSlice
      rw [if_pos rfl]
      rfl
  · cases h

/-- The texts of one API key record and of the identifier the quiet world draws. -/
def sampleExternals : Externals where
  aead := transparent KEY_LEN
  texts := ⟨⟨Uuid.display, parseUuid, parseUuid_display⟩, unusedTime⟩
  toVec := apiKeyToVec
  fromSlice := apiKeyFromSlice
  fromSlice_toVec := apiKeyFromSlice_apiKeyToVec
  decodeSecretKey _ _ := .error "no key"
  parseSshConfig _ := .ok []

def sampleKey : VaultKey := ⟨Block.fill 32 7⟩

def sampleVaultHeader : VaultHeader := ⟨[], .default, ⟨[], []⟩, none, 0⟩

def samplePeers : Peers Bool FileBackend where
  engines _ := ⟨⟨⟨some sampleVaultHeader, KeyedTables.Table.empty⟩, none,
    .unlocked sampleKey sampleKey.expose 0, IDLE_LOCK_DISABLED, World.quiet⟩, .default⟩
  store := ⟨⟨none, none, KeyedTables.Table.empty, 0, fun _ => none, fun _ => .asStored⟩, []⟩

def sampleRequest (syncSecret : Bool) : CreateApiKeyRequest :=
  ⟨"claude", .anthropic, none, none, some "sk", syncSecret⟩

def sampleId : Uuid := World.quiet.uuidAt 0

/-- Created local, synced, opted in, synced again on both devices. -/
def sampleSteps : List (Step Bool) :=
  [.operate true (.createApiKey (sampleRequest false)), .sync true,
    .operate true (.updateApiKey sampleId (sampleRequest true)), .sync true, .sync false]

theorem samplePeers_fresh : Fresh sampleKey FileBackend.Holds samplePeers where
  rows _ _ := rfl
  keyed _ vaultKey auth t h := by cases h; rfl
  held item h := by
    obtain ⟨file, hfile, -⟩ := h
    cases hfile
  passed item h := by
    obtain ⟨d, items, outcome, hmem, -⟩ := h
    cases hmem

theorem sampleSteps_along :
    Along sampleExternals standard fileBackend sampleKey samplePeers sampleSteps :=
  ⟨trivial, trivial, trivial, trivial, trivial, trivial⟩

theorem secrets_stay_local_sample :
    (∀ d row, ((run sampleExternals standard fileBackend samplePeers sampleSteps).engines
        d).vault.db.getItem sampleId = some row → row.kind = .apiKey → ∃ plaintext r,
      decryptItem sampleExternals.aead sampleKey row.id row.version row.blob = .ok plaintext ∧
        sampleExternals.decode sampleExternals.texts.apiKey plaintext = .ok r ∧
        row.localOnly = !r.syncSecret) ∧
    ∀ item, Passed (run sampleExternals standard fileBackend samplePeers sampleSteps).store.calls
        item →
      ∀ row plaintext, itemRowFromSync standard item = .ok row →
        decryptItem sampleExternals.aead sampleKey row.id row.version row.blob = .ok plaintext →
        ∀ r, sampleExternals.decode sampleExternals.texts.apiKey plaintext = .ok r →
          r.syncSecret = true := by
  have hc : sampleExternals.aead.Correct := transparent_correct KEY_LEN
  obtain ⟨hrows, hitems⟩ :=
    secrets_stay_local hc fileBackend_serves samplePeers_fresh sampleSteps_along
  constructor
  · intro d row hrow hkind
    exact (hrows d sampleId row hrow).2 hkind
  · intro item hitem row plaintext hrow hplain
    exact (hitems item hitem row plaintext hrow hplain).2

end Samples
end Tethra.SecretFleets
