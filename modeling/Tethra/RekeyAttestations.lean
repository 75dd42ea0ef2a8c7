import Tethra.SyncEngine

set_option autoImplicit false

/-!
# What a re-key attestation binds

The attestation seals salt, nonce and ciphertext of the new wrap as one string. The
predecessor and the Argon2 parameters travel beside it.
-/
namespace Tethra.RekeyAttestations
open AtomicPrograms AuthenticatedEncryption StatefulActions
open SyncEngine SyncFileBackend SyncItems VaultCrypto VaultState VaultTypes

/-- A call of `build_rekey_from` with its result. -/
structure RekeyCall where
  previous : SyncedVaultHeader
  next : SyncedVaultHeader
  vaultKey : VaultKey
  nonce : Block NONCE_LEN
  rekey : RekeyFrom

def RekeyCall.Made (aead : Aead KeyBytes) (call : RekeyCall) : Prop :=
  buildRekeyFrom aead call.previous call.next call.vaultKey call.nonce = .ok call.rekey

/-- Only `build_rekey_from` seals with the re-key label. -/
def SealedByCalls (calls : List RekeyCall) (s : Aead.Sealing KeyBytes) : Prop :=
  s.aad = REKEY_AAD → ∃ call ∈ calls, call.vaultKey.expose = s.key ∧
    call.rekey.attestation = ⟨s.nonce, s.ciphertext⟩ ∧ attestationPlaintext call.next = s.message

/-- A key holder published `next` as the successor of `previous`. -/
def PublishedSuccessor (calls : List RekeyCall) (vaultKey : VaultKey)
    (previous next : SyncedVaultHeader) : Prop :=
  ∃ call ∈ calls, call.vaultKey = vaultKey ∧ sameVault call.previous previous = true ∧
    sameVault call.next next = true

def Binding (aead : Aead KeyBytes) (calls : List RekeyCall) (vaultKey : VaultKey)
    (previous next : SyncedVaultHeader) : Prop :=
  verifyRekeyAttestation aead vaultKey previous next = .ok true →
    PublishedSuccessor calls vaultKey previous next

/-- `next` names `previous` and carries a sealed attestation over its concatenated bytes. -/
def CarriesAttestation (calls : List RekeyCall) (vaultKey : VaultKey)
    (previous next : SyncedVaultHeader) : Prop :=
  ∃ rekey, next.rekeyFrom = some rekey ∧ headerMatchesPrevious previous rekey = true ∧
    ∃ call ∈ calls, call.vaultKey = vaultKey ∧ call.rekey.attestation = rekey.attestation ∧
      attestationPlaintext call.next = attestationPlaintext next

/-- Some call over the bytes of `next` also had what the bytes leave out: the field lengths,
the Argon2 parameters and the predecessor. -/
def OutsideCovered (calls : List RekeyCall) (vaultKey : VaultKey)
    (previous next : SyncedVaultHeader) : Prop :=
  ∃ call ∈ calls, call.vaultKey = vaultKey ∧
    attestationPlaintext call.next = attestationPlaintext next ∧
    call.next.salt.length = next.salt.length ∧
    call.next.wrappedVaultKey.nonce.length = next.wrappedVaultKey.nonce.length ∧
    call.next.argon2 = next.argon2 ∧ sameVault call.previous previous = true

/-- With the field lengths fixed the attested bytes determine the attested fields. -/
theorem attestationPlaintext_inj {a b : SyncedVaultHeader}
    (h : attestationPlaintext a = attestationPlaintext b) (hsalt : a.salt.length = b.salt.length)
    (hnonce : a.wrappedVaultKey.nonce.length = b.wrappedVaultKey.nonce.length) :
    a.salt = b.salt ∧ a.wrappedVaultKey = b.wrappedVaultKey := by
  unfold attestationPlaintext at h
  rw [List.append_assoc, List.append_assoc] at h
  obtain ⟨hs, hrest⟩ := List.append_inj h hsalt
  obtain ⟨hn, hc⟩ := List.append_inj hrest hnonce
  refine ⟨hs, ?_⟩
  cases ha : a.wrappedVaultKey
  cases hb : b.wrappedVaultKey
  rw [ha, hb] at hn hc
  exact congrArg₂ EncryptedBlob.mk hn hc

theorem publishedSuccessor_iff_covered {calls : List RekeyCall} {vaultKey : VaultKey}
    {previous next : SyncedVaultHeader} :
    PublishedSuccessor calls vaultKey previous next ↔
      OutsideCovered calls vaultKey previous next := by
  constructor
  · rintro ⟨call, hcall, hkey, hprev, hnext⟩
    obtain ⟨hs, ha, hw⟩ := sameVault_iff.1 hnext
    refine ⟨call, hcall, hkey, ?_, by rw [hs], by rw [hw], ha, hprev⟩
    rw [attestationPlaintext, attestationPlaintext, hs, hw]
  · rintro ⟨call, hcall, hkey, hbytes, hsalt, hnonce, hargon, hprev⟩
    obtain ⟨hs, hw⟩ := attestationPlaintext_inj hbytes hsalt hnonce
    exact ⟨call, hcall, hkey, hprev, sameVault_iff.2 ⟨hs, hargon, hw⟩⟩

section Ideal
variable {aead : Aead KeyBytes} {calls : List RekeyCall} {vaultKey : VaultKey}

/-- What verifies carries a sealed attestation. -/
theorem carries_of_verify (hideal : aead.Unforgeable vaultKey.expose (SealedByCalls calls))
    {previous next : SyncedVaultHeader}
    (h : verifyRekeyAttestation aead vaultKey previous next = .ok true) :
    CarriesAttestation calls vaultKey previous next := by
  obtain ⟨rekey, hr, hm, ho⟩ := verifyRekeyAttestation_eq_ok_true.1 h
  obtain ⟨-, hd⟩ := decryptRaw_eq_ok.1 ho
  obtain ⟨call, hcall, hkey, hatt, hbytes⟩ := hideal _ _ _ _ hd rfl
  refine ⟨rekey, hr, hm, call, hcall, ?_, hatt, hbytes⟩
  cases hk : call.vaultKey
  cases vaultKey
  rw [hk] at hkey
  exact congrArg VaultKey.mk hkey

/-- What carries a sealed attestation verifies. -/
theorem verify_of_carries (hc : aead.Correct) (hmade : ∀ call ∈ calls, call.Made aead)
    {previous next : SyncedVaultHeader} (h : CarriesAttestation calls vaultKey previous next) :
    verifyRekeyAttestation aead vaultKey previous next = .ok true := by
  obtain ⟨rekey, hr, hm, call, hcall, hkey, hatt, hbytes⟩ := h
  obtain ⟨-, hseal⟩ := buildRekeyFrom_eq_ok.1 (hmade call hcall)
  rw [hatt, hkey, hbytes] at hseal
  exact verifyRekeyAttestation_eq_ok_true.2 ⟨rekey, hr, hm, decryptRaw_encryptRaw hc hseal⟩

theorem binding_iff (hc : aead.Correct) (hmade : ∀ call ∈ calls, call.Made aead)
    (hideal : aead.Unforgeable vaultKey.expose (SealedByCalls calls))
    (previous next : SyncedVaultHeader) :
    Binding aead calls vaultKey previous next ↔
      (CarriesAttestation calls vaultKey previous next →
        OutsideCovered calls vaultKey previous next) := by
  rw [Binding, publishedSuccessor_iff_covered]
  exact ⟨fun h hcar => h (verify_of_carries hc hmade hcar),
    fun h hver => h (carries_of_verify hideal hver)⟩

end Ideal

section Adoption
variable {β : Type}

private theorem adoptSyncHeader_ends (remote : SyncedVaultHeader) (s : Engine × β) :
    (adoptSyncHeader remote : EngineM β Unit).run.Ends (fun _ t =>
      t.1.vault.db.header = s.1.vault.db.header ∨ ∃ old, s.1.vault.db.header = some old ∧
        t.1.vault.db.header = some (adoptHeader old remote)) s := by
  rw [adoptSyncHeader, Program.run_bind]
  refine Action.Ends.bind (readHeader_ends s) ?_ ?_
  · rintro old t ⟨ht, -, -, -, hold⟩
    rw [Action.Ends, onVault_run]
    obtain ⟨e, he⟩ | hok := withDbMut_cases (fun db => db.writeHeader (adoptHeader old remote))
      t.1.vault
    · rw [he]
      exact Or.inl (congrArg VaultDb.header ht)
    · rw [hok]
      exact Or.inr ⟨old, hold old rfl, rfl⟩
  · exact fun e t ht => Or.inl (congrArg VaultDb.header ht.1)

/-- `adopt_remote_rekey_if_needed` changes the header only to one that verified against it. -/
theorem adoptRemoteRekey_ends (aead : Aead KeyBytes) (backend : SyncBackend β) (s : Engine × β) :
    (adoptRemoteRekeyIfNeeded aead backend).run.Ends (fun _ t =>
      t.1.vault.db.header = s.1.vault.db.header ∨
      ∃ old remote vaultKey authKey last, s.1.vault.db.header = some old ∧
        (backend.getHeader s.2).1 = .ok (some remote) ∧
        s.1.vault.state = .unlocked vaultKey authKey last ∧
        verifyRekeyAttestation aead vaultKey (exportHeader old) remote = .ok true ∧
        t.1.vault.db.header = some (adoptHeader old remote)) s := by
  rw [adoptRemoteRekeyIfNeeded, Program.run_bind]
  refine Action.Ends.bind (P := fun r t => t.1 = s.1 ∧ (backend.getHeader s.2).1 = r) ?_ ?_ ?_
  · rw [Action.Ends, onBackend_run]
    exact ⟨rfl, rfl⟩
  · rintro found t ⟨ht, hget⟩
    cases found with
    | none => exact Or.inl (by rw [← ht]; rfl)
    | some remote =>
      rw [Program.run_bind]
      refine Action.Ends.bind (exportSyncHeader_ends t) ?_ ?_
      · rintro header u ⟨hdb, hstate, -, -, hheader⟩
        obtain ⟨old, hold, rfl⟩ := hheader header rfl
        rw [ht] at hdb hstate hold
        by_cases hsame : sameVault remote (exportHeader old) = true
        · rw [if_pos hsame]
          exact Or.inl (congrArg VaultDb.header hdb)
        rw [if_neg hsame, Program.run_bind]
        refine Action.Ends.bind (P := fun r w => w.1.vault.db = s.1.vault.db ∧
          ∀ key, r = .ok key → ∃ authKey last,
            s.1.vault.state = .unlocked key authKey last) ?_ ?_ ?_
        · rw [Action.Ends, onVault_run]
          refine ⟨(leaves_requireKey (f := Vault.db) (fun _ _ => rfl) _).trans hdb, ?_⟩
          intro key hkey
          obtain ⟨authKey, last, hun, -⟩ := requireKey_eq_ok (Prod.ext hkey rfl)
          exact ⟨authKey, last, hstate ▸ hun⟩
        · rintro key w ⟨hwdb, hkey⟩
          obtain ⟨authKey, last, hun⟩ := hkey key rfl
          rw [Program.run_bind, Program.run_lift]
          refine Action.Ends.bind (P := fun r x => x = w ∧
            verifyRekeyAttestation aead key (exportHeader old) remote = r) ⟨rfl, rfl⟩ ?_ ?_
          · rintro verified x ⟨rfl, hver⟩
            cases verified with
            | false => exact Or.inl (congrArg VaultDb.header hwdb)
            | true =>
              rw [if_pos rfl]
              obtain hsame' | ⟨old', hold', hnew⟩ := adoptSyncHeader_ends remote x
              · exact Or.inl (hsame'.trans (congrArg VaultDb.header hwdb))
              · rw [hwdb, hold, Option.some.injEq] at hold'
                subst hold'
                exact Or.inr ⟨old, remote, key, authKey, last, hold, hget, hun, hver, hnew⟩
          · rintro e x ⟨rfl, -⟩
            exact Or.inl (congrArg VaultDb.header hwdb)
        · exact fun e w hw => Or.inl (congrArg VaultDb.header hw.1)
      · rintro e u ⟨hdb, -⟩
        rw [ht] at hdb
        exact Or.inl (congrArg VaultDb.header hdb)
  · rintro e t ⟨ht, -⟩
    exact Or.inl (by rw [ht])

end Adoption

/-- Verification is binding exactly where the fields outside the seal are covered, and what an
adoption installs was published as the successor exactly then. -/
theorem rekeyAttestation_binding_iff {aead : Aead KeyBytes} {calls : List RekeyCall}
    {vaultKey : VaultKey} (hc : aead.Correct) (hmade : ∀ call ∈ calls, call.Made aead)
    (hideal : aead.Unforgeable vaultKey.expose (SealedByCalls calls)) :
    (∀ previous next, Binding aead calls vaultKey previous next ↔
      (CarriesAttestation calls vaultKey previous next →
        OutsideCovered calls vaultKey previous next)) ∧
    ∀ (β : Type) (backend : SyncBackend β) (s : Engine × β) (authKey : KeyBytes) (last : Instant),
      s.1.vault.state = .unlocked vaultKey authKey last →
      ((adoptRemoteRekeyIfNeeded aead backend).run s).2.1.vault.db.header ≠
        s.1.vault.db.header →
      ∃ old remote, s.1.vault.db.header = some old ∧
        ((adoptRemoteRekeyIfNeeded aead backend).run s).2.1.vault.db.header =
          some (adoptHeader old remote) ∧
        (PublishedSuccessor calls vaultKey (exportHeader old) remote ↔
          (CarriesAttestation calls vaultKey (exportHeader old) remote →
            OutsideCovered calls vaultKey (exportHeader old) remote)) := by
  refine ⟨binding_iff hc hmade hideal, ?_⟩
  intro β backend s authKey last hstate hchanged
  obtain hsame | ⟨old, remote, key, auth, t, hold, -, hun, hver, hnew⟩ :=
    adoptRemoteRekey_ends aead backend s
  · exact absurd hsame hchanged
  · rw [hstate, LockState.unlocked.injEq] at hun
    obtain ⟨rfl, -, -⟩ := hun
    refine ⟨old, remote, hold, hnew, ?_⟩
    have hcar := carries_of_verify hideal hver
    rw [publishedSuccessor_iff_covered]
    exact ⟨fun h _ => h, fun h => h hcar⟩

/-! ## One attested re-key, recombined -/

section Recombination

def sampleKey : VaultKey := ⟨Block.fill 32 7⟩

def sampleNonce : Block NONCE_LEN := Block.fill NONCE_LEN 9

def sampleHeader (salt : UInt8) : SyncedVaultHeader :=
  ⟨List.replicate 16 salt, .default, ⟨List.replicate 24 salt, [salt]⟩, 0, none⟩

def sampleSealing : Aead.Sealing KeyBytes :=
  ⟨sampleKey.expose, sampleNonce.1, attestationPlaintext (sampleHeader 2), REKEY_AAD,
    transparentLabel sampleKey.expose REKEY_AAD ++ attestationPlaintext (sampleHeader 2)⟩

def sampleRekey : RekeyFrom :=
  ⟨(sampleHeader 1).salt, (sampleHeader 1).argon2, (sampleHeader 1).wrappedVaultKey,
    ⟨sampleNonce.1, sampleSealing.ciphertext⟩⟩

/-- A key holder changes the password from header 1 to header 2. -/
def sampleCall : RekeyCall := ⟨sampleHeader 1, sampleHeader 2, sampleKey, sampleNonce, sampleRekey⟩

/-- Header 2 with other Argon2 parameters. -/
def weakenedHeader : SyncedVaultHeader :=
  { sampleHeader 2 with argon2 := ⟨8, 1, 1⟩, rekeyFrom := some sampleRekey }

/-- Header 2 as the successor of header 3. -/
def redirectedHeader : SyncedVaultHeader :=
  { sampleHeader 2 with
    rekeyFrom := some { sampleRekey with
      previousSalt := (sampleHeader 3).salt
      previousWrappedVaultKey := (sampleHeader 3).wrappedVaultKey } }

theorem sampleCall_made : ∀ call ∈ [sampleCall], call.Made (recorded [sampleSealing]) := by
  intro call hcall
  rw [List.mem_singleton] at hcall
  subst hcall
  refine buildRekeyFrom_eq_ok.2 ⟨by decide, encryptRaw_eq_ok.2 ⟨?_, rfl⟩⟩
  exact recorded_encrypt.2 ⟨rfl, List.mem_singleton_self _⟩

theorem sampleSealing_ideal :
    (recorded [sampleSealing]).Unforgeable sampleKey.expose (SealedByCalls [sampleCall]) := by
  intro nonce ciphertext aad message h haad
  have hlog := List.mem_singleton.1
    (recorded_unforgeable sampleKey.expose [sampleSealing] nonce ciphertext aad message h)
  rw [sampleSealing, Aead.Sealing.mk.injEq] at hlog
  obtain ⟨-, rfl, rfl, -, rfl⟩ := hlog
  exact ⟨sampleCall, List.mem_singleton_self _, rfl, rfl, rfl⟩

private theorem sample_opens :
    openWithVaultKey (recorded [sampleSealing]) sampleKey REKEY_AAD sampleRekey.attestation =
      .ok (attestationPlaintext (sampleHeader 2)) :=
  decryptRaw_eq_ok.2 ⟨rfl, recorded_decrypt.2 ⟨rfl, List.mem_singleton_self _⟩⟩

/-- The only call was for headers 1 and 2, yet a header with weaker Argon2 parameters verifies
as the successor of header 1 and header 2 verifies as the successor of header 3. -/
theorem rekeyAttestation_recombines :
    (∀ call ∈ [sampleCall], call.Made (recorded [sampleSealing])) ∧
    (recorded [sampleSealing]).Unforgeable sampleKey.expose (SealedByCalls [sampleCall]) ∧
    ¬ Binding (recorded [sampleSealing]) [sampleCall] sampleKey (sampleHeader 1) weakenedHeader ∧
    ¬ Binding (recorded [sampleSealing]) [sampleCall] sampleKey (sampleHeader 3)
      redirectedHeader := by
  refine ⟨sampleCall_made, sampleSealing_ideal, ?_, ?_⟩
  · intro h
    have hver : verifyRekeyAttestation (recorded [sampleSealing]) sampleKey (sampleHeader 1)
        weakenedHeader = .ok true :=
      verifyRekeyAttestation_eq_ok_true.2 ⟨sampleRekey, rfl, by decide, sample_opens⟩
    obtain ⟨call, hcall, -, -, hnext⟩ := h hver
    rw [List.mem_singleton] at hcall
    subst hcall
    exact absurd hnext (by decide)
  · intro h
    have hver : verifyRekeyAttestation (recorded [sampleSealing]) sampleKey (sampleHeader 3)
        redirectedHeader = .ok true :=
      verifyRekeyAttestation_eq_ok_true.2 ⟨_, rfl, by decide, sample_opens⟩
    obtain ⟨call, hcall, -, hprev, -⟩ := h hver
    rw [List.mem_singleton] at hcall
    subst hcall
    exact absurd hprev (by decide)

/-- A backend that answers every request for the header with `header`. -/
def sampleBackend (header : SyncedVaultHeader) : SyncBackend Unit where
  pull _ := pure ([], SyncCursor.default)
  push _ := pure SyncCursor.default
  getHeader := pure (some header)
  putHeader _ := pure ()

def sampleEngine : Engine where
  vault := ⟨⟨some (importHeader (sampleHeader 1)), KeyedTables.Table.empty⟩, none,
    .unlocked sampleKey sampleKey.expose 0, IDLE_LOCK_DISABLED, World.quiet⟩
  cursor := SyncCursor.default

/-- Header 2 as it was published. -/
def attestedHeader : SyncedVaultHeader := { sampleHeader 2 with rekeyFrom := some sampleRekey }

theorem rekeyAttestation_binding_iff_sample :
    (Binding (recorded [sampleSealing]) [sampleCall] sampleKey (sampleHeader 1) attestedHeader ↔
      (CarriesAttestation [sampleCall] sampleKey (sampleHeader 1) attestedHeader →
        OutsideCovered [sampleCall] sampleKey (sampleHeader 1) attestedHeader)) ∧
    ∃ old remote, sampleEngine.vault.db.header = some old ∧
      ((adoptRemoteRekeyIfNeeded (recorded [sampleSealing])
          (sampleBackend attestedHeader)).run (sampleEngine, ())).2.1.vault.db.header =
        some (adoptHeader old remote) ∧
      (PublishedSuccessor [sampleCall] sampleKey (exportHeader old) remote ↔
        (CarriesAttestation [sampleCall] sampleKey (exportHeader old) remote →
          OutsideCovered [sampleCall] sampleKey (exportHeader old) remote)) := by
  have h := rekeyAttestation_binding_iff (recorded_correct [sampleSealing]) sampleCall_made
    sampleSealing_ideal
  exact ⟨h.1 _ _, h.2 Unit (sampleBackend attestedHeader) (sampleEngine, ()) _ _ rfl (by decide)⟩

end Recombination
end Tethra.RekeyAttestations
