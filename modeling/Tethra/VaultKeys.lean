import Tethra.SyncEngine
import Tethra.VaultRepository

set_option autoImplicit false

/-!
# One key in three places

The vault key is in memory, under the password in the header, and under the recovery key
in the header. Every operation keeps the three equal and the rows readable with them.
-/
namespace Tethra.VaultKeys
open AuthenticatedEncryption JsonValues StatefulActions SyncEngine SyncItems VaultCrypto
open RepositoryRequests VaultRepository VaultState VaultTypes
open StatefulActions.Action (fail read update ofExcept attempt mapError bind_ok bind_error)

section Keys
variable (aead : Aead KeyBytes) (kdf : Kdf)

/-- An AEAD whose ciphertexts open in one way only. -/
structure Ideal : Prop where
  correct : aead.Correct
  committing : aead.Committing
  canonical : aead.Canonical

/-- Some password opens the header, to this key. -/
def Wraps (header : VaultHeader) (vaultKey : VaultKey) : Prop :=
  ∃ password derived, deriveKeys kdf password header.salt header.argon2 = .ok derived ∧
    unwrapKey aead derived.encKey header.wrappedVaultKey = .ok vaultKey

/-- Some key opens the recovery wrap, to this key. -/
def Recovers (header : VaultHeader) (vaultKey : VaultKey) : Prop :=
  ∃ blob recovery, header.recoveryWrappedVaultKey = some blob ∧
    unwrapKey aead recovery blob = .ok vaultKey

/-- The row opens under the key. -/
def Readable (vaultKey : VaultKey) (row : ItemRow) : Prop :=
  ∃ plaintext, decryptItem aead vaultKey row.id row.version row.blob = .ok plaintext

structure Sound (v : Vault) : Prop where
  bare : v.db.header = none → v.state = .locked ∧ v.db.items.rows = []
  key : ∀ vaultKey authKey t, v.state = .unlocked vaultKey authKey t →
    ∃ header, v.db.header = some header ∧ Wraps aead kdf header vaultKey
  recovery : ∀ header vaultKey, v.db.header = some header → Recovers aead header vaultKey →
    Wraps aead kdf header vaultKey
  rows : ∀ header vaultKey, v.db.header = some header → Wraps aead kdf header vaultKey →
    ∀ row ∈ v.db.items.rows, Readable aead vaultKey row

variable {aead kdf}

theorem unwrapKey_unique (hi : Ideal aead) {key key' : KeyBytes} {blob : EncryptedBlob}
    {vaultKey vaultKey' : VaultKey} (h : unwrapKey aead key blob = .ok vaultKey)
    (h' : unwrapKey aead key' blob = .ok vaultKey') : key' = key ∧ vaultKey' = vaultKey := by
  obtain ⟨-, hopen⟩ := decryptRaw_eq_ok.1 (unwrapKey_eq_ok.1 h)
  obtain ⟨-, hopen'⟩ := decryptRaw_eq_ok.1 (unwrapKey_eq_ok.1 h')
  obtain ⟨hkey, hmessage⟩ := Aead.opens_unique hi.correct hi.committing hi.canonical hopen hopen'
  refine ⟨hkey, ?_⟩
  cases vaultKey
  cases vaultKey'
  exact congrArg VaultKey.mk (Subtype.ext hmessage)

theorem Wraps.unique (hi : Ideal aead) {header : VaultHeader} {vaultKey vaultKey' : VaultKey}
    (h : Wraps aead kdf header vaultKey) (h' : Wraps aead kdf header vaultKey') :
    vaultKey' = vaultKey := by
  obtain ⟨_, _, -, hopen⟩ := h
  obtain ⟨_, _, -, hopen'⟩ := h'
  exact (unwrapKey_unique hi hopen hopen').2

theorem unwrapKey_sealed (hi : Ideal aead) {key : KeyBytes} {nonce : Block NONCE_LEN}
    {vaultKey : VaultKey} {blob : EncryptedBlob} (h : wrapKey aead key nonce vaultKey = .ok blob) :
    unwrapKey aead key blob = .ok vaultKey :=
  unwrapKey_eq_ok.2 (decryptRaw_encryptRaw hi.correct h)

end Keys

/-! ## The steps before the header is written -/

/-- Header, items and lock state are as they were. -/
def Untouched (v w : Vault) : Prop := w.db = v.db ∧ w.state = v.state

theorem Untouched.refl (v : Vault) : Untouched v v := ⟨rfl, rfl⟩

theorem Untouched.trans {u v w : Vault} (h : Untouched u v) (h' : Untouched v w) :
    Untouched u w := ⟨h'.1.trans h.1, h'.2.trans h.2⟩

/-- The action only reads and draws. -/
abbrev Reads {α : Type} (m : VaultM α) : Prop := m.Within Untouched

section Reading
variable {α β : Type}

theorem reads_draw (supply : World → ℕ → α) : Reads (draw supply) := fun _ => ⟨rfl, rfl⟩

theorem reads_withDb (g : VaultDb → Except Error α) : Reads (withDb g) := fun v =>
  ⟨leaves_withDb (f := Vault.db) (fun _ _ => rfl) g v,
    leaves_withDb (f := Vault.state) (fun _ _ => rfl) g v⟩

theorem reads_ofExcept (r : Except Error α) : Reads (ofExcept r) := fun v => .refl v

theorem reads_read (f : Vault → α) : Reads (read f) := fun v => .refl v

theorem reads_pure (a : α) : Reads (pure a) := fun v => .refl v

theorem reads_fail (e : Error) : Reads (fail e : VaultM α) := fun v => .refl v

theorem reads_bind {m : VaultM α} {f : α → VaultM β} (hm : Reads m) (hf : ∀ a, Reads (f a)) :
    Reads (m >>= f) :=
  Action.Within.bind (R := Untouched) (fun h h' => h.trans h') hm hf

/-- After a reading step the sequence has failed with nothing touched, or goes on. -/
theorem reads_then {m : VaultM α} {f : α → VaultM β} (hm : Reads m) {v w : Vault}
    {r : Except Error β} (h : (m >>= f) v = (r, w)) :
    (∃ e, r = .error e ∧ Untouched v w) ∨
      ∃ a u, m v = (.ok a, u) ∧ Untouched v u ∧ f a u = (r, w) := by
  have huntouched := hm v
  rcases hrun : m v with ⟨q, u⟩
  rw [hrun] at huntouched
  cases q with
  | error e =>
    rw [bind_error hrun] at h
    cases h
    exact Or.inl ⟨e, rfl, huntouched⟩
  | ok a =>
    rw [bind_ok hrun] at h
    exact Or.inr ⟨a, u, rfl, huntouched, h⟩

theorem Untouched.step {m : VaultM α} {f : α → VaultM β} {v₀ v w : Vault} {r : Except Error β}
    (h₀ : Untouched v₀ v) (hm : Reads m) (h : (m >>= f) v = (r, w)) :
    (∃ e, r = .error e ∧ Untouched v₀ w) ∨
      ∃ a u, m v = (.ok a, u) ∧ Untouched v₀ u ∧ f a u = (r, w) := by
  obtain ⟨e, he, hw⟩ | ⟨a, u, hrun, hu, h⟩ := reads_then hm h
  · exact Or.inl ⟨e, he, h₀.trans hw⟩
  · exact Or.inr ⟨a, u, hrun, h₀.trans hu, h⟩

/-- The header, when the read succeeds. -/
theorem readHeader_run {v w : Vault} {header : VaultHeader}
    (h : withDb VaultDb.readHeader v = (.ok header, w)) : v.db.header = some header :=
  readHeader_eq_ok.1 (withDb_eq_ok h).1

end Reading

/-! ## What each operation does -/

section Operations
variable {aead : Aead KeyBytes} {kdf : Kdf} {v w : Vault}

/-- The header of `v` was written again with the same key under a new password. -/
structure Rewrapped (aead : Aead KeyBytes) (kdf : Kdf) (header : VaultHeader) (vaultKey : VaultKey)
    (password : Bytes) (v w : Vault) (derived : DerivedKeys) (next : VaultHeader) : Prop where
  derive : deriveKeys kdf password next.salt next.argon2 = .ok derived
  unwrap : unwrapKey aead derived.encKey next.wrappedVaultKey = .ok vaultKey
  recovery : next.recoveryWrappedVaultKey = header.recoveryWrappedVaultKey
  db : w.db = v.db.writeHeader next
  state : ∃ t, w.state = .unlocked vaultKey derived.authKey t

/-- A header write fails with nothing touched, or leaves the vault unlocked under it. -/
theorem writeHeader_spec {header : VaultHeader} {vaultKey : VaultKey} {authKey : KeyBytes}
    {α : Type} {next : VaultM α} {r : Except Error α}
    (h : ((withDbMut fun db => db.writeHeader header) >>= fun _ =>
      setUnlocked vaultKey authKey >>= fun _ => next) v = (r, w)) :
    (∃ e, r = .error e ∧ Untouched v w) ∨
      ∃ u t, u.db = v.db.writeHeader header ∧ u.state = .unlocked vaultKey authKey t ∧
        next u = (r, w) := by
  obtain ⟨e, he⟩ | hok := withDbMut_cases (fun db => db.writeHeader header) v
  · rw [bind_error he] at h
    cases h
    exact Or.inl ⟨e, rfl, rfl, rfl⟩
  · rw [bind_ok hok] at h
    exact Or.inr ⟨_, _, rfl, rfl, h⟩

theorem rewrap_spec (hi : Ideal aead) {header : VaultHeader} {vaultKey : VaultKey}
    {password : Bytes} {r : Except Error Unit}
    (h : rewrap aead kdf header vaultKey password v = (r, w)) :
    (∃ e, r = .error e ∧ Untouched v w) ∨
      (r = .ok () ∧ ∃ derived next, Rewrapped aead kdf header vaultKey password v w derived next) := by
  unfold rewrap at h
  obtain hfail | ⟨salt, v1, -, hv1, h⟩ := reads_then (reads_draw _) h
  · exact Or.inl hfail
  obtain hfail | ⟨derived, v2, hderive, hv2, h⟩ := hv1.step (reads_ofExcept _) h
  · exact Or.inl hfail
  obtain hfail | ⟨nonce, v3, -, hv3, h⟩ := hv2.step (reads_draw _) h
  · exact Or.inl hfail
  obtain hfail | ⟨wrapped, v4, hwrap, hv, h⟩ := hv3.step (reads_ofExcept _) h
  · exact Or.inl hfail
  have hwrap' := (Action.ofExcept_eq_ok.1 hwrap).1
  obtain ⟨e, he⟩ | hok := withDbMut_cases (fun db => db.writeHeader
    { header with salt := salt.1, argon2 := .default, wrappedVaultKey := wrapped }) v4
  · rw [bind_error he] at h
    cases h
    exact Or.inl ⟨e, rfl, hv⟩
  · rw [bind_ok hok] at h
    cases h
    refine Or.inr ⟨rfl, derived,
      { header with salt := salt.1, argon2 := .default, wrappedVaultKey := wrapped }, ?_⟩
    constructor
    case derive => exact (Action.ofExcept_eq_ok.1 hderive).1
    case unwrap => exact unwrapKey_sealed hi hwrap'
    case recovery => rfl
    case db => exact congrArg (fun db : VaultDb => db.writeHeader _) hv.1
    case state => exact ⟨_, rfl⟩

theorem changePassword_spec (hi : Ideal aead) {current password : Bytes} {r : Except Error Unit}
    (h : changePassword aead kdf current password v = (r, w)) :
    (∃ e, r = .error e ∧ Untouched v w) ∨
      (r = .ok () ∧ ∃ header vaultKey derived next, v.db.header = some header ∧
        Wraps aead kdf header vaultKey ∧
        Rewrapped aead kdf header vaultKey password v w derived next) := by
  unfold changePassword at h
  obtain hfail | ⟨header, v1, hheader, hv1, h⟩ := reads_then (reads_withDb _) h
  · exact Or.inl hfail
  obtain hfail | ⟨derived, v2, hderive, hv2, h⟩ := hv1.step (reads_ofExcept _) h
  · exact Or.inl hfail
  obtain hfail | ⟨vaultKey, v3, hunwrap, hv, h⟩ := hv2.step (reads_ofExcept _) h
  · exact Or.inl hfail
  obtain ⟨e, he, hw⟩ | ⟨hr, derived', next, hnext⟩ := rewrap_spec hi h
  · exact Or.inl ⟨e, he, hv.trans hw⟩
  · refine Or.inr ⟨hr, header, vaultKey, derived', next, readHeader_run hheader, ?_, ?_⟩
    · exact ⟨current, derived, (Action.ofExcept_eq_ok.1 hderive).1,
        (Action.ofExcept_eq_ok.1 hunwrap).1⟩
    · exact ⟨hnext.derive, hnext.unwrap, hnext.recovery, by rw [hnext.db, hv.1], hnext.state⟩

theorem unlock_spec {password : Bytes} {r : Except Error VaultStatus}
    (h : unlock aead kdf password v = (r, w)) :
    (∃ e, r = .error e ∧ Untouched v w) ∨
      ∃ u header vaultKey derived t, v.db.header = some header ∧
        deriveKeys kdf password header.salt header.argon2 = .ok derived ∧
        unwrapKey aead derived.encKey header.wrappedVaultKey = .ok vaultKey ∧
        u.db = v.db ∧ u.state = .unlocked vaultKey derived.authKey t ∧ status u = (r, w) := by
  unfold unlock existingHeader at h
  obtain hfail | ⟨header, v1, hheader, hv1, h⟩ := reads_then (reads_withDb _) h
  · exact Or.inl hfail
  obtain hfail | ⟨derived, v2, hderive, hv2, h⟩ := hv1.step (reads_ofExcept _) h
  · exact Or.inl hfail
  obtain hfail | ⟨vaultKey, v3, hunwrap, hv, h⟩ := hv2.step (reads_ofExcept _) h
  · exact Or.inl hfail
  change status { v3 with state := .unlocked vaultKey derived.authKey v3.world.now } = _ at h
  exact Or.inr ⟨{ v3 with state := .unlocked vaultKey derived.authKey v3.world.now }, header,
    vaultKey, derived, _, readHeader_run hheader, (Action.ofExcept_eq_ok.1 hderive).1,
    (Action.ofExcept_eq_ok.1 hunwrap).1, hv.1, rfl, h⟩

/-- The recovery wrap made for a new vault opens to the vault's key. -/
theorem tryRecoveryKey_spec (hi : Ideal aead) {vaultKey : VaultKey} :
    Reads (tryRecoveryKey aead vaultKey) ∧ ∀ v w blob,
      tryRecoveryKey aead vaultKey v = (.ok (some blob), w) →
        ∃ recovery, unwrapKey aead recovery blob = .ok vaultKey := by
  have hinstall : Reads (installRecoveryKey aead vaultKey) := by
    refine reads_bind (reads_draw _) fun recovery => reads_bind (reads_draw _) fun fault => ?_
    cases fault with
    | some e => cases e <;> exact reads_fail _
    | none =>
      refine reads_bind (fun v => ⟨rfl, rfl⟩) fun _ => ?_
      exact reads_bind (reads_draw _) fun nonce => reads_ofExcept _
  constructor
  · refine reads_bind (m := attempt (installRecoveryKey aead vaultKey)) hinstall fun outcome => ?_
    cases outcome with
    | ok blob => exact reads_pure _
    | error e => cases e <;> first | exact reads_pure _ | exact reads_fail _
  · intro v w blob h
    obtain ⟨outcome, u, hattempt, h⟩ := Action.bind_eq_ok.1 h
    have hrun := Action.attempt_eq_ok.1 hattempt
    cases outcome with
    | error e => cases e <;> cases h
    | ok blob' =>
      cases h
      obtain ⟨recovery, v1, -, hrun⟩ := Action.bind_eq_ok.1 hrun
      obtain ⟨fault, v2, -, hrun⟩ := Action.bind_eq_ok.1 hrun
      cases fault with
      | some e => cases e <;> cases hrun
      | none =>
        obtain ⟨_, v3, -, hrun⟩ := Action.bind_eq_ok.1 hrun
        obtain ⟨nonce, v4, -, hrun⟩ := Action.bind_eq_ok.1 hrun
        exact ⟨recovery, unwrapKey_sealed hi (Action.ofExcept_eq_ok.1 hrun).1⟩

/-- No header, or `VaultAlreadyExists`. -/
def checkMissing : VaultM Unit := do
  let exist ← withDb fun db => .ok db.hasHeader
  if exist then fail .vaultAlreadyExists else pure ()

/-- `create` between its check and its write. -/
def prepareHeader (aead : Aead KeyBytes) (kdf : Kdf) (password : Bytes) (enableRecovery : Bool) :
    VaultM (VaultHeader × VaultKey × KeyBytes) := do
  let salt ← draw World.saltAt
  let derived ← ofExcept (deriveKeys kdf password salt.1 .default)
  let vaultKey : VaultKey ← VaultKey.mk <$> draw World.keyAt
  let nonce ← draw World.nonceAt
  let wrapped ← ofExcept (wrapKey aead derived.encKey nonce vaultKey)
  let recoveryWrapped ← (if enableRecovery then tryRecoveryKey aead vaultKey else pure none)
  let createdAt ← read fun v => v.world.utcNow
  pure (⟨salt.1, .default, wrapped, recoveryWrapped, createdAt⟩, vaultKey, derived.authKey)

theorem create_eq (password : Bytes) (enableRecovery : Bool) :
    create aead kdf password enableRecovery = (do
      checkMissing
      let prepared ← prepareHeader aead kdf password enableRecovery
      withDbMut fun db => db.writeHeader prepared.1
      setUnlocked prepared.2.1 prepared.2.2
      status) := by
  unfold create checkMissing prepareHeader
  simp only [Action.bind_assoc, Action.pure_bind]
  congr 1
  funext exist
  cases exist <;> rfl

theorem reads_checkMissing : Reads checkMissing := by
  refine reads_bind (reads_withDb _) fun exist => ?_
  cases exist with
  | true => exact reads_fail _
  | false => exact reads_pure _

theorem checkMissing_ok {u : Unit} (h : checkMissing v = (.ok u, w)) : v.db.header = none := by
  obtain ⟨exist, v1, hexist, h⟩ := Action.bind_eq_ok.1 h
  cases exist with
  | true => cases h
  | false =>
    have hhas : v.db.header.isSome = false := Except.ok.inj (withDb_eq_ok hexist).1
    cases hheader : v.db.header with
    | none => rfl
    | some header => rw [hheader] at hhas; cases hhas

theorem reads_recovery (hi : Ideal aead) (enableRecovery : Bool) (vaultKey : VaultKey) :
    Reads (if enableRecovery then tryRecoveryKey aead vaultKey else pure none) := by
  cases enableRecovery with
  | true => exact (tryRecoveryKey_spec hi).1
  | false => exact reads_pure _

theorem prepareHeader_spec (hi : Ideal aead) {password : Bytes} {enableRecovery : Bool}
    {r : Except Error (VaultHeader × VaultKey × KeyBytes)}
    (h : prepareHeader aead kdf password enableRecovery v = (r, w)) :
    (∃ e, r = .error e ∧ Untouched v w) ∨
      ∃ header vaultKey derived, r = .ok (header, vaultKey, derived.authKey) ∧ Untouched v w ∧
        deriveKeys kdf password header.salt header.argon2 = .ok derived ∧
        unwrapKey aead derived.encKey header.wrappedVaultKey = .ok vaultKey ∧
        ∀ blob, header.recoveryWrappedVaultKey = some blob →
          ∃ recovery, unwrapKey aead recovery blob = .ok vaultKey := by
  unfold prepareHeader at h
  obtain hfail | ⟨salt, v1, -, hv1, h⟩ := reads_then (reads_draw _) h
  · exact Or.inl hfail
  obtain hfail | ⟨derived, v2, hderive, hv2, h⟩ := hv1.step (reads_ofExcept _) h
  · exact Or.inl hfail
  obtain hfail | ⟨vaultKey, v3, -, hv3, h⟩ := hv2.step (m := VaultKey.mk <$> draw World.keyAt)
    (reads_bind (reads_draw _) fun _ => reads_pure _) h
  · exact Or.inl hfail
  obtain hfail | ⟨nonce, v4, -, hv4, h⟩ := hv3.step (reads_draw _) h
  · exact Or.inl hfail
  obtain hfail | ⟨wrapped, v5, hwrap, hv5, h⟩ := hv4.step (reads_ofExcept _) h
  · exact Or.inl hfail
  obtain hfail | ⟨recovery, v6, hrecovery, hv6, h⟩ :=
    hv5.step (reads_recovery hi enableRecovery vaultKey) h
  · exact Or.inl hfail
  obtain hfail | ⟨createdAt, v7, -, hv7, h⟩ := hv6.step (reads_read _) h
  · exact Or.inl hfail
  cases h
  refine Or.inr ⟨_, vaultKey, derived, rfl, hv7, (Action.ofExcept_eq_ok.1 hderive).1,
    unwrapKey_sealed hi (Action.ofExcept_eq_ok.1 hwrap).1, fun blob hblob => ?_⟩
  cases hblob
  cases enableRecovery with
  | true => exact (tryRecoveryKey_spec hi).2 _ _ _ hrecovery
  | false => cases hrecovery

theorem reads_prepareHeader (hi : Ideal aead) (password : Bytes) (enableRecovery : Bool) :
    Reads (prepareHeader aead kdf password enableRecovery) := by
  intro v
  obtain ⟨_, -, hw⟩ | ⟨_, _, _, -, hw, -⟩ := prepareHeader_spec (v := v) hi rfl
  · exact hw
  · exact hw

theorem create_spec (hi : Ideal aead) {password : Bytes} {enableRecovery : Bool}
    {r : Except Error VaultStatus} (h : create aead kdf password enableRecovery v = (r, w)) :
    (∃ e, r = .error e ∧ Untouched v w) ∨
      ∃ u header vaultKey derived t, v.db.header = none ∧
        deriveKeys kdf password header.salt header.argon2 = .ok derived ∧
        unwrapKey aead derived.encKey header.wrappedVaultKey = .ok vaultKey ∧
        (∀ blob, header.recoveryWrappedVaultKey = some blob →
          ∃ recovery, unwrapKey aead recovery blob = .ok vaultKey) ∧
        u.db = v.db.writeHeader header ∧ u.state = .unlocked vaultKey derived.authKey t ∧
        status u = (r, w) := by
  rw [create_eq] at h
  obtain hfail | ⟨_, v1, hmissing, hv1, h⟩ := reads_then reads_checkMissing h
  · exact Or.inl hfail
  obtain hfail | ⟨prepared, v2, hprepared, hv2, h⟩ :=
    hv1.step (reads_prepareHeader hi password enableRecovery) h
  · exact Or.inl hfail
  obtain ⟨_, he, -⟩ | ⟨header, vaultKey, derived, hr, -, hderive, hunwrap, hrecovery⟩ :=
    prepareHeader_spec hi hprepared
  · cases he
  cases hr
  obtain ⟨e, he, hw⟩ | ⟨u, t, hdb, hstate, h⟩ := writeHeader_spec h
  · exact Or.inl ⟨e, he, hv2.trans hw⟩
  exact Or.inr ⟨u, header, vaultKey, derived, t, checkMissing_ok hmissing, hderive, hunwrap,
    hrecovery, by rw [hdb, hv2.1], hstate, h⟩

theorem recoverWithNewPassword_spec (hi : Ideal aead) {password : Bytes}
    {r : Except Error VaultStatus} (h : recoverWithNewPassword aead kdf password v = (r, w)) :
    (∃ e, r = .error e ∧ Untouched v w) ∨
      ∃ u header vaultKey derived next, v.db.header = some header ∧ Recovers aead header vaultKey ∧
        Rewrapped aead kdf header vaultKey password v u derived next ∧ status u = (r, w) := by
  unfold recoverWithNewPassword existingHeader at h
  obtain hfail | ⟨header, v1, hheader, hv1, h⟩ := reads_then (reads_withDb _) h
  · exact Or.inl hfail
  rcases hblob : header.recoveryWrappedVaultKey with _ | blob
  · rw [hblob] at h
    cases h
    exact Or.inl ⟨_, rfl, hv1⟩
  rw [hblob] at h
  obtain hfail | ⟨fault, v2, -, hv2, h⟩ := hv1.step (m := keyring) (reads_draw _) h
  · exact Or.inl hfail
  cases fault with
  | some f =>
    cases h
    exact Or.inl ⟨_, rfl, hv2⟩
  | none =>
  obtain hfail | ⟨secret, v3, -, hv, h⟩ := hv2.step (reads_read _) h
  · exact Or.inl hfail
  cases secret with
  | none =>
    cases h
    exact Or.inl ⟨_, rfl, hv⟩
  | some secret =>
  by_cases hlen : secret.length = KEY_LEN
  · change (dite (secret.length = KEY_LEN) _ _ : VaultM VaultStatus) v3 = _ at h
    rw [dif_pos hlen] at h
    obtain hfail | ⟨vaultKey, v4, hunwrap, hv4, h⟩ := hv.step
      (m := mapError _ (ofExcept _)) (fun v => .refl v) h
    · exact Or.inl hfail
    have hopen := (Action.ofExcept_eq_ok.1 (Action.mapError_eq_ok.1 hunwrap)).1
    rcases hrewrap : rewrap aead kdf header vaultKey password v4 with ⟨q, u⟩
    obtain ⟨e, rfl, hw⟩ | ⟨rfl, derived, next, hnext⟩ := rewrap_spec hi hrewrap
    · rw [bind_error hrewrap] at h
      cases h
      exact Or.inl ⟨e, rfl, hv4.trans hw⟩
    · rw [bind_ok hrewrap] at h
      refine Or.inr ⟨u, header, vaultKey, derived, next, readHeader_run hheader,
        ⟨blob, _, hblob, hopen⟩, ?_, h⟩
      exact ⟨hnext.derive, hnext.unwrap, hnext.recovery, by rw [hnext.db, hv4.1],
        hnext.state⟩
  · change (dite (secret.length = KEY_LEN) _ _ : VaultM VaultStatus) v3 = _ at h
    rw [dif_neg hlen] at h
    cases h
    exact Or.inl ⟨_, rfl, hv⟩

end Operations

/-! ## Every operation keeps the keys equal -/

section Soundness
variable {aead : Aead KeyBytes} {kdf : Kdf} {v w : Vault}

theorem Sound.of_same (h : Sound aead kdf v) (hdb : w.db = v.db)
    (hstate : w.state = .locked ∨ ∀ vaultKey authKey t, w.state = .unlocked vaultKey authKey t →
      ∃ authKey' t', v.state = .unlocked vaultKey authKey' t') : Sound aead kdf w where
  bare hnone := by
    rw [hdb] at hnone ⊢
    obtain ⟨hlocked, hrows⟩ := h.bare hnone
    refine ⟨?_, hrows⟩
    obtain hw | hw := hstate
    · exact hw
    · cases hs : w.state with
      | locked => rfl
      | unlocked vaultKey authKey t =>
        obtain ⟨authKey', t', hv⟩ := hw vaultKey authKey t hs
        rw [hlocked] at hv
        cases hv
  key vaultKey authKey t hw := by
    rw [hdb]
    obtain hlocked | hsame := hstate
    · rw [hlocked] at hw
      cases hw
    · obtain ⟨authKey', t', hv⟩ := hsame vaultKey authKey t hw
      exact h.key vaultKey authKey' t' hv
  recovery header vaultKey hheader := by
    rw [hdb] at hheader
    exact h.recovery header vaultKey hheader
  rows header vaultKey hheader := by
    rw [hdb] at hheader ⊢
    exact h.rows header vaultKey hheader

theorem Sound.of_untouched (h : Sound aead kdf v) (hw : Untouched v w) : Sound aead kdf w :=
  h.of_same hw.1 (Or.inr fun vaultKey authKey t hs => ⟨authKey, t, by rw [← hw.2, hs]⟩)

theorem Sound.locked (h : Sound aead kdf v) (hdb : w.db = v.db) (hstate : w.state = .locked) :
    Sound aead kdf w :=
  h.of_same hdb (Or.inl hstate)

theorem status_views {r : Except Error VaultStatus} (h : status v = (r, w)) :
    w.db = v.db ∧ (w.state = v.state ∨ w.state = .locked) := by
  have hdb := leaves_status (f := Vault.db) (fun _ _ => rfl) (fun _ _ => rfl) v
  have hstate := status_state v
  rw [h] at hdb hstate
  exact ⟨hdb, hstate⟩

theorem Sound.of_status (h : Sound aead kdf v) {r : Except Error VaultStatus}
    (hs : status v = (r, w)) : Sound aead kdf w := by
  obtain ⟨hdb, hstate | hstate⟩ := status_views hs
  · exact h.of_untouched ⟨hdb, hstate⟩
  · exact h.locked hdb hstate

/-- Unlocked with a key the stored header wraps. -/
theorem Sound.opened (h : Sound aead kdf v) {header : VaultHeader} {vaultKey : VaultKey}
    {authKey : KeyBytes} {t : Instant} (hheader : v.db.header = some header)
    (hwraps : Wraps aead kdf header vaultKey) (hdb : w.db = v.db)
    (hstate : w.state = .unlocked vaultKey authKey t) : Sound aead kdf w where
  bare hnone := by
    rw [hdb, hheader] at hnone
    cases hnone
  key vaultKey' authKey' t' hw := by
    rw [hstate] at hw
    cases hw
    exact ⟨header, by rw [hdb, hheader], hwraps⟩
  recovery header' vaultKey' hheader' := by
    rw [hdb] at hheader'
    exact h.recovery header' vaultKey' hheader'
  rows header' vaultKey' hheader' := by
    rw [hdb] at hheader' ⊢
    exact h.rows header' vaultKey' hheader'

/-- The header is replaced by one that wraps the same key under a password. -/
theorem Sound.rewritten (hi : Ideal aead) (h : Sound aead kdf v) {header next : VaultHeader}
    {vaultKey : VaultKey} (hheader : v.db.header = some header)
    (hwraps : Wraps aead kdf header vaultKey) (hnext : Wraps aead kdf next vaultKey)
    (hrecovery : next.recoveryWrappedVaultKey = header.recoveryWrappedVaultKey)
    (hdb : w.db = v.db.writeHeader next)
    (hstate : ∀ key authKey t, w.state = .unlocked key authKey t → key = vaultKey) :
    Sound aead kdf w := by
  have hstored : w.db.header = some next := by rw [hdb]; rfl
  constructor
  case bare =>
    intro hnone
    rw [hstored] at hnone
    cases hnone
  case key =>
    intro key authKey t hw
    rw [hstate key authKey t hw]
    exact ⟨next, hstored, hnext⟩
  case recovery =>
    intro header' key hheader' hrecovers
    rw [hstored] at hheader'
    cases hheader'
    obtain ⟨blob, recovery, hblob, hopen⟩ := hrecovers
    rw [hrecovery] at hblob
    rw [hwraps.unique hi (h.recovery header key hheader ⟨blob, recovery, hblob, hopen⟩)]
    exact hnext
  case rows =>
    intro header' key hheader' hkey row hrow
    rw [hstored] at hheader'
    cases hheader'
    rw [hnext.unique hi hkey]
    rw [hdb] at hrow
    exact h.rows header vaultKey hheader hwraps row hrow

theorem Rewrapped.wraps {header next : VaultHeader} {vaultKey : VaultKey} {password : Bytes}
    {derived : DerivedKeys} (h : Rewrapped aead kdf header vaultKey password v w derived next) :
    Wraps aead kdf next vaultKey :=
  ⟨password, derived, h.derive, h.unwrap⟩

theorem Rewrapped.sound (hi : Ideal aead) (hv : Sound aead kdf v) {header next : VaultHeader}
    {vaultKey : VaultKey} {password : Bytes} {derived : DerivedKeys}
    (h : Rewrapped aead kdf header vaultKey password v w derived next)
    (hheader : v.db.header = some header) (hwraps : Wraps aead kdf header vaultKey) :
    Sound aead kdf w := by
  refine hv.rewritten hi hheader hwraps h.wraps h.recovery h.db ?_
  intro key authKey t hw
  obtain ⟨t', hstate⟩ := h.state
  rw [hstate] at hw
  cases hw
  rfl

theorem Sound.changePassword (hi : Ideal aead) (h : Sound aead kdf v) {current password : Bytes}
    {r : Except Error Unit} (hrun : changePassword aead kdf current password v = (r, w)) :
    Sound aead kdf w := by
  obtain ⟨e, -, hw⟩ | ⟨-, header, vaultKey, derived, next, hheader, hwraps, hnext⟩ :=
    changePassword_spec hi hrun
  · exact h.of_untouched hw
  · exact hnext.sound hi h hheader hwraps

theorem Sound.unlock (h : Sound aead kdf v) {password : Bytes} {r : Except Error VaultStatus}
    (hrun : unlock aead kdf password v = (r, w)) : Sound aead kdf w := by
  obtain ⟨e, -, hw⟩ | ⟨u, header, vaultKey, derived, t, hheader, hderive, hunwrap, hdb, hstate,
    hstatus⟩ := unlock_spec hrun
  · exact h.of_untouched hw
  · exact (h.opened hheader ⟨password, derived, hderive, hunwrap⟩ hdb hstate).of_status hstatus

theorem Sound.recoverWithNewPassword (hi : Ideal aead) (h : Sound aead kdf v) {password : Bytes}
    {r : Except Error VaultStatus}
    (hrun : recoverWithNewPassword aead kdf password v = (r, w)) : Sound aead kdf w := by
  obtain ⟨e, -, hw⟩ | ⟨u, header, vaultKey, derived, next, hheader, hrecovers, hnext, hstatus⟩ :=
    recoverWithNewPassword_spec hi hrun
  · exact h.of_untouched hw
  · have hwraps := h.recovery header vaultKey hheader hrecovers
    exact (hnext.sound hi h hheader hwraps).of_status hstatus

theorem Sound.create (hi : Ideal aead) (h : Sound aead kdf v) {password : Bytes}
    {enableRecovery : Bool} {r : Except Error VaultStatus}
    (hrun : create aead kdf password enableRecovery v = (r, w)) : Sound aead kdf w := by
  obtain ⟨e, -, hw⟩ | ⟨u, header, vaultKey, derived, t, hnone, hderive, hunwrap, hrecovery, hdb,
    hstate, hstatus⟩ := create_spec hi hrun
  · exact h.of_untouched hw
  · have hwraps : Wraps aead kdf header vaultKey := ⟨password, derived, hderive, hunwrap⟩
    have hstored : u.db.header = some header := by rw [hdb]; rfl
    have hrows : u.db.items.rows = [] := by
      rw [hdb]
      exact (h.bare hnone).2
    refine Sound.of_status (v := u) ?_ hstatus
    constructor
    case bare =>
      intro hbare
      rw [hstored] at hbare
      cases hbare
    case key =>
      intro key authKey t' hw
      rw [hstate] at hw
      cases hw
      exact ⟨header, hstored, hwraps⟩
    case recovery =>
      intro header' key hheader' hrecovers
      rw [hstored] at hheader'
      cases hheader'
      obtain ⟨blob, recovery, hblob, hopen⟩ := hrecovers
      obtain ⟨recovery', hopen'⟩ := hrecovery blob hblob
      rw [(unwrapKey_unique hi hopen' hopen).2]
      exact hwraps
    case rows =>
      intro header' key _ _ row hrow
      rw [hrows] at hrow
      cases hrow

/-- No header, no rows, and locked. -/
def Bare (v : Vault) : Prop := v.db = VaultDb.empty ∧ v.state = .locked

theorem Bare.sound (h : Bare v) : Sound aead kdf v := by
  obtain ⟨hdb, hstate⟩ := h
  constructor
  case bare =>
    intro _
    refine ⟨hstate, ?_⟩
    rw [hdb]
    rfl
  case key =>
    intro key authKey t hv
    rw [hstate] at hv
    cases hv
  case recovery =>
    intro header key hheader
    rw [hdb] at hheader
    cases hheader
  case rows =>
    intro header key hheader
    rw [hdb] at hheader
    cases hheader

theorem keeps_bare_status : status.Keeps Bare := by
  intro u hu
  obtain ⟨hdb, hstate⟩ := status_views (v := u) rfl
  refine ⟨hdb.trans hu.1, ?_⟩
  obtain hstate | hstate := hstate
  · exact hstate.trans hu.2
  · exact hstate

theorem Bare.after {α : Type} {m : VaultM α} (hm : m.Keeps Bare) (h : Bare v)
    {r : Except Error α} (hrun : m v = (r, w)) : Bare w := by
  have hw := hm v h
  rwa [hrun] at hw

theorem Sound.reset (h : Sound aead kdf v) {r : Except Error VaultStatus}
    (hrun : reset v = (r, w)) : Sound aead kdf w := by
  unfold VaultState.reset at hrun
  change (withDbMut VaultDb.wipe >>= _) { v with state := .locked } = _ at hrun
  obtain ⟨e, he⟩ | hok := withDbMut_cases VaultDb.wipe { v with state := .locked }
  · rw [bind_error he] at hrun
    cases hrun
    exact h.locked rfl rfl
  · rw [bind_ok hok] at hrun
    refine (Bare.after ?_ ?_ hrun).sound
    · refine Action.Keeps.bind (m := keyring) (fun u hu => hu) fun fault => ?_
      cases fault with
      | some f => exact keeps_bare_status
      | none =>
        exact Action.Keeps.bind (m := update _) (fun u hu => hu) fun _ => keeps_bare_status
    · exact ⟨rfl, rfl⟩

end Soundness

end Tethra.VaultKeys
