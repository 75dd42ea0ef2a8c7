import Tethra.VaultTypes

set_option autoImplicit false

/-!
# Key wrapping and item encryption

The cipher is a parameter; nonces are handed in by the caller, who draws them.
-/
namespace Tethra.VaultCrypto
open AuthenticatedEncryption VaultTypes

/-- `b"vault-key-wrap-v1"`. -/
def vaultKeyWrapAad : Bytes :=
  [118, 97, 117, 108, 116, 45, 107, 101, 121, 45, 119, 114, 97, 112, 45, 118, 49]

/-- `b"tethra-rekey-attestation-v1"`. -/
def REKEY_AAD : Bytes :=
  [116, 101, 116, 104, 114, 97, 45, 114, 101, 107, 101, 121, 45, 97, 116, 116, 101, 115, 116,
    97, 116, 105, 111, 110, 45, 118, 49]

def toLeBytes (version : UInt64) : Bytes :=
  (List.range 8).map fun i => UInt8.ofNat (version.toNat / 256 ^ i)

def itemAad (itemId : Uuid) (version : UInt64) : Bytes := itemId.asBytes.1 ++ toLeBytes version

section Cipher
variable (aead : Aead KeyBytes)

def encryptRaw (key : KeyBytes) (nonce : Block NONCE_LEN) (plaintext aad : Bytes) :
    Except Error EncryptedBlob :=
  match aead.encrypt key nonce.1 plaintext aad with
  | some ciphertext => .ok ⟨nonce.1, ciphertext⟩
  | none => .error (.crypto "encrypt failed: aead::Error")

def decryptRaw (key : KeyBytes) (blob : EncryptedBlob) (aad : Bytes) : Except Error Bytes :=
  if blob.nonce.length ≠ NONCE_LEN then
    .error (.crypto ("nonce must be " ++ toString NONCE_LEN ++ " bytes, got " ++
      toString blob.nonce.length))
  else
    match aead.decrypt key blob.nonce blob.ciphertext aad with
    | some plaintext => .ok plaintext
    | none => .error (.crypto "decrypt failed: aead::Error")

def wrapKey (wrappingKey : KeyBytes) (nonce : Block NONCE_LEN) (vaultKey : VaultKey) :
    Except Error EncryptedBlob :=
  encryptRaw aead wrappingKey nonce vaultKey.expose.1 vaultKeyWrapAad

def unwrapKey (wrappingKey : KeyBytes) (blob : EncryptedBlob) : Except Error VaultKey :=
  match decryptRaw aead wrappingKey blob vaultKeyWrapAad with
  | .ok plaintext =>
    if h : plaintext.length = KEY_LEN then .ok ⟨⟨plaintext, h⟩⟩ else .error .incorrectPassword
  | .error (.crypto _) => .error .incorrectPassword
  | .error other => .error other

def sealWithVaultKey (vaultKey : VaultKey) (nonce : Block NONCE_LEN) (aad plaintext : Bytes) :
    Except Error EncryptedBlob :=
  encryptRaw aead vaultKey.expose nonce plaintext aad

def openWithVaultKey (vaultKey : VaultKey) (aad : Bytes) (blob : EncryptedBlob) :
    Except Error Bytes :=
  decryptRaw aead vaultKey.expose blob aad

def encryptItem (vaultKey : VaultKey) (nonce : Block NONCE_LEN) (itemId : Uuid)
    (version : UInt64) (plaintext : Bytes) : Except Error EncryptedBlob :=
  encryptRaw aead vaultKey.expose nonce plaintext (itemAad itemId version)

def decryptItem (vaultKey : VaultKey) (itemId : Uuid) (version : UInt64) (blob : EncryptedBlob) :
    Except Error Bytes :=
  decryptRaw aead vaultKey.expose blob (itemAad itemId version)

end Cipher

theorem toLeBytes_inj {v w : UInt64} (h : toLeBytes v = toLeBytes w) : v = w := by
  have hv := v.toNat_lt
  have hw := w.toNat_lt
  simp only [toLeBytes, List.range, List.range.loop, List.map_cons, List.map_nil, List.cons.injEq,
    and_true, ← UInt8.toNat_inj, UInt8.toNat_ofNat'] at h
  norm_num at h
  apply UInt64.toNat_inj.1
  omega

theorem toLeBytes_length (v : UInt64) : (toLeBytes v).length = 8 := by
  simp [toLeBytes]

theorem itemAad_length (id : Uuid) (version : UInt64) : (itemAad id version).length = 24 := by
  simp [itemAad, toLeBytes_length, id.asBytes.2]

/-- The associated data of an item names its id and its version. -/
theorem itemAad_inj {id id' : Uuid} {version version' : UInt64}
    (h : itemAad id version = itemAad id' version') : id = id' ∧ version = version' := by
  obtain ⟨hid, hv⟩ := List.append_inj h (id.asBytes.2.trans id'.asBytes.2.symm)
  refine ⟨?_, toLeBytes_inj hv⟩
  cases id
  cases id'
  exact congrArg Uuid.mk (Subtype.ext hid)

/-- A re-key attestation is never sealed with an item's associated data. -/
theorem itemAad_ne_rekey (id : Uuid) (version : UInt64) : itemAad id version ≠ REKEY_AAD := by
  intro h
  have hl := congrArg List.length h
  rw [itemAad_length] at hl
  exact absurd hl (by decide)

section Laws
variable {aead : Aead KeyBytes}

theorem encryptRaw_eq_ok {key : KeyBytes} {nonce : Block NONCE_LEN} {plaintext aad : Bytes}
    {blob : EncryptedBlob} :
    encryptRaw aead key nonce plaintext aad = .ok blob ↔
      aead.encrypt key nonce.1 plaintext aad = some blob.ciphertext ∧ blob.nonce = nonce.1 := by
  unfold encryptRaw
  cases h : aead.encrypt key nonce.1 plaintext aad with
  | none => simp
  | some ciphertext =>
    cases blob
    simp only [Except.ok.injEq, EncryptedBlob.mk.injEq, Option.some.injEq]
    tauto

theorem decryptRaw_eq_ok {key : KeyBytes} {blob : EncryptedBlob} {aad plaintext : Bytes} :
    decryptRaw aead key blob aad = .ok plaintext ↔
      blob.nonce.length = NONCE_LEN ∧
        aead.decrypt key blob.nonce blob.ciphertext aad = some plaintext := by
  unfold decryptRaw
  by_cases hn : blob.nonce.length = NONCE_LEN
  · cases h : aead.decrypt key blob.nonce blob.ciphertext aad <;> simp [hn]
  · simp [hn]

/-- What was encrypted decrypts to itself. -/
theorem decryptRaw_encryptRaw (hc : aead.Correct) {key : KeyBytes} {nonce : Block NONCE_LEN}
    {plaintext aad : Bytes} {blob : EncryptedBlob}
    (h : encryptRaw aead key nonce plaintext aad = .ok blob) :
    decryptRaw aead key blob aad = .ok plaintext := by
  obtain ⟨he, hn⟩ := encryptRaw_eq_ok.1 h
  rw [decryptRaw_eq_ok, hn]
  exact ⟨nonce.2, hc _ _ _ _ _ he⟩

/-- With a committing cipher a blob opens only as it was sealed. -/
theorem decryptRaw_of_encryptRaw (hc : aead.Correct) (hk : aead.Committing)
    {key key' : KeyBytes} {nonce : Block NONCE_LEN} {plaintext opened aad aad' : Bytes}
    {blob : EncryptedBlob} (h : encryptRaw aead key nonce plaintext aad = .ok blob)
    (ho : decryptRaw aead key' blob aad' = .ok opened) :
    key' = key ∧ aad' = aad ∧ opened = plaintext := by
  obtain ⟨he, hn⟩ := encryptRaw_eq_ok.1 h
  obtain ⟨-, hd⟩ := decryptRaw_eq_ok.1 ho
  rw [hn] at hd
  exact Aead.opened_eq hc hk he hd

theorem unwrapKey_eq_ok {wrappingKey : KeyBytes} {blob : EncryptedBlob} {vaultKey : VaultKey} :
    unwrapKey aead wrappingKey blob = .ok vaultKey ↔
      decryptRaw aead wrappingKey blob vaultKeyWrapAad = .ok vaultKey.expose.1 := by
  unfold unwrapKey
  constructor
  · intro h
    split at h
    · rename_i plaintext hp
      split at h
      · cases h; exact hp
      · cases h
    · cases h
    · cases h
  · intro h
    rw [h]
    simp [vaultKey.expose.2]

/-- A wrapped key unwraps under no other wrapping key, and to itself only. -/
theorem unwrapKey_wrapKey (hc : aead.Correct) (hk : aead.Committing)
    {wrappingKey wrappingKey' : KeyBytes} {nonce : Block NONCE_LEN} {vaultKey vaultKey' : VaultKey}
    {blob : EncryptedBlob} (h : wrapKey aead wrappingKey nonce vaultKey = .ok blob)
    (hu : unwrapKey aead wrappingKey' blob = .ok vaultKey') :
    wrappingKey' = wrappingKey ∧ vaultKey' = vaultKey := by
  obtain ⟨hkey, -, ho⟩ := decryptRaw_of_encryptRaw hc hk h (unwrapKey_eq_ok.1 hu)
  refine ⟨hkey, ?_⟩
  cases vaultKey
  cases vaultKey'
  exact congrArg VaultKey.mk (Subtype.ext ho)

end Laws
end Tethra.VaultCrypto
