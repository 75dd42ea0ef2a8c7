import Tethra.SyncRuns

set_option autoImplicit false

/-!
# A sync against a backend that answers what it likes

An item is sealed with its id and its version. Kind, deletion flag and time are not, and
nothing is opened when an item is applied.
-/
namespace Tethra.HostileBackends
open AtomicPrograms AuthenticatedEncryption Base64Strings StatefulActions
open SyncEngine SyncFileBackend SyncItems SyncRuns VaultCrypto VaultState VaultTypes

/-- A row as a key holder wrote it. -/
structure Authored where
  row : ItemRow
  vaultKey : VaultKey
  nonce : Block NONCE_LEN
  plaintext : Bytes

def Authored.Made (aead : Aead KeyBytes) (a : Authored) : Prop :=
  encryptItem aead a.vaultKey a.nonce a.row.id a.row.version a.plaintext = .ok a.row.blob

/-- Key holders seal items and re-key attestations, nothing else. -/
def SealedByAuthors (authored : List Authored) (s : Aead.Sealing KeyBytes) : Prop :=
  s.aad = REKEY_AAD ∨ ∃ a ∈ authored, a.vaultKey.expose = s.key ∧
    itemAad a.row.id a.row.version = s.aad ∧ a.plaintext = s.message ∧
    a.row.blob = ⟨s.nonce, s.ciphertext⟩

/-- Whatever changed was authored with its id, version, kind and deletion flag, and what could
be read can still be read. -/
def ForgeryFree (aead : Aead KeyBytes) (vaultKey : VaultKey) (authored : List Authored)
    (before after : VaultDb) : Prop :=
  ∀ id row, after.getItem id = some row → before.getItem id ≠ some row →
    (∃ a ∈ authored, a.vaultKey = vaultKey ∧ a.row.id = row.id ∧ a.row.version = row.version ∧
      a.row.kind = row.kind ∧ a.row.deleted = row.deleted) ∧
    ∀ old plaintext, before.getItem id = some old →
      decryptItem aead vaultKey old.id old.version old.blob = .ok plaintext →
      ∃ opened, decryptItem aead vaultKey row.id row.version row.blob = .ok opened

/-- What a blob opens to was sealed for exactly the id and version it is opened with. -/
theorem authored_of_decryptItem {aead : Aead KeyBytes} {vaultKey : VaultKey}
    {authored : List Authored}
    (hideal : aead.Unforgeable vaultKey.expose (SealedByAuthors authored)) {id : Uuid}
    {version : UInt64} {blob : EncryptedBlob} {plaintext : Bytes}
    (h : decryptItem aead vaultKey id version blob = .ok plaintext) :
    ∃ a ∈ authored, a.vaultKey = vaultKey ∧ a.row.id = id ∧ a.row.version = version ∧
      a.plaintext = plaintext ∧ a.row.blob = blob := by
  obtain ⟨-, hd⟩ := decryptRaw_eq_ok.1 h
  obtain haad | ⟨a, ha, hkey, haad, hmessage, hblob⟩ := hideal _ _ _ _ hd
  · exact absurd haad (itemAad_ne_rekey id version)
  · obtain ⟨hid, hversion⟩ := itemAad_inj haad
    refine ⟨a, ha, ?_, hid, hversion, hmessage, hblob⟩
    cases hk : a.vaultKey
    cases vaultKey
    rw [hk] at hkey
    exact congrArg VaultKey.mk hkey

/-- Every row a sync has changed, whatever the backend answers: the decoded form of a pulled
item, later than the row it replaced, which was not `local_only`; what it opens to was sealed
by a key holder for its id and version. No row disappears. -/
theorem syncNow_hostile_rows {β : Type} {aead : Aead KeyBytes} {vaultKey : VaultKey} {authored : List Authored}
    (hideal : aead.Unforgeable vaultKey.expose (SealedByAuthors authored))
    (b64 : Base64) (backend : SyncBackend β) (s : Engine × β) :
    (∀ id row, ((syncNow aead b64 backend).run s).2.1.vault.db.getItem id = some row →
      s.1.vault.db.getItem id ≠ some row →
      (∃ since b items cursor b', backend.pull since b = (.ok (items, cursor), b') ∧
        ∃ item ∈ items, itemRowFromSync b64 item = .ok row) ∧
      row.id = id ∧ row.localOnly = false ∧
      (∀ old, s.1.vault.db.getItem id = some old →
        old.localOnly = false ∧ rowStamp old < rowStamp row) ∧
      ∀ plaintext, decryptItem aead vaultKey row.id row.version row.blob = .ok plaintext →
        ∃ a ∈ authored, a.vaultKey = vaultKey ∧ a.row.id = id ∧ a.row.version = row.version ∧
          a.plaintext = plaintext ∧ a.row.blob = row.blob) ∧
    ∀ id, s.1.vault.db.getItem id ≠ none →
      ((syncNow aead b64 backend).run s).2.1.vault.db.getItem id ≠ none := by
  obtain ⟨done, hpulled, hrows⟩ := syncNow_rows aead b64 backend s
  constructor
  · intro id row hafter hbefore
    rw [hrows id] at hafter
    obtain hsame | ⟨item, hitem, new, hdecode, hnew, hbeats⟩ :=
      applyAll_cases b64 (s.1.vault.db.getItem id) (done.filter fun x => x.id = id)
    · exact absurd (hsame.symm.trans hafter) hbefore
    · rw [hnew, Option.some.injEq] at hafter
      subst hafter
      obtain ⟨hmem, hid⟩ := List.mem_filter.1 hitem
      obtain ⟨hrowid, -, -, -, -, hlocal, -⟩ := itemRowFromSync_eq_ok hdecode
      have hrow : new.id = id := hrowid.trans (of_decide_eq_true hid)
      refine ⟨?_, hrow, hlocal, hbeats, fun plaintext hopen => ?_⟩
      · obtain rfl | ⟨since, b, items, cursor, b', hpull, hpre⟩ := hpulled
        · cases hmem
        · exact ⟨since, b, items, cursor, b', hpull, item, hpre.subset hmem, hdecode⟩
      · obtain ⟨a, ha, hkey, haid, hversion, hplain, hblob⟩ :=
          authored_of_decryptItem hideal hopen
        exact ⟨a, ha, hkey, haid.trans hrow, hversion, hplain, hblob⟩
  · intro id hbefore
    rw [hrows id]
    obtain hsame | ⟨item, -, new, -, hnew, -⟩ :=
      applyAll_cases b64 (s.1.vault.db.getItem id) (done.filter fun x => x.id = id)
    · rwa [hsame]
    · rw [hnew]
      simp

/-! ## A readable host replaced by an unreadable tombstone of another kind -/

section Replacement

def victimKey : VaultKey := ⟨Block.fill 32 7⟩

def victimId : Uuid := ⟨Block.fill 16 5⟩

def victimNonce : Block NONCE_LEN := Block.fill NONCE_LEN 9

def victimSealing : Aead.Sealing KeyBytes :=
  ⟨victimKey.expose, victimNonce.1, [1, 2, 3], itemAad victimId 1,
    transparentLabel victimKey.expose (itemAad victimId 1) ++ [1, 2, 3]⟩

def victimRow : ItemRow :=
  ⟨victimId, .host, 1, 0, false, false, ⟨victimNonce.1, victimSealing.ciphertext⟩⟩

def victimHeader : VaultHeader := ⟨[], .default, ⟨[], []⟩, none, 0⟩

def victimDevice : Engine where
  vault := ⟨⟨some victimHeader, KeyedTables.Table.empty.put victimRow⟩, none,
    .unlocked victimKey victimKey.expose 0, IDLE_LOCK_DISABLED, World.quiet⟩
  cursor := SyncCursor.default

/-- Nobody ever sealed this item. -/
def forgedItem : SyncItem := ⟨victimId, "identity", 2, 0, true, "", ""⟩

def forgingBackend : SyncBackend Unit where
  pull _ := pure ([forgedItem], SyncCursor.default)
  push _ := pure SyncCursor.default
  getHeader := pure (some (exportHeader victimHeader))
  putHeader _ := pure ()

theorem victimSealing_ideal : (recorded [victimSealing]).Unforgeable victimKey.expose
    (SealedByAuthors [⟨victimRow, victimKey, victimNonce, [1, 2, 3]⟩]) := by
  intro nonce ciphertext aad message h
  have hlog := List.mem_singleton.1
    (recorded_unforgeable victimKey.expose [victimSealing] nonce ciphertext aad message h)
  rw [victimSealing, Aead.Sealing.mk.injEq] at hlog
  obtain ⟨-, rfl, rfl, rfl, rfl⟩ := hlog
  exact Or.inr ⟨_, List.mem_singleton_self _, rfl, rfl, rfl, rfl⟩

def forgedRow : ItemRow := ⟨victimId, .identity, 2, 0, true, false, ⟨[], []⟩⟩

def afterForgery : VaultDb :=
  ((syncNow (recorded [victimSealing]) standard forgingBackend).run
    (victimDevice, ())).2.1.vault.db

private theorem afterForgery_row : afterForgery.getItem victimId = some forgedRow := by decide

private theorem victimRow_opens : decryptItem (recorded [victimSealing]) victimKey victimRow.id
    victimRow.version victimRow.blob = .ok [1, 2, 3] :=
  decryptRaw_eq_ok.2 ⟨rfl, recorded_decrypt.2 ⟨rfl, List.mem_singleton_self _⟩⟩

/-- The one row ever authored is a readable host at version 1; after the sync an unreadable,
deleted identity at version 2 stands in its place. -/
theorem syncNow_accepts_forgery :
    (∀ a ∈ [(⟨victimRow, victimKey, victimNonce, [1, 2, 3]⟩ : Authored)],
      a.Made (recorded [victimSealing])) ∧
    (recorded [victimSealing]).Unforgeable victimKey.expose
      (SealedByAuthors [⟨victimRow, victimKey, victimNonce, [1, 2, 3]⟩]) ∧
    ¬ ForgeryFree (recorded [victimSealing]) victimKey
      [⟨victimRow, victimKey, victimNonce, [1, 2, 3]⟩] victimDevice.vault.db afterForgery ∧
    decryptItem (recorded [victimSealing]) victimKey victimRow.id victimRow.version
      victimRow.blob = .ok [1, 2, 3] ∧
    decryptItem (recorded [victimSealing]) victimKey forgedRow.id forgedRow.version
      forgedRow.blob ≠ .ok [1, 2, 3] := by
  refine ⟨?_, victimSealing_ideal, ?_, victimRow_opens, ?_⟩
  · intro a ha
    rw [List.mem_singleton] at ha
    subst ha
    exact encryptRaw_eq_ok.2 ⟨recorded_encrypt.2 ⟨rfl, List.mem_singleton_self _⟩, rfl⟩
  · intro h
    obtain ⟨⟨a, ha, -, -, hversion, -⟩, -⟩ :=
      h victimId forgedRow afterForgery_row (by decide)
    rw [List.mem_singleton] at ha
    subst ha
    exact absurd hversion (by decide)
  · intro h
    exact absurd (decryptRaw_eq_ok.1 h).1 (by decide)

theorem syncNow_hostile_rows_forgery :
    (∃ since b items cursor b', forgingBackend.pull since b = (.ok (items, cursor), b') ∧
        ∃ item ∈ items, itemRowFromSync standard item = .ok forgedRow) ∧
      ∀ plaintext, decryptItem (recorded [victimSealing]) victimKey forgedRow.id
        forgedRow.version forgedRow.blob = .ok plaintext →
        ∃ a ∈ [(⟨victimRow, victimKey, victimNonce, [1, 2, 3]⟩ : Authored)],
          a.vaultKey = victimKey ∧ a.row.id = victimId ∧ a.row.version = forgedRow.version ∧
          a.plaintext = plaintext ∧ a.row.blob = forgedRow.blob := by
  obtain ⟨hpull, -, -, -, hopen⟩ := (syncNow_hostile_rows victimSealing_ideal standard
    forgingBackend (victimDevice, ())).1 victimId forgedRow afterForgery_row (by decide)
  exact ⟨hpull, hopen⟩

end Replacement
end Tethra.HostileBackends
