import Tethra.SessionFleets

set_option autoImplicit false

/-!
# The shapes an identity is read from

Before identities had a `kind` they were written as plain structures, and what was written then
is still read. A record keeps its secret under the kind its object says.
-/
namespace Tethra.IdentityFormats
open JsonValues VaultTypes VaultRecords

structure PasswordIdentityRecord where
  id : Uuid
  label : String
  password : String
  syncSecret : Bool
  deriving DecidableEq

structure SshKeyIdentityRecord where
  id : Uuid
  label : String
  privateKey : String
  passphrase : Option String
  createdAt : DateTime
  syncSecret : Bool
  deriving DecidableEq

def fromPassword (r : PasswordIdentityRecord) : IdentityRecord :=
  .password r.id r.label r.password r.syncSecret

def fromSshKey (r : SshKeyIdentityRecord) : IdentityRecord :=
  .sshKey r.id r.label r.privateKey r.passphrase r.createdAt r.syncSecret

/-- `full` with some of the optional entries left out, in any order. -/
structure LeavesOut (optional : List String) (full v : Json) : Prop where
  object : ∃ entries, v = .object entries
  get : ∀ key, v.get key = full.get key ∨ key ∈ optional ∧ v.get key = none

theorem LeavesOut.get_eq {optional : List String} {full v : Json} (h : LeavesOut optional full v)
    {key : String} (hkey : key ∉ optional) : v.get key = full.get key := by
  obtain hget | ⟨hmem, -⟩ := h.get key
  · exact hget
  · exact absurd hmem hkey

theorem LeavesOut.get_of_isSome {optional : List String} {full v : Json}
    (h : LeavesOut optional full v) {key : String} (hkey : (v.get key).isSome = true) :
    v.get key = full.get key := by
  obtain hget | ⟨-, hnone⟩ := h.get key
  · exact hget
  · rw [hnone] at hkey
    cases hkey

section Optional
variable {α : Type} {f : Format α} {optional : List String} {full v : Json}

/-- A field with a default is read as it was written, or is the default. -/
theorem fieldOr_leavesOut (h : LeavesOut optional full v) {key : String} {default a : α}
    (hwritten : full.get key = some (f.write a)) :
    fieldOr f default key v = .ok (if (v.get key).isSome then a else default) := by
  cases hget : v.get key with
  | none =>
    rw [fieldOr, hget]
    rfl
  | some x =>
    have hfull : v.get key = some (f.write a) :=
      (h.get_of_isSome (by rw [hget]; rfl)).trans hwritten
    exact fieldOr_written hfull

end Optional

section Shapes
variable (texts : RecordTexts)

def writePasswordRecord (r : PasswordIdentityRecord) : Json :=
  .object [("id", texts.uuidFormat.write r.id), ("label", .string r.label),
    ("password", .string r.password), ("sync_secret", .bool r.syncSecret)]

def writeSshKeyRecord (r : SshKeyIdentityRecord) : Json :=
  .object ([("id", texts.uuidFormat.write r.id), ("label", .string r.label),
    ("private_key", .string r.privateKey)] ++ RecordTexts.writePassphrase r.passphrase ++
    [("created_at", texts.timeFormat.write r.createdAt), ("sync_secret", .bool r.syncSecret)])

theorem writeSshKeyRecord_get (r : SshKeyIdentityRecord) :
    (writeSshKeyRecord texts r).get "created_at" = some (texts.timeFormat.write r.createdAt) ∧
      (writeSshKeyRecord texts r).get "sync_secret" = some (.bool r.syncSecret) ∧
      (writeSshKeyRecord texts r).get "passphrase" = r.passphrase.map Json.string ∧
      (writeSshKeyRecord texts r).get "kind" = none := by
  obtain ⟨id, label, privateKey, passphrase, createdAt, syncSecret⟩ := r
  cases passphrase <;> exact ⟨rfl, rfl, rfl, rfl⟩

/-- A password of before, with or without its `sync_secret`. -/
theorem readIdentity_passwordRecord (r : PasswordIdentityRecord) {v : Json}
    (h : LeavesOut ["sync_secret"] (writePasswordRecord texts r) v) :
    texts.readIdentity v = .ok (fromPassword
      { r with syncSecret := (v.get "sync_secret").isSome && r.syncSecret }) := by
  have hkind : v.get "kind" = none := h.get_eq (by decide)
  have hprivate : v.get "private_key" = none := h.get_eq (by decide)
  have hcamel : v.get "privateKey" = none := h.get_eq (by decide)
  have hid : field texts.uuidFormat "id" v = .ok r.id :=
    field_written (h.get_eq (by decide))
  have hlabel : field .string "label" v = .ok r.label :=
    field_written (h.get_eq (by decide))
  have hpassword : field .string "password" v = .ok r.password :=
    field_written (h.get_eq (by decide))
  have hsync : fieldOr .bool false "sync_secret" v =
      .ok (if (v.get "sync_secret").isSome then r.syncSecret else false) :=
    fieldOr_leavesOut h rfl
  rw [RecordTexts.readIdentity, hkind]
  change (if _ then _ else _) = _
  rw [hprivate, hcamel]
  change texts.readPasswordIdentity v = _
  rw [RecordTexts.readPasswordIdentity, hid, hlabel, hpassword, hsync]
  cases (v.get "sync_secret").isSome <;> rfl

/-- A key of before, with or without its passphrase and its `sync_secret`. -/
theorem readIdentity_sshKeyRecord (r : SshKeyIdentityRecord) {v : Json}
    (h : LeavesOut ["sync_secret", "passphrase"] (writeSshKeyRecord texts r) v) :
    texts.readIdentity v = .ok (fromSshKey
      { r with
        passphrase := if (v.get "passphrase").isSome then r.passphrase else none
        syncSecret := (v.get "sync_secret").isSome && r.syncSecret }) := by
  obtain ⟨hcreatedFull, hsyncFull, hpassFull, hkindFull⟩ := writeSshKeyRecord_get texts r
  have hkind : v.get "kind" = none := (h.get_eq (by decide)).trans hkindFull
  have hprivate : v.get "private_key" = some (.string r.privateKey) :=
    h.get_eq (by decide)
  have hid : field texts.uuidFormat "id" v = .ok r.id :=
    field_written (h.get_eq (by decide))
  have hlabel : field .string "label" v = .ok r.label :=
    field_written (h.get_eq (by decide))
  have hkey : field .string "private_key" v = .ok r.privateKey := field_written hprivate
  have hcreated : field texts.timeFormat "created_at" v = .ok r.createdAt :=
    field_written ((h.get_eq (by decide)).trans hcreatedFull)
  have hsync : fieldOr .bool false "sync_secret" v =
      .ok (if (v.get "sync_secret").isSome then r.syncSecret else false) :=
    fieldOr_leavesOut h hsyncFull
  have hpassphrase : optionField .string "passphrase" v =
      .ok (if (v.get "passphrase").isSome then r.passphrase else none) := by
    cases hget : v.get "passphrase" with
    | none =>
      rw [optionField, hget]
      rfl
    | some x =>
      have hx : some x = r.passphrase.map Json.string :=
        hget.symm.trans ((h.get_of_isSome (by rw [hget]; rfl)).trans hpassFull)
      cases hpass : r.passphrase with
      | none =>
        rw [hpass] at hx
        cases hx
      | some passphrase =>
        rw [hpass] at hx
        cases hx
        rw [optionField, hget]
        rfl
  rw [RecordTexts.readIdentity, hkind]
  change (if _ then _ else _) = _
  rw [hprivate]
  change texts.readSshKeyIdentity v = _
  rw [RecordTexts.readSshKeyIdentity, hid, hlabel, hkey, hpassphrase, hcreated, hsync]
  cases (v.get "sync_secret").isSome <;> rfl

/-! ## What an object says -/

def kindOf (v : Json) : Option String := (v.get "kind").bind Json.asStr

def SaysPassword (v : Json) : Prop :=
  kindOf v = some "password" ∨
    kindOf v = none ∧ v.get "private_key" = none ∧ v.get "privateKey" = none

def SaysSshKey (v : Json) : Prop :=
  kindOf v = some "sshKey" ∨ kindOf v = some "ssh_key" ∨
    kindOf v = none ∧ ¬(v.get "private_key" = none ∧ v.get "privateKey" = none)

def SaysSync (v : Json) : Prop :=
  v.get "sync_secret" = some (.bool true) ∨ v.get "syncSecret" = some (.bool true)

/-- The secret of the record is the object's secret of the kind it says. -/
def Keeps (v : Json) : IdentityRecord → Prop
  | .password _ _ password syncSecret =>
    SaysPassword v ∧ v.get "password" = some (.string password) ∧
      (syncSecret = true → SaysSync v)
  | .sshKey _ _ privateKey _ _ syncSecret =>
    SaysSshKey v ∧ (v.get "private_key").or (v.get "privateKey") = some (.string privateKey) ∧
      (syncSecret = true → SaysSync v)

theorem bind_eq_ok {α β : Type} {x : Except String α} {f : α → Except String β} {b : β} :
    x >>= f = .ok b ↔ ∃ a, x = .ok a ∧ f a = .ok b := by
  cases x with
  | error e =>
    constructor
    · intro h
      cases h
    · rintro ⟨_, h, -⟩
      cases h
  | ok a =>
    constructor
    · exact fun h => ⟨a, rfl, h⟩
    · rintro ⟨a', ha, h⟩
      cases ha
      exact h

variable {v : Json}

theorem asStr_eq_some {x : Option Json} {s : String} (h : x.bind Json.asStr = some s) :
    x = some (.string s) := by
  obtain ⟨y, rfl, hy⟩ := Option.bind_eq_some_iff.1 h
  cases y <;> cases hy
  rfl

theorem asBool_eq_some {x : Option Json} {b : Bool} (h : x.bind Json.asBool = some b) :
    x = some (.bool b) := by
  obtain ⟨y, rfl, hy⟩ := Option.bind_eq_some_iff.1 h
  cases y <;> cases hy
  rfl

theorem saysSync_of_read (h : RecordTexts.readSyncSecret v = true) : SaysSync v := by
  unfold RecordTexts.readSyncSecret at h
  cases hsnake : (v.get "sync_secret").bind Json.asBool with
  | some b =>
    rw [hsnake] at h
    cases h
    exact Or.inl (asBool_eq_some hsnake)
  | none =>
    rw [hsnake, Option.none_or] at h
    cases hcamel : (v.get "syncSecret").bind Json.asBool with
    | some b =>
      rw [hcamel] at h
      cases h
      exact Or.inr (asBool_eq_some hcamel)
    | none =>
      rw [hcamel] at h
      cases h

theorem saysSync_of_fieldOr (h : fieldOr .bool false "sync_secret" v = .ok true) : SaysSync v := by
  unfold fieldOr at h
  split at h
  · rename_i x hx
    cases x <;> cases h
    exact Or.inl hx
  · cases h

theorem string_of_field {key s : String} (h : field .string key v = .ok s) :
    v.get key = some (.string s) := by
  unfold field at h
  split at h
  · rename_i x hx
    cases x <;> cases h
    exact hx
  · cases h

theorem string_of_stringField {key s : String} (h : RecordTexts.stringField v key = .ok s) :
    v.get key = some (.string s) := by
  unfold RecordTexts.stringField at h
  split at h
  · rename_i x hx
    cases h
    exact asStr_eq_some hx
  · cases h

variable {texts}

theorem keeps_readTaggedPassword {r : IdentityRecord} (hkind : kindOf v = some "password")
    (h : texts.readTaggedPassword v = .ok r) : Keeps v r := by
  obtain ⟨id, -, h⟩ := bind_eq_ok.1 h
  obtain ⟨label, -, h⟩ := bind_eq_ok.1 h
  obtain ⟨password, hpassword, h⟩ := bind_eq_ok.1 h
  cases h
  exact ⟨Or.inl hkind, string_of_stringField hpassword, saysSync_of_read⟩

theorem keeps_readTaggedSshKey {r : IdentityRecord}
    (hkind : kindOf v = some "sshKey" ∨ kindOf v = some "ssh_key")
    (h : texts.readTaggedSshKey v = .ok r) : Keeps v r := by
  obtain ⟨id, -, h⟩ := bind_eq_ok.1 h
  obtain ⟨label, -, h⟩ := bind_eq_ok.1 h
  dsimp only at h
  cases hprivate : ((v.get "private_key").or (v.get "privateKey")).bind Json.asStr with
  | none =>
    rw [hprivate] at h
    cases hcreated : (v.get "created_at").or (v.get "createdAt") <;> rw [hcreated] at h <;> cases h
  | some privateKey =>
    rw [hprivate] at h
    cases hcreated : (v.get "created_at").or (v.get "createdAt") with
    | none =>
      rw [hcreated] at h
      cases h
    | some x =>
      rw [hcreated] at h
      obtain ⟨_, hok, h⟩ := bind_eq_ok.1 h
      cases hok
      obtain ⟨createdAt, -, h⟩ := bind_eq_ok.1 h
      cases h
      exact ⟨hkind.imp_right Or.inl, asStr_eq_some hprivate, saysSync_of_read⟩

theorem keeps_readPasswordIdentity {r : IdentityRecord} (hkind : kindOf v = none)
    (hprivate : v.get "private_key" = none) (hcamel : v.get "privateKey" = none)
    (h : texts.readPasswordIdentity v = .ok r) : Keeps v r := by
  obtain ⟨id, -, h⟩ := bind_eq_ok.1 h
  obtain ⟨label, -, h⟩ := bind_eq_ok.1 h
  obtain ⟨password, hpassword, h⟩ := bind_eq_ok.1 h
  obtain ⟨syncSecret, hsync, h⟩ := bind_eq_ok.1 h
  cases h
  refine ⟨Or.inr ⟨hkind, hprivate, hcamel⟩, string_of_field hpassword, fun htrue => ?_⟩
  rw [htrue] at hsync
  exact saysSync_of_fieldOr hsync

theorem keeps_readSshKeyIdentity {r : IdentityRecord} (hkind : kindOf v = none)
    (h : texts.readSshKeyIdentity v = .ok r) : Keeps v r := by
  obtain ⟨id, -, h⟩ := bind_eq_ok.1 h
  obtain ⟨label, -, h⟩ := bind_eq_ok.1 h
  obtain ⟨privateKey, hprivate, h⟩ := bind_eq_ok.1 h
  obtain ⟨passphrase, -, h⟩ := bind_eq_ok.1 h
  obtain ⟨createdAt, -, h⟩ := bind_eq_ok.1 h
  obtain ⟨syncSecret, hsync, h⟩ := bind_eq_ok.1 h
  cases h
  have hget := string_of_field hprivate
  refine ⟨Or.inr (Or.inr ⟨hkind, fun hnone => ?_⟩), ?_, fun htrue => ?_⟩
  · rw [hnone.1] at hget
    cases hget
  · rw [hget]
    rfl
  · rw [htrue] at hsync
    exact saysSync_of_fieldOr hsync

theorem keeps_readIdentity {r : IdentityRecord} (h : texts.readIdentity v = .ok r) :
    Keeps v r := by
  unfold RecordTexts.readIdentity at h
  split at h
  · rename_i hkind
    exact keeps_readTaggedPassword hkind h
  · rename_i hkind
    exact keeps_readTaggedSshKey (Or.inl hkind) h
  · rename_i hkind
    exact keeps_readTaggedSshKey (Or.inr hkind) h
  · cases h
  · rename_i hkind
    by_cases hprivate : ((v.get "private_key").isSome || (v.get "privateKey").isSome) = true
    · rw [if_pos hprivate] at h
      exact keeps_readSshKeyIdentity hkind h
    · rw [if_neg hprivate] at h
      rw [Bool.or_eq_true, not_or, Option.not_isSome_iff_eq_none,
        Option.not_isSome_iff_eq_none] at hprivate
      exact keeps_readPasswordIdentity hkind hprivate.1 hprivate.2 h

end Shapes

/-- What is written is read back, the two older shapes are read as what they were, and no object
is read as a record it does not say. -/
theorem identity_format (texts : RecordTexts) :
    (∀ r, texts.readIdentity (texts.writeIdentity r) = .ok r) ∧
      (∀ r v, LeavesOut ["sync_secret"] (writePasswordRecord texts r) v →
        texts.readIdentity v = .ok (fromPassword
          { r with syncSecret := (v.get "sync_secret").isSome && r.syncSecret })) ∧
      (∀ r v, LeavesOut ["sync_secret", "passphrase"] (writeSshKeyRecord texts r) v →
        texts.readIdentity v = .ok (fromSshKey
          { r with
            passphrase := if (v.get "passphrase").isSome then r.passphrase else none
            syncSecret := (v.get "sync_secret").isSome && r.syncSecret })) ∧
      ∀ entries r, texts.readIdentity (.object entries) = .ok r → Keeps (.object entries) r :=
  ⟨texts.readIdentity_writeIdentity, fun r _ => readIdentity_passwordRecord texts r,
    fun r _ => readIdentity_sshKeyRecord texts r, fun _ _ => keeps_readIdentity⟩

def samplePassword : PasswordIdentityRecord :=
  ⟨⟨List.replicate 16 0, by simp⟩, "work", "secret", true⟩

/-- A password that was written before passwords were synced. -/
def sampleObject : Json :=
  .object [("id", .string "00000000-0000-0000-0000-000000000000"), ("label", .string "work"),
    ("password", .string "secret")]

theorem identity_format_sample :
    SessionFleets.sampleTexts.readIdentity sampleObject =
      .ok (.password ⟨List.replicate 16 0, by simp⟩ "work" "secret" false) := by
  refine ((identity_format SessionFleets.sampleTexts).2.1 samplePassword sampleObject
    ⟨⟨_, rfl⟩, fun key => ?_⟩).trans rfl
  have hid : SessionFleets.sampleTexts.uuidFormat.write samplePassword.id =
      .string "00000000-0000-0000-0000-000000000000" := by
    refine congrArg Json.string ?_
    decide +kernel
  by_cases hsync : key = "sync_secret"
  · subst hsync
    exact Or.inr ⟨List.mem_singleton_self _, rfl⟩
  · refine Or.inl ?_
    change List.lookup key _ = List.lookup key _
    rw [hid]
    simp only [List.lookup_cons, List.lookup_nil, beq_eq_false_iff_ne.2 hsync]
    rfl

end Tethra.IdentityFormats
