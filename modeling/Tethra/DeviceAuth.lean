import Tethra.Base64Strings
import Tethra.RandomAccessFiles
import Tethra.RustText
import Tethra.StatefulActions
import Tethra.VaultTypes

set_option autoImplicit false

/-!
# Who the sync server lets in

The device-auth record is a file, sessions and attempts are in memory. How the file
answers, the clock and random bytes come with each call.
-/
namespace Tethra.DeviceAuth
open AuthenticatedEncryption (Bytes)
open Base64Strings RandomAccessFiles StatefulActions VaultTypes
open StatefulActions.Action (fail read update ofExcept)

structure DeviceAuthRecord where
  verifier : String
  createdAtUnix : ℕ
  deriving DecidableEq

/-- The record's JSON text and the hash of an auth key. -/
structure Codecs where
  b64 : Base64
  toVecPretty : DeviceAuthRecord → Bytes
  fromSlice : Bytes → Except String DeviceAuthRecord
  fromSlice_toVecPretty : ∀ record, fromSlice (toVecPretty record) = .ok record
  hashPassword : Bytes → Bytes → Except String String
  verifyPassword : Bytes → String → Bool

inductive StatusCode where
  | noContent
  | badRequest
  | unauthorized
  | notFound
  | conflict
  | tooManyRequests
  | internalServerError
  deriving DecidableEq

/-- `exists` answers `false`, or the read fails. -/
inductive ReadFault where
  | hidden
  | failed (message : String)
  deriving DecidableEq

/-- 24 hours. -/
def SESSION_TTL : Instant := 24 * 60 * 60 * 10 ^ 9

def AUTH_RATE_LIMIT : ℕ := 5

/-- 60 seconds. -/
def AUTH_RATE_WINDOW : Instant := 60 * 10 ^ 9

structure Server where
  token : Option String
  allowEnroll : Bool
  /-- `device-auth.json`. -/
  recordFile : Option Bytes
  sessions : String → Option Instant
  hits : String → List Instant
  now : Instant

abbrev ServerM (α : Type) := Action Server StatusCode α

/-- The headers a handler reads. -/
structure Headers where
  authorization : Option String
  forwardedFor : Option String
  deriving DecidableEq

def stripPrefix (pre text : String) : Option String :=
  if pre.toList <+: text.toList then some (String.ofList (text.toList.drop pre.toList.length))
  else none

def bearerRaw (headers : Headers) : Option String :=
  headers.authorization.bind (stripPrefix "Bearer ")

def utf8 (text : String) : Bytes := text.toUTF8.data.toList

/-- The bearer is the token or the base64 of its bytes. -/
def legacyMatch (codecs : Codecs) (presented expected : String) : Bool :=
  (match codecs.b64.decode presented with
    | .ok decoded => decoded == utf8 expected
    | .error _ => false) || utf8 presented == utf8 expected

def legacyTokenOk (codecs : Codecs) (token : Option String) (headers : Headers) : Bool :=
  match token, bearerRaw headers with
  | some expected, some presented => legacyMatch codecs presented expected
  | _, _ => false

def loadRecord (codecs : Codecs) (fault : Option ReadFault) (file : Option Bytes) :
    Except String (Option DeviceAuthRecord) :=
  match fault, file with
  | some .hidden, _ => .ok none
  | _, none => .ok none
  | some (.failed message), some _ => .error ("read device-auth: " ++ message)
  | none, some bytes =>
    match codecs.fromSlice bytes with
    | .ok record => .ok (some record)
    | .error e => .error ("parse device-auth: " ++ e)

/-- `.ok().flatten().is_some()`. -/
def hasDevice : Except String (Option DeviceAuthRecord) → Bool
  | .ok (some _) => true
  | _ => false

section Sessions

def retained (now : Instant) (sessions : String → Option Instant) : String → Option Instant :=
  fun token => (sessions token).filter fun expires => now < expires

/-- The session is known and has not run out. -/
def validSession (s : Server) (token : String) : Prop :=
  ∃ expires, s.sessions token = some expires ∧ s.now < expires

def sessionValid (token : String) : ServerM Bool := fun s =>
  (.ok (retained s.now s.sessions token).isSome, { s with sessions := retained s.now s.sessions })

def issueSession (token : String) : ServerM Unit := update fun s =>
  { s with sessions := Function.update s.sessions token (some (s.now + SESSION_TTL)) }

/-- `false` is one attempt too many. -/
def checkAndRecord (ip : String) : ServerM Bool := fun s =>
  let entry := (s.hits ip).filter fun t => s.now - t < AUTH_RATE_WINDOW
  if AUTH_RATE_LIMIT ≤ entry.length then
    (.ok false, { s with hits := Function.update s.hits ip entry })
  else (.ok true, { s with hits := Function.update s.hits ip (entry ++ [s.now]) })

end Sessions

section Handlers
variable (codecs : Codecs)

def authorize (fault : Option ReadFault) (headers : Headers) : ServerM Unit := do
  match bearerRaw headers with
  | none => do
    let token ← read Server.token
    let file ← read Server.recordFile
    if token.isNone && !hasDevice (loadRecord codecs fault file) then pure ()
    else fail .unauthorized
  | some presented => do
    if ← sessionValid presented then pure ()
    else do
      let token ← read Server.token
      if legacyTokenOk codecs token headers then pure () else fail .unauthorized

def decodeAuthKeyB64 (value : String) : Except String Bytes :=
  match codecs.b64.decode (RustText.trim value) with
  | .error _ => .error "invalid auth_key encoding"
  | .ok bytes => if bytes.length ≠ 32 then .error "auth_key must be 32 bytes" else .ok bytes

def hashAuthKey (authKey salt : Bytes) : Except String String :=
  if authKey.length ≠ 32 then .error "auth_key must be 32 bytes"
  else match codecs.hashPassword authKey salt with
    | .ok verifier => .ok verifier
    | .error e => .error ("argon2 hash: " ++ e)

/-- `map_err(|_| code)`. -/
def orStatus {ε α : Type} (code : StatusCode) : Except ε α → ServerM α
  | .ok a => pure a
  | .error _ => fail code

/-- The enroll handler up to `save_record`. -/
def enrollRecord (fault : Option ReadFault) (headers : Headers) (authKey : String) (salt : Bytes)
    (unixNow : ℕ) : ServerM DeviceAuthRecord := do
  let file ← read Server.recordFile
  let existing ← orStatus .internalServerError (loadRecord codecs fault file)
  if existing.isSome then fail .conflict else do
    let token ← read Server.token
    let allowEnroll ← read Server.allowEnroll
    if legacyTokenOk codecs token headers || (token.isNone && allowEnroll) then do
      let authKey ← orStatus .badRequest (decodeAuthKeyB64 codecs authKey)
      let verifier ← orStatus .internalServerError (hashAuthKey codecs authKey salt)
      pure ⟨verifier, unixNow⟩
    else fail .unauthorized

/-- The address attempts are counted under. -/
def forwardedIp (headers : Headers) : String :=
  match headers.forwardedFor with
  | some value => RustText.trim (RustText.beforeFirst ',' value)
  | none => "unknown"

def findRecord (fault : Option ReadFault) : ServerM DeviceAuthRecord := do
  let file ← read Server.recordFile
  match ← orStatus .internalServerError (loadRecord codecs fault file) with
  | some record => pure record
  | none => fail .notFound

/-- The session token handed out. -/
def deviceAuthLogin (fault : Option ReadFault) (headers : Headers) (authKey : String)
    (random : Bytes) : ServerM String := do
  if ← checkAndRecord (forwardedIp headers) then do
    let record ← findRecord codecs fault
    let authKey ← orStatus .badRequest (decodeAuthKeyB64 codecs authKey)
    if codecs.verifyPassword authKey record.verifier then do
      issueSession (codecs.b64.encode random)
      pure (codecs.b64.encode random)
    else fail .unauthorized
  else fail .tooManyRequests

end Handlers

/-! ## Saving the record -/

/-- Where a `save_record` stands in `write_private`. -/
inductive SavePhase where
  | checked
  | opened (written : ℕ)
  deriving DecidableEq

structure Save where
  record : DeviceAuthRecord
  phase : SavePhase
  deriving DecidableEq

/-- `create` and `truncate`. -/
def openPrivate (s : Server) : Server := { s with recordFile := some [] }

/-- The next `count` bytes, at the writer's own position. -/
def writeNext (bytes : Bytes) (written count : ℕ) (s : Server) : Server :=
  { s with recordFile := s.recordFile.map fun file =>
      writeAt 0 file written (readAt bytes written count) }

/-- A save with nothing between its steps. -/
def saveRecord (codecs : Codecs) (record : DeviceAuthRecord) : ServerM Unit := update fun s =>
  writeNext (codecs.toVecPretty record) 0 (codecs.toVecPretty record).length (openPrivate s)

theorem saveRecord_file (codecs : Codecs) (record : DeviceAuthRecord) (s : Server) :
    (saveRecord codecs record s).2 = { s with recordFile := some (codecs.toVecPretty record) } := by
  have hcopied := (Copied.start (codecs.toVecPretty record)).writeAt 0
    (codecs.toVecPretty record).length
  have hall : (codecs.toVecPretty record).length ≤
      0 + (readAt (codecs.toVecPretty record) 0 (codecs.toVecPretty record).length).length := by
    rw [readAt_length]
    omega
  change { s with recordFile := some (writeAt 0 [] 0 (readAt (codecs.toVecPretty record) 0
    (codecs.toVecPretty record).length)) } = _
  rw [hcopied.eq_source hall]

theorem loadRecord_saved (codecs : Codecs) (record : DeviceAuthRecord) :
    loadRecord codecs none (some (codecs.toVecPretty record)) = .ok (some record) := by
  unfold loadRecord
  dsimp only
  rw [codecs.fromSlice_toVecPretty]

/-! ## Codecs to run -/

section Samples

def sampleAuthKey (n : UInt8) : Bytes := List.replicate 32 n

def sampleSalt : Bytes := List.replicate 16 5

/-- Salt and key in the open, in the place of a hash. -/
def transparentHash (authKey salt : Bytes) : String :=
  "$argon2id$" ++ standard.encode (salt ++ authKey)

def transparentVerify (authKey : Bytes) (verifier : String) : Bool :=
  match stripPrefix "$argon2id$" verifier with
  | some text =>
    match standard.decode text with
    | .ok bytes => bytes.drop (bytes.length - authKey.length) == authKey
    | .error _ => false
  | none => false

def sampleRecord (n : UInt8) : DeviceAuthRecord :=
  ⟨transparentHash (sampleAuthKey n) sampleSalt, 0⟩

def ascii (text : String) : Bytes := text.toList.map fun c => UInt8.ofNat c.toNat

/-- The record's text needs no escapes and its time is the epoch. -/
def plain (record : DeviceAuthRecord) : Bool :=
  decide (record.createdAtUnix = 0) &&
    record.verifier.toList.all fun c => decide (c.toNat < 128) && decide (c.toNat ≠ 34)

def jsonHead : Bytes := ascii "\x7b\n  \"verifier\": \""

def jsonTail : Bytes := ascii "\",\n  \"created_at_unix\": 0\n\x7d"

/-- A text for the other records, which no sample uses. -/
def countedText (record : DeviceAuthRecord) : Bytes :=
  0 :: List.replicate
    (Encodable.encode (record.verifier.toList.map Char.toNat, record.createdAtUnix)) 0

def readCounted (rest : Bytes) : Except String DeviceAuthRecord :=
  match (Encodable.decode rest.length : Option (List ℕ × ℕ)) with
  | some (codes, createdAt) => .ok ⟨String.ofList (codes.map Char.ofNat), createdAt⟩
  | none => .error "expected value at line 1 column 1"

def sampleText (record : DeviceAuthRecord) : Bytes :=
  if plain record then jsonHead ++ ascii record.verifier ++ jsonTail else countedText record

def readPlain (rest : Bytes) : Except String DeviceAuthRecord :=
  let codes := rest.takeWhile (· ≠ 34)
  if rest.drop codes.length = jsonTail then
    .ok ⟨String.ofList (codes.map fun b => Char.ofNat b.toNat), 0⟩
  else .error "expected value at line 1 column 1"

def sampleParse : Bytes → Except String DeviceAuthRecord
  | [] => .error "EOF while parsing a value at line 1 column 0"
  | b :: rest =>
    if b = 0 then readCounted rest
    else match AuthenticatedEncryption.stripPrefix jsonHead (b :: rest) with
      | some rest => readPlain rest
      | none => .error "expected value at line 1 column 1"

theorem sampleParse_cons {b : UInt8} {rest : Bytes} (hb : b ≠ 0) :
    sampleParse (b :: rest) = match AuthenticatedEncryption.stripPrefix jsonHead (b :: rest) with
      | some rest => readPlain rest
      | none => .error "expected value at line 1 column 1" :=
  if_neg hb

theorem readCounted_countedText (record : DeviceAuthRecord) :
    sampleParse (countedText record) = .ok record := by
  change readCounted (List.replicate _ 0) = _
  unfold readCounted
  rw [List.length_replicate, Encodable.encodek]
  dsimp only
  rw [List.map_map]
  have hid : Char.ofNat ∘ Char.toNat = id := funext Char.ofNat_toNat
  rw [hid, List.map_id, String.ofList_toList]

theorem readPlain_ascii {record : DeviceAuthRecord} (h : plain record = true) :
    readPlain (ascii record.verifier ++ jsonTail) = .ok record := by
  obtain ⟨htime, hchars⟩ := Bool.and_eq_true_iff.1 h
  have hchar : ∀ c ∈ record.verifier.toList, c.toNat < 128 ∧ c.toNat ≠ 34 := by
    intro c hc
    have hboth := List.all_eq_true.1 hchars c hc
    simpa using hboth
  have hcode : ∀ c ∈ record.verifier.toList, (UInt8.ofNat c.toNat).toNat = c.toNat := by
    intro c hc
    have hlt := (hchar c hc).1
    rw [UInt8.toNat_ofNat']
    omega
  have htake : (ascii record.verifier ++ jsonTail).takeWhile (· ≠ 34) = ascii record.verifier := by
    rw [List.takeWhile_append_of_pos]
    · exact List.append_nil _
    · intro b hb
      obtain ⟨c, hc, rfl⟩ := List.mem_map.1 hb
      have hne := (hchar c hc).2
      rw [← hcode c hc] at hne
      exact decide_eq_true fun heq => hne (congrArg UInt8.toNat heq)
  unfold readPlain
  rw [htake]
  change (if (ascii record.verifier ++ jsonTail).drop (ascii record.verifier).length = jsonTail
    then _ else _) = _
  rw [if_pos List.drop_left]
  have hback : (ascii record.verifier).map (fun b => Char.ofNat b.toNat) = record.verifier.toList := by
    unfold ascii
    rw [List.map_map]
    refine List.map_congr_left (g := id) (fun c hc => ?_) |>.trans (List.map_id _)
    change Char.ofNat (UInt8.ofNat c.toNat).toNat = c
    rw [hcode c hc, Char.ofNat_toNat]
  rw [hback, String.ofList_toList, ← of_decide_eq_true htime]

theorem sampleParse_sampleText (record : DeviceAuthRecord) :
    sampleParse (sampleText record) = .ok record := by
  unfold sampleText
  cases h : plain record with
  | false => exact readCounted_countedText record
  | true =>
    rw [if_pos rfl, List.append_assoc]
    have hstrip : AuthenticatedEncryption.stripPrefix jsonHead
        (jsonHead ++ (ascii record.verifier ++ jsonTail)) =
          some (ascii record.verifier ++ jsonTail) :=
      AuthenticatedEncryption.stripPrefix_eq_some.2 rfl
    have hhead : jsonHead = 123 :: jsonHead.tail := by decide +kernel
    have hparse : sampleParse (jsonHead ++ (ascii record.verifier ++ jsonTail)) =
        readPlain (ascii record.verifier ++ jsonTail) := by
      rw [hhead, List.cons_append]
      rw [sampleParse_cons (by decide), ← List.cons_append, ← hhead, hstrip]
    rw [hparse, readPlain_ascii h]

def sampleCodecs : Codecs where
  b64 := standard
  toVecPretty := sampleText
  fromSlice := sampleParse
  fromSlice_toVecPretty := sampleParse_sampleText
  hashPassword authKey salt := .ok (transparentHash authKey salt)
  verifyPassword := transparentVerify

end Samples

end Tethra.DeviceAuth
