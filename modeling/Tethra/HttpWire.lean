import Tethra.DeviceAuth
import Tethra.HttpBackend
import Tethra.PercentEncoding
import Tethra.SyncFileBackend
import Tethra.TerminalMarkers

set_option autoImplicit false

/-!
# The sync server and its client on one wire

The server keeps a directory and lets in whom `DeviceAuth` lets in. The network refuses a
request, loses its answer, cuts its body or lets it through.
-/
namespace Tethra.HttpWire
open AuthenticatedEncryption (Bytes)
open Base64Strings DeviceAuth HttpBackend PercentEncoding StatefulActions SyncFileBackend SyncItems
open VaultTypes
open StatefulActions.Action (fail read update ofExcept attempt)

/-- A value as JSON: what is written reads back. -/
structure Codec (α : Type) where
  write : α → Except String Bytes
  read : Bytes → Except String α
  read_write : ∀ a bytes, write a = .ok bytes → read bytes = .ok a

/-- A codec for one value. -/
def Codec.only {α : Type} [DecidableEq α] (value : α) (text : Bytes) : Codec α where
  write a := if a = value then .ok text else .error "no text"
  read bytes := if bytes = text then .ok value else .error "expected value at line 1 column 1"
  read_write a bytes h := by
    split at h
    · rename_i ha
      cases h
      rw [if_pos rfl, ha]
    · cases h

theorem Codec.only_isNull {α : Type} [DecidableEq α] {value : α} {text : Bytes}
    (h : isNull text = false) (a : α) (bytes : Bytes)
    (hwrite : (Codec.only value text).write a = .ok bytes) : isNull bytes = false := by
  unfold Codec.only at hwrite
  dsimp only at hwrite
  split at hwrite <;> cases hwrite
  exact h

structure AuthResponse where
  token : String
  expiresIn : ℕ
  deriving DecidableEq

structure Response where
  status : UInt16
  body : Bytes
  deriving DecidableEq

/-- The JSON texts, and the rejections of the web framework. -/
structure Codecs where
  device : DeviceAuth.Codecs
  authKey : Codec String
  auth : Codec AuthResponse
  pullResponse : Codec (List SyncItem × SyncCursor)
  pushRequest : Codec (List SyncItem)
  pushResponse : Codec SyncCursor
  header : Codec SyncedVaultHeader
  header_null : ∀ value bytes, header.write value = .ok bytes → isNull bytes = false
  badJson : String → Response
  badQuery : Response
  noContentType : Response

def canonicalReason (status : UInt16) : String :=
  if status = 200 then "OK"
  else if status = 204 then "No Content"
  else if status = 400 then "Bad Request"
  else if status = 401 then "Unauthorized"
  else if status = 404 then "Not Found"
  else if status = 405 then "Method Not Allowed"
  else if status = 409 then "Conflict"
  else if status = 413 then "Payload Too Large"
  else if status = 415 then "Unsupported Media Type"
  else if status = 422 then "Unprocessable Entity"
  else if status = 429 then "Too Many Requests"
  else if status = 500 then "Internal Server Error"
  else "<unknown status code>"

def code : StatusCode → UInt16
  | .noContent => 204
  | .badRequest => 400
  | .unauthorized => 401
  | .notFound => 404
  | .conflict => 409
  | .tooManyRequests => 429
  | .internalServerError => 500

def denied (status : StatusCode) : Response := ⟨code status, []⟩

/-- The limit of the framework for a JSON body. -/
def BODY_LIMIT : ℕ := 2097152

def tooLarge : Response :=
  ⟨413, utf8 "Failed to buffer the request body: length limit exceeded"⟩

/-- What the network does with one request. -/
inductive Delivery where
  | refused (text : String)
  | dropped (text : String)
  | cut (text : String)
  | through

structure Wire where
  baseUrl : String
  auth : AuthState
  server : Server
  directory : FileBackend
  requests : ℕ
  deliveryAt : ℕ → Delivery
  recordFaultAt : ℕ → Option ReadFault
  randomAt : ℕ → Bytes
  nowAt : ℕ → Instant
  /-- What a proxy adds. -/
  forwardedFor : Option String

structure Message where
  method : Method
  url : String
  authorization : Option String
  body : Option Bytes

/-! ## The server -/

abbrev HandlerM (α : Type) := Action Wire Response α

/-- An error is an answer too. -/
def answer : Except Response Response → Response
  | .ok r => r
  | .error r => r

def onServer {α : Type} (m : ServerM α) : HandlerM α := fun w =>
  ((m w.server).1.mapError denied, { w with server := (m w.server).2 })

def onDirectory {α : Type} (m : FileM α) : HandlerM α := fun w =>
  ((m w.directory).1.mapError fun _ => denied .internalServerError,
    { w with directory := (m w.directory).2 })

def decodeUtf8Lossy (bytes : Bytes) : String :=
  (TerminalMarkers.fromUtf8 bytes).getD (RustText.fromUtf8Lossy bytes)

section Server
variable (codecs : Codecs)

/-- The extractor of a JSON body. -/
def jsonBody {α : Type} (codec : Codec α) (body : Option Bytes) : HandlerM α :=
  match body with
  | none => fail codecs.noContentType
  | some bytes =>
    if BODY_LIMIT < bytes.length then fail tooLarge
    else match codec.read bytes with
      | .ok a => pure a
      | .error e => fail (codecs.badJson e)

def json {α : Type} (codec : Codec α) (a : α) : HandlerM Response :=
  match codec.write a with
  | .ok bytes => pure ⟨200, bytes⟩
  | .error e => fail ⟨500, utf8 e⟩

/-- `PullQuery`. -/
def pullQuery (query : List Char) : HandlerM (Option String) :=
  match (parseQuery decodeUtf8Lossy query).filter fun pair => pair.1 = "since" with
  | [] => pure none
  | [(_, since)] => pure (some since)
  | _ => fail codecs.badQuery

def authorize (headers : Headers) : HandlerM Unit := do
  let fault ← read fun w => w.recordFaultAt w.requests
  onServer (DeviceAuth.authorize codecs.device fault headers)

def pullItems (headers : Headers) (query : List Char) : HandlerM Response := do
  let since ← pullQuery codecs query
  authorize codecs headers
  let pulled ← onDirectory (FileBackend.pull ⟨since.getD ""⟩)
  json codecs.pullResponse pulled

def pushItems (headers : Headers) (body : Option Bytes) : HandlerM Response := do
  let items ← jsonBody codecs codecs.pushRequest body
  authorize codecs headers
  let cursor ← onDirectory (FileBackend.push items)
  json codecs.pushResponse cursor

def nullText : Bytes := [0x6e, 0x75, 0x6c, 0x6c]

def optionJson (header : Option SyncedVaultHeader) : HandlerM Response :=
  match header with
  | none => pure ⟨200, nullText⟩
  | some header => json codecs.header header

def getHeader (headers : Headers) : HandlerM Response := do
  authorize codecs headers
  let header ← onDirectory FileBackend.getHeader
  optionJson codecs header

def putHeader (headers : Headers) (body : Option Bytes) : HandlerM Response := do
  let header ← jsonBody codecs codecs.header body
  authorize codecs headers
  onDirectory (FileBackend.putHeader header)
  pure (denied .noContent)

def deviceAuthLogin (headers : Headers) (body : Option Bytes) : HandlerM Response := do
  let authKey ← jsonBody codecs codecs.authKey body
  let fault ← read fun w => w.recordFaultAt w.requests
  let random ← read fun w => w.randomAt w.requests
  let token ← onServer (DeviceAuth.deviceAuthLogin codecs.device fault headers authKey random)
  json codecs.auth ⟨token, 24 * 60 * 60⟩

inductive Endpoint where
  | items
  | header
  | auth

def endpoint (path : String) : Option Endpoint :=
  if path = "/v1/items" then some .items
  else if path = "/v1/header" then some .header
  else if path = "/v1/auth" then some .auth
  else none

def dispatch (headers : Headers) (query : List Char) (body : Option Bytes) :
    Endpoint → Method → HandlerM Response
  | .items, .GET => pullItems codecs headers query
  | .items, .POST => pushItems codecs headers body
  | .header, .GET => getHeader codecs headers
  | .header, .PUT => putHeader codecs headers body
  | .auth, .POST => deviceAuthLogin codecs headers body
  | _, _ => fail ⟨405, []⟩

def route (headers : Headers) (query : List Char) (body : Option Bytes) (method : Method) :
    Option Endpoint → HandlerM Response
  | some found => dispatch codecs headers query body found method
  | none => fail (denied .notFound)

/-- What stands behind the base URL is the path and the query. -/
def handle (message : Message) : HandlerM Response := do
  let base ← read Wire.baseUrl
  let forwardedFor ← read Wire.forwardedFor
  let target := message.url.toList.drop base.toList.length
  route codecs ⟨message.authorization, forwardedFor⟩ ((target.dropWhile (· ≠ '?')).drop 1)
    message.body message.method (endpoint (String.ofList (target.takeWhile (· ≠ '?'))))

def Wire.tick (w : Wire) : Wire := { w with server := { w.server with now := w.nowAt w.requests } }

def respond (message : Message) (w : Wire) : Response × Wire :=
  (answer (handle codecs message w.tick).1, (handle codecs message w.tick).2)

end Server

/-! ## The client -/

abbrev WireM (α : Type) := Action Wire Error α

def Wire.counted (w : Wire) : Wire := { w with requests := w.requests + 1 }

section Client
variable (codecs : Codecs)

def formats : Formats where
  reason := canonicalReason
  readSession body := (codecs.auth.read body).map AuthResponse.token
  readHeader := codecs.header.read

def exchange (message : Message) (w : Wire) : Exchange × Wire :=
  match w.deliveryAt w.requests with
  | .refused text => (.refused text, w.counted)
  | .dropped text => (.refused text, (respond codecs message w).2.counted)
  | .cut text => (.cut (respond codecs message w).1.status text,
      (respond codecs message w).2.counted)
  | .through => (.answered (respond codecs message w).1.status (respond codecs message w).1.body,
      (respond codecs message w).2.counted)

def request (message : Message) : WireM Bytes := fun w =>
  (outcome (formats codecs) message.method (exchange codecs message w).1,
    (exchange codecs message w).2)

/-- `serde_json::to_vec`. -/
def toVec {α : Type} (codec : Codec α) (a : α) : Except Error Bytes :=
  (codec.write a).mapError .other

/-- `from_slice`, with the words in front of the message. -/
def fromSlice {α : Type} (codec : Codec α) (what : String) (body : Bytes) : Except Error α :=
  (codec.read body).mapError fun e => .sync (what ++ " decode: " ++ e)

def openSession (token : String) : WireM Unit := update fun w =>
  { w with auth := { w.auth with session := some token, status := "authenticated" } }

def refreshSession : WireM Unit := do
  let auth ← read Wire.auth
  match auth.authKey with
  | none => fail (.sync "no auth_key for /v1/auth")
  | some key => do
    let base ← read Wire.baseUrl
    let body ← ofExcept (toVec codecs.authKey (standard.encode key.1))
    let answer ← request codecs ⟨.POST, base ++ "/v1/auth", none, some body⟩
    let session ← ofExcept (fromSlice codecs.auth "auth" answer)
    openSession session.token

/-- The request again, with a fresh session. -/
def retry (method : Method) (url : String) (body : Option Bytes) : WireM Bytes := do
  refreshSession codecs
  let auth ← read Wire.auth
  request codecs ⟨method, url, activeAuthHeader auth, body⟩

def requestAuthed (method : Method) (url : String) (body : Option Bytes) : WireM Bytes := do
  let auth ← read Wire.auth
  match ← attempt (request codecs ⟨method, url, activeAuthHeader auth, body⟩) with
  | .ok bytes => pure bytes
  | .error (.sync message) =>
    if RustText.containsText message "401" && auth.authKey.isSome then
      retry codecs method url body
    else fail (.sync message)
  | .error e => fail e

/-- `urlencoding_lite` leaves letters, digits and these four. -/
def unreserved (b : UInt8) : Bool :=
  (0x41 ≤ b && b ≤ 0x5a) || (0x61 ≤ b && b ≤ 0x7a) || (0x30 ≤ b && b ≤ 0x39) ||
    b == 0x2d || b == 0x5f || b == 0x2e || b == 0x7e

def urlencodingLite (value : String) : String := String.ofList (encode unreserved (utf8 value))

def pull (since : SyncCursor) : WireM (List SyncItem × SyncCursor) := do
  let base ← read Wire.baseUrl
  let body ← requestAuthed codecs .GET (base ++ "/v1/items?since=" ++ urlencodingLite since.asStr)
    none
  ofExcept (fromSlice codecs.pullResponse "pull" body)

def push (items : List SyncItem) : WireM SyncCursor := do
  let base ← read Wire.baseUrl
  let body ← ofExcept (toVec codecs.pushRequest items)
  let answer ← requestAuthed codecs .POST (base ++ "/v1/items") (some body)
  ofExcept (fromSlice codecs.pushResponse "push" answer)

def fetchHeader : WireM (Option SyncedVaultHeader) := do
  let base ← read Wire.baseUrl
  let answer ← attempt (requestAuthed codecs .GET (base ++ "/v1/header") none)
  ofExcept (headerOf (formats codecs) answer)

def storeHeader (header : SyncedVaultHeader) : WireM Unit := do
  let base ← read Wire.baseUrl
  let body ← ofExcept (toVec codecs.header header)
  let _ ← requestAuthed codecs .PUT (base ++ "/v1/header") (some body)

def httpBackend : SyncBackend Wire where
  pull := pull codecs
  push := push codecs
  getHeader := fetchHeader codecs
  putHeader := storeHeader codecs

end Client

end Tethra.HttpWire
