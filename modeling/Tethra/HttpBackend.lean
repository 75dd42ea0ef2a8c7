import Tethra.Base64Strings
import Tethra.RustText
import Tethra.StatefulActions
import Tethra.SyncItems

set_option autoImplicit false

/-!
# The HTTP client of the sync server

A request that fails is an error text. Which status the server answered with is read back from
that text, at three places.
-/
namespace Tethra.HttpBackend
open Base64Strings RustText StatefulActions SyncItems VaultTypes
open StatefulActions.Action (fail read update ofExcept attempt)
open AuthenticatedEncryption (Bytes)

inductive Method where
  | GET
  | POST
  | PUT

def Method.text : Method → String
  | .GET => "GET"
  | .POST => "POST"
  | .PUT => "PUT"

/-- What becomes of one request: `send` fails, the body cannot be read, or an answer. -/
inductive Exchange where
  | refused (text : String)
  | cut (status : UInt16) (text : String)
  | answered (status : UInt16) (body : Bytes)

structure AuthState where
  legacyToken : Option String
  authKey : Option KeyBytes
  session : Option String
  status : String

structure Request where
  method : Method
  url : String
  authorization : Option String

/-- The client, what the network does with each request, and the requests made so far. -/
structure Client where
  baseUrl : String
  auth : AuthState
  network : ℕ → Exchange
  sent : List Request

abbrev HttpM (α : Type) := Action Client Error α

/-- The parts that other libraries decide: the reason phrase of a status and the JSON readers. -/
structure Formats where
  reason : UInt16 → String
  readSession : Bytes → Except String String
  readHeader : Bytes → Except String SyncedVaultHeader

def isSuccess (status : UInt16) : Bool := 200 ≤ status && status < 300

section Client
variable (f : Formats)

/-- The error text of a request that fails. -/
def errorText (method : Method) : Exchange → Option String
  | .refused text => some ("http " ++ method.text ++ ": " ++ text)
  | .cut _ text => some ("http body: " ++ text)
  | .answered status body =>
    if isSuccess status then none
    else some ("http " ++ method.text ++ " " ++ toString status.toNat ++ " " ++ f.reason status ++
      ": " ++ fromUtf8Lossy body)

def outcome (method : Method) (x : Exchange) : Except Error Bytes :=
  match errorText f method x, x with
  | some message, _ => .error (.sync message)
  | none, .answered _ body => .ok body
  | none, _ => .ok []

def request (method : Method) (url : String) (authorization : Option String) : HttpM Bytes :=
  fun c => (outcome f method (c.network c.sent.length),
    { c with sent := c.sent ++ [⟨method, url, authorization⟩] })

def legacyAuthHeader (auth : AuthState) : Option String :=
  auth.legacyToken.map fun token => "Bearer " ++ standard.encode token.toUTF8.toList

def activeAuthHeader (auth : AuthState) : Option String :=
  match auth.session with
  | some session => some ("Bearer " ++ session)
  | none => legacyAuthHeader auth

def setAuthKey (key : KeyBytes) : HttpM Unit := update fun c =>
  { c with auth := { c.auth with authKey := some key, session := none, status := "auth_key_ready" } }

def openSession (token : String) : HttpM Unit := update fun c =>
  { c with auth := { c.auth with session := some token, status := "authenticated" } }

def readSession (body : Bytes) : Except Error String :=
  match f.readSession body with
  | .ok token => .ok token
  | .error e => .error (.sync ("auth decode: " ++ e))

def refreshSession : HttpM Unit := do
  let auth ← read Client.auth
  if auth.authKey.isNone then fail (.sync "no auth_key for /v1/auth")
  else do
    let base ← read Client.baseUrl
    let body ← request f .POST (base ++ "/v1/auth") none
    let token ← ofExcept (readSession f body)
    openSession token

/-- The request again, with a fresh session. -/
def retry (method : Method) (url : String) : HttpM Bytes := do
  refreshSession f
  let auth ← read Client.auth
  request f method url (activeAuthHeader auth)

def requestAuthed (method : Method) (url : String) : HttpM Bytes := do
  let auth ← read Client.auth
  match ← attempt (request f method url (activeAuthHeader auth)) with
  | .ok body => pure body
  | .error (.sync message) =>
    if containsText message "401" && auth.authKey.isSome then retry f method url
    else fail (.sync message)
  | .error e => fail e

def isNull (body : Bytes) : Bool := body.isEmpty || body == [0x6e, 0x75, 0x6c, 0x6c]

def getHeader : HttpM (Option SyncedVaultHeader) := do
  let base ← read Client.baseUrl
  match ← attempt (requestAuthed f .GET (base ++ "/v1/header")) with
  | .ok body =>
    if isNull body then pure none
    else match f.readHeader body with
      | .ok header => pure (some header)
      | .error e => fail (.sync ("header decode: " ++ e))
  | .error (.sync message) =>
    if containsText message "404" then pure none else fail (.sync message)
  | .error e => fail e

def enrolled : HttpM Unit := update fun c => { c with auth := { c.auth with status := "enrolled" } }

def enroll : HttpM Unit := do
  let auth ← read Client.auth
  if auth.authKey.isNone then fail (.sync "enroll requires vault unlock")
  else do
    let base ← read Client.baseUrl
    match ← attempt (request f .POST (base ++ "/v1/enroll") (legacyAuthHeader auth)) with
    | .ok _ => enrolled
    | .error (.sync message) =>
      if containsText message "409" then enrolled else fail (.sync message)
    | .error e => fail e

/-! ## What the answers are taken for -/

def statusOf : Exchange → Option UInt16
  | .refused _ => none
  | .cut status _ => some status
  | .answered status _ => some status

def Answered (status : UInt16) (x : Exchange) : Prop := statusOf x = some status

/-- Answered with 2xx or 409. -/
def Accepted (x : Exchange) : Prop :=
  ∃ status, statusOf x = some status ∧ (isSuccess status = true ∨ status = 409)

def Succeeded (x : Exchange) (p : Bytes → Prop) : Prop :=
  ∃ status body, x = .answered status body ∧ isSuccess status = true ∧ p body

/-- The next exchange, the one after it and so on. -/
def Client.next (c : Client) (k : ℕ) : Exchange := c.network (c.sent.length + k)

/-- `None` only for a request of the header answered with 404 or with no header. -/
def HeaderRead (c : Client) : Prop :=
  ∀ c', getHeader f c = (.ok none, c') → ∃ k r, c'.sent[c.sent.length + k]? = some r ∧
    r.url = c.baseUrl ++ "/v1/header" ∧
    (Answered 404 (c.next k) ∨ Succeeded (c.next k) fun body => isNull body = true)

/-- Further requests only when the first is answered with 401. -/
def RefreshRead (c : Client) : Prop :=
  ∀ method url, c.sent.length + 1 < (requestAuthed f method url c).2.sent.length →
    Answered 401 (c.next 0)

def EnrollRead (c : Client) : Prop :=
  ∀ c', enroll f c = (.ok (), c') → Accepted (c.next 0)

structure Classifies (c : Client) : Prop where
  header : HeaderRead f c
  refresh : RefreshRead f c
  enroll : EnrollRead f c

/-- The text of a failing refresh. -/
def refreshText (x : Exchange) : Option String :=
  match errorText f .POST x, x with
  | some message, _ => some message
  | none, .answered _ body =>
    match f.readSession body with
    | .ok _ => none
    | .error e => some ("auth decode: " ++ e)
  | none, _ => none

/-- The code stands in the text of a failed request only if it is the status of the answer. -/
def Tells (method : Method) (code : String) (status : UInt16) (x : Exchange) : Prop :=
  ∀ message, errorText f method x = some message → containsText message code = true →
    Answered status x

/-- The request is refreshed for its text. -/
def Refreshes (c : Client) (method : Method) : Prop :=
  c.auth.authKey.isSome = true ∧
    ∃ message, errorText f method (c.next 0) = some message ∧ containsText message "401" = true

/-- No text misleads at the three places where texts are read. -/
structure Legible (c : Client) : Prop where
  refresh : c.auth.authKey.isSome = true → ∀ method, Tells f method "401" 401 (c.next 0)
  enroll : c.auth.authKey.isSome = true → ∀ message, errorText f .POST (c.next 0) = some message →
    containsText message "409" = true → Accepted (c.next 0)
  first : ¬ Refreshes f c .GET → Tells f .GET "404" 404 (c.next 0)
  second : Refreshes f c .GET → ∀ message, refreshText f (c.next 1) = some message →
    containsText message "404" = false
  third : Refreshes f c .GET → refreshText f (c.next 1) = none → Tells f .GET "404" 404 (c.next 2)

variable {f}

theorem outcome_error {method : Method} {x : Exchange} {message : String}
    (h : errorText f method x = some message) : outcome f method x = .error (.sync message) := by
  unfold outcome
  rw [h]

theorem outcome_ok {method : Method} {x : Exchange} (h : errorText f method x = none) :
    ∃ status body, x = .answered status body ∧ isSuccess status = true ∧
      outcome f method x = .ok body := by
  cases x with
  | refused text => cases h
  | cut status text => cases h
  | answered status body =>
    have hsuccess : isSuccess status = true := by
      by_contra hs
      simp [errorText, hs] at h
    refine ⟨status, body, rfl, hsuccess, ?_⟩
    unfold outcome
    rw [h]

/-- A failed request has no answer with a successful status. -/
theorem not_succeeded {method : Method} {x : Exchange} {message : String} {p : Bytes → Prop}
    (h : errorText f method x = some message) : ¬ Succeeded x p := by
  rintro ⟨status, body, rfl, hs, -⟩
  simp [errorText, hs] at h

def Client.after (c : Client) (method : Method) (url : String) (authorization : Option String) :
    Client := { c with sent := c.sent ++ [⟨method, url, authorization⟩] }

theorem request_run (method : Method) (url : String) (authorization : Option String) (c : Client) :
    request f method url authorization c =
      (outcome f method (c.next 0), c.after method url authorization) := rfl

@[simp] theorem next_after (c : Client) (method : Method) (url : String)
    (authorization : Option String) (k : ℕ) :
    (c.after method url authorization).next k = c.next (k + 1) := by
  simp only [Client.next, Client.after, List.length_append, List.length_singleton]
  congr 1
  omega

@[simp] theorem sent_after (c : Client) (method : Method) (url : String)
    (authorization : Option String) :
    (c.after method url authorization).sent = c.sent ++ [⟨method, url, authorization⟩] := rfl

/-- The client between the first request and a second one. -/
def asked (c : Client) (method : Method) (url : String) : Client :=
  c.after method url (activeAuthHeader c.auth)

/-- The client after the request for a session. -/
def renewing (c : Client) : Client := c.after .POST (c.baseUrl ++ "/v1/auth") none

def Client.withSession (c : Client) (token : String) : Client :=
  { c with auth := { c.auth with session := some token, status := "authenticated" } }

theorem refreshSession_run {c : Client} (hkey : c.auth.authKey.isSome = true) :
    (∀ message, refreshText f (c.next 0) = some message →
      refreshSession f c = (.error (.sync message), renewing c)) ∧
    (refreshText f (c.next 0) = none →
      ∃ token, refreshSession f c = (.ok (), (renewing c).withSession token)) := by
  have hrun : refreshSession f c = (request f .POST (c.baseUrl ++ "/v1/auth") none >>= fun body =>
      ofExcept (readSession f body) >>= fun token => openSession token) c := by
    have hsome : c.auth.authKey.isNone = false := by
      rw [Option.isNone_eq_false_iff]
      exact hkey
    change (if c.auth.authKey.isNone = true then _ else _ : HttpM Unit) c = _
    rw [hsome]
    rfl
  rw [hrun, Action.bind_run, request_run]
  cases htext : errorText f .POST (c.next 0) with
  | some message =>
    rw [outcome_error htext]
    simp only [refreshText, htext]
    exact ⟨fun m hm => by cases hm; rfl, fun h => by cases h⟩
  | none =>
    obtain ⟨status, body, hx, -, hok⟩ := outcome_ok htext
    rw [hok]
    rw [hx] at htext
    simp only [refreshText, hx, htext]
    change (∀ message, _ → (ofExcept (readSession f body) >>= fun token => openSession token)
        (renewing c) = _) ∧ (_ → ∃ token, (ofExcept (readSession f body) >>= fun token =>
          openSession token) (renewing c) = _)
    rw [Action.bind_run]
    unfold readSession
    cases f.readSession body with
    | ok token => exact ⟨fun m hm => (by cases hm), fun _ => ⟨token, rfl⟩⟩
    | error e => exact ⟨fun m hm => (by cases hm; rfl), fun h => (by cases h)⟩

section Authed
variable {method : Method} {url : String} {c : Client}

theorem requestAuthed_ok (h : errorText f method (c.next 0) = none) :
    requestAuthed f method url c = (outcome f method (c.next 0), asked c method url) := by
  obtain ⟨status, body, -, -, hok⟩ := outcome_ok h
  change (match (outcome f method (c.next 0)) with | .ok body => _ | .error (.sync message) => _ | .error e => _ : HttpM Bytes) (asked c method url) = _
  rw [hok]
  rfl

theorem requestAuthed_failed {message : String}
    (h : errorText f method (c.next 0) = some message) (hkept : ¬ Refreshes f c method) :
    requestAuthed f method url c = (.error (.sync message), asked c method url) := by
  change (match (outcome f method (c.next 0)) with | .ok body => _ | .error (.sync message) => _ | .error e => _ : HttpM Bytes) (asked c method url) = _
  rw [outcome_error h]
  have hcond : (containsText message "401" && c.auth.authKey.isSome) = false := by
    by_contra hc
    rw [Bool.not_eq_false, Bool.and_eq_true] at hc
    exact hkept ⟨hc.2, message, h, hc.1⟩
  change (if (containsText message "401" && c.auth.authKey.isSome) = true then _ else _ :
    HttpM Bytes) (asked c method url) = _
  rw [hcond]
  rfl

theorem requestAuthed_retry (h : Refreshes f c method) :
    requestAuthed f method url c = retry f method url (asked c method url) := by
  obtain ⟨hkey, message, htext, hcode⟩ := h
  change (match (outcome f method (c.next 0)) with | .ok body => _ | .error (.sync message) => _ | .error e => _ : HttpM Bytes) (asked c method url) = _
  rw [outcome_error htext]
  change (if (containsText message "401" && c.auth.authKey.isSome) = true then _ else _ :
    HttpM Bytes) (asked c method url) = _
  rw [hcode, hkey]
  rfl

/-- The client after the second attempt. -/
def retried (c : Client) (method : Method) (url token : String) : Client :=
  ((renewing (asked c method url)).withSession token).after method url (some ("Bearer " ++ token))

theorem retry_failed (hkey : c.auth.authKey.isSome = true) {message : String}
    (h : refreshText f (c.next 1) = some message) :
    retry f method url (asked c method url) =
      (.error (.sync message), renewing (asked c method url)) := by
  have hask : (asked c method url).next 0 = c.next 1 := next_after _ _ _ _ _
  obtain ⟨hfailed, -⟩ := refreshSession_run (f := f) (c := asked c method url) hkey
  unfold retry
  rw [Action.bind_run, hfailed message (by rw [hask]; exact h)]

theorem retry_done (hkey : c.auth.authKey.isSome = true)
    (h : refreshText f (c.next 1) = none) :
    ∃ token, retry f method url (asked c method url) =
      (outcome f method (c.next 2), retried c method url token) := by
  have hask : (asked c method url).next 0 = c.next 1 := next_after _ _ _ _ _
  obtain ⟨-, hdone⟩ := refreshSession_run (f := f) (c := asked c method url) hkey
  obtain ⟨token, htoken⟩ := hdone (by rw [hask]; exact h)
  refine ⟨token, ?_⟩
  unfold retry
  rw [Action.bind_run, htoken]
  have hnext : ((renewing (asked c method url)).withSession token).next 0 = c.next 2 := by
    change (renewing (asked c method url)).next 0 = c.next 2
    rw [renewing, next_after, asked, next_after]
  change request f method url _ ((renewing (asked c method url)).withSession token) = _
  rw [request_run, hnext]
  rfl

theorem length_retry (hkey : c.auth.authKey.isSome = true) :
    c.sent.length + 1 < (retry f method url (asked c method url)).2.sent.length := by
  cases h : refreshText f (c.next 1) with
  | some message =>
    rw [retry_failed hkey h]
    simp [renewing, asked]
  | none =>
    obtain ⟨token, hdone⟩ := @retry_done f method url c hkey h
    rw [hdone]
    simp only [retried, sent_after, List.length_append, List.length_singleton, Client.withSession,
      renewing, asked]
    omega

theorem refreshRead_iff : RefreshRead f c ↔
    (c.auth.authKey.isSome = true → ∀ method, Tells f method "401" 401 (c.next 0)) := by
  constructor
  · intro hread hkey method message htext hcode
    refine hread method "" ?_
    rw [requestAuthed_retry ⟨hkey, message, htext, hcode⟩]
    exact length_retry hkey
  · intro htells method url hlong
    by_cases h : Refreshes f c method
    · obtain ⟨hkey, message, htext, hcode⟩ := h
      exact htells hkey method message htext hcode
    · have hone : (requestAuthed f method url c).2 = asked c method url := by
        cases htext : errorText f method (c.next 0) with
        | some message => rw [requestAuthed_failed htext h]
        | none => rw [requestAuthed_ok htext]
      rw [hone] at hlong
      simp [asked] at hlong

end Authed

section Enroll
variable {c : Client}

theorem enrollRead_iff : EnrollRead f c ↔
    (c.auth.authKey.isSome = true → ∀ message, errorText f .POST (c.next 0) = some message →
      containsText message "409" = true → Accepted (c.next 0)) := by
  cases hkey : c.auth.authKey with
  | none =>
    simp only [Option.isSome_none, Bool.false_eq_true, false_implies, iff_true]
    intro c' h
    change (if c.auth.authKey.isNone = true then fail _ else _ : HttpM Unit) c = _ at h
    rw [hkey] at h
    cases h
  | some key =>
    have hrun : ∀ r, (enroll f c).1 = r ↔
        (match outcome f .POST (c.next 0) with
          | .ok _ => .ok ()
          | .error (.sync message) =>
            if containsText message "409" then .ok () else .error (.sync message)
          | .error e => .error e) = r := by
      intro r
      change ((if c.auth.authKey.isNone = true then fail _ else _ : HttpM Unit) c).1 = r ↔ _
      rw [hkey]
      change ((match outcome f .POST (c.next 0) with | .ok _ => _ | .error (.sync message) => _ | .error e => _ :
        HttpM Unit) (c.after .POST (c.baseUrl ++ "/v1/enroll") (legacyAuthHeader c.auth))).1 = r ↔ _
      cases htext : errorText f .POST (c.next 0) with
      | none =>
        obtain ⟨status, body, -, -, hok⟩ := outcome_ok htext
        rw [hok]
        rfl
      | some message =>
        rw [outcome_error htext]
        change ((if containsText message "409" = true then enrolled else fail _ : HttpM Unit) _).1 = r ↔
          (if containsText message "409" = true then .ok () else .error (.sync message)) = r
        cases containsText message "409" <;> rfl
    have hread : EnrollRead f c ↔ ((enroll f c).1 = .ok () → Accepted (c.next 0)) :=
      ⟨fun h hok => h _ (Prod.ext hok rfl), fun h c' hc => h (by rw [hc])⟩
    rw [hread, hrun]
    simp only [Option.isSome_some, forall_const]
    cases htext : errorText f .POST (c.next 0) with
    | none =>
      obtain ⟨status, body, hx, hs, hok⟩ := outcome_ok htext
      rw [hok]
      refine ⟨fun _ message hm => ?_, fun _ _ => ⟨status, by rw [hx]; rfl, .inl hs⟩⟩
      cases hm
    | some message =>
      rw [outcome_error htext]
      constructor
      · intro h m hm hcode
        rw [Option.some.injEq] at hm
        subst hm
        exact h (by simp [hcode])
      · intro h hok
        cases hcode : containsText message "409" with
        | true => exact h message rfl hcode
        | false =>
          simp only [hcode] at hok
          cases hok

end Enroll

section Header
variable {c : Client}

/-- What `get_header` makes of the answer to its request. -/
def headerOf (f : Formats) : Except Error Bytes → Except Error (Option SyncedVaultHeader)
  | .ok body =>
    if isNull body then .ok none
    else match f.readHeader body with
      | .ok header => .ok (some header)
      | .error e => .error (.sync ("header decode: " ++ e))
  | .error (.sync message) =>
    if containsText message "404" then .ok none else .error (.sync message)
  | .error e => .error e

theorem getHeader_run (c : Client) : getHeader f c =
    (headerOf f (requestAuthed f .GET (c.baseUrl ++ "/v1/header") c).1,
      (requestAuthed f .GET (c.baseUrl ++ "/v1/header") c).2) := by
  change (match (requestAuthed f .GET (c.baseUrl ++ "/v1/header") c).1 with
    | .ok body => _ | .error (.sync message) => _ | .error e => _ :
      HttpM (Option SyncedVaultHeader)) (requestAuthed f .GET (c.baseUrl ++ "/v1/header") c).2 = _
  rcases (requestAuthed f .GET (c.baseUrl ++ "/v1/header") c).1 with e | body
  · cases e with
    | sync message =>
      change (if containsText message "404" = true then pure none else fail _ :
        HttpM (Option SyncedVaultHeader)) _ = (if containsText message "404" = true then _ else _, _)
      cases containsText message "404" <;> rfl
    | _ => rfl
  · change (if isNull body = true then pure none else _ : HttpM (Option SyncedVaultHeader)) _ =
      (if isNull body = true then _ else _, _)
    cases isNull body with
    | true => rfl
    | false =>
      change (match f.readHeader body with | .ok header => _ | .error e => _ :
        HttpM (Option SyncedVaultHeader)) _ = (match f.readHeader body with | .ok header => _ | .error e => _, _)
      cases f.readHeader body <;> rfl

theorem headerOf_failed {message : String} :
    headerOf f (.error (.sync message)) = .ok none ↔ containsText message "404" = true := by
  change (if containsText message "404" = true then Except.ok none else
    Except.error (Error.sync message)) = Except.ok none ↔ _
  cases containsText message "404" <;> simp

theorem headerOf_ok {body : Bytes} (h : headerOf f (.ok body) = .ok none) : isNull body = true := by
  by_contra hnull
  simp only [headerOf, hnull] at h
  cases hread : f.readHeader body <;> simp [hread] at h

theorem headerRead_of {r : Except Error Bytes} {c' : Client}
    (h : requestAuthed f .GET (c.baseUrl ++ "/v1/header") c = (r, c')) :
    HeaderRead f c ↔ (headerOf f r = .ok none → ∃ k q, c'.sent[c.sent.length + k]? = some q ∧
      q.url = c.baseUrl ++ "/v1/header" ∧
      (Answered 404 (c.next k) ∨ Succeeded (c.next k) fun body => isNull body = true)) := by
  unfold HeaderRead
  rw [getHeader_run, h]
  exact ⟨fun hread hr => hread c' (Prod.ext hr rfl), fun hread d hd => by
    obtain ⟨hr, rfl⟩ := Prod.mk.inj hd
    exact hread hr⟩

theorem auth_ne_header (base : String) : base ++ "/v1/auth" ≠ base ++ "/v1/header" := by
  intro h
  have hlist := congrArg String.toList h
  rw [String.toList_append, String.toList_append, List.append_cancel_left_eq] at hlist
  revert hlist
  decide

/-- An answer of one kind is not of another. -/
theorem not_404_of_401 {x : Exchange} (h : Answered 401 x) :
    ¬ (Answered 404 x ∨ Succeeded x fun body => isNull body = true) := by
  rintro (h404 | ⟨status, body, rfl, hs, -⟩)
  · rw [Answered, h] at h404
    cases h404
  · cases h
    revert hs
    decide

/-- The requests of a call stand behind those before it. -/
theorem lookup_sent {c' : Client} {m : List Request} (h : c'.sent = c.sent ++ m) (k : ℕ) :
    c'.sent[c.sent.length + k]? = m[k]? := by
  rw [h, List.getElem?_append_right (Nat.le_add_right _ _), Nat.add_sub_cancel_left]

theorem headerRead_kept (h : ¬ Refreshes f c .GET) :
    HeaderRead f c ↔ Tells f .GET "404" 404 (c.next 0) := by
  have hsent : ∀ k, (asked c .GET (c.baseUrl ++ "/v1/header")).sent[c.sent.length + k]? =
      [(⟨.GET, c.baseUrl ++ "/v1/header", activeAuthHeader c.auth⟩ : Request)][k]? :=
    lookup_sent rfl
  cases htext : errorText f .GET (c.next 0) with
  | none =>
    obtain ⟨status, body, hx, hs, hok⟩ := outcome_ok htext
    have hrun := @requestAuthed_ok f .GET (c.baseUrl ++ "/v1/header") c htext
    rw [hok] at hrun
    rw [headerRead_of hrun]
    constructor
    · intro _ message hm
      rw [htext] at hm
      cases hm
    · intro _ hnone
      exact ⟨0, _, hsent 0, rfl, .inr ⟨status, body, hx, hs, headerOf_ok hnone⟩⟩
  | some message =>
    rw [headerRead_of (requestAuthed_failed htext h), headerOf_failed]
    constructor
    · intro hread m hm hcode
      rw [htext, Option.some.injEq] at hm
      subst hm
      obtain ⟨k, q, hq, -, hanswer⟩ := hread hcode
      rw [hsent] at hq
      obtain rfl : k = 0 := by
        have := (List.getElem?_eq_some_iff.1 hq).1
        simpa using this
      obtain hanswer | hanswer := hanswer
      · exact hanswer
      · exact absurd hanswer (not_succeeded htext)
    · intro htells hcode
      exact ⟨0, _, hsent 0, rfl, .inl (htells message htext hcode)⟩

theorem headerRead_failed (h : Refreshes f c .GET) (h401 : Answered 401 (c.next 0))
    {message : String} (hrefresh : refreshText f (c.next 1) = some message) :
    HeaderRead f c ↔ containsText message "404" = false := by
  have hrun := @requestAuthed_retry f .GET (c.baseUrl ++ "/v1/header") c h
  rw [retry_failed h.1 hrefresh] at hrun
  have hsent : ∀ k, (renewing (asked c .GET (c.baseUrl ++ "/v1/header"))).sent[c.sent.length + k]? =
      [(⟨.GET, c.baseUrl ++ "/v1/header", activeAuthHeader c.auth⟩ : Request),
        ⟨.POST, c.baseUrl ++ "/v1/auth", none⟩][k]? :=
    lookup_sent (List.append_assoc _ _ _)
  rw [headerRead_of hrun, headerOf_failed, Bool.eq_false_iff]
  constructor
  · intro hread hcode
    obtain ⟨k, q, hq, hurl, hanswer⟩ := hread hcode
    rw [hsent] at hq
    match k, hq with
    | 0, _ => exact not_404_of_401 h401 hanswer
    | 1, hq =>
      cases hq
      exact auth_ne_header c.baseUrl hurl
  · exact fun hfalse hcode => absurd hcode hfalse

theorem headerRead_retried (h : Refreshes f c .GET) (h401 : Answered 401 (c.next 0))
    (hrefresh : refreshText f (c.next 1) = none) :
    HeaderRead f c ↔ Tells f .GET "404" 404 (c.next 2) := by
  obtain ⟨token, hdone⟩ := @retry_done f .GET (c.baseUrl ++ "/v1/header") c h.1 hrefresh
  have hrun := @requestAuthed_retry f .GET (c.baseUrl ++ "/v1/header") c h
  rw [hdone] at hrun
  have hsent : ∀ k,
      (retried c .GET (c.baseUrl ++ "/v1/header") token).sent[c.sent.length + k]? =
      [(⟨.GET, c.baseUrl ++ "/v1/header", activeAuthHeader c.auth⟩ : Request),
        ⟨.POST, c.baseUrl ++ "/v1/auth", none⟩,
        ⟨.GET, c.baseUrl ++ "/v1/header", some ("Bearer " ++ token)⟩][k]? := by
    refine lookup_sent ?_
    simp [retried, renewing, asked, Client.after, Client.withSession]
  cases htext : errorText f .GET (c.next 2) with
  | none =>
    obtain ⟨status, body, hx, hs, hok⟩ := outcome_ok htext
    rw [hok] at hrun
    rw [headerRead_of hrun]
    constructor
    · intro _ message hm
      rw [htext] at hm
      cases hm
    · intro _ hnone
      exact ⟨2, _, hsent 2, rfl, .inr ⟨status, body, hx, hs, headerOf_ok hnone⟩⟩
  | some message =>
    rw [outcome_error htext] at hrun
    rw [headerRead_of hrun, headerOf_failed]
    constructor
    · intro hread m hm hcode
      rw [htext, Option.some.injEq] at hm
      subst hm
      obtain ⟨k, q, hq, hurl, hanswer⟩ := hread hcode
      rw [hsent] at hq
      match k, hq with
      | 0, _ => exact absurd hanswer (not_404_of_401 h401)
      | 1, hq =>
        cases hq
        exact absurd hurl (auth_ne_header c.baseUrl)
      | 2, _ =>
        obtain hanswer | hanswer := hanswer
        · exact hanswer
        · exact absurd hanswer (not_succeeded htext)
    · intro htells hcode
      exact ⟨2, _, hsent 2, rfl, .inl (htells message htext hcode)⟩

theorem headerRead_iff
    (hrefresh : c.auth.authKey.isSome = true → ∀ method, Tells f method "401" 401 (c.next 0)) :
    HeaderRead f c ↔ (¬ Refreshes f c .GET → Tells f .GET "404" 404 (c.next 0)) ∧
      (Refreshes f c .GET → ∀ message, refreshText f (c.next 1) = some message →
        containsText message "404" = false) ∧
      (Refreshes f c .GET → refreshText f (c.next 1) = none → Tells f .GET "404" 404 (c.next 2)) := by
  by_cases h : Refreshes f c .GET
  · obtain ⟨hkey, message, htext, hcode⟩ := h
    have h401 := hrefresh hkey .GET message htext hcode
    have h : Refreshes f c .GET := ⟨hkey, message, htext, hcode⟩
    cases hnew : refreshText f (c.next 1) with
    | some message =>
      rw [headerRead_failed h h401 hnew]
      simp [h]
    | none =>
      rw [headerRead_retried h h401 hnew]
      simp [h]
  · rw [headerRead_kept h]
    simp [h]

end Header

variable (f)

/-- The client takes no answer for another exactly where the texts it reads do not mislead. -/
theorem classifies_iff (c : Client) : Classifies f c ↔ Legible f c := by
  constructor
  · rintro ⟨hheader, hrefresh, henroll⟩
    have htells := refreshRead_iff.1 hrefresh
    obtain ⟨hfirst, hsecond, hthird⟩ := (headerRead_iff htells).1 hheader
    exact ⟨htells, enrollRead_iff.1 henroll, hfirst, hsecond, hthird⟩
  · rintro ⟨htells, henroll, hfirst, hsecond, hthird⟩
    exact ⟨(headerRead_iff htells).2 ⟨hfirst, hsecond, hthird⟩, refreshRead_iff.2 htells,
      enrollRead_iff.2 henroll⟩

end Client

/-- A server on port 4040 that cannot be reached. -/
def unreachable : Client where
  baseUrl := "http://box:4040"
  auth := ⟨some "t", none, none, "configured"⟩
  network _ := .refused "error sending request for url (http://box:4040/v1/header)"
  sent := []

theorem classifies_fails : ¬ ∀ (f : Formats) (c : Client), Classifies f c := by
  intro hall
  have hheader := (hall ⟨fun _ => "", fun _ => .error "", fun _ => .error ""⟩ unreachable).header
  have hnone : getHeader ⟨fun _ => "", fun _ => .error "", fun _ => .error ""⟩ unreachable =
      (.ok none, asked unreachable .GET (unreachable.baseUrl ++ "/v1/header")) := by
    have htext : errorText ⟨fun _ => "", fun _ => .error "", fun _ => .error ""⟩ .GET
        (unreachable.next 0) =
        some "http GET: error sending request for url (http://box:4040/v1/header)" := by
      decide +kernel
    have hkept : ¬ Refreshes ⟨fun _ => "", fun _ => .error "", fun _ => .error ""⟩ unreachable
        .GET := by
      rintro ⟨h, -⟩
      cases h
    rw [getHeader_run, requestAuthed_failed htext hkept, headerOf_failed.2 (by decide +kernel)]
  obtain ⟨k, q, -, -, hanswer⟩ := hheader _ hnone
  obtain h | ⟨_, _, h, -⟩ := hanswer <;> cases h

end Tethra.HttpBackend
