import Tethra.HttpWire
import Tethra.ServerAuthorization

set_option autoImplicit false

/-!
# One call over the wire

A call is a call of the server's directory that may be refused or whose answer may be lost. A
call that is tried again is served once.
-/
namespace Tethra.HttpCalls
open Base64Strings DeviceAuth HttpBackend HttpWire PercentEncoding RustText ServerAuthorization
open StatefulActions SyncFileBackend SyncItems VaultTypes
open AuthenticatedEncryption (Bytes)
open StatefulActions.Action (fail read update ofExcept)

/-! ## The cursor in the URL -/

theorem utf8_eq (text : String) : utf8 text = text.toList.flatMap String.utf8EncodeChar := by
  have hdata : text.toUTF8.data = (text.toList.utf8Encode).data := by
    rw [← String.toByteArray_ofList, String.ofList_toList]
    rfl
  unfold utf8
  rw [hdata]
  simp [List.utf8Encode]

theorem decodeUtf8Lossy_utf8 (text : String) : decodeUtf8Lossy (utf8 text) = text := by
  have happend := TerminalMarkers.fromUtf8_append text.toList []
  have hempty : TerminalMarkers.fromUtf8 [] = some "" := by rfl
  rw [List.append_nil, hempty, ← utf8_eq] at happend
  unfold decodeUtf8Lossy
  rw [happend, String.ofList_toList]
  simp

theorem unreserved_separable : Separable unreserved where
  admits b hb := by
    simp only [unreserved, Bool.or_eq_true, Bool.and_eq_true, decide_eq_true_eq, beq_iff_eq,
      UInt8.le_iff_toNat_le, ← UInt8.toNat_inj] at hb
    constructor
    · simp at hb
      omega
    · rintro rfl
      revert hb
      decide
  amp := by decide
  plus := by decide
  equals := by decide

theorem drop_base (base text : String) :
    (base ++ text).toList.drop base.toList.length = text.toList := by
  rw [String.toList_append, List.drop_left]

/-- What stands behind the base URL: the path and, behind the question mark, the query. -/
theorem pull_target (base since : String) :
    (base ++ "/v1/items?since=" ++ urlencodingLite since).toList.drop base.toList.length =
      "/v1/items".toList ++ '?' :: ("since=".toList ++ encode unreserved (utf8 since)) := by
  have htext : (urlencodingLite since).toList = encode unreserved (utf8 since) :=
    String.toList_ofList
  rw [String.append_assoc, drop_base, String.toList_append, htext]
  rfl

theorem items_path : ∀ c ∈ "/v1/items".toList, decide (c ≠ '?') = true := by
  have hall : "/v1/items".toList.all (fun c => decide (c ≠ '?')) = true := by decide +kernel
  exact List.all_eq_true.1 hall

theorem encode_since : encode unreserved (utf8 "since") = "since".toList := by
  decide +kernel

theorem parseQuery_since (since : String) :
    parseQuery decodeUtf8Lossy ("since=".toList ++ encode unreserved (utf8 since)) =
      [("since", since)] := by
  have hparse := parseQuery_encode decodeUtf8Lossy unreserved_separable (utf8 "since") (utf8 since)
  rw [encode_since, decodeUtf8Lossy_utf8, decodeUtf8Lossy_utf8] at hparse
  exact hparse

section Server
variable (codecs : HttpWire.Codecs)

/-- The server reads the cursor that the client wrote. -/
theorem pullQuery_since (since : String) (w : Wire) :
    pullQuery codecs ("since=".toList ++ encode unreserved (utf8 since)) w = (.ok (some since), w) := by
  unfold pullQuery
  rw [parseQuery_since]
  simp
  rfl

end Server

/-! ## What the server does with a call -/

def Quiet (message : String) : Prop :=
  containsText message "401" = false ∧ containsText message "404" = false

section Server
variable (codecs : HttpWire.Codecs)

/-- The client sees an error, and no header that is missing. -/
def Denies (r : Response) : Prop :=
  isSuccess r.status = false ∧ ∀ method message,
    errorText (formats codecs) method (.answered r.status r.body) = some message →
      containsText message "404" = false

/-- The client sees an error that it does not try again for. -/
def Fails (r : Response) : Prop :=
  isSuccess r.status = false ∧ ∀ method message,
    errorText (formats codecs) method (.answered r.status r.body) = some message → Quiet message

/-- What no call changes. -/
structure Carries (w w' : Wire) : Prop where
  baseUrl : w'.baseUrl = w.baseUrl
  authKey : w'.auth.authKey = w.auth.authKey
  recordFile : w'.server.recordFile = w.server.recordFile
  deliveryAt : w'.deliveryAt = w.deliveryAt
  recordFaultAt : w'.recordFaultAt = w.recordFaultAt

theorem Carries.refl (w : Wire) : Carries w w := ⟨rfl, rfl, rfl, rfl, rfl⟩

theorem Carries.trans {u v w : Wire} (h : Carries u v) (h' : Carries v w) : Carries u w :=
  ⟨h'.baseUrl.trans h.baseUrl, h'.authKey.trans h.authKey, h'.recordFile.trans h.recordFile,
    h'.deliveryAt.trans h.deliveryAt, h'.recordFaultAt.trans h.recordFaultAt⟩

/-- What becomes of a request for the call `call` of the directory, with the bodies that answer
its value. -/
inductive Handled {α : Type} (call : FileM α) (answers : α → Bytes → Prop) (before : FileBackend) :
    Response → FileBackend → Prop
  | denied (r : Response) (h : Denies codecs r) : Handled call answers before r before
  | failed (r : Response) (h : Fails codecs r) : Handled call answers before r (call before).2
  | answered (a : α) (r : Response) (hcall : (call before).1 = .ok a)
      (hstatus : isSuccess r.status = true) (h : answers a r.body) :
      Handled call answers before r (call before).2

/-- The texts of the serializer's errors do not mislead. -/
def Legible {α : Type} (codec : Codec α) : Prop :=
  ∀ a e, codec.write a = .error e → Fails codecs ⟨500, utf8 e⟩

end Server

section Texts
variable (codecs : HttpWire.Codecs)

/-- The codes of the answers without a body. -/
theorem denied_denies {status : StatusCode} (hfound : status ≠ .notFound)
    (hcontent : status ≠ .noContent) : Denies codecs (denied status) := by
  constructor
  · revert hcontent
    cases status <;> decide
  · intro method message h
    have hall : ∀ method : Method, ∀ status : StatusCode, status ≠ .notFound → containsText
        ("http " ++ method.text ++ " " ++ toString (code status).toNat ++ " " ++
          canonicalReason (code status) ++ ": " ++ fromUtf8Lossy []) "404" = false := by
      intro method status
      cases method <;> cases status <;> decide +kernel
    have hfail : isSuccess (denied status).status = false := by
      revert hcontent
      cases status <;> decide
    simp only [errorText, hfail] at h
    cases h
    exact hall method status hfound

theorem internalServerError_fails : Fails codecs (denied .internalServerError) := by
  refine ⟨by decide, fun method message h => ?_⟩
  have hall : ∀ method : Method, Quiet ("http " ++ method.text ++ " " ++
      toString (code .internalServerError).toNat ++ " " ++
        canonicalReason (code .internalServerError) ++ ": " ++ fromUtf8Lossy []) := by
    intro method
    unfold Quiet
    cases method <;> decide +kernel
  cases h
  exact hall method

theorem tooLarge_denies : Denies codecs tooLarge := by
  refine ⟨by decide, fun method message h => ?_⟩
  have hall : ∀ method : Method, containsText ("http " ++ method.text ++ " " ++
      toString tooLarge.status.toNat ++ " " ++ canonicalReason tooLarge.status ++ ": " ++
        fromUtf8Lossy tooLarge.body) "404" = false := by
    intro method
    cases method <;> decide +kernel
  cases h
  exact hall method

end Texts

section Handlers
variable {codecs : HttpWire.Codecs}

theorem authorize_error {fault : Option ReadFault} {headers : Headers} {s : Server}
    {status : StatusCode}
    (h : (DeviceAuth.authorize codecs.device fault headers s).1 = .error status) :
    status = .unauthorized := by
  unfold DeviceAuth.authorize at h
  cases hbearer : bearerRaw headers with
  | none =>
    rw [hbearer] at h
    change ((if _ then pure () else fail .unauthorized : ServerM Unit) s).1 = _ at h
    split at h <;> cases h
    rfl
  | some presented =>
    rw [hbearer] at h
    change ((if (retained s.now s.sessions presented).isSome then pure () else _ :
      ServerM Unit) _).1 = _ at h
    split at h
    · cases h
    · change ((if _ then pure () else fail .unauthorized : ServerM Unit) _).1 = _ at h
      split at h <;> cases h
      rfl

theorem onServer_carries {α : Type} {m : ServerM α} {w : Wire}
    (h : (m w.server).2.recordFile = w.server.recordFile) : Carries w (onServer m w).2 :=
  ⟨rfl, rfl, h, rfl, rfl⟩

theorem authorize_ends (headers : Headers) (w : Wire) :
    (HttpWire.authorize codecs headers).Ends (fun r w' => Carries w w' ∧ w'.directory = w.directory ∧
      ∀ e, r = .error e → Denies codecs e) w := by
  have hrun : HttpWire.authorize codecs headers w =
      onServer (DeviceAuth.authorize codecs.device (w.recordFaultAt w.requests) headers) w := rfl
  unfold Action.Ends
  rw [hrun]
  refine ⟨onServer_carries (authorize_views _ _ _).2, rfl, fun e he => ?_⟩
  change ((DeviceAuth.authorize codecs.device _ headers w.server).1).mapError denied = _ at he
  cases hrun : (DeviceAuth.authorize codecs.device (w.recordFaultAt w.requests) headers
      w.server).1 with
  | ok u =>
    rw [hrun] at he
    cases he
  | error status =>
    rw [hrun] at he
    cases he
    rw [authorize_error hrun]
    exact denied_denies codecs (by decide) (by decide)

section Calls
variable {α : Type} {call : FileM α} {answers : α → Bytes → Prop}

/-- The answer to a value: its body, or an error of the serializer. -/
def Finishes (codecs : HttpWire.Codecs) (answers : α → Bytes → Prop)
    (finish : α → HandlerM Response) : Prop :=
  ∀ a w, (finish a w).2 = w ∧ (Fails codecs (answer (finish a w).1) ∨
    isSuccess (answer (finish a w).1).status = true ∧ answers a (answer (finish a w).1).body)

def Does (codecs : HttpWire.Codecs) (call : FileM α) (answers : α → Bytes → Prop) (w : Wire)
    (r : Except Response Response) (w' : Wire) : Prop :=
  Carries w w' ∧ Handled codecs call answers w.directory (answer r) w'.directory

theorem json_finishes {codec : Codec α} (h : Legible codecs codec) :
    Finishes codecs (fun a body => codec.write a = .ok body) (json codec) := by
  intro a w
  unfold json
  cases hwrite : codec.write a with
  | ok bytes =>
    have hsuccess : isSuccess 200 = true := by decide
    exact ⟨rfl, .inr ⟨hsuccess, hwrite⟩⟩
  | error e => exact ⟨rfl, .inl (h a e hwrite)⟩

theorem guarded_ends {finish : α → HandlerM Response} (hfinish : Finishes codecs answers finish)
    (headers : Headers) (w : Wire) :
    (HttpWire.authorize codecs headers >>= fun _ => onDirectory call >>= finish).Ends
      (Does codecs call answers w) w := by
  refine (authorize_ends headers w).bind ?_ ?_
  · rintro u t ⟨hcarries, hdirectory, -⟩
    have hrun : onDirectory call t = ((call w.directory).1.mapError fun _ =>
        denied .internalServerError, { t with directory := (call w.directory).2 }) := by
      unfold onDirectory
      rw [hdirectory]
    have hdone : Carries w { t with directory := (call w.directory).2 } :=
      hcarries.trans ⟨rfl, rfl, rfl, rfl, rfl⟩
    cases hcall : (call w.directory).1 with
    | error e =>
      rw [hcall] at hrun
      unfold Action.Ends
      rw [Action.bind_error hrun]
      exact ⟨hdone, .failed _ (internalServerError_fails codecs)⟩
    | ok a =>
      rw [hcall] at hrun
      unfold Action.Ends
      rw [Action.bind_ok hrun]
      obtain ⟨hstate, hfails | ⟨hsuccess, hanswers⟩⟩ :=
        hfinish a { t with directory := (call w.directory).2 }
      · refine ⟨by rw [hstate]; exact hdone, ?_⟩
        rw [hstate]
        exact .failed _ hfails
      · refine ⟨by rw [hstate]; exact hdone, ?_⟩
        rw [hstate]
        exact .answered a _ hcall hsuccess hanswers
  · rintro e t ⟨hcarries, hdirectory, hdenies⟩
    refine ⟨hcarries, ?_⟩
    rw [hdirectory]
    exact .denied _ (hdenies e rfl)

variable (codecs) in
theorem jsonBody_ends {codec : Codec α} {a : α} {bytes : Bytes} (h : codec.write a = .ok bytes)
    (w : Wire) : jsonBody codecs codec (some bytes) w = (.ok a, w) ∨
      jsonBody codecs codec (some bytes) w = (.error tooLarge, w) := by
  unfold jsonBody
  by_cases hlong : BODY_LIMIT < bytes.length
  · right
    dsimp only
    rw [if_pos hlong]
    rfl
  · left
    dsimp only
    rw [if_neg hlong, codec.read_write a bytes h]
    rfl

/-- A handler that reads a body first. -/
theorem body_ends {β : Type} {codec : Codec β} {b : β} {bytes : Bytes}
    (h : codec.write b = .ok bytes) {next : β → HandlerM Response} {w : Wire}
    (hnext : (next b).Ends (Does codecs call answers w) w) :
    (jsonBody codecs codec (some bytes) >>= next).Ends (Does codecs call answers w) w := by
  unfold Action.Ends
  obtain hok | herror := jsonBody_ends codecs h w
  · rw [Action.bind_ok hok]
    exact hnext
  · rw [Action.bind_error herror]
    exact ⟨.refl w, .denied _ (tooLarge_denies codecs)⟩

end Calls
end Handlers

/-! ## The four calls and the login -/

/-- The texts of the server's answers. -/
structure AllLegible (codecs : HttpWire.Codecs) : Prop where
  pull : Legible codecs codecs.pullResponse
  push : Legible codecs codecs.pushResponse
  header : Legible codecs codecs.header
  auth : Legible codecs codecs.auth

/-- The body for an optional header. -/
def HeaderBody (codecs : HttpWire.Codecs) (header : Option SyncedVaultHeader) (body : Bytes) :
    Prop :=
  match header with
  | none => body = nullText
  | some header => codecs.header.write header = .ok body

section Calls
variable {codecs : HttpWire.Codecs} {α : Type} {call : FileM α} {answers : α → Bytes → Prop}

/-- A request for a path that the server knows. -/
theorem handle_run {m : Message} {w : Wire} (path : String) (query : List Char) (found : Endpoint)
    (htarget : (m.url.toList.drop w.baseUrl.toList.length).takeWhile (· ≠ '?') = path.toList)
    (hquery : ((m.url.toList.drop w.baseUrl.toList.length).dropWhile (· ≠ '?')).drop 1 = query)
    (hfound : endpoint path = some found) :
    handle codecs m w =
      dispatch codecs ⟨m.authorization, w.forwardedFor⟩ query m.body found m.method w := by
  change route codecs _ (((m.url.toList.drop w.baseUrl.toList.length).dropWhile (· ≠ '?')).drop 1)
    m.body m.method (endpoint (String.ofList ((m.url.toList.drop w.baseUrl.toList.length).takeWhile
      (· ≠ '?')))) w = _
  rw [htarget, String.ofList_toList, hfound, hquery]
  rfl

/-- What the server answers to `m`, and what it does. -/
def Responds (codecs : HttpWire.Codecs) (call : FileM α) (answers : α → Bytes → Prop) (m : Message)
    (w : Wire) : Prop :=
  Carries w (respond codecs m w).2 ∧ Handled codecs call answers w.directory (respond codecs m w).1
    (respond codecs m w).2.directory

theorem Responds.of_ends {m : Message} {w : Wire} (action : HandlerM Response)
    (hrun : handle codecs m w.tick = action w.tick)
    (h : action.Ends (Does codecs call answers w.tick) w.tick) :
    Responds codecs call answers m w := by
  have htick : Carries w w.tick := ⟨rfl, rfl, rfl, rfl, rfl⟩
  unfold Responds respond
  rw [hrun]
  exact ⟨htick.trans h.1, h.2⟩

theorem respond_pull (hl : AllLegible codecs) (since : SyncCursor) (authorization : Option String)
    (w : Wire) : Responds codecs (FileBackend.pull since)
      (fun pulled body => codecs.pullResponse.write pulled = .ok body)
      ⟨.GET, w.baseUrl ++ "/v1/items?since=" ++ urlencodingLite since.asStr, authorization, none⟩
      w := by
  have htarget := pull_target w.tick.baseUrl since.asStr
  refine .of_ends (pullItems codecs ⟨authorization, w.forwardedFor⟩
    ("since=".toList ++ encode unreserved (utf8 since.asStr)))
    (handle_run "/v1/items" _ .items ?_ ?_ rfl) ?_
  · change ((w.tick.baseUrl ++ _ ++ _).toList.drop _).takeWhile _ = _
    rw [htarget, List.takeWhile_append_of_pos items_path]
    simp
  · change (((w.tick.baseUrl ++ _ ++ _).toList.drop _).dropWhile _).drop 1 = _
    rw [htarget, List.dropWhile_append_of_pos items_path]
    simp
  · unfold Action.Ends pullItems
    rw [Action.bind_ok (pullQuery_since codecs since.asStr w.tick)]
    exact guarded_ends (json_finishes hl.pull) _ _

theorem respond_push (hl : AllLegible codecs) {items : List SyncItem} {body : Bytes}
    (hbody : codecs.pushRequest.write items = .ok body) (authorization : Option String) (w : Wire) :
    Responds codecs (FileBackend.push items)
      (fun cursor body => codecs.pushResponse.write cursor = .ok body)
      ⟨.POST, w.baseUrl ++ "/v1/items", authorization, some body⟩ w := by
  have htarget : (w.baseUrl ++ "/v1/items").toList.drop w.tick.baseUrl.toList.length =
      "/v1/items".toList := drop_base _ _
  refine .of_ends (pushItems codecs ⟨authorization, w.forwardedFor⟩ (some body))
    (handle_run "/v1/items" [] .items ?_ ?_ rfl) ?_
  · rw [htarget]
    decide
  · rw [htarget]
    decide
  · exact body_ends hbody (guarded_ends (json_finishes hl.push) _ _)

theorem respond_getHeader (hl : AllLegible codecs) (authorization : Option String) (w : Wire) :
    Responds codecs FileBackend.getHeader (HeaderBody codecs)
      ⟨.GET, w.baseUrl ++ "/v1/header", authorization, none⟩ w := by
  have htarget : (w.baseUrl ++ "/v1/header").toList.drop w.tick.baseUrl.toList.length =
      "/v1/header".toList := drop_base _ _
  refine .of_ends (HttpWire.getHeader codecs ⟨authorization, w.forwardedFor⟩)
    (handle_run "/v1/header" [] .header ?_ ?_ rfl) ?_
  · rw [htarget]
    decide
  · rw [htarget]
    decide
  · refine guarded_ends (fun header t => ?_) _ _
    cases header with
    | none =>
      have hsuccess : isSuccess 200 = true := by decide
      exact ⟨rfl, .inr ⟨hsuccess, rfl⟩⟩
    | some header => exact json_finishes hl.header header t

theorem respond_putHeader {header : SyncedVaultHeader} {body : Bytes}
    (hbody : codecs.header.write header = .ok body) (authorization : Option String) (w : Wire) :
    Responds codecs (FileBackend.putHeader header) (fun _ _ => True)
      ⟨.PUT, w.baseUrl ++ "/v1/header", authorization, some body⟩ w := by
  have htarget : (w.baseUrl ++ "/v1/header").toList.drop w.tick.baseUrl.toList.length =
      "/v1/header".toList := drop_base _ _
  refine .of_ends (HttpWire.putHeader codecs ⟨authorization, w.forwardedFor⟩ (some body))
    (handle_run "/v1/header" [] .header ?_ ?_ rfl) ?_
  · rw [htarget]
    decide
  · rw [htarget]
    decide
  · refine body_ends hbody (guarded_ends (fun u t => ?_) _ _)
    have hsuccess : isSuccess 204 = true := by decide
    exact ⟨rfl, .inr ⟨hsuccess, trivial⟩⟩

end Calls

section Login
variable {codecs : HttpWire.Codecs}

theorem orStatus_error {ε α : Type} {status status' : StatusCode} {r : Except ε α} {s t : Server}
    (h : orStatus status r s = (.error status', t)) : status' = status := by
  cases r <;> cases h
  rfl

theorem findRecord_error {fault : Option ReadFault} {s t : Server} {status : StatusCode}
    (hrecord : s.recordFile.isSome = true) (hfault : fault ≠ some .hidden)
    (h : findRecord codecs.device fault s = (.error status, t)) :
    status = .internalServerError := by
  obtain ⟨bytes, hbytes⟩ := Option.isSome_iff_exists.1 hrecord
  have hload : loadRecord codecs.device fault s.recordFile ≠ .ok none := by
    rw [hbytes]
    rcases fault with - | fault
    · unfold loadRecord
      dsimp only
      cases codecs.device.fromSlice bytes <;> simp
    · cases fault with
      | hidden => exact absurd rfl hfault
      | failed message => simp [loadRecord]
  unfold findRecord at h
  change (orStatus .internalServerError (loadRecord codecs.device fault s.recordFile) >>= _) s = _ at h
  cases hrun : loadRecord codecs.device fault s.recordFile with
  | error e =>
    rw [hrun] at h
    cases h
    rfl
  | ok found =>
    cases found with
    | none => exact absurd hrun hload
    | some record =>
      rw [hrun] at h
      cases h

/-- Every refusal of a login but the one for a missing record. -/
theorem deviceAuthLogin_error {fault : Option ReadFault} {headers : Headers} {authKey : String}
    {random : Bytes} {s : Server} {status : StatusCode} (hrecord : s.recordFile.isSome = true)
    (hfault : fault ≠ some .hidden)
    (h : (DeviceAuth.deviceAuthLogin codecs.device fault headers authKey random s).1 =
      .error status) : status ≠ .notFound ∧ status ≠ .noContent := by
  obtain ⟨t', hrun⟩ : ∃ t', DeviceAuth.deviceAuthLogin codecs.device fault headers authKey random s =
      (.error status, t') := ⟨_, Prod.ext h rfl⟩
  unfold DeviceAuth.deviceAuthLogin at hrun
  obtain hlimit | ⟨allowed, t, hlimit, hrun⟩ := Action.bind_eq_error.1 hrun
  · unfold checkAndRecord at hlimit
    dsimp only at hlimit
    split at hlimit <;> cases hlimit
  · have hkept : t.recordFile = s.recordFile :=
      (leaves_checkAndRecord (f := Server.recordFile) (fun _ _ => rfl) _).after hlimit
    cases allowed with
    | false =>
      cases hrun
      decide
    | true =>
      obtain hfind | ⟨record, u, -, hrun⟩ := Action.bind_eq_error.1 hrun
      · rw [findRecord_error (hkept ▸ hrecord) hfault hfind]
        decide
      · obtain hkey | ⟨key, v, -, hrun⟩ := Action.bind_eq_error.1 hrun
        · rw [orStatus_error hkey]
          decide
        · split at hrun <;> cases hrun
          decide

/-- A login leaves the directory, and its refusals name no missing header. -/
def LoggedIn (codecs : HttpWire.Codecs) (w : Wire) (r : Response) (w' : Wire) : Prop :=
  Carries w w' ∧ w'.directory = w.directory ∧ (Denies codecs r ∨ isSuccess r.status = true ∧
    ∃ session, codecs.auth.write session = .ok r.body)

theorem deviceAuthLogin_ends (hl : AllLegible codecs) {authKey : String} {body : Bytes}
    (hbody : codecs.authKey.write authKey = .ok body) (headers : Headers) {w : Wire}
    (hrecord : w.server.recordFile.isSome = true)
    (hfault : w.recordFaultAt w.requests ≠ some .hidden) :
    (HttpWire.deviceAuthLogin codecs headers (some body)).Ends
      (fun r w' => LoggedIn codecs w (answer r) w') w := by
  unfold Action.Ends HttpWire.deviceAuthLogin
  obtain hok | herror := jsonBody_ends codecs hbody w
  · rw [Action.bind_ok hok]
    let m := DeviceAuth.deviceAuthLogin codecs.device (w.recordFaultAt w.requests) headers authKey
      (w.randomAt w.requests)
    change LoggedIn codecs w
      (answer ((onServer m >>= fun token => json codecs.auth ⟨token, 24 * 60 * 60⟩) w).1)
      ((onServer m >>= fun token => json codecs.auth ⟨token, 24 * 60 * 60⟩) w).2
    have hcarries : Carries w (onServer m w).2 :=
      onServer_carries (deviceAuthLogin_views _ _ _ _ _).2
    have hrun : onServer m w = ((m w.server).1.mapError denied, (onServer m w).2) := rfl
    cases hlogin : (m w.server).1 with
    | error status =>
      rw [hlogin] at hrun
      rw [Action.bind_error hrun]
      obtain ⟨hfound, hcontent⟩ := deviceAuthLogin_error hrecord hfault hlogin
      exact ⟨hcarries, rfl, .inl (denied_denies codecs hfound hcontent)⟩
    | ok token =>
      rw [hlogin] at hrun
      rw [Action.bind_ok hrun]
      obtain ⟨hstate, hfails | ⟨hsuccess, hwrite⟩⟩ :=
        json_finishes hl.auth ⟨token, 24 * 60 * 60⟩ (onServer m w).2
      · rw [hstate]
        exact ⟨hcarries, rfl, .inl ⟨hfails.1, fun method message h => (hfails.2 method message h).2⟩⟩
      · rw [hstate]
        exact ⟨hcarries, rfl, .inr ⟨hsuccess, _, hwrite⟩⟩
  · rw [Action.bind_error herror]
    exact ⟨.refl w, rfl, .inl (tooLarge_denies codecs)⟩

theorem respond_login (hl : AllLegible codecs) {authKey : String} {body : Bytes}
    (hbody : codecs.authKey.write authKey = .ok body) {w : Wire}
    (hrecord : w.server.recordFile.isSome = true)
    (hfault : w.recordFaultAt w.requests ≠ some .hidden) :
    LoggedIn codecs w (respond codecs ⟨.POST, w.baseUrl ++ "/v1/auth", none, some body⟩ w).1
      (respond codecs ⟨.POST, w.baseUrl ++ "/v1/auth", none, some body⟩ w).2 := by
  have htarget : (w.baseUrl ++ "/v1/auth").toList.drop w.tick.baseUrl.toList.length =
      "/v1/auth".toList := drop_base _ _
  have hrun : handle codecs ⟨.POST, w.baseUrl ++ "/v1/auth", none, some body⟩ w.tick =
      HttpWire.deviceAuthLogin codecs ⟨none, w.forwardedFor⟩ (some body) w.tick := by
    refine handle_run "/v1/auth" [] .auth ?_ ?_ rfl
    · rw [htarget]
      decide
    · rw [htarget]
      decide
  have htick : Carries w w.tick := ⟨rfl, rfl, rfl, rfl, rfl⟩
  obtain ⟨hcarries, hdirectory, hanswer⟩ := deviceAuthLogin_ends hl hbody ⟨none, w.forwardedFor⟩
    (w := w.tick) hrecord hfault
  unfold respond
  rw [hrun]
  exact ⟨htick.trans hcarries, hdirectory, hanswer⟩

end Login

/-! ## What the client makes of it -/

/-- The error text of a delivery that brings no answer. -/
def lossText (method : Method) : Delivery → Option String
  | .refused text => some ("http " ++ method.text ++ ": " ++ text)
  | .dropped text => some ("http " ++ method.text ++ ": " ++ text)
  | .cut text => some ("http body: " ++ text)
  | .through => none

/-- The network's texts name no status that is read back, and a client with a key finds a record
on the server. -/
structure Honest (w : Wire) : Prop where
  quiet : ∀ k method message, lossText method (w.deliveryAt k) = some message → Quiet message
  record : w.auth.authKey.isSome = true →
    w.server.recordFile.isSome = true ∧ ∀ k, w.recordFaultAt k ≠ some .hidden

theorem Honest.carries {w w' : Wire} (h : Honest w) (hc : Carries w w') : Honest w' := by
  obtain ⟨hquiet, hrecord⟩ := h
  constructor
  · rw [hc.deliveryAt]
    exact hquiet
  · rw [hc.authKey, hc.recordFile, hc.recordFaultAt]
    exact hrecord

/-- An error that `get_header` does not take for a missing header. -/
def Blind (e : Error) : Prop := ∀ message, e = .sync message → containsText message "404" = false

/-- What comes of a call. -/
inductive Outcome {α : Type} (call : FileM α) (answers : α → Bytes → Prop) (before : FileBackend) :
    Except Error Bytes → FileBackend → Prop
  | refused (e : Error) (h : Blind e) : Outcome call answers before (.error e) before
  | lost (message : String) (h : Quiet message) :
      Outcome call answers before (.error (.sync message)) (call before).2
  | served (a : α) (body : Bytes) (hcall : (call before).1 = .ok a) (h : answers a body) :
      Outcome call answers before (.ok body) (call before).2

theorem Blind.of_text {message : String} (h : containsText message "404" = false) :
    Blind (.sync message) := by
  intro m hm
  cases hm
  exact h

section Client
variable {codecs : HttpWire.Codecs}

variable (codecs) in
/-- The four things that happen to a request. -/
theorem exchange_cases (m : Message) (w : Wire) :
    (∃ message, lossText m.method (w.deliveryAt w.requests) = some message ∧
      HttpWire.request codecs m w = (.error (.sync message), w.counted)) ∨
    (∃ message, lossText m.method (w.deliveryAt w.requests) = some message ∧
      HttpWire.request codecs m w = (.error (.sync message), (respond codecs m w).2.counted)) ∨
    HttpWire.request codecs m w =
      (outcome (formats codecs) m.method
        (.answered (respond codecs m w).1.status (respond codecs m w).1.body),
        (respond codecs m w).2.counted) := by
  unfold HttpWire.request exchange
  cases w.deliveryAt w.requests with
  | refused text => exact .inl ⟨_, rfl, rfl⟩
  | dropped text => exact .inr (.inl ⟨_, rfl, rfl⟩)
  | cut text => exact .inr (.inl ⟨_, rfl, rfl⟩)
  | through => exact .inr (.inr rfl)

variable (codecs) in
theorem outcome_failed (method : Method) {r : Response} (h : isSuccess r.status = false) :
    ∃ message, errorText (formats codecs) method (.answered r.status r.body) = some message ∧
      outcome (formats codecs) method (.answered r.status r.body) = .error (.sync message) := by
  have htext : ∃ message,
      errorText (formats codecs) method (.answered r.status r.body) = some message := by
    simp [errorText, h]
  obtain ⟨message, hmessage⟩ := htext
  exact ⟨message, hmessage, outcome_error hmessage⟩

theorem outcome_success {method : Method} {r : Response} (h : isSuccess r.status = true) :
    outcome (formats codecs) method (.answered r.status r.body) = .ok r.body := by
  have htext : errorText (formats codecs) method (.answered r.status r.body) = none := by
    simp [errorText, h]
  unfold outcome
  rw [htext]

theorem counted_directory (w : Wire) : w.counted.directory = w.directory := rfl

def opened (w : Wire) (token : String) : Wire :=
  { w with auth := { w.auth with session := some token, status := "authenticated" } }

theorem open_run (session : AuthResponse) (what : String → Error) (w : Wire) :
    (ofExcept ((Except.ok session).mapError what) >>= fun session =>
      HttpWire.openSession session.token : WireM Unit) w = (.ok (), opened w session.token) := rfl

theorem opened_directory (w : Wire) (token : String) :
    (opened w token).directory = w.directory := rfl

theorem carries_opened (w : Wire) (token : String) : Carries w (opened w token) :=
  ⟨rfl, rfl, rfl, rfl, rfl⟩

theorem carries_counted (w : Wire) : Carries w w.counted := ⟨rfl, rfl, rfl, rfl, rfl⟩

section Calls
variable {α : Type} {call : FileM α} {answers : α → Bytes → Prop}

/-- The answer does not arrive. -/
theorem Handled.lost {before after : FileBackend} {r : Response} {message : String}
    (h : Handled codecs call answers before r after) (hquiet : Quiet message) :
    Outcome call answers before (.error (.sync message)) after := by
  cases h with
  | denied _ hdenies => exact .refused _ (.of_text hquiet.2)
  | failed _ hfails => exact .lost _ hquiet
  | answered a _ hcall hstatus hanswer => exact .lost _ hquiet

/-- The answer arrives. -/
theorem Handled.outcome {before after : FileBackend} {r : Response}
    (h : Handled codecs call answers before r after) (method : Method) :
    Outcome call answers before
      (HttpBackend.outcome (formats codecs) method (.answered r.status r.body)) after := by
  cases h with
  | denied _ hdenies =>
    obtain ⟨message, htext, hout⟩ := outcome_failed codecs method hdenies.1
    have hblind : containsText message "404" = false := hdenies.2 method message htext
    rw [hout]
    exact .refused _ (.of_text hblind)
  | failed _ hfails =>
    obtain ⟨message, htext, hout⟩ := outcome_failed codecs method hfails.1
    have hquiet : Quiet message := hfails.2 method message htext
    rw [hout]
    exact .lost _ hquiet
  | answered a _ hcall hstatus hanswer =>
    rw [outcome_success hstatus]
    exact .served a _ hcall hanswer

theorem request_ends {m : Message} {w : Wire} (hw : Honest w)
    (h : Responds codecs call answers m w) :
    (HttpWire.request codecs m).Ends
      (fun r w' => Carries w w' ∧ Outcome call answers w.directory r w'.directory) w := by
  obtain ⟨hcarries, hhandled⟩ := h
  have hcounted := hcarries.trans (carries_counted (respond codecs m w).2)
  unfold Action.Ends
  obtain ⟨message, htext, hrun⟩ | ⟨message, htext, hrun⟩ | hrun :=
    exchange_cases codecs m w
  · have hquiet : Quiet message := hw.quiet w.requests m.method message htext
    rw [hrun]
    dsimp only [counted_directory]
    exact ⟨carries_counted w, .refused _ (.of_text hquiet.2)⟩
  · have hquiet : Quiet message := hw.quiet w.requests m.method message htext
    rw [hrun]
    dsimp only [counted_directory]
    exact ⟨hcounted, hhandled.lost hquiet⟩
  · rw [hrun]
    dsimp only [counted_directory]
    exact ⟨hcounted, hhandled.outcome m.method⟩

/-- A refresh leaves the directory. -/
theorem refreshSession_ends (hl : AllLegible codecs) {w : Wire} (hw : Honest w)
    (hkey : w.auth.authKey.isSome = true) :
    (HttpWire.refreshSession codecs).Ends (fun r w' => Carries w w' ∧ w'.directory = w.directory ∧
      ∀ e, r = .error e → Blind e) w := by
  obtain ⟨hrecord, hfault⟩ := hw.record hkey
  obtain ⟨key, hk⟩ := Option.isSome_iff_exists.1 hkey
  have hrun : HttpWire.refreshSession codecs w =
      (ofExcept (toVec codecs.authKey (standard.encode key.1)) >>= fun body =>
        HttpWire.request codecs ⟨.POST, w.baseUrl ++ "/v1/auth", none, some body⟩ >>= fun answer =>
          ofExcept (fromSlice codecs.auth "auth" answer) >>= fun session =>
            HttpWire.openSession session.token : WireM Unit) w := by
    unfold HttpWire.refreshSession
    rw [Action.bind_ok (show (read Wire.auth : WireM AuthState) w = (.ok w.auth, w) from rfl), hk]
    rfl
  unfold Action.Ends
  rw [hrun]
  unfold toVec
  cases hwrite : codecs.authKey.write (standard.encode key.1) with
  | error e => exact ⟨.refl w, rfl, fun e' he => by cases he; intro m hm; cases hm⟩
  | ok body =>
    rw [Action.bind_ok (show (ofExcept ((Except.ok body).mapError Error.other) : WireM Bytes) w =
      (.ok body, w) from rfl)]
    let m : Message := ⟨.POST, w.baseUrl ++ "/v1/auth", none, some body⟩
    obtain ⟨hcarries, hdirectory, hanswer⟩ := respond_login hl hwrite hrecord (hfault w.requests)
    have hcounted := hcarries.trans (carries_counted (respond codecs m w).2)
    obtain ⟨message, htext, hrun⟩ | ⟨message, htext, hrun⟩ | hrun :=
      exchange_cases codecs m w
    · have hquiet : Quiet message := hw.quiet w.requests m.method message htext
      rw [Action.bind_error hrun]
      dsimp only [counted_directory]
      exact ⟨carries_counted w, rfl, fun e he => by cases he; exact .of_text hquiet.2⟩
    · have hquiet : Quiet message := hw.quiet w.requests m.method message htext
      rw [Action.bind_error hrun]
      dsimp only [counted_directory]
      exact ⟨hcounted, hdirectory, fun e he => by cases he; exact .of_text hquiet.2⟩
    · obtain hdenies | ⟨hsuccess, session, hsession⟩ := hanswer
      · obtain ⟨message, htext, hout⟩ := outcome_failed codecs m.method
          hdenies.1
        have hblind : containsText message "404" = false := hdenies.2 m.method message htext
        rw [hout] at hrun
        rw [Action.bind_error hrun]
        dsimp only [counted_directory]
        exact ⟨hcounted, hdirectory, fun e he => by cases he; exact .of_text hblind⟩
      · rw [outcome_success hsuccess] at hrun
        rw [Action.bind_ok hrun]
        unfold fromSlice
        rw [codecs.auth.read_write _ _ hsession, open_run]
        dsimp only [opened_directory, counted_directory]
        exact ⟨hcounted.trans (carries_opened _ _), hdirectory, fun e he => by cases he⟩

/-- The request again is the call, where nothing was done before. -/
theorem retry_ends (hl : AllLegible codecs) {method : Method} {url : String} {body : Option Bytes}
    {w : Wire} (hw : Honest w) (hkey : w.auth.authKey.isSome = true)
    (h : ∀ authorization w', Carries w w' →
      Responds codecs call answers ⟨method, url, authorization, body⟩ w') :
    (HttpWire.retry codecs method url body).Ends
      (fun r w' => Carries w w' ∧ Outcome call answers w.directory r w'.directory) w := by
  unfold HttpWire.retry
  refine (refreshSession_ends hl hw hkey).bind ?_ ?_
  · rintro u t ⟨hcarries, hdirectory, -⟩
    obtain ⟨hagain, hout⟩ := request_ends (hw.carries hcarries)
      (h (activeAuthHeader t.auth) t hcarries)
    rw [hdirectory] at hout
    exact ⟨hcarries.trans hagain, hout⟩
  · rintro e t ⟨hcarries, hdirectory, hblind⟩
    rw [hdirectory]
    exact ⟨hcarries, .refused e (hblind e rfl)⟩

/-- Only a call that was not served is tried again. -/
theorem Outcome.kept {before after : FileBackend} {r : Except Error Bytes}
    (h : Outcome call answers before r after) {message : String} (hr : r = .error (.sync message))
    (hcode : containsText message "401" = true) : after = before := by
  cases h with
  | refused e hblind => rfl
  | lost text hquiet =>
    cases hr
    rw [hquiet.1] at hcode
    cases hcode
  | served a body hcall hanswer => cases hr

/-- What `request_authed` does with the first answer. -/
def settle (codecs : HttpWire.Codecs) (method : Method) (url : String) (body : Option Bytes)
    (hasKey : Bool) : Except Error Bytes → WireM Bytes
  | .ok bytes => pure bytes
  | .error (.sync message) =>
    if containsText message "401" && hasKey then HttpWire.retry codecs method url body
    else fail (.sync message)
  | .error e => fail e

/-- A call that is tried again is served once. -/
theorem requestAuthed_ends (hl : AllLegible codecs) {method : Method} {url : String}
    {body : Option Bytes} {w : Wire} (hw : Honest w)
    (h : ∀ authorization w', Carries w w' →
      Responds codecs call answers ⟨method, url, authorization, body⟩ w') :
    (HttpWire.requestAuthed codecs method url body).Ends
      (fun r w' => Carries w w' ∧ Outcome call answers w.directory r w'.directory) w := by
  let m : Message := ⟨method, url, activeAuthHeader w.auth, body⟩
  obtain ⟨hcarries, hout⟩ := request_ends hw (h (activeAuthHeader w.auth) w (.refl w))
  have hrun : HttpWire.requestAuthed codecs method url body w =
      settle codecs method url body w.auth.authKey.isSome (HttpWire.request codecs m w).1
        (HttpWire.request codecs m w).2 := rfl
  unfold Action.Ends
  rw [hrun]
  revert hcarries hout
  generalize (HttpWire.request codecs m w).1 = r
  generalize (HttpWire.request codecs m w).2 = t
  intro hcarries hout
  rcases r with e | bytes
  · cases e with
    | sync message =>
      by_cases hagain : (containsText message "401" && w.auth.authKey.isSome) = true
      · obtain ⟨hcode, hkey⟩ := Bool.and_eq_true_iff.1 hagain
        have hkept : t.directory = w.directory := hout.kept rfl hcode
        obtain ⟨hcarries', hout'⟩ := retry_ends (w := t) hl (hw.carries hcarries)
          (by rw [hcarries.authKey]; exact hkey)
          fun authorization w' hc => h authorization w' (hcarries.trans hc)
        have hsettle : settle codecs method url body w.auth.authKey.isSome (.error (.sync message)) =
            HttpWire.retry codecs method url body := if_pos hagain
        rw [hkept] at hout'
        rw [hsettle]
        exact ⟨hcarries.trans hcarries', hout'⟩
      · have hsettle : settle codecs method url body w.auth.authKey.isSome (.error (.sync message)) =
            fail (.sync message) := if_neg hagain
        rw [hsettle]
        exact ⟨hcarries, hout⟩
    | _ => exact ⟨hcarries, hout⟩
  · exact ⟨hcarries, hout⟩

end Calls
end Client

end Tethra.HttpCalls
