import Tethra.EngineBackends
import Tethra.HttpCalls
import Tethra.SyncConvergence

set_option autoImplicit false

/-!
# Syncing over HTTP is syncing with the server's directory

Every sync over the wire is one on the directory in which calls are refused without effect or
their answers are lost. One that succeeds is the directory's own.
-/
namespace Tethra.HttpSync
open ActionRelations AtomicPrograms Base64Strings EngineBackends HttpBackend HttpCalls HttpWire
open StatefulActions SyncEngine SyncFileBackend SyncItems VaultState VaultTypes
open AuthenticatedEncryption (Aead Bytes)
open StatefulActions.Action (fail read update ofExcept)

def lossyBackend {β : Type} (backend : SyncBackend β) : SyncBackend (β × List (Fate Error)) where
  pull since := lossy (backend.pull since)
  push items := lossy (backend.push items)
  getHeader := lossy backend.getHeader
  putHeader header := lossy (backend.putHeader header)

/-! ## The four calls -/

section Calls
variable {codecs : HttpWire.Codecs} {α : Type}

/-- The directory behind the wire, with the fates of the calls to come. -/
def behind (w : Wire) (fates : List (Fate Error)) : FileBackend × List (Fate Error) :=
  (w.directory, fates)

/-- Each outcome is a fate, once the answer is read. -/
theorem fate_of_outcome {call : FileM α} {answers : α → Bytes → Prop} {before after : FileBackend}
    {r : Except Error Bytes} (h : Outcome call answers before r after)
    {finish : Except Error Bytes → Except Error α}
    (hread : ∀ a body, answers a body → finish (.ok body) = .ok a)
    (herror : ∀ e, Blind e → finish (.error e) = .error e) :
    ∃ fates, ∀ rest, lossy call (before, fates ++ rest) = (finish r, after, rest) := by
  cases h with
  | refused e hblind =>
    rw [herror e hblind]
    exact ⟨[.refused e], fun rest => rfl⟩
  | lost message hquiet =>
    rw [herror _ (.of_text hquiet.2)]
    exact ⟨[.lost (.sync message)], fun rest => rfl⟩
  | served a body hcall hanswer =>
    rw [hread a body hanswer, ← hcall]
    exact ⟨[.served], fun rest => rfl⟩

/-- A request that finishes as a call of the directory does. -/
theorem follows_of_request (hl : AllLegible codecs) {call : FileM α} {answers : α → Bytes → Prop}
    {m : WireM α} {method : Method} {url : String} {body : Option Bytes}
    (finish : Except Error Bytes → Except Error α) {w : Wire} (hw : Honest w)
    (hrun : m w = (finish (requestAuthed codecs method url body w).1,
      (requestAuthed codecs method url body w).2))
    (hresponds : ∀ authorization w', Carries w w' →
      Responds codecs call answers ⟨method, url, authorization, body⟩ w')
    (hread : ∀ a body, answers a body → finish (.ok body) = .ok a)
    (herror : ∀ e, Blind e → finish (.error e) = .error e) :
    Honest (m w).2 ∧ ∃ fates, ∀ rest,
      lossy call (behind w (fates ++ rest)) = ((m w).1, behind (m w).2 rest) := by
  obtain ⟨hcarries, hout⟩ := requestAuthed_ends hl hw hresponds
  obtain ⟨fates, hfates⟩ := fate_of_outcome hout hread herror
  rw [hrun]
  exact ⟨hw.carries hcarries, fates, hfates⟩

theorem fromSlice_write {codec : Codec α} {a : α} {bytes : Bytes} (h : codec.write a = .ok bytes)
    (what : String) : fromSlice codec what bytes = .ok a := by
  unfold fromSlice
  rw [codec.read_write a bytes h]
  rfl

/-- A request and the reading of its answer. -/
theorem request_run (m : WireM Bytes) (finish : Bytes → Except Error α) (w : Wire) :
    (m >>= fun body => ofExcept (finish body)) w = ((m w).1.bind finish, (m w).2) := by
  rw [Action.bind_run]
  rcases m w with ⟨r, t⟩
  cases r <;> rfl

theorem pull_follows (hl : AllLegible codecs) (since : SyncCursor) :
    Follows Honest behind ((httpBackend codecs).pull since) ((lossyBackend fileBackend).pull since) := by
  intro w hw
  have hrun : HttpWire.pull codecs since w =
      (requestAuthed codecs .GET (w.baseUrl ++ "/v1/items?since=" ++ urlencodingLite since.asStr)
        none >>= fun body => ofExcept (fromSlice codecs.pullResponse "pull" body)) w := rfl
  rw [request_run] at hrun
  have hresponds := fun authorization w' (hc : Carries w w') =>
    hc.baseUrl ▸ respond_pull hl since authorization w'
  refine follows_of_request hl (fun r => r.bind (fromSlice codecs.pullResponse "pull")) hw hrun
    hresponds ?_ ?_
  · intro a body hbody
    exact fromSlice_write hbody _
  · exact fun e he => rfl

theorem push_follows (hl : AllLegible codecs) (items : List SyncItem) :
    Follows Honest behind ((httpBackend codecs).push items) ((lossyBackend fileBackend).push items) := by
  intro w hw
  cases hwrite : codecs.pushRequest.write items with
  | error e =>
    have hrun : HttpWire.push codecs items w = (.error (.other e), w) := by
      unfold HttpWire.push toVec
      rw [hwrite]
      rfl
    change Honest (HttpWire.push codecs items w).2 ∧ _
    rw [show (httpBackend codecs).push items w = _ from hrun, hrun]
    exact ⟨hw, [.refused (.other e)], fun rest => rfl⟩
  | ok body =>
    have hrun : HttpWire.push codecs items w =
        (requestAuthed codecs .POST (w.baseUrl ++ "/v1/items") (some body) >>= fun answer =>
          ofExcept (fromSlice codecs.pushResponse "push" answer)) w := by
      unfold HttpWire.push toVec
      rw [hwrite]
      rfl
    rw [request_run] at hrun
    have hresponds := fun authorization w' (hc : Carries w w') =>
      hc.baseUrl ▸ respond_push hl hwrite authorization w'
    refine follows_of_request hl (fun r => r.bind (fromSlice codecs.pushResponse "push")) hw hrun
      hresponds ?_ ?_
    · intro a body hbody
      exact fromSlice_write hbody _
    · exact fun e he => rfl

theorem headerOf_body (codecs : HttpWire.Codecs) {header : Option SyncedVaultHeader} {body : Bytes}
    (h : HeaderBody codecs header body) : headerOf (formats codecs) (.ok body) = .ok header := by
  cases header with
  | none =>
    have hbody : body = nullText := h
    rw [hbody]
    rfl
  | some header =>
    have hwrite : codecs.header.write header = .ok body := h
    have hnull : isNull body = false := codecs.header_null header body hwrite
    have hread : (formats codecs).readHeader body = .ok header :=
      codecs.header.read_write header body hwrite
    simp [headerOf, hnull, hread]

theorem headerOf_error (codecs : HttpWire.Codecs) {e : Error} (h : Blind e) :
    headerOf (formats codecs) (.error e) = .error e := by
  cases e with
  | sync message => simp [headerOf, h message rfl]
  | _ => rfl

theorem getHeader_follows (hl : AllLegible codecs) :
    Follows Honest behind (httpBackend codecs).getHeader (lossyBackend fileBackend).getHeader := by
  intro w hw
  have hrun : HttpWire.fetchHeader codecs w =
      (headerOf (formats codecs) (requestAuthed codecs .GET (w.baseUrl ++ "/v1/header") none w).1,
        (requestAuthed codecs .GET (w.baseUrl ++ "/v1/header") none w).2) := rfl
  refine follows_of_request hl (headerOf (formats codecs)) hw hrun (fun authorization w' hc => ?_)
    (fun header body hbody => headerOf_body codecs hbody) fun e he => headerOf_error codecs he
  rw [← hc.baseUrl]
  exact respond_getHeader hl authorization w'

theorem putHeader_follows (hl : AllLegible codecs) (header : SyncedVaultHeader) :
    Follows Honest behind ((httpBackend codecs).putHeader header)
      ((lossyBackend fileBackend).putHeader header) := by
  intro w hw
  cases hwrite : codecs.header.write header with
  | error e =>
    have hrun : HttpWire.storeHeader codecs header w = (.error (.other e), w) := by
      unfold HttpWire.storeHeader toVec
      rw [hwrite]
      rfl
    rw [show (httpBackend codecs).putHeader header w = _ from hrun]
    exact ⟨hw, [.refused (.other e)], fun rest => rfl⟩
  | ok body =>
    have hrun : HttpWire.storeHeader codecs header w =
        (requestAuthed codecs .PUT (w.baseUrl ++ "/v1/header") (some body) >>= fun _ =>
          ofExcept (.ok ())) w := by
      unfold HttpWire.storeHeader toVec
      rw [hwrite]
      rfl
    rw [request_run] at hrun
    have hresponds := fun authorization w' (hc : Carries w w') =>
      hc.baseUrl ▸ respond_putHeader hwrite authorization w'
    exact follows_of_request hl (fun r => r.bind fun _ => .ok ()) hw hrun hresponds
      (fun _ _ _ => rfl) fun e he => rfl

end Calls

/-! ## Syncs -/

section Engines
variable {codecs : HttpWire.Codecs} {α : Type}

/-- The server behind the wire is honest, whatever the engine. -/
def HonestWire (s : Engine × Wire) : Prop := Honest s.2

def engineBehind (s : Engine × Wire) (fates : List (Fate Error)) :
    Engine × (FileBackend × List (Fate Error)) := (s.1, behind s.2 fates)

theorem backend_follows {call : WireM α} {call' : Action (FileBackend × List (Fate Error)) Error α}
    (h : Follows Honest behind call call') :
    Follows HonestWire engineBehind (backendAction call) (backendAction call') := by
  intro s hs
  obtain ⟨ht, fates, hfates⟩ := h s.2 hs
  refine ⟨ht, fates, fun rest => ?_⟩
  change ((call' (behind s.2 (fates ++ rest))).1, s.1, (call' (behind s.2 (fates ++ rest))).2) = _
  rw [hfates rest]
  rfl

theorem http_calls (hl : AllLegible codecs) :
    Calls (Follows HonestWire engineBehind) (httpBackend codecs) (lossyBackend fileBackend) where
  toCongruence := follows_congruence HonestWire engineBehind
  engine _ _ hs := ⟨hs, [], fun _ => rfl⟩
  pull since := backend_follows (pull_follows hl since)
  push items := backend_follows (push_follows hl items)
  getHeader := backend_follows (getHeader_follows hl)
  putHeader header := backend_follows (putHeader_follows hl header)

/-- The engine without the fates. -/
def forget {β : Type} (s : Engine × (β × List (Fate Error))) : Engine × β := (s.1, s.2.1)

theorem lossy_returns {β : Type} (call : Action β Error α) :
    Returns forget (backendAction (lossy call)) (backendAction call) := by
  rintro ⟨e, b, fates⟩ a t h
  obtain ⟨hok, rfl⟩ := Prod.mk.inj h
  have hrun : lossy call (b, fates) = (.ok a, (lossy call (b, fates)).2) := Prod.ext hok rfl
  have hcall := lossy_eq_ok hrun
  change ((call b).1, e, (call b).2) = _
  rw [hcall]
  rfl

theorem lossy_calls {β : Type} (backend : SyncBackend β) :
    Calls (Returns forget) (lossyBackend backend) backend where
  toCongruence := returns_congruence forget
  engine m s a t h := by
    obtain ⟨hok, rfl⟩ := Prod.mk.inj h
    exact Prod.ext hok rfl
  pull since := lossy_returns (backend.pull since)
  push items := lossy_returns (backend.push items)
  getHeader := lossy_returns backend.getHeader
  putHeader header := lossy_returns (backend.putHeader header)

variable (aead : Aead KeyBytes) (b64 : Base64)

/-- What the client asks of its backend, and what it does to its own state between. -/
inductive EngineCall where
  | sync
  | headerMatches
  | bootstrap
  | publishRekey (previous : SyncedVaultHeader)
  | locally (change : Action Engine Error Unit)

inductive Reply where
  | synced (report : SyncReport)
  | decided (yes : Bool)
  | done

variable {β : Type} (backend : SyncBackend β)

def perform : EngineCall → EngineM β Reply
  | .sync => do
    let report ← syncNow aead b64 backend
    pure (.synced report)
  | .headerMatches => do
    let yes ← headerMatchesBackend aead backend
    pure (.decided yes)
  | .bootstrap => do
    let yes ← bootstrapFromBackendIfNeeded backend
    pure (.decided yes)
  | .publishRekey previous => do
    publishPasswordRekey aead backend previous
    pure .done
  | .locally change => do
    Program.lift (engineAction change)
    pure .done

/-- The replies in order; an error ends its own request only. -/
def performAll : List EngineCall → Action (Engine × β) Error (List (Except Error Reply))
  | [] => pure []
  | asked :: calls => do
    let reply ← Action.attempt (perform aead b64 backend asked).run
    let replies ← performAll calls
    pure (reply :: replies)

variable {aead b64 backend}

theorem perform_alike {β' : Type} {backend' : SyncBackend β'}
    {R : ∀ {α : Type}, Action (Engine × β) Error α → Action (Engine × β') Error α → Prop}
    (h : Calls R backend backend') (asked : EngineCall) :
    Alike R (perform aead b64 backend asked) (perform aead b64 backend' asked) := by
  have hdone : ∀ {γ : Type} {p : EngineM β γ} {q : EngineM β' γ} (f : γ → Reply), Alike R p q →
      Alike R (p >>= fun a => pure (f a)) (q >>= fun a => pure (f a)) :=
    fun f hp => .bind h.toCongruence hp fun a => .pure h.toCongruence (f a)
  cases asked with
  | sync => exact hdone _ (syncNow_alike h aead b64)
  | headerMatches => exact hdone _ (headerMatchesBackend_alike h aead)
  | bootstrap => exact hdone _ (bootstrapFromBackendIfNeeded_alike h)
  | publishRekey previous => exact hdone _ (publishPasswordRekey_alike h aead previous)
  | locally change => exact hdone _ (.lift (h.engine change))

theorem performAll_follows (hl : AllLegible codecs) (calls : List EngineCall) :
    Follows HonestWire engineBehind (performAll aead b64 (httpBackend codecs) calls)
      (performAll aead b64 (lossyBackend fileBackend) calls) := by
  have hR := follows_congruence (ε := Error) HonestWire engineBehind
  have backends := http_calls hl
  induction calls with
  | nil => exact hR.pure []
  | cons asked calls ih =>
    refine hR.bind (Follows.attempt (perform_alike backends asked)) fun reply => ?_
    exact hR.bind ih fun replies => hR.pure (reply :: replies)

end Engines

/-! ## A first sync with a shared token -/

section Samples
open SyncConvergence (emptyDirectory sampleAead sampleHeader sampleVault)
open DeviceAuth (ascii utf8)

def headerText : Bytes := ascii ("\x7b\"salt\":[],\"argon2\":\x7b\"memory_kib\":65536," ++
  "\"time_cost\":3,\"parallelism\":4\x7d,\"wrapped_vault_key\":\x7b\"nonce\":[],\"ciphertext\":[]\x7d," ++
  "\"created_at\":\"1970-01-01T00:00:00Z\"\x7d")

theorem headerText_null : isNull headerText = false := by decide +kernel

def firstCodecs : HttpWire.Codecs where
  device := DeviceAuth.sampleCodecs
  authKey := .only "BwcHBw==" (ascii "\x7b\"auth_key\":\"BwcHBw==\"\x7d")
  auth := .only ⟨"CQkJ", 86400⟩ (ascii "\x7b\"token\":\"CQkJ\",\"expires_in\":86400\x7d")
  pullResponse := .only ([], ⟨"1"⟩) (ascii "\x7b\"items\":[],\"cursor\":\"1\"\x7d")
  pushRequest := .only [] (ascii "\x7b\"items\":[]\x7d")
  pushResponse := .only ⟨"1"⟩ (ascii "\x7b\"cursor\":\"1\"\x7d")
  header := .only (exportHeader sampleHeader) headerText
  header_null := Codec.only_isNull headerText_null
  badJson e := ⟨400, utf8 ("Failed to parse the request body as JSON: " ++ e)⟩
  badQuery := ⟨400, utf8 "Failed to deserialize query string: duplicate field since"⟩
  noContentType := ⟨415, utf8 "Expected request with Content-Type: application/json"⟩

def firstEngine : Engine := ⟨sampleVault [], .default⟩

/-- A server without a device record. -/
def firstWire (deliveryAt : ℕ → Delivery) : Wire where
  baseUrl := "http://box:8787"
  auth := ⟨some "t", none, none, "configured"⟩
  server := ⟨some "t", false, none, fun _ => none, fun _ => [], 0⟩
  directory := emptyDirectory
  requests := 0
  deliveryAt := deliveryAt
  recordFaultAt _ := none
  randomAt _ := [9, 9, 9]
  nowAt _ := 0
  forwardedFor := none

theorem only_legible {α : Type} [DecidableEq α] (value : α) (text : Bytes) :
    Legible firstCodecs (.only value text) := by
  intro a e h
  have he : e = "no text" := by
    unfold Codec.only at h
    dsimp only at h
    split at h <;> cases h
    rfl
  subst he
  refine ⟨by decide, fun method message hm => ?_⟩
  have hall : ∀ method : Method, Quiet ("http " ++ method.text ++ " " ++ toString (500 : UInt16).toNat ++
      " " ++ canonicalReason 500 ++ ": " ++ RustText.fromUtf8Lossy (utf8 "no text")) := by
    intro method
    unfold Quiet
    cases method <;> decide +kernel
  cases hm
  exact hall method

theorem firstCodecs_legible : AllLegible firstCodecs :=
  ⟨only_legible _ _, only_legible _ _, only_legible _ _, only_legible _ _⟩

/-- The answer to the fourth request is lost. -/
def losing (k : ℕ) : Delivery :=
  if k = 3 then .dropped "error sending request" else .through

theorem firstWire_honest (deliveryAt : ℕ → Delivery)
    (h : ∀ k, deliveryAt k = .through ∨ deliveryAt k = .dropped "error sending request") :
    Honest (firstWire deliveryAt) := by
  refine ⟨fun k method message hm => ?_, fun hkey => (by cases hkey)⟩
  change lossText method (deliveryAt k) = some message at hm
  obtain hk | hk := h k
  · rw [hk] at hm
    cases hm
  · rw [hk] at hm
    cases hm
    unfold Quiet
    cases method <;> decide +kernel

theorem firstSync_isOk : ((syncNow sampleAead standard (httpBackend firstCodecs)).run
    (firstEngine, firstWire fun _ => .through)).1.isOk = true := by decide +kernel

end Samples

end Tethra.HttpSync
