import Tethra.DeviceAuth

set_option autoImplicit false

/-!
# Enroll, data requests and crashes in any order

An enroll request reads the record, then writes the file in steps; anything may happen
between them. What was answered with 204 is kept beside the server.
-/
namespace Tethra.ServerAuthorization
open AuthenticatedEncryption (Bytes)
open DeviceAuth RandomAccessFiles StatefulActions VaultTypes
open StatefulActions.Action (bind_ok bind_error)

structure Site where
  server : Server
  /-- Enroll requests that have passed their checks. -/
  saves : ℕ → Option Save
  /-- The records of enroll requests that succeeded, the latest first. -/
  enrolled : List DeviceAuthRecord

inductive Step where
  | enroll (i : ℕ) (fault : Option ReadFault) (headers : Headers) (authKey : String) (salt : Bytes)
      (unixNow : ℕ)
  | openFile (i : ℕ) (failed : Bool)
  | writeSome (i count : ℕ) (failed : Bool)
  | finish (i : ℕ) (failed : Bool)
  | request (fault : Option ReadFault) (headers : Headers)
  | login (fault : Option ReadFault) (headers : Headers) (authKey : String) (random : Bytes)
  | wait (time : Instant)
  /-- The file is damaged, removed or restored from outside. -/
  | external (file : Option Bytes)
  /-- A crash or a stop, and a new start with the same configuration. -/
  | restart

section Runs
variable (codecs : Codecs)

def setSave (i : ℕ) (save : Option Save) (x : Site) : Site :=
  { x with saves := Function.update x.saves i save }

/-- A request number is used for one request at a time. -/
def beginEnroll (i : ℕ) (fault : Option ReadFault) (headers : Headers) (authKey : String)
    (salt : Bytes) (unixNow : ℕ) (x : Site) : Site :=
  match x.saves i, (enrollRecord codecs fault headers authKey salt unixNow x.server).1 with
  | none, .ok record => setSave i (some ⟨record, .checked⟩) x
  | _, _ => x

def openSave (i : ℕ) (failed : Bool) (x : Site) : Site :=
  match x.saves i with
  | some ⟨record, .checked⟩ =>
    if failed then setSave i none x
    else setSave i (some ⟨record, .opened 0⟩) { x with server := openPrivate x.server }
  | _ => x

def writeSave (i count : ℕ) (failed : Bool) (x : Site) : Site :=
  match x.saves i with
  | some ⟨record, .opened written⟩ =>
    if failed then setSave i none x
    else
      let bytes := codecs.toVecPretty record
      setSave i (some ⟨record, .opened (written + (readAt bytes written count).length)⟩)
        { x with server := writeNext bytes written count x.server }
  | _ => x

/-- `sync_all` once everything is written, and the answer. -/
def finishSave (i : ℕ) (failed : Bool) (x : Site) : Site :=
  match x.saves i with
  | some ⟨record, .opened written⟩ =>
    if failed then setSave i none x
    else if (codecs.toVecPretty record).length ≤ written then
      setSave i none { x with enrolled := record :: x.enrolled }
    else x
  | _ => x

def perform (x : Site) : Step → Site
  | .enroll i fault headers authKey salt unixNow =>
    beginEnroll codecs i fault headers authKey salt unixNow x
  | .openFile i failed => openSave i failed x
  | .writeSome i count failed => writeSave codecs i count failed x
  | .finish i failed => finishSave codecs i failed x
  | .request fault headers => { x with server := (authorize codecs fault headers x.server).2 }
  | .login fault headers authKey random =>
    { x with server := (deviceAuthLogin codecs fault headers authKey random x.server).2 }
  | .wait time => { x with server := { x.server with now := x.server.now + time } }
  | .external file => { x with server := { x.server with recordFile := file } }
  | .restart => { x with
      server := { x.server with sessions := fun _ => none, hits := fun _ => [] }
      saves := fun _ => none }

def run (x : Site) (steps : List Step) : Site := steps.foldl (perform codecs) x

def Idle (x : Site) : Prop := ∀ i, x.saves i = none

/-- An enroll request sees whether the file is there, and none is between its checks and its
end while there is no file; no one else changes the file under a save or a saved record. -/
def Orderly (x : Site) : Step → Prop
  | .enroll _ fault _ _ _ _ =>
    (fault = some .hidden → x.server.recordFile = none) ∧ (x.server.recordFile = none → Idle x)
  | .external file => Idle x ∧ (x.enrolled = [] ∨
      loadRecord codecs none file = loadRecord codecs none x.server.recordFile)
  | _ => True

def Along : Site → List Step → Prop
  | _, [] => True
  | x, step :: steps => Orderly codecs x step ∧ Along (perform codecs x step) steps

/-- Started without a legacy token, before any enroll. -/
structure Started (x : Site) : Prop where
  token : x.server.token = none
  idle : Idle x
  enrolled : x.enrolled = []

/-! ## What a step leaves alone -/

variable {codecs} {x : Site}

theorem leaves_authorize {γ : Type} {f : Server → γ}
    (hf : ∀ s sessions, f { s with sessions := sessions } = f s) (fault : Option ReadFault)
    (headers : Headers) : (authorize codecs fault headers).Leaves f := by
  unfold authorize
  cases bearerRaw headers with
  | none =>
    refine (Action.Leaves.read _).bind fun token => (Action.Leaves.read _).bind fun file => ?_
    split
    · exact Action.Leaves.pure _
    · exact Action.Leaves.fail _
  | some presented =>
    refine Action.Leaves.bind (fun s => hf s _) fun valid => ?_
    split
    · exact Action.Leaves.pure _
    · refine (Action.Leaves.read _).bind fun token => ?_
      split
      · exact Action.Leaves.pure _
      · exact Action.Leaves.fail _

theorem authorize_views (fault : Option ReadFault) (headers : Headers) (s : Server) :
    (authorize codecs fault headers s).2.token = s.token ∧
      (authorize codecs fault headers s).2.recordFile = s.recordFile :=
  Prod.mk.inj (leaves_authorize (f := fun s => (s.token, s.recordFile)) (fun _ _ => rfl)
    fault headers s)

theorem leaves_orStatus {γ ε α : Type} {f : Server → γ} (code : StatusCode) (r : Except ε α) :
    (orStatus code r).Leaves f := by
  cases r with
  | ok a => exact Action.Leaves.pure a
  | error e => exact Action.Leaves.fail code

theorem leaves_findRecord {γ : Type} {f : Server → γ} (fault : Option ReadFault) :
    (findRecord codecs fault).Leaves f := by
  refine (Action.Leaves.read _).bind fun file => (leaves_orStatus _ _).bind fun found => ?_
  cases found with
  | none => exact Action.Leaves.fail _
  | some record => exact Action.Leaves.pure _

theorem leaves_checkAndRecord {γ : Type} {f : Server → γ}
    (hf : ∀ s hits, f { s with hits := hits } = f s) (ip : String) :
    (checkAndRecord ip).Leaves f := by
  intro s
  unfold checkAndRecord
  dsimp only
  split <;> exact hf s _

/-- What a login does once the limiter has let it pass. -/
theorem leaves_checkedLogin {γ : Type} {f : Server → γ}
    (hf : ∀ s sessions, f { s with sessions := sessions } = f s) (fault : Option ReadFault)
    (authKey : String) (random : Bytes) :
    (findRecord codecs fault >>= fun record =>
      orStatus .badRequest (decodeAuthKeyB64 codecs authKey) >>= fun authKey =>
        if codecs.verifyPassword authKey record.verifier then
          issueSession (codecs.b64.encode random) >>= fun _ => pure (codecs.b64.encode random)
        else Action.fail .unauthorized : ServerM String).Leaves f := by
  refine (leaves_findRecord fault).bind fun record => (leaves_orStatus _ _).bind fun key => ?_
  split
  · exact Action.Leaves.bind (m := issueSession _) (fun s => hf s _) fun _ =>
      Action.Leaves.pure _
  · exact Action.Leaves.fail _

theorem deviceAuthLogin_views (fault : Option ReadFault) (headers : Headers) (authKey : String)
    (random : Bytes) (s : Server) :
    (deviceAuthLogin codecs fault headers authKey random s).2.token = s.token ∧
      (deviceAuthLogin codecs fault headers authKey random s).2.recordFile = s.recordFile := by
  have hboth : (deviceAuthLogin codecs fault headers authKey random).Leaves
      fun s => (s.token, s.recordFile) := by
    refine (leaves_checkAndRecord (fun _ _ => rfl) _).bind fun allowed => ?_
    split
    · exact leaves_checkedLogin (fun _ _ => rfl) fault authKey random
    · exact Action.Leaves.fail _
  exact Prod.mk.inj (hboth s)

/-- An enroll request goes on only where it finds no record. -/
theorem loadRecord_of_enrollRecord {fault : Option ReadFault} {headers : Headers}
    {authKey : String} {salt : Bytes} {unixNow : ℕ} {s : Server} {record : DeviceAuthRecord}
    (h : (enrollRecord codecs fault headers authKey salt unixNow s).1 = .ok record) :
    loadRecord codecs fault s.recordFile = .ok none := by
  unfold enrollRecord at h
  change ((orStatus .internalServerError (loadRecord codecs fault s.recordFile) >>= _) s).1 = _ at h
  rcases hload : loadRecord codecs fault s.recordFile with e | found
  · rw [hload] at h
    cases h
  · rw [hload] at h
    cases found with
    | none => rfl
    | some r => cases h

theorem recordFile_of_enrollRecord {fault : Option ReadFault} {headers : Headers}
    {authKey : String} {salt : Bytes} {unixNow : ℕ} {s : Server} {record : DeviceAuthRecord}
    (h : (enrollRecord codecs fault headers authKey salt unixNow s).1 = .ok record)
    (hfault : fault = some .hidden → s.recordFile = none) : s.recordFile = none := by
  have hload := loadRecord_of_enrollRecord h
  cases hfile : s.recordFile with
  | none => rfl
  | some bytes =>
    rw [hfile] at hload hfault
    unfold loadRecord at hload
    cases fault with
    | none =>
      dsimp only at hload
      cases hparse : codecs.fromSlice bytes <;> rw [hparse] at hload <;> cases hload
    | some f =>
      cases f with
      | hidden => exact absurd (hfault rfl) (Option.some_ne_none _)
      | failed message => cases hload

/-! ## The invariant -/

/-- The file of a save in progress holds what it has written so far. -/
def Written (codecs : Codecs) (file : Option Bytes) (record : DeviceAuthRecord) : SavePhase → Prop
  | .checked => True
  | .opened written => ∃ content, file = some content ∧
      Copied (codecs.toVecPretty record) content written

structure Closed (codecs : Codecs) (x : Site) : Prop where
  token : x.server.token = none
  alone : ∀ i j save save', x.saves i = some save → x.saves j = some save' → i = j
  first : ∀ i save, x.saves i = some save → x.enrolled = []
  written : ∀ i save, x.saves i = some save →
    Written codecs x.server.recordFile save.record save.phase
  saved : x.enrolled ≠ [] → ∃ record, x.enrolled = [record] ∧
    loadRecord codecs none x.server.recordFile = .ok (some record)

theorem Started.closed (h : Started x) : Closed codecs x where
  token := h.token
  alone i j save save' hi := by
    rw [h.idle i] at hi
    cases hi
  first i save hi := by
    rw [h.idle i] at hi
    cases hi
  written i save hi := by
    rw [h.idle i] at hi
    cases hi
  saved hne := absurd h.enrolled hne

/-- The server may change as long as its configuration and the file do not. -/
theorem Closed.of_views (h : Closed codecs x) {s : Server} (htoken : s.token = x.server.token)
    (hfile : s.recordFile = x.server.recordFile) : Closed codecs { x with server := s } where
  token := htoken.trans h.token
  alone := h.alone
  first := h.first
  written i save hi := by
    change Written codecs s.recordFile _ _
    rw [hfile]
    exact h.written i save hi
  saved hne := by
    change ∃ record, _ ∧ loadRecord codecs none s.recordFile = _
    rw [hfile]
    exact h.saved hne

theorem setSave_none {i j : ℕ} {save : Save} (h : (setSave i none x).saves j = some save) :
    j ≠ i ∧ x.saves j = some save := by
  unfold setSave at h
  dsimp only at h
  by_cases hj : j = i
  · subst hj
    rw [Function.update_self] at h
    cases h
  · rw [Function.update_of_ne hj] at h
    exact ⟨hj, h⟩

theorem setSave_some {i j : ℕ} {save new : Save}
    (h : (setSave i (some new) x).saves j = some save) :
    (j = i ∧ save = new) ∨ (j ≠ i ∧ x.saves j = some save) := by
  unfold setSave at h
  dsimp only at h
  by_cases hj : j = i
  · subst hj
    rw [Function.update_self] at h
    cases h
    exact Or.inl ⟨rfl, rfl⟩
  · rw [Function.update_of_ne hj] at h
    exact Or.inr ⟨hj, h⟩

/-- An enroll request that ends without success leaves its part of the file behind. -/
theorem Closed.drop (h : Closed codecs x) (i : ℕ) : Closed codecs (setSave i none x) where
  token := h.token
  alone j k save save' hj hk := h.alone j k save save' (setSave_none hj).2 (setSave_none hk).2
  first j save hj := h.first j save (setSave_none hj).2
  written j save hj := h.written j save (setSave_none hj).2
  saved := h.saved

/-- The one save in progress moves on and no other looks at the file. -/
theorem Closed.advance (h : Closed codecs x) {i : ℕ} {save : Save} (hi : x.saves i = some save)
    {phase : SavePhase} {s : Server} (htoken : s.token = x.server.token)
    (hwritten : Written codecs s.recordFile save.record phase) :
    Closed codecs (setSave i (some ⟨save.record, phase⟩) { x with server := s }) := by
  have honly : ∀ j other, (setSave i (some ⟨save.record, phase⟩) { x with server := s }).saves j =
      some other → j = i ∧ other = ⟨save.record, phase⟩ := by
    intro j other hj
    obtain hj | ⟨hne, hj⟩ := setSave_some hj
    · exact hj
    · exact absurd (h.alone j i other save hj hi) hne
  constructor
  case token => exact htoken.trans h.token
  case alone =>
    intro j k other other' hj hk
    rw [(honly j other hj).1, (honly k other' hk).1]
  case first =>
    intro j other _
    exact h.first i save hi
  case written =>
    intro j other hj
    obtain ⟨-, rfl⟩ := honly j other hj
    exact hwritten
  case saved =>
    intro hne
    exact absurd (h.first i save hi) hne

theorem Closed.beginEnroll (h : Closed codecs x) {i : ℕ} {fault : Option ReadFault}
    {headers : Headers} {authKey : String} {salt : Bytes} {unixNow : ℕ}
    (ho : Orderly codecs x (.enroll i fault headers authKey salt unixNow)) :
    Closed codecs (beginEnroll codecs i fault headers authKey salt unixNow x) := by
  unfold ServerAuthorization.beginEnroll
  cases hi : x.saves i with
  | some save => exact h
  | none =>
    rcases hr : (enrollRecord codecs fault headers authKey salt unixNow x.server).1 with e | record
    · exact h
    · have hfile := recordFile_of_enrollRecord hr ho.1
      have hidle := ho.2 hfile
      have hnone : x.enrolled = [] := by
        by_contra hne
        obtain ⟨record', -, hload⟩ := h.saved hne
        rw [hfile] at hload
        cases hload
      have honly : ∀ j save, (setSave i (some ⟨record, .checked⟩) x).saves j = some save →
          j = i ∧ save = ⟨record, .checked⟩ := by
        intro j save hj
        obtain hj | ⟨-, hj⟩ := setSave_some hj
        · exact hj
        · rw [hidle j] at hj
          cases hj
      constructor
      case token => exact h.token
      case alone =>
        intro j k save save' hj hk
        rw [(honly j save hj).1, (honly k save' hk).1]
      case first => exact fun _ _ _ => hnone
      case written =>
        intro j save hj
        obtain ⟨-, rfl⟩ := honly j save hj
        trivial
      case saved => exact fun hne => absurd hnone hne

theorem Closed.openSave (h : Closed codecs x) (i : ℕ) (failed : Bool) :
    Closed codecs (openSave i failed x) := by
  unfold ServerAuthorization.openSave
  rcases hi : x.saves i with _ | ⟨record, phase⟩
  · exact h
  · cases phase with
    | opened written => exact h
    | checked =>
      cases failed with
      | true => exact h.drop i
      | false => exact h.advance hi rfl ⟨[], rfl, Copied.start _⟩

theorem Closed.writeSave (h : Closed codecs x) (i count : ℕ) (failed : Bool) :
    Closed codecs (writeSave codecs i count failed x) := by
  unfold ServerAuthorization.writeSave
  rcases hi : x.saves i with _ | ⟨record, phase⟩
  · exact h
  · cases phase with
    | checked => exact h
    | opened written =>
      cases failed with
      | true => exact h.drop i
      | false =>
        obtain ⟨content, hfile, hcopied⟩ := h.written i _ hi
        refine h.advance hi rfl ⟨_, ?_, hcopied.writeAt 0 count⟩
        change x.server.recordFile.map _ = _
        rw [hfile]
        rfl

theorem Closed.finishSave (h : Closed codecs x) (i : ℕ) (failed : Bool) :
    Closed codecs (finishSave codecs i failed x) := by
  unfold ServerAuthorization.finishSave
  rcases hi : x.saves i with _ | ⟨record, phase⟩
  · exact h
  · cases phase with
    | checked => exact h
    | opened written =>
      cases failed with
      | true => exact h.drop i
      | false =>
        change Closed codecs (if (codecs.toVecPretty record).length ≤ written then
          setSave i none { x with enrolled := record :: x.enrolled } else x)
        by_cases hall : (codecs.toVecPretty record).length ≤ written
        · rw [if_pos hall]
          obtain ⟨content, hfile, hcopied⟩ := h.written i _ hi
          have hnone : ∀ j save, (setSave i none
              { x with enrolled := record :: x.enrolled }).saves j ≠ some save := by
            intro j save hj
            obtain ⟨hne, hj⟩ := setSave_none hj
            exact hne (h.alone j i save _ hj hi)
          constructor
          case token => exact h.token
          case alone => exact fun j k save save' hj => absurd hj (hnone j save)
          case first => exact fun j save hj => absurd hj (hnone j save)
          case written => exact fun j save hj => absurd hj (hnone j save)
          case saved =>
            intro _
            refine ⟨record, ?_, ?_⟩
            · change record :: x.enrolled = [record]
              rw [h.first i _ hi]
            · change loadRecord codecs none x.server.recordFile = _
              rw [hfile, hcopied.eq_source hall]
              exact loadRecord_saved codecs record
        · rw [if_neg hall]
          exact h

theorem Closed.perform (h : Closed codecs x) {step : Step} (ho : Orderly codecs x step) :
    Closed codecs (perform codecs x step) := by
  cases step with
  | enroll i fault headers authKey salt unixNow => exact h.beginEnroll ho
  | openFile i failed => exact h.openSave i failed
  | writeSome i count failed => exact h.writeSave i count failed
  | finish i failed => exact h.finishSave i failed
  | request fault headers =>
    obtain ⟨htoken, hfile⟩ := @authorize_views codecs fault headers x.server
    exact h.of_views htoken hfile
  | login fault headers authKey random =>
    obtain ⟨htoken, hfile⟩ :=
      @deviceAuthLogin_views codecs fault headers authKey random x.server
    exact h.of_views htoken hfile
  | wait time => exact h.of_views rfl rfl
  | external file =>
    obtain ⟨hidle, hsame⟩ := ho
    have hnone : ∀ i save, x.saves i ≠ some save := by
      intro i save hi
      rw [hidle i] at hi
      cases hi
    constructor
    case token => exact h.token
    case alone => exact fun i j save save' hi => absurd hi (hnone i save)
    case first => exact fun i save hi => absurd hi (hnone i save)
    case written => exact fun i save hi => absurd hi (hnone i save)
    case saved =>
      intro hne
      obtain hnil | hload := hsame
      · exact absurd hnil hne
      · change ∃ record, _ ∧ loadRecord codecs none file = _
        rw [hload]
        exact h.saved hne
  | restart =>
    constructor
    case token => exact h.token
    case alone => exact fun i j save save' hi => by cases hi
    case first => exact fun i save hi => by cases hi
    case written => exact fun i save hi => by cases hi
    case saved => exact h.saved

theorem Closed.run (h : Closed codecs x) {steps : List Step} (hsteps : Along codecs x steps) :
    Closed codecs (run codecs x steps) := by
  induction steps generalizing x with
  | nil => exact h
  | cons step steps ih => exact ih (h.perform hsteps.1) hsteps.2

theorem enrolled_perform {step : Step} {record : DeviceAuthRecord} (h : record ∈ x.enrolled) :
    record ∈ (perform codecs x step).enrolled := by
  cases step with
  | enroll i fault headers authKey salt unixNow =>
    change record ∈ (beginEnroll codecs i fault headers authKey salt unixNow x).enrolled
    unfold beginEnroll
    split <;> exact h
  | openFile i failed =>
    change record ∈ (openSave i failed x).enrolled
    unfold openSave
    split
    · cases failed <;> exact h
    · exact h
  | writeSome i count failed =>
    change record ∈ (writeSave codecs i count failed x).enrolled
    unfold writeSave
    split
    · cases failed <;> exact h
    · exact h
  | finish i failed =>
    change record ∈ (finishSave codecs i failed x).enrolled
    unfold finishSave
    split
    · split_ifs
      · exact h
      · exact List.mem_cons_of_mem _ h
      · exact h
    · exact h
  | request fault headers => exact h
  | login fault headers authKey random => exact h
  | wait time => exact h
  | external file => exact h
  | restart => exact h

theorem enrolled_run {steps : List Step} {record : DeviceAuthRecord} (h : record ∈ x.enrolled) :
    record ∈ (run codecs x steps).enrolled := by
  induction steps generalizing x with
  | nil => exact h
  | cons step steps ih => exact ih (enrolled_perform h)

theorem along_append {steps later : List Step} :
    Along codecs x (steps ++ later) ↔
      Along codecs x steps ∧ Along codecs (run codecs x steps) later := by
  induction steps generalizing x with
  | nil => exact ⟨fun h => ⟨trivial, h⟩, fun h => h.2⟩
  | cons step steps ih =>
    constructor
    · intro h
      obtain ⟨hsteps, hlater⟩ := ih.1 h.2
      exact ⟨⟨h.1, hsteps⟩, hlater⟩
    · intro h
      exact ⟨h.1.1, ih.2 ⟨h.1.2, h.2⟩⟩

theorem run_append (steps later : List Step) :
    run codecs x (steps ++ later) = run codecs (run codecs x steps) later :=
  List.foldl_append

/-- Without a legacy token a session that is not valid is refused. -/
theorem authorize_session {fault : Option ReadFault} {headers : Headers} {s : Server}
    {presented : String} (htoken : s.token = none) (hb : bearerRaw headers = some presented)
    (hinvalid : ¬ validSession s presented) :
    (authorize codecs fault headers s).1 = .error .unauthorized := by
  have hret : (retained s.now s.sessions presented).isSome = false := by
    cases hs : retained s.now s.sessions presented with
    | none => rfl
    | some expires =>
      have hfound := Option.filter_eq_some_iff.1 hs
      exact absurd ⟨expires, hfound.1, of_decide_eq_true hfound.2⟩ hinvalid
  unfold authorize
  rw [hb]
  change ((sessionValid presented >>= _) s).1 = _
  have hrun : sessionValid presented s =
      (.ok false, { s with sessions := retained s.now s.sessions }) := by
    unfold sessionValid
    rw [hret]
  rw [bind_ok hrun]
  have hlegacy : legacyTokenOk codecs s.token headers = false := by
    rw [htoken]
    rfl
  change ((if legacyTokenOk codecs s.token headers then pure () else Action.fail .unauthorized :
    ServerM Unit) _).1 = _
  rw [hlegacy]
  rfl

/-- A request without a bearer is refused while the record can be read. -/
theorem authorize_anonymous {headers : Headers} {s : Server} {record : DeviceAuthRecord}
    (hload : loadRecord codecs none s.recordFile = .ok (some record))
    (hb : bearerRaw headers = none) :
    (authorize codecs none headers s).1 = .error .unauthorized := by
  unfold authorize
  rw [hb]
  change ((if s.token.isNone && !hasDevice (loadRecord codecs none s.recordFile) then pure ()
    else Action.fail .unauthorized : ServerM Unit) s).1 = _
  rw [hload]
  change ((if (s.token.isNone && false) = true then pure () else Action.fail .unauthorized :
    ServerM Unit) s).1 = _
  rw [Bool.and_false]
  rfl

/-- After a successful enroll the gate stays closed and the verifier stays. -/
theorem authorization_monotone (hx : Started x) {steps later : List Step}
    (h : Along codecs x (steps ++ later)) {record : DeviceAuthRecord}
    (hrecord : record ∈ (run codecs x steps).enrolled) :
    loadRecord codecs none (run codecs x (steps ++ later)).server.recordFile = .ok (some record) ∧
    ∀ fault headers, (bearerRaw headers = none → fault = none) →
      (∀ presented, bearerRaw headers = some presented →
        ¬ validSession (run codecs x (steps ++ later)).server presented) →
      (authorize codecs fault headers (run codecs x (steps ++ later)).server).1 =
        .error .unauthorized := by
  have hstart : Closed codecs x := hx.closed
  have hclosed := hstart.run h
  have hmem : record ∈ (run codecs x (steps ++ later)).enrolled := by
    rw [run_append]
    exact enrolled_run hrecord
  obtain ⟨first, honly, hload⟩ := hclosed.saved (List.ne_nil_of_mem hmem)
  rw [honly] at hmem
  obtain rfl := List.mem_singleton.1 hmem
  refine ⟨hload, ?_⟩
  intro fault headers hfault hinvalid
  cases hb : bearerRaw headers with
  | some presented => exact authorize_session hclosed.token hb (hinvalid presented hb)
  | none =>
    rw [hfault hb]
    exact authorize_anonymous hload hb

end Runs

/-! ## Two enroll requests at once -/

section Samples

def sampleSite : Site where
  server := ⟨none, true, none, fun _ => none, fun _ => [], 0⟩
  saves _ := none
  enrolled := []

theorem sampleSite_started : Started sampleSite := ⟨rfl, fun _ => rfl, rfl⟩

def anonymous : Headers := ⟨none, none⟩

/-- An enroll request by device 1 or 2. -/
def sampleEnroll (i : ℕ) : Step :=
  .enroll i none anonymous (Base64Strings.standard.encode (sampleAuthKey (UInt8.ofNat i))) sampleSalt 0

/-- Device 1's request runs to its end. -/
def sampleSave (i : ℕ) : List Step := [.openFile i false, .writeSome i 1000 false, .finish i false]

/-- Both requests find no record; after the first has succeeded the second opens the file. -/
def sampleRace : List Step := [sampleEnroll 1, sampleEnroll 2] ++ sampleSave 1

theorem authorization_monotone_fails : Started sampleSite ∧
    (run sampleCodecs sampleSite sampleRace).enrolled = [sampleRecord 1] ∧
    (authorize sampleCodecs none anonymous
      (run sampleCodecs sampleSite (sampleRace ++ [.openFile 2 false])).server).1 = .ok () ∧
    loadRecord sampleCodecs none
      (run sampleCodecs sampleSite (sampleRace ++ sampleSave 2)).server.recordFile =
        .ok (some (sampleRecord 2)) := by
  refine ⟨sampleSite_started, ?_, ?_, ?_⟩
  · decide +kernel
  · decide +kernel
  · decide +kernel

/-- The second request comes when the first has ended, then the server restarts. -/
def sampleCalm : List Step := sampleEnroll 1 :: sampleSave 1

theorem sampleCalm_along : Along sampleCodecs sampleSite (sampleCalm ++ [sampleEnroll 2, .restart]) := by
  refine ⟨⟨fun h => (by cases h), fun _ _ => rfl⟩, trivial, trivial, trivial, ?_, trivial, trivial⟩
  refine ⟨fun h => (by cases h), fun hnone => ?_⟩
  exact absurd (congrArg Option.isSome hnone) (by decide +kernel)

theorem authorization_monotone_sample :
    loadRecord sampleCodecs none
      (run sampleCodecs sampleSite (sampleCalm ++ [sampleEnroll 2, .restart])).server.recordFile =
        .ok (some (sampleRecord 1)) ∧
    (authorize sampleCodecs none anonymous
      (run sampleCodecs sampleSite (sampleCalm ++ [sampleEnroll 2, .restart])).server).1 =
        .error .unauthorized := by
  have hrecord : sampleRecord 1 ∈ (run sampleCodecs sampleSite sampleCalm).enrolled := by
    decide +kernel
  obtain ⟨hload, hclosed⟩ :=
    authorization_monotone sampleSite_started sampleCalm_along hrecord
  refine ⟨hload, hclosed none anonymous (fun _ => rfl) ?_⟩
  intro presented hpresented
  cases hpresented

end Samples
end Tethra.ServerAuthorization
