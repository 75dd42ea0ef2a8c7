import Tethra.StatefulActions
import Tethra.UnixPaths
import Tethra.VaultTypes

set_option autoImplicit false

/-!
# Downloading a folder from a server

The server answers every listing as it likes. The walk plans all paths before anything is
created; it may be cut off after any number of levels, as a walk that never ends is.
-/
namespace Tethra.FolderDownloads
open StatefulActions UnixPaths VaultTypes
open StatefulActions.Action (fail read update attempt)

inductive RemoteFileType where
  | file
  | dir
  | symlink
  | other
  deriving DecidableEq

structure RemoteDirEntry where
  name : PathBuf
  fileType : RemoteFileType
  size : Option UInt64
  modifiedUnix : Option UInt32

structure TreeTransferProgress where
  bytesTransferred : UInt64
  totalBytes : Option UInt64
  filesDone : UInt64
  filesTotal : UInt64
  currentFile : Option String

structure TreeTransferResult where
  bytesTransferred : UInt64
  filesDone : UInt64
  filesTotal : UInt64
  failures : List String
  notes : List String
  cancelled : Bool

structure PlanEntry where
  remotePath : PathBuf
  localPath : PathBuf
  isDir : Bool

/-- What is handed to the local file system. -/
inductive Touch where
  | directory (path : List Component)
  | parent (path : List Component)
  | file (path : List Component)
  deriving DecidableEq

/-- The server and the file system, by number of the call, and what was planned and touched. -/
structure Download where
  calls : ℕ
  listAt : ℕ → Except Error (List RemoteDirEntry)
  statAt : ℕ → Except Error (Option UInt64)
  createDirAt : ℕ → Except Error Unit
  openAt : ℕ → Except Error Unit
  createAt : ℕ → Except Error Unit
  copyAt : ℕ → Except Error UInt64
  cancelledAt : ℕ → Bool
  progressAt : ℕ → TreeTransferProgress → Except Error Unit
  plan : List PlanEntry
  notes : List String
  touched : List Touch

abbrev DownloadM (α : Type) := Action Download Error α

/-- The next answer of one kind. -/
def draw {α : Type} (supply : Download → ℕ → α) : DownloadM α := fun s =>
  (.ok (supply s s.calls), { s with calls := s.calls + 1 })

def drawResult {α : Type} (supply : Download → ℕ → Except Error α) : DownloadM α := fun s =>
  (supply s s.calls, { s with calls := s.calls + 1 })

def pushPlan (entry : PlanEntry) : DownloadM Unit := update fun s =>
  { s with plan := s.plan ++ [entry] }

def pushNote (note : String) : DownloadM Unit := update fun s => { s with notes := s.notes ++ [note] }

def touch (target : Touch) : DownloadM Unit := update fun s =>
  { s with touched := s.touched ++ [target] }

def list (_ : PathBuf) : DownloadM (List RemoteDirEntry) := drawResult Download.listAt

def display (path : PathBuf) : String := String.ofList path

/-- One listing: directories are walked as they come, symlinks are noted, the rest is planned. -/
def walkEntries (walk : PathBuf → PathBuf → DownloadM Unit) (remoteDir localDir : PathBuf) :
    List RemoteDirEntry → DownloadM Unit
  | [] => pure ()
  | entry :: entries => do
    if entry.name = ['.'] ∨ entry.name = ['.', '.'] then
      walkEntries walk remoteDir localDir entries
    else do
      let remoteChild := join remoteDir entry.name
      let localChild := join localDir entry.name
      match entry.fileType with
      | .dir => walk remoteChild localChild
      | .symlink => pushNote ("skipped symlink " ++ display remoteChild)
      | .file => pushPlan ⟨remoteChild, localChild, false⟩
      | .other => pushPlan ⟨remoteChild, localChild, false⟩
      walkEntries walk remoteDir localDir entries

/-- Cut off below `depth` levels. -/
def walkRemoteTree : ℕ → PathBuf → PathBuf → DownloadM Unit
  | 0, remoteDir, localDir => do
    pushPlan ⟨remoteDir, localDir, true⟩
    fail (.other "the walk has not ended")
  | depth + 1, remoteDir, localDir => do
    pushPlan ⟨remoteDir, localDir, true⟩
    let entries ← list remoteDir
    walkEntries (walkRemoteTree depth) remoteDir localDir entries

def createDirAll (target : Touch) : DownloadM Unit := do
  touch target
  drawResult Download.createDirAt

/-- The directory above a file; a failure is ignored. -/
def createParent (localPath : PathBuf) : DownloadM Unit :=
  match parent (components localPath) with
  | some up => do
    let _ ← attempt (createDirAll (.parent up))
    pure ()
  | none => pure ()

/-- `get_with` from the start: the remote file is opened, the local one created, then copied. -/
def getWith (localPath : PathBuf) : DownloadM UInt64 := do
  drawResult Download.openAt
  touch (.file (components localPath))
  drawResult Download.createAt
  drawResult Download.copyAt

def onProgress (progress : TreeTransferProgress) : DownloadM Unit := fun s =>
  (s.progressAt s.calls progress, { s with calls := s.calls + 1 })

/-- `file_name` as text, or nothing. -/
def fileName (path : PathBuf) : String :=
  match (components path).getLast? with
  | some (.normal name) => String.ofList name
  | _ => ""

def addSizes (total : UInt64) : List PlanEntry → DownloadM UInt64
  | [] => pure total
  | entry :: plan =>
    if entry.isDir then addSizes total plan
    else do
      match ← attempt (drawResult Download.statAt) with
      | .ok size => addSizes (total + size.getD 0) plan
      | .error _ => addSizes total plan

/-- Text of an error in a failure note. -/
def errorText : Error → String
  | .io message => message
  | .sftp message => message
  | .invalidArgument message => message
  | .other message => message
  | _ => "error"

def transferPlan (totalBytes : UInt64) : TreeTransferResult → UInt64 → List PlanEntry →
    DownloadM TreeTransferResult
  | result, _, [] => pure result
  | result, bytesDone, entry :: plan => do
    if ← draw Download.cancelledAt then pure { result with cancelled := true }
    else do
      let current := fileName entry.remotePath
      onProgress ⟨bytesDone, some totalBytes, result.filesDone, result.filesTotal, some current⟩
      if entry.isDir then
        match ← attempt (createDirAll (.directory (components entry.localPath))) with
        | .ok _ => transferPlan totalBytes result bytesDone plan
        | .error e => transferPlan totalBytes { result with failures :=
            result.failures ++ [display entry.localPath ++ ": " ++ errorText e] } bytesDone plan
      else do
        createParent entry.localPath
        match ← attempt (getWith entry.localPath) with
        | .error .transferCancelled => pure { result with cancelled := true }
        | .error e => transferPlan totalBytes { result with failures :=
            result.failures ++ [display entry.remotePath ++ ": " ++ errorText e] } bytesDone plan
        | .ok fileBytes => do
          let bytesDone := bytesDone + fileBytes
          let result := { result with
            filesDone := result.filesDone + 1, bytesTransferred := bytesDone }
          onProgress ⟨bytesDone, some totalBytes, result.filesDone, result.filesTotal, some current⟩
          transferPlan totalBytes result bytesDone plan

/-- Paths are equal when their components are. -/
def pathsWouldNest (remote localPath : PathBuf) : Bool :=
  decide (components remote = components localPath)

def NEST_MESSAGE : String :=
  "refusing to download a folder into a path that would overwrite itself"

def getTree (depth : ℕ) (remoteRoot localRoot : PathBuf) : DownloadM TreeTransferResult := do
  if pathsWouldNest remoteRoot localRoot then fail (.invalidArgument NEST_MESSAGE)
  else do
    walkRemoteTree depth remoteRoot localRoot
    let plan ← read Download.plan
    let notes ← read Download.notes
    let totalBytes ← addSizes 0 plan
    createDirAll (.directory (components localRoot))
    let filesTotal := UInt64.ofNat (plan.filter fun entry => !entry.isDir).length
    transferPlan totalBytes ⟨0, 0, filesTotal, [], notes, false⟩ 0 plan

/-! ## What the walk plans -/

/-- Every planned path is inside `root`. -/
def Planned (root : PathBuf) (s : Download) : Prop := ∀ entry ∈ s.plan, Inside root entry.localPath

abbrev Listings := ℕ → Except Error (List RemoteDirEntry)

/-- The number of the next call after a listing was walked, unless the walk failed. -/
def entriesCalls (walk : ℕ → Option ℕ) : List RemoteDirEntry → ℕ → Option ℕ
  | [], n => some n
  | entry :: entries, n =>
    if entry.name = ['.'] ∨ entry.name = ['.', '.'] then entriesCalls walk entries n
    else match entry.fileType with
      | .dir => (walk n).bind fun m => entriesCalls walk entries m
      | _ => entriesCalls walk entries n

def walkCalls (listAt : Listings) : ℕ → ℕ → Option ℕ
  | 0, _ => none
  | depth + 1, n =>
    match listAt n with
    | .ok entries => entriesCalls (walkCalls listAt depth) entries (n + 1)
    | .error _ => none

/-- The names of a listing stay inside, as far as the walk comes. -/
def EntriesStay (root : PathBuf) (walk : ℕ → Option ℕ) (stay : ℕ → Prop) :
    List RemoteDirEntry → ℕ → Prop
  | [], _ => True
  | entry :: entries, n =>
    if entry.name = ['.'] ∨ entry.name = ['.', '.'] then EntriesStay root walk stay entries n
    else match entry.fileType with
      | .dir => Stays root entry.name ∧ stay n ∧
          ∀ m, walk n = some m → EntriesStay root walk stay entries m
      | .symlink => EntriesStay root walk stay entries n
      | .file => Stays root entry.name ∧ EntriesStay root walk stay entries n
      | .other => Stays root entry.name ∧ EntriesStay root walk stay entries n

/-- Every name the server answers with on the way stays inside. -/
def NamesStay (listAt : Listings) (root : PathBuf) : ℕ → ℕ → Prop
  | 0, _ => True
  | depth + 1, n => ∀ entries, listAt n = .ok entries →
      EntriesStay root (walkCalls listAt depth) (NamesStay listAt root depth) entries (n + 1)

/-- What a walk leaves alone; the plan only grows. -/
structure Walked (s t : Download) : Prop where
  listAt : t.listAt = s.listAt
  touched : t.touched = s.touched
  plan : s.plan <+: t.plan

theorem Walked.refl (s : Download) : Walked s s := ⟨rfl, rfl, List.prefix_refl _⟩

theorem Walked.trans {s t u : Download} (hst : Walked s t) (htu : Walked t u) : Walked s u :=
  ⟨htu.listAt.trans hst.listAt, htu.touched.trans hst.touched, hst.plan.trans htu.plan⟩

theorem Walked.planned {root : PathBuf} {s t : Download} (h : Walked s t) (ht : Planned root t) :
    Planned root s := fun entry hentry => ht entry (h.plan.subset hentry)

/-- What is known of a walk before its depth is. -/
structure WalkSpec (root : PathBuf) (calls : Listings → ℕ → Option ℕ)
    (stay : Listings → ℕ → Prop) (walk : PathBuf → PathBuf → DownloadM Unit) : Prop where
  walked : ∀ remoteDir localDir, (walk remoteDir localDir).Within Walked
  ended : ∀ remoteDir localDir s u, (walk remoteDir localDir s).1 = .ok u →
    calls s.listAt s.calls = some (walk remoteDir localDir s).2.calls
  failed : ∀ remoteDir localDir s e, (walk remoteDir localDir s).1 = .error e →
    calls s.listAt s.calls = none
  planned : ∀ remoteDir localDir s, Planned root (walk remoteDir localDir s).2 ↔
    Planned root s ∧ Inside root localDir ∧ stay s.listAt s.calls

theorem planned_push (root : PathBuf) (s : Download) (entry : PlanEntry) :
    Planned root { s with plan := s.plan ++ [entry] } ↔
      Planned root s ∧ Inside root entry.localPath := by
  unfold Planned
  simp [or_imp, forall_and]

section Entries
variable {root : PathBuf} {calls : Listings → ℕ → Option ℕ} {stay : Listings → ℕ → Prop}
  {walk : PathBuf → PathBuf → DownloadM Unit}

/-- The loop over one listing, after `remoteDir` and `localDir`. -/
theorem walkEntries_spec (hwalk : WalkSpec root calls stay walk) (remoteDir localDir : PathBuf)
    (entries : List RemoteDirEntry) (s : Download) :
    Walked s (walkEntries walk remoteDir localDir entries s).2 ∧
      (∀ u, (walkEntries walk remoteDir localDir entries s).1 = .ok u →
        entriesCalls (calls s.listAt) entries s.calls =
          some (walkEntries walk remoteDir localDir entries s).2.calls) ∧
      (∀ e, (walkEntries walk remoteDir localDir entries s).1 = .error e →
        entriesCalls (calls s.listAt) entries s.calls = none) ∧
      (Inside root localDir → (Planned root (walkEntries walk remoteDir localDir entries s).2 ↔
        Planned root s ∧
          EntriesStay root (calls s.listAt) (stay s.listAt) entries s.calls)) := by
  induction entries generalizing s with
  | nil =>
    exact ⟨Walked.refl s, fun _ _ => rfl, fun e h => (by cases h),
      fun _ => (and_iff_left trivial).symm⟩
  | cons entry entries ih =>
    by_cases hdot : entry.name = ['.'] ∨ entry.name = ['.', '.']
    · rw [walkEntries, if_pos hdot, entriesCalls, if_pos hdot, EntriesStay, if_pos hdot]
      exact ih s
    · have hchild : Inside root localDir →
          (Inside root (join localDir entry.name) ↔ Stays root entry.name) := inside_join
      rw [walkEntries, if_neg hdot, entriesCalls, if_neg hdot, EntriesStay, if_neg hdot]
      cases htype : entry.fileType with
      | dir =>
        have hwalked := hwalk.walked (join remoteDir entry.name) (join localDir entry.name) s
        have hended := hwalk.ended (join remoteDir entry.name) (join localDir entry.name) s
        have hfailed := hwalk.failed (join remoteDir entry.name) (join localDir entry.name) s
        have hplanned := hwalk.planned (join remoteDir entry.name) (join localDir entry.name) s
        change Walked s ((walk _ _ >>= fun _ => walkEntries walk remoteDir localDir entries) s).2 ∧
          (∀ u, ((walk _ _ >>= fun _ => walkEntries walk remoteDir localDir entries) s).1 = .ok u →
            _ = some ((walk _ _ >>= fun _ => walkEntries walk remoteDir localDir entries) s).2.calls) ∧
          (∀ e, ((walk _ _ >>= fun _ => walkEntries walk remoteDir localDir entries) s).1 = .error e →
            _ = none) ∧
          (_ → (Planned root
            ((walk _ _ >>= fun _ => walkEntries walk remoteDir localDir entries) s).2 ↔ _))
        rw [Action.bind_run]
        rcases hrun : walk (join remoteDir entry.name) (join localDir entry.name) s with ⟨r, t⟩
        rw [hrun] at hwalked hended hfailed hplanned
        cases r with
        | error e =>
          have hnone := hfailed e rfl
          refine ⟨hwalked, fun u h => (by cases h), fun e' h => ?_, fun hdir => ?_⟩
          · change (calls s.listAt s.calls).bind _ = none
            rw [hnone]
            rfl
          · rw [hchild hdir] at hplanned
            rw [hnone]
            refine hplanned.trans ?_
            simp
        | ok u =>
          have hsome := hended u rfl
          have hlist : t.listAt = s.listAt := Walked.listAt hwalked
          obtain ⟨hw, hok, herr, hpl⟩ := ih t
          rw [hlist] at hok herr hpl
          dsimp only at hsome hok herr hpl ⊢
          refine ⟨hwalked.trans hw, fun u' h => ?_, fun e h => ?_, fun hdir => ?_⟩
          · rw [hsome]
            exact hok u' h
          · rw [hsome]
            exact herr e h
          · rw [hchild hdir] at hplanned
            rw [hpl hdir, hplanned, hsome]
            simp only [Option.some.injEq, forall_eq']
            tauto
      | symlink =>
        obtain ⟨hw, hok, herr, hpl⟩ := ih { s with notes := s.notes ++
          ["skipped symlink " ++ display (join remoteDir entry.name)] }
        exact ⟨⟨hw.listAt, hw.touched, hw.plan⟩, hok, herr, hpl⟩
      | file =>
        obtain ⟨hw, hok, herr, hpl⟩ := ih { s with plan := s.plan ++
          [⟨join remoteDir entry.name, join localDir entry.name, false⟩] }
        refine ⟨⟨hw.listAt, hw.touched, (List.prefix_append _ _).trans hw.plan⟩, hok, herr,
          fun hdir => ?_⟩
        rw [← hchild hdir, ← and_assoc]
        exact (hpl hdir).trans (and_congr_left fun _ => planned_push root s _)
      | other =>
        obtain ⟨hw, hok, herr, hpl⟩ := ih { s with plan := s.plan ++
          [⟨join remoteDir entry.name, join localDir entry.name, false⟩] }
        refine ⟨⟨hw.listAt, hw.touched, (List.prefix_append _ _).trans hw.plan⟩, hok, herr,
          fun hdir => ?_⟩
        rw [← hchild hdir, ← and_assoc]
        exact (hpl hdir).trans (and_congr_left fun _ => planned_push root s _)

end Entries

/-- The state after a directory's listing was asked for. -/
def listed (remoteDir localDir : PathBuf) (s : Download) : Download :=
  { s with plan := s.plan ++ [⟨remoteDir, localDir, true⟩], calls := s.calls + 1 }

theorem walked_listed (remoteDir localDir : PathBuf) (s : Download) :
    Walked s (listed remoteDir localDir s) := ⟨rfl, rfl, List.prefix_append _ _⟩

theorem walkRemoteTree_succ (depth : ℕ) (remoteDir localDir : PathBuf) (s : Download) :
    walkRemoteTree (depth + 1) remoteDir localDir s =
      match s.listAt s.calls with
      | .ok entries => walkEntries (walkRemoteTree depth) remoteDir localDir entries
          (listed remoteDir localDir s)
      | .error e => (.error e, listed remoteDir localDir s) := by
  have hpush : pushPlan ⟨remoteDir, localDir, true⟩ s =
      (.ok (), { s with plan := s.plan ++ [⟨remoteDir, localDir, true⟩] }) := rfl
  have hlist : list remoteDir { s with plan := s.plan ++ [⟨remoteDir, localDir, true⟩] } =
      (s.listAt s.calls, listed remoteDir localDir s) := rfl
  rw [walkRemoteTree, Action.bind_ok hpush]
  cases he : s.listAt s.calls with
  | ok entries =>
    rw [he] at hlist
    exact Action.bind_ok hlist
  | error e =>
    rw [he] at hlist
    exact Action.bind_error hlist

theorem walkRemoteTree_spec (root : PathBuf) (depth : ℕ) :
    WalkSpec root (fun listAt => walkCalls listAt depth) (fun listAt => NamesStay listAt root depth)
      (walkRemoteTree depth) := by
  induction depth with
  | zero =>
    refine ⟨fun _ _ _ => ⟨rfl, rfl, List.prefix_append _ _⟩, fun _ _ _ _ h => (by cases h),
      fun _ _ _ _ _ => rfl, fun remoteDir localDir s => ?_⟩
    refine (planned_push root s ⟨remoteDir, localDir, true⟩).trans ?_
    exact and_congr_right fun _ => (and_iff_left trivial).symm
  | succ depth ih =>
    constructor
    case walked =>
      intro remoteDir localDir s
      rw [walkRemoteTree_succ]
      cases s.listAt s.calls with
      | error e => exact walked_listed remoteDir localDir s
      | ok entries =>
        exact (walked_listed remoteDir localDir s).trans (walkEntries_spec ih _ _ entries _).1
    case ended =>
      intro remoteDir localDir s u h
      rw [walkRemoteTree_succ] at h ⊢
      cases he : s.listAt s.calls with
      | error e =>
        rw [he] at h
        cases h
      | ok entries =>
        rw [he] at h
        rw [walkCalls, he]
        exact (walkEntries_spec ih remoteDir localDir entries _).2.1 u h
    case failed =>
      intro remoteDir localDir s e h
      rw [walkRemoteTree_succ] at h
      cases he : s.listAt s.calls with
      | error e' => rw [walkCalls, he]
      | ok entries =>
        rw [he] at h
        rw [walkCalls, he]
        exact (walkEntries_spec ih remoteDir localDir entries _).2.2.1 e h
    case planned =>
      intro remoteDir localDir s
      have hpush : Planned root (listed remoteDir localDir s) ↔
          Planned root s ∧ Inside root localDir := planned_push root s ⟨remoteDir, localDir, true⟩
      rw [walkRemoteTree_succ, ← and_assoc, ← hpush]
      cases he : s.listAt s.calls with
      | error e =>
        refine (and_iff_left ?_).symm
        intro entries hok
        rw [he] at hok
        cases hok
      | ok entries =>
        have hspec := walkEntries_spec ih remoteDir localDir entries (listed remoteDir localDir s)
        have hstay : NamesStay s.listAt root (depth + 1) s.calls ↔
            EntriesStay root (walkCalls s.listAt depth) (NamesStay s.listAt root depth) entries
              (s.calls + 1) := by
          rw [NamesStay, he]
          simp
        rw [hstay]
        by_cases hdir : Inside root localDir
        · exact hspec.2.2.2 hdir
        · refine iff_of_false (fun h => ?_) fun h => hdir (hpush.1 h.1).2
          exact hdir (hpush.1 (hspec.1.planned h)).2

/-! ## What is created and written -/

/-- Inside the root; the parent of a path inside may also be above it, where directories exist
once the root does. -/
def Touch.Within (root : PathBuf) : Touch → Prop
  | .directory path => InsideOf (components root) path
  | .file path => InsideOf (components root) path
  | .parent path => InsideOf (components root) path ∨ path <+: components root

/-- Every local path planned, created or written is the root followed by ordinary components. -/
structure Contained (root : PathBuf) (s : Download) : Prop where
  planned : Planned root s
  touched : ∀ target ∈ s.touched, target.Within root

section Transfers
variable {P : Touch → Prop}

/-- The plan stays and whatever is newly touched satisfies `P`. -/
def Bounded (P : Touch → Prop) (s t : Download) : Prop :=
  t.plan = s.plan ∧ ((∀ target ∈ s.touched, P target) → ∀ target ∈ t.touched, P target)

/-- `P` holds of what a plan entry for this path touches. -/
def Allows (P : Touch → Prop) (path : PathBuf) : Prop :=
  P (.directory (components path)) ∧ P (.file (components path)) ∧
    ∀ up, parent (components path) = some up → P (.parent up)

theorem Bounded.refl (s : Download) : Bounded P s s := ⟨rfl, id⟩

theorem Bounded.trans {s t u : Download} (hst : Bounded P s t) (htu : Bounded P t u) :
    Bounded P s u := ⟨htu.1.trans hst.1, fun h => htu.2 (hst.2 h)⟩

theorem bounded_bind {α β : Type} {m : DownloadM α} {f : α → DownloadM β}
    (hm : m.Within (Bounded P)) (hf : ∀ a, (f a).Within (Bounded P)) :
    (m >>= f).Within (Bounded P) :=
  Action.Within.bind (fun h h' => h.trans h') hm hf

theorem bounded_draw {α : Type} (supply : Download → ℕ → α) :
    (draw supply).Within (Bounded P) := fun _ => ⟨rfl, id⟩

theorem bounded_drawResult {α : Type} (supply : Download → ℕ → Except Error α) :
    (drawResult supply).Within (Bounded P) := fun _ => ⟨rfl, id⟩

theorem bounded_onProgress (progress : TreeTransferProgress) :
    (onProgress progress).Within (Bounded P) := fun _ => ⟨rfl, id⟩

theorem bounded_touch {target : Touch} (h : P target) :
    (touch target).Within (Bounded P) := by
  refine fun s => ⟨rfl, fun hall other hother => ?_⟩
  obtain hother | hother := List.mem_append.1 hother
  · exact hall other hother
  · rw [List.mem_singleton.1 hother]
    exact h

theorem bounded_createDirAll {target : Touch} (h : P target) :
    (createDirAll target).Within (Bounded P) :=
  bounded_bind (bounded_touch h) fun _ => bounded_drawResult _

theorem bounded_createParent {path : PathBuf} (h : Allows P path) :
    (createParent path).Within (Bounded P) := by
  unfold createParent
  cases hup : parent (components path) with
  | none => exact Bounded.refl
  | some up =>
    exact bounded_bind (bounded_createDirAll (h.2.2 up hup)).attempt fun _ => Bounded.refl

theorem bounded_getWith {path : PathBuf} (h : Allows P path) :
    (getWith path).Within (Bounded P) :=
  bounded_bind (bounded_drawResult _) fun _ =>
    bounded_bind (bounded_touch h.2.1) fun _ =>
      bounded_bind (bounded_drawResult _) fun _ => bounded_drawResult _

theorem bounded_addSizes (total : UInt64) (plan : List PlanEntry) :
    (addSizes total plan).Within (Bounded P) := by
  induction plan generalizing total with
  | nil => exact Bounded.refl
  | cons entry plan ih =>
    unfold addSizes
    split
    · exact ih total
    · refine bounded_bind (bounded_drawResult Download.statAt).attempt fun size => ?_
      cases size with
      | ok size => exact ih _
      | error e => exact ih total

theorem bounded_transferPlan (totalBytes : UInt64) (result : TreeTransferResult)
    (bytesDone : UInt64) {plan : List PlanEntry}
    (hplan : ∀ entry ∈ plan, Allows P entry.localPath) :
    (transferPlan totalBytes result bytesDone plan).Within (Bounded P) := by
  induction plan generalizing result bytesDone with
  | nil => exact Bounded.refl
  | cons entry plan ih =>
    have hrest := fun result bytesDone => ih result bytesDone
      fun other hother => hplan other (List.mem_cons_of_mem _ hother)
    have hentry : Allows P entry.localPath := hplan entry List.mem_cons_self
    unfold transferPlan
    refine bounded_bind (bounded_draw _) fun cancelled => ?_
    split
    · exact Bounded.refl
    · refine bounded_bind (bounded_onProgress _) fun _ => ?_
      split
      · refine bounded_bind (bounded_createDirAll hentry.1).attempt fun made => ?_
        cases made with
        | ok _ => exact hrest _ _
        | error e => exact hrest _ _
      · refine bounded_bind (bounded_createParent hentry) fun _ => ?_
        refine bounded_bind (bounded_getWith hentry).attempt fun copied => ?_
        split
        · exact Bounded.refl
        · exact hrest _ _
        · exact bounded_bind (bounded_onProgress _) fun _ => hrest _ _

/-- What `get_tree` does once the walk is over. -/
def transferAll (localRoot : PathBuf) : DownloadM TreeTransferResult := do
  let plan ← read Download.plan
  let notes ← read Download.notes
  let totalBytes ← addSizes 0 plan
  createDirAll (.directory (components localRoot))
  let filesTotal := UInt64.ofNat (plan.filter fun entry => !entry.isDir).length
  transferPlan totalBytes ⟨0, 0, filesTotal, [], notes, false⟩ 0 plan

theorem bounded_transferAll {root : PathBuf} (hroot : P (.directory (components root)))
    {s : Download} (hplan : ∀ entry ∈ s.plan, Allows P entry.localPath) :
    Bounded P s (transferAll root s).2 := by
  rw [transferAll, Action.bind_ok (show read Download.plan s = (.ok s.plan, s) from rfl),
    Action.bind_ok (show read Download.notes s = (.ok s.notes, s) from rfl)]
  refine bounded_bind (bounded_addSizes 0 s.plan) (fun totalBytes => ?_) s
  exact bounded_bind (bounded_createDirAll hroot) fun _ => bounded_transferPlan _ _ _ hplan

theorem allows_within {root path : PathBuf} (h : Inside root path) :
    Allows (Touch.Within root) path := ⟨h, h, fun _ hup => insideOf_parent h hup⟩

/-- A download stays in its target if and only if every name the server answers with does. -/
theorem getTree_contained_iff (depth : ℕ) (remoteRoot localRoot : PathBuf) {s : Download}
    (hplan : s.plan = []) (htouched : s.touched = []) :
    Contained localRoot (getTree depth remoteRoot localRoot s).2 ↔
      pathsWouldNest remoteRoot localRoot = true ∨
        NamesStay s.listAt localRoot depth s.calls := by
  have hstart : Planned localRoot s := fun entry hentry => by
    rw [hplan] at hentry
    cases hentry
  have hempty : ∀ target ∈ s.touched, target.Within localRoot := fun target h => by
    rw [htouched] at h
    cases h
  by_cases hnest : pathsWouldNest remoteRoot localRoot = true
  · refine iff_of_true ?_ (Or.inl hnest)
    rw [getTree, if_pos hnest]
    exact ⟨hstart, hempty⟩
  · rw [getTree, if_neg hnest, or_iff_right hnest]
    have hspec := walkRemoteTree_spec localRoot depth
    have hplanned : Planned localRoot (walkRemoteTree depth remoteRoot localRoot s).2 ↔
        NamesStay s.listAt localRoot depth s.calls := by
      rw [hspec.planned, and_iff_right hstart, and_iff_right (inside_refl localRoot)]
    rw [← hplanned]
    have hwalked := hspec.walked remoteRoot localRoot s
    rcases hrun : walkRemoteTree depth remoteRoot localRoot s with ⟨r, t⟩
    rw [hrun] at hwalked
    have htouch : ∀ target ∈ t.touched, target.Within localRoot := by
      rw [hwalked.touched]
      exact hempty
    cases r with
    | error e =>
      rw [Action.bind_error hrun]
      exact ⟨fun h => h.planned, fun h => ⟨h, htouch⟩⟩
    | ok u =>
      rw [Action.bind_ok hrun]
      change Contained localRoot (transferAll localRoot t).2 ↔ Planned localRoot t
      have hsame : (transferAll localRoot t).2.plan = t.plan :=
        (bounded_transferAll (P := fun _ => True) trivial
          fun _ _ => ⟨trivial, trivial, fun _ _ => trivial⟩).1
      constructor
      · intro h entry hentry
        exact h.planned entry (by rwa [hsame])
      · intro h
        have hbounded : Bounded (Touch.Within localRoot) t (transferAll localRoot t).2 :=
          bounded_transferAll (inside_refl localRoot) fun entry hentry =>
            allows_within (h entry hentry)
        refine ⟨fun entry hentry => h entry ?_, hbounded.2 htouch⟩
        rwa [← hsame]

end Transfers

section Samples

def sampleRoot : PathBuf := "/home/user/dl".toList

/-- A server whose listings are given, in order, then empty; nothing fails. -/
def sampleDownload (listings : List (List RemoteDirEntry)) : Download where
  calls := 0
  listAt n := .ok (listings.getD n [])
  statAt _ := .ok none
  createDirAt _ := .ok ()
  openAt _ := .ok ()
  createAt _ := .ok ()
  copyAt _ := .ok 0
  cancelledAt _ := false
  progressAt _ _ := .ok ()
  plan := []
  notes := []
  touched := []

def climbingEntry : RemoteDirEntry := ⟨"../.bashrc".toList, .file, none, none⟩

/-- One file named with a parent component is written beside the target. -/
theorem getTree_escapes :
    Touch.file [.rootDir, .normal "home".toList, .normal "user".toList, .normal "dl".toList,
        .parentDir, .normal ".bashrc".toList] ∈
      (getTree 1 "/srv".toList sampleRoot (sampleDownload [[climbingEntry]])).2.touched ∧
    ¬ Contained sampleRoot (getTree 1 "/srv".toList sampleRoot (sampleDownload [[climbingEntry]])).2 := by
  refine ⟨by decide +kernel, fun h => ?_⟩
  obtain hnest | hstay := (getTree_contained_iff 1 "/srv".toList sampleRoot rfl rfl).1 h
  · revert hnest
    decide +kernel
  · have hname : Stays sampleRoot climbingEntry.name := (hstay [climbingEntry] rfl).1
    have hparent : Component.parentDir ∈ body climbingEntry.name := by decide +kernel
    have hrelative : isAbsolute climbingEntry.name = false := by decide +kernel
    rw [Stays, hrelative, if_neg (by decide)] at hname
    exact hname hparent

def plainEntries : List (List RemoteDirEntry) :=
  [[⟨"sub".toList, .dir, none, none⟩, ⟨"a.txt".toList, .file, none, none⟩],
    [⟨"b.txt".toList, .file, none, none⟩]]

theorem stays_of_plain {name : PathBuf} (habs : isAbsolute name = false)
    (hparent : Component.parentDir ∉ body name) : Stays sampleRoot name := by
  rw [Stays, habs, if_neg (by decide)]
  exact hparent

theorem getTree_contained_iff_plain :
    Contained sampleRoot (getTree 2 "/srv".toList sampleRoot (sampleDownload plainEntries)).2 := by
  refine (getTree_contained_iff 2 "/srv".toList sampleRoot rfl rfl).2 (Or.inr ?_)
  intro entries hentries
  cases hentries
  refine ⟨stays_of_plain (by decide +kernel) (by decide +kernel), ?_, fun m hm => ?_⟩
  · intro inner hinner
    cases hinner
    exact ⟨stays_of_plain (by decide +kernel) (by decide +kernel), trivial⟩
  · exact ⟨stays_of_plain (by decide +kernel) (by decide +kernel), trivial⟩

end Samples
end Tethra.FolderDownloads
