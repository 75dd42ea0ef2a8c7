import Tethra.FolderDownloads
import Tethra.RustText
import Tethra.TerminalMarkers
import Mathlib.Data.UInt

set_option autoImplicit false

/-!
# Uploading a folder to a server

The server keeps the folders it was asked to make, refuses to make one again with a text of its
choice, and takes every file.
-/
namespace Tethra.FolderUploads
open FolderDownloads (TreeTransferProgress TreeTransferResult)
open RustText (containsText fromUtf8Lossy toAsciiLowercase)
open TerminalMarkers (fromUtf8)
open VaultTypes (Error)

/-- Paths and names as the operating system has them. -/
abbrev OsPath := List UInt8

/-- `Path::join` on Unix. -/
def join (dir path : OsPath) : OsPath :=
  if path.head? = some 0x2f then path
  else if dir = [] ∨ dir.getLast? = some 0x2f then dir ++ path
  else dir ++ 0x2f :: path

def display (path : OsPath) : String := fromUtf8Lossy path

/-- `file_name` as text, or nothing. -/
def fileName (path : OsPath) : String :=
  match ((path.splitOn 0x2f).filter fun name => name ≠ [] ∧ name ≠ [0x2e]).getLast? with
  | none => ""
  | some name => if name = [0x2e, 0x2e] then "" else (fromUtf8 name).getD ""

/-- What reading a directory gives, one after the other. A directory that cannot be listed is
broken from the start. -/
inductive LocalEntry where
  | broken (error : String)
  | unreadable (name : OsPath) (error : String)
  | symlink (name : OsPath)
  | directory (name : OsPath) (entries : List LocalEntry)
  | file (name : OsPath)
  | special (name : OsPath)

structure PlanEntry where
  localPath : OsPath
  remotePath : OsPath
  isDir : Bool
  deriving DecidableEq

/-- The plan and the notes. -/
abbrev Walked := List PlanEntry × List String

/-- Text of an error. -/
def errorText : Error → String
  | .io message => "I/O error: " ++ message
  | .sftp message => "SFTP error: " ++ message
  | .invalidArgument message => "invalid argument: " ++ message
  | .transferCancelled => "transfer cancelled"
  | _ => "error"

/-- The lossy text of a name is a dot or two only for these names. -/
def skipDots (name : OsPath) (walked : Except Error Walked) : Except Error Walked :=
  if name = [0x2e] ∨ name = [0x2e, 0x2e] then .ok ([], []) else walked

mutual

def walkEntry (localDir remoteDir : OsPath) : LocalEntry → Except Error Walked
  | .broken error => .error (.io error)
  | .unreadable name error =>
    skipDots name (.ok ([], ["skipped " ++ display (join localDir name) ++ ": " ++ error]))
  | .symlink name =>
    skipDots name (.ok ([], ["skipped symlink " ++ display (join localDir name)]))
  | .directory name entries =>
    skipDots name <|
      match walkEntries (join localDir name) (join remoteDir name) entries with
      | .error error => .error error
      | .ok (plan, notes) => .ok (⟨join localDir name, join remoteDir name, true⟩ :: plan, notes)
  | .file name => skipDots name (.ok ([⟨join localDir name, join remoteDir name, false⟩], []))
  | .special name =>
    skipDots name (.ok ([], ["skipped special file " ++ display (join localDir name)]))

def walkEntries (localDir remoteDir : OsPath) : List LocalEntry → Except Error Walked
  | [] => .ok ([], [])
  | entry :: entries =>
    match walkEntry localDir remoteDir entry with
    | .error error => .error error
    | .ok (plan, notes) =>
      match walkEntries localDir remoteDir entries with
      | .error error => .error error
      | .ok (plan', notes') => .ok (plan ++ plan', notes ++ notes')

end

def walkLocalTree (localDir remoteDir : OsPath) (entries : List LocalEntry) :
    Except Error Walked :=
  match walkEntries localDir remoteDir entries with
  | .error error => .error error
  | .ok (plan, notes) => .ok (⟨localDir, remoteDir, true⟩ :: plan, notes)

/-- What the upload meets. `place` is what a path names on the server, `refusal n` the text the
`n`-th request for a folder is refused with, if the folder is there. -/
structure Session (Place : Type) where
  place : String → Place
  there : List Place
  refusal : ℕ → String → String
  localLength : OsPath → Option UInt64
  reads : OsPath → List UInt64
  cancelledAt : ℕ → Bool

/-- The folders on the server, how often a folder was asked for, how often the control was looked
at, and what was reported. -/
structure World (Place : Type) where
  made : List Place
  requests : ℕ
  checks : ℕ
  reported : List TreeTransferProgress

def pathToStr (path : OsPath) : Except Error String :=
  match fromUtf8 path with
  | some text => .ok text
  | none => .error (.invalidArgument "path is not valid UTF-8")

/-- Beyond ASCII no character has letters of `exist` for its lower case, but for an `i` that a dot
follows. -/
def mentionsExist (message : String) : Bool := containsText (toAsciiLowercase message) "exist"

section Upload
variable {Place : Type}

def World.checked (w : World Place) : World Place := { w with checks := w.checks + 1 }

def World.report (w : World Place) (progress : TreeTransferProgress) : World Place :=
  { w with reported := w.reported ++ [progress] }

def Session.start (s : Session Place) : World Place := ⟨s.there, 0, 0, []⟩

/-- The rounds of `put_with`: one for each read, and one that reads nothing. -/
def copy (s : Session Place) (progress : UInt64 → TreeTransferProgress) :
    List UInt64 → UInt64 → World Place → Except Error UInt64 × World Place
  | [], transferred, w =>
    if s.cancelledAt w.checks then (.error .transferCancelled, w.checked)
    else (.ok transferred, w.checked)
  | n :: reads, transferred, w =>
    if s.cancelledAt w.checks then (.error .transferCancelled, w.checked)
    else copy s progress reads (transferred + n) (w.checked.report (progress (transferred + n)))

def putWith (s : Session Place) (entry : PlanEntry) (progress : UInt64 → TreeTransferProgress)
    (w : World Place) : Except Error UInt64 × World Place :=
  match pathToStr entry.remotePath with
  | .error error => (.error error, w)
  | .ok _ => copy s progress (s.reads entry.localPath) 0 w

variable [DecidableEq Place]

def mkdir (s : Session Place) (w : World Place) (path : OsPath) :
    Except Error Unit × World Place :=
  match pathToStr path with
  | .error error => (.error error, w)
  | .ok text =>
    if s.place text ∈ w.made then
      (.error (.sftp (s.refusal w.requests text)), { w with requests := w.requests + 1 })
    else (.ok (), { w with made := s.place text :: w.made, requests := w.requests + 1 })

def transferPlan (s : Session Place) (totalBytes : UInt64) :
    List PlanEntry → TreeTransferResult → UInt64 → World Place → TreeTransferResult × World Place
  | [], result, _, w => (result, w)
  | entry :: plan, result, bytesDone, w =>
    if s.cancelledAt w.checks then ({ result with cancelled := true }, w.checked)
    else
      let progress := fun (filesDone bytes : UInt64) => (⟨bytes, some totalBytes, filesDone,
        result.filesTotal, some (fileName entry.remotePath)⟩ : TreeTransferProgress)
      let fail := fun (error : Error) => { result with failures :=
        result.failures ++ [display entry.remotePath ++ ": " ++ errorText error] }
      let w := w.checked.report (progress result.filesDone bytesDone)
      if entry.isDir then
        match mkdir s w entry.remotePath with
        | (.ok _, w) => transferPlan s totalBytes plan result bytesDone w
        | (.error error, w) =>
          if mentionsExist (errorText error) then transferPlan s totalBytes plan result bytesDone w
          else transferPlan s totalBytes plan (fail error) bytesDone w
      else
        match putWith s entry (fun bytes => progress result.filesDone (bytesDone + bytes)) w with
        | (.ok fileBytes, w) =>
          let bytesDone := bytesDone + fileBytes
          let filesDone := result.filesDone + 1
          transferPlan s totalBytes plan
            { result with filesDone := filesDone, bytesTransferred := bytesDone } bytesDone
            (w.report (progress filesDone bytesDone))
        | (.error .transferCancelled, w) => ({ result with cancelled := true }, w)
        | (.error error, w) => transferPlan s totalBytes plan (fail error) bytesDone w

def files (plan : List PlanEntry) : List PlanEntry := plan.filter fun entry => !entry.isDir

def putTree (s : Session Place) (localRoot remoteRoot : OsPath) (entries : List LocalEntry) :
    Except Error TreeTransferResult × World Place :=
  match walkLocalTree localRoot remoteRoot entries with
  | .error error => (.error error, s.start)
  | .ok (plan, notes) =>
    let totalBytes := ((files plan).map fun entry => (s.localLength entry.localPath).getD 0).sum
    let result : TreeTransferResult := ⟨0, 0, UInt64.ofNat (files plan).length, [], notes, false⟩
    let w := (mkdir s s.start remoteRoot).2
    let (result, w) := transferPlan s totalBytes plan result 0 w
    (.ok result, w)

end Upload

/-! ## Trees -/

/-- The names from a directory down to something in it. -/
abbrev RelPath := List OsPath

/-- The entry is in the directory at the path. -/
inductive Holds : List LocalEntry → RelPath → LocalEntry → Prop
  | here {entries : List LocalEntry} {entry : LocalEntry} : entry ∈ entries →
      Holds entries [] entry
  | under {entries inner : List LocalEntry} {name : OsPath} {rel : RelPath} {entry : LocalEntry} :
      .directory name inner ∈ entries → Holds inner rel entry → Holds entries (name :: rel) entry

def LocalEntry.name : LocalEntry → Option OsPath
  | .broken _ => none
  | .unreadable name _ => some name
  | .symlink name => some name
  | .directory name _ => some name
  | .file name => some name
  | .special name => some name

/-- What is sent: directories and regular files. -/
def LocalEntry.sent : LocalEntry → Option (OsPath × Bool)
  | .directory name _ => some (name, true)
  | .file name => some (name, false)
  | _ => none

structure ValidName (name : OsPath) : Prop where
  nonempty : name ≠ []
  slash : 0x2f ∉ name
  dot : name ≠ [0x2e]
  dots : name ≠ [0x2e, 0x2e]

mutual

def ValidEntry : LocalEntry → Prop
  | .broken _ => True
  | .unreadable name _ => ValidName name
  | .symlink name => ValidName name
  | .directory name entries => ValidName name ∧ ValidEntries entries
  | .file name => ValidName name
  | .special name => ValidName name

def ValidEntries : List LocalEntry → Prop
  | [] => True
  | entry :: entries => ValidEntry entry ∧
      (∀ name, entry.name = some name → ∀ other ∈ entries, other.name ≠ some name) ∧
      ValidEntries entries

end

/-- A directory as a file system has it: names are names, and no two in a directory are equal. -/
structure LocalTree where
  entries : List LocalEntry
  valid : ValidEntries entries

/-- Every directory can be listed to its end. -/
def Listed (entries : List LocalEntry) : Prop := ∀ rel error, ¬ Holds entries rel (.broken error)

/-- The path below `root`. -/
def below (root : OsPath) (rel : RelPath) : OsPath := rel.foldl join root

def planned (localRoot remoteRoot : OsPath) (visit : RelPath × Bool) : PlanEntry :=
  ⟨below localRoot visit.1, below remoteRoot visit.1, visit.2⟩

/-- Each regular file is planned once and nothing else is planned as a file, at the path it has
below the root, and a directory comes before what is in it. -/
structure Covers (entries : List LocalEntry) (localRoot remoteRoot : OsPath)
    (plan : List PlanEntry) : Prop where
  once : ∀ rel name, Holds entries rel (.file name) →
    plan.count (planned localRoot remoteRoot (rel ++ [name], false)) = 1
  only : ∀ entry ∈ plan, entry.isDir = false → ∃ rel name, Holds entries rel (.file name) ∧
    entry = planned localRoot remoteRoot (rel ++ [name], false)
  before : ∀ rel entry name isDir, Holds entries rel entry → entry.sent = some (name, isDir) →
    ∀ earlier later,
      plan = earlier ++ planned localRoot remoteRoot (rel ++ [name], isDir) :: later →
        ∀ outer, outer <+: rel → planned localRoot remoteRoot (outer, true) ∈ earlier

mutual

/-- What the walk comes by, in its order. -/
def visitEntry : LocalEntry → List (RelPath × Bool)
  | .broken _ => []
  | .unreadable _ _ => []
  | .symlink _ => []
  | .directory name entries =>
    ([name], true) :: (visits entries).map fun visit => (name :: visit.1, visit.2)
  | .file name => [([name], false)]
  | .special _ => []

def visits : List LocalEntry → List (RelPath × Bool)
  | [] => []
  | entry :: entries => visitEntry entry ++ visits entries

end

/-- The directories in the order of the walk, the root first. -/
def folders (entries : List LocalEntry) : List RelPath :=
  [] :: ((visits entries).filter Prod.snd).map Prod.fst

/-! ## What the walk plans -/

section Walk
variable {entry x : LocalEntry} {entries inner : List LocalEntry} {name : OsPath} {rel : RelPath}
variable {visit : RelPath × Bool}

theorem holds_cons :
    Holds (entry :: entries) rel x ↔ Holds [entry] rel x ∨ Holds entries rel x := by
  constructor
  · intro h
    cases h with
    | here hmem =>
      obtain rfl | hmem := List.mem_cons.1 hmem
      · exact Or.inl (.here (List.mem_singleton_self _))
      · exact Or.inr (.here hmem)
    | under hmem hinner =>
      obtain rfl | hmem := List.mem_cons.1 hmem
      · exact Or.inl (.under (List.mem_singleton_self _) hinner)
      · exact Or.inr (.under hmem hinner)
  · rintro (h | h)
    · cases h with
      | here hmem => exact .here (List.mem_singleton.1 hmem ▸ List.mem_cons_self)
      | under hmem hinner => exact .under (List.mem_singleton.1 hmem ▸ List.mem_cons_self) hinner
    · cases h with
      | here hmem => exact .here (List.mem_cons_of_mem _ hmem)
      | under hmem hinner => exact .under (List.mem_cons_of_mem _ hmem) hinner

/-- An entry holds itself and, as a directory, what it holds. -/
theorem holds_singleton : Holds [entry] rel x ↔ (rel = [] ∧ x = entry) ∨
    ∃ name inner rel', entry = .directory name inner ∧ rel = name :: rel' ∧ Holds inner rel' x := by
  constructor
  · intro h
    cases h with
    | here hmem => exact Or.inl ⟨rfl, List.mem_singleton.1 hmem⟩
    | under hmem hinner =>
      exact Or.inr ⟨_, _, _, (List.mem_singleton.1 hmem).symm, rfl, hinner⟩
  · rintro (⟨rfl, rfl⟩ | ⟨name, inner, rel', rfl, rfl, hinner⟩)
    · exact .here (List.mem_singleton_self _)
    · exact .under (List.mem_singleton_self _) hinner

theorem holds_nil : ¬ Holds [] rel x := by
  intro h
  cases h with
  | here hmem => cases hmem
  | under hmem => cases hmem

theorem listed_cons : Listed (entry :: entries) ↔ Listed [entry] ∧ Listed entries := by
  refine ⟨fun h => ⟨fun rel error hin => ?_, fun rel error hin => ?_⟩, fun h rel error hin => ?_⟩
  · exact h rel error (holds_cons.2 (Or.inl hin))
  · exact h rel error (holds_cons.2 (Or.inr hin))
  · exact (holds_cons.1 hin).elim (h.1 rel error) (h.2 rel error)

theorem listed_directory : Listed [.directory name inner] ↔ Listed inner := by
  refine ⟨fun h rel error hin => ?_, fun h rel error hin => ?_⟩
  · exact h (name :: rel) error (.under (List.mem_singleton_self _) hin)
  · obtain ⟨-, heq⟩ | ⟨_, _, rel', heq, -, hinner⟩ := holds_singleton.1 hin
    · cases heq
    · cases heq
      exact h rel' error hinner

theorem not_listed_broken (error : String) : ¬ Listed [.broken error] :=
  fun h => h [] error (.here (List.mem_singleton_self _))

/-- What is no directory and read is listed. -/
theorem listed_leaf (hbroken : ∀ error, entry ≠ .broken error)
    (hdirectory : ∀ name inner, entry ≠ .directory name inner) : Listed [entry] := by
  intro rel error hin
  obtain ⟨-, heq⟩ | ⟨name, inner, -, heq, -⟩ := holds_singleton.1 hin
  · exact hbroken error heq.symm
  · exact hdirectory name inner heq

theorem skipDots_valid (h : ValidName name) (walked : Except Error Walked) :
    skipDots name walked = walked :=
  if_neg fun hdots => hdots.elim h.dot h.dots

mutual

/-- The walk plans what it comes by, unless a listing breaks off. -/
theorem walkEntry_spec (localDir remoteDir : OsPath) : ∀ entry, ValidEntry entry →
    (Listed [entry] ∧ ∃ notes, walkEntry localDir remoteDir entry =
      .ok ((visitEntry entry).map (planned localDir remoteDir), notes)) ∨
    (¬ Listed [entry] ∧ ∃ error, walkEntry localDir remoteDir entry = .error error)
  | .broken error, _ => Or.inr ⟨not_listed_broken error, _, rfl⟩
  | .unreadable name error, h =>
    Or.inl ⟨listed_leaf (by simp) (by simp), _, skipDots_valid h _⟩
  | .symlink name, h => Or.inl ⟨listed_leaf (by simp) (by simp), _, skipDots_valid h _⟩
  | .file name, h => Or.inl ⟨listed_leaf (by simp) (by simp), _, skipDots_valid h _⟩
  | .special name, h => Or.inl ⟨listed_leaf (by simp) (by simp), _, skipDots_valid h _⟩
  | .directory name inner, h => by
    rw [listed_directory]
    obtain ⟨hlisted, notes, hwalk⟩ | ⟨hlisted, error, hwalk⟩ :=
      walkEntries_spec (join localDir name) (join remoteDir name) inner h.2
    · refine Or.inl ⟨hlisted, notes, ?_⟩
      rw [walkEntry, skipDots_valid h.1, hwalk, visitEntry, List.map_cons, List.map_map]
      rfl
    · refine Or.inr ⟨hlisted, error, ?_⟩
      rw [walkEntry, skipDots_valid h.1, hwalk]

theorem walkEntries_spec (localDir remoteDir : OsPath) : ∀ entries, ValidEntries entries →
    (Listed entries ∧ ∃ notes, walkEntries localDir remoteDir entries =
      .ok ((visits entries).map (planned localDir remoteDir), notes)) ∨
    (¬ Listed entries ∧ ∃ error, walkEntries localDir remoteDir entries = .error error)
  | [], _ => Or.inl ⟨fun _ _ h => holds_nil h, [], rfl⟩
  | entry :: entries, h => by
    rw [listed_cons]
    obtain ⟨hfirst, notes, hwalk⟩ | ⟨hfirst, error, hwalk⟩ :=
      walkEntry_spec localDir remoteDir entry h.1
    · obtain ⟨hrest, notes', hwalk'⟩ | ⟨hrest, error, hwalk'⟩ :=
        walkEntries_spec localDir remoteDir entries h.2.2
      · refine Or.inl ⟨⟨hfirst, hrest⟩, notes ++ notes', ?_⟩
        rw [walkEntries, hwalk]
        dsimp only
        rw [hwalk', visits, List.map_append]
      · refine Or.inr ⟨fun h => hrest h.2, error, ?_⟩
        rw [walkEntries, hwalk]
        dsimp only
        rw [hwalk']
    · refine Or.inr ⟨fun h => hfirst h.1, error, ?_⟩
      rw [walkEntries, hwalk]

end

mutual

theorem mem_visitEntry : ∀ entry : LocalEntry, ∀ visit, visit ∈ visitEntry entry ↔
    ∃ rel x name, Holds [entry] rel x ∧ x.sent = some (name, visit.2) ∧ visit.1 = rel ++ [name]
  | .broken error, visit => by simp [visitEntry, holds_singleton, LocalEntry.sent]
  | .unreadable name error, visit => by simp [visitEntry, holds_singleton, LocalEntry.sent]
  | .symlink name, visit => by simp [visitEntry, holds_singleton, LocalEntry.sent]
  | .file name, visit => by
    simp [visitEntry, holds_singleton, LocalEntry.sent, Prod.ext_iff, and_comm]
  | .special name, visit => by simp [visitEntry, holds_singleton, LocalEntry.sent]
  | .directory name inner, visit => by
    rw [visitEntry, List.mem_cons, List.mem_map]
    constructor
    · rintro (rfl | ⟨v, hv, rfl⟩)
      · exact ⟨[], _, name, .here (List.mem_singleton_self _), rfl, rfl⟩
      · obtain ⟨rel, x, last, hin, hsent, hpath⟩ := (mem_visits inner v).1 hv
        refine ⟨name :: rel, x, last, .under (List.mem_singleton_self _) hin, hsent, ?_⟩
        rw [hpath, List.cons_append]
    · rintro ⟨rel, x, last, hin, hsent, hpath⟩
      obtain ⟨rfl, rfl⟩ | ⟨_, _, rel', heq, rfl, hinner⟩ := holds_singleton.1 hin
      · obtain ⟨rfl, hdir⟩ := Prod.ext_iff.1 (Option.some.inj hsent)
        exact Or.inl (Prod.ext hpath hdir.symm)
      · cases heq
        refine Or.inr ⟨(rel' ++ [last], visit.2), (mem_visits inner _).2
          ⟨rel', x, last, hinner, hsent, rfl⟩, ?_⟩
        exact Prod.ext hpath.symm rfl

theorem mem_visits : ∀ entries : List LocalEntry, ∀ visit, visit ∈ visits entries ↔
    ∃ rel x name, Holds entries rel x ∧ x.sent = some (name, visit.2) ∧ visit.1 = rel ++ [name]
  | [], visit => by
    refine ⟨fun h => absurd h List.not_mem_nil, ?_⟩
    rintro ⟨rel, x, name, hin, -⟩
    exact absurd hin holds_nil
  | entry :: entries, visit => by
    rw [visits, List.mem_append, mem_visitEntry entry, mem_visits entries]
    simp only [@holds_cons entry _ entries, or_and_right, exists_or]

end

theorem sent_name {isDir : Bool} (h : entry.sent = some (name, isDir)) :
    entry.name = some name := by
  cases entry with
  | directory name inner => cases h; rfl
  | file name => cases h; rfl
  | broken error => cases h
  | unreadable name error => cases h
  | symlink name => cases h
  | special name => cases h

theorem file_of_sent (h : entry.sent = some (name, false)) : entry = .file name := by
  cases entry with
  | file name => cases h; rfl
  | directory name inner => cases h
  | broken error => cases h
  | unreadable name error => cases h
  | symlink name => cases h
  | special name => cases h

/-- What an entry is come by as starts with its name. -/
theorem head_visitEntry (h : visit ∈ visitEntry entry) :
    ∃ name, entry.name = some name ∧ visit.1.head? = some name := by
  obtain ⟨rel, x, last, hin, hsent, hpath⟩ := (mem_visitEntry entry visit).1 h
  obtain ⟨rfl, rfl⟩ | ⟨name, inner, rel', rfl, rfl, -⟩ := holds_singleton.1 hin
  · refine ⟨last, ?_, by rw [hpath]; rfl⟩
    exact sent_name hsent
  · exact ⟨name, rfl, by rw [hpath]; rfl⟩

theorem head_visits (h : visit ∈ visits entries) :
    ∃ entry ∈ entries, ∃ name, entry.name = some name ∧ visit.1.head? = some name := by
  induction entries with
  | nil => cases h
  | cons entry entries ih =>
    obtain h | h := List.mem_append.1 h
    · exact ⟨entry, List.mem_cons_self, head_visitEntry h⟩
    · obtain ⟨other, hother, hname⟩ := ih h
      exact ⟨other, List.mem_cons_of_mem _ hother, hname⟩

theorem visit_ne_nil (h : visit ∈ visits entries) : visit.1 ≠ [] := by
  obtain ⟨rel, x, last, -, -, hpath⟩ := (mem_visits entries visit).1 h
  rw [hpath]
  simp

mutual

/-- Nothing is come by twice. -/
theorem nodup_visitEntry : ∀ entry, ValidEntry entry → (visitEntry entry).Nodup
  | .broken error, _ => List.nodup_nil
  | .unreadable name error, _ => List.nodup_nil
  | .symlink name, _ => List.nodup_nil
  | .file name, _ => List.nodup_singleton _
  | .special name, _ => List.nodup_nil
  | .directory name inner, h => by
    refine List.nodup_cons.2 ⟨fun hmem => ?_, (nodup_visits inner h.2).map fun a b hab => ?_⟩
    · obtain ⟨v, hv, heq⟩ := List.mem_map.1 hmem
      exact visit_ne_nil hv (List.cons_inj_right name |>.1 (Prod.ext_iff.1 heq).1)
    · obtain ⟨hpath, hdir⟩ := Prod.ext_iff.1 hab
      exact Prod.ext ((List.cons_inj_right name).1 hpath) hdir

theorem nodup_visits : ∀ entries, ValidEntries entries → (visits entries).Nodup
  | [], _ => List.nodup_nil
  | entry :: entries, h => by
    refine List.Nodup.append (nodup_visitEntry entry h.1) (nodup_visits entries h.2.2) ?_
    intro visit hfirst hrest
    obtain ⟨name, hname, hhead⟩ := head_visitEntry hfirst
    obtain ⟨other, hother, name', hname', hhead'⟩ := head_visits hrest
    obtain rfl := Option.some.inj (hhead.symm.trans hhead')
    exact h.2.1 name hname other hother hname'

end

mutual

theorem valid_visitEntry : ∀ entry, ValidEntry entry → ∀ visit ∈ visitEntry entry,
    ∀ name ∈ visit.1, ValidName name
  | .broken error, _, visit, h => by cases h
  | .unreadable name error, _, visit, h => by cases h
  | .symlink name, _, visit, h => by cases h
  | .file name, hvalid, visit, h => by
    obtain rfl := List.mem_singleton.1 h
    exact fun n hn => List.mem_singleton.1 hn ▸ hvalid
  | .special name, _, visit, h => by cases h
  | .directory name inner, hvalid, visit, h => by
    obtain rfl | hinner := List.mem_cons.1 h
    · exact fun n hn => List.mem_singleton.1 hn ▸ hvalid.1
    · obtain ⟨v, hv, rfl⟩ := List.mem_map.1 hinner
      intro n hn
      obtain rfl | hn := List.mem_cons.1 hn
      · exact hvalid.1
      · exact valid_visits inner hvalid.2 v hv n hn

theorem valid_visits : ∀ entries, ValidEntries entries → ∀ visit ∈ visits entries,
    ∀ name ∈ visit.1, ValidName name
  | [], _, visit, h => by cases h
  | entry :: entries, hvalid, visit, h => by
    obtain h | h := List.mem_append.1 h
    · exact valid_visitEntry entry hvalid.1 visit h
    · exact valid_visits entries hvalid.2.2 visit h

end

/-- The directories something is in come before it. -/
def Ordered (found : List (RelPath × Bool)) : Prop :=
  ∀ earlier visit later, found = earlier ++ visit :: later →
    ∀ outer, outer ≠ [] → outer <+: visit.1.dropLast → (outer, true) ∈ earlier

theorem ordered_nil : Ordered [] := by
  intro earlier visit later heq
  exact absurd heq (by simp)

theorem ordered_single (path : RelPath) (isDir : Bool) (h : path.dropLast = []) :
    Ordered [(path, isDir)] := by
  intro earlier visit later heq outer hne houter
  have hvisit : visit = (path, isDir) := by
    have hmem : visit ∈ [(path, isDir)] := heq ▸ List.mem_append_right _ List.mem_cons_self
    exact List.mem_singleton.1 hmem
  rw [hvisit, h] at houter
  exact absurd (List.prefix_nil.1 houter) hne

theorem Ordered.append {found found' : List (RelPath × Bool)} (h : Ordered found)
    (h' : Ordered found') : Ordered (found ++ found') := by
  intro earlier visit later heq outer hne houter
  obtain ⟨more, rfl, hmore⟩ | ⟨more, rfl, hmore⟩ := List.append_eq_append_iff.1 heq
  · exact List.mem_append_right _ (h' more visit later hmore outer hne houter)
  · cases more with
    | nil => exact absurd (h' [] visit later hmore.symm outer hne houter) List.not_mem_nil
    | cons first more =>
      obtain ⟨rfl, -⟩ := List.cons_eq_cons.1 hmore
      exact h earlier visit more rfl outer hne houter

mutual

theorem ordered_visitEntry : ∀ entry : LocalEntry, Ordered (visitEntry entry)
  | .broken error => ordered_nil
  | .unreadable name error => ordered_nil
  | .symlink name => ordered_nil
  | .file name => ordered_single [name] false rfl
  | .special name => ordered_nil
  | .directory name inner => by
    intro earlier visit later heq outer hne houter
    rw [visitEntry] at heq
    cases earlier with
    | nil =>
      obtain ⟨rfl, -⟩ := List.cons_eq_cons.1 heq
      exact absurd (List.prefix_nil.1 houter) hne
    | cons first earlier =>
      obtain ⟨rfl, hrest⟩ := List.cons_eq_cons.1 heq
      obtain ⟨before, after, hinner, rfl, hafter⟩ := List.map_eq_append_iff.1 hrest
      obtain ⟨v, after, rfl, rfl, rfl⟩ := List.map_eq_cons_iff.1 hafter
      have hmem : v ∈ visits inner := hinner ▸ List.mem_append_right _ List.mem_cons_self
      rw [List.dropLast_cons_of_ne_nil (visit_ne_nil hmem)] at houter
      obtain rfl | ⟨outer', rfl, houter'⟩ := List.prefix_cons_iff.1 houter
      · exact absurd rfl hne
      · by_cases hnil : outer' = []
        · subst hnil
          exact List.mem_cons_self
        · have hbefore := ordered_visits inner before v after hinner outer' hnil houter'
          exact List.mem_cons_of_mem _ (List.mem_map.2 ⟨(outer', true), hbefore, rfl⟩)

theorem ordered_visits : ∀ entries : List LocalEntry, Ordered (visits entries)
  | [] => ordered_nil
  | entry :: entries => (ordered_visitEntry entry).append (ordered_visits entries)

end

end Walk

/-! ## Paths below a root -/

section Paths
variable {root : OsPath} {rel rel' : RelPath} {name : OsPath}

/-- The directory with a separator behind it, if it is not empty. -/
def separated (dir : OsPath) : OsPath :=
  if dir = [] ∨ dir.getLast? = some 0x2f then dir else dir ++ [0x2f]

theorem join_valid (h : ValidName name) (dir : OsPath) : join dir name = separated dir ++ name := by
  have hrelative : name.head? ≠ some 0x2f := fun hhead =>
    h.slash (List.mem_of_mem_head? hhead)
  unfold join separated
  rw [if_neg hrelative]
  split
  · rfl
  · rw [List.append_assoc]
    rfl

theorem below_concat (root : OsPath) (rel : RelPath) (name : OsPath) :
    below root (rel ++ [name]) = join (below root rel) name := by
  rw [below, List.foldl_append]
  rfl

theorem separated_cases (dir : OsPath) :
    separated dir = [] ∨ (separated dir).getLast? = some 0x2f := by
  unfold separated
  split
  · assumption
  · exact Or.inr List.getLast?_concat

theorem length_separated (dir : OsPath) :
    dir.length ≤ (separated dir).length ∧ (separated dir).length ≤ dir.length + 1 := by
  unfold separated
  split
  · omega
  · rw [List.length_append, List.length_singleton]
    omega

/-- Behind the last separator stands the name. -/
theorem name_unique {a a' n n' : OsPath} (ha : a = [] ∨ a.getLast? = some 0x2f)
    (ha' : a' = [] ∨ a'.getLast? = some 0x2f) (hn : 0x2f ∉ n) (hn' : 0x2f ∉ n')
    (h : a ++ n = a' ++ n') : a = a' ∧ n = n' := by
  have hnone : ∀ {b more m : OsPath}, (b ++ more = [] ∨ (b ++ more).getLast? = some 0x2f) →
      0x2f ∉ more ++ m → more = [] := by
    intro b more m hlast hnot
    by_contra hne
    obtain hnil | hlast := hlast
    · exact hne (List.append_eq_nil_iff.1 hnil).2
    · rw [List.getLast?_append_of_ne_nil _ hne] at hlast
      exact hnot (List.mem_append_left _ (List.mem_of_getLast? hlast))
  obtain ⟨more, rfl, rfl⟩ | ⟨more, rfl, rfl⟩ := List.append_eq_append_iff.1 h
  · obtain rfl := hnone ha' hn
    exact ⟨(List.append_nil a).symm, rfl⟩
  · obtain rfl := hnone ha hn'
    exact ⟨List.append_nil a', rfl⟩

theorem length_below (h : ∀ name ∈ rel, ValidName name) (hne : rel ≠ []) :
    root.length < (below root rel).length ∧ below root rel ≠ [] ∧
      (below root rel).getLast? ≠ some 0x2f := by
  induction rel using List.reverseRecOn with
  | nil => exact absurd rfl hne
  | append_singleton rel name ih =>
    have hname : ValidName name := h name (List.mem_append_right _ (List.mem_singleton_self _))
    have hpositive : 0 < name.length := List.length_pos_iff.2 hname.nonempty
    have hlong : root.length ≤ (below root rel).length := by
      by_cases hnil : rel = []
      · rw [hnil]
        exact le_refl _
      · exact (ih (fun n hn => h n (List.mem_append_left _ hn)) hnil).1.le
    have hseparated := (length_separated (below root rel)).1
    rw [below_concat, join_valid hname]
    refine ⟨?_, ?_, ?_⟩
    · rw [List.length_append]
      omega
    · exact fun hnil => hname.nonempty (List.append_eq_nil_iff.1 hnil).2
    · rw [List.getLast?_append_of_ne_nil _ hname.nonempty]
      exact fun hlast => hname.slash (List.mem_of_getLast? hlast)

theorem separated_below (h : ∀ name ∈ rel, ValidName name) (hne : rel ≠ []) :
    separated (below root rel) = below root rel ++ [0x2f] := by
  obtain ⟨-, hnil, hlast⟩ := @length_below root rel h hne
  exact if_neg fun hor => hor.elim hnil hlast

/-- Different paths in a tree are different paths of the file system. -/
theorem below_injective (h : ∀ name ∈ rel, ValidName name) (h' : ∀ name ∈ rel', ValidName name)
    (heq : below root rel = below root rel') : rel = rel' := by
  induction rel using List.reverseRecOn generalizing rel' with
  | nil =>
    by_contra hne
    have hlonger := (@length_below root rel' h' fun hnil => hne hnil.symm).1
    rw [← heq] at hlonger
    exact absurd hlonger (lt_irrefl _)
  | append_singleton rel name ih =>
    cases rel' using List.reverseRecOn with
    | nil =>
      have hlonger := (@length_below root _ h (by simp)).1
      rw [heq] at hlonger
      exact absurd hlonger (lt_irrefl _)
    | append_singleton rel' name' =>
      have hname : ValidName name := h name (List.mem_append_right _ (List.mem_singleton_self _))
      have hname' : ValidName name' :=
        h' name' (List.mem_append_right _ (List.mem_singleton_self _))
      have hrel : ∀ n ∈ rel, ValidName n := fun n hn => h n (List.mem_append_left _ hn)
      have hrel' : ∀ n ∈ rel', ValidName n := fun n hn => h' n (List.mem_append_left _ hn)
      rw [below_concat, below_concat, join_valid hname, join_valid hname'] at heq
      obtain ⟨hdir, rfl⟩ := name_unique (separated_cases _) (separated_cases _) hname.slash
        hname'.slash heq
      have hshort := (length_separated root).2
      by_cases hnil : rel = []
      · by_cases hnil' : rel' = []
        · rw [hnil, hnil']
        · rw [hnil, separated_below hrel' hnil'] at hdir
          have hlonger := (@length_below root rel' hrel' hnil').1
          have hlength := congrArg List.length hdir
          rw [List.length_append, List.length_singleton, below, List.foldl_nil] at hlength
          omega
      · by_cases hnil' : rel' = []
        · rw [hnil', separated_below hrel hnil] at hdir
          have hlonger := (@length_below root rel hrel hnil).1
          have hlength := congrArg List.length hdir
          rw [List.length_append, List.length_singleton, below, below, List.foldl_nil] at hlength
          rw [below] at hlonger
          omega
        · rw [separated_below hrel hnil, separated_below hrel' hnil'] at hdir
          rw [ih hrel hrel' (List.append_cancel_right hdir)]

end Paths

section Covers
variable {entries : List LocalEntry} {localRoot remoteRoot : OsPath} {visit visit' : RelPath × Bool}

/-- What is come by, the root first. -/
def found (entries : List LocalEntry) : List (RelPath × Bool) := ([], true) :: visits entries

theorem valid_found (hvalid : ValidEntries entries) (h : visit ∈ found entries) :
    ∀ name ∈ visit.1, ValidName name := by
  obtain rfl | h := List.mem_cons.1 h
  · exact fun name hname => absurd hname List.not_mem_nil
  · exact valid_visits entries hvalid visit h

theorem planned_injective (hvalid : ValidEntries entries) (h : visit ∈ found entries)
    (h' : visit' ∈ found entries)
    (heq : planned localRoot remoteRoot visit = planned localRoot remoteRoot visit') :
    visit = visit' := by
  rw [planned, planned, PlanEntry.mk.injEq] at heq
  exact Prod.ext (below_injective (valid_found hvalid h) (valid_found hvalid h') heq.1) heq.2.2

theorem nodup_found (hvalid : ValidEntries entries) : (found entries).Nodup :=
  List.nodup_cons.2 ⟨fun h => visit_ne_nil h rfl, nodup_visits entries hvalid⟩

theorem mem_found {rel : RelPath} {x : LocalEntry} {name : OsPath} {isDir : Bool}
    (hin : Holds entries rel x) (hsent : x.sent = some (name, isDir)) :
    (rel ++ [name], isDir) ∈ found entries :=
  List.mem_cons_of_mem _ ((mem_visits entries _).2 ⟨rel, x, name, hin, hsent, rfl⟩)

theorem covers_found (hvalid : ValidEntries entries) (localRoot remoteRoot : OsPath) :
    Covers entries localRoot remoteRoot ((found entries).map (planned localRoot remoteRoot)) where
  once rel name hin := by
    have hmem : (rel ++ [name], false) ∈ found entries := mem_found hin rfl
    refine List.count_eq_one_of_mem ?_ (List.mem_map_of_mem hmem)
    exact (nodup_found hvalid).map_on fun a ha b hb hab => planned_injective hvalid ha hb hab
  only entry hentry hfile := by
    obtain ⟨visit, hvisit, rfl⟩ := List.mem_map.1 hentry
    obtain rfl | hvisit := List.mem_cons.1 hvisit
    · cases hfile
    · obtain ⟨rel, x, name, hin, hsent, hpath⟩ := (mem_visits entries visit).1 hvisit
      have hdir : visit.2 = false := hfile
      rw [hdir] at hsent
      obtain rfl := file_of_sent hsent
      exact ⟨rel, name, hin, congrArg _ (Prod.ext hpath hdir)⟩
  before rel x name isDir hin hsent earlier later hplan outer houter := by
    obtain ⟨before, after, hfound, rfl, hafter⟩ := List.map_eq_append_iff.1 hplan
    obtain ⟨visit, after, rfl, heq, rfl⟩ := List.map_eq_cons_iff.1 hafter
    have hvisit : visit ∈ found entries := hfound ▸ List.mem_append_right _ List.mem_cons_self
    obtain rfl := planned_injective hvalid hvisit (mem_found hin hsent) heq
    refine List.mem_map_of_mem ?_
    cases before with
    | nil => exact absurd (congrArg Prod.fst (List.cons_eq_cons.1 hfound).1) (by simp)
    | cons first before =>
      obtain ⟨rfl, hvisits⟩ := List.cons_eq_cons.1 hfound
      by_cases hnil : outer = []
      · rw [hnil]
        exact List.mem_cons_self
      · refine List.mem_cons_of_mem _ (ordered_visits entries before _ after hvisits outer hnil ?_)
        rw [List.dropLast_concat]
        exact houter

end Covers

/-! ## The folders that are there already -/

section Server
variable {Place : Type} {s : Session Place}

/-- The folder is one of these, or was asked for before. -/
def Known (s : Session Place) (made : List Place) (earlier : List String) (path : String) : Prop :=
  s.place path ∈ made ∨ ∃ p ∈ earlier, s.place p = s.place path

/-- Folders that are asked for again, from the `n`-th request on, are said to exist. -/
def Warned (s : Session Place) (made : List Place) (n : ℕ) (paths : List String) : Prop :=
  ∀ earlier path later, paths = earlier ++ path :: later → Known s made earlier path →
    mentionsExist (s.refusal (n + earlier.length) path) = true

theorem warned_cons {made : List Place} {n : ℕ} {path : String} {paths : List String} :
    Warned s made n (path :: paths) ↔
      (s.place path ∈ made → mentionsExist (s.refusal n path) = true) ∧
        Warned s (s.place path :: made) (n + 1) paths := by
  constructor
  · refine fun h => ⟨fun hmade => h [] path paths rfl (Or.inl hmade), ?_⟩
    intro earlier p later heq hknown
    have hwarned := h (path :: earlier) p later (by rw [heq]; rfl) ?_
    · rwa [List.length_cons, ← Nat.add_assoc, Nat.add_right_comm] at hwarned
    obtain hmade | ⟨q, hq, hplace⟩ := hknown
    · obtain hsame | hmade := List.mem_cons.1 hmade
      · exact Or.inr ⟨path, List.mem_cons_self, hsame.symm⟩
      · exact Or.inl hmade
    · exact Or.inr ⟨q, List.mem_cons_of_mem _ hq, hplace⟩
  · rintro ⟨hfirst, hrest⟩ earlier p later heq hknown
    cases earlier with
    | nil =>
      obtain ⟨rfl, -⟩ := List.cons_eq_cons.1 heq
      obtain hmade | ⟨q, hq, -⟩ := hknown
      · exact hfirst hmade
      · cases hq
    | cons first earlier =>
      obtain ⟨rfl, hpaths⟩ := List.cons_eq_cons.1 heq
      have hwarned := hrest earlier p later hpaths ?_
      · rwa [List.length_cons, ← Nat.add_assoc, Nat.add_right_comm]
      obtain hmade | ⟨q, hq, hplace⟩ := hknown
      · exact Or.inl (List.mem_cons_of_mem _ hmade)
      · obtain rfl | hq := List.mem_cons.1 hq
        · exact Or.inl (hplace ▸ List.mem_cons_self)
        · exact Or.inr ⟨q, hq, hplace⟩

theorem warned_congr {made made' : List Place} (h : ∀ p, p ∈ made ↔ p ∈ made') {n : ℕ}
    {paths : List String} : Warned s made n paths ↔ Warned s made' n paths := by
  simp only [Warned, Known, h]

/-- The paths of the folders in a plan. -/
def asked (plan : List PlanEntry) : List String :=
  (plan.filter PlanEntry.isDir).filterMap fun entry => fromUtf8 entry.remotePath

/-- The text of an error says that the folder exists exactly when the server's does. -/
theorem mentionsExist_sftp (message : String) :
    mentionsExist (errorText (.sftp message)) = mentionsExist message := by
  have hlower : (toAsciiLowercase ("SFTP error: " ++ message)).toList =
      "sftp error: ".toList ++ (toAsciiLowercase message).toList := by
    rw [toAsciiLowercase, toAsciiLowercase, String.toList_map, String.toList_map,
      String.toList_append, List.map_append]
    rfl
  change containsText (toAsciiLowercase ("SFTP error: " ++ message)) "exist" = _
  rw [mentionsExist, containsText, containsText, hlower]
  refine decide_eq_decide.2 ?_
  change ['e', 'x', 'i', 's', 't'] <:+: 's' :: 'f' :: 't' :: 'p' :: ' ' :: 'e' :: 'r' :: 'r' ::
    'o' :: 'r' :: ':' :: ' ' :: (toAsciiLowercase message).toList ↔ ['e', 'x', 'i', 's', 't'] <:+: _
  simp [List.infix_cons_iff]

theorem copy_ok (hcancel : ∀ n, s.cancelledAt n = false)
    (progress : UInt64 → TreeTransferProgress) (reads : List UInt64) (transferred : UInt64)
    (w : World Place) : ∃ bytes w', copy s progress reads transferred w = (.ok bytes, w') ∧
      w'.made = w.made ∧ w'.requests = w.requests := by
  induction reads generalizing transferred w with
  | nil => exact ⟨transferred, w.checked, by rw [copy, hcancel]; rfl, rfl, rfl⟩
  | cons n reads ih =>
    obtain ⟨bytes, w', hcopy, hmade, hrequests⟩ := ih (transferred + n)
      (w.checked.report (progress (transferred + n)))
    exact ⟨bytes, w', by rw [copy, hcancel]; exact hcopy, hmade, hrequests⟩

/-- The path is text, and a folder that is there is said to exist. -/
def Fine (s : Session Place) (w : World Place) (entry : PlanEntry) : Prop :=
  ∃ text, fromUtf8 entry.remotePath = some text ∧ (entry.isDir = true →
    s.place text ∈ w.made → mentionsExist (s.refusal w.requests text) = true)

/-- What is left to do and what has been done after an entry of the plan. -/
structure Turned (s : Session Place) (entry : PlanEntry) (result result' : TreeTransferResult)
    (w w' : World Place) : Prop where
  total : result'.filesTotal = result.filesTotal
  failures : result.failures <+: result'.failures
  fine : Fine s w entry → result'.failures = result.failures ∧
    result'.filesDone = result.filesDone + if entry.isDir then 0 else 1
  failed : ¬ Fine s w entry → result'.failures ≠ []
  folder : ∀ text, fromUtf8 entry.remotePath = some text → entry.isDir = true →
    (∀ p, p ∈ w'.made ↔ p ∈ s.place text :: w.made) ∧ w'.requests = w.requests + 1
  file : entry.isDir = false → w'.made = w.made ∧ w'.requests = w.requests

variable {entry : PlanEntry} {plan : List PlanEntry} {totalBytes : UInt64}

theorem not_fine_none {w : World Place} (h : fromUtf8 entry.remotePath = none) :
    ¬ Fine s w entry := by
  rintro ⟨text, htext, -⟩
  rw [h] at htext
  cases htext

theorem fine_some {w : World Place} {text : String} (h : fromUtf8 entry.remotePath = some text) :
    Fine s w entry ↔ (entry.isDir = true → s.place text ∈ w.made →
      mentionsExist (s.refusal w.requests text) = true) := by
  refine ⟨fun ⟨text', htext', hexist⟩ => ?_, fun hexist => ⟨text, h, hexist⟩⟩
  obtain rfl := Option.some.inj (h.symm.trans htext')
  exact hexist

/-- An entry that is fine leaves the failures, and a file is counted. -/
theorem turned_done {result result' : TreeTransferResult} {w w' : World Place}
    (hfine : Fine s w entry) (htotal : result'.filesTotal = result.filesTotal)
    (hfailures : result'.failures = result.failures)
    (hdone : result'.filesDone = result.filesDone + if entry.isDir then 0 else 1)
    (hfolder : ∀ text, fromUtf8 entry.remotePath = some text → entry.isDir = true →
      (∀ p, p ∈ w'.made ↔ p ∈ s.place text :: w.made) ∧ w'.requests = w.requests + 1)
    (hfile : entry.isDir = false → w'.made = w.made ∧ w'.requests = w.requests) :
    Turned s entry result result' w w' :=
  ⟨htotal, hfailures ▸ List.prefix_rfl, fun _ => ⟨hfailures, hdone⟩, fun h => absurd hfine h,
    hfolder, hfile⟩

/-- An entry that is not fine adds a failure. -/
theorem turned_failed {result : TreeTransferResult} {w w' : World Place} {message : String}
    (hfine : ¬ Fine s w entry)
    (hfolder : ∀ text, fromUtf8 entry.remotePath = some text → entry.isDir = true →
      (∀ p, p ∈ w'.made ↔ p ∈ s.place text :: w.made) ∧ w'.requests = w.requests + 1)
    (hfile : entry.isDir = false → w'.made = w.made ∧ w'.requests = w.requests) :
    Turned s entry result { result with failures := result.failures ++ [message] } w w' :=
  ⟨rfl, List.prefix_append _ _, fun h => absurd h hfine, fun _ => by simp, hfolder, hfile⟩

theorem putWith_none (h : fromUtf8 entry.remotePath = none)
    (progress : UInt64 → TreeTransferProgress) (w : World Place) : putWith s entry progress w =
      (.error (.invalidArgument "path is not valid UTF-8"), w) := by
  rw [putWith, pathToStr, h]

theorem putWith_some (hcancel : ∀ n, s.cancelledAt n = false) {text : String}
    (h : fromUtf8 entry.remotePath = some text) (progress : UInt64 → TreeTransferProgress)
    (w : World Place) : ∃ bytes w', putWith s entry progress w = (.ok bytes, w') ∧
      w'.made = w.made ∧ w'.requests = w.requests := by
  rw [putWith, pathToStr, h]
  exact copy_ok hcancel progress (s.reads entry.localPath) 0 w

variable [DecidableEq Place]

theorem mkdir_none {path : OsPath} (h : fromUtf8 path = none) (w : World Place) :
    mkdir s w path = (.error (.invalidArgument "path is not valid UTF-8"), w) := by
  rw [mkdir, pathToStr, h]

/-- A request leaves the folder there, and is refused if it was. -/
theorem mkdir_some {path : OsPath} {text : String} (h : fromUtf8 path = some text)
    (w : World Place) : ∃ outcome w', mkdir s w path = (outcome, w') ∧
      (∀ p, p ∈ w'.made ↔ p ∈ s.place text :: w.made) ∧ w'.requests = w.requests + 1 ∧
      (s.place text ∈ w.made → outcome = .error (.sftp (s.refusal w.requests text))) ∧
      (s.place text ∉ w.made → outcome = .ok ()) := by
  rw [mkdir, pathToStr, h]
  by_cases hmade : s.place text ∈ w.made
  · refine ⟨_, _, if_pos hmade, fun p => ⟨List.mem_cons_of_mem _, fun hp => ?_⟩, rfl,
      fun _ => rfl, fun hnot => absurd hmade hnot⟩
    obtain rfl | hp := List.mem_cons.1 hp
    · exact hmade
    · exact hp
  · exact ⟨_, _, if_neg hmade, fun p => Iff.rfl, rfl, fun hp => absurd hp hmade, fun _ => rfl⟩

/-- What a directory of the plan comes to. -/
theorem transferPlan_folder (hcancel : ∀ n, s.cancelledAt n = false) (totalBytes : UInt64)
    (hdir : entry.isDir = true) (plan : List PlanEntry) (result : TreeTransferResult)
    (bytesDone : UInt64) (w : World Place) : ∃ result' bytesDone' w',
      transferPlan s totalBytes (entry :: plan) result bytesDone w =
        transferPlan s totalBytes plan result' bytesDone' w' ∧
      Turned s entry result result' w w' := by
  have hnofile : ∀ P : Prop, entry.isDir = false → P := fun P h => absurd h (by simp [hdir])
  have hcount : result.filesDone = result.filesDone + if entry.isDir then 0 else 1 := by
    rw [if_pos hdir, UInt64.add_zero]
  rw [transferPlan, hcancel, if_neg (by decide), if_pos hdir]
  cases hpath : fromUtf8 entry.remotePath with
  | none =>
    have hinvalid :
        mentionsExist (errorText (.invalidArgument "path is not valid UTF-8")) = false := by
      decide +kernel
    rw [mkdir_none hpath]
    dsimp only
    rw [hinvalid, if_neg (by decide)]
    refine ⟨_, _, _, rfl, turned_failed (not_fine_none hpath) (fun text htext => ?_) (hnofile _)⟩
    rw [hpath] at htext
    cases htext
  | some text =>
    obtain ⟨outcome, w', hmkdir, hmade, hrequests, hrefused, hgranted⟩ := mkdir_some (s := s) hpath
      (w.checked.report ⟨bytesDone, some totalBytes, result.filesDone, result.filesTotal,
        some (fileName entry.remotePath)⟩)
    have hfolder : ∀ text', fromUtf8 entry.remotePath = some text' → entry.isDir = true →
        (∀ p, p ∈ w'.made ↔ p ∈ s.place text' :: w.made) ∧ w'.requests = w.requests + 1 := by
      intro text' htext' _
      obtain rfl := Option.some.inj (hpath.symm.trans htext')
      exact ⟨hmade, hrequests⟩
    rw [hmkdir]
    by_cases hthere : s.place text ∈ w.made
    · rw [hrefused hthere]
      dsimp only
      rw [mentionsExist_sftp]
      split
      · rename_i hexist
        exact ⟨_, _, _, rfl, turned_done ((fine_some hpath).2 fun _ _ => hexist) rfl rfl hcount
          hfolder (hnofile _)⟩
      · rename_i hexist
        exact ⟨_, _, _, rfl, turned_failed
          (fun hfine => hexist ((fine_some hpath).1 hfine hdir hthere)) hfolder (hnofile _)⟩
    · rw [hgranted hthere]
      exact ⟨_, _, _, rfl, turned_done ((fine_some hpath).2 fun _ h => absurd h hthere) rfl rfl
        hcount hfolder (hnofile _)⟩

/-- What a file of the plan comes to. -/
theorem transferPlan_file (hcancel : ∀ n, s.cancelledAt n = false) (totalBytes : UInt64)
    (hdir : entry.isDir = false) (plan : List PlanEntry) (result : TreeTransferResult)
    (bytesDone : UInt64) (w : World Place) : ∃ result' bytesDone' w',
      transferPlan s totalBytes (entry :: plan) result bytesDone w =
        transferPlan s totalBytes plan result' bytesDone' w' ∧
      Turned s entry result result' w w' := by
  have hnofolder : ∀ P : Prop, entry.isDir = true → P := fun P h => absurd h (by simp [hdir])
  rw [transferPlan, hcancel, if_neg (by decide), if_neg (hnofolder _)]
  cases hpath : fromUtf8 entry.remotePath with
  | none =>
    rw [putWith_none hpath]
    exact ⟨_, _, _, rfl, turned_failed (not_fine_none hpath) (fun _ _ => hnofolder _)
      fun _ => ⟨rfl, rfl⟩⟩
  | some text =>
    obtain ⟨bytes, w', hput, hmade, hrequests⟩ := putWith_some hcancel hpath
      (fun bytes => ⟨bytesDone + bytes, some totalBytes, result.filesDone, result.filesTotal,
        some (fileName entry.remotePath)⟩)
      (w.checked.report ⟨bytesDone, some totalBytes, result.filesDone, result.filesTotal,
        some (fileName entry.remotePath)⟩)
    rw [hput]
    refine ⟨_, _, _, rfl, turned_done ((fine_some hpath).2 (hnofolder _)) rfl rfl ?_
      (fun _ _ => hnofolder _) fun _ => ⟨hmade, hrequests⟩⟩
    rw [if_neg (hnofolder _)]

theorem transferPlan_cons (hcancel : ∀ n, s.cancelledAt n = false) (totalBytes : UInt64)
    (entry : PlanEntry) (plan : List PlanEntry) (result : TreeTransferResult) (bytesDone : UInt64)
    (w : World Place) : ∃ result' bytesDone' w',
      transferPlan s totalBytes (entry :: plan) result bytesDone w =
        transferPlan s totalBytes plan result' bytesDone' w' ∧
      Turned s entry result result' w w' := by
  cases hdir : entry.isDir with
  | true => exact transferPlan_folder hcancel totalBytes hdir plan result bytesDone w
  | false => exact transferPlan_file hcancel totalBytes hdir plan result bytesDone w

omit [DecidableEq Place] in
theorem Turned.failures_nil {result result' : TreeTransferResult} {w w' : World Place}
    (h : Turned s entry result result' w w') :
    result'.failures = [] ↔ result.failures = [] ∧ Fine s w entry := by
  refine ⟨fun hnil => ⟨?_, ?_⟩, fun ⟨hnil, hfine⟩ => (h.fine hfine).1.trans hnil⟩
  · exact List.prefix_nil.1 (hnil ▸ h.failures)
  · by_contra hfine
    exact h.failed hfine hnil

/-- All remote paths are text. -/
def Texts (plan : List PlanEntry) : Prop := ∀ entry ∈ plan, (fromUtf8 entry.remotePath).isSome

omit [DecidableEq Place] in
theorem Turned.warned {result result' : TreeTransferResult} {w w' : World Place}
    (h : Turned s entry result result' w w') (plan : List PlanEntry) :
    Texts (entry :: plan) ∧ Warned s w.made w.requests (asked (entry :: plan)) ↔
      Fine s w entry ∧ Texts plan ∧ Warned s w'.made w'.requests (asked plan) := by
  have htexts : Texts (entry :: plan) ↔ (fromUtf8 entry.remotePath).isSome ∧ Texts plan := by
    simp [Texts]
  rw [htexts]
  cases hpath : fromUtf8 entry.remotePath with
  | none => simp [not_fine_none hpath]
  | some text =>
    rw [fine_some hpath]
    cases hdir : entry.isDir with
    | true =>
      obtain ⟨hmade, hrequests⟩ := h.folder text hpath hdir
      have hasked : asked (entry :: plan) = text :: asked plan := by
        rw [asked, List.filter_cons_of_pos hdir, List.filterMap_cons, hpath]
        rfl
      rw [hasked, warned_cons, warned_congr hmade, hrequests]
      simp only [Option.isSome_some, true_and, forall_const]
      exact and_left_comm
    | false =>
      obtain ⟨hmade, hrequests⟩ := h.file hdir
      have hasked : asked (entry :: plan) = asked plan := by
        rw [asked, List.filter_cons_of_neg (by simp [hdir])]
        rfl
      rw [hasked, hmade, hrequests]
      simp

/-- What the plan comes to, if no one cancels. -/
theorem transferPlan_spec (hcancel : ∀ n, s.cancelledAt n = false) (totalBytes : UInt64)
    (plan : List PlanEntry) (result : TreeTransferResult) (bytesDone : UInt64) (w : World Place) :
    let out := (transferPlan s totalBytes plan result bytesDone w).1
    (out.failures = [] ↔ result.failures = [] ∧ Texts plan ∧
      Warned s w.made w.requests (asked plan)) ∧
    (out.failures = [] → out.filesDone = result.filesDone + UInt64.ofNat (files plan).length) ∧
    out.filesTotal = result.filesTotal := by
  induction plan generalizing result bytesDone w with
  | nil =>
    refine ⟨⟨fun h => ⟨h, fun _ h => absurd h List.not_mem_nil, fun earlier path later heq => ?_⟩,
      fun h => h.1⟩, fun _ => (UInt64.add_zero _).symm, rfl⟩
    exact absurd heq.symm (by simp [asked])
  | cons entry plan ih =>
    obtain ⟨result', bytesDone', w', heq, hturned⟩ :=
      transferPlan_cons hcancel totalBytes entry plan result bytesDone w
    obtain ⟨hnil, hdone, htotal⟩ := ih result' bytesDone' w'
    intro out
    have hout : out = (transferPlan s totalBytes plan result' bytesDone' w').1 :=
      congrArg Prod.fst heq
    rw [hout]
    refine ⟨?_, fun hfailures => ?_, htotal.trans hturned.total⟩
    · rw [hnil, hturned.failures_nil, hturned.warned plan]
      exact and_assoc
    · have hfine := (hturned.failures_nil.1 (hnil.1 hfailures).1).2
      rw [hdone hfailures, (hturned.fine hfine).2]
      cases hdir : entry.isDir with
      | true =>
        have hfiles : files (entry :: plan) = files plan :=
          List.filter_cons_of_neg (by simp [hdir])
        rw [hfiles, if_pos rfl, UInt64.add_zero]
      | false =>
        have hfiles : files (entry :: plan) = entry :: files plan :=
          List.filter_cons_of_pos (by simp [hdir])
        rw [hfiles, List.length_cons, UInt64.ofNat_add, if_neg (by decide), UInt64.add_assoc,
          UInt64.add_comm 1]
        rfl

end Server

/-! ## The upload -/

section Uploads
variable {Place : Type} {s : Session Place} {remoteRoot : OsPath} {entries : List LocalEntry}

/-- The folders the server is asked for: the root, and then all of the plan, the root again. -/
def requested (remoteRoot : OsPath) (entries : List LocalEntry) : List String :=
  (remoteRoot :: (folders entries).map (below remoteRoot)).filterMap fromUtf8

/-- The local tree can be read, the remote paths are text, and the server says of each folder it
refuses, because it is there, that it exists. What it says to the first request does not matter. -/
structure Agreeable (s : Session Place) (remoteRoot : OsPath) (entries : List LocalEntry) :
    Prop where
  listed : Listed entries
  root : (fromUtf8 remoteRoot).isSome
  names : ∀ rel x name isDir, Holds entries rel x → x.sent = some (name, isDir) →
    (fromUtf8 (below remoteRoot (rel ++ [name]))).isSome
  exist : ∀ earlier path later, requested remoteRoot entries = earlier ++ path :: later →
    earlier ≠ [] → Known s s.there earlier path →
    mentionsExist (s.refusal earlier.length path) = true

theorem texts_found (localRoot : OsPath) :
    Texts ((found entries).map (planned localRoot remoteRoot)) ↔ (fromUtf8 remoteRoot).isSome ∧
      ∀ rel x name isDir, Holds entries rel x → x.sent = some (name, isDir) →
        (fromUtf8 (below remoteRoot (rel ++ [name]))).isSome := by
  constructor
  · refine fun h => ⟨h _ (List.mem_map_of_mem List.mem_cons_self), ?_⟩
    exact fun rel x name isDir hin hsent => h _ (List.mem_map_of_mem (mem_found hin hsent))
  · rintro ⟨hroot, hnames⟩ entry hentry
    obtain ⟨visit, hvisit, rfl⟩ := List.mem_map.1 hentry
    obtain rfl | hvisit := List.mem_cons.1 hvisit
    · exact hroot
    · obtain ⟨rel, x, name, hin, hsent, hpath⟩ := (mem_visits entries visit).1 hvisit
      rw [planned, hpath]
      exact hnames rel x name visit.2 hin hsent

/-- The folders of the plan are those the server is asked for after the first request. -/
theorem requested_eq (localRoot : OsPath) : requested remoteRoot entries =
    (fromUtf8 remoteRoot).toList ++ asked ((found entries).map (planned localRoot remoteRoot)) := by
  have hfolders : (((found entries).map (planned localRoot remoteRoot)).filter
      PlanEntry.isDir).map PlanEntry.remotePath = (folders entries).map (below remoteRoot) := by
    rw [List.filter_map, List.map_map, folders, found]
    change _ = below remoteRoot [] :: _
    rw [List.filter_cons_of_pos rfl, List.map_cons, List.map_map]
    rfl
  rw [requested, ← hfolders, List.filterMap_cons, asked, List.filterMap_map]
  cases fromUtf8 remoteRoot <;> rfl

/-- The first request leaves the root among the folders. -/
theorem warned_requested {root : String} {paths : List String} :
    Warned s (s.place root :: s.there) 1 paths ↔
      ∀ earlier path later, root :: paths = earlier ++ path :: later → earlier ≠ [] →
        Known s s.there earlier path → mentionsExist (s.refusal earlier.length path) = true := by
  have hknown : ∀ earlier path,
      Known s (s.place root :: s.there) earlier path ↔ Known s s.there (root :: earlier) path := by
    intro earlier path
    simp only [Known, List.mem_cons, or_assoc, exists_eq_or_imp]
    rw [@eq_comm _ (s.place path), or_left_comm]
  constructor
  · intro h earlier path later heq hne hpath
    cases earlier with
    | nil => exact absurd rfl hne
    | cons first earlier =>
      obtain ⟨rfl, hpaths⟩ := List.cons_eq_cons.1 heq
      rw [List.length_cons, Nat.add_comm]
      exact h earlier path later hpaths ((hknown earlier path).2 hpath)
  · intro h earlier path later hpaths hpath
    have hwarned := h (root :: earlier) path later (by rw [hpaths]; rfl) (List.cons_ne_nil _ _)
      ((hknown earlier path).1 hpath)
    rwa [List.length_cons, Nat.add_comm] at hwarned

variable [DecidableEq Place]

/-- The plan is complete, and all of it is done without a failure. -/
def Uploaded (s : Session Place) (localRoot remoteRoot : OsPath) (entries : List LocalEntry) :
    Prop :=
  ∃ plan notes result, walkLocalTree localRoot remoteRoot entries = .ok (plan, notes) ∧
    Covers entries localRoot remoteRoot plan ∧
    (putTree s localRoot remoteRoot entries).1 = .ok result ∧
    result.failures = [] ∧ result.filesDone = result.filesTotal

theorem mkdir_root {root : String} (h : fromUtf8 remoteRoot = some root) :
    (∀ p, p ∈ (mkdir s s.start remoteRoot).2.made ↔ p ∈ s.place root :: s.there) ∧
      (mkdir s s.start remoteRoot).2.requests = 1 := by
  obtain ⟨outcome, w, hmkdir, hmade, hrequests, -⟩ := mkdir_some (s := s) h s.start
  rw [hmkdir]
  exact ⟨hmade, hrequests⟩

theorem walkLocalTree_spec (tree : LocalTree) (localRoot remoteRoot : OsPath) :
    (Listed tree.entries ∧ ∃ notes, walkLocalTree localRoot remoteRoot tree.entries =
      .ok ((found tree.entries).map (planned localRoot remoteRoot), notes)) ∨
    (¬ Listed tree.entries ∧
      ∃ error, walkLocalTree localRoot remoteRoot tree.entries = .error error) := by
  refine (walkEntries_spec localRoot remoteRoot tree.entries tree.valid).imp ?_ ?_
  · rintro ⟨hlisted, notes, hwalk⟩
    exact ⟨hlisted, notes, by rw [walkLocalTree, hwalk]; rfl⟩
  · rintro ⟨hlisted, error, hwalk⟩
    exact ⟨hlisted, error, by rw [walkLocalTree, hwalk]⟩

/-- A tree that can be read is planned as it should be, whatever the server is. -/
theorem covers_walk (tree : LocalTree) (hlisted : Listed tree.entries)
    (localRoot remoteRoot : OsPath) : ∃ plan notes,
      walkLocalTree localRoot remoteRoot tree.entries = .ok (plan, notes) ∧
        Covers tree.entries localRoot remoteRoot plan := by
  obtain ⟨-, notes, hwalk⟩ | ⟨hbroken, -⟩ := walkLocalTree_spec tree localRoot remoteRoot
  · exact ⟨_, notes, hwalk, covers_found tree.valid localRoot remoteRoot⟩
  · exact absurd hlisted hbroken

end Uploads

/-- Text without characters beyond ASCII. -/
def ascii (text : String) : OsPath := text.toList.map fun c => UInt8.ofNat c.toNat

/-- A server that refuses each folder again with the same text. -/
def answering (message : String) : Session String :=
  ⟨id, [], fun _ _ => message, fun _ => some 3, fun _ => [3], fun _ => false⟩

/-- A folder `d` with a file `f`. -/
def sampleTree : LocalTree where
  entries := [.directory (ascii "d") [.file (ascii "f")]]
  valid := by
    have hd : ValidName (ascii "d") := ⟨by decide, by decide, by decide, by decide⟩
    have hf : ValidName (ascii "f") := ⟨by decide, by decide, by decide, by decide⟩
    exact ⟨⟨hd, hf, by simp, trivial⟩, by simp, trivial⟩

end Tethra.FolderUploads
