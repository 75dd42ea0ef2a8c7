import Tethra.RandomAccessFiles

set_option autoImplicit false

/-! # The transfer queue of an SFTP tab, and the file copy it drives -/
namespace Tethra.SftpTransfers
open RandomAccessFiles

inductive Side where
  | onLocal
  | onRemote
  deriving DecidableEq, Repr

structure Place where
  side : Side
  path : String
  deriving DecidableEq, Repr

abbrev Files := Place → Option (List UInt8)

inductive TransferDirection where
  | upload
  | download
  deriving DecidableEq, Repr

structure Route where
  direction : TransferDirection
  localPath : String
  remotePath : String
  deriving DecidableEq, Repr

namespace Route

def localPlace (r : Route) : Place := ⟨.onLocal, r.localPath⟩

def remotePlace (r : Route) : Place := ⟨.onRemote, r.remotePath⟩

def source (r : Route) : Place :=
  match r.direction with
  | .upload => r.localPlace
  | .download => r.remotePlace

def target (r : Route) : Place :=
  match r.direction with
  | .upload => r.remotePlace
  | .download => r.localPlace

theorem target_ne_source (r : Route) : r.target ≠ r.source := by
  rcases r with ⟨direction, localPath, remotePath⟩
  cases direction <;> simp [source, target, localPlace, remotePlace]

end Route

inductive TransferStatus where
  | queued
  | running
  | paused
  | completed
  | failed
  | cancelled
  deriving DecidableEq, Repr

structure TransferItem where
  id : String
  route : Route
  status : TransferStatus
  bytesTransferred : ℕ
  totalBytes : Option ℕ
  offset : ℕ
  error : Option String
  deriving DecidableEq, Repr

inductive EventKind where
  | started
  | progress
  | paused
  | failed
  | completed
  deriving DecidableEq, Repr

structure TransferEvent where
  kind : EventKind
  bytesTransferred : ℕ
  totalBytes : Option ℕ
  message : Option String
  deriving DecidableEq, Repr

inductive Phase where
  | starting
  | copying (position : ℕ)
  | ended (result : Except String ℕ)
  deriving DecidableEq

/-- The one `sftp_transfer` call under way and its `TransferControl`. -/
structure Active where
  id : String
  route : Route
  offset : ℕ
  phase : Phase
  cancelled : Bool
  deriving DecidableEq

structure Runner where
  items : List TransferItem
  active : Option Active
  files : Files

def CHUNK : ℕ := 64 * 1024

def CANCELLED : String := "transfer cancelled"

def content (files : Files) (place : Place) : List UInt8 := (files place).getD []

def modifyItem (id : String) (f : TransferItem → TransferItem) (items : List TransferItem) :
    List TransferItem :=
  items.map fun item => if item.id = id then f item else item

def onEvent (event : TransferEvent) (item : TransferItem) : TransferItem :=
  let item := { item with
    bytesTransferred := event.bytesTransferred
    totalBytes := event.totalBytes.or item.totalBytes }
  match event.kind with
  | .started => item
  | .progress => if event.message.isSome then { item with error := none } else item
  | .paused => { item with
      status := .paused
      offset := item.bytesTransferred
      error := some (event.message.getD "Paused") }
  | .failed => { item with status := .failed, error := some (event.message.getD "Transfer failed") }
  | .completed => { item with
      status := .completed
      offset := item.bytesTransferred
      error := event.message.or item.error }

def applyEvent (x : Runner) (id : String) (event : TransferEvent) : Runner :=
  { x with items := modifyItem id (onEvent event) x.items }

/-- A queued item becomes the active one if there is none. -/
def pump (x : Runner) : Runner :=
  match x.active with
  | some _ => x
  | none =>
    match x.items.find? (fun item => item.status = .queued) with
    | none => x
    | some next => { x with
        active := some ⟨next.id, next.route, next.offset, .starting, false⟩
        items := modifyItem next.id (fun item => { item with status := .running }) x.items }

def enqueue (x : Runner) (id : String) (route : Route) (offset : Option ℕ) : Runner :=
  pump { x with
    items := x.items ++ [⟨id, route, .queued, offset.getD 0, none, offset.getD 0, none⟩] }

def cancelSftpTransfer (x : Runner) (id : String) : Runner :=
  { x with active := x.active.map fun a => if a.id = id then { a with cancelled := true } else a }

def pauseActive (x : Runner) : Runner :=
  match x.active with
  | none => x
  | some a => cancelSftpTransfer x a.id

def requeue (item : TransferItem) : TransferItem := { item with status := .queued, error := none }

def resume (x : Runner) (id : String) : Runner :=
  match x.items.find? (fun item => item.id = id) with
  | none => x
  | some item =>
    if item.status = .paused then pump { x with items := modifyItem id requeue x.items } else x

def retry (x : Runner) (id : String) : Runner :=
  match x.items.find? (fun item => item.id = id) with
  | none => x
  | some _ => pump { x with items := modifyItem id requeue x.items }

def cancel (x : Runner) (id : String) : Runner :=
  match x.items.find? (fun item => item.id = id) with
  | none => x
  | some item =>
    if item.status = .running ∧ x.active.map Active.id = some id then cancelSftpTransfer x id
    else { x with
      items := modifyItem id (fun item => { item with status := .cancelled }) x.items }

def clearCompleted (x : Runner) : Runner :=
  { x with items := x.items.filter fun item =>
      item.status ≠ .completed ∧ item.status ≠ .cancelled }

/-- The length of the local file, whichever way the transfer goes. -/
def partialBytes (files : Files) (route : Route) : ℕ := (content files route.localPlace).length

def lastEvent (files : Files) (a : Active) : Except String ℕ → TransferEvent
  | .ok bytes => ⟨.completed, bytes, some bytes, none⟩
  | .error message =>
    if message = CANCELLED then ⟨.paused, partialBytes files a.route, none, some CANCELLED⟩
    else ⟨.failed, a.offset, none, some message⟩

/-- The end of `sftp_transfer`: the control is dropped and the last event sent. -/
def finish (x : Runner) (a : Active) (result : Except String ℕ) : Runner :=
  applyEvent { x with active := some { a with phase := .ended result } } a.id
    (lastEvent x.files a result)

/-- From offset 0 the target is created empty, from a later one it is kept and extended. -/
def openTarget (offset : ℕ) (file : Option (List UInt8)) : List UInt8 :=
  if offset = 0 then [] else file.getD []

/-- `get_with` and `put_with` up to the loop. Without a source the call cannot open it, and
`fail` says so. -/
def openFiles (x : Runner) : Runner :=
  match x.active with
  | some a =>
    match a.phase, x.files a.route.source with
    | .starting, some _ =>
      let target := openTarget a.offset (x.files a.route.target)
      let x := applyEvent x a.id ⟨.started, a.offset, none, none⟩
      { x with
        active := some { a with phase := .copying a.offset }
        files := Function.update x.files a.route.target (some target) }
    | _, _ => x
  | none => x

def writeTarget (x : Runner) (a : Active) (position : ℕ) (chunk : List UInt8) : Runner :=
  let bytes := writeAt 0 (content x.files a.route.target) position chunk
  { x with files := Function.update x.files a.route.target (some bytes) }

/-- One round of the loop; the read returns at most `n` bytes. -/
def turn (x : Runner) (n : ℕ) : Runner :=
  match x.active with
  | some a =>
    match a.phase with
    | .copying position =>
      if a.cancelled then finish x a (.error CANCELLED)
      else
        let source := content x.files a.route.source
        let chunk := readAt source position (max 1 (min n CHUNK))
        if chunk = [] then finish x a (.ok position)
        else
          let x := writeTarget x a position chunk
          let x := { x with
            active := some { a with phase := .copying (position + chunk.length) } }
          applyEvent x a.id ⟨.progress, position + chunk.length, some source.length, none⟩
    | _ => x
  | none => x

/-- A read, a write or the connection fails; `written` bytes of the chunk in hand had reached
the target. -/
def fail (x : Runner) (written : ℕ) (message : String) : Runner :=
  match x.active with
  | some a =>
    match a.phase with
    | .starting => finish x a (.error message)
    | .copying position =>
      let chunk := readAt (content x.files a.route.source) position (min written CHUNK)
      finish (writeTarget x a position chunk) a (.error message)
    | .ended _ => x
  | none => x

def onSettled (result : Except String ℕ) (item : TransferItem) : TransferItem :=
  match result with
  | .ok _ => if item.status = .running then { item with status := .completed } else item
  | .error message =>
    if "cancelled".toList <:+: message.toList then
      { item with status := .paused, error := some "Paused" }
    else { item with status := .failed, error := some message }

/-- The awaited call returns to `pump`. -/
def settle (x : Runner) : Runner :=
  match x.active with
  | some a =>
    match a.phase with
    | .ended result =>
      pump { x with items := modifyItem a.id (onSettled result) x.items, active := none }
    | _ => x
  | none => x

inductive Step where
  | enqueue (id : String) (route : Route) (offset : Option ℕ)
  | pauseActive
  | resume (id : String)
  | cancel (id : String)
  | retry (id : String)
  | clearCompleted
  | openFiles
  | turn (n : ℕ)
  | fail (written : ℕ) (message : String)
  | settle
  | write (place : Place) (bytes : Option (List UInt8))

def perform (x : Runner) : Step → Runner
  | .enqueue id route offset => enqueue x id route offset
  | .pauseActive => pauseActive x
  | .resume id => resume x id
  | .cancel id => cancel x id
  | .retry id => retry x id
  | .clearCompleted => clearCompleted x
  | .openFiles => openFiles x
  | .turn n => turn x n
  | .fail written message => fail x written message
  | .settle => settle x
  | .write place bytes => { x with files := Function.update x.files place bytes }

def run (x : Runner) (steps : List Step) : Runner := steps.foldl perform x

end Tethra.SftpTransfers
