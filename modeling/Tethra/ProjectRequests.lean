import Tethra.RunningSessions

set_option autoImplicit false

/-! # Projects as they are created, edited and opened -/
namespace Tethra.ProjectRequests
open AtomicPrograms RepositoryRequests RunningSessions StatefulActions VaultRepository VaultState
open VaultTypes
open AtomicPrograms.Program (lift)
open StatefulActions.Action (read ofExcept)

structure CreateProjectRequest where
  name : String
  location : ProjectLocation
  defaultAgent : Option String
  assistKeyId : Option Uuid

/-- The path, on whichever machine. -/
def pathOf : ProjectLocation → String
  | .local path => path
  | .remote _ path => path

def validateProjectRequest (request : CreateProjectRequest) : Except Error Unit :=
  if isBlank request.name then .error (.invalidArgument "project name is required")
  else if isBlank (pathOf request.location) then
    .error (.invalidArgument "project path is required")
  else if request.defaultAgent.any isBlank then
    .error (.invalidArgument "default agent id must not be empty")
  else .ok ()

/-- `Project::local` and `Project::remote`. -/
def newProject (id : Uuid) (name : String) : ProjectLocation → ProjectRecord
  | .local path => ⟨id, name, .local path, none, none, none⟩
  | .remote hostId path => ⟨id, name, .remote hostId path, none, none, none⟩

section Operations
variable (x : Externals)

def getProject (id : Uuid) : RepositoryM (ProjectRecord × ItemRow) :=
  getEncryptedJson x (project x.texts) id

def putProject (id : Uuid) (version : UInt64) (value : ProjectRecord) : RepositoryM Unit :=
  putEncryptedJson x (project x.texts) id .project version false false value

def createProject (request : CreateProjectRequest) : RepositoryM ProjectSummary := do
  lift (ofExcept (validateProjectRequest request))
  let id ← lift (draw World.uuidAt)
  let created : ProjectRecord :=
    { newProject id request.name request.location with
      defaultAgent := request.defaultAgent
      assistKeyId := request.assistKeyId }
  putProject x id 1 created
  pure created

def updateProject (id : Uuid) (request : CreateProjectRequest) : RepositoryM ProjectSummary := do
  lift (ofExcept (validateProjectRequest request))
  let (record, row) ← getProject x id
  checkKind row .project "item is not a project"
  let updated : ProjectRecord :=
    { record with
      name := request.name
      location := request.location
      defaultAgent := request.defaultAgent
      assistKeyId := request.assistKeyId }
  putProject x id (row.version + 1) updated
  pure updated

def touchProjectOpened (id : Uuid) : RepositoryM ProjectSummary := do
  let (record, row) ← getProject x id
  checkKind row .project "item is not a project"
  let now ← lift (read fun v => v.world.utcNow)
  let opened : ProjectRecord := { record with lastOpened := some now }
  putProject x id (row.version + 1) opened
  pure opened

end Operations

inductive Operation where
  | createProject (request : CreateProjectRequest)
  | updateProject (id : Uuid) (request : CreateProjectRequest)
  | touchProjectOpened (id : Uuid)

/-- The operation without what it returns. -/
def Operation.program (x : Externals) : Operation → RepositoryM Unit
  | .createProject request => do let _ ← ProjectRequests.createProject x request
  | .updateProject id request => do let _ ← ProjectRequests.updateProject x id request
  | .touchProjectOpened id => do let _ ← ProjectRequests.touchProjectOpened x id

end Tethra.ProjectRequests
