import Tethra.RunningSessions

set_option autoImplicit false

/-!
# The actions of the repository

What holds of the few actions that the operations are made of holds of every action of every
operation.
-/
namespace Tethra.RepositoryActions
open AtomicPrograms AuthenticatedEncryption JsonValues RepositoryRequests RepositoryUpdates StatefulActions
open VaultRecords VaultRepository VaultState VaultTypes
open AtomicPrograms.Program (lift fail)
open StatefulActions.Action (read ofExcept)

/-- `P` holds of every action of a program that reads, draws and writes. -/
structure Acting (P : ∀ {γ : Type}, VaultM γ → Prop) : Prop extends Reading P where
  draw : ∀ {γ : Type} (supply : World → ℕ → γ), P (VaultState.draw supply)
  read : ∀ {γ : Type} (f : Vault → γ), P (Action.read f : VaultM γ)
  withDbMut : ∀ g : VaultDb → VaultDb, P (VaultState.withDbMut g)
  mapError : ∀ {γ : Type} {f : Error → Error} {m : VaultM γ}, P m → P (m.mapError f)

variable {P : ∀ {γ : Type}, VaultM γ → Prop} (hP : Acting P) {x : Externals} {α : Type}
include hP

theorem Acting.drawn (supply : World → ℕ → α) :
    (lift (VaultState.draw supply) : RepositoryM α).Each P := Program.Each.lift (hP.draw supply)

theorem Acting.reads (f : Vault → α) : (lift (Action.read f) : RepositoryM α).Each P :=
  Program.Each.lift (hP.read f)

theorem Acting.keyed : (lift VaultState.requireKey : RepositoryM _).Each P :=
  Program.Each.lift hP.requireKey

theorem Acting.queried (f : VaultDb → Except Error α) :
    (lift (VaultState.withDb f) : RepositoryM α).Each P := Program.Each.lift (hP.withDb f)

theorem Acting.mapped {f : Error → Error} {p : RepositoryM α} (hp : p.Each P) :
    (p.mapError f).Each P := Program.Each.mapError (fun hm => hP.mapError hm) hp

theorem Acting.put (f : Format α) (id : Uuid) (kind : ItemKind) (version : UInt64)
    (localOnly deleted : Bool) (value : α) :
    (putEncryptedJson x f id kind version localOnly deleted value).Each P :=
  hP.keyed.bind fun _ => (hP.decoded _).bind fun _ => (hP.drawn _).bind fun _ =>
    (hP.decoded _).bind fun _ => (hP.reads _).bind fun _ => Program.Each.lift (hP.withDbMut _)

theorem Acting.checkKind (row : ItemRow) (kind : ItemKind) (message : String) :
    (checkKind row kind message).Each P := by
  unfold VaultRepository.checkKind
  split
  · exact .pure _
  · exact hP.failed _

theorem Acting.createHost (request : CreateHostRequest) : (createHost x request).Each P := by
  refine (hP.drawn _).bind fun hostId => (hP.decoded _).bind fun color =>
    Program.Each.bind ?_ fun identityId => (hP.put _ _ _ _ _ _ _).bind fun _ =>
      hP.summarizeHost _
  unfold createHostIdentity
  split
  · refine (hP.mapped (hP.get _ _)).bind fun found => ?_
    dsimp only
    split
    · exact .pure _
    · exact hP.failed _
  · exact (hP.drawn _).bind fun _ => (hP.put _ _ _ _ _ _ _).bind fun _ => .pure _
  · exact .pure _

theorem Acting.updateHostIdentity (record : HostRecord) (request : CreateHostRequest) :
    (updateHostIdentity x record request).Each P := by
  unfold VaultRepository.updateHostIdentity
  split
  · exact (hP.mapped (hP.get _ _)).bind fun _ => .pure _
  · refine Program.Each.bind ?_ fun version => (hP.put _ _ _ _ _ _ _).bind fun _ => .pure _
    refine (hP.find _).bind fun found => ?_
    cases found <;> exact .pure _
  · exact (hP.drawn _).bind fun _ => (hP.put _ _ _ _ _ _ _).bind fun _ => .pure _
  · refine (hP.attempted (hP.get _ _)).bind fun found => ?_
    split
    · split
      · exact .pure _
      · exact (hP.put _ _ _ _ _ _ _).bind fun _ => .pure _
    · exact .pure _
  · exact .pure _

theorem Acting.updateHost (id : Uuid) (request : CreateHostRequest) :
    (updateHost x id request).Each P :=
  (hP.get _ _).bind fun _ => (hP.checkKind _ _ _).bind fun _ => (hP.decoded _).bind fun _ =>
    (hP.updateHostIdentity _ _).bind fun _ => (hP.put _ _ _ _ _ _ _).bind fun _ =>
      hP.summarizeHost _

theorem Acting.deleteHost (id : Uuid) : (deleteHost x id).Each P := by
  refine (hP.get _ _).bind fun found => Program.Each.bind ?_ fun _ => hP.put _ _ _ _ _ _ _
  unfold deleteHostIdentity
  split
  · exact .pure _
  · refine (hP.hostsUsingIdentity _).bind fun dependents => ?_
    split
    · refine (hP.attempted (hP.get _ _)).bind fun found => ?_
      split
      · exact hP.put _ _ _ _ _ _ _
      · exact .pure _
    · exact .pure _

theorem Acting.setHostTags (id : Uuid) (tags : List String) : (setHostTags x id tags).Each P :=
  (hP.get _ _).bind fun _ => (hP.checkKind _ _ _).bind fun _ =>
    (hP.put _ _ _ _ _ _ _).bind fun _ => hP.summarizeHost _

theorem Acting.touchHostConnected (id : Uuid) : (touchHostConnected x id).Each P :=
  (hP.get _ _).bind fun _ => (hP.checkKind _ _ _).bind fun _ => (hP.reads _).bind fun _ =>
    (hP.put _ _ _ _ _ _ _).bind fun _ => hP.summarizeHost _

theorem Acting.setKnownHostKey (id : Uuid) (key : KnownHostKey) :
    (setKnownHostKey x id key).Each P :=
  (hP.mapped (hP.get _ _)).bind fun _ => hP.put _ _ _ _ _ _ _

theorem Acting.assignIds (labels : List String) (ids : List (String × Uuid)) :
    (assignIds labels ids).Each P := by
  induction labels generalizing ids with
  | nil => exact .pure _
  | cons label labels ih =>
    unfold VaultRepository.assignIds
    split
    · exact ih ids
    · exact (hP.drawn _).bind fun id => ih _

theorem Acting.importRows (key : VaultKey) (parsed : List SshConfigHost)
    (existing : List (String × HostRecord × ItemRow)) (ids : List (String × Uuid))
    (labels : List String) : (importRows x key parsed existing ids labels).Each P := by
  induction labels with
  | nil => exact .pure _
  | cons label labels ih =>
    unfold VaultRepository.importRows
    split
    · exact hP.failed _
    · exact hP.failed _
    · exact (hP.decoded _).bind fun _ => (hP.drawn _).bind fun _ => (hP.decoded _).bind fun _ =>
        (hP.reads _).bind fun _ => ih.bind fun _ => .pure _

theorem Acting.importSshConfig (contents : String) (selected : List String) :
    (importSshConfig x contents selected).Each P :=
  (hP.decoded _).bind fun _ => (hP.decoded _).bind fun _ => hP.keyed.bind fun _ =>
    (hP.queried _).bind fun _ => (hP.decoded _).bind fun _ => (hP.assignIds _ _).bind fun _ =>
      (hP.importRows _ _ _ _ _).bind fun _ =>
        (Program.Each.lift (hP.withDbMut _)).bind fun _ => .pure _

theorem Acting.requireLabel (label : String) : (requireLabel label).Each P := by
  unfold VaultRepository.requireLabel
  split
  · exact hP.failed _
  · exact .pure _

theorem Acting.importSshKeyIdentity (label : String) (keyBytes : Bytes)
    (passphrase : Option String) (rememberPassphrase syncSecret : Bool) :
    (importSshKeyIdentity x label keyBytes passphrase rememberPassphrase syncSecret).Each P := by
  refine (hP.requireLabel _).bind fun label => (hP.decoded _).bind fun _ => ?_
  split
  · exact hP.failed _
  · exact (hP.drawn _).bind fun _ => (hP.reads _).bind fun _ =>
      (hP.put _ _ _ _ _ _ _).bind fun _ => hP.identityToSummary _

theorem Acting.renameIdentity (id : Uuid) (label : String) :
    (renameIdentity x id label).Each P :=
  (hP.requireLabel _).bind fun _ => (hP.get _ _).bind fun _ => (hP.checkKind _ _ _).bind fun _ =>
    (hP.put _ _ _ _ _ _ _).bind fun _ => hP.identityToSummary _

theorem Acting.setIdentitySyncSecret (id : Uuid) (syncSecret : Bool) :
    (setIdentitySyncSecret x id syncSecret).Each P :=
  (hP.get _ _).bind fun _ => (hP.checkKind _ _ _).bind fun _ =>
    (hP.put _ _ _ _ _ _ _).bind fun _ => hP.identityToSummary _

theorem Acting.detachHosts (hosts : List (Uuid × String)) : (detachHosts x hosts).Each P := by
  induction hosts with
  | nil => exact .pure _
  | cons host hosts ih =>
    exact (hP.get _ _).bind fun _ => (hP.put _ _ _ _ _ _ _).bind fun _ => ih

theorem Acting.deleteIdentity (id : Uuid) (force : Bool) : (deleteIdentity x id force).Each P := by
  refine (hP.get _ _).bind fun found => (hP.checkKind _ _ _).bind fun _ =>
    (hP.hostsUsingIdentity _).bind fun dependents => ?_
  split
  · exact .pure _
  · exact (hP.detachHosts _).bind fun _ => (hP.put _ _ _ _ _ _ _).bind fun _ => .pure _

theorem Acting.deleteProject (id : Uuid) : (RunningSessions.deleteProject x id).Each P := by
  refine (hP.get _ _).bind fun found => (hP.checkKind _ _ _).bind fun _ =>
    Program.Each.bind ?_ fun session => Program.Each.bind ?_ fun _ => hP.put _ _ _ _ _ _ _
  · exact hP.keyed.bind fun _ => (hP.queried _).bind fun _ => hP.decoded _
  · cases session with
    | some session =>
      exact (hP.get _ _).bind fun _ => (hP.checkKind _ _ _).bind fun _ => hP.put _ _ _ _ _ _ _
    | none => exact .pure _

theorem Acting.operation (op : Operation) : (op.program x).Each P := by
  cases op with
  | createHost request => exact (hP.createHost request).bind fun _ => .pure _
  | updateHost id request => exact (hP.updateHost id request).bind fun _ => .pure _
  | deleteHost id => exact hP.deleteHost id
  | importSshKeyIdentity label keyBytes passphrase rememberPassphrase syncSecret =>
    exact (hP.importSshKeyIdentity _ _ _ _ _).bind fun _ => .pure _
  | renameIdentity id label => exact (hP.renameIdentity id label).bind fun _ => .pure _
  | setIdentitySyncSecret id syncSecret =>
    exact (hP.setIdentitySyncSecret id syncSecret).bind fun _ => .pure _
  | deleteIdentity id force => exact (hP.deleteIdentity id force).bind fun _ => .pure _
  | createApiKey request =>
    exact ((hP.decoded _).bind fun _ => (hP.drawn _).bind fun _ =>
      (hP.put _ _ _ _ _ _ _).bind fun _ => .pure _).bind fun _ => .pure _
  | updateApiKey id request =>
    exact ((hP.decoded _).bind fun _ => (hP.get _ _).bind fun _ =>
      (hP.checkKind _ _ _).bind fun _ => (hP.put _ _ _ _ _ _ _).bind fun _ =>
        .pure _).bind fun _ => .pure _
  | deleteApiKey id =>
    exact (hP.get _ _).bind fun _ => (hP.checkKind _ _ _).bind fun _ => hP.put _ _ _ _ _ _ _
  | importSshConfig contents selected =>
    exact (hP.importSshConfig contents selected).bind fun _ => .pure _
  | setHostTags id tags => exact (hP.setHostTags id tags).bind fun _ => .pure _
  | touchHostConnected id => exact (hP.touchHostConnected id).bind fun _ => .pure _
  | setKnownHostKey id key => exact hP.setKnownHostKey id key

end Tethra.RepositoryActions
