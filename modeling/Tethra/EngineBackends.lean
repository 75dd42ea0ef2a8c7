import Tethra.ActionRelations
import Tethra.SyncEngine

set_option autoImplicit false

/-!
# The engine over two backends

The engine reaches a backend only through the four methods of the trait, so two backends whose
calls are related have related syncs.
-/
namespace Tethra.EngineBackends
open ActionRelations AtomicPrograms AuthenticatedEncryption Base64Strings StatefulActions
open SyncEngine SyncFileBackend SyncItems VaultCrypto VaultState VaultTypes
open StatefulActions.Action (focus)

section Engines
variable {β β' : Type}

def engineAction {α : Type} (m : Action Engine Error α) : Action (Engine × β) Error α :=
  focus Prod.fst (fun e s => (e, s.2)) m

/-- The engine's own actions and the four calls are related. -/
structure Calls (R : ∀ {α : Type}, Action (Engine × β) Error α → Action (Engine × β') Error α → Prop)
    (backend : SyncBackend β) (backend' : SyncBackend β') : Prop extends Congruence R where
  engine : ∀ {α : Type} (m : Action Engine Error α), R (engineAction m) (engineAction m)
  pull : ∀ since, R (backendAction (backend.pull since)) (backendAction (backend'.pull since))
  push : ∀ items, R (backendAction (backend.push items)) (backendAction (backend'.push items))
  getHeader : R (backendAction backend.getHeader) (backendAction backend'.getHeader)
  putHeader : ∀ header, R (backendAction (backend.putHeader header))
    (backendAction (backend'.putHeader header))

variable {R : ∀ {α : Type}, Action (Engine × β) Error α → Action (Engine × β') Error α → Prop}
  {backend : SyncBackend β} {backend' : SyncBackend β'} (h : Calls R backend backend')
  (aead : Aead KeyBytes) (b64 : Base64)

section Steps
include h

theorem onVault_alike {α : Type} (m : VaultM α) : Alike R (onVault m) (onVault m) :=
  .lift (h.engine (focus Engine.vault (fun v e => { e with vault := v }) m))

theorem getCursor_alike : Alike R getCursor getCursor :=
  .lift (h.engine (Action.read Engine.cursor))

theorem setCursor_alike (cursor : SyncCursor) : Alike R (setCursor cursor) (setCursor cursor) :=
  .lift (h.engine (Action.update fun e => { e with cursor := cursor }))

theorem getHeader_alike : Alike R (onBackend backend.getHeader) (onBackend backend'.getHeader) :=
  .lift h.getHeader

theorem putHeader_alike (header : SyncedVaultHeader) :
    Alike R (onBackend (backend.putHeader header)) (onBackend (backend'.putHeader header)) :=
  .lift (h.putHeader header)

theorem exportSyncHeader_alike : Alike R exportSyncHeader exportSyncHeader :=
  .bind h.toCongruence (onVault_alike h _) fun _ => .pure h.toCongruence _

theorem importSyncHeader_alike (header : SyncedVaultHeader) :
    Alike R (importSyncHeader header) (importSyncHeader header) := by
  refine .bind h.toCongruence (onVault_alike h _) fun exist => ?_
  exact .ite (.fail h.toCongruence _) (onVault_alike h _)

theorem adoptSyncHeader_alike (header : SyncedVaultHeader) :
    Alike R (adoptSyncHeader header) (adoptSyncHeader header) :=
  .bind h.toCongruence (onVault_alike h _) fun _ => onVault_alike h _

theorem listSyncEligibleItems_alike : Alike R listSyncEligibleItems listSyncEligibleItems :=
  .bind h.toCongruence (onVault_alike h _) fun _ => onVault_alike h _

theorem applyItems_alike (applied : UInt32) (items : List SyncItem) :
    Alike R (applyItems b64 applied items) (applyItems b64 applied items) := by
  induction items generalizing applied with
  | nil => exact .pure h.toCongruence _
  | cons item items ih =>
    refine .bind h.toCongruence (onVault_alike h _) fun row => .ite ?_ (ih applied)
    refine .bind h.toCongruence (.ofExcept h.toCongruence _) fun row => ?_
    exact .bind h.toCongruence (onVault_alike h _) fun _ => ih (applied + 1)

theorem publishOver_alike (header : SyncedVaultHeader) (remote : Option SyncedVaultHeader) :
    Alike R (publishOver backend header remote) (publishOver backend' header remote) := by
  cases remote with
  | none => exact putHeader_alike h header
  | some remote =>
    refine .ite (.pure h.toCongruence _) ?_
    cases header.rekeyFrom with
    | none => exact .fail h.toCongruence _
    | some rekey => exact .ite (putHeader_alike h header) (.fail h.toCongruence _)

theorem publishHeader_alike : Alike R (publishHeader backend) (publishHeader backend') := by
  refine .bind h.toCongruence (exportSyncHeader_alike h) fun header => ?_
  exact .bind h.toCongruence (getHeader_alike h) fun remote => publishOver_alike h header remote

theorem adoptRemoteRekeyIfNeeded_alike :
    Alike R (adoptRemoteRekeyIfNeeded aead backend) (adoptRemoteRekeyIfNeeded aead backend') := by
  refine .bind h.toCongruence (getHeader_alike h) fun remote => ?_
  cases remote with
  | none => exact .pure h.toCongruence _
  | some remote =>
    refine .bind h.toCongruence (exportSyncHeader_alike h) fun header => ?_
    refine .ite (.pure h.toCongruence _) ?_
    refine .bind h.toCongruence (onVault_alike h _) fun key => ?_
    refine .bind h.toCongruence (.ofExcept h.toCongruence _) fun attested => ?_
    exact .ite (adoptSyncHeader_alike h remote) (.pure h.toCongruence _)

theorem exchangeItems_alike :
    Alike R (exchangeItems b64 backend) (exchangeItems b64 backend') := by
  refine .bind h.toCongruence (getCursor_alike h) fun since => ?_
  refine .bind h.toCongruence (.lift (h.pull since)) fun pulled => ?_
  refine .bind h.toCongruence (applyItems_alike h b64 0 pulled.1) fun applied => ?_
  refine .bind h.toCongruence (listSyncEligibleItems_alike h) fun rows => ?_
  refine .bind h.toCongruence (.lift (h.push _)) fun pushed => ?_
  exact .bind h.toCongruence (setCursor_alike h _) fun _ => .pure h.toCongruence _

/-- The syncs over two backends are related as their calls are. -/
theorem syncNow_alike :
    Alike R (syncNow aead b64 backend) (syncNow aead b64 backend') := by
  refine .bind h.toCongruence (onVault_alike h _) fun unlocked => ?_
  refine .ite ?_ (.fail h.toCongruence _)
  refine .bind h.toCongruence (adoptRemoteRekeyIfNeeded_alike h aead) fun _ => ?_
  exact .bind h.toCongruence (publishHeader_alike h) fun _ => exchangeItems_alike h b64

theorem publishPasswordRekey_alike (previous : SyncedVaultHeader) :
    Alike R (publishPasswordRekey aead backend previous)
      (publishPasswordRekey aead backend' previous) := by
  refine .bind h.toCongruence (onVault_alike h _) fun key => ?_
  refine .bind h.toCongruence (exportSyncHeader_alike h) fun next => ?_
  refine .bind h.toCongruence (onVault_alike h _) fun nonce => ?_
  refine .bind h.toCongruence (.ofExcept h.toCongruence _) fun rekey => ?_
  exact putHeader_alike h _

theorem headerMatchesBackend_alike :
    Alike R (headerMatchesBackend aead backend) (headerMatchesBackend aead backend') := by
  refine .bind h.toCongruence (getHeader_alike h) fun remote => ?_
  cases remote with
  | none => exact .pure h.toCongruence _
  | some remote =>
    refine .bind h.toCongruence (exportSyncHeader_alike h) fun header => ?_
    refine .ite (.pure h.toCongruence _) ?_
    refine .bind h.toCongruence (onVault_alike h _) fun unlocked => ?_
    refine .ite ?_ (.pure h.toCongruence _)
    refine .bind h.toCongruence (onVault_alike h _) fun key => ?_
    cases key with
    | ok key => exact .ofExcept h.toCongruence _
    | error e => exact .pure h.toCongruence _

theorem bootstrapFromBackendIfNeeded_alike :
    Alike R (bootstrapFromBackendIfNeeded backend) (bootstrapFromBackendIfNeeded backend') := by
  refine .bind h.toCongruence (onVault_alike h _) fun current => ?_
  refine .ite (.pure h.toCongruence _) ?_
  refine .bind h.toCongruence (getHeader_alike h) fun remote => ?_
  cases remote with
  | none => exact .pure h.toCongruence _
  | some header =>
    exact .bind h.toCongruence (importSyncHeader_alike h header) fun _ => .pure h.toCongruence _

end Steps
end Engines
end Tethra.EngineBackends
