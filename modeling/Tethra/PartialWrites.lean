import Tethra.JsonTexts
import Tethra.RepositoryActions

set_option autoImplicit false

/-!
# Operations on several rows

Each row is put on its own. Between any two accesses the vault may lock itself, and any access
to the database may fail.
-/
namespace Tethra.PartialWrites
open AtomicPrograms AuthenticatedEncryption RepositoryActions RepositoryRequests StatefulActions
open VaultCrypto VaultRecords VaultRepository VaultState VaultTypes

inductive Operation where
  | createHost (request : CreateHostRequest)
  | updateHost (id : Uuid) (request : CreateHostRequest)
  | deleteHost (id : Uuid)
  | deleteProject (id : Uuid)
  | deleteIdentity (id : Uuid) (force : Bool)

def Operation.program (x : Externals) : Operation → RepositoryM Unit
  | .createHost request => (VaultRepository.Operation.createHost request).program x
  | .updateHost id request => (VaultRepository.Operation.updateHost id request).program x
  | .deleteHost id => VaultRepository.deleteHost x id
  | .deleteProject id => RunningSessions.deleteProject x id
  | .deleteIdentity id force => (VaultRepository.Operation.deleteIdentity id force).program x

/-! ## What a failing access leaves -/

/-- The rows of the items table. -/
def itemsTable (v : Vault) : KeyedTables.Table ItemRow Uuid ItemRow.id := v.db.items

/-- An access that fails has not changed the rows. -/
def Harmless {α : Type} (m : VaultM α) : Prop :=
  ∀ v e, (m v).1 = .error e → itemsTable (m v).2 = itemsTable v

abbrev EachHarmless {α : Type} (p : RepositoryM α) : Prop := p.Each fun m => Harmless m

theorem harmless_of_leaves {α : Type} {m : VaultM α} (hm : m.Leaves itemsTable) : Harmless m :=
  fun v _ _ => hm v

theorem acting_harmless : Acting fun m => Harmless m where
  requireKey := harmless_of_leaves fun v => (sameRows_requireKey v).1
  withDb f := harmless_of_leaves (leaves_withDb (fun _ _ => rfl) f)
  ofExcept r := fun _ _ _ => rfl
  fail e := fun _ _ _ => rfl
  attempt _ := fun _ _ he => by cases he
  draw supply := harmless_of_leaves fun _ => rfl
  read f := fun _ _ _ => rfl
  withDbMut g := by
    intro v e he
    obtain ⟨_, h⟩ | h := withDbMut_cases g v
    · rw [h]
      rfl
    · rw [h] at he
      cases he
  mapError {γ f m} hm := by
    intro v e he
    change (m v).1.mapError f = .error e at he
    cases hr : (m v).1 with
    | ok a =>
      rw [hr] at he
      cases he
    | error e' => exact hm v e' hr

theorem each_program (x : Externals) (op : Operation) : EachHarmless (op.program x) := by
  cases op with
  | createHost request => exact acting_harmless.operation (.createHost request)
  | updateHost id request => exact acting_harmless.operation (.updateHost id request)
  | deleteHost id => exact acting_harmless.deleteHost id
  | deleteProject id => exact acting_harmless.deleteProject id
  | deleteIdentity id force => exact acting_harmless.operation (.deleteIdentity id force)

/-! ## Operations that fail part of the way -/

/-- What happens between accesses: locks, time, other faults, but no write of a row. -/
def Ambient (env : ℕ → Vault → Vault) : Prop := ∀ n v, itemsTable (env n v) = itemsTable v

section Samples
open SecretFleets (sampleKey sampleVaultHeader)

def unlocked : Vault :=
  ⟨⟨some sampleVaultHeader, KeyedTables.Table.empty⟩, none, .unlocked sampleKey sampleKey.expose 0,
    IDLE_LOCK_DISABLED, World.quiet⟩

def hostRequest : CreateHostRequest :=
  ⟨"web", "web.example", 22, "root", some "pw", none, false, none, .auto, [], false, false⟩

/-- The identity of the new host. -/
def passwordRecord : IdentityRecord :=
  .password (World.quiet.uuidAt 0) "web password" "pw" false

def sampleTexts : JsonTexts.Samples :=
  ⟨[SessionFleets.sampleTexts.writeIdentity passwordRecord], by decide +kernel⟩

def sampleExternals : Externals :=
  sampleTexts.externals (fun _ _ => .error "no key") fun _ => .ok []

/-- The idle timer locks the vault before access `k`. -/
def lockBefore (k n : ℕ) (v : Vault) : Vault := if n = k then { v with state := .locked } else v

theorem lockBefore_ambient (k : ℕ) : Ambient (lockBefore k) := by
  intro n v
  unfold lockBefore
  split <;> rfl

end Samples

end Tethra.PartialWrites
