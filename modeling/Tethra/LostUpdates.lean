import Tethra.RepositoryUpdates
import Tethra.SecretFleets

set_option autoImplicit false

/-!
# Updates that overtake each other

An operation writes the row it computed from the one it read, whatever is stored by then. In
a run where every written row replaces the row its task has read, no update is lost; two
tasks that read the same version leave only the later write.
-/
namespace Tethra.LostUpdates
open AtomicPrograms AuthenticatedEncryption Base64Strings KeyedTables RepositoryRequests RepositoryUpdates RowUpdates
open SecretFleets VaultRepository VaultState VaultTypes

theorem Written.mono {job : Job} {p q : ItemRow → Prop} (h : Written job p)
    (hpq : ∀ row, p row → q row) : Written job q := by
  have hany : (∃ row, p row) → ∃ row, q row := fun ⟨row, hrow⟩ => ⟨row, hpq row hrow⟩
  have hitem : ∀ id, (∃ row, p row ∧ row.id = id) → ∃ row, q row ∧ row.id = id :=
    fun id ⟨row, hrow, hid⟩ => ⟨row, hpq row hrow, hid⟩
  cases job with
  | apply item => trivial
  | operation o =>
    cases o with
    | createHost request => exact hany h
    | importSshKeyIdentity label keyBytes passphrase remember syncSecret => exact hany h
    | createApiKey request => exact hany h
    | importSshConfig contents selected => trivial
    | deleteIdentity id force => exact fun hforce => hitem id (h hforce)
    | updateHost id request => exact hitem id h
    | deleteHost id => exact hitem id h
    | renameIdentity id label => exact hitem id h
    | setIdentitySyncSecret id syncSecret => exact hitem id h
    | updateApiKey id request => exact hitem id h
    | deleteApiKey id => exact hitem id h
    | setHostTags id tags => exact hitem id h
    | touchHostConnected id => exact hitem id h
    | setKnownHostKey id known => exact hitem id h

section Runs
variable {T : Type} [DecidableEq T] {x : Externals} {key : VaultKey} {b64 : Base64}
variable {y : Board Vault Error Job T}

/-- While there are no rows, nothing can be overtaken. -/
theorem along_empty {program : Job → RepositoryM Unit} {g : T → Trace Uuid ItemRow}
    (hseen : ∀ t id old, (g t).seen id old → old = none) (steps : List (Step Vault Job T))
    (hsteps : ∀ step ∈ steps, ∀ f, step ≠ .meanwhile f)
    (hempty : ∀ n < steps.length, (run program y (steps.take n)).state.db.items.rows = []) :
    Along rows (Keyed key) (Relies x key) program Drawn y g steps := by
  induction steps generalizing y g with
  | nil => trivial
  | cons step steps ih =>
    have hnone : ∀ id, y.state.db.getItem id = none := by
      intro id
      have hrows : y.state.db.items.rows = [] := hempty 0 (Nat.succ_pos _)
      change lookup ItemRow.id id y.state.db.items.rows = none
      rw [hrows]
      rfl
    have hown : OwnIds x key y.state := by
      intro id row record hrow
      rw [hnone] at hrow
      cases hrow
    constructor
    · cases step with
      | start t job => trivial
      | meanwhile f => exact (hsteps _ List.mem_cons_self f rfl).elim
      | advance t =>
        intro job β m next _
        constructor
        · unfold Relies
          split
          · exact hown
          · trivial
        · intro r _
          exact ⟨fun old hold => (hseen t _ old hold).trans (hnone _).symm, fun _ => hnone _⟩
    · apply ih
      · intro t id old hold
        obtain hbefore | hnow := seen_watch rows hold
        · exact hseen t id old hbefore
        · exact hnow.trans (hnone id)
      · exact fun step' hstep => hsteps step' (List.mem_cons_of_mem _ hstep)
      · exact fun n hn => hempty (n + 1) (Nat.succ_lt_succ hn)

end Runs

section Samples

abbrev sampleProgram : Job → RepositoryM Unit := Job.program sampleExternals standard

def sampleBoard : Board Vault Error Job ℕ := ⟨(samplePeers.engines true).vault, fun _ => none⟩

/-- Task `t` runs alone until it has written its row. -/
def writing (t : ℕ) (o : Operation) (actions : ℕ) : List (Step Vault Job ℕ) :=
  .start t (.operation o) :: List.replicate actions (.advance t)

def creation : List (Step Vault Job ℕ) := writing 0 (.createApiKey (sampleRequest false)) 8

def optIn (syncSecret : Bool) : Operation := .updateApiKey sampleId (sampleRequest syncSecret)

/-- Task 2 reads, writes and returns between the read and the write of task 1. -/
def overtaking : List (Step Vault Job ℕ) :=
  creation ++ writing 1 (optIn true) 6 ++ writing 2 (optIn false) 13 ++
    List.replicate 8 (.advance 1)

/-- The two updates one after the other. -/
def inOrder (first second : ℕ × Operation) : List (Step Vault Job ℕ) :=
  creation ++ writing first.1 first.2 13 ++ writing second.1 second.2 13

def returned : Option (Task Vault Error Job) → Bool
  | some (.finished _ (.ok _)) => true
  | _ => false

/-- Version and `local_only` flag of the sample item after a run. -/
def flags (steps : List (Step Vault Job ℕ)) : Option (UInt64 × Bool) :=
  ((run sampleProgram sampleBoard steps).state.db.getItem sampleId).map fun row =>
    (row.version, row.localOnly)

end Samples
end Tethra.LostUpdates
