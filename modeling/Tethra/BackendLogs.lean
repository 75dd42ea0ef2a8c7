import Tethra.SyncFileBackend

set_option autoImplicit false

/-!
# A backend with a record of its calls

The record takes nothing away and changes no answer.
-/
namespace Tethra.BackendLogs
open StampedRegisters StatefulActions SyncFileBackend SyncItems VaultTypes

/-- One call by device `d`, with its outcome. -/
inductive Call (D : Type) where
  | pull (d : D) (since : SyncCursor) (outcome : Except Error (List SyncItem × SyncCursor))
  | push (d : D) (items : List SyncItem) (outcome : Except Error SyncCursor)
  | getHeader (d : D) (outcome : Except Error (Option SyncedVaultHeader))
  | putHeader (d : D) (header : SyncedVaultHeader) (outcome : Except Error Unit)

/-- The latest call comes first. -/
structure Logged (D β : Type) where
  store : β
  calls : List (Call D)

section Logs
variable {D β α : Type}

def logCall (m : Action β Error α) (call : Except Error α → Call D) :
    Action (Logged D β) Error α := fun s =>
  ((m s.store).1, ⟨(m s.store).2, call (m s.store).1 :: s.calls⟩)

def logged (d : D) (backend : SyncBackend β) : SyncBackend (Logged D β) where
  pull since := logCall (backend.pull since) (.pull d since)
  push items := logCall (backend.push items) (.push d items)
  getHeader := logCall backend.getHeader (.getHeader d)
  putHeader header := logCall (backend.putHeader header) (.putHeader d header)

/-- Every item handed to a push. -/
def Passed (calls : List (Call D)) (item : SyncItem) : Prop :=
  ∃ d items outcome, .push d items outcome ∈ calls ∧ item ∈ items

end Logs

/-- The backend holds what was pushed into it and serves what it holds. -/
structure Serves {β : Type} (backend : SyncBackend β) (holds : β → SyncItem → Prop) : Prop where
  pull : ∀ since b item, holds (backend.pull since b).2 item → holds b item
  pulled : ∀ since b items cursor, (backend.pull since b).1 = .ok (items, cursor) →
    ∀ item ∈ items, holds b item
  push : ∀ items b item, holds (backend.push items b).2 item → holds b item ∨ item ∈ items
  getHeader : ∀ b item, holds (backend.getHeader b).2 item → holds b item
  putHeader : ∀ header b item, holds (backend.putHeader header b).2 item → holds b item

private theorem holds_of_items {f g : FileBackend} (h : g.items = f.items) {item : SyncItem}
    (hitem : g.Holds item) : f.Holds item := by
  rwa [FileBackend.Holds, h] at hitem

theorem fileBackend_serves : Serves fileBackend FileBackend.Holds where
  pull since b item := holds_of_items (FileBackend.items_of_stored (FileBackend.leaves_pull since b))
  pulled since b items cursor hpull item hitem := by
    obtain ⟨-, -, hnone, hall⟩ := FileBackend.pull_eq_ok (Prod.ext hpull rfl)
    by_cases hge : since.parseRevision ≥ b.revision
    · rw [hnone hge] at hitem
      cases hitem
    · exact (hall (UInt64.not_le.1 hge) item).1 hitem
  push items b item hitem := by
    obtain ⟨done, hpre, hoff, -⟩ := FileBackend.push_spec items b
    exact (hoff.holds item hitem).imp_right fun h => hpre.subset h
  getHeader b item := holds_of_items (FileBackend.items_of_stored (FileBackend.leaves_getHeader b))
  putHeader header b item := holds_of_items (FileBackend.putHeader_spec header b).1

end Tethra.BackendLogs
