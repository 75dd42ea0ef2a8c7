import Mathlib.Data.List.Nodup
import Mathlib.Data.Finset.Basic

set_option autoImplicit false

/-!
# The tabs of a workspace window
-/
namespace Tethra.WorkspaceTabs

inductive TabKind where
  | terminal
  | localShell
  | sftp
  deriving DecidableEq, Repr

structure WorkspaceTab where
  sessionId : String
  hostId : String
  kind : TabKind
  connected : Bool
  projectId : Option String
  muxName : Option String
  deriving DecidableEq, Repr

namespace WorkspaceTab

/-- The tab has a shell behind it. -/
def hasShell (tab : WorkspaceTab) : Bool := tab.kind = .terminal || tab.kind = .localShell

/-- The tab `openLocal` adds. -/
def ofLocal (sessionId : String) : WorkspaceTab :=
  ⟨sessionId, "local", .localShell, true, none, none⟩

/-- The tab of a connection that is being made. -/
def pending (pendingId hostId muxName : String) : WorkspaceTab :=
  ⟨pendingId, hostId, .terminal, false, none, some muxName⟩

def opened (sessionId hostId muxName : String) : WorkspaceTab :=
  ⟨sessionId, hostId, .terminal, true, none, some muxName⟩

end WorkspaceTab

def ids (tabs : List WorkspaceTab) : List String := tabs.map WorkspaceTab.sessionId

theorem mem_ids {tabs : List WorkspaceTab} {s : String} :
    s ∈ ids tabs ↔ ∃ tab ∈ tabs, tab.sessionId = s := List.mem_map

@[simp] theorem ids_append (tabs tabs' : List WorkspaceTab) :
    ids (tabs ++ tabs') = ids tabs ++ ids tabs' := List.map_append

/-- `tabs.filter((tab) => tab.sessionId !== sessionId)`. -/
def without (sessionId : String) (tabs : List WorkspaceTab) : List WorkspaceTab :=
  tabs.filter fun tab => tab.sessionId ≠ sessionId

@[simp] theorem mem_ids_without {sessionId s : String} {tabs : List WorkspaceTab} :
    s ∈ ids (without sessionId tabs) ↔ s ∈ ids tabs ∧ s ≠ sessionId := by
  simp only [mem_ids, without, List.mem_filter, decide_eq_true_eq]
  constructor
  · rintro ⟨tab, ⟨htab, hne⟩, rfl⟩
    exact ⟨⟨tab, htab, rfl⟩, hne⟩
  · rintro ⟨⟨tab, htab, rfl⟩, hne⟩
    exact ⟨tab, ⟨htab, hne⟩, rfl⟩

/-- The tab under `sessionId` gives way to `tab`. -/
def replaceTab (sessionId : String) (tab : WorkspaceTab) (tabs : List WorkspaceTab) :
    List WorkspaceTab :=
  tabs.map fun t => if t.sessionId = sessionId then tab else t

/-- What the `closed` event of a session does to the tabs. -/
def disconnect (sessionId : String) (tabs : List WorkspaceTab) : List WorkspaceTab :=
  tabs.map fun t => if t.sessionId = sessionId then { t with connected := false } else t

@[simp] theorem ids_disconnect (sessionId : String) (tabs : List WorkspaceTab) :
    ids (disconnect sessionId tabs) = ids tabs := by
  unfold ids disconnect
  rw [List.map_map]
  refine List.map_congr_left fun tab _ => ?_
  rw [Function.comp_apply]
  split <;> rfl

theorem mem_ids_replaceTab {sessionId s : String} {tab : WorkspaceTab}
    {tabs : List WorkspaceTab} : s ∈ ids (replaceTab sessionId tab tabs) ↔
      (s ∈ ids tabs ∧ s ≠ sessionId) ∨ (sessionId ∈ ids tabs ∧ s = tab.sessionId) := by
  simp only [mem_ids, replaceTab, List.mem_map]
  constructor
  · rintro ⟨_, ⟨t, ht, rfl⟩, rfl⟩
    split
    · rename_i hid
      exact Or.inr ⟨⟨t, ht, hid⟩, rfl⟩
    · rename_i hid
      exact Or.inl ⟨⟨t, ht, rfl⟩, hid⟩
  · rintro (⟨⟨t, ht, rfl⟩, hne⟩ | ⟨⟨t, ht, hid⟩, rfl⟩)
    · exact ⟨_, ⟨t, ht, rfl⟩, by rw [if_neg hne]⟩
    · exact ⟨_, ⟨t, ht, rfl⟩, by rw [if_pos hid]⟩

end Tethra.WorkspaceTabs
