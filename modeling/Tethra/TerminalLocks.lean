import Tethra.WorkspaceTabs

set_option autoImplicit false

/-!
# The shells behind the tabs, over locks

A tab with a shell has a session in the backend, a terminal in the registry and an output handler.
Closing a tab, locking by hand and locking on idle take these down in three places. A lock keeps
the tabs of local shells.
-/
namespace Tethra.TerminalLocks
open WorkspaceTabs

/-! ## One window -/

structure Window where
  tabs : List WorkspaceTab
  /-- The registry of terminals that have not been disposed of. -/
  terminals : List String
  outputHandlers : List String
  /-- The remote sessions of the backend, and its local ones. -/
  sessions : List String
  localSessions : List String
  vaultUnlocked : Bool
  /-- `status.unlocked`, as the window knows it. -/
  statusUnlocked : Bool

/-- Nothing is open. -/
def Window.initial (unlocked : Bool) : Window := ⟨[], [], [], [], [], unlocked, unlocked⟩

/-- An operation with how it comes out. -/
inductive Operation where
  | connect (hostId : String) (forceNew : Bool) (pendingId sessionId muxName : String)
      (opens : Bool)
  | openLocal (sessionId : String) (opens : Bool)
  | closeTab (sessionId : String)
  | lockNow (vaultLocks : Bool)
  | idleLock (hadTransfers : Bool)
  | unlock
  | exited (sessionId : String)

def forget (gone ids : List String) : List String := ids.filter fun s => s ∉ gone

@[simp] theorem mem_forget {gone xs : List String} {s : String} :
    s ∈ forget gone xs ↔ s ∈ xs ∧ s ∉ gone := by
  simp [forget]

def localTabs (tabs : List WorkspaceTab) : List WorkspaceTab :=
  tabs.filter fun tab => tab.kind = .localShell

/-- The sessions of the tabs with a shell. -/
def shells (tabs : List WorkspaceTab) : List String := ids (tabs.filter WorkspaceTab.hasShell)

/-- `disposeTerminal` and `outputHandlers.current.delete`. -/
def Window.unwire (gone : List String) (w : Window) : Window :=
  { w with terminals := forget gone w.terminals, outputHandlers := forget gone w.outputHandlers }

/-- `close_terminal`. -/
def Window.closeTerminal (sessionId : String) (w : Window) : Window :=
  if sessionId ∈ w.sessions then { w with sessions := forget [sessionId] w.sessions }
  else { w with localSessions := forget [sessionId] w.localSessions }

/-- The effect on `status.unlocked`, once it is false. -/
def Window.lockEffect (w : Window) : Window :=
  { w.unwire (shells w.tabs) with tabs := localTabs w.tabs }

/-- The status the backend reports after a lock. -/
def Window.reportLocked (w : Window) : Window :=
  if w.statusUnlocked then { w with statusUnlocked := false }.lockEffect else w

def focuses (w : Window) (hostId : String) (forceNew : Bool) : Bool :=
  !forceNew && w.tabs.any fun tab => tab.hostId = hostId && tab.kind = .terminal && tab.connected

def closeTab (sessionId : String) (w : Window) : Window :=
  let closed : Window :=
    { w with
      tabs := without sessionId w.tabs
      outputHandlers := forget [sessionId] w.outputHandlers }
  if (w.tabs.find? fun tab => tab.sessionId = sessionId).any WorkspaceTab.hasShell then
    { closed with terminals := forget [sessionId] w.terminals }.closeTerminal sessionId
  else closed

/-- `lockNow` up to `vaultLock`. -/
def closeShells (w : Window) : Window :=
  { w.unwire (shells w.tabs) with
    tabs := localTabs w.tabs
    sessions := forget (shells w.tabs) w.sessions
    localSessions := forget (shells w.tabs) w.localSessions }

def step (w : Window) : Operation → Window
  | .connect hostId forceNew pendingId sessionId muxName opens =>
    if focuses w hostId forceNew then w
    else
      let painted := w.tabs ++ [.pending pendingId hostId muxName]
      if opens && w.vaultUnlocked then
        { w with
          tabs := replaceTab pendingId (.opened sessionId hostId muxName) painted
          terminals := sessionId :: w.terminals
          outputHandlers := sessionId :: w.outputHandlers
          sessions := sessionId :: w.sessions }
      else { w with tabs := without pendingId painted }
  | .openLocal sessionId opens =>
    if opens then
      { w with
        tabs := w.tabs ++ [.ofLocal sessionId]
        terminals := sessionId :: w.terminals
        outputHandlers := sessionId :: w.outputHandlers
        localSessions := sessionId :: w.localSessions }
    else w
  | .closeTab sessionId => closeTab sessionId w
  | .lockNow vaultLocks =>
    if vaultLocks then
      { closeShells w with sessions := [], vaultUnlocked := false }.reportLocked
    else { closeShells w with sessions := [] }
  | .idleLock hadTransfers =>
    -- The watcher reports only what it had to close.
    let closed := { w with sessions := [], vaultUnlocked := false }
    if !w.sessions.isEmpty || hadTransfers then closed.reportLocked else closed
  | .unlock => { w with vaultUnlocked := true, statusUnlocked := true }
  | .exited sessionId =>
    { w with
      sessions := forget [sessionId] w.sessions
      localSessions := forget [sessionId] w.localSessions
      tabs := if sessionId ∈ w.outputHandlers then disconnect sessionId w.tabs else w.tabs }

def run (operations : List Operation) (w : Window) : Window := operations.foldl step w

/-! ## Tabs that work -/

def Live (w : Window) (tab : WorkspaceTab) : Prop :=
  match tab.kind with
  | .terminal => tab.sessionId ∈ w.sessions
  | .localShell => tab.sessionId ∈ w.localSessions
  | .sftp => True

structure Backed (w : Window) (tab : WorkspaceTab) : Prop where
  live : Live w tab
  handled : tab.sessionId ∈ w.outputHandlers
  wired : tab.sessionId ∈ w.terminals

/-- Every tab that is shown as connected works. -/
def Works (w : Window) : Prop :=
  ∀ tab ∈ w.tabs, tab.hasShell = true → tab.connected = true → Backed w tab

/-- A window that knows the vault is locked has no remote session. -/
structure Sound (w : Window) : Prop where
  works : Works w
  locked : w.statusUnlocked = false → w.vaultUnlocked = false ∧ w.sessions = []

def NoLocalShell (w : Window) : Prop :=
  ∀ tab ∈ w.tabs, tab.kind = .localShell → tab.connected = false

/-- No local shell is open at a lock that the window takes part in. -/
def SparesShells (w : Window) : Operation → Prop
  | .lockNow _ => NoLocalShell w
  | .idleLock hadTransfers =>
    (!w.sessions.isEmpty || hadTransfers) = true → w.statusUnlocked = true → NoLocalShell w
  | _ => True

theorem Backed.mono {w w' : Window} {tab : WorkspaceTab} (h : Backed w tab)
    (hsessions : tab.sessionId ∈ w.sessions → tab.sessionId ∈ w'.sessions)
    (hlocal : tab.sessionId ∈ w.localSessions → tab.sessionId ∈ w'.localSessions)
    (hhandlers : tab.sessionId ∈ w.outputHandlers → tab.sessionId ∈ w'.outputHandlers)
    (hterminals : tab.sessionId ∈ w.terminals → tab.sessionId ∈ w'.terminals) :
    Backed w' tab := by
  refine ⟨?_, hhandlers h.handled, hterminals h.wired⟩
  have hlive := h.live
  unfold Live at hlive ⊢
  split
  · rename_i hkind
    rw [hkind] at hlive
    exact hsessions hlive
  · rename_i hkind
    rw [hkind] at hlive
    exact hlocal hlive
  · trivial

theorem mem_localTabs {tabs : List WorkspaceTab} {tab : WorkspaceTab} :
    tab ∈ localTabs tabs ↔ tab ∈ tabs ∧ tab.kind = .localShell := by
  simp [localTabs]

theorem mem_without {tabs : List WorkspaceTab} {tab : WorkspaceTab} {s : String} :
    tab ∈ without s tabs ↔ tab ∈ tabs ∧ tab.sessionId ≠ s := by
  simp [without]

/-- With only tabs of shells that have exited, there is nothing to back. -/
theorem works_of_noLocalShell {w w' : Window} (h : NoLocalShell w)
    (htabs : ∀ tab ∈ w'.tabs, tab ∈ w.tabs ∧ tab.kind = .localShell) : Works w' := by
  intro tab htab _ hconnected
  obtain ⟨hmem, hkind⟩ := htabs tab htab
  rw [h tab hmem hkind] at hconnected
  cases hconnected

/-! ## One operation -/

section Operations
variable {w : Window}

theorem sound_connect (h : Sound w) (hostId : String) (forceNew : Bool)
    (pendingId sessionId muxName : String) (opens : Bool) :
    Sound (step w (.connect hostId forceNew pendingId sessionId muxName opens)) := by
  simp only [step]
  split
  · exact h
  · split
    · rename_i hopens
      rw [Bool.and_eq_true] at hopens
      refine ⟨fun tab htab hshell hconnected => ?_, fun hlocked => ?_⟩
      · obtain ⟨t, ht, rfl⟩ := List.mem_map.1 htab
        by_cases hid : t.sessionId = pendingId
        · rw [if_pos hid]
          exact ⟨List.mem_cons_self, List.mem_cons_self, List.mem_cons_self⟩
        · rw [if_neg hid] at hshell hconnected ⊢
          obtain hold | hnew := List.mem_append.1 ht
          · exact (h.works t hold hshell hconnected).mono (List.mem_cons_of_mem _) id
              (List.mem_cons_of_mem _) (List.mem_cons_of_mem _)
          · rw [List.mem_singleton.1 hnew] at hconnected
            cases hconnected
      · rw [(h.locked hlocked).1] at hopens
        cases hopens.2
    · refine ⟨fun tab htab hshell hconnected => ?_, h.locked⟩
      obtain ⟨hmem, -⟩ := mem_without.1 htab
      obtain hold | hnew := List.mem_append.1 hmem
      · exact (h.works tab hold hshell hconnected).mono id id id id
      · rw [List.mem_singleton.1 hnew] at hconnected
        cases hconnected

theorem sound_openLocal (h : Sound w) (sessionId : String) (opens : Bool) :
    Sound (step w (.openLocal sessionId opens)) := by
  simp only [step]
  split
  · refine ⟨fun tab htab hshell hconnected => ?_, h.locked⟩
    obtain hold | hnew := List.mem_append.1 htab
    · exact (h.works tab hold hshell hconnected).mono id (List.mem_cons_of_mem _)
        (List.mem_cons_of_mem _) (List.mem_cons_of_mem _)
    · rw [List.mem_singleton.1 hnew]
      exact ⟨List.mem_cons_self, List.mem_cons_self, List.mem_cons_self⟩
  · exact h

theorem sound_closeTab (h : Sound w) (sessionId : String) :
    Sound (step w (.closeTab sessionId)) := by
  have hkeep : ∀ {tab : WorkspaceTab} {xs : List String}, tab.sessionId ≠ sessionId →
      tab.sessionId ∈ xs → tab.sessionId ∈ forget [sessionId] xs := by
    intro tab xs hne hmem
    exact mem_forget.2 ⟨hmem, fun h => hne (List.mem_singleton.1 h)⟩
  simp only [step, closeTab]
  split
  · unfold Window.closeTerminal
    split
    · refine ⟨fun tab htab hshell hconnected => ?_, fun hlocked => ?_⟩
      · obtain ⟨hmem, hne⟩ := mem_without.1 htab
        exact (h.works tab hmem hshell hconnected).mono (hkeep hne) id (hkeep hne) (hkeep hne)
      · obtain ⟨hvault, hsessions⟩ := h.locked hlocked
        refine ⟨hvault, ?_⟩
        change forget [sessionId] w.sessions = []
        rw [hsessions]
        rfl
    · refine ⟨fun tab htab hshell hconnected => ?_, h.locked⟩
      obtain ⟨hmem, hne⟩ := mem_without.1 htab
      exact (h.works tab hmem hshell hconnected).mono id (hkeep hne) (hkeep hne) (hkeep hne)
  · refine ⟨fun tab htab hshell hconnected => ?_, h.locked⟩
    obtain ⟨hmem, hne⟩ := mem_without.1 htab
    exact (h.works tab hmem hshell hconnected).mono id id (hkeep hne) id

theorem sound_lockNow (h : Sound w) (vaultLocks : Bool) (hspares : NoLocalShell w) :
    Sound (step w (.lockNow vaultLocks)) := by
  simp only [step]
  split
  · unfold Window.reportLocked
    split
    · refine ⟨works_of_noLocalShell hspares fun tab htab => ?_, fun _ => ⟨rfl, rfl⟩⟩
      exact mem_localTabs.1 (mem_localTabs.1 htab).1
    · exact ⟨works_of_noLocalShell hspares fun tab htab => mem_localTabs.1 htab,
        fun _ => ⟨rfl, rfl⟩⟩
  · exact ⟨works_of_noLocalShell hspares fun tab htab => mem_localTabs.1 htab,
      fun hlocked => ⟨(h.locked hlocked).1, rfl⟩⟩

theorem sound_idleLock (h : Sound w) (hadTransfers : Bool)
    (hspares : (!w.sessions.isEmpty || hadTransfers) = true → w.statusUnlocked = true →
      NoLocalShell w) : Sound (step w (.idleLock hadTransfers)) := by
  have hquiet : w.sessions = [] → Works { w with sessions := [], vaultUnlocked := false } := by
    intro hsessions tab htab hshell hconnected
    exact (h.works tab htab hshell hconnected).mono (fun hmem => by rwa [hsessions] at hmem)
      id id id
  simp only [step]
  split
  · rename_i hreports
    unfold Window.reportLocked
    split
    · rename_i hunlocked
      exact ⟨works_of_noLocalShell (hspares hreports hunlocked)
        fun tab htab => mem_localTabs.1 htab, fun _ => ⟨rfl, rfl⟩⟩
    · rename_i hlocked
      exact ⟨hquiet (h.locked (Bool.eq_false_iff.2 hlocked)).2, fun _ => ⟨rfl, rfl⟩⟩
  · rename_i hsilent
    refine ⟨hquiet ?_, fun _ => ⟨rfl, rfl⟩⟩
    rw [Bool.or_eq_true, not_or, Bool.not_eq_true', Bool.not_eq_false] at hsilent
    exact List.isEmpty_iff.1 hsilent.1

theorem sound_exited (h : Sound w) (sessionId : String) :
    Sound (step w (.exited sessionId)) := by
  refine ⟨fun tab htab hshell hconnected => ?_, fun hlocked => ?_⟩
  · have hother : tab ∈ w.tabs ∧ tab.sessionId ≠ sessionId := by
      simp only [step] at htab
      split at htab
      · obtain ⟨t, ht, rfl⟩ := List.mem_map.1 htab
        split at hconnected
        · cases hconnected
        · rename_i hne
          rw [if_neg hne]
          exact ⟨ht, hne⟩
      · rename_i hunhandled
        refine ⟨htab, ?_⟩
        rintro rfl
        exact hunhandled (h.works tab htab hshell hconnected).handled
    have hkeep : ∀ {xs : List String}, tab.sessionId ∈ xs →
        tab.sessionId ∈ forget [sessionId] xs := fun hmem =>
      mem_forget.2 ⟨hmem, fun h => hother.2 (List.mem_singleton.1 h)⟩
    exact (h.works tab hother.1 hshell hconnected).mono hkeep hkeep id id
  · obtain ⟨hvault, hsessions⟩ := h.locked hlocked
    refine ⟨hvault, ?_⟩
    change forget [sessionId] w.sessions = []
    rw [hsessions]
    rfl

theorem sound_step (h : Sound w) {op : Operation} (hspares : SparesShells w op) :
    Sound (step w op) := by
  cases op with
  | connect hostId forceNew pendingId sessionId muxName opens =>
    exact sound_connect h hostId forceNew pendingId sessionId muxName opens
  | openLocal sessionId opens => exact sound_openLocal h sessionId opens
  | closeTab sessionId => exact sound_closeTab h sessionId
  | lockNow vaultLocks => exact sound_lockNow h vaultLocks hspares
  | idleLock hadTransfers => exact sound_idleLock h hadTransfers hspares
  | unlock =>
    refine ⟨fun tab htab hshell hconnected => ?_, nofun⟩
    exact (h.works tab htab hshell hconnected).mono id id id id
  | exited sessionId => exact sound_exited h sessionId

/-- A lock leaves the tab of a local shell without its handler. -/
theorem not_works_of_shell {op : Operation} (h : ¬ SparesShells w op) : ¬ Works (step w op) := by
  -- The tab stays, shown as connected, and its handler is gone.
  have hdead : ∀ {w' : Window}, ¬ NoLocalShell w →
      (∀ tab ∈ localTabs w.tabs, tab ∈ w'.tabs) →
      (∀ s ∈ shells w.tabs, s ∉ w'.outputHandlers) → ¬ Works w' := by
    intro w' hshell htabs hgone hworks
    simp only [NoLocalShell, not_forall] at hshell
    obtain ⟨tab, htab, hkind, hconnected⟩ := hshell
    have hhas : tab.hasShell = true := by
      simp only [WorkspaceTab.hasShell, hkind]
      rfl
    refine hgone tab.sessionId (List.mem_map_of_mem (List.mem_filter.2 ⟨htab, hhas⟩)) ?_
    exact (hworks tab (htabs tab (mem_localTabs.2 ⟨htab, hkind⟩)) hhas
      (Bool.eq_true_of_not_eq_false hconnected)).handled
  have hforgotten : ∀ {s : String} {xs : List String}, s ∈ shells w.tabs →
      s ∉ forget (shells w.tabs) xs := fun hs hmem => (mem_forget.1 hmem).2 hs
  cases op with
  | lockNow vaultLocks =>
    simp only [step]
    split
    · unfold Window.reportLocked
      split
      · refine hdead h (fun tab htab => ?_) fun s hs hmem => ?_
        · exact mem_localTabs.2 ⟨htab, (mem_localTabs.1 htab).2⟩
        · exact hforgotten hs (mem_forget.1 hmem).1
      · exact hdead h (fun tab htab => htab) fun s hs => hforgotten hs
    · exact hdead h (fun tab htab => htab) fun s hs => hforgotten hs
  | idleLock hadTransfers =>
    simp only [SparesShells, Classical.not_imp] at h
    obtain ⟨hreports, hunlocked, hshell⟩ := h
    simp only [step, hreports, if_true, Window.reportLocked, hunlocked]
    exact hdead hshell (fun tab htab => htab) fun s hs => hforgotten hs
  | connect | openLocal | closeTab | unlock | exited => exact (h trivial).elim

end Operations

/-! ## Runs -/

theorem run_append (operations : List Operation) (op : Operation) (w : Window) :
    run (operations ++ [op]) w = step (run operations w) op := List.foldl_append

/-- The tabs work in every state of a run exactly if no lock finds a local shell open. -/
theorem tabs_work (unlocked : Bool) (operations : List Operation) :
    (∀ before op rest, operations = before ++ op :: rest →
      SparesShells (run before (.initial unlocked)) op) ↔
    ∀ before rest, operations = before ++ rest → Works (run before (.initial unlocked)) := by
  constructor
  · intro hspares before
    suffices hsound : ∀ rest, operations = before ++ rest →
        Sound (run before (.initial unlocked)) from fun rest heq => (hsound rest heq).works
    induction before using List.reverseRecOn with
    | nil =>
      intro rest _
      exact ⟨fun tab htab => (by cases htab), fun hlocked => ⟨hlocked, rfl⟩⟩
    | append_singleton before op ih =>
      intro rest heq
      rw [List.append_assoc, List.singleton_append] at heq
      rw [run_append]
      exact sound_step (ih _ heq) (hspares before op rest heq)
  · intro hworks before op rest heq
    by_contra hshell
    refine not_works_of_shell hshell ?_
    rw [← run_append]
    exact hworks (before ++ [op]) rest (by rw [heq, List.append_assoc, List.singleton_append])

/-- Locking by hand with a local shell open leaves its tab, shown as connected, without a
session, a handler and a terminal. -/
theorem tabs_work_fails :
    ¬ ∀ (unlocked : Bool) (operations : List Operation), Works (run operations (.initial unlocked))
    := by
  intro hall
  have hworks := hall true [.openLocal "local-1" true, .lockNow true, .unlock] (.ofLocal "local-1")
    List.mem_cons_self rfl rfl
  have hhandlers : (run [.openLocal "local-1" true, .lockNow true, .unlock]
      (.initial true)).outputHandlers = [] := by decide
  have hhandled := hworks.handled
  rw [hhandlers] at hhandled
  cases hhandled

end Tethra.TerminalLocks
