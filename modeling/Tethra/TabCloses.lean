import Tethra.WorkspaceTabs

set_option autoImplicit false

/-!
# Closing a tab from an old render

`closeTab` writes a list it computes from the tabs of the render its closure was made in; every
other change of the tabs is a function of the current list. A timer may call `closeTab` long after
that render.
-/
namespace Tethra.TabCloses
open WorkspaceTabs

/-! ## The tab list -/

/-- The list with the updates so far, and the lists of the renders, oldest first. -/
structure TabList where
  tabs : List WorkspaceTab
  renders : List (List WorkspaceTab)

def TabList.empty : TabList := ⟨[], [[]]⟩

/-- `tabsRef.current`. -/
def TabList.current (l : TabList) : List WorkspaceTab := l.renders.getLastD []

/-- Where an asynchronous function goes on after an `await`, or a timer fires. -/
inductive TabEvent where
  | render
  | connect (hostId : String) (forceNew : Bool) (pendingId muxName : String)
  | opened (pendingId sessionId hostId muxName : String)
  | openFailed (pendingId : String)
  | openLocal (sessionId : String)
  | moveActiveToNewWindow (sessionId : String)
  | closed (sessionId : String)
  | closeTab (sessionId : String) (render : ℕ)
  | reconnect (sessionId : String) (hostKnown : Bool) (render : ℕ)

/-- `connect` goes to the tab that is connected to the host already. -/
def focuses (l : TabList) (hostId : String) (forceNew : Bool) : Bool :=
  !forceNew && l.current.any fun tab =>
    tab.hostId = hostId && tab.kind = .terminal && tab.connected

/-- The timer finds the dead tab still there. -/
def reconnects (l : TabList) (sessionId : String) (hostKnown : Bool) : Bool :=
  hostKnown && (l.current.find? fun tab => tab.sessionId = sessionId).any fun tab => !tab.connected

/-- `closeTab` with the tabs its closure captured. -/
def closeTab (sessionId : String) (captured : Option (List WorkspaceTab)) (l : TabList) : TabList :=
  match captured with
  | some tabs => { l with tabs := without sessionId tabs }
  | none => l

def step (l : TabList) : TabEvent → TabList
  | .render => { l with renders := l.renders ++ [l.tabs] }
  | .connect hostId forceNew pendingId muxName =>
    if focuses l hostId forceNew then l
    else { l with tabs := l.tabs ++ [.pending pendingId hostId muxName] }
  | .opened pendingId sessionId hostId muxName =>
    { l with tabs := replaceTab pendingId (.opened sessionId hostId muxName) l.tabs }
  | .openFailed pendingId => { l with tabs := without pendingId l.tabs }
  | .openLocal sessionId => { l with tabs := l.tabs ++ [.ofLocal sessionId] }
  | .moveActiveToNewWindow sessionId => { l with tabs := without sessionId l.tabs }
  | .closed sessionId => { l with tabs := disconnect sessionId l.tabs }
  | .closeTab sessionId render => closeTab sessionId l.renders[render]? l
  | .reconnect sessionId hostKnown render =>
    if reconnects l sessionId hostKnown then closeTab sessionId l.renders[render]? l else l

def run (events : List TabEvent) (l : TabList) : TabList := events.foldl step l

theorem run_append (events events' : List TabEvent) (l : TabList) :
    run (events ++ events') l = run events' (run events l) := List.foldl_append

/-! ## What each event is for -/

/-- The tab that the event closes: its closure has captured a render. -/
def closes (l : TabList) : TabEvent → Option (String × List WorkspaceTab)
  | .closeTab sessionId render => l.renders[render]?.map fun captured => (sessionId, captured)
  | .reconnect sessionId hostKnown render =>
    if reconnects l sessionId hostKnown then
      l.renders[render]?.map fun captured => (sessionId, captured)
    else none
  | _ => none

/-- The tab that goes away. -/
def removes (l : TabList) : TabEvent → Option String
  | .opened pendingId _ _ _ => some pendingId
  | .openFailed pendingId => some pendingId
  | .moveActiveToNewWindow sessionId => some sessionId
  | event => (closes l event).map Prod.fst

def newIds : TabEvent → List String
  | .connect _ _ pendingId _ => [pendingId]
  | .opened _ sessionId _ _ => [sessionId]
  | .openLocal sessionId => [sessionId]
  | _ => []

/-- The list a close captured is the current one, but for the tab it closes. -/
def UpToDate (l : TabList) (event : TabEvent) : Prop :=
  ∀ sessionId captured, closes l event = some (sessionId, captured) →
    without sessionId captured = without sessionId l.tabs

/-- The update of the current list that the event is for. -/
def change (l : TabList) (event : TabEvent) (tabs : List WorkspaceTab) : List WorkspaceTab :=
  match event with
  | .render => tabs
  | .connect hostId forceNew pendingId muxName =>
    if focuses l hostId forceNew then tabs else tabs ++ [.pending pendingId hostId muxName]
  | .opened pendingId sessionId hostId muxName =>
    replaceTab pendingId (.opened sessionId hostId muxName) tabs
  | .openFailed pendingId => without pendingId tabs
  | .openLocal sessionId => tabs ++ [.ofLocal sessionId]
  | .moveActiveToNewWindow sessionId => without sessionId tabs
  | .closed sessionId => disconnect sessionId tabs
  | .closeTab .. | .reconnect .. =>
    match closes l event with
    | some (sessionId, _) => without sessionId tabs
    | none => tabs

theorem step_closes {l : TabList} {event : TabEvent} {sessionId : String}
    {captured : List WorkspaceTab} (h : closes l event = some (sessionId, captured)) :
    (step l event).tabs = without sessionId captured := by
  cases event with
  | closeTab s render =>
    obtain ⟨tabs, hrender, heq⟩ := Option.map_eq_some_iff.1 h
    cases heq
    simp only [step, hrender, closeTab]
  | reconnect s hostKnown render =>
    simp only [closes] at h
    split at h
    · rename_i hguard
      obtain ⟨tabs, hrender, heq⟩ := Option.map_eq_some_iff.1 h
      cases heq
      simp only [step, hguard, hrender, closeTab, if_true]
    · cases h
  | _ => cases h

theorem step_tabs {l : TabList} {event : TabEvent} (h : UpToDate l event) :
    (step l event).tabs = change l event l.tabs := by
  cases event with
  | render => rfl
  | connect hostId forceNew pendingId muxName =>
    simp only [step, change]
    split <;> rfl
  | opened | openFailed | openLocal | moveActiveToNewWindow | closed => rfl
  | closeTab sessionId render =>
    cases hrender : l.renders[render]? with
    | none => simp only [step, change, closes, hrender, closeTab, Option.map_none]
    | some captured =>
      have hcloses : closes l (.closeTab sessionId render) = some (sessionId, captured) := by
        simp only [closes, hrender, Option.map_some]
      rw [step_closes hcloses, h _ _ hcloses]
      simp only [change, hcloses]
  | reconnect sessionId hostKnown render =>
    cases hcloses : closes l (.reconnect sessionId hostKnown render) with
    | some close =>
      rw [step_closes hcloses, h _ _ hcloses]
      simp only [change, hcloses]
    | none =>
      simp only [change, hcloses, step]
      simp only [closes] at hcloses
      split
      · rename_i hguard
        rw [if_pos hguard, Option.map_eq_none_iff] at hcloses
        rw [hcloses]
        rfl
      · rfl

theorem mem_change {l : TabList} {event : TabEvent} {tabs : List WorkspaceTab} {s : String}
    (hs : s ∈ ids tabs) (hkeep : removes l event ≠ some s) : s ∈ ids (change l event tabs) := by
  cases event with
  | render => exact hs
  | connect hostId forceNew pendingId muxName =>
    simp only [change]
    split
    · exact hs
    · rw [ids_append]
      exact List.mem_append_left _ hs
  | opened pendingId sessionId hostId muxName =>
    exact mem_ids_replaceTab.2 (Or.inl ⟨hs, fun h => hkeep (congrArg some h.symm)⟩)
  | openFailed pendingId =>
    exact mem_ids_without.2 ⟨hs, fun h => hkeep (congrArg some h.symm)⟩
  | openLocal sessionId =>
    simp only [change, ids_append]
    exact List.mem_append_left _ hs
  | moveActiveToNewWindow sessionId =>
    exact mem_ids_without.2 ⟨hs, fun h => hkeep (congrArg some h.symm)⟩
  | closed sessionId =>
    simp only [change, ids_disconnect]
    exact hs
  | closeTab | reconnect =>
    simp only [change]
    split
    · rename_i hcloses
      exact mem_ids_without.2 ⟨hs, fun h => hkeep (by simp only [removes, hcloses, h]; rfl)⟩
    · exact hs

theorem of_mem_change {l : TabList} {event : TabEvent} {tabs : List WorkspaceTab} {s : String}
    (hs : s ∈ ids (change l event tabs)) :
    (s ∈ ids tabs ∧ removes l event ≠ some s) ∨ s ∈ newIds event := by
  have hother : ∀ {t : String}, s ∈ ids (without t tabs) → s ∈ ids tabs ∧ some t ≠ some s := by
    intro t ht
    obtain ⟨hmem, hne⟩ := mem_ids_without.1 ht
    exact ⟨hmem, fun h => hne (Option.some.inj h).symm⟩
  cases event with
  | render => exact Or.inl ⟨hs, nofun⟩
  | connect hostId forceNew pendingId muxName =>
    simp only [change] at hs
    split at hs
    · exact Or.inl ⟨hs, nofun⟩
    · rw [ids_append, List.mem_append] at hs
      exact hs.imp (fun h => ⟨h, nofun⟩) id
  | opened pendingId sessionId hostId muxName =>
    obtain ⟨hmem, hne⟩ | ⟨-, rfl⟩ := mem_ids_replaceTab.1 hs
    · exact Or.inl ⟨hmem, fun h => hne (Option.some.inj h).symm⟩
    · exact Or.inr List.mem_cons_self
  | openFailed pendingId => exact Or.inl (hother hs)
  | openLocal sessionId =>
    simp only [change, ids_append, List.mem_append] at hs
    exact hs.imp (fun h => ⟨h, nofun⟩) id
  | moveActiveToNewWindow sessionId => exact Or.inl (hother hs)
  | closed sessionId =>
    simp only [change, ids_disconnect] at hs
    exact Or.inl ⟨hs, nofun⟩
  | closeTab | reconnect =>
    simp only [change] at hs
    split at hs
    · rename_i hcloses
      simp only [removes, hcloses]
      exact Or.inl (hother hs)
    · rename_i hcloses
      simp only [removes, hcloses]
      exact Or.inl ⟨hs, nofun⟩

/-! ## Runs -/

/-- The window after some events, from its first render. -/
def after (events : List TabEvent) : TabList := run events .empty

theorem after_append (events : List TabEvent) (event : TabEvent) :
    after (events ++ [event]) = step (after events) event := run_append _ _ _

def UpToDateRun (events : List TabEvent) : Prop :=
  ∀ before event rest, events = before ++ event :: rest → UpToDate (after before) event

/-- A close takes its tab and no other; no tab is lost, and none comes back. -/
structure TabsKept (events : List TabEvent) : Prop where
  closed : ∀ before event rest sessionId captured, events = before ++ event :: rest →
    closes (after before) event = some (sessionId, captured) →
    (after (before ++ [event])).tabs = without sessionId (after before).tabs
  kept : ∀ before meanwhile rest s, events = before ++ meanwhile ++ rest →
    s ∈ ids (after before).tabs →
    (∀ first event last, meanwhile = first ++ event :: last →
      removes (after (before ++ first)) event ≠ some s) →
    s ∈ ids (after (before ++ meanwhile)).tabs
  gone : ∀ before event meanwhile rest s, events = before ++ event :: meanwhile ++ rest →
    s ∈ ids (after before).tabs → removes (after before) event = some s →
    s ∉ ids (after (before ++ event :: meanwhile)).tabs

variable {events : List TabEvent}

theorem UpToDateRun.tabs (h : UpToDateRun events) {before : List TabEvent} {event : TabEvent}
    {rest : List TabEvent} (heq : events = before ++ event :: rest) :
    (after (before ++ [event])).tabs = change (after before) event (after before).tabs := by
  rw [after_append]
  exact step_tabs (h before event rest heq)

/-- Every tab has been opened by some event. -/
theorem UpToDateRun.introduced (h : UpToDateRun events) {before rest : List TabEvent}
    (heq : events = before ++ rest) {s : String} (hs : s ∈ ids (after before).tabs) :
    s ∈ before.flatMap newIds := by
  induction before using List.reverseRecOn generalizing rest with
  | nil => cases hs
  | append_singleton before event ih =>
    rw [List.append_assoc, List.singleton_append] at heq
    rw [h.tabs heq] at hs
    rw [List.flatMap_append, List.mem_append, List.flatMap_singleton]
    obtain ⟨hold, -⟩ | hnew := of_mem_change hs
    · exact Or.inl (ih heq hold)
    · exact Or.inr hnew

theorem UpToDateRun.kept (h : UpToDateRun events) {before meanwhile rest : List TabEvent}
    (heq : events = before ++ meanwhile ++ rest) {s : String} (hs : s ∈ ids (after before).tabs)
    (hkeep : ∀ first event last, meanwhile = first ++ event :: last →
      removes (after (before ++ first)) event ≠ some s) :
    s ∈ ids (after (before ++ meanwhile)).tabs := by
  induction meanwhile using List.reverseRecOn generalizing rest with
  | nil =>
    rw [List.append_nil]
    exact hs
  | append_singleton meanwhile event ih =>
    have hsplit : events = (before ++ meanwhile) ++ event :: rest := by
      rw [heq]
      simp only [List.append_assoc, List.singleton_append]
    rw [← List.append_assoc, h.tabs hsplit]
    refine mem_change (ih hsplit fun first e last hfirst => ?_) (hkeep meanwhile event [] rfl)
    refine hkeep first e (last ++ [event]) ?_
    rw [hfirst, List.append_assoc, List.cons_append]

/-- An identifier that was there is not used again. -/
theorem newIds_fresh (hfresh : (events.flatMap newIds).Nodup)
    {before : List TabEvent} {event : TabEvent} {rest : List TabEvent}
    (heq : events = before ++ event :: rest) {s : String}
    (hs : s ∈ before.flatMap newIds) : s ∉ newIds event := by
  intro hnew
  rw [heq, List.flatMap_append, List.flatMap_cons] at hfresh
  exact (List.nodup_append.1 hfresh).2.2 s hs s (List.mem_append_left _ hnew) rfl

theorem UpToDateRun.gone (h : UpToDateRun events) (hfresh : (events.flatMap newIds).Nodup)
    {before : List TabEvent} {event : TabEvent} {meanwhile rest : List TabEvent} {s : String}
    (heq : events = before ++ event :: meanwhile ++ rest) (hs : s ∈ ids (after before).tabs)
    (hgone : removes (after before) event = some s) :
    s ∉ ids (after (before ++ event :: meanwhile)).tabs := by
  have hfirst : events = before ++ event :: (meanwhile ++ rest) := by
    rw [heq, List.append_assoc, List.cons_append]
  have hopened := h.introduced hfirst hs
  induction meanwhile using List.reverseRecOn generalizing rest with
  | nil =>
    intro hmem
    rw [h.tabs hfirst] at hmem
    obtain ⟨-, hkeep⟩ | hnew := of_mem_change hmem
    · exact hkeep hgone
    · exact newIds_fresh hfresh hfirst hopened hnew
  | append_singleton meanwhile last ih =>
    have hsplit : events = (before ++ event :: meanwhile) ++ last :: rest := by
      rw [heq]
      simp only [List.append_assoc, List.cons_append, List.nil_append]
    have hprev := ih hsplit (by rw [hsplit, List.append_assoc, List.cons_append])
    rw [← List.cons_append, ← List.append_assoc, h.tabs hsplit]
    intro hmem
    obtain ⟨hold, -⟩ | hnew := of_mem_change hmem
    · exact hprev hold
    · refine newIds_fresh hfresh hsplit ?_ hnew
      rw [List.flatMap_append]
      exact List.mem_append_left _ hopened

/-- The tabs are kept exactly if each close captured the current list, but for its own tab. -/
theorem tabs_kept (events : List TabEvent) (hfresh : (events.flatMap newIds).Nodup) :
    UpToDateRun events ↔ TabsKept events := by
  constructor
  · intro h
    refine ⟨fun before event rest sessionId captured heq hcloses => ?_,
      fun before meanwhile rest s heq hs hkeep => h.kept heq hs hkeep,
      fun before event meanwhile rest s heq hs hgone => h.gone hfresh heq hs hgone⟩
    rw [after_append, step_closes hcloses]
    exact h before event rest heq sessionId captured hcloses
  · intro h before event rest heq sessionId captured hcloses
    rw [← h.closed before event rest sessionId captured heq hcloses, after_append,
      step_closes hcloses]

/-! ## A reconnect -/

section Samples

/-- A connection drops and reconnects; a local shell has been opened meanwhile. -/
def reconnectEvents : List TabEvent :=
  [.connect "host" false "pending" "mux", .render, .opened "pending" "remote" "host" "mux", .render,
    .openLocal "local-1", .render, .closed "remote", .render, .reconnect "remote" true 0]

/-- The timer closes the tab with the tabs of the render that `connect` was called in. -/
theorem tabs_kept_fails :
    ¬ ∀ events : List TabEvent, (events.flatMap newIds).Nodup → TabsKept events := by
  intro hall
  have hkept := (hall reconnectEvents (by decide)).closed (reconnectEvents.take 8)
    (.reconnect "remote" true 0) [] "remote" [] rfl rfl
  have hlost : (after reconnectEvents).tabs = [] := rfl
  have hshell : without "remote" (after (reconnectEvents.take 8)).tabs = [.ofLocal "local-1"] := by
    decide
  rw [hshell] at hkept
  cases hlost.symm.trans hkept

theorem tabs_kept_sample :
    UpToDateRun [.openLocal "local-1", .render, .closeTab "local-1" 1] ↔
      TabsKept [.openLocal "local-1", .render, .closeTab "local-1" 1] :=
  tabs_kept _ (by decide)

end Samples

end Tethra.TabCloses
