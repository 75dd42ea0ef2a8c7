import Tethra.WorkspaceTabs

set_option autoImplicit false

/-!
# Handing tabs from window to window

A window moves tabs to a new one, or gives all it has to the main window when it closes. One
message is posted to the windows that listen at that moment; the sender lets go of its tabs
without an answer, and the receiver takes the layout of the message in place of its own.
-/
namespace Tethra.WindowTransfers
open WorkspaceTabs

/-! ## Layouts -/

inductive SplitOrientation where
  | horizontal
  | vertical
  deriving DecidableEq, Repr

inductive LayoutNode where
  | leaf (sessionId : String)
  | split (id : String) (orientation : SplitOrientation) (first second : LayoutNode)
  deriving DecidableEq, Repr

def collectSessionIds : LayoutNode → List String
  | .leaf sessionId => [sessionId]
  | .split _ _ first second => collectSessionIds first ++ collectSessionIds second

/-- The sibling of a leaf that goes takes the place of the split. -/
def removeSession (sessionId : String) : LayoutNode → Option LayoutNode
  | .leaf s => if s = sessionId then none else some (.leaf s)
  | .split id orientation first second =>
    match removeSession sessionId first, removeSession sessionId second with
    | none, second => second
    | some first, none => some first
    | some first, some second => some (.split id orientation first second)

/-- The panes a window shows. -/
def panes (layout : Option LayoutNode) : List String := (layout.map collectSessionIds).getD []

/-! ## Windows and their bus -/

inductive TransferType where
  | adopt (toLabel : String)
  | reclaim

structure WorkspaceTransfer where
  type : TransferType
  fromLabel : String
  tabs : List WorkspaceTab
  /-- What `layoutJson` parses to. -/
  layout : Option LayoutNode

structure Window where
  tabs : List WorkspaceTab
  layout : Option LayoutNode
  outputHandlers : List String
  /-- The window has mounted: its listener is on the bus. -/
  listening : Bool
  inbox : List WorkspaceTransfer
  /-- Its own `sessionStorage`, by the label in the key. -/
  sessionStorage : String → Option WorkspaceTransfer

abbrev Workspace := String → Window

inductive Step where
  | mount (label : String)
  | post (transfer : WorkspaceTransfer)
  | stash (transfer : WorkspaceTransfer) (toLabel : String)
  | letGo (transfer : WorkspaceTransfer)
  | receive (label : String)
  | openTab (label : String) (tab : WorkspaceTab) (layout : Option LayoutNode)

/-- `byId.set(tab.sessionId, tab)`. -/
def upsertTab (tabs : List WorkspaceTab) (tab : WorkspaceTab) : List WorkspaceTab :=
  if tab.sessionId ∈ ids tabs then replaceTab tab.sessionId tab tabs else tabs ++ [tab]

def adoptTransfer (transfer : WorkspaceTransfer) (w : Window) : Window :=
  { w with
    tabs := (w.tabs ++ transfer.tabs).foldl upsertTab []
    layout := transfer.layout
    outputHandlers := ids (transfer.tabs.filter WorkspaceTab.hasShell) ++ w.outputHandlers }

/-- `bus.onmessage` of the window. -/
def onMessage (label : String) (transfer : WorkspaceTransfer) (w : Window) : Window :=
  if transfer.fromLabel = label then w
  else
    match transfer.type with
    | .adopt toLabel => if toLabel = label then adoptTransfer transfer w else w
    | .reclaim => if label = "main" then adoptTransfer transfer w else w

/-- The sender after `moveTabsToNewWindow`, or after its close. -/
def letGo (transfer : WorkspaceTransfer) (w : Window) : Window :=
  match transfer.type with
  | .adopt _ =>
    { w with
      tabs := w.tabs.filter fun tab => tab.sessionId ∉ ids transfer.tabs
      layout := (ids transfer.tabs).foldl (fun layout s => layout.bind (removeSession s)) w.layout
      outputHandlers := w.outputHandlers.filter fun s => s ∉ ids transfer.tabs }
  | .reclaim => ⟨[], none, [], false, [], fun _ => none⟩

def mount (label : String) (w : Window) : Window :=
  match w.sessionStorage label with
  | some pending =>
    adoptTransfer pending
      { w with listening := true, sessionStorage := Function.update w.sessionStorage label none }
  | none => { w with listening := true }

def receive (label : String) (w : Window) : Window :=
  match w.inbox with
  | transfer :: inbox => onMessage label transfer { w with inbox := inbox }
  | [] => w

def openTab (tab : WorkspaceTab) (layout : Option LayoutNode) (w : Window) : Window :=
  { w with
    tabs := w.tabs ++ [tab]
    layout := layout
    outputHandlers := if tab.hasShell then tab.sessionId :: w.outputHandlers
      else w.outputHandlers }

def update (label : String) (f : Window → Window) (ws : Workspace) : Workspace :=
  Function.update ws label (f (ws label))

def step (ws : Workspace) : Step → Workspace
  | .mount label => update label (mount label) ws
  | .post transfer => fun label =>
    if (ws label).listening then { ws label with inbox := (ws label).inbox ++ [transfer] }
    else ws label
  | .stash transfer toLabel => update transfer.fromLabel (fun w =>
      { w with sessionStorage := Function.update w.sessionStorage toLabel (some transfer) }) ws
  | .letGo transfer => update transfer.fromLabel (letGo transfer) ws
  | .receive label => update label (receive label) ws
  | .openTab label tab layout => update label (openTab tab layout) ws

def run (steps : List Step) (ws : Workspace) : Workspace := steps.foldl step ws

/-! ## One hand-off -/

/-- The window the message is for. -/
def receiver (transfer : WorkspaceTransfer) : String :=
  match transfer.type with
  | .adopt toLabel => toLabel
  | .reclaim => "main"

theorem onMessage_eq (label : String) (transfer : WorkspaceTransfer) (w : Window) :
    onMessage label transfer w =
      if transfer.fromLabel ≠ label ∧ label = receiver transfer then adoptTransfer transfer w
      else w := by
  unfold onMessage receiver
  by_cases hfrom : transfer.fromLabel = label
  · simp [hfrom]
  · cases transfer.type with
    | adopt toLabel => simp [hfrom, eq_comm]
    | reclaim => simp [hfrom]

/-- No moved tab is in the window. -/
def Free (transfer : WorkspaceTransfer) (w : Window) : Prop :=
  ∀ tab ∈ transfer.tabs, tab.sessionId ∉ ids w.tabs

/-- Every moved tab is in the window, with its handler. -/
def Adopted (transfer : WorkspaceTransfer) (w : Window) : Prop :=
  ∀ tab ∈ transfer.tabs, tab.sessionId ∈ ids w.tabs ∧
    (tab.hasShell = true → tab.sessionId ∈ w.outputHandlers)

/-- What windows do on their own. -/
def OnItsOwn (transfer : WorkspaceTransfer) : Step → Prop
  | .mount _ | .receive _ => True
  | .stash t toLabel => t.fromLabel ≠ toLabel
  | .openTab _ tab _ => ∀ moved ∈ transfer.tabs, tab.sessionId ≠ moved.sessionId
  | .post _ | .letGo _ => False

/-- What holds of the window `label` after the post. -/
structure Fine (transfer : WorkspaceTransfer) (heard released : Bool) (label : String)
    (w : Window) : Prop where
  stored : w.sessionStorage label = none
  inbox : w.inbox = [] ∨ w.inbox = [transfer]
  free : label ≠ receiver transfer → label ≠ transfer.fromLabel ∨ released = true →
    Free transfer w
  received : label = receiver transfer → (heard = true ∧ w.inbox = [] ∧ Adopted transfer w) ∨
    (Free transfer w ∧ (w.inbox = [transfer] ↔ heard = true))

theorem mem_ids_upsertTab {tabs : List WorkspaceTab} {tab : WorkspaceTab} {s : String} :
    s ∈ ids (upsertTab tabs tab) ↔ s ∈ ids tabs ∨ s = tab.sessionId := by
  unfold upsertTab
  split
  · rename_i hmem
    rw [mem_ids_replaceTab]
    constructor
    · rintro (⟨hs, -⟩ | ⟨-, rfl⟩)
      · exact Or.inl hs
      · exact Or.inr rfl
    · rintro (hs | rfl)
      · by_cases hid : s = tab.sessionId
        · exact Or.inr ⟨hmem, hid⟩
        · exact Or.inl ⟨hs, hid⟩
      · exact Or.inr ⟨hmem, rfl⟩
  · rw [ids_append, List.mem_append]
    simp [ids]

theorem mem_ids_foldl_upsertTab {tabs acc : List WorkspaceTab} {s : String} :
    s ∈ ids (tabs.foldl upsertTab acc) ↔ s ∈ ids acc ∨ s ∈ ids tabs := by
  induction tabs generalizing acc with
  | nil => simp [ids]
  | cons tab tabs ih =>
    rw [List.foldl_cons, ih, mem_ids_upsertTab, or_assoc]
    simp [ids]

theorem mem_ids_adoptTransfer {transfer : WorkspaceTransfer} {w : Window} {s : String} :
    s ∈ ids (adoptTransfer transfer w).tabs ↔ s ∈ ids w.tabs ∨ s ∈ ids transfer.tabs := by
  change s ∈ ids ((w.tabs ++ transfer.tabs).foldl upsertTab []) ↔ _
  rw [mem_ids_foldl_upsertTab, ids_append, List.mem_append]
  simp [ids]

theorem adopted_adoptTransfer (transfer : WorkspaceTransfer) (w : Window) :
    Adopted transfer (adoptTransfer transfer w) := by
  intro tab htab
  refine ⟨mem_ids_adoptTransfer.2 (Or.inr (List.mem_map_of_mem htab)), fun hshell => ?_⟩
  exact List.mem_append_left _ (List.mem_map_of_mem (List.mem_filter.2 ⟨htab, hshell⟩))

section Windows
variable {transfer : WorkspaceTransfer} {heard released : Bool} {label : String} {w : Window}

/-- Nothing of the hand-off is in the storage that a mounting window reads. -/
theorem mount_eq (h : w.sessionStorage label = none) :
    mount label w = { w with listening := true } := by
  unfold mount
  rw [h]

theorem Fine.mount (h : Fine transfer heard released label w) :
    Fine transfer heard released label (mount label w) := by
  rw [mount_eq h.stored]
  exact ⟨h.stored, h.inbox, h.free, h.received⟩

theorem Fine.receive (hapart : transfer.fromLabel ≠ receiver transfer)
    (h : Fine transfer heard released label w) :
    Fine transfer heard released label (receive label w) := by
  unfold WindowTransfers.receive
  obtain hempty | hmessage := h.inbox
  · rw [hempty]
    exact h
  · rw [hmessage]
    dsimp only
    rw [onMessage_eq]
    by_cases hlabel : label = receiver transfer
    · rw [if_pos ⟨fun heq => hapart (heq.trans hlabel), hlabel⟩]
      refine ⟨h.stored, Or.inl rfl, fun hne => (hne hlabel).elim, fun _ => Or.inl ⟨?_, rfl, ?_⟩⟩
      · obtain ⟨-, hempty, -⟩ | ⟨-, hheard⟩ := h.received hlabel
        · cases hmessage.symm.trans hempty
        · exact hheard.1 hmessage
      · exact adopted_adoptTransfer _ _
    · rw [if_neg fun hboth => hlabel hboth.2]
      exact ⟨h.stored, Or.inl rfl, h.free, fun heq => (hlabel heq).elim⟩

theorem Free.openTab {tab : WorkspaceTab} {layout : Option LayoutNode}
    (hnew : ∀ moved ∈ transfer.tabs, tab.sessionId ≠ moved.sessionId) (h : Free transfer w) :
    Free transfer (openTab tab layout w) := by
  intro moved hmoved hmem
  change moved.sessionId ∈ ids (w.tabs ++ [tab]) at hmem
  rw [ids_append, List.mem_append] at hmem
  obtain hold | hself := hmem
  · exact h moved hmoved hold
  · exact hnew moved hmoved (List.mem_singleton.1 hself).symm

theorem Adopted.openTab {tab : WorkspaceTab} {layout : Option LayoutNode}
    (h : Adopted transfer w) : Adopted transfer (openTab tab layout w) := by
  intro moved hmoved
  obtain ⟨hmem, hhandled⟩ := h moved hmoved
  refine ⟨?_, fun hshell => ?_⟩
  · change moved.sessionId ∈ ids (w.tabs ++ [tab])
    rw [ids_append]
    exact List.mem_append_left _ hmem
  · unfold WindowTransfers.openTab
    dsimp only
    split
    · exact List.mem_cons_of_mem _ (hhandled hshell)
    · exact hhandled hshell

theorem Fine.openTab {tab : WorkspaceTab} {layout : Option LayoutNode}
    (hnew : ∀ moved ∈ transfer.tabs, tab.sessionId ≠ moved.sessionId)
    (h : Fine transfer heard released label w) :
    Fine transfer heard released label (openTab tab layout w) := by
  refine ⟨h.stored, h.inbox, fun hne hfree => (h.free hne hfree).openTab hnew, fun heq => ?_⟩
  obtain ⟨hheard, hempty, hadopted⟩ | ⟨hfree, hmessage⟩ := h.received heq
  · exact Or.inl ⟨hheard, hempty, hadopted.openTab⟩
  · exact Or.inr ⟨hfree.openTab hnew, hmessage⟩

end Windows

section Steps
variable {transfer : WorkspaceTransfer} {heard released : Bool} {ws : Workspace}

theorem update_same (label : String) (f : Window → Window) (ws : Workspace) :
    update label f ws label = f (ws label) := Function.update_self _ _ _

theorem update_ne {label l : String} (h : l ≠ label) (f : Window → Window) (ws : Workspace) :
    update label f ws l = ws l := Function.update_of_ne h _ _

/-- What one window does is about that window. -/
theorem update_all {P : String → Window → Prop} {label : String} {f : Window → Window}
    (h : ∀ l, P l (ws l)) (hf : P label (ws label) → P label (f (ws label))) (l : String) :
    P l (update label f ws l) := by
  by_cases hl : l = label
  · subst hl
    rw [update_same]
    exact hf (h l)
  · rw [update_ne hl]
    exact h l

theorem fine_step (hapart : transfer.fromLabel ≠ receiver transfer) {st : Step}
    (hst : OnItsOwn transfer st) (h : ∀ l, Fine transfer heard released l (ws l)) (l : String) :
    Fine transfer heard released l (step ws st l) := by
  cases st with
  | mount label => exact update_all h Fine.mount l
  | receive label => exact update_all h (Fine.receive hapart) l
  | stash t toLabel =>
    simp only [step]
    exact update_all h (fun hfine => ⟨(Function.update_of_ne hst _ _).trans hfine.stored,
      hfine.inbox, hfine.free, hfine.received⟩) l
  | openTab label tab layout => exact update_all h (Fine.openTab hst) l
  | post t => exact hst.elim
  | letGo t => exact hst.elim

/-- Before the post. -/
structure Start (transfer : WorkspaceTransfer) (label : String) (w : Window) : Prop where
  stored : w.sessionStorage label = none
  inbox : w.inbox = []
  free : label ≠ transfer.fromLabel → Free transfer w

theorem start_step {st : Step} (hst : OnItsOwn transfer st) (h : ∀ l, Start transfer l (ws l))
    (l : String) : Start transfer l (step ws st l) := by
  cases st with
  | mount label =>
    simp only [step]
    refine update_all h (fun hstart => ?_) l
    rw [mount_eq hstart.stored]
    exact ⟨hstart.stored, hstart.inbox, hstart.free⟩
  | receive label =>
    simp only [step]
    refine update_all h (fun hstart => ?_) l
    unfold receive
    rw [hstart.inbox]
    exact hstart
  | stash t toLabel =>
    simp only [step]
    exact update_all h (fun hstart => ⟨(Function.update_of_ne hst _ _).trans hstart.stored,
      hstart.inbox, hstart.free⟩) l
  | openTab label tab layout =>
    simp only [step]
    exact update_all h (fun hstart => ⟨hstart.stored, hstart.inbox,
      fun hne => (hstart.free hne).openTab hst⟩) l
  | post t => exact hst.elim
  | letGo t => exact hst.elim

/-- What every step of a window on its own keeps, a run of them keeps. -/
theorem own_run {P : Workspace → Prop} {steps : List Step}
    (hstep : ∀ {ws st}, OnItsOwn transfer st → P ws → P (step ws st))
    (hsteps : ∀ st ∈ steps, OnItsOwn transfer st) (h : P ws) : P (run steps ws) := by
  induction steps generalizing ws with
  | nil => exact h
  | cons st steps ih =>
    exact ih (fun st' hst' => hsteps st' (List.mem_cons_of_mem _ hst'))
      (hstep (hsteps st List.mem_cons_self) h)

theorem fine_post (hapart : transfer.fromLabel ≠ receiver transfer)
    (h : ∀ l, Start transfer l (ws l)) (l : String) :
    Fine transfer (ws (receiver transfer)).listening false l (step ws (.post transfer) l) := by
  have hl := h l
  have hfree : l = receiver transfer → Free transfer (ws l) := fun heq =>
    hl.free fun hfrom => hapart (hfrom.symm.trans heq)
  simp only [step]
  split
  · rename_i hlistening
    refine ⟨hl.stored, Or.inr ?_, fun _ hother => hl.free (hother.resolve_right nofun),
      fun heq => Or.inr ⟨hfree heq, ?_⟩⟩
    · rw [hl.inbox]
      rfl
    · rw [← heq, hlistening, hl.inbox]
      exact ⟨fun _ => rfl, fun _ => rfl⟩
  · rename_i hdeaf
    refine ⟨hl.stored, Or.inl hl.inbox, fun _ hother => hl.free (hother.resolve_right nofun),
      fun heq => Or.inr ⟨hfree heq, ?_⟩⟩
    rw [← heq, hl.inbox]
    constructor
    · nofun
    · exact fun hlistening => (hdeaf hlistening).elim

theorem fine_letGo (hapart : transfer.fromLabel ≠ receiver transfer)
    (h : ∀ l, Fine transfer heard released l (ws l)) (l : String) :
    Fine transfer heard true l (step ws (.letGo transfer) l) := by
  by_cases hl : l = transfer.fromLabel
  · subst hl
    simp only [step]
    rw [update_same]
    have hfine := h transfer.fromLabel
    unfold letGo
    split
    · refine ⟨hfine.stored, hfine.inbox, fun _ _ tab htab hmem => ?_,
        fun heq => (hapart heq).elim⟩
      obtain ⟨kept, hkept, hid⟩ := mem_ids.1 hmem
      refine of_decide_eq_true (List.mem_filter.1 hkept).2 ?_
      rw [hid]
      exact List.mem_map_of_mem htab
    · exact ⟨rfl, Or.inl rfl, fun _ _ tab _ hmem => (by cases hmem), fun heq => (hapart heq).elim⟩
  · simp only [step]
    rw [update_ne hl]
    exact ⟨(h l).stored, (h l).inbox, fun hne _ => (h l).free hne (Or.inl hl), (h l).received⟩

theorem run_append (steps steps' : List Step) (ws : Workspace) :
    run (steps ++ steps') ws = run steps' (run steps ws) := List.foldl_append

end Steps

/-! ## The whole hand-off -/

/-- A run of one hand-off, with whatever the windows do on their own in between. -/
structure HandOff (transfer : WorkspaceTransfer) (ws : Workspace)
    (opening meanwhile closing : List Step) : Prop where
  apart : transfer.fromLabel ≠ receiver transfer
  start : ∀ l, Start transfer l (ws l)
  own : ∀ st ∈ opening ++ meanwhile ++ closing, OnItsOwn transfer st
  finished : (run (opening ++ .post transfer :: meanwhile ++ .letGo transfer :: closing) ws
    (receiver transfer)).inbox = []

/-- Each moved tab is in one window, the receiver, and handled there. -/
structure HandedOver (transfer : WorkspaceTransfer) (ws : Workspace) : Prop where
  home : ∀ tab ∈ transfer.tabs, ∀ l, tab.sessionId ∈ ids (ws l).tabs ↔ l = receiver transfer
  handled : ∀ tab ∈ transfer.tabs, tab.hasShell = true →
    tab.sessionId ∈ (ws (receiver transfer)).outputHandlers

/-- The receiver keeps its tabs and panes whenever it receives. -/
def ReceiverKept (transfer : WorkspaceTransfer) (ws : Workspace) (steps : List Step) : Prop :=
  ∀ before rest, steps = before ++ .receive (receiver transfer) :: rest →
    (∀ s ∈ ids (run before ws (receiver transfer)).tabs,
      s ∈ ids (run (before ++ [.receive (receiver transfer)]) ws (receiver transfer)).tabs) ∧
    ∀ s ∈ panes (run before ws (receiver transfer)).layout,
      s ∈ panes (run (before ++ [.receive (receiver transfer)]) ws (receiver transfer)).layout

/-- The panes that the receiver has when the message arrives are panes of the message. -/
def LayoutFits (transfer : WorkspaceTransfer) (ws : Workspace) (steps : List Step) : Prop :=
  ∀ before rest, steps = before ++ .receive (receiver transfer) :: rest →
    (run before ws (receiver transfer)).inbox ≠ [] →
    ∀ s ∈ panes (run before ws (receiver transfer)).layout, s ∈ panes transfer.layout

section HandOffs
variable {transfer : WorkspaceTransfer} {ws : Workspace} {opening meanwhile closing : List Step}

theorem HandOff.fine (h : HandOff transfer ws opening meanwhile closing) (l : String) :
    Fine transfer (run opening ws (receiver transfer)).listening true l
      (run (opening ++ .post transfer :: meanwhile ++ .letGo transfer :: closing) ws l) := by
  have hown := h.own
  simp only [List.mem_append, or_imp, forall_and] at hown
  obtain ⟨⟨hopening, hmeanwhile⟩, hclosing⟩ := hown
  have hstart : ∀ l, Start transfer l (run opening ws l) :=
    own_run (P := fun ws => ∀ l, Start transfer l (ws l)) (fun hst h => start_step hst h)
      hopening h.start
  rw [List.append_assoc, run_append, List.cons_append]
  change Fine _ _ _ l (run (meanwhile ++ .letGo transfer :: closing)
    (step (run opening ws) (.post transfer)) l)
  rw [run_append]
  change Fine _ _ _ l (run closing (step (run meanwhile
    (step (run opening ws) (.post transfer))) (.letGo transfer)) l)
  have hposted := own_run (P := fun ws' => ∀ l, Fine transfer
    (run opening ws (receiver transfer)).listening false l (ws' l))
    (fun hst h' => fine_step h.apart hst h') hmeanwhile (fine_post h.apart hstart)
  exact own_run (P := fun ws' => ∀ l, Fine transfer
    (run opening ws (receiver transfer)).listening true l (ws' l))
    (fun hst h' => fine_step h.apart hst h') hclosing (fine_letGo h.apart hposted) l

/-- Every message is the one that was posted. -/
theorem message_step {st : Step} (hst : OnItsOwn transfer st ∨ st = .post transfer ∨
    st = .letGo transfer) {ws : Workspace} (h : ∀ l, ∀ t ∈ (ws l).inbox, t = transfer) (l : String) :
    ∀ t ∈ (step ws st l).inbox, t = transfer := by
  obtain hown | rfl | rfl := hst
  · cases st with
    | mount label =>
      refine update_all (P := fun _ w => ∀ t ∈ w.inbox, t = transfer) h (fun hw => ?_) l
      unfold mount
      split <;> exact hw
    | receive label =>
      refine update_all (P := fun _ w => ∀ t ∈ w.inbox, t = transfer) h (fun hw => ?_) l
      unfold receive
      split
      · rename_i first rest hinbox
        rw [hinbox] at hw
        rw [onMessage_eq]
        split <;> exact fun t ht => hw t (List.mem_cons_of_mem _ ht)
      · exact hw
    | stash t toLabel =>
      simp only [step]
      exact update_all (P := fun _ w => ∀ t ∈ w.inbox, t = transfer) h (fun hw => hw) l
    | openTab label tab layout =>
      exact update_all (P := fun _ w => ∀ t ∈ w.inbox, t = transfer) h (fun hw => hw) l
    | post t => exact hown.elim
    | letGo t => exact hown.elim
  · intro t ht
    simp only [step] at ht
    split at ht
    · obtain hold | hnew := List.mem_append.1 ht
      · exact h l t hold
      · exact List.mem_singleton.1 hnew
    · exact h l t ht
  · refine update_all (P := fun _ w => ∀ t ∈ w.inbox, t = transfer) h (fun hw => ?_) l
    unfold letGo
    split
    · exact hw
    · exact fun t ht => by cases ht

theorem HandOff.message (h : HandOff transfer ws opening meanwhile closing)
    {before rest : List Step}
    (heq : opening ++ .post transfer :: meanwhile ++ .letGo transfer :: closing = before ++ rest)
    (l : String) : ∀ t ∈ (run before ws l).inbox, t = transfer := by
  have hpart : ∀ st ∈ before, OnItsOwn transfer st ∨ st = .post transfer ∨
      st = .letGo transfer := by
    intro st hst
    have hmem := List.mem_append_left rest hst
    rw [← heq] at hmem
    have hown := h.own st
    simp only [List.mem_append, List.mem_cons] at hmem hown
    tauto
  clear heq
  induction before using List.reverseRecOn generalizing l with
  | nil =>
    intro t ht
    rw [show (run [] ws l).inbox = [] from (h.start l).inbox] at ht
    cases ht
  | append_singleton before st ih =>
    rw [run_append]
    exact message_step (hpart st (by simp))
      (fun l => ih l fun st' hst' => hpart st' (List.mem_append_left _ hst')) l

/-- A message is adopted by the window it is for. -/
theorem receive_cases (hapart : transfer.fromLabel ≠ receiver transfer) {w : Window}
    (h : ∀ t ∈ w.inbox, t = transfer) : (w.inbox = [] ∧ receive (receiver transfer) w = w) ∨
      (w.inbox ≠ [] ∧ ∃ rest, receive (receiver transfer) w =
        adoptTransfer transfer { w with inbox := rest }) := by
  unfold receive
  split
  · rename_i first rest hinbox
    have hfirst : first = transfer := h first (by rw [hinbox]; exact List.mem_cons_self)
    refine Or.inr ⟨by rw [hinbox]; nofun, rest, ?_⟩
    rw [onMessage_eq, hfirst, if_pos ⟨hapart, rfl⟩]
  · rename_i hempty
    exact Or.inl ⟨hempty, rfl⟩

theorem HandOff.kept_iff (h : HandOff transfer ws opening meanwhile closing) {steps : List Step}
    (hsteps : steps = opening ++ .post transfer :: meanwhile ++ .letGo transfer :: closing) :
    ReceiverKept transfer ws steps ↔ LayoutFits transfer ws steps := by
  have hafter : ∀ before : List Step,
      run (before ++ [.receive (receiver transfer)]) ws (receiver transfer) =
        receive (receiver transfer) (run before ws (receiver transfer)) := fun before => by
    rw [run_append]
    exact update_same _ _ _
  have hmessage : ∀ {before rest : List Step}, steps = before ++ rest →
      ∀ t ∈ (run before ws (receiver transfer)).inbox, t = transfer := fun heq =>
    h.message (hsteps ▸ heq) _
  constructor
  · intro hkept before rest heq hsome s hs
    obtain ⟨hempty, -⟩ | ⟨-, inbox, hadopt⟩ := receive_cases h.apart (hmessage heq)
    · exact (hsome hempty).elim
    · have hpane := (hkept before rest heq).2 s hs
      rw [hafter, hadopt] at hpane
      exact hpane
  · intro hfits before rest heq
    rw [hafter]
    obtain ⟨-, hidle⟩ | ⟨hsome, inbox, hadopt⟩ := receive_cases h.apart (hmessage heq)
    · rw [hidle]
      exact ⟨fun _ hs => hs, fun _ hs => hs⟩
    · rw [hadopt]
      exact ⟨fun s hs => mem_ids_adoptTransfer.2 (Or.inl hs), hfits before rest heq hsome⟩

/-- The hand-off succeeds exactly if the receiver listened at the post, and the layout it had
when the message arrived is part of the one in the message. -/
theorem handed_over (h : HandOff transfer ws opening meanwhile closing) {steps : List Step}
    (hsteps : steps = opening ++ .post transfer :: meanwhile ++ .letGo transfer :: closing) :
    (HandedOver transfer (run steps ws) ∧ ReceiverKept transfer ws steps) ↔
      (transfer.tabs = [] ∨ (run opening ws (receiver transfer)).listening = true) ∧
        LayoutFits transfer ws steps := by
  rw [h.kept_iff hsteps]
  refine and_congr_left fun _ => ?_
  subst hsteps
  have hfine := h.fine
  have hfree : ∀ l, l ≠ receiver transfer → Free transfer
      (run (opening ++ .post transfer :: meanwhile ++ .letGo transfer :: closing) ws l) :=
    fun l hl => (hfine l).free hl (Or.inr rfl)
  constructor
  · intro hover
    obtain ⟨hheard, -⟩ | ⟨hnone, -⟩ := (hfine (receiver transfer)).received rfl
    · exact Or.inr hheard
    · refine Or.inl (List.eq_nil_iff_forall_not_mem.2 fun tab htab => ?_)
      exact hnone tab htab ((hover.home tab htab _).2 rfl)
  · rintro (hnone | hheard)
    · have hnil : ∀ tab, tab ∉ transfer.tabs := List.eq_nil_iff_forall_not_mem.1 hnone
      exact ⟨fun tab htab => (hnil tab htab).elim, fun tab htab => (hnil tab htab).elim⟩
    · obtain ⟨-, -, hadopted⟩ | ⟨-, hmessage⟩ := (hfine (receiver transfer)).received rfl
      · refine ⟨fun tab htab l => ⟨fun hmem => ?_, ?_⟩, fun tab htab => (hadopted tab htab).2⟩
        · by_contra hl
          exact hfree l hl tab htab hmem
        · rintro rfl
          exact (hadopted tab htab).1
      · have hinbox := hmessage.2 hheard
        rw [h.finished] at hinbox
        cases hinbox

end HandOffs

/-! ## A window that mounts late, and a window that closes -/

section Samples

def emptyWindow : Window := ⟨[], none, [], false, [], fun _ => none⟩

def movedTab : WorkspaceTab := .ofLocal "local-1"

/-- One tab is moved to a new window. -/
def moveTransfer : WorkspaceTransfer :=
  ⟨.adopt "workspace-1", "main", [movedTab], some (.leaf "local-1")⟩

/-- The main window, and the one that is being opened. -/
def mainWorkspace : Workspace := fun label =>
  if label = "main" then
    ⟨[movedTab], some (.leaf "local-1"), ["local-1"], true, [], fun _ => none⟩
  else emptyWindow

theorem mainWorkspace_start (l : String) : Start moveTransfer l (mainWorkspace l) := by
  unfold mainWorkspace
  by_cases hl : l = "main"
  · rw [if_pos hl]
    exact ⟨rfl, rfl, fun hne => (hne hl).elim⟩
  · rw [if_neg hl]
    exact ⟨rfl, rfl, fun _ tab _ hmem => by cases hmem⟩

theorem stash_own : OnItsOwn moveTransfer (.stash moveTransfer "workspace-1") := by
  change ("main" : String) ≠ "workspace-1"
  decide

/-- The new window mounts after the post. -/
theorem late_handOff : HandOff moveTransfer mainWorkspace [] [.stash moveTransfer "workspace-1"]
    [.mount "workspace-1"] where
  apart := by decide
  start := mainWorkspace_start
  own st hst := by
    simp only [List.nil_append, List.cons_append, List.mem_cons, List.not_mem_nil, or_false] at hst
    obtain rfl | rfl := hst
    · exact stash_own
    · trivial
  finished := by decide +kernel

theorem handed_over_fails : ¬ ∀ (transfer : WorkspaceTransfer) (ws : Workspace)
    (opening meanwhile closing : List Step), HandOff transfer ws opening meanwhile closing →
    HandedOver transfer
        (run (opening ++ .post transfer :: meanwhile ++ .letGo transfer :: closing) ws) ∧
      ReceiverKept transfer ws
        (opening ++ .post transfer :: meanwhile ++ .letGo transfer :: closing) := by
  intro hall
  obtain ⟨hover, -⟩ := hall _ _ _ _ _ late_handOff
  have hmem := (hover.home movedTab List.mem_cons_self "workspace-1").2 rfl
  revert hmem
  decide +kernel

/-- The new window mounts in time. -/
theorem early_handOff : HandOff moveTransfer mainWorkspace [.mount "workspace-1"]
    [.stash moveTransfer "workspace-1"] [.receive "workspace-1"] where
  apart := by decide
  start := mainWorkspace_start
  own st hst := by
    simp only [List.cons_append, List.nil_append, List.mem_cons, List.not_mem_nil, or_false] at hst
    obtain rfl | rfl | rfl := hst
    · trivial
    · exact stash_own
    · trivial
  finished := by decide +kernel

theorem handed_over_sample : HandedOver moveTransfer (run [.mount "workspace-1",
      .post moveTransfer, .stash moveTransfer "workspace-1", .letGo moveTransfer,
      .receive "workspace-1"] mainWorkspace) := by
  refine ((handed_over early_handOff rfl).2 ⟨Or.inr (by decide +kernel), ?_⟩).1
  intro before rest heq _ s hs
  have hbefore : before = [.mount "workspace-1", .post moveTransfer,
      .stash moveTransfer "workspace-1", .letGo moveTransfer] := by
    change _ = before ++ .receive "workspace-1" :: rest at heq
    clear hs
    rcases before with _ | ⟨a, _ | ⟨b, _ | ⟨c, _ | ⟨d, _ | ⟨e, before⟩⟩⟩⟩⟩ <;>
      simp at heq ⊢
    simp [heq]
  have hempty : panes (run before mainWorkspace "workspace-1").layout = [] := by
    rw [hbefore]
    decide +kernel
  change s ∈ panes (run before mainWorkspace "workspace-1").layout at hs
  rw [hempty] at hs
  cases hs

end Samples

end Tethra.WindowTransfers
