import Tethra.BlockTracker

set_option autoImplicit false

/-!
# The markers of the blocks

A marker that is disposed of has no row any more. The blocks that are shown hold none of those,
whatever was marked, found again in the rows, dropped or forgotten before.
-/
namespace Tethra.BlockMarkers
open BlockTracker ScriptText Transducers

/-- The markers of the prompt of the open block. -/
def anchors (o : OpenBlock) : List Marker := o.promptStart.toList ++ o.commandStart.toList

def openMarkers (o : OpenBlock) : List Marker := anchors o ++ o.outputStart.toList

def activeMarkers (a : ActiveBlock) : List Marker := [a.prompt, a.command]

/-- The markers whose rows are read to show the blocks. -/
def shown (s : Tracker) : List Marker :=
  s.finished.flatMap FinishedBlock.markers ++ s.active.toList.flatMap activeMarkers

/-- An earlier block has a smaller number and markers of its own. -/
def Before (b c : FinishedBlock) : Prop := b.id < c.id ∧ ∀ m ∈ b.markers, m ∉ c.markers

/-- A marker that is made, kept, and of no finished block. -/
def Loose (s : Tracker) (m : Marker) : Prop :=
  m < s.markers ∧ m ∉ s.disposed ∧ ∀ b ∈ s.finished, m ∉ b.markers

structure Live (s : Tracker) : Prop where
  opened : ∀ m ∈ openMarkers s.opened, Loose s m
  active : ∀ a, s.active = some a → ∀ m ∈ activeMarkers a, m ∈ anchors s.opened
  finished : ∀ b ∈ s.finished, ∀ m ∈ b.markers, m < s.markers ∧ m ∉ s.disposed
  disposed : ∀ m ∈ s.disposed, m < s.markers
  before : s.finished.Pairwise Before
  nextId : ∀ b ∈ s.finished, b.id ≤ s.nextId
  few : s.finished.length ≤ 80

theorem live_new : Live .new := by
  constructor <;> simp [Tracker.new, OpenBlock.empty, openMarkers, anchors]

/-- The modes and the submissions hold no markers. -/
theorem Live.modes {s : Tracker} (h : Live s) (tui : TuiState) (submitted : List (Text × ℕ)) :
    Live { s with tui := tui, submitted := submitted } :=
  ⟨h.opened, h.active, h.finished, h.disposed, h.before, h.nextId, h.few⟩

theorem markAgentLaunched_modes (on : Bool) (s : Tracker) :
    ∃ tui, s.markAgentLaunched on = { s with tui := tui } := by
  unfold Tracker.markAgentLaunched
  split
  · exact ⟨s.tui, rfl⟩
  · exact ⟨_, rfl⟩

/-! ## The open block -/

/-- Markers are made, and `gone`, of the open block, are disposed of; no block is finished. -/
structure Reopens (s t : Tracker) (gone : List Marker) : Prop where
  finished : t.finished = s.finished
  nextId : t.nextId = s.nextId
  disposed : t.disposed = s.disposed ++ gone
  markers : s.markers ≤ t.markers
  gone : ∀ m ∈ gone, m ∈ openMarkers s.opened

/-- The markers that are left of the open block, and those made. -/
def Left (s t : Tracker) (gone : List Marker) (m : Marker) : Prop :=
  m ∈ openMarkers s.opened ∧ m ∉ gone ∨ s.markers ≤ m ∧ m < t.markers

section Reopening
variable {s t : Tracker} {gone : List Marker}

theorem Reopens.loose (hreopens : Reopens s t gone) (h : Live s) {m : Marker}
    (hleft : Left s t gone m) : Loose t m := by
  unfold Loose
  rw [hreopens.finished, hreopens.disposed]
  obtain ⟨hopened, hkept⟩ | ⟨hmade, hm⟩ := hleft
  · obtain ⟨hm, hdisposed, hblocks⟩ := h.opened m hopened
    exact ⟨hm.trans_le hreopens.markers,
      fun hgone => (List.mem_append.1 hgone).elim hdisposed hkept, hblocks⟩
  · refine ⟨hm, fun hgone => ?_, fun b hb hblock => ?_⟩
    · obtain hgone | hgone := List.mem_append.1 hgone
      · exact (h.disposed m hgone).not_ge hmade
      · exact (h.opened m (hreopens.gone m hgone)).1.not_ge hmade
    · exact (h.finished b hb m hblock).1.not_ge hmade

theorem Reopens.live (hreopens : Reopens s t gone) (h : Live s)
    (hopened : ∀ m ∈ openMarkers t.opened, Left s t gone m)
    (hactive : ∀ a, t.active = some a → ∀ m ∈ activeMarkers a, m ∈ anchors t.opened) : Live t := by
  refine ⟨fun m hm => hreopens.loose h (hopened m hm), hactive, ?_, ?_, ?_, ?_, ?_⟩
  · rw [hreopens.finished, hreopens.disposed]
    intro b hb m hm
    obtain ⟨hmade, hkept⟩ := h.finished b hb m hm
    refine ⟨hmade.trans_le hreopens.markers, fun hgone => ?_⟩
    obtain hgone | hgone := List.mem_append.1 hgone
    · exact hkept hgone
    · exact (h.opened m (hreopens.gone m hgone)).2.2 b hb hm
  · rw [hreopens.disposed]
    intro m hm
    obtain hm | hm := List.mem_append.1 hm
    · exact (h.disposed m hm).trans_le hreopens.markers
    · exact (h.opened m (hreopens.gone m hm)).1.trans_le hreopens.markers
  · rw [hreopens.finished]
    exact h.before
  · rw [hreopens.finished, hreopens.nextId]
    exact h.nextId
  · rw [hreopens.finished]
    exact h.few

theorem reopens_kept (hfinished : t.finished = s.finished) (hnextId : t.nextId = s.nextId)
    (hdisposed : t.disposed = s.disposed) (hmarkers : s.markers ≤ t.markers) : Reopens s t [] :=
  ⟨hfinished, hnextId, by rw [hdisposed, List.append_nil], hmarkers, fun _ hm => (by cases hm)⟩

theorem left_kept {m : Marker} (hm : m ∈ openMarkers s.opened ∨ m = s.markers)
    (hmarkers : s.markers < t.markers) : Left s t [] m := by
  obtain hm | rfl := hm
  · exact Or.inl ⟨hm, List.not_mem_nil⟩
  · exact Or.inr ⟨le_refl _, hmarkers⟩

end Reopening

theorem mem_markers {o : OpenBlock} {m : Marker} : m ∈ openMarkers o ↔
    o.promptStart = some m ∨ o.commandStart = some m ∨ o.outputStart = some m := by
  simp [openMarkers, anchors]

theorem mem_anchors {o : OpenBlock} {m : Marker} :
    m ∈ anchors o ↔ o.promptStart = some m ∨ o.commandStart = some m := by
  simp [anchors]

theorem eq_of_mem_active {m made : Marker} {info : BlockMeta}
    (hm : m ∈ activeMarkers ⟨made, made, info⟩) : m = made := by
  simpa [activeMarkers] using hm

theorem mem_getD {o : OpenBlock} {start : Option Marker}
    (hstart : ∀ m, start = some m → m ∈ openMarkers o) (made : Marker) :
    start.getD made ∈ openMarkers o ∨ start.getD made = made := by
  cases start with
  | none => exact Or.inr rfl
  | some m => exact Or.inl (hstart m rfl)

section Phases
variable {s : Tracker}

theorem Live.promptStart (h : Live s) (sc : Screen) : Live (s.promptStart sc) := by
  unfold Tracker.promptStart
  dsimp only
  split
  · exact h.modes _ _
  · refine Reopens.live (s := s) (reopens_kept rfl rfl rfl (Nat.le_succ _)) h (fun m hm => ?_)
      (fun a ha m hm => ?_)
    · refine left_kept ?_ (Nat.lt_succ_self _)
      obtain hm | hm := mem_markers.1 hm
      · exact Or.inr (Option.some.inj hm).symm
      · exact Or.inl (mem_markers.2 (Or.inr hm))
    · cases ha
      obtain rfl := eq_of_mem_active hm
      exact mem_anchors.2 (Or.inl rfl)

theorem Live.commandStart (h : Live s) (sc : Screen) : Live (s.commandStart sc) := by
  unfold Tracker.commandStart
  dsimp only
  split
  · exact h
  · refine Reopens.live (s := s) (reopens_kept rfl rfl rfl (Nat.le_succ _)) h (fun m hm => ?_)
      (fun a ha m hm => ?_)
    · refine left_kept ?_ (Nat.lt_succ_self _)
      obtain hm | hm | hm := mem_markers.1 hm
      · cases hm
        exact mem_getD (fun m hm => mem_markers.2 (Or.inl hm)) _
      · exact Or.inr (Option.some.inj hm).symm
      · cases hm
    · cases ha
      obtain rfl | rfl : m = _ ∨ m = _ := by simpa [activeMarkers] using hm
      · exact mem_anchors.2 (Or.inl rfl)
      · exact mem_anchors.2 (Or.inr rfl)

/-- The markers of the prompt are exchanged for a new one, with those of the active block. -/
theorem Live.outputStart (h : Live s) (sc : Screen) : Live (s.outputStart sc) := by
  unfold Tracker.outputStart
  dsimp only
  split
  · exact h
  · split
    · refine Reopens.live (s := s) ⟨rfl, rfl, rfl, Nat.le_add_right s.markers 2, fun m hm => ?_⟩ h
        (fun m hm => ?_) (fun a ha m hm => ?_)
      · obtain hm | hm := List.mem_append.1 hm
        · exact mem_markers.2 (Or.inl (Option.mem_toList.1 hm))
        · exact mem_markers.2 (Or.inr (Or.inl
            (Option.mem_filter_iff.1 (Option.mem_toList.1 hm)).1))
      · obtain hm | hm | hm := mem_markers.1 hm <;> cases hm
        · exact Or.inr ⟨Nat.le_succ _, Nat.lt_succ_self _⟩
        · exact Or.inr ⟨Nat.le_succ _, Nat.lt_succ_self _⟩
        · exact Or.inr ⟨le_refl _, Nat.lt_add_of_pos_right Nat.two_pos⟩
      · obtain ⟨b, -, rfl⟩ := Option.map_eq_some_iff.1 ha
        obtain rfl := eq_of_mem_active hm
        exact mem_anchors.2 (Or.inl rfl)
    · refine Reopens.live (s := s) (reopens_kept rfl rfl rfl (Nat.le_succ _)) h (fun m hm => ?_)
        h.active
      refine left_kept ?_ (Nat.lt_succ_self _)
      obtain hm | hm | hm := mem_markers.1 hm
      · exact Or.inl (mem_markers.2 (Or.inl hm))
      · exact Or.inl (mem_markers.2 (Or.inr (Or.inl hm)))
      · exact Or.inr (Option.some.inj hm).symm

/-! ### The end of a command -/

theorem settle_reopens (sc : Screen) (s : Tracker) :
    ∃ gone, Reopens s (Tracker.settle sc s).tracker gone ∧
      ∀ m ∈ [(Tracker.settle sc s).prompt, (Tracker.settle sc s).command,
        (Tracker.settle sc s).last], Left s (Tracker.settle sc s).tracker gone m := by
  have hcommand := mem_getD (o := s.opened) (fun m hm => mem_markers.2 (Or.inr (Or.inl hm)))
    s.markers
  have hprompt : s.opened.promptStart.getD (s.opened.commandStart.getD s.markers) ∈
        openMarkers s.opened ∨
      s.opened.promptStart.getD (s.opened.commandStart.getD s.markers) = s.markers := by
    obtain hold | hcommand' := mem_getD (o := s.opened) (fun m hm => mem_markers.2 (Or.inl hm))
      (s.opened.commandStart.getD s.markers)
    · exact Or.inl hold
    · rw [hcommand']
      exact hcommand
  have hkept : ∀ m ∈ [s.opened.promptStart.getD (s.opened.commandStart.getD s.markers),
      s.opened.commandStart.getD s.markers, s.markers],
      Left s { s with markers := s.markers + 1 } [] m := by
    intro m hm
    refine left_kept ?_ (Nat.lt_succ_self _)
    simp only [List.mem_cons, List.not_mem_nil, or_false] at hm
    obtain rfl | rfl | rfl := hm
    · exact hprompt
    · exact hcommand
    · exact Or.inr rfl
  have hreopens : Reopens s { s with markers := s.markers + 1 } [] :=
    reopens_kept rfl rfl rfl (Nat.le_succ _)
  unfold Tracker.settle
  dsimp only
  split
  · exact ⟨[], hreopens, hkept⟩
  · split
    · exact ⟨[], hreopens, hkept⟩
    · split
      · refine ⟨_, ⟨rfl, rfl, rfl, Nat.le_add_right s.markers 2, fun m hm => ?_⟩, fun m hm => ?_⟩
        · simp only [List.mem_append, List.mem_filter, List.mem_singleton, bne_iff_ne, ne_eq,
            Bool.and_eq_true] at hm
          obtain ⟨rfl, hne⟩ | ⟨rfl, -, hne⟩ := hm
          · exact hprompt.resolve_right hne
          · exact hcommand.resolve_right hne
        · simp only [List.mem_cons, List.not_mem_nil, or_false] at hm
          obtain rfl | rfl | rfl := hm
          · exact Or.inr ⟨Nat.le_succ _, Nat.lt_succ_self _⟩
          · exact Or.inr ⟨Nat.le_succ _, Nat.lt_succ_self _⟩
          · exact Or.inr ⟨le_refl _, Nat.lt_add_of_pos_right Nat.two_pos⟩
      · exact ⟨[], hreopens, hkept⟩

/-- Markers of no finished block are disposed of, when no block is open. -/
theorem Live.dispose (h : Live s) (hopened : s.opened = .empty) (hactive : s.active = none)
    {gone : List Marker}
    (hgone : ∀ m ∈ gone, m < s.markers ∧ ∀ b ∈ s.finished, m ∉ b.markers) :
    Live (s.dispose gone) := by
  refine ⟨fun m hm => ?_, fun a ha => ?_, fun b hb m hm => ⟨(h.finished b hb m hm).1, ?_⟩,
    fun m hm => ?_, h.before, h.nextId, h.few⟩
  · rw [Tracker.dispose, hopened] at hm
    cases hm
  · rw [Tracker.dispose, hactive] at ha
    cases ha
  · intro hdisposed
    obtain hdisposed | hdisposed := List.mem_append.1 hdisposed
    · exact (h.finished b hb m hm).2 hdisposed
    · exact (hgone m hdisposed).2 b hb hm
  · exact (List.mem_append.1 hm).elim (h.disposed m) fun hm => (hgone m hm).1

/-- A block that is finished goes behind the others; those in front may be dropped. -/
theorem Live.keep (h : Live s) (hactive : s.active = none) {block : FinishedBlock}
    (hid : block.id = s.nextId + 1) (hloose : ∀ m ∈ block.markers, Loose s m) :
    Live (Tracker.keep block { s with nextId := s.nextId + 1 }) := by
  have hblocks : ∀ b ∈ s.finished ++ [block], b.id ≤ s.nextId + 1 ∧
      ∀ m ∈ b.markers, m < s.markers ∧ m ∉ s.disposed := by
    intro b hb
    obtain hb | hb := List.mem_append.1 hb
    · exact ⟨(h.nextId b hb).trans (Nat.le_succ _), h.finished b hb⟩
    · rw [List.mem_singleton.1 hb]
      exact ⟨hid.le, fun m hm => ⟨(hloose m hm).1, (hloose m hm).2.1⟩⟩
  have hbefore : (s.finished ++ [block]).Pairwise Before := by
    refine List.pairwise_append.2 ⟨h.before, List.pairwise_singleton _ _, fun b hb c hc => ?_⟩
    rw [List.mem_singleton.1 hc]
    refine ⟨?_, fun m hm hblock => (hloose m hblock).2.2 b hb hm⟩
    rw [hid]
    exact Nat.lt_succ_of_le (h.nextId b hb)
  unfold Tracker.keep
  dsimp only
  generalize hall : s.finished ++ [block] = all at hblocks hbefore ⊢
  have hcut : (all.take (all.length - 80) ++ all.drop (all.length - 80)).Pairwise Before := by
    rw [List.take_append_drop]
    exact hbefore
  refine ⟨fun m hm => (by cases hm), fun a ha => ?_, fun b hb m hm => ⟨?_, ?_⟩, fun m hm => ?_,
    hbefore.sublist (List.drop_sublist _ _),
    fun b hb => (hblocks b (List.mem_of_mem_drop hb)).1, ?_⟩
  · exact absurd ha (by rw [Tracker.dispose, hactive]; exact nofun)
  · exact ((hblocks b (List.mem_of_mem_drop hb)).2 m hm).1
  · intro hdisposed
    obtain hdisposed | hdropped := List.mem_append.1 hdisposed
    · exact ((hblocks b (List.mem_of_mem_drop hb)).2 m hm).2 hdisposed
    · obtain ⟨c, hc, hcm⟩ := List.mem_flatMap.1 hdropped
      exact ((List.pairwise_append.1 hcut).2.2 c hc b hb).2 m hcm hm
  · obtain hm | hm := List.mem_append.1 hm
    · exact h.disposed m hm
    · obtain ⟨c, hc, hcm⟩ := List.mem_flatMap.1 hm
      exact ((hblocks c (List.mem_of_mem_take hc)).2 m hcm).1
  · rw [List.length_drop]
    omega

theorem Live.commandEnd (h : Live s) (exitCode : Option ℤ) (sc : Screen) :
    Live (s.commandEnd exitCode sc).1 := by
  have hreset : Live s.resetTuiState := h.modes _ _
  unfold Tracker.commandEnd
  dsimp only
  split
  · exact hreset
  · obtain ⟨gone, hreopens, hends⟩ := settle_reopens sc s.resetTuiState
    have hopened := (settle_frame sc s.resetTuiState).2.2
    generalize Tracker.settle sc s.resetTuiState = e at hreopens hends hopened ⊢
    have hloose : ∀ m ∈ [e.prompt, e.command, e.last], Loose e.tracker m :=
      fun m hm => hreopens.loose hreset (hends m hm)
    have hclosed (tui : TuiState) :
        Live { e.tracker with opened := .empty, active := none, tui := tui } :=
      Reopens.live (s := s.resetTuiState) ⟨hreopens.finished, hreopens.nextId, hreopens.disposed,
        hreopens.markers, hreopens.gone⟩ hreset (fun m hm => (by cases hm)) nofun
    obtain ⟨tui, htui⟩ : ∃ tui, (if e.tracker.launchScript = true then
          Tracker.markAgentLaunched false { e.tracker with active := none }
        else { e.tracker with active := none }) =
          { e.tracker with active := none, tui := tui } := by
      split
      · exact markAgentLaunched_modes false { e.tracker with active := none }
      · exact ⟨_, rfl⟩
    rw [htui]
    split
    · refine (hclosed tui).dispose rfl rfl fun m hm => ?_
      have hcases : m ∈ [e.prompt, e.command, e.last] ∨ e.tracker.opened.outputStart = some m := by
        simp only [List.mem_cons, List.mem_append, List.mem_filter, List.not_mem_nil, or_false,
          Option.mem_toList, List.cons_append] at hm ⊢
        tauto
      obtain hm | hm := hcases
      · exact ⟨(hloose m hm).1, (hloose m hm).2.2⟩
      · rw [hopened] at hm
        obtain ⟨hmade, -, hblocks⟩ := hreset.opened m (mem_markers.2 (Or.inr (Or.inr hm)))
        exact ⟨hmade.trans_le hreopens.markers, hreopens.finished ▸ hblocks⟩
    · exact (hclosed tui).keep rfl rfl hloose

theorem Live.eraseScrollback (h : Live s) : Live s.eraseScrollback := by
  have hforget : Live s.forgetFinishedBlocks := by
    refine ⟨fun m hm => ?_, h.active, fun b hb => (by cases hb), fun m hm => ?_, List.Pairwise.nil,
      fun b hb => (by cases hb), Nat.zero_le _⟩
    · obtain ⟨hmade, hkept, hblocks⟩ := h.opened m hm
      refine ⟨hmade, fun hdisposed => ?_, fun b hb => (by cases hb)⟩
      obtain hdisposed | hdisposed := List.mem_append.1 hdisposed
      · exact hkept hdisposed
      · obtain ⟨b, hb, hbm⟩ := List.mem_flatMap.1 hdisposed
        exact hblocks b hb hbm
    · obtain hm | hm := List.mem_append.1 hm
      · exact h.disposed m hm
      · obtain ⟨b, hb, hbm⟩ := List.mem_flatMap.1 hm
        exact (h.finished b hb m hbm).1
  unfold Tracker.eraseScrollback
  dsimp only
  split
  · exact hforget.modes _ _
  · exact hforget

theorem Live.step (h : Live s) (e : Event) : Live (step s e).1 := by
  cases e with
  | phase p exitCode sc =>
    cases p with
    | promptStart => exact h.promptStart sc
    | commandStart => exact h.commandStart sc
    | outputStart => exact h.outputStart sc
    | commandEnd => exact h.commandEnd exitCode sc
  | submit line now => exact h.modes _ _
  | launch =>
    obtain ⟨tui, htui⟩ := markAgentLaunched_modes true s
    change Live (s.markAgentLaunched true)
    rw [htui]
    exact h.modes _ _
  | eraseScrollback => exact h.eraseScrollback
  | modes sync mouse cursorHidden => exact h.modes _ _

end Phases

theorem live_run (events : List Event) : Live (tracker.state .new events) :=
  tracker.state_induction live_new fun _ e _ h => h.step e

/-- The blocks that are kept are at most 80, in the order of their numbers and with markers of their
own, and no marker that is shown was disposed of. -/
theorem shown_kept (events : List Event) :
    (tracker.state .new events).finished.length ≤ 80 ∧
      (tracker.state .new events).finished.Pairwise Before ∧
      ∀ m ∈ shown (tracker.state .new events), m ∉ (tracker.state .new events).disposed := by
  have h := live_run events
  refine ⟨h.few, h.before, fun m hm => ?_⟩
  obtain hm | hm := List.mem_append.1 hm
  · obtain ⟨b, hb, hbm⟩ := List.mem_flatMap.1 hm
    exact (h.finished b hb m hbm).2
  · obtain ⟨a, ha, ham⟩ := List.mem_flatMap.1 hm
    have hanchor := h.active a (Option.mem_toList.1 ha) m ham
    exact (h.opened m (List.mem_append_left _ hanchor)).2.1

end Tethra.BlockMarkers
