import Tethra.BlockTracker
import Tethra.ShellHooks

set_option autoImplicit false

/-!
# Commands entered at a prompt of bash

The hooks of the shell, the parser of its stream and the tracker of the blocks together. The blocks
are those of the lines that were entered, with the statuses of the commands.
-/
namespace Tethra.EnteredCommands
open BlockTracker MarkerResync OutputPump ScriptText ShellHooks TerminalMarkers Transducers

/-- The event of the stream that a phase is applied for. -/
def mark : Event → Option TerminalEvent
  | .phase p exitCode _ => some (.block p exitCode)
  | _ => none

def marks (events : List Event) : List TerminalEvent := events.filterMap mark

def exitCode : BlockEvent → Option (Option ℤ)
  | .commandEnd exitCode => some exitCode
  | _ => none

def exitCodes (found : List BlockEvent) : List (Option ℤ) := found.filterMap exitCode

/-- The terminal registers markers, a command starts within 30 seconds of the line that waits
longest, at most 32 lines wait, and no project is launched. -/
def usual (s : Tracker) : Event → Bool
  | .phase .outputStart _ sc =>
    sc.registers && s.submitted.head?.any fun entry => decide (sc.now - entry.2 ≤ 30000)
  | .phase _ _ sc => sc.registers
  | .submit _ _ => decide (s.submitted.length < 32)
  | .launch => false
  | _ => true

/-! ## The order of the marks -/

def Allowed (running : Bool) : BlockEvent → Prop
  | .promptStart => True
  | .commandStart | .outputStart => running = false
  | .commandEnd _ => running = true

def after (running : Bool) : BlockEvent → Bool
  | .promptStart => running
  | .outputStart => true
  | .commandStart | .commandEnd _ => false

def Alternates : Bool → List BlockEvent → Prop
  | _, [] => True
  | running, b :: found => Allowed running b ∧ Alternates (after running b) found

/-- The blocks of bash end before the next prompt. -/
theorem alternates_blocks (promptChain : String) (ran : Bool) (periods : List Period) :
    Alternates ran (blocks promptChain ran periods) := by
  induction periods generalizing ran with
  | nil => exact trivial
  | cons period periods ih =>
    have hprompt : Alternates false ([.promptStart, .commandStart] ++
        (if period.ran promptChain then [.outputStart] else []) ++
        blocks promptChain (period.ran promptChain) periods) := by
      refine ⟨trivial, rfl, ?_⟩
      have hrest := ih (period.ran promptChain)
      cases hran : period.ran promptChain with
      | false =>
        rw [hran] at hrest
        exact hrest
      | true =>
        rw [hran] at hrest
        exact ⟨rfl, hrest⟩
    cases ran with
    | false => exact hprompt
    | true => exact ⟨rfl, hprompt⟩

/-! ## One event -/

section Steps
variable {running : Bool} {s : Tracker} {l : Labels}

/-- A block comes from the input box when the open one does. -/
theorem fromInput_commandEnd (s : Tracker) (c : Option ℤ) (sc : Screen) :
    ∀ b ∈ (s.commandEnd c sc).2, b.fromInput = s.opened.commandFromInput := by
  have hopened := (settle_frame sc s.resetTuiState).2.2
  unfold Tracker.commandEnd
  dsimp only
  split
  · exact fun b hb => (by cases hb)
  · split
    · exact fun b hb => (by cases hb)
    · intro b hb
      rw [List.mem_singleton.1 hb]
      exact congrArg OpenBlock.commandFromInput hopened

/-- The command that runs is the submission that is held, and no project is launched. -/
structure Holds (running : Bool) (s : Tracker) (l : Labels) : Prop where
  labelled : Labelled running s l
  held : l.held.isSome = running
  launched : l.launched = false

theorem holds_new : Holds false .new .new := ⟨labelled_new, rfl, rfl⟩

theorem labelled_eq {blocks : List FinishedBlock} (h : ∀ b ∈ blocks, b.fromInput = true) :
    labelled blocks = blocks.map label := by
  rw [labelled, List.filter_eq_self.2 h]

/-- What one step gives: the blocks of the texts in front, with `codes` for exit codes. -/
structure Gives (running : Bool) (s : Tracker) (l : Labels) (e : Event) (codes : List (Option ℤ)) :
    Prop where
  holds : Holds running (step s e).1 (labelStep l e).1
  texts : l.texts ++ e.submission.toList =
    (step s e).2.map FinishedBlock.commandText ++ (labelStep l e).1.texts
  codes : (step s e).2.map FinishedBlock.exitCode = codes

/-- By what becomes of the labels. -/
theorem Gives.of_labels {e : Event} {m : Labels} {codes : List (Option ℤ)}
    (hlabels : (labelStep l e).1 = m) (hstep : Labelled running (step s e).1 m)
    (hheld : m.held.isSome = running) (hlaunched : m.launched = false)
    (htexts : l.texts ++ e.submission.toList =
      (step s e).2.map FinishedBlock.commandText ++ m.texts)
    (hcodes : (step s e).2.map FinishedBlock.exitCode = codes) : Gives running s l e codes := by
  subst hlabels
  exact ⟨⟨hstep, hheld, hlaunched⟩, htexts, hcodes⟩

theorem Holds.commandStart (h : Holds false s l) (c : Option ℤ) {sc : Screen}
    (hregisters : sc.registers = true) : Gives false s l (.phase .commandStart c sc) [] := by
  have hheld : l.held = none := by simpa using h.held
  have hstep := (h.labelled.step (.phase .commandStart c sc) rfl).1
  have hlabels : (labelStep l (.phase .commandStart c sc)).1 = l := by
    change (if sc.registers then { l with held := none } else l) = l
    rw [if_pos hregisters, ← hheld]
  rw [hlabels] at hstep
  exact .of_labels hlabels hstep h.held h.launched (List.append_nil _) rfl

/-- The start of a command takes the line that waits longest. -/
theorem Holds.outputStart (h : Holds false s l) (c : Option ℤ) {sc : Screen}
    (husual : usual s (.phase .outputStart c sc) = true) :
    Gives true s l (.phase .outputStart c sc) [] := by
  obtain ⟨hregisters, hwaits⟩ := Bool.and_eq_true_iff.1 husual
  have hheld : l.held = none := by simpa using h.held
  obtain ⟨t, noted, rest, hqueue, hfresh⟩ :
      ∃ t noted rest, l.queue = (t, noted) :: rest ∧ sc.now - noted ≤ 30000 := by
    rw [h.labelled.queue] at hwaits
    cases hqueue : l.queue with
    | nil =>
      rw [hqueue] at hwaits
      cases hwaits
    | cons entry rest =>
      rw [hqueue] at hwaits
      exact ⟨entry.1, entry.2, rest, rfl, of_decide_eq_true hwaits⟩
  have hrunning : (Event.phase .outputStart c sc).running false = true := hregisters
  have hstep := (h.labelled.step (.phase .outputStart c sc) rfl).1
  have hlabels : (labelStep l (.phase .outputStart c sc)).1 =
      { l with queue := rest, held := some t } := by
    change (if sc.registers then { l with
      queue := (Tracker.takeSubmittedCommand sc.now l.queue).2
      held := (Tracker.takeSubmittedCommand sc.now l.queue).1 } else l) = _
    rw [if_pos hregisters, hqueue, Tracker.takeSubmittedCommand, if_pos hfresh]
  rw [hlabels, hrunning] at hstep
  refine .of_labels hlabels hstep rfl h.launched ?_ rfl
  change l.held.toList ++ l.queue.map Prod.fst ++ [] = [] ++ ([t] ++ rest.map Prod.fst)
  rw [hheld, hqueue, List.append_nil]
  rfl

/-- The end of a command makes a block of the submission that is held. -/
theorem Holds.commandEnd (h : Holds true s l) (c : Option ℤ) {sc : Screen}
    (hregisters : sc.registers = true) : Gives false s l (.phase .commandEnd c sc) [c] := by
  obtain ⟨t, hheld⟩ := Option.isSome_iff_exists.1 h.held
  have hrunning : (Event.phase .commandEnd c sc).running true = false := by
    change (true && !sc.registers) = false
    rw [hregisters]
    rfl
  obtain ⟨hstep, hout⟩ := h.labelled.step (.phase .commandEnd c sc) rfl
  have hlabels : labelStep l (.phase .commandEnd c sc) = ({ l with held := none }, [(t, c)]) := by
    simp [labelStep, hregisters, h.launched, hheld]
  have hinput : ∀ b ∈ (step s (.phase .commandEnd c sc)).2, b.fromInput = true := by
    intro b hb
    rw [fromInput_commandEnd s c sc b hb, h.labelled.fromInput, h.held]
  rw [hlabels] at hstep hout
  rw [hrunning] at hstep
  rw [labelled_eq hinput] at hout
  have htexts := congrArg (List.map Prod.fst) hout
  have hcodes := congrArg (List.map Prod.snd) hout
  rw [List.map_map] at htexts hcodes
  refine .of_labels (congrArg Prod.fst hlabels) hstep rfl h.launched ?_ hcodes
  have hblock : (step s (.phase .commandEnd c sc)).2.map FinishedBlock.commandText = [t] := htexts
  rw [hblock]
  change l.held.toList ++ l.queue.map Prod.fst ++ [] = [t] ++ ([] ++ l.queue.map Prod.fst)
  rw [hheld, List.append_nil]
  rfl

/-- A phase that is due. -/
theorem Holds.phase (h : Holds running s l) {e : Event} (husual : usual s e = true) {b : BlockEvent}
    (hmark : mark e = some (blockEvent b)) (hallowed : Allowed running b) :
    Gives (after running b) s l e (exitCodes [b]) := by
  cases e with
  | phase p c sc =>
    cases b with
    | promptStart =>
      obtain ⟨rfl, rfl⟩ : p = .promptStart ∧ c = none := by simpa [mark, blockEvent] using hmark
      exact ⟨⟨h.labelled.promptStart sc, h.held, h.launched⟩, List.append_nil _, rfl⟩
    | commandStart =>
      obtain ⟨rfl, rfl⟩ : p = .commandStart ∧ c = none := by simpa [mark, blockEvent] using hmark
      cases hallowed
      exact h.commandStart none husual
    | outputStart =>
      obtain ⟨rfl, rfl⟩ : p = .outputStart ∧ c = none := by simpa [mark, blockEvent] using hmark
      cases hallowed
      exact h.outputStart none husual
    | commandEnd exitCode =>
      obtain ⟨rfl, rfl⟩ : p = .commandEnd ∧ c = exitCode := by
        simpa [mark, blockEvent] using hmark
      cases hallowed
      exact h.commandEnd c husual
  | submit | launch | eraseScrollback | modes => cases hmark

theorem Holds.submit (h : Holds running s l) {line : Text} {now : ℕ}
    (husual : usual s (.submit line now) = true) : Gives running s l (.submit line now) [] := by
  refine ⟨⟨h.labelled.submit line now, h.held, h.launched⟩, ?_, rfl⟩
  have hroom : l.queue.length < 32 := by
    rw [← h.labelled.queue]
    exact of_decide_eq_true husual
  have hsubmission : (Event.submit line now).submission =
      if trim line = [] then none else some (trim line) := rfl
  change l.held.toList ++ l.queue.map Prod.fst ++ (Event.submit line now).submission.toList =
    l.held.toList ++ (Tracker.noteSubmittedCommand line now l.queue).map Prod.fst
  rw [noteSubmittedCommand_texts, PromptMirror.noteSubmittedCommand, hsubmission, List.append_assoc]
  split
  · rw [Option.toList_none, List.append_nil]
  · dsimp only
    rw [List.length_append, List.length_map, List.length_singleton,
      Nat.sub_eq_zero_of_le (Nat.succ_le_of_lt hroom), List.drop_zero]
    rfl

theorem Holds.other (h : Holds running s l) {e : Event} (husual : usual s e = true)
    (hmark : mark e = none) : Gives running s l e [] := by
  cases e with
  | phase p c sc => cases hmark
  | submit line now => exact h.submit husual
  | launch => cases husual
  | eraseScrollback =>
    exact ⟨⟨h.labelled.eraseScrollback, h.held, h.launched⟩, List.append_nil _, rfl⟩
  | modes sync mouse cursorHidden =>
    exact ⟨⟨h.labelled.keep rfl rfl rfl rfl rfl, h.held, h.launched⟩, List.append_nil _, rfl⟩

/-! ## A run -/

/-- The blocks carry the first of the texts, in order, and these exit codes. -/
def Carry (blocks : List FinishedBlock) (texts : List Text) (codes : List (Option ℤ)) : Prop :=
  blocks.map FinishedBlock.commandText <+: texts ∧ blocks.map FinishedBlock.exitCode = codes

theorem Gives.run {next : Bool} {e : Event} {codes rest : List (Option ℤ)} {events : List Event}
    (hgives : Gives next s l e codes)
    (hrest : Carry (tracker.output (step s e).1 events)
      ((labelStep l e).1.texts ++ submissions events) rest) :
    Carry (tracker.output s (e :: events)) (l.texts ++ submissions (e :: events))
      (codes ++ rest) := by
  unfold Carry
  rw [Transducer.output_cons, List.map_append, List.map_append, submissions_cons,
    ← List.append_assoc, hgives.texts, List.append_assoc]
  exact ⟨(List.prefix_append_right_inj _).2 hrest.1, congrArg₂ (· ++ ·) hgives.codes hrest.2⟩

theorem Holds.run (h : Holds running s l) {found : List BlockEvent}
    (halternates : Alternates running found) {events : List Event}
    (hmarks : marks events = found.map blockEvent)
    (husual : ∀ visit ∈ tracker.visited s events, usual visit.1 visit.2 = true) :
    Carry (tracker.output s events) (l.texts ++ submissions events) (exitCodes found) := by
  induction events generalizing running s l found with
  | nil =>
    have hnil : found = [] := List.map_eq_nil_iff.1 hmarks.symm
    rw [hnil]
    exact ⟨List.nil_prefix, rfl⟩
  | cons e events ih =>
    obtain ⟨hfirst, hrest⟩ := List.forall_mem_cons.1 husual
    cases hmark : mark e with
    | none =>
      have hother := h.other hfirst hmark
      rw [marks, List.filterMap_cons_none hmark] at hmarks
      exact hother.run (ih hother.holds halternates hmarks hrest)
    | some m =>
      rw [marks, List.filterMap_cons_some hmark] at hmarks
      cases found with
      | nil => cases hmarks
      | cons b found =>
        obtain ⟨hm, hmarks⟩ := List.cons.inj hmarks
        have hphase := h.phase hfirst (hmark.trans (congrArg some hm)) halternates.1
        have hcodes : exitCodes (b :: found) = exitCodes [b] ++ exitCodes found := by
          change ([b] ++ found).filterMap exitCode = _
          exact List.filterMap_append
        rw [hcodes]
        exact hphase.run (ih hphase.holds halternates.2 hmarks hrest)

end Steps

/-- A line is entered at the first prompt of the sample. -/
def sampleEntered : List Event :=
  [.phase .promptStart none (blankScreen 0), .phase .commandStart none (blankScreen 0),
    .submit (text "ls | wc") 10, .phase .outputStart none (blankScreen 12),
    .phase .commandEnd (some 1) (blankScreen 20), .phase .promptStart none (blankScreen 21),
    .phase .commandStart none (blankScreen 21)]

end Tethra.EnteredCommands
