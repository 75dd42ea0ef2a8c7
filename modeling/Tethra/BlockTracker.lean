import Tethra.OutputPump
import Tethra.PromptMirror
import Tethra.PromptStripping
import Tethra.Transducers

set_option autoImplicit false

/-!
# The blocks of a terminal

A block is marked while its phases are applied. Its command is the line that was submitted from the
input box, or what the rows of the terminal show. What the rows show is arbitrary.
-/
namespace Tethra.BlockTracker
open OutputPump (TerminalBlockPhase)
open PromptStripping ScriptText TextPatterns Transducers
open ShellInjection.Pattern (TextPattern lit)

/-! ## Rows -/

/-- `^[\w.-]+@[\w.-]+:[^\s]*[#\$]` -/
def rootPrompt : TextPattern :=
  userAtHost (.seq (lit ':') (.seq (.many (.sym notSpace)) (.sym isRootGlyph)))

/-- `^[\w.-]+@[\w.-]+.*[…]` -/
def glyphPrompt : TextPattern :=
  userAtHost (.seq (.many (.sym fun u => !isLineEnd u)) (.sym isPromptGlyph))

/-- `^~(?:\/\S*)?` -/
def homePath : TextPattern :=
  .seq (lit '~') (Pattern.opt (.seq (lit '/') (.many (.sym notSpace))))

/-- `(?:\s|$)` -/
def endsWord (s : Text) : Bool := s.head?.all isSpace

/-- `\s+\S` -/
def spacedWord (s : Text) : Bool := s.head?.any isSpace && (s.dropWhile isSpace).head?.any notSpace

/-- `(?:\s+[…]|\s*$|\s+\S)` -/
def afterHome (s : Text) : Bool := s.all isSpace || spacedWord s

/-- The length of `line.split(/\s+/)`. -/
def splitCount (line : Text) : ℕ :=
  (line.splitBy fun a b => isSpace a == isSpace b).countP (fun run => run.any isSpace) + 1

/-- `[…]\s*\S*$` -/
def endsAfterGlyph (t : Text) : Bool :=
  t.tails.any fun s => s.head?.any isPromptGlyph && (s.tail.dropWhile isSpace).all notSpace

def looksLikePromptLine (raw : Text) : Bool :=
  let t := raw.rdropWhile isSpace
  let line := stripOrnaments t
  if t = [] then false
  else if (rootPrompt.rests t).any endsWord then true
  else if (glyphPrompt.rests t).any endsWord then true
  else if (homePath.rests line).any afterHome &&
      (t.any isPs1End || (homePath.rests (trim line)).contains [] ||
        ((homePath.rests line).any spacedWord && decide (splitCount line ≤ 6))) then true
  else endsAfterGlyph t && decide (t.length < 200) && (t.take 80).any isPs1End

def isPlausibleCommandText (stripped : Text) : Bool :=
  let t := trim stripped
  if t = [] then false
  else if 160 < t.length then false
  else if t.contains ShellInjection.LF then false
  else if t = text "~" || t = text "." || t = text ".." then false
  else !looksLikeDirectoryListing t

/-! ## The terminal -/

abbrev Marker := ℕ

/-- What a phase sees of the terminal: the clock, the row of the cursor, the rows, the rows of the
markers it still has, whether it registers markers, and where the shell is. -/
structure Screen where
  now : ℕ
  cursor : ℕ
  getLine : ℕ → Option Text
  line : Marker → Option ℕ
  registers : Bool
  rebinds : Bool
  cwd : Option Text
  gitBranch : Option Text

/-- The rows above `bound`, upwards. -/
def rowsBelow (bound count : ℕ) : List ℕ :=
  (List.range count).filterMap fun k => if k < bound then some (bound - 1 - k) else none

/-- The first row that shows a prompt and a command, of those given. -/
def findPromptRow (sc : Screen) (rows : List ℕ) : Option (ℕ × Text) :=
  rows.findSome? fun y =>
    let raw := (sc.getLine y).getD []
    let stripped := trim (stripPs1 raw)
    if trim raw = [] then none
    else if !looksLikePromptLine raw then none
    else if !isPlausibleCommandText stripped then none
    else some (y, stripped)

def findCommandAboveCursor (sc : Screen) : Option (ℕ × Text) :=
  findPromptRow sc (rowsBelow (sc.cursor + 1) 7)

/-- From the row above `last` on. -/
def findFirstPromptRowAbove (sc : Screen) (last : ℕ) : Option (ℕ × Text) :=
  findPromptRow sc (rowsBelow last 2001)

def markerAtLine (sc : Screen) (absLine : ℕ) : Bool :=
  sc.rebinds && decide (sc.cursor ≤ absLine + 4000 ∧ absLine ≤ sc.cursor + 10)

/-! ## The tracker -/

structure BlockMeta where
  cwd : Option Text
  gitBranch : Option Text
  startedAt : ℕ
  endedAt : Option ℕ

structure FinishedBlock where
  id : ℕ
  prompt : Marker
  command : Marker
  last : Marker
  fromInput : Bool
  commandText : Text
  outputText : Text
  exitCode : Option ℤ
  info : BlockMeta
  lineCount : ℤ

def FinishedBlock.markers (b : FinishedBlock) : List Marker := [b.prompt, b.command, b.last]

structure ActiveBlock where
  prompt : Marker
  command : Marker
  info : BlockMeta

/-- `open` of the tracker. -/
structure OpenBlock where
  promptStart : Option Marker
  commandStart : Option Marker
  outputStart : Option Marker
  commandText : Option Text
  commandFromInput : Bool
  info : Option BlockMeta

def OpenBlock.empty : OpenBlock := ⟨none, none, none, none, false, none⟩

structure TuiState where
  sync : Bool
  mouse : Bool
  cursorHidden : Bool
  agentLaunched : Bool
  launchWiped : Bool

def freshTuiState : TuiState := ⟨false, false, false, false, false⟩

/-- The tracker of a session, the commands submitted there, its modes, and the markers made and
disposed of. -/
structure Tracker where
  opened : OpenBlock
  finished : List FinishedBlock
  active : Option ActiveBlock
  nextId : ℕ
  submitted : List (Text × ℕ)
  tui : TuiState
  markers : ℕ
  disposed : List Marker

def Tracker.new : Tracker := ⟨.empty, [], none, 0, [], freshTuiState, 0, []⟩

namespace Tracker

def dispose (s : Tracker) (markers : List Marker) : Tracker :=
  { s with disposed := s.disposed ++ markers }

def resetTuiState (s : Tracker) : Tracker :=
  { s with tui := { s.tui with sync := false, mouse := false, cursorHidden := false } }

def markAgentLaunched (on : Bool) (s : Tracker) : Tracker :=
  if s.tui.agentLaunched = on then s
  else { s with tui := { s.tui with
    agentLaunched := on, launchWiped := on && s.tui.launchWiped } }

def noteSubmittedCommand (line : Text) (now : ℕ) (queue : List (Text × ℕ)) : List (Text × ℕ) :=
  if trim line = [] then queue
  else
    let queue := queue ++ [(trim line, now)]
    queue.drop (queue.length - 32)

/-- The first submission that is not stale, and what is left behind it. -/
def takeSubmittedCommand (now : ℕ) : List (Text × ℕ) → Option Text × List (Text × ℕ)
  | [] => (none, [])
  | (text, noted) :: queue =>
    if now - noted ≤ 30000 then (some text, queue) else takeSubmittedCommand now queue

/-- The row of a marker, `made` being those made in this phase. -/
def markerLine (s : Tracker) (sc : Screen) (made : List (Marker × ℕ)) (m : Marker) : Option ℕ :=
  if s.disposed.contains m then none else (made.lookup m).or (sc.line m)

def extractCommandLine (sc : Screen) (rows : List ℕ) : Text :=
  match rows.head? with
  | none => []
  | some lineNo =>
    let raw := (sc.getLine lineNo).getD []
    let stripped := trim (stripPs1 raw)
    if !looksLikePromptLine raw then []
    else if isPlausibleCommandText stripped then stripped else []

/-- The rows of the two markers that have one. -/
def rowsOf (s : Tracker) (sc : Screen) (made : List (Marker × ℕ)) (command prompt : Option Marker) :
    List ℕ :=
  [command, prompt].filterMap fun m => m.bind (s.markerLine sc made)

def textBetween (s : Tracker) (sc : Screen) (made : List (Marker × ℕ)) (start : Option Marker)
    (last : Marker) : Text :=
  match start.bind (s.markerLine sc made), s.markerLine sc made last with
  | some first, some final =>
    if final < first then []
    else trim ([ShellInjection.LF].intercalate
      ((List.range' first (final - first + 1)).filterMap sc.getLine))
  | _, _ => []

/-! ## The phases -/

def promptStart (sc : Screen) (s : Tracker) : Tracker :=
  let s := s.resetTuiState
  if !sc.registers then s
  else
    let info : BlockMeta := ⟨sc.cwd, sc.gitBranch, sc.now, none⟩
    { s with
      markers := s.markers + 1
      opened := { s.opened with promptStart := some s.markers, info := some info }
      active := some ⟨s.markers, s.markers, info⟩ }

def commandStart (sc : Screen) (s : Tracker) : Tracker :=
  if !sc.registers then s
  else
    let prompt := s.opened.promptStart.getD s.markers
    let info := s.opened.info.getD ⟨sc.cwd, sc.gitBranch, sc.now, none⟩
    { s with
      markers := s.markers + 1
      active := some ⟨prompt, s.markers, info⟩
      opened := ⟨some prompt, some s.markers, none, none, false, some info⟩ }

/-- A marker of the row of the prompt takes the place of those of the open block. -/
def rebind (s : Tracker) : Tracker :=
  let prompt := s.opened.promptStart
  let command := s.opened.commandStart
  let s := s.dispose (prompt.toList ++ (command.filter fun m => some m != prompt).toList)
  { s with
    markers := s.markers + 1
    opened := { s.opened with promptStart := some s.markers, commandStart := some s.markers }
    active := s.active.map fun a => ⟨s.markers, s.markers, a.info⟩ }

/-- Whether a row shows the command that was submitted. -/
def shows (submitted : Option Text) (row : Text) : Bool :=
  submitted.all fun t => row = t || startsWith row (t ++ text " ")

def outputStart (sc : Screen) (s : Tracker) : Tracker :=
  if !sc.registers then s
  else
    let cursorMarker := s.markers
    let found := findCommandAboveCursor sc
    let taken := takeSubmittedCommand sc.now s.submitted
    let s := { s with
      markers := s.markers + 1
      submitted := taken.2
      opened := { s.opened with
        commandFromInput := s.opened.commandFromInput || taken.1.isSome } }
    let rebound := found.filter fun f => shows taken.1 f.2 && markerAtLine sc f.1
    let made := (cursorMarker, sc.cursor) :: (rebound.map fun f => (s.markers, f.1)).toList
    let s := if rebound.isSome then s.rebind else s
    let commandText := taken.1.getD ((found.map Prod.snd).getD [])
    let commandText :=
      if commandText = [] then
        extractCommandLine sc (s.rowsOf sc made s.opened.commandStart s.opened.promptStart)
      else commandText
    { s with opened := { s.opened with
      outputStart := some cursorMarker
      commandText := some commandText } }

/-- What `commandEnd` works with: the markers of the block and the rows of new ones. -/
structure Ends where
  tracker : Tracker
  prompt : Marker
  command : Marker
  last : Marker
  made : List (Marker × ℕ)
  commandText : Text

/-- The row of the command is looked for again, unless the command came from the input box. -/
def settle (sc : Screen) (s : Tracker) : Ends :=
  let last := s.markers
  let command := s.opened.commandStart.getD last
  let prompt := s.opened.promptStart.getD command
  let commandText := trim (s.opened.commandText.getD [])
  let s := { s with markers := s.markers + 1 }
  if s.opened.commandFromInput then ⟨s, prompt, command, last, [(last, sc.cursor)], commandText⟩
  else
    match findFirstPromptRowAbove sc sc.cursor with
    | none => ⟨s, prompt, command, last, [(last, sc.cursor)], commandText⟩
    | some (row, commandText) =>
      if markerAtLine sc row then
        let old := [prompt].filter (· != last) ++
          [command].filter fun m => m != prompt && m != last
        ⟨{ s.dispose old with markers := s.markers + 1 }, s.markers, s.markers, last,
          [(s.markers, row), (last, sc.cursor)], commandText⟩
      else ⟨s, prompt, command, last, [(last, sc.cursor)], commandText⟩

/-- The text of `settle`, or else what the rows show. -/
def fallBack (sc : Screen) (e : Ends) : Text :=
  if e.commandText = [] then
    let found := ((findCommandAboveCursor sc).map Prod.snd).getD []
    if found = [] then
      trim (extractCommandLine sc (e.tracker.rowsOf sc e.made (some e.command) (some e.prompt)))
    else found
  else e.commandText

/-- A text that stands in the first row of the output as well is not the command. -/
def withoutEcho (sc : Screen) (e : Ends) (outputText commandText : Text) : Text :=
  let outFirst := trim ((outputText.splitOn ShellInjection.LF).headD [])
  let bare := !commandText.any fun u => isSpace u || (text "|;&<>").contains u
  if !e.tracker.opened.commandFromInput && commandText != [] && outFirst == commandText && bare then
    let fromPs1 :=
      extractCommandLine sc (e.tracker.rowsOf sc e.made (some e.prompt) (some e.prompt))
    if fromPs1 != [] && fromPs1 != commandText then fromPs1
    else (((findCommandAboveCursor sc).map Prod.snd).filter (· != commandText)).getD []
  else commandText

/-- The end of a project's launch script, which is no command of the user. -/
def launchScript (s : Tracker) : Bool := s.tui.agentLaunched && s.tui.launchWiped

def discard (e : Ends) (s : Tracker) : Tracker :=
  { s.dispose (e.prompt :: [e.command].filter (· != e.prompt) ++ e.last ::
      s.opened.outputStart.toList) with opened := .empty }

/-- At most 80 blocks are kept. -/
def keep (block : FinishedBlock) (s : Tracker) : Tracker :=
  let finished := s.finished ++ [block]
  let dropped := finished.take (finished.length - 80)
  { s.dispose (dropped.flatMap FinishedBlock.markers) with
    finished := finished.drop (finished.length - 80)
    opened := .empty }

def commandEnd (exitCode : Option ℤ) (sc : Screen) (s : Tracker) : Tracker × List FinishedBlock :=
  let s := s.resetTuiState
  if !sc.registers then (s, [])
  else
    let e := settle sc s
    let opened := e.tracker.opened
    let outputText := e.tracker.textBetween sc e.made opened.outputStart e.last
    let commandText := withoutEcho sc e outputText (fallBack sc e)
    let launched := e.tracker.launchScript
    let s := { e.tracker with active := none }
    let s := if launched then markAgentLaunched false s else s
    if commandText = [] || launched ||
        (!opened.commandFromInput && !isPlausibleCommandText commandText) then (discard e s, [])
    else
      let info := opened.info.getD ⟨none, none, sc.now, none⟩
      let block : FinishedBlock :=
        { id := s.nextId + 1
          prompt := e.prompt
          command := e.command
          last := e.last
          fromInput := opened.commandFromInput
          commandText := commandText
          outputText := outputText
          exitCode := exitCode
          info := ⟨info.cwd.or sc.cwd, info.gitBranch.or sc.gitBranch, info.startedAt, some sc.now⟩
          lineCount := max 1 ((sc.cursor : ℤ) -
            ((e.tracker.markerLine sc e.made e.prompt).elim (-1) Int.ofNat) + 1) }
      (keep block { s with nextId := s.nextId + 1 }, [block])

/-- `forgetFinishedBlocks`, when the scrollback is erased. -/
def forgetFinishedBlocks (s : Tracker) : Tracker :=
  { s.dispose (s.finished.flatMap FinishedBlock.markers) with finished := [] }

def eraseScrollback (s : Tracker) : Tracker :=
  let s := s.forgetFinishedBlocks
  if s.tui.agentLaunched then { s with tui := { s.tui with launchWiped := true } } else s

def applyPhase (phase : TerminalBlockPhase) (exitCode : Option ℤ) (sc : Screen) (s : Tracker) :
    Tracker × List FinishedBlock :=
  match phase with
  | .promptStart => (s.promptStart sc, [])
  | .commandStart => (s.commandStart sc, [])
  | .outputStart => (s.outputStart sc, [])
  | .commandEnd => s.commandEnd exitCode sc

end Tracker

inductive Event where
  | phase (p : TerminalBlockPhase) (exitCode : Option ℤ) (sc : Screen)
  | submit (line : Text) (now : ℕ)
  | launch
  | eraseScrollback
  /-- The modes a program sets. -/
  | modes (sync mouse cursorHidden : Bool)

def step (s : Tracker) : Event → Tracker × List FinishedBlock
  | .phase p exitCode sc => s.applyPhase p exitCode sc
  | .submit line now =>
    ({ s with submitted := Tracker.noteSubmittedCommand line now s.submitted }, [])
  | .launch => (s.markAgentLaunched true, [])
  | .eraseScrollback => (s.eraseScrollback, [])
  | .modes sync mouse cursorHidden =>
    ({ s with tui := { s.tui with sync := sync, mouse := mouse, cursorHidden := cursorHidden } },
      [])

/-- The tracker, which emits the blocks it finishes. -/
def tracker : Transducer Tracker Event FinishedBlock := ⟨step⟩

/-! ## The labels -/

/-- What the input box says of the blocks: the commands submitted, the one that runs, and the flags
of a project's launch. -/
structure Labels where
  queue : List (Text × ℕ)
  held : Option Text
  launched : Bool
  wiped : Bool

def Labels.new : Labels := ⟨[], none, false, false⟩

def labelStep (l : Labels) : Event → Labels × List (Text × Option ℤ)
  | .phase .promptStart _ _ => (l, [])
  | .phase .commandStart _ sc => (if sc.registers then { l with held := none } else l, [])
  | .phase .outputStart _ sc =>
    (if sc.registers then { l with
      queue := (Tracker.takeSubmittedCommand sc.now l.queue).2
      held := (Tracker.takeSubmittedCommand sc.now l.queue).1 } else l, [])
  | .phase .commandEnd exitCode sc =>
    if !sc.registers then (l, [])
    else if l.launched && l.wiped then (⟨l.queue, none, false, false⟩, [])
    else ({ l with held := none }, l.held.toList.map fun t => (t, exitCode))
  | .submit line now => ({ l with queue := Tracker.noteSubmittedCommand line now l.queue }, [])
  | .launch => ({ l with launched := true }, [])
  | .eraseScrollback => ({ l with wiped := l.wiped || l.launched }, [])
  | .modes _ _ _ => (l, [])

/-- Each command that ends is labelled with the submission that its start took. -/
def labels : Transducer Labels Event (Text × Option ℤ) := ⟨labelStep⟩

/-- The commands entered, in order. -/
def Event.submission : Event → Option Text
  | .submit line _ => if trim line = [] then none else some (trim line)
  | _ => none

def submissions (events : List Event) : List Text := events.filterMap Event.submission

theorem submissions_cons (e : Event) (events : List Event) :
    submissions (e :: events) = e.submission.toList ++ submissions events := by
  unfold submissions
  rw [List.filterMap_cons]
  cases e.submission <;> rfl

/-! ### The order of the phases -/

/-- A start of output that is marked. -/
def Event.starts : Event → Bool
  | .phase .outputStart _ sc => sc.registers
  | _ => false

def Event.running (e : Event) (running : Bool) : Bool :=
  match e with
  | .phase .outputStart _ sc => running || sc.registers
  | .phase .commandStart _ sc | .phase .commandEnd _ sc => running && !sc.registers
  | _ => running

/-- Between two starts of output there is a prompt or an end. -/
def ordered : Bool → List Event → Bool
  | _, [] => true
  | running, e :: events => !(running && e.starts) && ordered (e.running running) events

/-! ### Tracker and labels -/

def label (b : FinishedBlock) : Text × Option ℤ := (b.commandText, b.exitCode)

def labelled (blocks : List FinishedBlock) : List (Text × Option ℤ) :=
  (blocks.filter FinishedBlock.fromInput).map label

/-- A submission as it is queued. -/
def Entered (t : Text) : Prop := trim t = t ∧ t ≠ []

structure Labelled (running : Bool) (s : Tracker) (l : Labels) : Prop where
  queue : s.submitted = l.queue
  launched : s.tui.agentLaunched = l.launched
  wiped : s.tui.launchWiped = l.wiped
  fromInput : s.opened.commandFromInput = l.held.isSome
  commandText : ∀ t, l.held = some t → s.opened.commandText = some t
  queued : ∀ t ∈ l.queue.map Prod.fst, Entered t
  held : ∀ t, l.held = some t → Entered t
  idle : running = false → l.held = none

theorem labelled_new : Labelled false .new .new := by
  constructor <;> simp [Tracker.new, Labels.new, freshTuiState, OpenBlock.empty]

theorem entered_trim {line : Text} (h : trim line ≠ []) : Entered (trim line) :=
  ⟨Trimming.trimmed_of_bare (Trimming.bare_trimmed isSpace line), h⟩

theorem takeSubmittedCommand_sublist (now : ℕ) (queue : List (Text × ℕ)) :
    ((Tracker.takeSubmittedCommand now queue).1.toList ++
      (Tracker.takeSubmittedCommand now queue).2.map Prod.fst).Sublist (queue.map Prod.fst) := by
  induction queue with
  | nil => exact List.Sublist.refl _
  | cons entry queue ih =>
    obtain ⟨t, noted⟩ := entry
    unfold Tracker.takeSubmittedCommand
    split
    · exact List.Sublist.refl _
    · exact ih.cons _

/-- The texts of the queue are those that the panel sees. -/
theorem noteSubmittedCommand_texts (line : Text) (now : ℕ) (queue : List (Text × ℕ)) :
    (Tracker.noteSubmittedCommand line now queue).map Prod.fst =
      PromptMirror.noteSubmittedCommand line (queue.map Prod.fst) := by
  unfold Tracker.noteSubmittedCommand PromptMirror.noteSubmittedCommand
  by_cases hblank : trim line = []
  · rw [if_pos hblank, if_pos hblank]
  · rw [if_neg hblank, if_neg hblank]
    dsimp only
    rw [List.map_drop, List.map_append, List.length_append, List.length_append, List.length_map]
    rfl

theorem noteSubmittedCommand_sublist (line : Text) (now : ℕ) (queue : List (Text × ℕ)) :
    ((Tracker.noteSubmittedCommand line now queue).map Prod.fst).Sublist
      (queue.map Prod.fst ++ (Event.submit line now).submission.toList) := by
  have hsubmission : (Event.submit line now).submission =
      if trim line = [] then none else some (trim line) := rfl
  rw [hsubmission, noteSubmittedCommand_texts, PromptMirror.noteSubmittedCommand]
  by_cases hblank : trim line = []
  · rw [if_pos hblank, if_pos hblank, Option.toList_none, List.append_nil]
  · rw [if_neg hblank, if_neg hblank]
    exact List.drop_sublist _ _

section Steps
variable {running : Bool} {s : Tracker} {l : Labels}

/-- What keeps the commands, the flags and the open block's text keeps the labels. -/
theorem Labelled.keep {t : Tracker} (h : Labelled running s l)
    (hsubmitted : t.submitted = s.submitted)
    (hlaunched : t.tui.agentLaunched = s.tui.agentLaunched)
    (hwiped : t.tui.launchWiped = s.tui.launchWiped)
    (hfromInput : t.opened.commandFromInput = s.opened.commandFromInput)
    (htext : t.opened.commandText = s.opened.commandText) : Labelled running t l := by
  obtain ⟨hq, hl, hw, hf, ht, hqueued, hheld, hidle⟩ := h
  exact ⟨hsubmitted.trans hq, hlaunched.trans hl, hwiped.trans hw, hfromInput.trans hf,
    fun t ht' => htext.trans (ht t ht'), hqueued, hheld, hidle⟩

theorem Labelled.promptStart (h : Labelled running s l) (sc : Screen) :
    Labelled running (s.promptStart sc) l := by
  unfold Tracker.promptStart
  dsimp only
  split <;> exact h.keep rfl rfl rfl rfl rfl

/-- After a prompt no submission is held. -/
theorem Labelled.commandStart (h : Labelled running s l) (sc : Screen) :
    Labelled (running && !sc.registers) (s.commandStart sc)
      (if sc.registers then { l with held := none } else l) := by
  unfold Tracker.commandStart
  cases hregisters : sc.registers with
  | false => simpa using h
  | true =>
    exact ⟨h.queue, h.launched, h.wiped, rfl, fun _ ht => (by cases ht), h.queued,
      fun _ ht => (by cases ht), fun _ => rfl⟩

/-- The submission that is taken is the text of the block, whatever the rows show. -/
theorem outputStart_frame {sc : Screen} (s : Tracker) (hregisters : sc.registers = true) :
    (s.outputStart sc).submitted = (Tracker.takeSubmittedCommand sc.now s.submitted).2 ∧
      (s.outputStart sc).tui = s.tui ∧
      (s.outputStart sc).opened.commandFromInput = (s.opened.commandFromInput ||
        (Tracker.takeSubmittedCommand sc.now s.submitted).1.isSome) ∧
      ∀ t, (Tracker.takeSubmittedCommand sc.now s.submitted).1 = some t → t ≠ [] →
        (s.outputStart sc).opened.commandText = some t := by
  unfold Tracker.outputStart
  rw [if_neg (by simp [hregisters])]
  dsimp only
  split <;> refine ⟨rfl, rfl, rfl, fun t ht hne => ?_⟩ <;> simp [ht, hne]

theorem Labelled.outputStart (h : Labelled running s l) (sc : Screen)
    (horder : (running && sc.registers) = false) :
    Labelled (running || sc.registers) (s.outputStart sc)
      (if sc.registers then { l with
        queue := (Tracker.takeSubmittedCommand sc.now l.queue).2
        held := (Tracker.takeSubmittedCommand sc.now l.queue).1 } else l) := by
  cases hregisters : sc.registers with
  | false =>
    unfold Tracker.outputStart
    simpa [hregisters] using h
  | true =>
    have hrunning : running = false := by simpa [hregisters] using horder
    have hfromInput : s.opened.commandFromInput = false := by rw [h.fromInput, h.idle hrunning]; rfl
    obtain ⟨hsubmitted, htui, hflag, htext⟩ := outputStart_frame s hregisters
    rw [h.queue] at hsubmitted hflag htext
    have hentered : ∀ t ∈ (Tracker.takeSubmittedCommand sc.now l.queue).1.toList ++
        (Tracker.takeSubmittedCommand sc.now l.queue).2.map Prod.fst, Entered t :=
      fun t ht => h.queued t ((takeSubmittedCommand_sublist sc.now l.queue).subset ht)
    have hheld : ∀ t, (Tracker.takeSubmittedCommand sc.now l.queue).1 = some t → Entered t :=
      fun t ht => hentered t (List.mem_append_left _ (by simp [ht]))
    rw [hfromInput, Bool.false_or] at hflag
    refine ⟨hsubmitted, (congrArg _ htui).trans h.launched, (congrArg _ htui).trans h.wiped, hflag,
      fun t ht => htext t ht (hheld t ht).2, fun t ht => hentered t (List.mem_append_right _ ht),
      hheld, fun hidle => ?_⟩
    rw [hrunning] at hidle
    cases hidle

theorem settle_frame (sc : Screen) (s : Tracker) :
    (Tracker.settle sc s).tracker.submitted = s.submitted ∧
      (Tracker.settle sc s).tracker.tui = s.tui ∧
      (Tracker.settle sc s).tracker.opened = s.opened := by
  unfold Tracker.settle
  dsimp only
  split
  · exact ⟨rfl, rfl, rfl⟩
  · split
    · exact ⟨rfl, rfl, rfl⟩
    · split <;> exact ⟨rfl, rfl, rfl⟩

/-- A text from the input box is the label, whatever the rows show. -/
theorem settle_input {sc : Screen} {s : Tracker} {t : Text}
    (hfromInput : s.opened.commandFromInput = true) (htext : s.opened.commandText = some t)
    (ht : Entered t) (outputText : Text) :
    Tracker.withoutEcho sc (Tracker.settle sc s) outputText
      (Tracker.fallBack sc (Tracker.settle sc s)) = t := by
  have hsettled : (Tracker.settle sc s).commandText = t := by
    unfold Tracker.settle
    dsimp only
    rw [if_pos hfromInput, htext]
    exact ht.1
  have hopened := (settle_frame sc s).2.2
  rw [Tracker.fallBack, hsettled, if_neg ht.2, Tracker.withoutEcho, hopened, hfromInput]
  rfl

/-- When the open block is closed or given up, no submission is held. -/
theorem Labelled.ended {t : Tracker} (h : Labelled running s l)
    (hsubmitted : t.submitted = s.submitted) (hopened : t.opened = .empty) :
    Labelled false t ⟨l.queue, none, t.tui.agentLaunched, t.tui.launchWiped⟩ := by
  refine ⟨hsubmitted.trans h.queue, rfl, rfl, by rw [hopened]; rfl, fun _ ht => ?_, h.queued,
    fun _ ht => ?_, fun _ => rfl⟩ <;> cases ht

theorem markAgentLaunched_off (h : s.tui.agentLaunched = true) : s.markAgentLaunched false =
    { s with tui := { s.tui with agentLaunched := false, launchWiped := false } } := by
  unfold Tracker.markAgentLaunched
  rw [if_neg (by simp [h])]
  rfl

theorem labelled_input (b : FinishedBlock) (h : b.fromInput = true) : labelled [b] = [label b] := by
  simp [labelled, h]

theorem labelled_other (b : FinishedBlock) (h : b.fromInput = false) : labelled [b] = [] := by
  simp [labelled, h]

theorem Labelled.commandEnd (h : Labelled running s l) (exitCode : Option ℤ) (sc : Screen) :
    Labelled (running && !sc.registers) (s.commandEnd exitCode sc).1
        (labelStep l (.phase .commandEnd exitCode sc)).1 ∧
      labelled (s.commandEnd exitCode sc).2 = (labelStep l (.phase .commandEnd exitCode sc)).2 := by
  have hreset : Labelled running s.resetTuiState l := h.keep rfl rfl rfl rfl rfl
  unfold Tracker.commandEnd labelStep
  dsimp only
  cases hregisters : sc.registers with
  | false => exact ⟨by simpa using hreset, rfl⟩
  | true =>
    obtain ⟨hsubmitted, htui, hopened⟩ := settle_frame sc s.resetTuiState
    have hlaunch : (Tracker.settle sc s.resetTuiState).tracker.launchScript =
        (l.launched && l.wiped) := by
      rw [Tracker.launchScript, htui, hreset.launched, hreset.wiped]
    have hfromInput : (Tracker.settle sc s.resetTuiState).tracker.opened.commandFromInput =
        l.held.isSome := by
      rw [hopened]
      exact hreset.fromInput
    simp only [Bool.not_true, Bool.false_eq_true, if_false, Bool.and_false, hlaunch, hfromInput]
    cases hwiped : l.launched && l.wiped with
    | true =>
      have hlaunched : (Tracker.settle sc s.resetTuiState).tracker.tui.agentLaunched = true := by
        rw [htui, hreset.launched]
        exact (Bool.and_eq_true_iff.1 hwiped).1
      simp only [Bool.or_true, Bool.true_or, if_true]
      refine ⟨?_, rfl⟩
      rw [markAgentLaunched_off (s := { (Tracker.settle sc s.resetTuiState).tracker with
        active := none }) hlaunched]
      exact hreset.ended hsubmitted rfl
    | false =>
      have hended : ∀ t : Tracker, t.submitted = s.submitted → t.tui = s.resetTuiState.tui →
          t.opened = .empty → Labelled false t ⟨l.queue, none, l.launched, l.wiped⟩ := by
        intro t hqueue hmodes hempty
        have hlabelled := hreset.ended hqueue hempty
        rw [hmodes, hreset.launched, hreset.wiped] at hlabelled
        exact hlabelled
      simp only [Bool.false_eq_true, if_false, Bool.or_false]
      cases hheld : l.held with
      | some t =>
        have hinput : s.resetTuiState.opened.commandFromInput = true := by
          rw [hreset.fromInput, hheld]
          rfl
        have htext (outputText : Text) : Tracker.withoutEcho sc (Tracker.settle sc s.resetTuiState)
            outputText (Tracker.fallBack sc (Tracker.settle sc s.resetTuiState)) = t :=
          settle_input hinput (hreset.commandText t hheld) (hreset.held t hheld) outputText
        have hne : t ≠ [] := (hreset.held t hheld).2
        simp only [htext, Option.isSome_some]
        rw [if_neg (by simp [hne])]
        exact ⟨hended _ hsubmitted htui rfl, labelled_input _ rfl⟩
      | none =>
        split
        · exact ⟨hended _ hsubmitted htui rfl, rfl⟩
        · exact ⟨hended _ hsubmitted htui rfl, labelled_other _ rfl⟩

theorem Labelled.submit (h : Labelled running s l) (line : Text) (now : ℕ) :
    Labelled running { s with submitted := Tracker.noteSubmittedCommand line now s.submitted }
      { l with queue := Tracker.noteSubmittedCommand line now l.queue } := by
  refine ⟨by rw [h.queue], h.launched, h.wiped, h.fromInput, h.commandText, fun t ht => ?_, h.held,
    h.idle⟩
  have hmem := (noteSubmittedCommand_sublist line now l.queue).subset ht
  obtain hmem | hmem := List.mem_append.1 hmem
  · exact h.queued t hmem
  · have hsubmission : (Event.submit line now).submission =
        if trim line = [] then none else some (trim line) := rfl
    rw [hsubmission] at hmem
    split at hmem
    · cases hmem
    · rw [List.mem_singleton.1 hmem]
      exact entered_trim ‹_›

theorem Labelled.launch (h : Labelled running s l) :
    Labelled running (s.markAgentLaunched true) { l with launched := true } := by
  unfold Tracker.markAgentLaunched
  split
  · rename_i hlaunched
    exact { h with launched := hlaunched }
  · exact { h with launched := rfl, wiped := h.wiped }

theorem Labelled.eraseScrollback (h : Labelled running s l) :
    Labelled running s.eraseScrollback { l with wiped := l.wiped || l.launched } := by
  have hforget : Labelled running s.forgetFinishedBlocks l := h.keep rfl rfl rfl rfl rfl
  unfold Tracker.eraseScrollback
  dsimp only
  split
  · rename_i hlaunched
    have hl : l.launched = true := hforget.launched.symm.trans hlaunched
    exact { hforget with wiped := by rw [hl, Bool.or_true] }
  · rename_i hlaunched
    have hl : l.launched = false := by
      rw [← hforget.launched]
      exact Bool.eq_false_iff.2 hlaunched
    exact { hforget with wiped := by rw [hforget.wiped, hl, Bool.or_false] }

theorem Labelled.step (h : Labelled running s l) (e : Event)
    (horder : (running && e.starts) = false) :
    Labelled (e.running running) (step s e).1 (labelStep l e).1 ∧
      labelled (BlockTracker.step s e).2 = (labelStep l e).2 := by
  cases e with
  | phase p exitCode sc =>
    cases p with
    | promptStart => exact ⟨h.promptStart sc, rfl⟩
    | commandStart => exact ⟨h.commandStart sc, rfl⟩
    | outputStart => exact ⟨h.outputStart sc horder, rfl⟩
    | commandEnd => exact h.commandEnd exitCode sc
  | submit line now => exact ⟨h.submit line now, rfl⟩
  | launch => exact ⟨h.launch, rfl⟩
  | eraseScrollback => exact ⟨h.eraseScrollback, rfl⟩
  | modes sync mouse cursorHidden => exact ⟨h.keep rfl rfl rfl rfl rfl, rfl⟩

theorem Labelled.run (h : Labelled running s l) (events : List Event)
    (horder : ordered running events = true) :
    labelled (tracker.output s events) = labels.output l events := by
  induction events generalizing running s l with
  | nil => rfl
  | cons e events ih =>
    obtain ⟨hfirst, hrest⟩ := Bool.and_eq_true_iff.1 horder
    obtain ⟨hstep, hout⟩ := h.step e (by rwa [Bool.not_eq_true'] at hfirst)
    have hsplit : labelled (tracker.output s (e :: events)) = labelled (BlockTracker.step s e).2 ++
        labelled (tracker.output (BlockTracker.step s e).1 events) := by
      rw [Transducer.output_cons, labelled, List.filter_append, List.map_append]
      rfl
    rw [hsplit, Transducer.output_cons, hout, ih hstep hrest]
    rfl

end Steps

/-! ### What the labels are -/

/-- The texts that may still become labels. -/
def Labels.texts (l : Labels) : List Text := l.held.toList ++ l.queue.map Prod.fst

theorem labelStep_texts (l : Labels) (e : Event) :
    ((labelStep l e).2.map Prod.fst ++ (labelStep l e).1.texts).Sublist
      (l.texts ++ e.submission.toList) := by
  have hqueue : (l.queue.map Prod.fst).Sublist l.texts := List.sublist_append_right _ _
  have hgrows (more : List Text) : l.texts.Sublist (l.texts ++ more) := List.sublist_append_left _ _
  cases e with
  | phase p exitCode sc =>
    refine List.Sublist.trans ?_ (hgrows _)
    cases p with
    | promptStart => exact List.Sublist.refl _
    | commandStart =>
      change (Labels.texts (if sc.registers then { l with held := none } else l)).Sublist _
      split
      · exact hqueue
      · exact List.Sublist.refl _
    | outputStart =>
      change (Labels.texts (if sc.registers then { l with
        queue := (Tracker.takeSubmittedCommand sc.now l.queue).2
        held := (Tracker.takeSubmittedCommand sc.now l.queue).1 } else l)).Sublist _
      split
      · exact (takeSubmittedCommand_sublist sc.now l.queue).trans hqueue
      · exact List.Sublist.refl _
    | commandEnd =>
      unfold labelStep
      dsimp only
      split
      · exact List.Sublist.refl _
      · split
        · exact hqueue
        · have hlabels :
              (l.held.toList.map fun t => (t, exitCode)).map Prod.fst = l.held.toList := by
            cases l.held <;> rfl
          rw [hlabels]
          exact List.Sublist.refl _
  | submit line now =>
    have hnote := (noteSubmittedCommand_sublist line now l.queue).append_left l.held.toList
    rw [← List.append_assoc] at hnote
    exact hnote
  | launch => exact hgrows _
  | eraseScrollback => exact hgrows _
  | modes sync mouse cursorHidden => exact hgrows _

/-- The labels are submissions, each used at most once and in order. -/
theorem labels_sublist (l : Labels) (events : List Event) :
    ((labels.output l events).map Prod.fst).Sublist (l.texts ++ submissions events) := by
  induction events generalizing l with
  | nil => exact List.nil_sublist _
  | cons e events ih =>
    rw [Transducer.output_cons, List.map_append, submissions_cons, ← List.append_assoc]
    have hrest := (ih (labels.step l e).1).append_left ((labels.step l e).2.map Prod.fst)
    have hstep := (labelStep_texts l e).append_right (submissions events)
    rw [List.append_assoc] at hstep
    exact hrest.trans hstep

/-- Whatever the rows of the terminal show, the blocks that the input box labels are those of the
submissions that the starts of their commands took, with the exit codes of their ends. -/
theorem labels_refine (events : List Event) (horder : ordered false events = true) :
    labelled (tracker.output .new events) = labels.output .new events ∧
      ((labelled (tracker.output .new events)).map Prod.fst).Sublist (submissions events) := by
  have hrefine := labelled_new.run events horder
  refine ⟨hrefine, ?_⟩
  rw [hrefine]
  exact labels_sublist .new events

/-- A terminal that shows nothing. -/
def blankScreen (now : ℕ) : Screen :=
  ⟨now, 0, fun _ => none, fun _ => none, true, true, none, none⟩

/-- Two lines are entered at once; the second waits for the end of the first. -/
def sampleEvents : List Event :=
  [.phase .promptStart none (blankScreen 0), .phase .commandStart none (blankScreen 0),
    .submit (text " ls ") 10, .submit (text "make") 11,
    .phase .outputStart none (blankScreen 12), .phase .commandEnd (some 0) (blankScreen 20),
    .phase .promptStart none (blankScreen 21), .phase .commandStart none (blankScreen 21),
    .phase .outputStart none (blankScreen 22), .phase .commandEnd (some 2) (blankScreen 90)]

theorem labels_refine_sample : labelled (tracker.output .new sampleEvents) =
    [(text "ls", some 0), (text "make", some 2)] := by
  obtain ⟨hlabels, -⟩ := labels_refine sampleEvents (by decide)
  rw [hlabels]
  decide +kernel

end Tethra.BlockTracker
