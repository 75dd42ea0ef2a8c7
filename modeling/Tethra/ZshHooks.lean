import Tethra.ShellHooks

set_option autoImplicit false

/-!
# The hooks of zsh

zsh calls one hook before the line that was entered and one before each prompt. Bash calls its own
before every simple command, and writes what zsh would have written of the lines.
-/
namespace Tethra.ZshHooks
open RustText ShellHooks TerminalMarkers Transducers

inductive ZshEvent where
  | output (bytes : Bytes)
  | preexec
  | precmd (p : Prompt)

/-- The state is `__tethra_has_cmd`. -/
def zshStep (hasCmd : Bool) : ZshEvent → Bool × Bytes
  | .output bytes => (hasCmd, bytes)
  | .preexec => (true, osc (ascii "133;C"))
  | .precmd p =>
    (false, (if hasCmd then osc (ascii "133;D;" ++ ascii (toString p.status.toNat)) else []) ++
      promptStart p)

def zsh : Transducer Bool ZshEvent UInt8 := ⟨zshStep⟩

/-- No line is entered but at a prompt, and one at most; `entered` if none can be. -/
def Lines : Bool → List ZshEvent → Prop
  | _, [] => True
  | entered, .output _ :: events => Lines entered events
  | entered, .preexec :: events => entered = false ∧ Lines true events
  | _, .precmd _ :: events => Lines false events

/-- A shell of bash as one of zsh: a line is entered where its first command runs. -/
def asZsh (promptChain : String) : Bool → List ShellEvent → List ZshEvent
  | _, [] => []
  | entered, .output bytes :: events => .output bytes :: asZsh promptChain entered events
  | entered, .debug command compLine :: events =>
    if !entered && userCommand promptChain (.debug command compLine) then
      .preexec :: asZsh promptChain true events
    else asZsh promptChain entered events
  | _, .prompt p :: events => .precmd p :: asZsh promptChain false events

theorem lines_asZsh (promptChain : String) (entered : Bool) (events : List ShellEvent) :
    Lines entered (asZsh promptChain entered events) := by
  induction events generalizing entered with
  | nil => exact trivial
  | cons e events ih =>
    cases e with
    | output bytes => exact ih entered
    | prompt p => exact ih false
    | debug command compLine =>
      unfold asZsh
      split
      · rename_i hfirst
        have hentered : entered = false := by
          rw [Bool.and_eq_true_iff, Bool.not_eq_true'] at hfirst
          exact hfirst.1
        exact ⟨hentered, ih true⟩
      · exact ih entered

/-! ## The hooks of bash -/

/-- The flags of the two shells when a line can be entered, and when none can. -/
structure Like (s : Bash) (hasCmd entered : Bool) : Prop where
  hasCmd : s.hasCmd = hasCmd
  atPrompt : s.atPrompt = !entered
  ready : entered = false → s.ready = true

section Steps
variable {promptChain : String} {s : Bash} {hasCmd entered : Bool}

/-- The first command of a line. -/
theorem Like.first (h : Like s hasCmd false) {command compLine : String}
    (hcommand : userCommand promptChain (.debug command compLine) = true) :
    preexec promptChain s command compLine =
      ({ s with atPrompt := false, hasCmd := true }, osc (ascii "133;C")) := by
  obtain ⟨hline, hown⟩ := Bool.and_eq_true_iff.1 hcommand
  rw [Bool.not_eq_true'] at hown
  unfold preexec
  rw [if_neg (by simp [h.ready rfl]), if_neg (by simp [hline]), if_neg (by simp [h.atPrompt]),
    if_neg (by simp [hown])]

/-- Any other command, and those of completion and of the prompt. -/
theorem Like.later (h : Like s hasCmd entered) {command compLine : String}
    (hcommand : (!entered && userCommand promptChain (.debug command compLine)) = false) :
    preexec promptChain s command compLine = (s, []) := by
  by_cases hentered : entered = true
  · have hprompt : s.atPrompt = false := by rw [h.atPrompt, hentered]; rfl
    simp [preexec, hprompt]
  · have hother : userCommand promptChain (.debug command compLine) = false := by
      simpa [hentered] using hcommand
    unfold userCommand at hother
    by_cases hline : compLine.isEmpty = true
    · have hown : ofPrompt promptChain command = true := by simpa [hline] using hother
      simp [preexec, hown]
    · simp [preexec, hline]

theorem Like.run (h : Like s hasCmd entered) (events : List ShellEvent) :
    (bash promptChain).output s events = zsh.output hasCmd (asZsh promptChain entered events) := by
  induction events generalizing s hasCmd entered with
  | nil => rfl
  | cons e events ih =>
    rw [Transducer.output_cons]
    cases e with
    | output bytes => exact congrArg (bytes ++ ·) (ih h)
    | prompt p =>
      have hprompt : Like (precmd s p).1 false false := ⟨rfl, rfl, fun _ => rfl⟩
      have hout : (precmd s p).2 = (zshStep hasCmd (.precmd p)).2 := by
        rw [precmd, h.hasCmd]
        rfl
      exact congrArg₂ (· ++ ·) hout (ih hprompt)
    | debug command compLine =>
      have hstep : (bash promptChain).step s (.debug command compLine) =
          preexec promptChain s command compLine := rfl
      rw [hstep]
      unfold asZsh
      split
      · rename_i hfirst
        obtain ⟨hentered, hcommand⟩ := Bool.and_eq_true_iff.1 hfirst
        rw [Bool.not_eq_true'] at hentered
        subst hentered
        rw [h.first hcommand]
        exact congrArg (_ ++ ·) (ih ⟨rfl, rfl, fun he => (by cases he)⟩)
      · rename_i hlater
        rw [h.later (Bool.eq_false_iff.2 hlater)]
        exact ih h

end Steps

end Tethra.ZshHooks
