import Tethra.Transducers

set_option autoImplicit false

/-!
# Control sequences of a terminal

A parser in the manner of ECMA-48: it reads bytes and says what a terminal executes. An
escape starts a new sequence wherever it stands, and control characters inside a sequence
are executed without ending it. A parser of eight bits takes the bytes 80 to 9F as controls.
-/
namespace Tethra.ControlSequences
open Transducers

abbrev Bytes := List UInt8

inductive Control where
  | print (byte : UInt8)
  | execute (byte : UInt8)
  | esc (collected : Bytes) (final : UInt8)
  | csi (seq : Bytes) (final : UInt8)
  deriving DecidableEq

inductive Phase where
  | ground
  | escape (collected : Bytes)
  | csi (seq : Bytes)
  | oscString
  | controlString
  deriving DecidableEq

/-- What the byte after an escape opens. -/
def opens (byte : UInt8) : Phase × List Control :=
  if byte = 0x5b then (.csi [], [])
  else if byte = 0x5d then (.oscString, [])
  else if byte = 0x50 ∨ byte = 0x58 ∨ byte = 0x5e ∨ byte = 0x5f then (.controlString, [])
  else (.ground, [.esc [] byte])

def step (eightBit : Bool) (phase : Phase) (byte : UInt8) : Phase × List Control :=
  if byte = 0x1b then (.escape [], [])
  else if byte = 0x18 ∨ byte = 0x1a then (.ground, [.execute byte])
  else if eightBit = true ∧ 0x80 ≤ byte ∧ byte ≤ 0x9f then opens (byte - 0x40)
  else match phase with
  | .ground => if byte < 0x20 then (.ground, [.execute byte]) else (.ground, [.print byte])
  | .escape collected =>
    if byte < 0x20 then (.escape collected, [.execute byte])
    else if byte ≤ 0x2f then (.escape (collected ++ [byte]), [])
    else if byte = 0x7f then (.escape collected, [])
    else if 0x80 ≤ byte then (.ground, [])
    else if collected = [] then opens byte
    else (.ground, [.esc collected byte])
  | .csi seq =>
    if byte < 0x20 then (.csi seq, [.execute byte])
    else if byte ≤ 0x3f then (.csi (seq ++ [byte]), [])
    else if byte = 0x7f then (.csi seq, [])
    else if 0x80 ≤ byte then (.ground, [])
    else (.ground, [.csi seq byte])
  | .oscString => if byte = 0x07 then (.ground, []) else (.oscString, [])
  | .controlString => (.controlString, [])

def parser (eightBit : Bool) : Transducer Phase UInt8 Control := ⟨step eightBit⟩

/-! ## Parameters -/

/-- A private marker, the parameters and the intermediates of a sequence. -/
structure Sequence where
  marker : Option UInt8
  params : List ℕ
  intermediates : Bytes
  deriving DecidableEq

def isParam (byte : UInt8) : Bool := 0x30 ≤ byte && byte ≤ 0x3b

def isMarker (byte : UInt8) : Bool := 0x3c ≤ byte && byte ≤ 0x3f

def isIntermediate (byte : UInt8) : Bool := 0x20 ≤ byte && byte ≤ 0x2f

/-- The digits before a subparameter; none are zero. -/
def value (param : Bytes) : ℕ :=
  (param.takeWhile (· ≠ 0x3a)).foldl (fun n digit => 10 * n + (digit.toNat - 0x30)) 0

def readBody (marker : Option UInt8) (body : Bytes) : Option Sequence :=
  if (body.dropWhile isParam).all isIntermediate then
    some ⟨marker, ((body.takeWhile isParam).splitOn 0x3b).map value, body.dropWhile isParam⟩
  else none

/-- `none` is a sequence that is ignored. -/
def read : Bytes → Option Sequence
  | [] => readBody none []
  | first :: rest =>
    if isMarker first then readBody (some first) rest else readBody none (first :: rest)

/-- The number of an erase-display. -/
def eraseDisplay (seq : Bytes) (final : UInt8) : Option ℕ :=
  match read seq with
  | some s => if final = 0x4a ∧ s.marker = none ∧ s.intermediates = [] then
      some (s.params.headD 0) else none
  | none => none

/-- The row and the column of a cursor position, counted from one. -/
def cursorPosition (seq : Bytes) (final : UInt8) : Option (ℕ × ℕ) :=
  match read seq with
  | some s => if final = 0x48 ∧ s.marker = none ∧ s.intermediates = [] then
      some (max 1 (s.params.headD 1), max 1 (s.params.tail.headD 1)) else none
  | none => none

/-- A private mode is set or reset. -/
def switches (mode : ℕ) (seq : Bytes) (final : UInt8) : Option Bool :=
  match read seq with
  | some s => if s.marker = some 0x3f ∧ s.intermediates = [] ∧ mode ∈ s.params then
      if final = 0x68 then some true else if final = 0x6c then some false else none
    else none
  | none => none

/-- The control erases the whole display, or what has scrolled off it. -/
def wipes : Control → Bool
  | .csi seq final => eraseDisplay seq final = some 2 || eraseDisplay seq final = some 3
  | _ => false

/-- Whether the mode is on after a control. -/
def follow (mode : ℕ) (on : Bool) : Control → Bool
  | .csi seq final => (switches mode seq final).getD on
  | _ => on

/-- Says of each control whether it wipes while the mode is on. -/
def monitor (mode : ℕ) : Transducer Bool Control Bool :=
  ⟨fun on control => (follow mode on control, [on && wipes control])⟩

/-! ## Sequences read as a whole -/

theorem step_escape (eightBit : Bool) (phase : Phase) :
    step eightBit phase 0x1b = (.escape [], []) := rfl

theorem step_bracket (eightBit : Bool) : step eightBit (.escape []) 0x5b = (.csi [], []) := by
  cases eightBit <;> decide

theorem step_digit (eightBit : Bool) (seq : Bytes) {byte : UInt8} (h : 0x20 ≤ byte ∧ byte ≤ 0x3f) :
    step eightBit (.csi seq) byte = (.csi (seq ++ [byte]), []) := by
  unfold step
  grind

theorem step_final (eightBit : Bool) (seq : Bytes) {byte : UInt8} (h : 0x40 ≤ byte ∧ byte ≤ 0x7e) :
    step eightBit (.csi seq) byte = (.ground, [.csi seq byte]) := by
  unfold step
  grind

variable (eightBit : Bool)

theorem run_digits (seq : Bytes) {params : Bytes}
    (h : ∀ byte ∈ params, 0x20 ≤ byte ∧ byte ≤ 0x3f) :
    (parser eightBit).run (.csi seq) params = (.csi (seq ++ params), []) := by
  induction params generalizing seq with
  | nil => simp [Transducer.run]
  | cons byte params ih =>
    have hstep : (parser eightBit).step (.csi seq) byte = (.csi (seq ++ [byte]), []) :=
      step_digit eightBit seq (h byte (by simp))
    have hrest := ih (seq ++ [byte]) fun b hb => h b (by simp [hb])
    rw [Transducer.run, Prod.mk.injEq] at hrest
    rw [Transducer.run, Transducer.state_cons, Transducer.output_cons, hstep, hrest.1, hrest.2]
    simp

/-- What introduces a sequence and its parameters executes nothing, whatever came before. -/
theorem run_introduced (phase : Phase) {params : Bytes}
    (h : ∀ byte ∈ params, 0x20 ≤ byte ∧ byte ≤ 0x3f) :
    (parser eightBit).run phase ([0x1b, 0x5b] ++ params) = (.csi params, []) := by
  have hdigits := run_digits eightBit [] h
  rw [Transducer.run, Prod.mk.injEq] at hdigits
  have hescape : (parser eightBit).step phase 0x1b = (.escape [], []) :=
    step_escape eightBit phase
  have hbracket : (parser eightBit).step (.escape []) 0x5b = (.csi [], []) :=
    step_bracket eightBit
  rw [Transducer.run, List.cons_append, List.cons_append, List.nil_append,
    Transducer.state_cons, Transducer.output_cons, Transducer.state_cons,
    Transducer.output_cons, hescape, hbracket, hdigits.1, hdigits.2]
  rfl

/-- A whole sequence is executed and leaves the parser in its ground state. -/
theorem run_csi (phase : Phase) {params : Bytes} {final : UInt8}
    (h : ∀ byte ∈ params, 0x20 ≤ byte ∧ byte ≤ 0x3f) (hfinal : 0x40 ≤ final ∧ final ≤ 0x7e) :
    (parser eightBit).run phase ([0x1b, 0x5b] ++ params ++ [final]) =
      (.ground, [.csi params final]) := by
  have hintro := run_introduced eightBit phase h
  rw [Transducer.run, Prod.mk.injEq] at hintro
  have hstep : (parser eightBit).step (.csi params) final = (.ground, [.csi params final]) :=
    step_final eightBit params hfinal
  rw [Transducer.run, Transducer.state_append, Transducer.output_append, hintro.1, hintro.2,
    Transducer.state_cons, Transducer.output_cons, hstep]
  rfl

theorem wipes_csi {seq : Bytes} {final : UInt8} (h : wipes (.csi seq final) = true) :
    final = 0x4a := by
  simp only [wipes, eraseDisplay, Bool.or_eq_true, decide_eq_true_eq] at h
  grind

theorem opens_csi (byte : UInt8) (seq : Bytes) (final : UInt8) :
    Control.csi seq final ∉ (opens byte).2 := by
  unfold opens
  repeat' split
  all_goals simp

/-- A sequence is executed at its final byte. -/
theorem csi_mem_step {phase : Phase} {byte : UInt8} {seq : Bytes} {final : UInt8}
    (h : Control.csi seq final ∈ (step eightBit phase byte).2) :
    phase = .csi seq ∧ final = byte := by
  have hopens := opens_csi byte seq final
  have hopensC1 := opens_csi (byte - 0x40) seq final
  unfold step at h
  repeat' split at h
  all_goals simp_all

theorem monitor_quiet {mode : ℕ} {on : Bool} {controls : List Control}
    (h : ∀ control ∈ controls, wipes control = false) :
    true ∉ (monitor mode).output on controls := by
  intro hmem
  obtain ⟨on', control, ⟨before, after, rfl, -⟩, hwipes⟩ := (monitor mode).mem_output.1 hmem
  have hquiet := h control (by simp)
  simp [monitor, hquiet] at hwipes

/-- A wipe is executed only at the end of its sequence. -/
theorem monitor_step (mode : ℕ) (on : Bool) (phase : Phase) (byte : UInt8) :
    true ∈ (monitor mode).output on (step eightBit phase byte).2 ↔
      on = true ∧ ∃ seq, phase = .csi seq ∧ wipes (.csi seq byte) = true := by
  by_cases hsome : ∃ seq, phase = .csi seq ∧ wipes (.csi seq byte) = true
  · obtain ⟨seq, rfl, hwipes⟩ := hsome
    have hfinal := wipes_csi hwipes
    subst hfinal
    rw [step_final eightBit seq (by decide)]
    simp [monitor, hwipes]
  · have hquiet : ∀ control ∈ (step eightBit phase byte).2, wipes control = false := by
      intro control hmem
      cases control with
      | csi seq final =>
        obtain ⟨rfl, rfl⟩ := csi_mem_step eightBit hmem
        exact Bool.eq_false_iff.2 fun hwipes => hsome ⟨seq, rfl, hwipes⟩
      | _ => rfl
    exact iff_of_false (monitor_quiet hquiet) fun h => hsome h.2

end Tethra.ControlSequences
