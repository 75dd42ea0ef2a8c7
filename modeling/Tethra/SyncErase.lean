import Tethra.SyncFilter
import Tethra.ControlSequences

set_option autoImplicit false

/-!
# The terminal behind the filter

The terminal parses what the filter passes on. It keeps its scrollback through a block if
it never executes an erase-display 2 or 3 there, however the sequence was spelled.
-/
namespace Tethra.SyncErase
open Transducers SyncFilter

abbrev Phase := ControlSequences.Phase

/-- The mode of synchronized output. -/
def syncMode : ℕ := 2026

/-- Whether a terminal that reads the stream wipes its scrollback inside a block. -/
def WipesInBlock (eightBit : Bool) (stream : Bytes) : Prop :=
  true ∈ (ControlSequences.monitor syncMode).output false
    ((ControlSequences.parser eightBit).output .ground stream)

instance (eightBit : Bool) (stream : Bytes) : Decidable (WipesInBlock eightBit stream) := by
  unfold WipesInBlock
  infer_instance

/-- The filter, the terminal's parser, and whether the terminal is in a block. -/
abbrev Pipe := (SyncClearFilter × Phase) × Bool

def pipe (eightBit : Bool) : Transducer Pipe UInt8 Bool :=
  (machine.comp (ControlSequences.parser eightBit)).comp (ControlSequences.monitor syncMode)

def Pipe.new : Pipe := ((.new, .ground), false)

/-- In a block, the byte ends a sequence that wipes for the terminal: one the filter has
gathered and does not take for an erase-display 2 or 3 in a block, or one the filter is not
gathering any more. -/
def Misread (p : Pipe) (byte : UInt8) : Prop :=
  p.2 = true ∧
    ((p.1.1.state = .csi ∧ ControlSequences.wipes (.csi p.1.1.csi byte) = true ∧
        ¬ Erases p.1.1 byte) ∨
      (p.1.1.state = .ground ∧
        ∃ seq, p.1.2 = .csi seq ∧ ControlSequences.wipes (.csi seq byte) = true))

/-! ## What the filter gathers -/

def Gathered (f : SyncClearFilter) : Prop :=
  f.state = .csi → ∀ byte ∈ f.csi, 0x20 ≤ byte ∧ byte ≤ 0x3f

theorem gathered_feed {f : SyncClearFilter} {byte : UInt8} (h : Gathered f) :
    Gathered (feed f byte).1 := by
  unfold feed
  split
  · split
    · intro hs
      cases hs
    · exact h
  · split
    · intro _ b hb
      cases hb
    · intro hs
      cases hs
  · rename_i hs
    split
    · intro hground
      rw [handleCsi_state] at hground
      cases hground
    · split
      · rename_i hparam
        split
        · intro hground
          cases hground
        · intro _ b hb
          obtain hb | hb := List.mem_append.1 hb
          · exact h hs b hb
          · rw [List.mem_singleton.1 hb]
            exact hparam
      · intro hground
        cases hground

variable (eightBit : Bool)

theorem rewrittenErase_quiet (phase : Phase) (on : Bool) :
    true ∉ (ControlSequences.monitor syncMode).output on
      ((ControlSequences.parser eightBit).output phase rewrittenErase) := by
  have hground : (ControlSequences.parser eightBit).output phase rewrittenErase =
      (ControlSequences.parser eightBit).output .ground rewrittenErase := rfl
  rw [hground]
  cases eightBit <;> cases on <;> decide +kernel

theorem output_introduced (phase : Phase) {params : Bytes} (rest : Bytes)
    (h : ∀ byte ∈ params, 0x20 ≤ byte ∧ byte ≤ 0x3f) :
    (ControlSequences.parser eightBit).output phase ([0x1b, 0x5b] ++ params ++ rest) =
      (ControlSequences.parser eightBit).output (.csi params) rest := by
  have hintro := ControlSequences.run_introduced eightBit phase h
  rw [Transducer.run, Prod.mk.injEq] at hintro
  rw [Transducer.output_append, hintro.1, hintro.2, List.nil_append]

/-- Passing on a byte wipes exactly at the end of a sequence. -/
theorem monitor_byte (on : Bool) (phase : Phase) (byte : UInt8) :
    true ∈ (ControlSequences.monitor syncMode).output on
        ((ControlSequences.parser eightBit).output phase [byte]) ↔
      on = true ∧ ∃ seq, phase = .csi seq ∧ ControlSequences.wipes (.csi seq byte) = true := by
  rw [← ControlSequences.monitor_step eightBit syncMode]
  simp [ControlSequences.parser]

theorem not_wipes {seq : Bytes} {byte : UInt8} (h : byte ≠ 0x4a) :
    ControlSequences.wipes (.csi seq byte) = false :=
  Bool.eq_false_iff.2 fun hwipes => h (ControlSequences.wipes_csi hwipes)

/-- A step wipes in a block exactly if its byte is misread. -/
theorem pipe_step {p : Pipe} {byte : UInt8} (h : Gathered p.1.1) :
    true ∈ ((pipe eightBit).step p byte).2 ↔ Misread p byte := by
  obtain ⟨⟨f, phase⟩, on⟩ := p
  change true ∈ (ControlSequences.monitor syncMode).output on
    ((ControlSequences.parser eightBit).output phase (feed f byte).2) ↔ _
  cases hs : f.state with
  | ground =>
    by_cases hesc : byte = 0x1b
    · have hfeed : (feed f byte).2 = [] := by simp [feed, hs, hesc]
      rw [hfeed]
      refine iff_of_false (by simp) ?_
      rintro ⟨-, ⟨hcsi, -⟩ | ⟨-, seq, -, hwipes⟩⟩
      · exact absurd (hs.symm.trans hcsi) (by decide)
      · rw [not_wipes (by rw [hesc]; decide)] at hwipes
        cases hwipes
    · have hfeed : (feed f byte).2 = [byte] := by simp [feed, hs, hesc]
      rw [hfeed, monitor_byte]
      simp [Misread, hs]
  | esc =>
    have hnot : ¬ Misread ((f, phase), on) byte := by
      rintro ⟨-, ⟨hcsi, -⟩ | ⟨hground, -⟩⟩
      · exact absurd (hs.symm.trans hcsi) (by decide)
      · exact absurd (hs.symm.trans hground) (by decide)
    refine iff_of_false ?_ hnot
    by_cases hbracket : byte = 0x5b
    · have hfeed : (feed f byte).2 = [] := by simp [feed, hs, hbracket]
      rw [hfeed]
      simp
    · have hfeed : (feed f byte).2 = [0x1b, byte] := by simp [feed, hs, hbracket]
      have hrestart : (ControlSequences.parser eightBit).output phase [0x1b, byte] =
          (ControlSequences.parser eightBit).output (.escape []) [byte] := rfl
      rw [hfeed, hrestart, monitor_byte]
      rintro ⟨-, seq, hseq, -⟩
      cases hseq
  | csi =>
    have hgathered := h hs
    have hmisread : Misread ((f, phase), on) byte ↔ on = true ∧
        ControlSequences.wipes (.csi f.csi byte) = true ∧ ¬ Erases f byte := by
      simp [Misread, hs]
    rw [hmisread]
    by_cases hfinal : 0x40 ≤ byte ∧ byte ≤ 0x7e
    · have hfeed : (feed f byte).2 =
          (handleCsi { f with state := .ground, csi := [] } f.csi byte).2 := by
        simp [feed, hs, hfinal]
      rw [hfeed]
      by_cases herases : Erases f byte
      · refine iff_of_false ?_ fun h => h.2.2 herases
        obtain ⟨-, hred, hsync, hparam | hparam⟩ := herases
        · have hout : (handleCsi { f with state := .ground, csi := [] } f.csi byte).2 =
              rewrittenErase := handleCsi_rewrites hred hsync hparam
          rw [hout]
          exact rewrittenErase_quiet eightBit phase on
        · have hout : (handleCsi { f with state := .ground, csi := [] } f.csi byte).2 = [] :=
            handleCsi_drops hred hsync hparam
          rw [hout]
          simp
      · have hplain : (handleCsi { f with state := .ground, csi := [] } f.csi byte).2 =
            emitCsi f.csi byte := handleCsi_plain fun he => herases ⟨hs, he⟩
        rw [hplain, emitCsi, output_introduced eightBit phase [byte] hgathered, monitor_byte]
        simp [herases]
    · have hquiet : ControlSequences.wipes (.csi f.csi byte) = false :=
        not_wipes fun hj => hfinal (by rw [hj]; decide)
      refine iff_of_false ?_ fun h => absurd h.2.1 (by simp [hquiet])
      by_cases hparam : 0x20 ≤ byte ∧ byte ≤ 0x3f
      · have hall : ∀ b ∈ f.csi ++ [byte] ++ [byte], 0x20 ≤ b ∧ b ≤ 0x3f := by
          intro b hb
          simp only [List.append_assoc, List.mem_append, List.mem_singleton, or_self] at hb
          obtain hb | rfl := hb
          · exact hgathered b hb
          · exact hparam
        by_cases hlong : 64 < (f.csi ++ [byte]).length
        · have hfeed : (feed f byte).2 = [0x1b, 0x5b] ++ (f.csi ++ [byte] ++ [byte]) ++ [] := by
            simp only [feed, hs, hfinal, hparam, hlong]
            simp
          rw [hfeed, output_introduced eightBit phase [] hall]
          simp
        · have hfeed : (feed f byte).2 = [] := by
            simp only [feed, hs, hfinal, hparam, hlong]
            simp
          rw [hfeed]
          simp
      · have hfeed : (feed f byte).2 = [0x1b, 0x5b] ++ f.csi ++ [byte] := by
          simp [feed, hs, hfinal, hparam]
        rw [hfeed, output_introduced eightBit phase [byte] hgathered, monitor_byte]
        rintro ⟨-, seq, hseq, hwipes⟩
        cases hseq
        rw [hquiet] at hwipes
        cases hwipes

/-! ## Streams -/

theorem gathered_visited {p : Pipe} {byte : UInt8} {stream : Bytes}
    (hvisit : (pipe eightBit).Visits .new stream p byte) : Gathered p.1.1 := by
  apply Transducer.Visits.invariant (pipe eightBit) (I := fun p => Gathered p.1.1) hvisit
  · intro hs
    cases hs
  · intro p byte h
    exact gathered_feed h

/-- `CSI ? 2026 h`. -/
def opening : Bytes := [0x1b, 0x5b, 0x3f, 0x32, 0x30, 0x32, 0x36, 0x68]

example : ¬ WipesInBlock false (Transducer.pushes push .new
    [opening, [0x1b, 0x5b, 0x32], [0x4a, 0x1b, 0x5b, 0x33, 0x3b, 0x31, 0x4a]]).flatten := by
  decide +kernel

end Tethra.SyncErase
