import Tethra.ControlSequences

set_option autoImplicit false

/-!
# What a terminal shows

The visible part of a terminal: its cells, its cursor and the saved one, and its modes. The
controls that save, restore and move the cursor and erase the display are given; what the
other controls do to the visible part, and how cells and attributes look, is the terminal's.
-/
namespace Tethra.TerminalScreens
open Transducers ControlSequences

structure Cursor (rows cols : ℕ) (Pen : Type) where
  row : Fin rows
  /-- `cols` while a wrap is pending. -/
  col : Fin (cols + 1)
  /-- The attributes and the character set. -/
  pen : Pen
  deriving DecidableEq

structure Screen (rows cols : ℕ) (Pen Cell Modes : Type) where
  grid : Fin rows → Fin cols → Cell
  cursor : Cursor rows cols Pen
  saved : Cursor rows cols Pen
  top : Fin rows
  bottom : Fin rows
  originMode : Bool
  modes : Modes

structure Terminal (rows cols : ℕ) (Pen Cell Modes : Type) where
  eightBit : Bool
  blank : Pen → Cell
  other : Control → Screen rows cols Pen Cell Modes → Screen rows cols Pen Cell Modes

variable {rows cols : ℕ} {Pen Cell Modes : Type}

/-- A cursor that is put somewhere has no wrap pending. -/
def settle (col : ℕ) : Fin (cols + 1) := ⟨min col (cols - 1), by omega⟩

namespace Screen

def saveCursor (s : Screen rows cols Pen Cell Modes) : Screen rows cols Pen Cell Modes :=
  { s with saved := s.cursor }

def restoreCursor (s : Screen rows cols Pen Cell Modes) : Screen rows cols Pen Cell Modes :=
  { s with cursor := { s.saved with col := settle s.saved.col } }

/-- A row no further down than the given one. -/
def upTo (bound : Fin rows) (row : ℕ) : Fin rows := ⟨min row bound, by omega⟩

def lastRow (s : Screen rows cols Pen Cell Modes) : Fin rows :=
  ⟨rows - 1, by have := s.cursor.row.isLt; omega⟩

/-- Rows are counted from the top margin in origin mode. -/
def moveCursor (s : Screen rows cols Pen Cell Modes) (row col : ℕ) :
    Screen rows cols Pen Cell Modes :=
  { s with cursor :=
      { s.cursor with
        row := if s.originMode then upTo s.bottom (s.top + (row - 1)) else upTo s.lastRow (row - 1)
        col := settle (col - 1) } }

def erases (cursor : Cursor rows cols Pen) (n : ℕ) (row : Fin rows) (col : Fin cols) : Prop :=
  match n with
  | 0 => cursor.row < row ∨ (cursor.row = row ∧ (cursor.col : ℕ) ≤ col)
  | 1 => row < cursor.row ∨ (cursor.row = row ∧ (col : ℕ) ≤ cursor.col)
  | 2 => True
  | _ => False

instance (cursor : Cursor rows cols Pen) (n : ℕ) (row : Fin rows) (col : Fin cols) :
    Decidable (erases cursor n row col) := by
  unfold erases
  split <;> infer_instance

/-- The scrollback, which 3 erases, is no part of the screen. -/
def eraseInDisplay (blank : Pen → Cell) (n : ℕ) (s : Screen rows cols Pen Cell Modes) :
    Screen rows cols Pen Cell Modes :=
  { s with grid := fun row col =>
      if erases s.cursor n row col then blank s.cursor.pen else s.grid row col }

end Screen

namespace Terminal
variable (T : Terminal rows cols Pen Cell Modes)

def performCsi (s : Screen rows cols Pen Cell Modes) (seq : Bytes) (final : UInt8) :
    Screen rows cols Pen Cell Modes :=
  match cursorPosition seq final, eraseDisplay seq final with
  | some (row, col), _ => s.moveCursor row col
  | none, some n => s.eraseInDisplay T.blank n
  | none, none => T.other (.csi seq final) s

def perform (s : Screen rows cols Pen Cell Modes) : Control → Screen rows cols Pen Cell Modes
  | .esc [] 0x37 => s.saveCursor
  | .esc [] 0x38 => s.restoreCursor
  | .csi seq final => T.performCsi s seq final
  | control => T.other control s

/-- The parser and the screen, byte by byte. -/
def reader : Transducer (Phase × Screen rows cols Pen Cell Modes) UInt8 Control :=
  ⟨fun s byte => ((((parser T.eightBit).step s.1 byte).1,
    ((parser T.eightBit).step s.1 byte).2.foldl T.perform s.2),
    ((parser T.eightBit).step s.1 byte).2)⟩

theorem reader_state (phase : Phase) (s : Screen rows cols Pen Cell Modes) (stream : Bytes) :
    T.reader.state (phase, s) stream = ((parser T.eightBit).state phase stream,
      ((parser T.eightBit).output phase stream).foldl T.perform s) := by
  induction stream generalizing phase s with
  | nil => rfl
  | cons byte stream ih =>
    rw [Transducer.state_cons, Transducer.state_cons, Transducer.output_cons, List.foldl_append]
    exact ih _ _

/-- What a terminal that starts on a screen shows after a stream. -/
def shows (s : Screen rows cols Pen Cell Modes) (stream : Bytes) :
    Screen rows cols Pen Cell Modes :=
  (T.reader.state (.ground, s) stream).2

end Terminal
end Tethra.TerminalScreens
