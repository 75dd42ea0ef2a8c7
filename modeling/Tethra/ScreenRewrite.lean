import Tethra.SyncErase
import Tethra.TerminalScreens

set_option autoImplicit false

/-!
# What the rewrite does to the screen

A terminal behind the filter against one that reads the stream itself, for any screen the
two start on.
-/
namespace Tethra.ScreenRewrite
open Transducers SyncFilter TerminalScreens
open SyncErase (Gathered gathered_feed)

variable {rows cols : ℕ} {Pen Cell Modes : Type}

/-- Nothing waits to wrap. -/
def Settled (s : Screen rows cols Pen Cell Modes) : Prop :=
  settle (s.cursor.col : ℕ) = s.cursor.col

/-- `CUP 1;1` goes to the first row. -/
def HomeIsTop (s : Screen rows cols Pen Cell Modes) : Prop :=
  s.originMode = true → (s.top : ℕ) = 0

variable (T : Terminal rows cols Pen Cell Modes)

/-- The filter and the terminal behind it. -/
def system : Transducer (SyncClearFilter × (ControlSequences.Phase × Screen rows cols Pen Cell Modes))
    UInt8 ControlSequences.Control :=
  machine.comp T.reader

/-- The filter gives no sequence up. It drops only what the terminal, outside any other
sequence, reads as an erase-display 3, and rewrites only what the terminal reads as an
erase-display 2 while the cursor is the one last saved. -/
structure Preserves
    (p : SyncClearFilter × (ControlSequences.Phase × Screen rows cols Pen Cell Modes))
    (byte : UInt8) : Prop where
  short : ¬ Overflows p.1 byte
  dropped : Erases p.1 byte → eraseParam p.1.csi = [0x33] →
    p.2.1 = .ground ∧ ControlSequences.eraseDisplay p.1.csi byte = some 3
  rewritten : Erases p.1 byte → eraseParam p.1.csi = [0x32] →
    ControlSequences.eraseDisplay p.1.csi byte = some 2 ∧
      p.2.2.saved = p.2.2.cursor ∧ Settled p.2.2 ∧ HomeIsTop p.2.2

instance [DecidableEq Pen]
    (p : SyncClearFilter × (ControlSequences.Phase × Screen rows cols Pen Cell Modes))
    (byte : UInt8) : Decidable (Preserves p byte) :=
  decidable_of_iff
    (¬ Overflows p.1 byte ∧
      (Erases p.1 byte → eraseParam p.1.csi = [0x33] →
        p.2.1 = .ground ∧ ControlSequences.eraseDisplay p.1.csi byte = some 3) ∧
      (Erases p.1 byte → eraseParam p.1.csi = [0x32] →
        ControlSequences.eraseDisplay p.1.csi byte = some 2 ∧ p.2.2.saved = p.2.2.cursor ∧
          settle (p.2.2.cursor.col : ℕ) = p.2.2.cursor.col ∧
          (p.2.2.originMode = true → (p.2.2.top : ℕ) = 0)))
    ⟨fun h => ⟨h.1, h.2.1, h.2.2⟩, fun h => ⟨h.short, h.dropped, h.rewritten⟩⟩

/-! ## The erase and what stands for it -/

/-- DECSC, `CUP 1;1`, `ED 0`, DECRC. -/
def homeErase (s : Screen rows cols Pen Cell Modes) : Screen rows cols Pen Cell Modes :=
  ((s.saveCursor.moveCursor 1 1).eraseInDisplay T.blank 0).restoreCursor

theorem reader_rewritten (phase : ControlSequences.Phase) (s : Screen rows cols Pen Cell Modes) :
    T.reader.state (phase, s) rewrittenErase = (.ground, homeErase T s) := by
  have hcontrols : (ControlSequences.parser T.eightBit).run phase rewrittenErase =
      (.ground, [.esc [] 0x37, .csi [0x31, 0x3b, 0x31] 0x48, .csi [] 0x4a, .esc [] 0x38]) := by
    have hground : (ControlSequences.parser T.eightBit).run phase rewrittenErase =
        (ControlSequences.parser T.eightBit).run .ground rewrittenErase := rfl
    rw [hground]
    cases T.eightBit <;> decide +kernel
  rw [Transducer.run, Prod.mk.injEq] at hcontrols
  rw [T.reader_state, hcontrols.1, hcontrols.2]
  have hhome : ControlSequences.cursorPosition [0x31, 0x3b, 0x31] 0x48 = some (1, 1) := by
    decide +kernel
  have herase : ControlSequences.eraseDisplay [] 0x4a = some 0 := by decide +kernel
  have hmove : ControlSequences.cursorPosition [] 0x4a = none := by decide +kernel
  simp only [List.foldl_cons, List.foldl_nil, Terminal.perform, Terminal.performCsi, hhome,
    herase, hmove]
  rfl

theorem reader_erase (phase : ControlSequences.Phase) (s : Screen rows cols Pen Cell Modes)
    {params : Bytes} {n : ℕ} (h : ∀ byte ∈ params, 0x20 ≤ byte ∧ byte ≤ 0x3f)
    (herase : ControlSequences.eraseDisplay params 0x4a = some n) :
    T.reader.state (phase, s) ([0x1b, 0x5b] ++ params ++ [0x4a]) =
      (.ground, s.eraseInDisplay T.blank n) := by
  have hcontrols : (ControlSequences.parser T.eightBit).run phase
      ([0x1b, 0x5b] ++ params ++ [0x4a]) = (.ground, [.csi params 0x4a]) :=
    ControlSequences.run_csi T.eightBit phase h (by decide)
  rw [Transducer.run, Prod.mk.injEq] at hcontrols
  have hmove : ControlSequences.cursorPosition params 0x4a = none := by
    unfold ControlSequences.cursorPosition
    split
    · simp
    · rfl
  rw [T.reader_state, hcontrols.1, hcontrols.2]
  simp only [List.foldl_cons, List.foldl_nil, Terminal.perform, Terminal.performCsi, herase, hmove]

theorem eraseInDisplay_three (s : Screen rows cols Pen Cell Modes) :
    s.eraseInDisplay T.blank 3 = s := by
  simp [Screen.eraseInDisplay, Screen.erases]

theorem erases_home (cursor : Cursor rows cols Pen) (row : Fin rows) (col : Fin cols)
    (hrow : (cursor.row : ℕ) = 0) (hcol : (cursor.col : ℕ) = 0) :
    Screen.erases cursor 0 row col := by
  rcases Nat.eq_zero_or_pos (row : ℕ) with hzero | hpos
  · right
    exact ⟨Fin.ext (hrow.trans hzero.symm), by omega⟩
  · left
    rw [Fin.lt_def, hrow]
    exact hpos

/-- The rewrite erases every cell, and it saves the cursor and unsets a pending wrap. -/
theorem homeErase_eq {s : Screen rows cols Pen Cell Modes} (hhome : HomeIsTop s) :
    homeErase T s = { s.eraseInDisplay T.blank 2 with
      cursor := { s.cursor with col := settle (s.cursor.col : ℕ) }, saved := s.cursor } := by
  have hrow : ((s.saveCursor.moveCursor 1 1).cursor.row : ℕ) = 0 := by
    cases horigin : s.originMode with
    | true => simp [Screen.moveCursor, Screen.saveCursor, Screen.upTo, horigin, hhome horigin]
    | false => simp [Screen.moveCursor, Screen.saveCursor, Screen.upTo, horigin]
  have hgrid : (homeErase T s).grid = (s.eraseInDisplay T.blank 2).grid := by
    funext row col
    have hcell := erases_home _ row col hrow (by simp [Screen.moveCursor, settle])
    change (if Screen.erases _ 0 row col then T.blank s.cursor.pen else s.grid row col) =
      if True then T.blank s.cursor.pen else s.grid row col
    rw [if_pos hcell, if_pos trivial]
  have hrest : homeErase T s = { s with
      grid := (homeErase T s).grid,
      cursor := { s.cursor with col := settle (s.cursor.col : ℕ) }, saved := s.cursor } := rfl
  rw [hrest, hgrid]
  rfl

theorem homeErase_eq_iff {s : Screen rows cols Pen Cell Modes} (hhome : HomeIsTop s) :
    homeErase T s = s.eraseInDisplay T.blank 2 ↔ s.saved = s.cursor ∧ Settled s := by
  rw [homeErase_eq T hhome]
  constructor
  · intro h
    have hsaved := congrArg Screen.saved h
    have hcol := congrArg (fun s => s.cursor.col) h
    exact ⟨hsaved.symm, hcol⟩
  · rintro ⟨hsaved, hcol⟩
    have hcursor : { s.cursor with col := settle (s.cursor.col : ℕ) } = s.cursor := by
      rw [show settle (s.cursor.col : ℕ) = s.cursor.col from hcol]
    rw [hcursor]
    calc
      _ = { s.eraseInDisplay T.blank 2 with cursor := s.cursor, saved := s.saved } := by
        rw [hsaved]
      _ = s.eraseInDisplay T.blank 2 := rfl

/-! ## Steps -/

/-- What the terminal shows after the held bytes and the next one, it shows after what the
filter passes on and the bytes it then holds. -/
theorem system_step
    {p : SyncClearFilter × (ControlSequences.Phase × Screen rows cols Pen Cell Modes)}
    {byte : UInt8} (hgathered : Gathered p.1) (h : Preserves p byte) :
    T.reader.state p.2 (p.1.pending ++ [byte]) =
      T.reader.state (T.reader.state p.2 (feed p.1 byte).2) (feed p.1 byte).1.pending := by
  obtain ⟨f, phase, s⟩ := p
  rw [← Transducer.state_append]
  by_cases herases : Erases f byte
  · obtain ⟨hs, herase, hsync, hparam⟩ := id herases
    have hfinal : byte = 0x4a := by
      simp only [isErase, Bool.and_eq_true, beq_iff_eq] at herase
      exact herase.1
    subst hfinal
    have hfeed : feed f 0x4a = handleCsi { f with state := .ground, csi := [] } f.csi 0x4a := by
      simp [feed, hs]
    have hheld : (feed f 0x4a).1.pending = [] := by
      rw [hfeed]
      exact pending_ground (handleCsi_state _ _ _)
    change T.reader.state (phase, s) (f.pending ++ [0x4a]) =
      T.reader.state (phase, s) ((feed f 0x4a).2 ++ (feed f 0x4a).1.pending)
    rw [hheld, pending_csi hs, List.append_nil]
    obtain hparam | hparam := hparam
    · obtain ⟨hread, hsaved, hsettled, hhome⟩ := h.rewritten herases hparam
      have hout : (feed f 0x4a).2 = rewrittenErase := by
        rw [hfeed]
        exact handleCsi_rewrites herase hsync hparam
      rw [hout, reader_rewritten, reader_erase T phase s (hgathered hs) hread,
        (homeErase_eq_iff T hhome).2 ⟨hsaved, hsettled⟩]
    · obtain ⟨hground, hread⟩ := h.dropped herases hparam
      have hout : (feed f 0x4a).2 = [] := by
        rw [hfeed]
        exact handleCsi_drops herase hsync hparam
      rw [hout, reader_erase T phase s (hgathered hs) hread, eraseInDisplay_three]
      change _ = (phase, s)
      rw [show phase = .ground from hground]
  · rw [(feed_pending herases).1 h.short]

/-! ## Streams -/

theorem held_shows_nothing {f : SyncClearFilter} (hgathered : Gathered f)
    (phase : ControlSequences.Phase) (s : Screen rows cols Pen Cell Modes) :
    (T.reader.state (phase, s) f.pending).2 = s := by
  rw [T.reader_state]
  cases hs : f.state with
  | ground => rw [pending_ground hs]; rfl
  | esc => rw [pending_esc hs]; rfl
  | csi =>
    have hintro := ControlSequences.run_introduced T.eightBit phase (hgathered hs)
    rw [Transducer.run, Prod.mk.injEq] at hintro
    rw [pending_csi hs, hintro.2]
    rfl

/-- Along a run whose steps preserve the screen, the terminal behind the filter lacks only
what the filter holds. -/
theorem system_run {f : SyncClearFilter}
    {d : ControlSequences.Phase × Screen rows cols Pen Cell Modes} {stream : Bytes}
    (hgathered : Gathered f)
    (h : ∀ p byte, (system T).Visits (f, d) stream p byte → Preserves p byte) :
    T.reader.state d (f.pending ++ stream) =
      T.reader.state (T.reader.state d (machine.output f stream))
        (machine.state f stream).pending := by
  induction stream generalizing f d with
  | nil => simp
  | cons byte stream ih =>
    have hfirst := h (f, d) byte ((system T).visits_cons.2 (Or.inl ⟨rfl, rfl⟩))
    have hstep := system_step T (p := (f, d)) hgathered hfirst
    have hrest := ih (f := (feed f byte).1) (d := T.reader.state d (feed f byte).2)
      (gathered_feed hgathered) fun p b hvisit =>
        h p b ((system T).visits_cons.2 (Or.inr hvisit))
    have hsplit : f.pending ++ byte :: stream = (f.pending ++ [byte]) ++ stream := by simp
    rw [hsplit, Transducer.state_append, hstep, ← Transducer.state_append, hrest,
      Transducer.output_cons, Transducer.state_cons, Transducer.state_append]
    rfl

/-- A terminal shows the same behind the filter while the steps preserve the screen, and a
rewrite of an erase-display 2 preserves it only if the cursor is the one last saved. -/
theorem filter_preserves_screen :
    (∀ (s : Screen rows cols Pen Cell Modes) (chunks : List Bytes),
      (∀ p byte, (system T).Visits (.new, .ground, s) chunks.flatten p byte →
        Preserves p byte) →
      T.shows s (Transducer.pushes push .new chunks).flatten = T.shows s chunks.flatten) ∧
    ∀ s : Screen rows cols Pen Cell Modes, HomeIsTop s →
      (T.shows s rewrittenErase = T.shows s (emitCsi [0x32] 0x4a) ↔
        s.saved = s.cursor ∧ Settled s) := by
  constructor
  · intro s chunks h
    have hgathered : Gathered (machine.state .new chunks.flatten) := by
      apply machine.state_induction (I := Gathered)
      · intro hs
        cases hs
      · intro f byte _ hf
        exact gathered_feed hf
    have hrun := system_run T (f := .new) (d := (.ground, s)) (by intro hs; cases hs) h
    rw [machine.flatten_pushes push_eq_run]
    unfold Terminal.shows
    rw [show T.reader.state (.ground, s) chunks.flatten = _ from hrun]
    exact (held_shows_nothing T hgathered _ _).symm
  · intro s hhome
    rw [← homeErase_eq_iff T hhome]
    unfold Terminal.shows
    rw [reader_rewritten]
    have herase : T.reader.state (.ground, s) ([0x1b, 0x5b] ++ [0x32] ++ [0x4a]) =
        (.ground, s.eraseInDisplay T.blank 2) :=
      reader_erase T .ground s (by decide +kernel) (by decide +kernel)
    rw [emitCsi, herase]

/-- Two rows of three cells, and no control but those every terminal has. -/
def sampleTerminal : Terminal 2 3 Unit UInt8 Unit := ⟨false, fun _ => 0x20, fun _ s => s⟩

def home : Cursor 2 3 Unit := ⟨0, 0, ()⟩

def sampleScreen : Screen 2 3 Unit UInt8 Unit := ⟨fun _ _ => 0x78, home, home, 0, 1, false, ()⟩

/-- `CSI ? 2026 h`, `CSI 2 J`, `CSI 3 J`, `CSI ? 2026 l`. -/
def block : Bytes :=
  emitCsi [0x3f, 0x32, 0x30, 0x32, 0x36] 0x68 ++ emitCsi [0x32] 0x4a ++ emitCsi [0x33] 0x4a ++
    emitCsi [0x3f, 0x32, 0x30, 0x32, 0x36] 0x6c

/-- `CUP 2;2` and DECSC. -/
def placed : Bytes := emitCsi [0x32, 0x3b, 0x32] 0x48 ++ [0x1b, 0x37]

theorem filter_preserves_screen_sample :
    sampleTerminal.shows sampleScreen (Transducer.pushes push .new [placed, block]).flatten =
      sampleTerminal.shows sampleScreen [placed, block].flatten ∧
    (sampleTerminal.shows sampleScreen rewrittenErase =
        sampleTerminal.shows sampleScreen (emitCsi [0x32] 0x4a) ↔
      sampleScreen.saved = sampleScreen.cursor ∧ Settled sampleScreen) := by
  have hvisited : ∀ x ∈ (system sampleTerminal).visited (.new, .ground, sampleScreen)
      [placed, block].flatten, Preserves x.1 x.2 := by decide +kernel
  exact ⟨(filter_preserves_screen sampleTerminal).1 sampleScreen [placed, block]
      fun p byte hvisit => hvisited (p, byte) (Transducer.mem_visited _ |>.2 hvisit),
    (filter_preserves_screen sampleTerminal).2 sampleScreen (by intro h; cases h)⟩

/-- The cursor is saved, moved, and restored after a block that erases the display. -/
def restored : Bytes :=
  [0x1b, 0x37] ++ emitCsi [0x32, 0x3b, 0x32] 0x48 ++ block ++ [0x1b, 0x38]

theorem filter_preserves_screen_fails :
    (sampleTerminal.shows sampleScreen restored).cursor = home ∧
    (sampleTerminal.shows sampleScreen
      (Transducer.pushes push .new [restored]).flatten).cursor = ⟨1, 1, ()⟩ ∧
    sampleTerminal.shows sampleScreen (Transducer.pushes push .new [restored]).flatten ≠
      sampleTerminal.shows sampleScreen [restored].flatten := by
  have hreads : (sampleTerminal.shows sampleScreen restored).cursor = home := by decide +kernel
  have hfilters : (sampleTerminal.shows sampleScreen
      (Transducer.pushes push .new [restored]).flatten).cursor = ⟨1, 1, ()⟩ := by decide +kernel
  refine ⟨hreads, hfilters, fun h => ?_⟩
  have hcursor := congrArg Screen.cursor h
  rw [hfilters, List.flatten_singleton, hreads] at hcursor
  exact absurd hcursor (by decide)

end Tethra.ScreenRewrite
