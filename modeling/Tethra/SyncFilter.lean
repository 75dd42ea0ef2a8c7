import Tethra.Transducers

set_option autoImplicit false

/-!
# Filter PTY bytes for agent TUI scroll-jump

Inside a synchronized-output block (`CSI ? 2026 h` to `CSI ? 2026 l`) an erase-display 2 is
rewritten and an erase-display 3 is dropped. A script string of the filter is the list of
its character codes, which are all bytes.
-/
namespace Tethra.SyncFilter
open Transducers

abbrev Bytes := List UInt8

inductive State where
  | ground
  | esc
  | csi
  deriving DecidableEq

structure SyncClearFilter where
  state : State
  csi : Bytes
  /-- Inside `CSI ? 2026 h` .. `l`. -/
  inSync : Bool
  deriving DecidableEq

def SyncClearFilter.new : SyncClearFilter := ⟨.ground, [], false⟩

def containsEsc (data : Bytes) : Bool := data.any (· == 0x1b)

/-- `text.split(";")`. -/
def split (text : Bytes) : List Bytes := text.splitOn 0x3b

def isWhitespace (c : UInt8) : Bool := c == 0x20 || (0x09 ≤ c && c ≤ 0x0d) || c == 0xa0

def trim (text : Bytes) : Bytes :=
  ((text.dropWhile isWhitespace).reverse.dropWhile isWhitespace).reverse

/-- `ESC [ params final`. -/
def emitCsi (params : Bytes) (final : UInt8) : Bytes := [0x1b, 0x5b] ++ params ++ [final]

/-- `CSI ? Pm h` or `CSI ? Pm l`. -/
def setsMode (params : Bytes) (final : UInt8) : Bool :=
  params.head? == some 0x3f && (final == 0x68 || final == 0x6c)

/-- Mode 2026 is among the listed modes. -/
def namesSync (params : Bytes) : Bool :=
  ((split params.tail).map trim).contains [0x32, 0x30, 0x32, 0x36]

/-- An `ED` without a private marker. -/
def isErase (params : Bytes) (final : UInt8) : Bool := final == 0x4a && !params.contains 0x3f

def eraseParam (params : Bytes) : Bytes :=
  if params = [] then [0x30] else (split params).head?.getD [0x30]

/-- DECSC, `CUP 1;1`, `ED 0`, DECRC. -/
def rewrittenErase : Bytes :=
  [0x1b, 0x37] ++ emitCsi [0x31, 0x3b, 0x31] 0x48 ++ emitCsi [] 0x4a ++ [0x1b, 0x38]

def handleCsi (f : SyncClearFilter) (params : Bytes) (final : UInt8) : SyncClearFilter × Bytes :=
  if setsMode params final then
    (if namesSync params then { f with inSync := final == 0x68 } else f, emitCsi params final)
  else if isErase params final && f.inSync && eraseParam params == [0x33] then (f, [])
  else if isErase params final && f.inSync && eraseParam params == [0x32] then
    (f, rewrittenErase)
  else (f, emitCsi params final)

/-- One turn of the loop of `push`. -/
def feed (f : SyncClearFilter) (byte : UInt8) : SyncClearFilter × Bytes :=
  match f.state with
  | .ground => if byte = 0x1b then ({ f with state := .esc }, []) else (f, [byte])
  | .esc =>
    if byte = 0x5b then ({ f with state := .csi, csi := [] }, [])
    else ({ f with state := .ground }, [0x1b, byte])
  | .csi =>
    if 0x40 ≤ byte ∧ byte ≤ 0x7e then handleCsi { f with state := .ground, csi := [] } f.csi byte
    else if 0x20 ≤ byte ∧ byte ≤ 0x3f then
      if 64 < (f.csi ++ [byte]).length then
        -- The byte is in the sequence that is given up and follows it once more.
        ({ f with state := .ground, csi := [] }, [0x1b, 0x5b] ++ (f.csi ++ [byte]) ++ [byte])
      else ({ f with csi := f.csi ++ [byte] }, [])
    else ({ f with state := .ground, csi := [] }, [0x1b, 0x5b] ++ f.csi ++ [byte])

def machine : Transducer SyncClearFilter UInt8 UInt8 := ⟨feed⟩

def push (f : SyncClearFilter) (input : Bytes) : SyncClearFilter × Bytes :=
  if !f.inSync && f.state == .ground && !containsEsc input then (f, input)
  else machine.run f input

/-- What the filter holds back. -/
def SyncClearFilter.pending (f : SyncClearFilter) : Bytes :=
  match f.state with
  | .ground => []
  | .esc => [0x1b]
  | .csi => [0x1b, 0x5b] ++ f.csi

/-! ## Chunks -/

theorem run_ground {f : SyncClearFilter} (hf : f.state = .ground) (input : Bytes)
    (hesc : containsEsc input = false) : machine.run f input = (f, input) := by
  induction input with
  | nil => rfl
  | cons byte input ih =>
    simp only [containsEsc, List.any_cons, Bool.or_eq_false_iff] at hesc
    have hbyte : byte ≠ 0x1b := by simpa using hesc.1
    have hfeed : machine.step f byte = (f, [byte]) := by
      simp [machine, feed, hf, hbyte]
    have hrest := ih hesc.2
    rw [Transducer.run, Prod.mk.injEq] at hrest
    rw [Transducer.run, Transducer.state_cons, Transducer.output_cons, hfeed, hrest.1, hrest.2]
    rfl

/-- The fast path does what the loop does. -/
theorem push_eq_run (f : SyncClearFilter) (input : Bytes) : push f input = machine.run f input := by
  unfold push
  split
  · rename_i h
    simp only [Bool.and_eq_true, Bool.not_eq_true', beq_iff_eq] at h
    exact (run_ground h.1.2 input h.2).symm
  · rfl

/-! ## What a step keeps -/

/-- The sequence has as many parameter bytes as the filter gathers, and one more comes. -/
def Overflows (f : SyncClearFilter) (byte : UInt8) : Prop :=
  f.state = .csi ∧ (0x20 ≤ byte ∧ byte ≤ 0x3f) ∧ 64 < (f.csi ++ [byte]).length

/-- An erase-display 2 or 3 ends inside a block. -/
def Erases (f : SyncClearFilter) (byte : UInt8) : Prop :=
  f.state = .csi ∧ isErase f.csi byte = true ∧ f.inSync = true ∧
    (eraseParam f.csi = [0x32] ∨ eraseParam f.csi = [0x33])

instance (f : SyncClearFilter) (byte : UInt8) : Decidable (Overflows f byte) := by
  unfold Overflows
  infer_instance

instance (f : SyncClearFilter) (byte : UInt8) : Decidable (Erases f byte) := by
  unfold Erases
  infer_instance

theorem handleCsi_state (f : SyncClearFilter) (params : Bytes) (final : UInt8) :
    (handleCsi f params final).1.state = f.state := by
  unfold handleCsi
  split
  · split <;> rfl
  · split
    · rfl
    · split <;> rfl

theorem handleCsi_plain {f : SyncClearFilter} {params : Bytes} {final : UInt8}
    (h : ¬ (isErase params final = true ∧ f.inSync = true ∧
      (eraseParam params = [0x32] ∨ eraseParam params = [0x33]))) :
    (handleCsi f params final).2 = emitCsi params final := by
  unfold handleCsi
  split
  · rfl
  · split
    · rename_i hdrop
      simp only [Bool.and_eq_true, beq_iff_eq] at hdrop
      exact (h ⟨hdrop.1.1, hdrop.1.2, Or.inr hdrop.2⟩).elim
    · split
      · rename_i hrewrite
        simp only [Bool.and_eq_true, beq_iff_eq] at hrewrite
        exact (h ⟨hrewrite.1.1, hrewrite.1.2, Or.inl hrewrite.2⟩).elim
      · rfl

theorem setsMode_erase {params : Bytes} {final : UInt8} (h : isErase params final = true) :
    setsMode params final = false := by
  simp only [isErase, Bool.and_eq_true, beq_iff_eq] at h
  simp [setsMode, h.1]

theorem handleCsi_drops {f : SyncClearFilter} {params : Bytes} {final : UInt8}
    (herase : isErase params final = true) (hsync : f.inSync = true)
    (hparam : eraseParam params = [0x33]) : (handleCsi f params final).2 = [] := by
  simp [handleCsi, setsMode_erase herase, herase, hsync, hparam]

theorem handleCsi_rewrites {f : SyncClearFilter} {params : Bytes} {final : UInt8}
    (herase : isErase params final = true) (hsync : f.inSync = true)
    (hparam : eraseParam params = [0x32]) : (handleCsi f params final).2 = rewrittenErase := by
  simp [handleCsi, setsMode_erase herase, herase, hsync, hparam]

theorem pending_ground {f : SyncClearFilter} (h : f.state = .ground) : f.pending = [] := by
  simp [SyncClearFilter.pending, h]

theorem pending_esc {f : SyncClearFilter} (h : f.state = .esc) : f.pending = [0x1b] := by
  simp [SyncClearFilter.pending, h]

theorem pending_csi {f : SyncClearFilter} (h : f.state = .csi) :
    f.pending = [0x1b, 0x5b] ++ f.csi := by
  simp [SyncClearFilter.pending, h]

/-- A step that erases nothing in a block emits what it was holding and its byte, the byte
twice where the sequence is given up. -/
theorem feed_pending {f : SyncClearFilter} {byte : UInt8} (h : ¬ Erases f byte) :
    (¬ Overflows f byte → (feed f byte).2 ++ (feed f byte).1.pending = f.pending ++ [byte]) ∧
    (Overflows f byte → (feed f byte).2 ++ (feed f byte).1.pending = f.pending ++ [byte, byte]) := by
  cases hs : f.state with
  | ground =>
    have hnot : ¬ Overflows f byte := fun ho => absurd (hs.symm.trans ho.1) (by decide)
    refine ⟨fun _ => ?_, fun ho => (hnot ho).elim⟩
    rw [pending_ground hs]
    simp only [feed, hs]
    split
    · rename_i hesc
      rw [pending_esc rfl, hesc]
    · rw [pending_ground hs]
      rfl
  | esc =>
    have hnot : ¬ Overflows f byte := fun ho => absurd (hs.symm.trans ho.1) (by decide)
    refine ⟨fun _ => ?_, fun ho => (hnot ho).elim⟩
    rw [pending_esc hs]
    simp only [feed, hs]
    split
    · rename_i hcsi
      rw [pending_csi rfl, hcsi]
      rfl
    · rw [pending_ground rfl]
      rfl
  | csi =>
    rw [pending_csi hs]
    simp only [feed, hs]
    split
    · rename_i hfinal
      have hnot : ¬ Overflows f byte := by
        intro ho
        exact absurd (UInt8.le_trans hfinal.1 ho.2.1.2) (by decide)
      refine ⟨fun _ => ?_, fun ho => (hnot ho).elim⟩
      have hplain : (handleCsi { f with state := .ground, csi := [] } f.csi byte).2 =
          emitCsi f.csi byte := handleCsi_plain fun he => h ⟨hs, he⟩
      rw [pending_ground (handleCsi_state _ _ _), hplain]
      simp [emitCsi]
    · split
      · rename_i hparam
        split
        · rename_i hlong
          refine ⟨fun ho => (ho ⟨hs, hparam, hlong⟩).elim, fun _ => ?_⟩
          rw [pending_ground rfl]
          simp
        · rename_i hshort
          refine ⟨fun _ => ?_, fun ho => (hshort ho.2.2).elim⟩
          rw [pending_csi rfl]
          simp
      · rename_i hinvalid
        refine ⟨fun _ => ?_, fun ho => (hinvalid ho.2.1).elim⟩
        rw [pending_ground rfl]
        simp

/-! ## Streams -/

/-- Some sequence of the stream has more parameter bytes than the filter gathers. -/
def Overlong (f : SyncClearFilter) (input : Bytes) : Prop :=
  ∃ g byte, machine.Visits f input g byte ∧ Overflows g byte

/-- The filter never takes the stream to be in a block. -/
def NeverSyncs (f : SyncClearFilter) (input : Bytes) : Prop :=
  ∀ before after, input = before ++ after → (machine.state f before).inSync = false

theorem not_erases_of_neverSyncs {f g : SyncClearFilter} {input : Bytes} {byte : UInt8}
    (h : NeverSyncs f input) (hvisit : machine.Visits f input g byte) : ¬ Erases g byte := by
  rintro ⟨-, -, hsync, -⟩
  obtain ⟨before, after, hinput, rfl⟩ := hvisit
  rw [h before _ hinput] at hsync
  cases hsync

theorem output_plain {f : SyncClearFilter} {input : Bytes}
    (herase : ∀ g byte, machine.Visits f input g byte → ¬ Erases g byte)
    (hlong : ¬ Overlong f input) :
    machine.output f input ++ (machine.state f input).pending = f.pending ++ input := by
  induction input generalizing f with
  | nil => simp
  | cons byte input ih =>
    have hfirst : machine.Visits f (byte :: input) f byte :=
      machine.visits_cons.2 (Or.inl ⟨rfl, rfl⟩)
    have hrest : ∀ g b, machine.Visits (machine.step f byte).1 input g b →
        machine.Visits f (byte :: input) g b := fun g b hv => machine.visits_cons.2 (Or.inr hv)
    have hstep := (feed_pending (herase f byte hfirst)).1
      fun ho => hlong ⟨f, byte, hfirst, ho⟩
    have htail := ih (fun g b hv => herase g b (hrest g b hv))
      fun ⟨g, b, hv, ho⟩ => hlong ⟨g, b, hrest g b hv, ho⟩
    rw [Transducer.output_cons, Transducer.state_cons, List.append_assoc, htail,
      ← List.append_assoc]
    change (feed f byte).2 ++ (feed f byte).1.pending ++ input = _
    rw [hstep]
    simp

/-- Nothing a step holds is lost, so an overlong sequence makes the output longer. -/
theorem length_output {f : SyncClearFilter} {input : Bytes}
    (herase : ∀ g byte, machine.Visits f input g byte → ¬ Erases g byte) :
    f.pending.length + input.length ≤
      (machine.output f input ++ (machine.state f input).pending).length ∧
    (Overlong f input → f.pending.length + input.length <
      (machine.output f input ++ (machine.state f input).pending).length) := by
  induction input generalizing f with
  | nil =>
    refine ⟨by simp, fun ⟨g, b, hv, _⟩ => (machine.not_visits_nil hv).elim⟩
  | cons byte input ih =>
    have hfirst : machine.Visits f (byte :: input) f byte :=
      machine.visits_cons.2 (Or.inl ⟨rfl, rfl⟩)
    obtain ⟨hle, hlt⟩ := ih (f := (machine.step f byte).1) fun g b hv =>
      herase g b (machine.visits_cons.2 (Or.inr hv))
    obtain ⟨hplain, hover⟩ := feed_pending (herase f byte hfirst)
    have hlen : ∀ n, (feed f byte).2 ++ (feed f byte).1.pending = f.pending ++ n →
        (machine.step f byte).2.length + (machine.step f byte).1.pending.length =
          f.pending.length + n.length := by
      intro n hn
      have hlength := congrArg List.length hn
      rw [List.length_append, List.length_append] at hlength
      exact hlength
    simp only [Transducer.output_cons, Transducer.state_cons, List.length_append,
      List.length_cons] at hle hlt ⊢
    by_cases ho : Overflows f byte
    · have := hlen _ (hover ho)
      simp only [List.length_cons, List.length_nil] at this
      exact ⟨by omega, fun _ => by omega⟩
    · have := hlen _ (hplain ho)
      simp only [List.length_cons, List.length_nil] at this
      refine ⟨by omega, fun ⟨g, b, hv, hg⟩ => ?_⟩
      obtain ⟨rfl, rfl⟩ | hv := machine.visits_cons.1 hv
      · exact (ho hg).elim
      · have := hlt ⟨g, b, hv, hg⟩
        omega

theorem neverSyncs_of_inits {f : SyncClearFilter} {input : Bytes}
    (h : ∀ before ∈ input.inits, (machine.state f before).inSync = false) :
    NeverSyncs f input := by
  intro before after hinput
  apply h
  rw [List.mem_inits]
  exact ⟨after, hinput.symm⟩

/-- `CSI 3 1 m`, a letter and an unfinished sequence, in three chunks. -/
def sampleChunks : List Bytes := [[0x1b], [0x5b, 0x33, 0x31], [0x6d, 0x61, 0x1b, 0x5b]]

/-- A stream with `count` zeros in one sequence. -/
def zeros (count : ℕ) : Bytes := [0x1b, 0x5b] ++ List.replicate count 0x30 ++ [0x6d]

end Tethra.SyncFilter
