import Mathlib.Data.Bool.AllAny
import Tethra.TerminalMarkers

set_option autoImplicit false

/-!
# A marker after anything

What the OSC 133 parser makes of a complete marker, whatever it has read before: the marker's
event when it stands outside every sequence, and nothing else.
-/
namespace Tethra.MarkerResync
open Transducers TerminalMarkers

/-- `Osc133Parser::push`. -/
def push (p : Osc133Parser) (data : Bytes) : Osc133Parser × List BlockEvent :=
  ((p.pushIndexed data).1, (p.pushIndexed data).2.map Prod.snd)

def machine : Transducer Osc133Parser UInt8 BlockEvent :=
  ⟨fun p byte => ((p.feed byte).1, (p.feed byte).2.toList)⟩

theorem pushFrom_run (p : Osc133Parser) (offset : ℕ) (data : Bytes) :
    ((p.pushFrom offset data).1, (p.pushFrom offset data).2.map Prod.snd) = machine.run p data := by
  induction data generalizing p offset with
  | nil => rfl
  | cons byte data ih =>
    obtain ⟨hstate, hevents⟩ := Prod.mk.inj (ih (p.feed byte).1 (offset + 1))
    refine Prod.ext hstate ?_
    change _ = (p.feed byte).2.toList ++ machine.output (p.feed byte).1 data
    simp only [Osc133Parser.pushFrom, List.map_append, List.map_map, hevents]
    cases (p.feed byte).2 <;> rfl

theorem push_run (p : Osc133Parser) (data : Bytes) : push p data = machine.run p data :=
  pushFrom_run p 0 data

inductive Letter where
  | A
  | B
  | C
  | D
  deriving DecidableEq

def Letter.char : Letter → Char
  | .A => 'A'
  | .B => 'B'
  | .C => 'C'
  | .D => 'D'

/-- `ESC ] 133 ; X`, further parameters, and BEL or ST. -/
structure Marker where
  letter : Letter
  parameters : Bytes
  st : Bool
  separated : parameters = [] ∨ parameters.head? = some 0x3b
  noEscape : (0x1b : UInt8) ∉ parameters
  noBell : (0x07 : UInt8) ∉ parameters
  short : 5 + parameters.length ≤ 256

namespace Marker

def opening (m : Marker) : List Char := ['1', '3', '3', ';', m.letter.char]

def body (m : Marker) : Bytes := m.opening.flatMap String.utf8EncodeChar ++ m.parameters

def terminator (m : Marker) : Bytes := if m.st then [0x1b, 0x5c] else [0x07]

def bytes (m : Marker) : Bytes := [0x1b, 0x5d] ++ m.body ++ m.terminator

/-- The number the first parameter is, if it is one. -/
def exitCode (m : Marker) : Option ℤ := do
  let value ← (split (← fromUtf8 m.parameters))[1]?
  if (RustText.trim value).isEmpty then none else parseI32 (RustText.trim value)

def event (m : Marker) : BlockEvent :=
  match m.letter with
  | .A => .promptStart
  | .B => .commandStart
  | .C => .outputStart
  | .D => .commandEnd m.exitCode

end Marker

/-! ## Reading the body -/

/-- The text of a body is the opening and the parameters, split where they are. -/
theorem split_opening (m : Marker) {text : String}
    (h : fromUtf8 m.parameters = some text) :
    split (String.ofList m.opening ++ text) =
      "133" :: String.ofList [m.letter.char] :: (split text).tail := by
  have hletter : ';' ∉ [m.letter.char] := by
    cases m.letter <;> decide
  have hopening : ∀ rest : List Char, split (String.ofList m.opening ++ String.ofList (';' :: rest)) =
      "133" :: String.ofList [m.letter.char] :: split (String.ofList rest) := by
    intro rest
    rw [← String.ofList_append]
    change split (String.ofList (['1', '3', '3'] ++ ';' :: ([m.letter.char] ++ ';' :: rest))) = _
    rw [split_append _ _ (by decide), split_append _ _ hletter]
  obtain hnil | hhead := m.separated
  · rw [hnil] at h
    cases h
    change split (String.ofList m.opening ++ "") = _
    rw [String.append_empty]
    change split (String.ofList (['1', '3', '3'] ++ ';' :: [m.letter.char])) = _
    rw [split_append _ _ (by decide)]
    unfold split
    rw [String.toList_ofList, List.splitOn_eq_singleton hletter]
    rfl
  · obtain ⟨rest, hrest⟩ := List.head?_eq_some_iff.1 hhead
    rw [hrest] at h
    change fromUtf8 (String.utf8EncodeChar ';' ++ rest) = some text at h
    rw [fromUtf8_char] at h
    obtain ⟨tail, htail, rfl⟩ := Option.map_eq_some_iff.1 h
    obtain ⟨chars, rfl⟩ := tail.exists_eq_ofList
    have hjoin : String.ofList [';'] ++ String.ofList chars = String.ofList (';' :: chars) :=
      String.ofList_append.symm
    have hfirst : split (String.ofList (';' :: chars)) =
        String.ofList [] :: split (String.ofList chars) := split_append [] chars (by decide)
    rw [hjoin, hopening, hfirst, List.tail_cons]

theorem parseBody_body (m : Marker) :
    Osc133Parser.parseBody m.body =
      if (fromUtf8 m.parameters).isSome then some m.event else none := by
  have htext : fromUtf8 m.body = (fromUtf8 m.parameters).map (String.ofList m.opening ++ ·) :=
    fromUtf8_append m.opening m.parameters
  unfold Osc133Parser.parseBody
  cases hparameters : fromUtf8 m.parameters with
  | none =>
    rw [htext, hparameters]
    rfl
  | some text =>
    have hexit : m.exitCode = (split text).tail.head?.bind fun value =>
        if (RustText.trim value).isEmpty then none else parseI32 (RustText.trim value) := by
      unfold Marker.exitCode
      rw [hparameters, List.head?_tail]
      rfl
    simp only [htext, hparameters, Option.map_some, Option.bind_eq_bind, Option.bind_some,
      split_opening m hparameters, String.toList_ofList, List.head?_cons, Option.isSome_some, if_true]
    unfold Marker.event
    rw [hexit]
    cases m.letter <;> rfl

/-! ## Reading the marker -/

/-- What a body is made of. -/
def Plain (byte : UInt8) : Prop := byte ≠ 0x1b ∧ byte ≠ 0x07

theorem plain_body (m : Marker) : ∀ byte ∈ m.body, Plain byte := by
  intro byte hbyte
  obtain hopening | hparameters := List.mem_append.1 hbyte
  · have hall : ∀ b ∈ m.opening.flatMap String.utf8EncodeChar, b ≠ 0x1b ∧ b ≠ 0x07 := by
      unfold Marker.opening
      cases m.letter <;> exact List.all_iff_forall_prop.1 (by decide)
    exact hall byte hopening
  · exact ⟨fun h => m.noEscape (h ▸ hparameters), fun h => m.noBell (h ▸ hparameters)⟩

theorem length_body (m : Marker) : m.body.length = 5 + m.parameters.length := by
  have hopening : (m.opening.flatMap String.utf8EncodeChar).length = 5 := by
    unfold Marker.opening
    cases m.letter <;> rfl
  rw [Marker.body, List.length_append, hopening]

theorem feed_gather (gathered : Bytes) (byte : UInt8) (hgathered : ∀ b ∈ gathered, Plain b)
    (hbyte : Plain byte) (hroom : gathered.length < 256) :
    machine.step ⟨.osc, gathered⟩ byte = (⟨.osc, gathered ++ [byte]⟩, []) := by
  have hlast : gathered.getLast? ≠ some 0x1b := fun h =>
    (hgathered _ (List.mem_of_getLast? h)).1 rfl
  simp [machine, Osc133Parser.feed, hbyte.1, hbyte.2, hlast, hroom]

theorem feed_idle {p : Osc133Parser} (hp : p.state = .ground) {byte : UInt8}
    (hbyte : byte ≠ 0x1b) : machine.step p byte = (p, []) := by
  simp [machine, Osc133Parser.feed, hp, Osc133Parser.feedGround, hbyte]

theorem output_terminator (gathered : Bytes) (m : Marker) :
    machine.output ⟨.osc, gathered⟩ m.terminator = (Osc133Parser.parseBody gathered).toList := by
  unfold Marker.terminator
  cases m.st with
  | false => simp [machine, Osc133Parser.feed]
  | true => simp [machine, Osc133Parser.feed, List.getLast?_append]

/-- Outside every sequence the marker is read. -/
theorem output_ground {p : Osc133Parser} (hp : p.state = .ground) (m : Marker) :
    machine.output p m.bytes = (Osc133Parser.parseBody m.body).toList := by
  have hopen : machine.run p [0x1b, 0x5d] = (⟨.osc, []⟩, []) := by
    simp [Transducer.run, machine, Osc133Parser.feed, hp, Osc133Parser.feedGround]
  have hbody : machine.run ⟨.osc, []⟩ m.body = (⟨.osc, m.body⟩, []) := by
    refine machine.run_gather feed_gather (fun _ h => by cases h) (plain_body m) ?_
    rw [length_body, List.length_nil, Nat.zero_add]
    exact m.short
  change (machine.run p m.bytes).2 = _
  rw [Marker.bytes, machine.run_append (machine.run_append hopen _), hbody]
  exact output_terminator m.body m

/-- Inside a sequence the ESC of the marker is spent on the sequence. -/
theorem output_inside {p : Osc133Parser} (hp : p.state ≠ .ground) (m : Marker) :
    machine.output p m.bytes = [] := by
  obtain ⟨q, hq, hopen⟩ : ∃ q : Osc133Parser, q.state = .ground ∧
      machine.run p [0x1b, 0x5d] = (q, []) := by
    cases hstate : p.state with
    | ground => exact absurd hstate hp
    | esc =>
      refine ⟨{ p with state := .ground }, rfl, ?_⟩
      simp [Transducer.run, machine, Osc133Parser.feed, hstate, Osc133Parser.feedGround]
    | osc =>
      refine ⟨⟨.ground, []⟩, rfl, ?_⟩
      simp [Transducer.run, machine, Osc133Parser.feed, hstate, Osc133Parser.feedGround]
  have hbody : machine.run q m.body = (q, []) :=
    machine.run_idle fun byte hbyte => feed_idle hq (plain_body m byte hbyte).1
  have hend : machine.output q m.terminator = [] := by
    unfold Marker.terminator
    cases m.st <;> simp [machine, Osc133Parser.feed, hq, Osc133Parser.feedGround]
  change (machine.run p m.bytes).2 = _
  rw [Marker.bytes, machine.run_append (machine.run_append hopen _), hbody]
  exact hend

/-- However it is cut, the stream gives the events of `p` and the event of the marker. -/
def Yields (p : Bytes) (m : Marker) : Prop :=
  ∀ chunks : List Bytes, chunks.flatten = p ++ m.bytes →
    (Transducer.pushes push .new chunks).flatten = (push .new p).2 ++ [m.event]

/-- After `p` the parser is outside every sequence. -/
def Outside (p : Bytes) : Prop := (push .new p).1.state = .ground

instance (p : Bytes) : Decidable (Outside p) := inferInstanceAs (Decidable (_ = _))

/-- A marker gives its event just when nothing was begun before it and its parameters are
text. -/
theorem yields_iff (p : Bytes) (m : Marker) :
    Yields p m ↔ Outside p ∧ (fromUtf8 m.parameters).isSome := by
  have houtput : Yields p m ↔ machine.output (machine.state .new p) m.bytes = [m.event] := by
    have hstream : machine.output .new (p ++ m.bytes) = (push .new p).2 ++
        machine.output (machine.state .new p) m.bytes := by
      rw [Transducer.output_append, push_run]
      rfl
    constructor
    · intro h
      have hwhole := h [p ++ m.bytes] (by rw [List.flatten_cons, List.flatten_nil, List.append_nil])
      rw [Transducer.flatten_pushes machine push_run, List.flatten_cons, List.flatten_nil,
        List.append_nil, hstream] at hwhole
      exact List.append_cancel_left hwhole
    · intro h chunks hchunks
      rw [Transducer.flatten_pushes machine push_run, hchunks, hstream, h]
  have hstate : (push .new p).1 = machine.state .new p := by
    rw [push_run]
    rfl
  rw [houtput, Outside, hstate]
  by_cases hground : (machine.state .new p).state = .ground
  · rw [output_ground hground, parseBody_body]
    cases (fromUtf8 m.parameters).isSome <;> simp [hground]
  · rw [output_inside hground]
    simp [hground]

/-- `ESC ] 133 ; A BEL`. -/
def sampleMarker : Marker := ⟨.A, [], false, Or.inl rfl, by decide, by decide, by decide⟩

/-- After a lone ESC the marker is lost. -/
theorem yields_fails : ¬ ∀ (p : Bytes) (m : Marker), Yields p m := by
  intro h
  have hstream := h [0x1b] sampleMarker [[0x1b] ++ sampleMarker.bytes] (by rfl)
  revert hstream
  decide +kernel

end Tethra.MarkerResync
