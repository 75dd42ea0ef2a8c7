import Tethra.TerminalMarkers

set_option autoImplicit false

/-!
# Bells and notifications

Streams of text, of BEL bytes and of complete operating-system commands. The scanner gives a
body up after 512 bytes, and reads what follows as if it stood outside.
-/
namespace Tethra.FalseAlarms
open Transducers TerminalMarkers

def machine : Transducer AttentionParser UInt8 AttentionKind :=
  ⟨fun p byte => ((p.feed byte).1, (p.feed byte).2.toList)⟩

theorem push_run (p : AttentionParser) (data : Bytes) : p.push data = machine.run p data := by
  induction data generalizing p with
  | nil => rfl
  | cons byte data ih =>
    rw [AttentionParser.push, ih]
    rfl

/-- What is neither ESC nor BEL. -/
def Plain (byte : UInt8) : Prop := byte ≠ 0x1b ∧ byte ≠ 0x07

inductive Segment where
  | text (run : Bytes) (plain : ∀ byte ∈ run, Plain byte)
  | bel
  | osc (body : Bytes) (plain : ∀ byte ∈ body, Plain byte) (st : Bool)

def terminator (st : Bool) : Bytes := if st then [0x1b, 0x5c] else [0x07]

def Segment.bytes : Segment → Bytes
  | .text run _ => run
  | .bel => [0x07]
  | .osc body _ st => [0x1b, 0x5d] ++ body ++ terminator st

inductive Alarm where
  | bell
  | notify
  deriving DecidableEq

def alarm : AttentionKind → Alarm
  | .bell => .bell
  | .notify _ => .notify

/-- OSC 9, alone or with a message, or OSC 777 with a payload. -/
def IsNotification (body : Bytes) : Prop :=
  body = [0x39] ∨ [0x39, 0x3b] <+: body ∨ [0x37, 0x37, 0x37, 0x3b] <+: body

instance (body : Bytes) : Decidable (IsNotification body) := by
  unfold IsNotification
  infer_instance

/-- What a segment should give. -/
def Segment.due : Segment → List Alarm
  | .text _ _ => []
  | .bel => [.bell]
  | .osc body _ _ => if IsNotification body then [.notify] else []

/-- What the scanner makes of a segment. -/
def Segment.given : Segment → List Alarm
  | .text _ _ => []
  | .bel => [.bell]
  | .osc body _ st =>
    if body.length ≤ 512 then ((AttentionParser.parseBody body).map alarm).toList
    else if st then [] else [.bell]

/-- An OSC that the scanner reads to its end, or one that is to give nothing and ends without a
BEL; and a notification that is text. -/
def Segment.Read : Segment → Prop
  | .osc body _ st => (body.length ≤ 512 ∨ st = true ∧ ¬ IsNotification body) ∧
      (IsNotification body → (fromUtf8 body).isSome)
  | _ => True

/-! ## The body as text -/

/-- A text that starts with a field. -/
theorem toList_split {text field : String} {rest : List String}
    (h : split text = field :: rest) :
    text.toList = field.toList ∧ rest = [] ∨ field.toList ++ [';'] <+: text.toList := by
  have hfields : (text.toList.splitOn ';') = field.toList :: rest.map String.toList := by
    have hmap := congrArg (List.map String.toList) h
    rw [split, List.map_map, String.toList_comp_ofList, List.map_id, List.map_cons] at hmap
    exact hmap
  have hjoin := (List.intercalate_splitOn ';' : _ = text.toList)
  rw [hfields] at hjoin
  cases rest with
  | nil =>
    refine Or.inl ⟨?_, rfl⟩
    rw [← hjoin]
    simp [List.intercalate]
  | cons next rest =>
    refine Or.inr ?_
    rw [← hjoin, List.map_cons, List.intercalate_cons_cons]
    exact List.prefix_append _ _

theorem parseBody_field {body : Bytes} {text : String} {rest : List String}
    (hbody : fromUtf8 body = some text) (hsplit : split text = "9" :: rest) :
    (AttentionParser.parseBody body).map alarm = some .notify := by
  unfold AttentionParser.parseBody
  rw [hbody]
  cases rest with
  | nil => simp only [Option.bind_eq_bind, Option.bind_some, hsplit, Option.map_some, alarm]
  | cons next rest =>
    simp only [Option.bind_eq_bind, Option.bind_some, hsplit, Option.map_some, alarm]

theorem parseBody_payload {body : Bytes} {text kind : String} {rest : List String}
    (hbody : fromUtf8 body = some text) (hsplit : split text = "777" :: kind :: rest) :
    (AttentionParser.parseBody body).map alarm = some .notify := by
  unfold AttentionParser.parseBody
  rw [hbody]
  simp only [Option.bind_eq_bind, Option.bind_some, hsplit]
  split
  · split <;> rfl
  · rfl

theorem text_of_opening {chars : List Char} {body : Bytes} {text : String}
    (hbody : fromUtf8 body = some text) (h : chars.flatMap String.utf8EncodeChar <+: body) :
    ∃ rest : List Char, text = String.ofList (chars ++ rest) := by
  obtain ⟨rest, rfl⟩ := h
  rw [fromUtf8_append] at hbody
  obtain ⟨tail, -, rfl⟩ := Option.map_eq_some_iff.1 hbody
  obtain ⟨more, rfl⟩ := tail.exists_eq_ofList
  exact ⟨more, String.ofList_append.symm⟩

theorem prefix_of_text {chars : List Char} {body : Bytes} {text : String}
    (hbody : fromUtf8 body = some text) (h : chars <+: text.toList) :
    chars.flatMap String.utf8EncodeChar <+: body := by
  obtain ⟨rest, hrest⟩ := h
  rw [fromUtf8_eq_some hbody, ← hrest, List.flatMap_append]
  exact List.prefix_append _ _

theorem isNotification_of_split {body : Bytes} {text : String} {rest : List String}
    (hbody : fromUtf8 body = some text) :
    (split text = "9" :: rest → IsNotification body) ∧
      ∀ kind, split text = "777" :: kind :: rest → IsNotification body := by
  refine ⟨fun h => ?_, fun kind h => ?_⟩
  · obtain ⟨htext, -⟩ | hfield := toList_split h
    · refine Or.inl ?_
      rw [fromUtf8_eq_some hbody, htext]
      rfl
    · exact Or.inr (Or.inl (prefix_of_text hbody hfield))
  · obtain ⟨-, hrest⟩ | hfield := toList_split h
    · cases hrest
    · exact Or.inr (Or.inr (prefix_of_text hbody hfield))

/-- The parser of the body finds the notifications that are text. -/
theorem parseBody_alarm (body : Bytes) : (AttentionParser.parseBody body).map alarm =
    if IsNotification body ∧ (fromUtf8 body).isSome then some .notify else none := by
  cases hbody : fromUtf8 body with
  | none =>
    unfold AttentionParser.parseBody
    rw [hbody, if_neg (by simp)]
    rfl
  | some text =>
    by_cases hnote : IsNotification body
    · rw [if_pos ⟨hnote, rfl⟩]
      obtain rfl | hmessage | hpayload := hnote
      · have hnine : fromUtf8 [0x39] = some "9" := fromUtf8_append ['9'] []
        exact @parseBody_field _ _ [] hnine (by decide)
      · obtain ⟨rest, rfl⟩ := @text_of_opening ['9', ';'] _ _ hbody hmessage
        exact parseBody_field hbody (split_append ['9'] rest (by decide))
      · obtain ⟨rest, rfl⟩ := @text_of_opening ['7', '7', '7', ';'] _ _ hbody hpayload
        have hsplit : split (String.ofList (['7', '7', '7'] ++ ';' :: rest)) = _ :: _ :=
          split_append ['7', '7', '7'] rest (by decide)
        obtain ⟨kind, more, hmore⟩ := List.exists_cons_of_ne_nil
          (show split (String.ofList rest) ≠ [] by simp [split, List.splitOn_ne_nil])
        rw [hmore] at hsplit
        exact parseBody_payload hbody hsplit
    · rw [if_neg (fun h => hnote h.1)]
      unfold AttentionParser.parseBody
      rw [hbody]
      simp only [Option.bind_eq_bind, Option.bind_some]
      split
      · exact absurd ((isNotification_of_split hbody).1 ‹_›) hnote
      · exact absurd ((isNotification_of_split hbody).1 ‹_›) hnote
      · exact absurd ((isNotification_of_split hbody).2 _ ‹_›) hnote
      · rfl

/-! ## What a stream gives -/

theorem feed_text {byte : UInt8} (h : Plain byte) : machine.step .new byte = (.new, []) := by
  simp [machine, AttentionParser.feed, AttentionParser.new, AttentionParser.feedGround, h.1, h.2]

theorem feed_gather (gathered : Bytes) (byte : UInt8) (hgathered : ∀ b ∈ gathered, Plain b)
    (hbyte : Plain byte) (hroom : gathered.length < 512) :
    machine.step ⟨.osc, gathered⟩ byte = (⟨.osc, gathered ++ [byte]⟩, []) := by
  have hlast : gathered.getLast? ≠ some 0x1b := fun h =>
    (hgathered _ (List.mem_of_getLast? h)).1 rfl
  simp [machine, AttentionParser.feed, hbyte.1, hbyte.2, hlast, hroom]

/-- The byte after 512 gathered ones ends the OSC. -/
theorem feed_overflow {gathered : Bytes} {byte : UInt8} (hgathered : ∀ b ∈ gathered, Plain b)
    (hbyte : Plain byte) (hfull : gathered.length = 512) :
    machine.step ⟨.osc, gathered⟩ byte = (.new, []) := by
  have hlast : gathered.getLast? ≠ some 0x1b := fun h =>
    (hgathered _ (List.mem_of_getLast? h)).1 rfl
  simp [machine, AttentionParser.feed, hbyte.1, hbyte.2, hlast, hfull, AttentionParser.new]

theorem run_osc : machine.run .new [0x1b, 0x5d] = (⟨.osc, []⟩, []) := rfl

theorem run_end (body : Bytes) (st : Bool) : machine.run ⟨.osc, body⟩ (terminator st) =
    (.new, (AttentionParser.parseBody body).toList) := by
  cases st with
  | false => simp [terminator, Transducer.run, machine, AttentionParser.feed, AttentionParser.new]
  | true =>
    simp [terminator, Transducer.run, machine, AttentionParser.feed, AttentionParser.new,
      List.getLast?_append]

theorem run_stray (st : Bool) :
    machine.run .new (terminator st) = (.new, if st then [] else [.bell]) := by
  cases st <;> rfl

theorem run_body {body : Bytes} (hplain : ∀ byte ∈ body, Plain byte) :
    machine.run ⟨.osc, []⟩ body = (if body.length ≤ 512 then ⟨.osc, body⟩ else .new, []) := by
  have hgather : ∀ gathered : Bytes, (∀ byte ∈ gathered, Plain byte) → gathered.length ≤ 512 →
      machine.run ⟨.osc, []⟩ gathered = (⟨.osc, gathered⟩, []) := by
    intro gathered hgathered hroom
    refine machine.run_gather feed_gather (fun _ h => by cases h) hgathered ?_
    rwa [List.length_nil, Nat.zero_add]
  by_cases hroom : body.length ≤ 512
  · rw [if_pos hroom, hgather body hplain hroom]
  · obtain ⟨byte, rest, hrest⟩ := List.exists_cons_of_ne_nil
      (show body.drop 512 ≠ [] by
        rw [ne_eq, List.drop_eq_nil_iff]
        exact hroom)
    have hbody : body = body.take 512 ++ byte :: rest := by rw [← hrest, List.take_append_drop]
    have hfirst : ∀ b ∈ body.take 512, Plain b := fun b hb => hplain b (List.mem_of_mem_take hb)
    have hlater : ∀ b ∈ byte :: rest, Plain b := fun b hb =>
      hplain b (List.mem_of_mem_drop (hrest ▸ hb))
    have hfull : (body.take 512).length = 512 := by
      rw [List.length_take]
      omega
    have hover := feed_overflow hfirst (hlater byte List.mem_cons_self) hfull
    have hidle : machine.run .new rest = (.new, []) :=
      machine.run_idle fun b hb => feed_text (hlater b (List.mem_cons_of_mem byte hb))
    rw [if_neg hroom]
    conv_lhs => rw [hbody]
    rw [machine.run_append (hgather _ hfirst hfull.le), Transducer.run, Transducer.state_cons,
      Transducer.output_cons, hover]
    exact hidle

/-- From outside, every segment is left behind. -/
theorem run_segment (segment : Segment) : ∃ events, machine.run .new segment.bytes = (.new, events) ∧
    events.map alarm = segment.given := by
  cases segment with
  | text run plain =>
    exact ⟨[], machine.run_idle fun byte hbyte => feed_text (plain byte hbyte), rfl⟩
  | bel => exact ⟨[.bell], rfl, rfl⟩
  | osc body plain st =>
    have hopen : machine.run .new ([0x1b, 0x5d] ++ body) =
        (if body.length ≤ 512 then ⟨.osc, body⟩ else .new, []) := by
      rw [machine.run_append run_osc, run_body plain]
      rfl
    by_cases hroom : body.length ≤ 512
    · rw [if_pos hroom] at hopen
      refine ⟨(AttentionParser.parseBody body).toList, ?_, ?_⟩
      · rw [Segment.bytes, machine.run_append hopen, run_end]
        rfl
      · rw [Segment.given, if_pos hroom]
        cases AttentionParser.parseBody body <;> rfl
    · rw [if_neg hroom] at hopen
      refine ⟨if st then [] else [.bell], ?_, ?_⟩
      · rw [Segment.bytes, machine.run_append hopen, run_stray]
        rfl
      · rw [Segment.given, if_neg hroom]
        cases st <;> rfl

theorem run_stream (segments : List Segment) :
    ∃ events, machine.run .new (segments.flatMap Segment.bytes) = (.new, events) ∧
      events.map alarm = segments.flatMap Segment.given := by
  induction segments with
  | nil => exact ⟨[], rfl, rfl⟩
  | cons segment segments ih =>
    obtain ⟨first, hfirst, hgiven⟩ := run_segment segment
    obtain ⟨rest, hrest, hmore⟩ := ih
    refine ⟨first ++ rest, ?_, ?_⟩
    · rw [List.flatMap_cons, machine.run_append hfirst, hrest]
    · rw [List.map_append, hgiven, hmore, List.flatMap_cons]

/-! ## Counting -/

section Counting
variable {α β : Type} [DecidableEq β] {f g : α → List β} {b : β} {as : List α}

theorem count_flatMap_le (h : ∀ a ∈ as, (f a).count b ≤ (g a).count b) :
    (as.flatMap f).count b ≤ (as.flatMap g).count b := by
  induction as with
  | nil => exact le_refl _
  | cons a as ih =>
    rw [List.flatMap_cons, List.flatMap_cons, List.count_append, List.count_append]
    exact Nat.add_le_add (h a List.mem_cons_self) (ih fun c hc => h c (List.mem_cons_of_mem a hc))

/-- Where the totals are equal no part falls short. -/
theorem count_eq_of_flatMap (h : ∀ a ∈ as, (f a).count b ≤ (g a).count b)
    (htotal : (as.flatMap f).count b = (as.flatMap g).count b) :
    ∀ a ∈ as, (f a).count b = (g a).count b := by
  induction as with
  | nil => exact fun a ha => by cases ha
  | cons a as ih =>
    rw [List.flatMap_cons, List.flatMap_cons, List.count_append, List.count_append] at htotal
    have hfirst := h a List.mem_cons_self
    have hrest := count_flatMap_le fun c hc => h c (List.mem_cons_of_mem a hc)
    intro c hc
    obtain rfl | hc := List.mem_cons.1 hc
    · omega
    · exact ih (fun c hc => h c (List.mem_cons_of_mem a hc)) (by omega) c hc

end Counting

theorem given_osc (body : Bytes) (plain : ∀ byte ∈ body, Plain byte) (st : Bool) :
    (Segment.osc body plain st).given =
      if body.length ≤ 512 then
        if IsNotification body ∧ (fromUtf8 body).isSome then [.notify] else []
      else if st then [] else [.bell] := by
  rw [Segment.given, parseBody_alarm]
  by_cases hnote : IsNotification body ∧ (fromUtf8 body).isSome
  · rw [if_pos hnote, if_pos hnote, Option.toList_some]
  · rw [if_neg hnote, if_neg hnote, Option.toList_none]

/-- A segment gives what is due just when it is read. -/
theorem read_iff (segment : Segment) : segment.Read ↔ segment.given = segment.due := by
  cases segment with
  | text run plain => exact iff_of_true trivial rfl
  | bel => exact iff_of_true trivial rfl
  | osc body plain st =>
    rw [given_osc, Segment.due, Segment.Read]
    by_cases hroom : body.length ≤ 512 <;> by_cases hnote : IsNotification body <;>
      cases (fromUtf8 body).isSome <;> cases st <;> simp [hroom, hnote]

theorem bell_le (segment : Segment) : segment.due.count .bell ≤ segment.given.count .bell := by
  cases segment with
  | text run plain => exact le_refl _
  | bel => exact le_refl _
  | osc body plain st =>
    have hdue : (Segment.osc body plain st).due.count .bell = 0 := by
      rw [Segment.due]
      split <;> rfl
    rw [hdue]
    exact Nat.zero_le _

theorem notify_le (segment : Segment) :
    segment.given.count .notify ≤ segment.due.count .notify := by
  cases segment with
  | text run plain => exact le_refl _
  | bel => exact le_refl _
  | osc body plain st =>
    rw [given_osc, Segment.due]
    by_cases hroom : body.length ≤ 512 <;> by_cases hnote : IsNotification body <;>
      cases (fromUtf8 body).isSome <;> cases st <;> simp [hroom, hnote]

/-- Equally many bells and notifications are the same list, of those a segment may give. -/
theorem eq_of_counts (segment : Segment) (hbell : segment.due.count .bell = segment.given.count .bell)
    (hnotify : segment.given.count .notify = segment.due.count .notify) :
    segment.given = segment.due := by
  cases segment with
  | text run plain => rfl
  | bel => rfl
  | osc body plain st =>
    rw [given_osc, Segment.due] at hbell hnotify ⊢
    by_cases hroom : body.length ≤ 512 <;> by_cases hnote : IsNotification body <;>
      cases htext : (fromUtf8 body).isSome <;> cases st <;>
      simp [hroom, hnote, htext] at hbell hnotify ⊢

/-- However it is cut, the stream gives a bell for each BEL that stands alone and a notification
for each OSC that is one, in order, and nothing else. -/
def Faithful (segments : List Segment) : Prop :=
  ∀ chunks : List Bytes, chunks.flatten = segments.flatMap Segment.bytes →
    (Transducer.pushes AttentionParser.push .new chunks).flatten.map alarm =
      segments.flatMap Segment.due

theorem faithful_iff (segments : List Segment) :
    Faithful segments ↔ ∀ segment ∈ segments, segment.Read := by
  have hgiven : ∀ chunks : List Bytes, chunks.flatten = segments.flatMap Segment.bytes →
      (Transducer.pushes AttentionParser.push .new chunks).flatten.map alarm =
        segments.flatMap Segment.given := by
    intro chunks hchunks
    obtain ⟨events, hrun, halarms⟩ := run_stream segments
    rw [Transducer.flatten_pushes machine push_run, hchunks, (Prod.mk.inj hrun).2, halarms]
  constructor
  · intro h segment hsegment
    have hsame : segments.flatMap Segment.given = segments.flatMap Segment.due := by
      have hone : [segments.flatMap Segment.bytes].flatten = segments.flatMap Segment.bytes := by
        rw [List.flatten_cons, List.flatten_nil, List.append_nil]
      rw [← hgiven _ hone, h _ hone]
    rw [read_iff]
    refine eq_of_counts segment ?_ ?_
    · exact count_eq_of_flatMap (fun s _ => bell_le s) (by rw [hsame]) segment hsegment
    · exact count_eq_of_flatMap (fun s _ => notify_le s) (by rw [hsame]) segment hsegment
  · intro h chunks hchunks
    rw [hgiven chunks hchunks]
    exact List.flatMap_congr fun segment hsegment => (read_iff segment).1 (h segment hsegment)

/-- An OSC of 513 bytes. -/
def sampleSegment : Segment :=
  .osc (List.replicate 513 0x61) (fun byte hbyte => by
    rw [List.eq_of_mem_replicate hbyte]
    exact ⟨by decide, by decide⟩) false

/-- Its terminator rings. -/
theorem faithful_fails : ¬ ∀ segments : List Segment, Faithful segments := by
  intro h
  have hstream := h [sampleSegment] [sampleSegment.bytes] (by simp)
  revert hstream
  decide +kernel

end Tethra.FalseAlarms
