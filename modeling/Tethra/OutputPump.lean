import Tethra.Base64Strings
import Tethra.TerminalMarkers

set_option autoImplicit false

/-!
# Shared terminal output batching and backpressure

Received bytes are batched and forwarded unchanged; markers leave beside them as structured
events. `forwardOutput` is the loop of the pump on what its `select!` receives.
-/
namespace Tethra.OutputPump
open Base64Strings TerminalMarkers

def MAX_CHUNK : ℕ := 64 * 1024
def MAX_PENDING : ℕ := 256 * 1024

/-- `"\r\n\x1b[33m[output dropped: terminal fell behind]\x1b[0m\r\n"`. -/
def DROPPED_MARKER : Bytes :=
  [0x0d, 0x0a, 0x1b, 0x5b, 0x33, 0x33, 0x6d] ++
    "[output dropped: terminal fell behind]".toList.map (fun c => UInt8.ofNat c.toNat) ++
    [0x1b, 0x5b, 0x30, 0x6d, 0x0d, 0x0a]

inductive TerminalBlockPhase where
  | promptStart
  | commandStart
  | outputStart
  | commandEnd
  deriving DecidableEq

inductive TerminalEvent where
  | data (data : String) (dropped : Bool)
  | block (phase : TerminalBlockPhase) (exitCode : Option ℤ)
  /-- The state is `Waiting`. -/
  | attention (message : Option String) (source : String)
  | closed

/-- What the `select!` of the loop receives before the end of the stream. -/
inductive Received where
  | data (data : Bytes)
  | tick

structure Pump where
  pending : Bytes
  dropped : Bool
  osc133 : Osc133Parser
  attention : AttentionParser

def Pump.new : Pump := ⟨[], false, .new, .new⟩

def encodeB64 (data : Bytes) : String := standard.encode data

def attentionEvent : AttentionKind → TerminalEvent
  | .bell => .attention none "bel"
  | .notify message => .attention message "osc"

def blockEvent : BlockEvent → TerminalEvent
  | .promptStart => .block .promptStart none
  | .commandStart => .block .commandStart none
  | .outputStart => .block .outputStart none
  | .commandEnd exitCode => .block .commandEnd exitCode

def flushOne (p : Pump) : Pump × TerminalEvent :=
  ({ p with pending := p.pending.drop MAX_CHUNK, dropped := false },
    .data (encodeB64 (p.pending.take MAX_CHUNK)) p.dropped)

def dropMiddle (pending : Bytes) : Bytes :=
  let edge := (MAX_PENDING - DROPPED_MARKER.length) / 2
  pending.take edge ++ DROPPED_MARKER ++ pending.drop (pending.length - edge)

/-- `&data[start..stop]`. -/
def slice (data : Bytes) (start stop : ℕ) : Bytes := (data.take stop).drop start

/-- `if !pending.is_empty() { flush_one(..) }`. -/
def flushPending (p : Pump) : Pump × List TerminalEvent :=
  if p.pending.isEmpty then (p, []) else ((flushOne p).1, [(flushOne p).2])

/-- The loop over the markers of a message, from the offset `cursor` on. -/
def forwardMarkers (data : Bytes) : ℕ → List (ℕ × BlockEvent) → Pump → Pump × ℕ × List TerminalEvent
  | cursor, [], p => (p, cursor, [])
  | cursor, (stop, event) :: markers, p =>
    let flushed := flushPending { p with pending := p.pending ++ slice data cursor stop }
    let rest := forwardMarkers data (max cursor stop) markers flushed.1
    (rest.1, rest.2.1, flushed.2 ++ blockEvent event :: rest.2.2)

/-- The bytes after the last marker, with the limits on what may wait. -/
def forwardRest (rest : Bytes) (p : Pump) : Pump × List TerminalEvent :=
  let p := { p with pending := p.pending ++ rest }
  let p := if MAX_PENDING < p.pending.length then
    { p with pending := dropMiddle p.pending, dropped := true } else p
  if MAX_CHUNK ≤ p.pending.length then ((flushOne p).1, [(flushOne p).2]) else (p, [])

def receive (p : Pump) : Received → Pump × List TerminalEvent
  | .data data =>
    let scanned := p.osc133.pushIndexed data
    let marked := forwardMarkers data 0 scanned.2 p
    let rest := forwardRest (data.drop marked.2.1) marked.1
    let signals := p.attention.push data
    ({ rest.1 with osc133 := scanned.1, attention := signals.1 },
      marked.2.2 ++ rest.2 ++ signals.2.map attentionEvent)
  | .tick => flushPending p

/-- `while !pending.is_empty() { flush_one(..) }`. -/
def flushAll (p : Pump) : List TerminalEvent :=
  if _h : p.pending = [] then [] else (flushOne p).2 :: flushAll (flushOne p).1
  termination_by p.pending.length
  decreasing_by
    have hpos : 0 < p.pending.length := List.length_pos_of_ne_nil ‹_›
    simp only [flushOne, List.length_drop, MAX_CHUNK]
    omega

/-- The events of the pump until the end of the stream. -/
def forwardOutput (p : Pump) : List Received → List TerminalEvent
  | [] => flushAll p ++ [.closed]
  | message :: messages => (receive p message).2 ++ forwardOutput (receive p message).1 messages

/-! ## What has been sent -/

def payload : TerminalEvent → Bytes
  | .data data _ => (standard.decode data).toOption.getD []
  | _ => []

def sent (events : List TerminalEvent) : Bytes := events.flatMap payload

/-- For each block event what was sent before it, after `before`. -/
def sentBefore (before : Bytes) : List TerminalEvent → List Bytes
  | [] => []
  | .block _ _ :: events => before :: sentBefore before events
  | event :: events => sentBefore (before ++ payload event) events

def received : List Received → Bytes
  | [] => []
  | .data data :: messages => data ++ received messages
  | .tick :: messages => received messages

/-- For each marker of a stream the stream up to the end of the marker. -/
def markedPrefixes (stream : Bytes) : List Bytes :=
  (Osc133Parser.new.pushIndexed stream).2.map fun marker => stream.take marker.1

@[simp] theorem payload_flushOne (p : Pump) :
    payload (flushOne p).2 = p.pending.take MAX_CHUNK := by
  simp only [flushOne, payload, encodeB64, standard.decode_encode]
  rfl

theorem sent_append (es fs : List TerminalEvent) : sent (es ++ fs) = sent es ++ sent fs :=
  List.flatMap_append

theorem sentBefore_append (before : Bytes) (es fs : List TerminalEvent) :
    sentBefore before (es ++ fs) = sentBefore before es ++ sentBefore (before ++ sent es) fs := by
  induction es generalizing before with
  | nil => simp [sentBefore, sent]
  | cons event es ih =>
    cases event <;> simp [sentBefore, ih, sent, payload]

def isBlock : TerminalEvent → Bool
  | .block _ _ => true
  | _ => false

theorem sentBefore_eq_nil (before : Bytes) {es : List TerminalEvent}
    (h : ∀ e ∈ es, isBlock e = false) : sentBefore before es = [] := by
  induction es generalizing before with
  | nil => rfl
  | cons event es ih =>
    have hrest := fun b => ih b fun e he => h e (List.mem_cons_of_mem _ he)
    have hevent := h event List.mem_cons_self
    cases event with
    | block phase exitCode => cases hevent
    | data text dropped => exact hrest _
    | attention message source => exact hrest _
    | closed => exact hrest _

theorem flushPending_pending (p : Pump) :
    (flushPending p).1.pending = p.pending.drop MAX_CHUNK := by
  unfold flushPending
  split
  · rename_i h
    rw [List.isEmpty_iff] at h
    rw [h]
    rfl
  · rfl

theorem sent_flushPending (p : Pump) :
    sent (flushPending p).2 = p.pending.take MAX_CHUNK := by
  unfold flushPending
  split
  · rename_i h
    rw [List.isEmpty_iff] at h
    rw [h]
    rfl
  · simp [sent]

theorem flushPending_plain (p : Pump) : ∀ e ∈ (flushPending p).2, isBlock e = false := by
  unfold flushPending
  split
  · simp
  · simp [flushOne, isBlock]

theorem slice_append (data : Bytes) {a b c : ℕ} (hab : a ≤ b) (hbc : b ≤ c)
    (hc : b ≤ data.length) : slice data a b ++ slice data b c = slice data a c := by
  have hsplit : data.take c = data.take b ++ (data.take c).drop b := by
    conv_lhs => rw [← List.take_append_drop b (data.take c)]
    rw [List.take_take, Nat.min_eq_left hbc]
  unfold slice
  conv_rhs => rw [hsplit]
  rw [List.drop_append_of_le_length]
  rw [List.length_take]
  omega

/-- At each marker no more waits than one flush takes. -/
def MarkersFit (data : Bytes) : ℕ → List (ℕ × BlockEvent) → Pump → Prop
  | _, [], _ => True
  | cursor, (stop, _) :: markers, p =>
    (p.pending ++ slice data cursor stop).length ≤ MAX_CHUNK ∧
      MarkersFit data (max cursor stop) markers
        (flushPending { p with pending := p.pending ++ slice data cursor stop }).1

theorem sentBefore_blockEvent (before : Bytes) (event : BlockEvent) (es : List TerminalEvent) :
    sentBefore before (blockEvent event :: es) = before :: sentBefore before es := by
  cases event <;> rfl

theorem sent_blockEvent (event : BlockEvent) (es : List TerminalEvent) :
    sent (blockEvent event :: es) = sent es := by
  cases event <;> rfl

/-- The offsets of `markers` grow, from after `cursor` to at most the end of `data`. -/
def Ordered (data : Bytes) (cursor : ℕ) (markers : List (ℕ × BlockEvent)) : Prop :=
  cursor ≤ data.length ∧ (markers.map Prod.fst).Pairwise (· < ·) ∧
    ∀ m ∈ markers, cursor < m.1 ∧ m.1 ≤ data.length

theorem Ordered.cons {data : Bytes} {cursor stop : ℕ} {event : BlockEvent}
    {markers : List (ℕ × BlockEvent)} (h : Ordered data cursor ((stop, event) :: markers)) :
    cursor ≤ stop ∧ stop ≤ data.length ∧ Ordered data stop markers := by
  obtain ⟨-, hsorted, hbounds⟩ := h
  obtain ⟨hlt, hstop⟩ := hbounds (stop, event) List.mem_cons_self
  rw [List.map_cons, List.pairwise_cons] at hsorted
  refine ⟨hlt.le, hstop, hstop, hsorted.2, fun m hm => ?_⟩
  exact ⟨hsorted.1 m.1 (List.mem_map_of_mem hm), (hbounds m (List.mem_cons_of_mem _ hm)).2⟩

theorem ordered_pushIndexed (parser : Osc133Parser) (data : Bytes) :
    Ordered data 0 (parser.pushIndexed data).2 := by
  obtain ⟨hsorted, hbounds⟩ := parser.pushFrom_sorted 0 data
  refine ⟨Nat.zero_le _, hsorted, fun m hm => ?_⟩
  have := hbounds m hm
  omega

section Markers
variable {data : Bytes} {cursor : ℕ} {markers : List (ℕ × BlockEvent)}

/-- Nothing between the cursors is lost or moved. -/
theorem forwardMarkers_sent (h : Ordered data cursor markers) (p : Pump) :
    cursor ≤ (forwardMarkers data cursor markers p).2.1 ∧
    (forwardMarkers data cursor markers p).2.1 ≤ data.length ∧
    sent (forwardMarkers data cursor markers p).2.2 ++
        (forwardMarkers data cursor markers p).1.pending =
      p.pending ++ slice data cursor (forwardMarkers data cursor markers p).2.1 := by
  induction markers generalizing cursor p with
  | nil =>
    refine ⟨le_refl _, h.1, ?_⟩
    simp [forwardMarkers, sent, slice]
  | cons marker markers ih =>
    obtain ⟨stop, event⟩ := marker
    obtain ⟨hle, hstop, hlater⟩ := h.cons
    simp only [forwardMarkers, Nat.max_eq_right hle]
    obtain ⟨hge, hend, hrest⟩ := ih hlater
      (flushPending { p with pending := p.pending ++ slice data cursor stop }).1
    refine ⟨hle.trans hge, hend, ?_⟩
    rw [sent_append, sent_blockEvent, List.append_assoc, hrest, flushPending_pending,
      sent_flushPending, ← List.append_assoc, List.take_append_drop]
    simp only [List.append_assoc]
    rw [slice_append data hle hge hstop]

theorem length_sentBefore (before : Bytes) (p : Pump) :
    (sentBefore before (forwardMarkers data cursor markers p).2.2).length = markers.length := by
  induction markers generalizing cursor p before with
  | nil => rfl
  | cons marker markers ih =>
    obtain ⟨stop, event⟩ := marker
    simp only [forwardMarkers, sentBefore_append, sentBefore_blockEvent,
      sentBefore_eq_nil _ (flushPending_plain _), List.nil_append, List.length_cons]
    rw [ih]

/-- The markers leave after exactly the bytes before them if and only if one flush takes what
waits. -/
theorem forwardMarkers_fits (h : Ordered data cursor markers) (before : Bytes) (p : Pump) :
    sentBefore before (forwardMarkers data cursor markers p).2.2 =
        markers.map (fun m => before ++ p.pending ++ slice data cursor m.1) ↔
      MarkersFit data cursor markers p := by
  induction markers generalizing cursor p before with
  | nil => simp [forwardMarkers, MarkersFit, sentBefore]
  | cons marker markers ih =>
    obtain ⟨stop, event⟩ := marker
    obtain ⟨hle, hstop, hlater⟩ := h.cons
    simp only [forwardMarkers, MarkersFit, Nat.max_eq_right hle, sentBefore_append,
      sentBefore_blockEvent, sentBefore_eq_nil _ (flushPending_plain _), List.nil_append,
      List.map_cons, List.cons.injEq, sent_flushPending]
    have hhead : before ++ (p.pending ++ slice data cursor stop).take MAX_CHUNK =
        before ++ p.pending ++ slice data cursor stop ↔
        (p.pending ++ slice data cursor stop).length ≤ MAX_CHUNK := by
      rw [List.append_assoc, List.append_right_inj, List.take_eq_self_iff]
    have htail := ih hlater (before ++ (p.pending ++ slice data cursor stop).take MAX_CHUNK)
      (flushPending { p with pending := p.pending ++ slice data cursor stop }).1
    have hprefix : ∀ m ∈ markers,
        before ++ (p.pending ++ slice data cursor stop).take MAX_CHUNK ++
            (p.pending ++ slice data cursor stop).drop MAX_CHUNK ++ slice data stop m.1 =
          before ++ p.pending ++ slice data cursor m.1 := by
      intro m hm
      rw [List.append_assoc before, List.take_append_drop, List.append_assoc, List.append_assoc,
        List.append_assoc, slice_append data hle (hlater.2.2 m hm).1.le hstop]
    rw [flushPending_pending, List.map_congr_left hprefix] at htail
    rw [hhead, htail]

end Markers

theorem flushAll_spec (p : Pump) :
    sent (flushAll p) = p.pending ∧ ∀ e ∈ flushAll p, isBlock e = false := by
  induction p using flushAll.induct with
  | case1 p h =>
    rw [flushAll, dif_pos h, h]
    simp [sent]
  | case2 p h ih =>
    rw [flushAll, dif_neg h]
    constructor
    · change payload (flushOne p).2 ++ sent (flushAll (flushOne p).1) = p.pending
      rw [ih.1, payload_flushOne]
      exact List.take_append_drop _ _
    · intro e he
      obtain rfl | he := List.mem_cons.1 he
      · rfl
      · exact ih.2 e he

/-- What waits when the markers of a message have left. -/
def waiting (p : Pump) (data : Bytes) : Bytes :=
  let marked := forwardMarkers data 0 (p.osc133.pushIndexed data).2 p
  marked.1.pending ++ data.drop marked.2.1

/-- No message leaves more waiting than back-pressure allows. -/
def Undropped (p : Pump) : List Received → Prop
  | [] => True
  | .data data :: messages =>
    (waiting p data).length ≤ MAX_PENDING ∧ Undropped (receive p (.data data)).1 messages
  | .tick :: messages => Undropped (receive p .tick).1 messages

/-- At each marker of each message no more waits than one flush takes. -/
def Fits (p : Pump) : List Received → Prop
  | [] => True
  | .data data :: messages =>
    MarkersFit data 0 (p.osc133.pushIndexed data).2 p ∧ Fits (receive p (.data data)).1 messages
  | .tick :: messages => Fits (receive p .tick).1 messages

theorem forwardRest_spec {rest : Bytes} {p : Pump}
    (h : (p.pending ++ rest).length ≤ MAX_PENDING) :
    sent (forwardRest rest p).2 ++ (forwardRest rest p).1.pending = p.pending ++ rest ∧
    ∀ e ∈ (forwardRest rest p).2, isBlock e = false := by
  unfold forwardRest
  simp only [if_neg (Nat.not_lt.2 h)]
  split
  · refine ⟨?_, by simp [flushOne, isBlock]⟩
    simp only [sent, List.flatMap_cons, List.flatMap_nil, List.append_nil, payload_flushOne]
    exact List.take_append_drop _ _
  · exact ⟨rfl, by simp⟩

theorem attentionEvent_plain (signals : List AttentionKind) :
    sent (signals.map attentionEvent) = [] ∧
      ∀ e ∈ signals.map attentionEvent, isBlock e = false := by
  induction signals with
  | nil => simp [sent]
  | cons signal signals ih =>
    constructor
    · cases signal <;> exact ih.1
    · intro e he
      obtain rfl | he := List.mem_cons.1 he
      · cases signal <;> rfl
      · exact ih.2 e he

/-- One message: its bytes are sent or wait, in order, and its markers leave in their places
exactly if one flush always takes what waits. -/
theorem receive_data {p : Pump} {data : Bytes} (h : (waiting p data).length ≤ MAX_PENDING)
    (before : Bytes) :
    sent (receive p (.data data)).2 ++ (receive p (.data data)).1.pending = p.pending ++ data ∧
    (sentBefore before (receive p (.data data)).2).length =
      (p.osc133.pushIndexed data).2.length ∧
    (sentBefore before (receive p (.data data)).2 =
        (p.osc133.pushIndexed data).2.map (fun m => before ++ p.pending ++ slice data 0 m.1) ↔
      MarkersFit data 0 (p.osc133.pushIndexed data).2 p) := by
  have hordered := ordered_pushIndexed p.osc133 data
  obtain ⟨-, hend, hmarked⟩ := forwardMarkers_sent hordered p
  obtain ⟨hrest, hplain⟩ := forwardRest_spec h
  obtain ⟨hsilent, hsignals⟩ := attentionEvent_plain (p.attention.push data).2
  have hblocks : sentBefore before (receive p (.data data)).2 =
      sentBefore before (forwardMarkers data 0 (p.osc133.pushIndexed data).2 p).2.2 := by
    simp only [receive, sentBefore_append, sentBefore_eq_nil _ hplain,
      sentBefore_eq_nil _ hsignals, List.append_nil]
  rw [hblocks]
  refine ⟨?_, length_sentBefore before p, forwardMarkers_fits hordered before p⟩
  simp only [receive, sent_append, hsilent, List.append_nil, List.append_assoc, hrest]
  rw [← List.append_assoc, hmarked, List.append_assoc]
  congr 1
  exact List.take_append_drop _ _

theorem forwardOutput_sent {p : Pump} {messages : List Received} (h : Undropped p messages) :
    sent (forwardOutput p messages) = p.pending ++ received messages := by
  induction messages generalizing p with
  | nil =>
    rw [forwardOutput, sent_append, (flushAll_spec p).1]
    simp [sent, payload, received]
  | cons message messages ih =>
    cases message with
    | data data =>
      rw [forwardOutput, sent_append, ih h.2, ← List.append_assoc, (receive_data h.1 []).1,
        List.append_assoc]
      rfl
    | tick =>
      rw [forwardOutput, sent_append, ih h, ← List.append_assoc]
      congr 1
      change sent (flushPending p).2 ++ (flushPending p).1.pending = p.pending
      rw [sent_flushPending, flushPending_pending, List.take_append_drop]

theorem append_eq_append {α : Type} {a b c d : List α} (h : a.length = c.length) :
    a ++ b = c ++ d ↔ a = c ∧ b = d :=
  ⟨fun heq => List.append_inj heq h, fun ⟨hac, hbd⟩ => by rw [hac, hbd]⟩

/-- The prefixes that the markers of `data` end, in a stream where `arrived` came before. -/
theorem prefixes_pushIndexed (parser : Osc133Parser) (arrived data later : Bytes) :
    (parser.pushFrom arrived.length data).2.map (fun m => (arrived ++ (data ++ later)).take m.1) =
      (parser.pushIndexed data).2.map fun m => arrived ++ slice data 0 m.1 := by
  have hadd := parser.pushFrom_add arrived.length 0 data
  rw [Nat.add_zero] at hadd
  rw [hadd, List.map_map]
  apply List.map_congr_left
  intro m hm
  have hle : m.1 ≤ data.length := ((ordered_pushIndexed parser data).2.2 m hm).2
  simp only [Function.comp_apply, List.take_length_add_append, List.take_append_of_le_length hle,
    slice, List.drop_zero]

theorem forwardOutput_fits {p : Pump} {messages : List Received} (h : Undropped p messages)
    {before arrived : Bytes} (harrived : before ++ p.pending = arrived) :
    sentBefore before (forwardOutput p messages) =
        (p.osc133.pushFrom arrived.length (received messages)).2.map
          (fun m => (arrived ++ received messages).take m.1) ↔
      Fits p messages := by
  induction messages generalizing p before arrived with
  | nil =>
    have hflush := sentBefore_eq_nil before (flushAll_spec p).2
    simp [forwardOutput, sentBefore_append, hflush, sentBefore, Fits, received,
      Osc133Parser.pushFrom]
  | cons message messages ih =>
    cases message with
    | tick =>
      have hkept : before ++ sent (flushPending p).2 ++ (flushPending p).1.pending = arrived := by
        rw [List.append_assoc, sent_flushPending, flushPending_pending, List.take_append_drop,
          harrived]
      have hosc : (flushPending p).1.osc133 = p.osc133 := by
        unfold flushPending
        split <;> rfl
      have hrest := ih (p := (flushPending p).1) h hkept
      rw [hosc] at hrest
      rw [forwardOutput, sentBefore_append]
      change sentBefore before (flushPending p).2 ++ _ = _ ↔ _
      rw [sentBefore_eq_nil _ (flushPending_plain p), List.nil_append]
      exact hrest
    | data data =>
      obtain ⟨hsent, hlen, hfits⟩ := receive_data h.1 before
      have hkept : before ++ sent (receive p (.data data)).2 ++
          (receive p (.data data)).1.pending = arrived ++ data := by
        rw [List.append_assoc, hsent, ← List.append_assoc, harrived]
      have hrest := ih h.2 hkept
      have hosc : (receive p (.data data)).1.osc133 = (p.osc133.pushFrom arrived.length data).1 := by
        have hadd := p.osc133.pushFrom_add arrived.length 0 data
        rw [Nat.add_zero] at hadd
        rw [hadd]
        rfl
      rw [hosc, List.length_append] at hrest
      have hmarks := prefixes_pushIndexed p.osc133 arrived data (received messages)
      rw [forwardOutput, sentBefore_append, received, Osc133Parser.pushFrom_append, List.map_append,
        hmarks, ← harrived, append_eq_append (hlen.trans (List.length_map _).symm), hfits, harrived,
        ← List.append_assoc, hrest]
      rfl

/-! ## The order of the output -/

theorem sentBefore_forwardOutput {messages : List Received} (h : Undropped .new messages) :
    sentBefore [] (forwardOutput .new messages) = markedPrefixes (received messages) ↔
      Fits .new messages :=
  forwardOutput_fits h rfl

/-- Everything that arrives is sent in order; a marker leaves in its place, for every marker of
the stream, if and only if no marker finds more waiting than one flush takes. -/
theorem output_order (messages : List Received) (h : Undropped .new messages) :
    sent (forwardOutput .new messages) = received messages ∧
    (sentBefore [] (forwardOutput .new messages) = markedPrefixes (received messages) ↔
      Fits .new messages) :=
  ⟨forwardOutput_sent h, sentBefore_forwardOutput h⟩

/-- `ESC ] 133 ; A BEL`. -/
def promptMarker : Bytes := [0x1b, 0x5d, 0x31, 0x33, 0x33, 0x3b, 0x41, 0x07]

instance decidableMarkersFit (data : Bytes) : (cursor : ℕ) → (markers : List (ℕ × BlockEvent)) →
    (p : Pump) → Decidable (MarkersFit data cursor markers p)
  | _, [], _ => isTrue trivial
  | cursor, (stop, _) :: markers, p =>
    letI := decidableMarkersFit data (max cursor stop) markers
      (flushPending { p with pending := p.pending ++ slice data cursor stop }).1
    inferInstanceAs (Decidable (_ ∧ _))

theorem output_order_prompt :
    let messages := [Received.data [0x61], .tick, .data (promptMarker ++ [0x62])]
    sent (forwardOutput .new messages) = [0x61] ++ promptMarker ++ [0x62] ∧
    sentBefore [] (forwardOutput .new messages) = [[0x61] ++ promptMarker] := by
  have hundropped : Undropped .new [.data [0x61], .tick, .data (promptMarker ++ [0x62])] :=
    ⟨by decide +kernel, by decide +kernel, trivial⟩
  have hfits : Fits .new [.data [0x61], .tick, .data (promptMarker ++ [0x62])] :=
    ⟨by decide +kernel, by decide +kernel, trivial⟩
  obtain ⟨hsent, horder⟩ := output_order _ hundropped
  refine ⟨hsent, (horder.2 hfits).trans ?_⟩
  decide +kernel

/-- A burst of output of `n` bytes without an escape. -/
def burst (n : ℕ) : Bytes := List.replicate n 0x61

@[simp] theorem length_burst (n : ℕ) : (burst n).length = n := List.length_replicate

theorem burst_ground (n offset : ℕ) :
    Osc133Parser.new.pushFrom offset (burst n) = (.new, []) := by
  apply Osc133Parser.pushFrom_ground rfl
  simp [burst, List.mem_replicate]

theorem burst_prompt (n : ℕ) :
    (Osc133Parser.new.pushIndexed (burst n ++ promptMarker)).2 = [(n + 8, .promptStart)] := by
  have hmarker : (Osc133Parser.new.pushFrom 0 promptMarker).2 = [(8, .promptStart)] := by
    decide +kernel
  have hadd := Osc133Parser.new.pushFrom_add n 0 promptMarker
  rw [Nat.add_zero, hmarker] at hadd
  rw [Osc133Parser.pushIndexed, Osc133Parser.pushFrom_append, burst_ground, Nat.zero_add,
    length_burst, hadd]
  rfl

/-- A burst below the flush size waits. -/
theorem receive_burst {n : ℕ} (hn : n < MAX_CHUNK) :
    (receive .new (.data (burst n))).1.pending = burst n ∧
    (receive .new (.data (burst n))).1.osc133 = .new := by
  have hmarkers : Pump.new.osc133.pushIndexed (burst n) = (.new, []) := burst_ground n 0
  simp only [receive, hmarkers, forwardMarkers, List.drop_zero, forwardRest]
  have hkept : ¬ MAX_PENDING < n := by
    simp only [MAX_CHUNK, MAX_PENDING] at *
    omega
  have hfew : ¬ MAX_CHUNK ≤ n := Nat.not_le.2 hn
  simp [Pump.new, hkept, hfew]

/-- Two bursts, the second with a marker at its end. -/
def bursts (n : ℕ) : List Received := [.data (burst n), .data (burst n ++ promptMarker)]

theorem bursts_undropped {n : ℕ} (hn : n < MAX_CHUNK) : Undropped .new (bursts n) := by
  obtain ⟨hpending, hosc⟩ := receive_burst hn
  have hmarkers : Pump.new.osc133.pushIndexed (burst n) = (.new, []) := burst_ground n 0
  simp only [bursts, Undropped, waiting, hmarkers, hosc, burst_prompt, forwardMarkers,
    flushPending_pending, hpending]
  have hmarker : promptMarker.length = 8 := rfl
  simp only [Pump.new, slice, MAX_CHUNK, MAX_PENDING, List.length_append, List.length_drop,
    List.length_take, length_burst, List.length_nil, hmarker, and_true] at *
  omega

theorem bursts_crowded {n : ℕ} (hn : n < MAX_CHUNK) (hlong : MAX_CHUNK < n + n) :
    ¬ Fits .new (bursts n) := by
  obtain ⟨hpending, hosc⟩ := receive_burst hn
  simp only [bursts, Fits, hosc, burst_prompt, MarkersFit, hpending]
  rintro ⟨-, ⟨hfit, -⟩, -⟩
  have hmarker : promptMarker.length = 8 := rfl
  simp only [slice, List.length_append, List.length_drop, List.length_take, length_burst,
    hmarker] at hfit
  omega

/-- What one flush leaves behind is sent after the marker. -/
theorem output_order_fails :
    ¬ ∀ messages : List Received, Undropped .new messages →
      sent (forwardOutput .new messages) = received messages ∧
      sentBefore [] (forwardOutput .new messages) = markedPrefixes (received messages) := by
  intro hall
  have hsmall : 40000 < MAX_CHUNK := by decide
  have hlong : MAX_CHUNK < 40000 + 40000 := by decide
  have hundropped := bursts_undropped hsmall
  obtain ⟨-, horder⟩ := hall (bursts 40000) hundropped
  exact bursts_crowded hsmall hlong ((sentBefore_forwardOutput hundropped).1 horder)

end Tethra.OutputPump
