import Tethra.RustText
import Tethra.Transducers

set_option autoImplicit false

/-!
# Markers in a terminal stream

The incremental scanners for OSC 133 blocks and for attention signals. Both gather the body of
an operating-system command up to BEL or ST and read it as text.
-/
namespace Tethra.TerminalMarkers
open RustText

abbrev Bytes := List UInt8

inductive State where
  | ground
  | esc
  | osc
  deriving DecidableEq

/-- `str::from_utf8`. -/
def fromUtf8 (bytes : Bytes) : Option String := String.fromUTF8? ⟨bytes.toArray⟩

def split (text : String) : List String := (text.toList.splitOn ';').map String.ofList

def decimal (digits : List Char) : Option ℤ :=
  if digits ≠ [] ∧ digits.all Char.isDigit then
    some (digits.foldl (fun n c => 10 * n + (c.toNat - '0'.toNat : ℤ)) 0)
  else none

/-- `text.parse::<i32>()`. -/
def parseI32 (text : String) : Option ℤ :=
  let value := match text.toList with
    | '-' :: digits => (decimal digits).map Neg.neg
    | '+' :: digits => decimal digits
    | digits => decimal digits
  value.filter fun n => -2 ^ 31 ≤ n ∧ n < 2 ^ 31

/-! ## Text and bytes -/

theorem fromUtf8_char (c : Char) (bytes : Bytes) :
    fromUtf8 (String.utf8EncodeChar c ++ bytes) = (fromUtf8 bytes).map (String.ofList [c] ++ ·) := by
  have hbytes : (⟨(String.utf8EncodeChar c ++ bytes).toArray⟩ : ByteArray) =
      [c].utf8Encode ++ ⟨bytes.toArray⟩ := by
    rw [List.utf8Encode_singleton]
    ext1
    simp
  unfold fromUtf8 String.fromUTF8?
  by_cases hvalid : ByteArray.IsValidUTF8 ⟨bytes.toArray⟩
  · rw [dif_pos hvalid, dif_pos (by rwa [hbytes, ByteArray.isValidUTF8_utf8Encode_singleton_append_iff])]
    refine congrArg some (String.toByteArray_inj.1 ?_)
    change (⟨(String.utf8EncodeChar c ++ bytes).toArray⟩ : ByteArray) =
      (String.ofList [c] ++ String.fromUTF8 ⟨bytes.toArray⟩ hvalid).toByteArray
    rw [hbytes, String.toByteArray_append, String.toByteArray_ofList]
    rfl
  · rw [dif_neg hvalid, dif_neg (by rwa [hbytes, ByteArray.isValidUTF8_utf8Encode_singleton_append_iff])]
    rfl

theorem fromUtf8_append (text : List Char) (bytes : Bytes) :
    fromUtf8 (text.flatMap String.utf8EncodeChar ++ bytes) =
      (fromUtf8 bytes).map (String.ofList text ++ ·) := by
  induction text with
  | nil => simp
  | cons c text ih =>
    rw [List.flatMap_cons, List.append_assoc, fromUtf8_char, ih, Option.map_map]
    congr 1
    funext rest
    rw [Function.comp_apply, ← String.append_assoc, ← String.ofList_append]
    rfl

theorem split_append (a b : List Char) (ha : ';' ∉ a) :
    split (String.ofList (a ++ ';' :: b)) = String.ofList a :: split (String.ofList b) := by
  unfold split
  rw [String.toList_ofList, String.toList_ofList, List.splitOn_append_cons_self_of_not_mem ha]
  rfl

theorem fromUtf8_eq_some {bytes : Bytes} {text : String} (h : fromUtf8 bytes = some text) :
    bytes = text.toList.flatMap String.utf8EncodeChar := by
  unfold fromUtf8 String.fromUTF8? at h
  split at h
  · rename_i hvalid
    rw [← Option.some.inj h]
    obtain ⟨chars, hchars⟩ := hvalid
    have htext : String.fromUTF8 ⟨bytes.toArray⟩ ⟨chars, hchars⟩ = String.ofList chars := by
      refine String.toByteArray_inj.1 ?_
      rw [String.toByteArray_ofList]
      exact hchars
    rw [htext, String.toList_ofList]
    have hdata := congrArg (fun b : ByteArray => b.data.toList) hchars
    simpa [List.utf8Encode] using hdata
  · cases h

/-! ## OSC 133 -/

inductive BlockEvent where
  | promptStart
  | commandStart
  | outputStart
  | commandEnd (exitCode : Option ℤ)
  deriving DecidableEq

structure Osc133Parser where
  state : State
  body : Bytes

namespace Osc133Parser

def new : Osc133Parser := ⟨.ground, []⟩

def parseBody (body : Bytes) : Option BlockEvent := do
  let text ← fromUtf8 body
  match split text with
  | "133" :: kind :: parts =>
    match ← kind.toList.head? with
    | 'A' | 'a' => some .promptStart
    | 'B' | 'b' => some .commandStart
    | 'C' | 'c' => some .outputStart
    | 'D' | 'd' =>
      some (.commandEnd (parts.head?.bind fun value =>
        if (trim value).isEmpty then none else parseI32 (trim value)))
    | _ => none
  | _ => none

def feedGround (p : Osc133Parser) (byte : UInt8) : Osc133Parser × Option BlockEvent :=
  (if byte = 0x1b then { p with state := .esc } else p, none)

def feed (p : Osc133Parser) (byte : UInt8) : Osc133Parser × Option BlockEvent :=
  match p.state with
  | .ground => p.feedGround byte
  | .esc =>
    if byte = 0x5d then (⟨.osc, []⟩, none) else ({ p with state := .ground }, none)
  | .osc =>
    if byte = 0x07 then (⟨.ground, []⟩, parseBody p.body)
    else if byte = 0x1b then ({ p with body := p.body ++ [byte] }, none)
    else if p.body.getLast? = some 0x1b then
      if byte = 0x5c then (⟨.ground, []⟩, parseBody p.body.dropLast)
      else feedGround ⟨.ground, []⟩ byte
    else if p.body.length < 256 then ({ p with body := p.body ++ [byte] }, none)
    else (⟨.ground, []⟩, none)

/-- The events of `data` with the offsets where their sequences end, counted from `offset`. -/
def pushFrom (p : Osc133Parser) (offset : ℕ) : Bytes → Osc133Parser × List (ℕ × BlockEvent)
  | [] => (p, [])
  | byte :: data =>
    let rest := pushFrom (p.feed byte).1 (offset + 1) data
    (rest.1, ((p.feed byte).2.toList.map fun event => (offset + 1, event)) ++ rest.2)

def pushIndexed (p : Osc133Parser) (data : Bytes) : Osc133Parser × List (ℕ × BlockEvent) :=
  p.pushFrom 0 data

theorem pushFrom_append (p : Osc133Parser) (offset : ℕ) (a b : Bytes) :
    p.pushFrom offset (a ++ b) =
      (((p.pushFrom offset a).1.pushFrom (offset + a.length) b).1,
        (p.pushFrom offset a).2 ++ ((p.pushFrom offset a).1.pushFrom (offset + a.length) b).2) := by
  induction a generalizing p offset with
  | nil => rfl
  | cons byte a ih =>
    have harith : offset + (byte :: a).length = offset + 1 + a.length := by
      simp only [List.length_cons]
      omega
    simp only [List.cons_append, pushFrom, ih, harith, List.append_assoc]

theorem pushFrom_add (p : Osc133Parser) (m n : ℕ) (data : Bytes) :
    p.pushFrom (m + n) data =
      ((p.pushFrom n data).1, (p.pushFrom n data).2.map fun e => (m + e.1, e.2)) := by
  induction data generalizing p n with
  | nil => rfl
  | cons byte data ih =>
    have hrest := ih (p.feed byte).1 (n + 1)
    rw [← Nat.add_assoc] at hrest
    simp only [pushFrom, hrest, List.map_append, List.map_map]
    cases (p.feed byte).2 <;> simp [Nat.add_assoc]

/-- The offsets grow, from after the start to at most the end. -/
theorem pushFrom_sorted (p : Osc133Parser) (offset : ℕ) (data : Bytes) :
    ((p.pushFrom offset data).2.map Prod.fst).Pairwise (· < ·) ∧
      ∀ e ∈ (p.pushFrom offset data).2, offset < e.1 ∧ e.1 ≤ offset + data.length := by
  induction data generalizing p offset with
  | nil =>
    refine ⟨List.Pairwise.nil, fun e he => ?_⟩
    cases he
  | cons byte data ih =>
    obtain ⟨hsorted, hbounds⟩ := ih (p.feed byte).1 (offset + 1)
    have hrest : ∀ e ∈ ((p.feed byte).1.pushFrom (offset + 1) data).2,
        offset + 1 < e.1 ∧ e.1 ≤ offset + (byte :: data).length := by
      intro e he
      have := hbounds e he
      simp only [List.length_cons]
      omega
    simp only [pushFrom]
    cases (p.feed byte).2 with
    | none =>
      refine ⟨hsorted, fun e he => ?_⟩
      have := hrest e he
      omega
    | some event =>
      simp only [Option.toList_some, List.map_cons, List.map_nil, List.cons_append, List.nil_append,
        List.pairwise_cons, List.mem_cons]
      refine ⟨⟨?_, hsorted⟩, ?_⟩
      · intro n hn
        obtain ⟨e, he, rfl⟩ := List.mem_map.1 hn
        exact (hrest e he).1
      · rintro e (rfl | he)
        · simp
        · have := hrest e he
          omega

/-- Without an ESC nothing is found. -/
theorem pushFrom_ground {p : Osc133Parser} (hp : p.state = .ground) (offset : ℕ) {data : Bytes}
    (hdata : 0x1b ∉ data) : p.pushFrom offset data = (p, []) := by
  induction data generalizing offset with
  | nil => rfl
  | cons byte data ih =>
    rw [List.mem_cons, not_or] at hdata
    have hfeed : p.feed byte = (p, none) := by
      simp [feed, hp, feedGround, Ne.symm hdata.1]
    simp only [pushFrom, hfeed, ih (offset + 1) hdata.2]
    rfl

end Osc133Parser

/-! ## Attention -/

inductive AttentionKind where
  | bell
  | notify (message : Option String)
  deriving DecidableEq

structure AttentionParser where
  state : State
  body : Bytes

namespace AttentionParser

def new : AttentionParser := ⟨.ground, []⟩

def nonEmpty (message : String) : Option String := if message.isEmpty then none else some message

def parseBody (body : Bytes) : Option AttentionKind := do
  let text ← fromUtf8 body
  match split text with
  | "9" :: [] => some (.notify none)
  | "9" :: message => some (.notify (nonEmpty (trim (";".intercalate message))))
  | "777" :: kind :: rest =>
    if eqIgnoreAsciiCase kind "notify" then
      -- Title and body; the body may hold further semicolons.
      match rest with
      | [] => some (.notify none)
      | [title] => some (.notify (nonEmpty (trim title)))
      | _ :: message => some (.notify (nonEmpty (trim (";".intercalate message))))
    else some (.notify (nonEmpty (trim (";".intercalate (kind :: rest)))))
  | _ => none

def feedGround (p : AttentionParser) (byte : UInt8) : AttentionParser × Option AttentionKind :=
  if byte = 0x07 then (p, some .bell)
  else (if byte = 0x1b then { p with state := .esc } else p, none)

def feed (p : AttentionParser) (byte : UInt8) : AttentionParser × Option AttentionKind :=
  match p.state with
  | .ground => p.feedGround byte
  | .esc =>
    if byte = 0x5d then (⟨.osc, []⟩, none)
    else feedGround { p with state := .ground } byte
  | .osc =>
    if byte = 0x07 then (⟨.ground, []⟩, parseBody p.body)
    else if byte = 0x1b then ({ p with body := p.body ++ [byte] }, none)
    else if p.body.getLast? = some 0x1b then
      if byte = 0x5c then (⟨.ground, []⟩, parseBody p.body.dropLast)
      else feedGround ⟨.ground, []⟩ byte
    else if p.body.length < 512 then ({ p with body := p.body ++ [byte] }, none)
    else (⟨.ground, []⟩, none)

def push (p : AttentionParser) : Bytes → AttentionParser × List AttentionKind
  | [] => (p, [])
  | byte :: data =>
    let rest := push (p.feed byte).1 data
    (rest.1, (p.feed byte).2.toList ++ rest.2)

end AttentionParser
end Tethra.TerminalMarkers
