import Mathlib.Tactic

set_option autoImplicit false

/-! # String operations with the meaning Rust's standard library gives them -/
namespace Tethra.RustText

/-- Unicode's `White_Space`. -/
def isWhitespace (c : Char) : Bool :=
  (9 ≤ c.toNat && c.toNat ≤ 13) || c.toNat == 0x20 || c.toNat == 0x85 || c.toNat == 0xA0 ||
    c.toNat == 0x1680 || (0x2000 ≤ c.toNat && c.toNat ≤ 0x200A) || c.toNat == 0x2028 ||
    c.toNat == 0x2029 || c.toNat == 0x202F || c.toNat == 0x205F || c.toNat == 0x3000

def trim (s : String) : String :=
  String.ofList ((((s.toList.dropWhile isWhitespace).reverse).dropWhile isWhitespace).reverse)

/-- `str::trim_matches`. -/
def trimMatches (p : Char → Bool) (s : String) : String :=
  String.ofList (((s.toList.dropWhile p).reverse.dropWhile p).reverse)

/-- A line without the carriage return before its line feed. -/
def stripCr (line : List Char) : List Char :=
  if line.getLast? = some '\r' then line.dropLast else line

/-- The lines of a text that was cut at its line feeds. -/
def linesOf : List (List Char) → List (List Char)
  | [] => []
  | [last] => if last.isEmpty then [] else [last]
  | line :: next :: rest => stripCr line :: linesOf (next :: rest)

/-- `str::lines`. -/
def lines (s : String) : List String := (linesOf (s.toList.splitOn '\n')).map String.ofList

def containsText (s needle : String) : Bool := decide (needle.toList <:+: s.toList)

def toAsciiUppercase (s : String) : String := s.map Char.toUpper

def toAsciiLowercase (s : String) : String := s.map Char.toLower

def eqIgnoreAsciiCase (s t : String) : Bool := toAsciiLowercase s == toAsciiLowercase t

def isAsciiHexdigit (c : Char) : Bool :=
  c.isDigit || ('a' ≤ c && c ≤ 'f') || ('A' ≤ c && c ≤ 'F')

/-- What stands before the first `sep`, or everything. -/
def beforeFirst (sep : Char) (s : String) : String :=
  String.ofList (s.toList.takeWhile (· ≠ sep))

/-- What stands after the last `sep`, or everything. -/
def afterLast (sep : Char) (s : String) : String :=
  String.ofList ((s.toList.reverse.takeWhile (· ≠ sep)).reverse)

/-- `Vec::dedup`: one of each run of equal neighbours. -/
def dedup (texts : List String) : List String := texts.destutter (· ≠ ·)

/-! ## Decoding with replacement characters -/

/-- How many bytes the character has that starts with the byte; none for a byte no character
starts with. -/
def utf8Length (b : UInt8) : ℕ :=
  if b < 0x80 then 1
  else if 0xc2 ≤ b && b < 0xe0 then 2
  else if 0xe0 ≤ b && b < 0xf0 then 3
  else if 0xf0 ≤ b && b < 0xf5 then 4
  else 0

/-- The byte may follow what there is of a character. -/
def continuesUtf8 (started : List UInt8) (b : UInt8) : Bool :=
  match started with
  | [] => false
  | [0xe0] => 0xa0 ≤ b && b < 0xc0
  | [0xed] => 0x80 ≤ b && b < 0xa0
  | [0xf0] => 0x90 ≤ b && b < 0xc0
  | [0xf4] => 0x80 ≤ b && b < 0x90
  | _ => 0x80 ≤ b && b < 0xc0

def utf8Value : List UInt8 → ℕ
  | [] => 0
  | lead :: rest =>
    let bits := match rest.length with
      | 0 => lead.toNat
      | 1 => lead.toNat - 0xc0
      | 2 => lead.toNat - 0xe0
      | _ => lead.toNat - 0xf0
    rest.foldl (fun n b => 64 * n + (b.toNat - 0x80)) bits

/-- What has been read of a character: the characters it gives, and what is kept of it. -/
def settleUtf8 (started : List UInt8) : List Char × List UInt8 :=
  match started with
  | [] => ([], [])
  | lead :: _ =>
    if utf8Length lead = 0 then (['\uFFFD'], [])
    else if started.length = utf8Length lead then ([Char.ofNat (utf8Value started)], [])
    else ([], started)

def lossyChars (started : List UInt8) : List UInt8 → List Char
  | [] => if started.isEmpty then [] else ['\uFFFD']
  | b :: rest =>
    if continuesUtf8 started b then
      (settleUtf8 (started ++ [b])).1 ++ lossyChars (settleUtf8 (started ++ [b])).2 rest
    else
      -- A character cut short is one replacement character, and `b` starts afresh.
      (if started.isEmpty then [] else ['\uFFFD']) ++
        ((settleUtf8 [b]).1 ++ lossyChars (settleUtf8 [b]).2 rest)

/-- `String::from_utf8_lossy`. -/
def fromUtf8Lossy (bytes : List UInt8) : String := String.ofList (lossyChars [] bytes)

example : fromUtf8Lossy [0x61, 0xe2, 0x82, 0xac, 0xe2, 0x82, 0x62, 0xff] = "a€\uFFFDb\uFFFD" := by
  decide +kernel

end Tethra.RustText
