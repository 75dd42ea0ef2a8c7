import Tethra.TextPatterns

set_option autoImplicit false

/-!
# Text that the interface types into a shell

What is taken out of a text before it is sent, and what is sent. Texts are UTF-16 code units,
as the patterns of the source read them.
-/
namespace Tethra.ShellInjection
open TextPatterns

abbrev Text := List UInt16

def TAB : UInt16 := 0x09
def LF : UInt16 := 0x0a
def CR : UInt16 := 0x0d
def ESC : UInt16 := 0x1b
def BEL : UInt16 := 0x07
def CTRL_U : UInt16 := 0x15

def unit (c : Char) : UInt16 := UInt16.ofNat c.toNat

def isOneOf (chars : List Char) (u : UInt16) : Bool := (chars.map unit).contains u

def between (low high u : UInt16) : Bool := low ≤ u && u ≤ high

def isDigit (u : UInt16) : Bool := between 0x30 0x39 u

def isHexDigit (u : UInt16) : Bool := isDigit u || between 0x61 0x66 u || between 0x41 0x46 u

/-! ## The patterns -/

namespace Pattern
open TextPatterns.Pattern

abbrev TextPattern := TextPatterns.Pattern UInt16

def code (u : UInt16) : TextPattern := .sym (· == u)

def lit (c : Char) : TextPattern := code (unit c)

/-- The characters of a word, and then `r`. -/
def word (chars : List Char) (r : TextPattern) : TextPattern :=
  chars.foldr (fun c r => .seq (lit c) r) r

def digit : TextPattern := .sym isDigit

def hexDigit : TextPattern := .sym isHexDigit

/-- `[\d;]*c` -/
def parametersC : TextPattern := .seq (.many (.sym fun u => isDigit u || u == unit ';')) (lit 'c')

def hexGroup : TextPattern := .seq hexDigit (.upTo 3 hexDigit)

def RGB : TextPattern :=
  word ['r', 'g', 'b', ':'] (.seq hexGroup (.seq (lit '/') (.seq hexGroup (.seq (lit '/') hexGroup))))

def ST : TextPattern := .seq (code ESC) (lit '\\')

def BARE_OSC_RGB : TextPattern :=
  .seq (lit '1') (.seq (.sym (isOneOf ['0', '1', '2'])) (.seq (lit ';') RGB))

def OSC_RGB : TextPattern :=
  .seq (code ESC) (.seq (lit ']') (.seq (lit '1') (.seq (.sym (isOneOf ['0', '1', '2']))
    (.seq (lit ';') (.seq RGB (opt (.alt (code BEL) ST)))))))

def CSI_DA : TextPattern := .seq (code ESC) (.seq (lit '[') (.seq (opt (lit '?')) parametersC))

def CSI_DA_SEC : TextPattern := .seq (code ESC) (.seq (lit '[') (.seq (lit '>') parametersC))

def numberSemicolon : TextPattern := .seq (plus digit) (lit ';')

/-- What is left of a report without its ESC. -/
def bareReport : TextPattern :=
  .alt (.seq (lit '?') parametersC) (.alt (.seq (lit '>') parametersC)
    (.seq (.seq numberSemicolon (.upTo 7 numberSemicolon)) (.seq (.many digit) (lit 'c'))))

def BARE_DA : TextPattern := plus bareReport

def CRLF : TextPattern := .seq (code CR) (code LF)

def csiSequence : TextPattern :=
  .seq (code ESC) (.seq (lit '[') (.seq (.many (.sym fun u => isDigit u || isOneOf [';', '?'] u))
    (.seq (.many (.sym (between 0x20 0x2f))) (.sym (between 0x40 0x7e)))))

def oscSequence : TextPattern :=
  .seq (code ESC) (.seq (lit ']') (.seq (.many (.sym fun u => u != BEL && u != ESC))
    (opt (.alt (code BEL) ST))))

def stringSequence : TextPattern :=
  .seq (code ESC) (.seq (.sym (isOneOf ['P', 'X', '^', '_'])) (.seq (.many (.sym (· != ESC))) ST))

/-- The dot matches no line terminator. -/
def escapedUnit : TextPattern :=
  .seq (code ESC) (.sym fun u => u != LF && u != CR && u != 0x2028 && u != 0x2029)

/-- Controls but for TAB, LF and CR. -/
def isControl (u : UInt16) : Bool :=
  u ≤ 0x08 || u == 0x0b || u == 0x0c || between 0x0e 0x1f u || u == 0x7f

theorem isControl_eq_false_iff {u : UInt16} :
    isControl u = false ↔ (0x20 ≤ u ∧ u ≠ 0x7f) ∨ u = TAB ∨ u = LF ∨ u = CR := by
  simp only [isControl, between, Bool.or_eq_false_iff, Bool.and_eq_false_iff,
    decide_eq_false_iff_not, beq_eq_false_iff_ne, UInt16.le_iff_toNat_le, ne_eq,
    ← UInt16.toNat_inj, TAB, LF, CR, UInt16.reduceToNat]
  omega

end Pattern

/-! ## What is taken out -/

def remove (r : TextPatterns.Pattern UInt16) (data : Text) : Text := r.replaceAll [] data

def stripDeviceReports (data : Text) : Text :=
  remove (Pattern.code BEL) (remove Pattern.BARE_OSC_RGB (remove Pattern.BARE_DA
    (remove Pattern.OSC_RGB (remove Pattern.CSI_DA_SEC (remove Pattern.CSI_DA data)))))

def normalizeNewlines (text : Text) : Text :=
  (Pattern.code CR).replaceAll [LF] (Pattern.CRLF.replaceAll [LF] text)

def stripSequences (text : Text) : Text :=
  remove Pattern.escapedUnit (remove Pattern.stringSequence (remove Pattern.oscSequence
    (remove Pattern.csiSequence text)))

def sanitizeShellPayload (text : Text) : Text :=
  stripDeviceReports (remove (.sym Pattern.isControl) (stripSequences (normalizeNewlines text)))

/-- `replace(/^\n+|\n+$/g, "")` -/
def trimNewlines (text : Text) : Text :=
  ((text.dropWhile (· == LF)).reverse.dropWhile (· == LF)).reverse

/-! ## What is sent -/

def pasteOpen : Text := ESC :: ['[', '2', '0', '0', '~'].map unit

def pasteClose : Text := ESC :: ['[', '2', '0', '1', '~'].map unit

def withBracketedPaste (text : Text) : Text :=
  if text.contains LF then pasteOpen ++ text ++ pasteClose else text

def isHighSurrogate (u : UInt16) : Bool := between 0xd800 0xdbff u

def isLowSurrogate (u : UInt16) : Bool := between 0xdc00 0xdfff u

/-- What stands for a surrogate without its other half. -/
def replacementBytes : List UInt8 := [0xef, 0xbf, 0xbd]

def pairBytes (high low : UInt16) : List UInt8 :=
  String.utf8EncodeChar
    (Char.ofNat (0x10000 + (high.toNat - 0xd800) * 0x400 + (low.toNat - 0xdc00)))

/-- `TextEncoder.encode` -/
def encode : Text → List UInt8
  | [] => []
  | [u] =>
    if isHighSurrogate u || isLowSurrogate u then replacementBytes
    else String.utf8EncodeChar (Char.ofNat u.toNat)
  | u :: v :: text =>
    if isHighSurrogate u then
      if isLowSurrogate v then pairBytes u v ++ encode text
      else replacementBytes ++ encode (v :: text)
    else if isLowSurrogate u then replacementBytes ++ encode (v :: text)
    else String.utf8EncodeChar (Char.ofNat u.toNat) ++ encode (v :: text)

/-- The writes of one call. Behind the gates Ctrl-U goes ahead, and nothing follows it unless
that write is `accepted`. -/
def injectShellText (text : Text) (run : Bool) (clearLine armGates : Option Bool)
    (accepted : Bool) : List (List UInt8) :=
  let clean := trimNewlines (sanitizeShellPayload text)
  let body := withBracketedPaste clean ++ if run then [LF] else []
  let useGates := armGates.getD (clearLine != some false)
  if clean.isEmpty then []
  else if useGates then
    if accepted then [encode [CTRL_U], encode (CTRL_U :: body)] else [encode [CTRL_U]]
  else [encode body]

end Tethra.ShellInjection
