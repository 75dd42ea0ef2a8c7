import Tethra.ShellInjection
import Tethra.Trimming

set_option autoImplicit false

/-! # String operations with the meaning JavaScript gives them -/
namespace Tethra.ScriptText
open ShellInjection (between)
open Trimming

/-- The code units of a string. -/
abbrev Text := ShellInjection.Text

def text (s : String) : Text := s.toList.map ShellInjection.unit

def isLineEnd (u : UInt16) : Bool := u == 0x0a || u == 0x0d || u == 0x2028 || u == 0x2029

/-- What `\s` matches and `trim` takes off. -/
def isSpace (u : UInt16) : Bool :=
  between 0x09 0x0d u || u == 0x20 || u == 0xa0 || u == 0x1680 || between 0x2000 0x200a u ||
    u == 0x2028 || u == 0x2029 || u == 0x202f || u == 0x205f || u == 0x3000 || u == 0xfeff

/-- What `\w` matches. -/
def isWord (u : UInt16) : Bool :=
  between 0x30 0x39 u || between 0x41 0x5a u || u == 0x5f || between 0x61 0x7a u

def trim (s : Text) : Text := trimmed isSpace s

def trimStart (s : Text) : Text := s.dropWhile isSpace

def startsWith (s head : Text) : Bool := head.isPrefixOf s

end Tethra.ScriptText
