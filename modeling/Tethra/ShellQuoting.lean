import Mathlib.Data.Bool.AllAny
import Tethra.ShellInjection
import Tethra.ShellWords

set_option autoImplicit false

/-!
# The four quoters and the shell

What the launcher, the environment file and the shell integration write for a text is one word
of the shell again, and that word is the text.
-/
namespace Tethra.ShellQuoting
open ShellInjection ShellWords TextPatterns

def QUOTE : UInt16 := unit '\''

def BACKSLASH : UInt16 := unit '\\'

/-- A quote, closed, escaped and opened again. -/
def ESCAPED_QUOTE : Text := [QUOTE, BACKSLASH, QUOTE, QUOTE]

/-- `shellSingleQuote` -/
def shellSingleQuote (value : Text) : Text :=
  [QUOTE] ++ Pattern.replaceAll (Pattern.sym (· == QUOTE)) ESCAPED_QUOTE value ++ [QUOTE]

/-- `[A-Za-z0-9_./:=+-]` -/
def isSafe (u : UInt16) : Bool :=
  between 0x41 0x5a u || between 0x61 0x7a u || ShellInjection.isDigit u ||
    isOneOf ['_', '.', '/', ':', '=', '+', '-'] u

def shellEscape (value : Text) : Text :=
  if value ≠ [] ∧ value.all isSafe then value else shellSingleQuote value

/-- `text.replace('\'', "'\\''")`, of the shell integration and of the environment file. -/
def shellSingleQuoteEscape (s : List Char) : List Char :=
  escapeQuotes '\'' '\\' (· == '\'') s

/-- What stands after the equals sign. -/
def envValue (value : List Char) : List Char := '\'' :: (shellSingleQuoteEscape value ++ ['\''])

def formatEnvLine (pair : List Char × List Char) : List Char :=
  "export ".toList ++ pair.1 ++ '=' :: (envValue pair.2 ++ ['\n'])

def formatEnvFile (pairs : List (List Char × List Char)) : List Char := pairs.flatMap formatEnvLine

theorem quote_code {u : UInt16} (h : u.toNat = 0x27) : u = QUOTE := by
  rw [← UInt16.toNat_inj, h]
  rfl

theorem isWord_shellSingleQuote {s : Text} (hs : ∀ u ∈ s, u.toNat ≠ 0) :
    IsWord UInt16.toNat (shellSingleQuote s) s := by
  have hreplace : Pattern.replaceAll (Pattern.sym (· == QUOTE)) ESCAPED_QUOTE s =
      escapeQuotes QUOTE BACKSLASH (· == QUOTE) s := Pattern.replaceAll_sym _ _ _
  rw [shellSingleQuote, hreplace]
  exact isWord_singleQuoted (show QUOTE.toNat = 0x27 from rfl) (show BACKSLASH.toNat = 0x5c from rfl)
    (fun u => beq_iff_eq) (fun u => quote_code) hs

theorem literal_of_safe {u : UInt16} (h : isSafe u = true) : Literal UInt16.toNat u := by
  have hascii : u.toNat < 128 := by
    simp only [isSafe, between, ShellInjection.isDigit, isOneOf, Bool.or_eq_true, Bool.and_eq_true,
      decide_eq_true_eq, UInt16.le_iff_toNat_le, UInt16.reduceToNat, List.contains_iff_mem] at h
    obtain ((h | h) | h) | h := h
    · omega
    · omega
    · omega
    · have hall : ∀ v ∈ ['_', '.', '/', ':', '=', '+', '-'].map unit, v.toNat < 128 :=
        List.all_iff_forall_prop.1 (by decide)
      exact hall u h
  have hall : ∀ n < 128, isSafe (UInt16.ofNat n) = true →
      Literal UInt16.toNat (UInt16.ofNat n) := by
    unfold Literal
    decide +kernel
  have hu := hall u.toNat hascii
  rw [UInt16.ofNat_toNat] at hu
  exact hu h

theorem isWord_shellEscape {s : Text} (hs : ∀ u ∈ s, u.toNat ≠ 0) :
    IsWord UInt16.toNat (shellEscape s) s := by
  unfold shellEscape
  split
  · rename_i hsafe
    exact isWord_literal (fun u hu => literal_of_safe (List.all_eq_true.1 hsafe.2 u hu)) hsafe.1
  · exact isWord_shellSingleQuote hs

theorem isWord_envValue {s : List Char} (hs : ∀ c ∈ s, c.toNat ≠ 0) :
    IsWord Char.toNat (envValue s) s :=
  isWord_singleQuoted (show '\''.toNat = 0x27 from rfl) (show '\\'.toNat = 0x5c from rfl)
    (fun _ => beq_iff_eq) (fun _ h => Char.toNat_inj.1 h) hs

/-- The line of a pair stands in the file, and nothing of its value outside its quotes. -/
theorem formatEnvFile_append (before after : List (List Char × List Char))
    (name value : List Char) : formatEnvFile (before ++ (name, value) :: after) =
      formatEnvFile before ++ "export ".toList ++ name ++ ['='] ++ envValue value ++ ['\n'] ++
        formatEnvFile after := by
  unfold formatEnvFile formatEnvLine
  simp only [List.flatMap_append, List.flatMap_cons, List.append_assoc, List.cons_append,
    List.nil_append]

/-- Every quoter gives the shell one word, the text it was given. -/
theorem quoters_round_trip (s : Text) (hs : ∀ u ∈ s, u.toNat ≠ 0) (r : List Char)
    (hr : ∀ c ∈ r, c.toNat ≠ 0) :
    IsWord UInt16.toNat (shellSingleQuote s) s ∧ IsWord UInt16.toNat (shellEscape s) s ∧
      (∀ before after name, ∃ written, formatEnvFile (before ++ (name, r) :: after) =
        formatEnvFile before ++ "export ".toList ++ name ++ ['='] ++ written ++ ['\n'] ++
          formatEnvFile after ∧ IsWord Char.toNat written r) ∧
      IsWord Char.toNat (['\''] ++ shellSingleQuoteEscape r ++ ['\'']) r := by
  refine ⟨isWord_shellSingleQuote hs, isWord_shellEscape hs, fun before after name => ?_,
    isWord_envValue hr⟩
  exact ⟨envValue r, formatEnvFile_append before after name r, isWord_envValue hr⟩

/-- `it's $HOME`, in both languages. -/
theorem quoters_round_trip_sample :
    IsWord UInt16.toNat (shellEscape ("it's $HOME".toList.map unit)) ("it's $HOME".toList.map unit) ∧
      IsWord Char.toNat (['\''] ++ shellSingleQuoteEscape "it's $HOME".toList ++ ['\''])
        "it's $HOME".toList := by
  obtain ⟨-, hts, -, hrust⟩ := quoters_round_trip ("it's $HOME".toList.map unit)
    (List.all_iff_forall_prop.1 (by decide)) "it's $HOME".toList
    (List.all_iff_forall_prop.1 (by decide))
  exact ⟨hts, hrust⟩

end Tethra.ShellQuoting
