import Mathlib.Tactic

set_option autoImplicit false

/-!
# How a POSIX shell cuts a text into words

The lexical part of the shell: quotes, the backslash, blanks, operators and comments. Symbols
are known by their codes. What is expanded later is marked and left in its word.
-/
namespace Tethra.ShellWords

inductive Piece (α : Type) where
  | text (a : α)
  | expanding (a : α)
  deriving DecidableEq

inductive Token (α : Type) where
  | word (pieces : List (Piece α))
  | operator (a : α)
  | newline
  deriving DecidableEq

inductive Mode (α : Type) where
  | plain
  | escaped
  | single
  | double
  /-- With the backslash. -/
  | doubleEscaped (backslash : α)
  | comment

def isBlank (n : ℕ) : Bool := n == 0x20 || n == 0x09

/-- `|`, `&`, `;`, `<`, `>`, `(` and `)`. -/
def isOperator (n : ℕ) : Bool := [0x7c, 0x26, 0x3b, 0x3c, 0x3e, 0x28, 0x29].contains n

/-- The dollar and the backquote. -/
def isSubstitution (n : ℕ) : Bool := n == 0x24 || n == 0x60

/-- Patterns and the tilde, and the braces and the exclamation mark that some shells expand. -/
def isPattern (n : ℕ) : Bool := [0x2a, 0x3f, 0x5b, 0x7e, 0x7b, 0x7d, 0x21].contains n

section Scanning
variable {α : Type} (code : α → ℕ)

/-- The token that ends where the word does. -/
def close (word : Option (List (Piece α))) : List (Token α) := word.toList.map .word

def extend (word : Option (List (Piece α))) (pieces : List (Piece α)) : Option (List (Piece α)) :=
  some (word.getD [] ++ pieces)

/-- The tokens of a text; none for an open quote or a NUL. -/
def scan : Mode α → Option (List (Piece α)) → List α → Option (List (Token α))
  | .plain, word, [] => some (close word)
  | .comment, word, [] => some (close word)
  | _, _, [] => none
  | mode, word, a :: s =>
    if code a = 0 then none
    else match mode with
      | .plain =>
        if isBlank (code a) then (scan .plain none s).map (close word ++ ·)
        else if code a = 0x0a then (scan .plain none s).map (close word ++ [.newline] ++ ·)
        else if isOperator (code a) then (scan .plain none s).map (close word ++ [.operator a] ++ ·)
        else if code a = 0x27 then scan .single (extend word []) s
        else if code a = 0x22 then scan .double (extend word []) s
        else if code a = 0x5c then scan .escaped word s
        else if code a = 0x23 && word.isNone then scan .comment none s
        else if isSubstitution (code a) || isPattern (code a) then
          scan .plain (extend word [.expanding a]) s
        else scan .plain (extend word [.text a]) s
      | .escaped =>
        -- A backslash joins two lines.
        if code a = 0x0a then scan .plain word s else scan .plain (extend word [.text a]) s
      | .single =>
        if code a = 0x27 then scan .plain word s else scan .single (extend word [.text a]) s
      | .double =>
        if code a = 0x22 then scan .plain word s
        else if code a = 0x5c then scan (.doubleEscaped a) word s
        else if isSubstitution (code a) then scan .double (extend word [.expanding a]) s
        else scan .double (extend word [.text a]) s
      | .doubleEscaped backslash =>
        if isSubstitution (code a) || code a = 0x22 || code a = 0x5c then
          scan .double (extend word [.text a]) s
        else if code a = 0x0a then scan .double word s
        else scan .double (extend word [.text backslash, .text a]) s
      | .comment =>
        if code a = 0x0a then (scan .plain none s).map (.newline :: ·) else scan .comment word s

def tokens (s : List α) : Option (List (Token α)) := scan code .plain none s

/-- The shell reads the quoted text as one word that is `s`, and expands nothing in it. -/
def IsWord (quoted s : List α) : Prop := tokens code quoted = some [.word (s.map .text)]

/-- A symbol that stands for itself outside quotes. -/
def Literal (a : α) : Prop :=
  code a ≠ 0 ∧ isBlank (code a) = false ∧ code a ≠ 0x0a ∧ isOperator (code a) = false ∧
    code a ≠ 0x27 ∧ code a ≠ 0x22 ∧ code a ≠ 0x5c ∧ code a ≠ 0x23 ∧
    isSubstitution (code a) = false ∧ isPattern (code a) = false

variable {code}

/-- Literal symbols are gathered into the word. -/
theorem scan_literal {word : Option (List (Piece α))} {s rest : List α}
    (hs : ∀ a ∈ s, Literal code a) (hne : s ≠ []) :
    scan code .plain word (s ++ rest) = scan code .plain (extend word (s.map .text)) rest := by
  induction s generalizing word with
  | nil => exact absurd rfl hne
  | cons a s ih =>
    obtain ⟨hnul, hblank, hnewline, hoperator, hsingle, hdouble, hbackslash, hhash, hsubst, hpattern⟩ :=
      hs a List.mem_cons_self
    have hstep : scan code .plain word (a :: (s ++ rest)) =
        scan code .plain (extend word [.text a]) (s ++ rest) := by
      rw [scan]
      simp [hnul, hblank, hnewline, hoperator, hsingle, hdouble, hbackslash, hhash, hsubst, hpattern]
    rw [List.cons_append, hstep]
    by_cases hnil : s = []
    · rw [hnil]
      rfl
    · rw [ih (fun b hb => hs b (List.mem_cons_of_mem a hb)) hnil]
      congr 1
      simp [extend]

theorem isWord_literal {s : List α} (hs : ∀ a ∈ s, Literal code a) (hne : s ≠ []) :
    IsWord code s s := by
  have h := @scan_literal _ _ none s [] hs hne
  rw [List.append_nil] at h
  rw [IsWord, tokens, h]
  rfl

end Scanning

/-! ## Single quotes -/

section Quoting
variable {α : Type} {code : α → ℕ} {quote backslash : α}

/-- Each quote is written as a closing quote, an escaped one and an opening one. -/
def escapeQuotes (quote backslash : α) (isQuote : α → Bool) (s : List α) : List α :=
  s.flatMap fun a => if isQuote a then [quote, backslash, quote, quote] else [a]

theorem scan_escapeQuotes (hquote : code quote = 0x27) (hbackslash : code backslash = 0x5c)
    {isQuote : α → Bool} (hisQuote : ∀ a, isQuote a = true ↔ a = quote)
    (hinj : ∀ a, code a = 0x27 → a = quote) {s : List α} (hs : ∀ a ∈ s, code a ≠ 0)
    (word : List (Piece α)) (rest : List α) :
    scan code .single (some word) (escapeQuotes quote backslash isQuote s ++ rest) =
      scan code .single (some (word ++ s.map .text)) rest := by
  induction s generalizing word with
  | nil => rw [List.map_nil, List.append_nil]; rfl
  | cons a s ih =>
    have hrest := ih (fun b hb => hs b (List.mem_cons_of_mem a hb)) (word ++ [.text a])
    rw [List.append_assoc, List.singleton_append] at hrest
    rw [List.map_cons, ← hrest, escapeQuotes, List.flatMap_cons, List.append_assoc]
    by_cases ha : isQuote a = true
    · rw [if_pos ha, (hisQuote a).1 ha]
      simp [scan, hquote, hbackslash, isBlank, isOperator, extend, escapeQuotes]
    · have hne : code a ≠ 0x27 := fun h => ha ((hisQuote a).2 (hinj a h))
      rw [if_neg ha]
      simp [scan, hs a List.mem_cons_self, hne, extend, escapeQuotes]

/-- Between single quotes the escaped text is one word again. -/
theorem isWord_singleQuoted (hquote : code quote = 0x27) (hbackslash : code backslash = 0x5c)
    {isQuote : α → Bool} (hisQuote : ∀ a, isQuote a = true ↔ a = quote)
    (hinj : ∀ a, code a = 0x27 → a = quote) {s : List α} (hs : ∀ a ∈ s, code a ≠ 0) :
    IsWord code (quote :: (escapeQuotes quote backslash isQuote s ++ [quote])) s := by
  have hopen : ∀ rest, scan code .plain none (quote :: rest) = scan code .single (some []) rest := by
    intro rest
    simp [scan, hquote, isBlank, isOperator, extend]
  rw [IsWord, tokens, hopen, scan_escapeQuotes hquote hbackslash hisQuote hinj hs]
  simp [scan, hquote, close]

end Quoting
end Tethra.ShellWords
