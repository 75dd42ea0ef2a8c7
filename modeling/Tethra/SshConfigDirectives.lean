import Tethra.RustText
import Tethra.Trimming

set_option autoImplicit false

/-!
# The directives of an SSH configuration

A line is split into keyword and value. The aliases are the names of the `Host` lines, and what
goes to the parser of the hosts is the text without its `Match` blocks. What is read is compared
with the rules for the file: a keyword, blanks or one `=` between blanks, and arguments that may
be quoted and end at a comment.
-/
namespace Tethra.SshConfigDirectives
open RustText Trimming

abbrev Line := List Char

def isKeyword (name : String) (keyword : Line) : Bool :=
  eqIgnoreAsciiCase (String.ofList keyword) name

def isAsciiWhitespace (c : Char) : Bool :=
  c == ' ' || c == '\t' || c == '\n' || c == '\x0c' || c == '\r'

def splitAsciiWhitespace (value : Line) : List Line :=
  (value.splitOnP isAsciiWhitespace).filter fun word => !word.isEmpty

/-- The text that is split: the line up to the first `#`. -/
def withoutComment (line : Line) : Line := trimmed isWhitespace (line.takeWhile (· ≠ '#'))

/-- White space if there is any, or else `=`. -/
def splits (w : Line) : Char → Bool := if w.any isWhitespace then isWhitespace else (· == '=')

/-- Split at the first white space, or else at the first `=`. -/
def splitDirective (line : Line) : Option (Line × Line) :=
  if line = [] ∨ line.head? = some '#' then none
  else
    let w := withoutComment line
    if !w.any (splits w) then none
    else
      let keyword := w.takeWhile fun c => !splits w c
      let rest := w.dropWhile fun c => !splits w c
      let value := trimmed isWhitespace (rest.dropWhile fun c => isWhitespace c || c == '=')
      if keyword ≠ [] ∧ value ≠ [] then some (keyword, value) else none

def textLines (contents : String) : List Line := (lines contents).map String.toList

/-- An alias that is left out. -/
def isSkipped (name : Line) : Bool :=
  name.isEmpty || name.head? == some '!' || name.any fun c => c == '*' || c == '?' || c == '['

/-- The aliases are `seen` too. -/
def addAlias (aliases : List Line) (name : Line) : List Line :=
  if isSkipped name ∨ name ∈ aliases then aliases else aliases ++ [name]

def addAliases (aliases : List Line) (line : Line) : List Line :=
  match splitDirective (trimmed isWhitespace line) with
  | none => aliases
  | some (keyword, value) =>
    if isKeyword "host" keyword then (splitAsciiWhitespace value).foldl addAlias aliases
    else aliases

def concreteAliases (contents : String) : List Line := (textLines contents).foldl addAliases []

structure Sanitized where
  output : List Char
  warnings : List String
  inMatch : Bool

def matchWarning : String :=
  "Match blocks are skipped because conditional rules cannot be imported safely."

def includeWarning : String :=
  "Include directives are not expanded; only hosts in the selected file are shown."

/-- The warning, unless one with the word is there. -/
def warn (word warning : String) (warnings : List String) : List String :=
  if warnings.any (containsText · word) then warnings else warnings ++ [warning]

/-- What is written for a line that is kept. -/
def outputLine (line : Line) : List Char :=
  match splitDirective (trimmed isWhitespace line) with
  | some (keyword, value) => keyword ++ ' ' :: value ++ ['\n']
  | none => line ++ ['\n']

def keepLine (line : Line) (x : Sanitized) : Sanitized :=
  if !x.inMatch then { x with output := x.output ++ outputLine line } else x

def sanitizeLine (x : Sanitized) (line : Line) : Sanitized :=
  match splitDirective (trimmed isWhitespace line) with
  | none => keepLine line x
  | some (keyword, _) =>
    if isKeyword "match" keyword then
      { x with inMatch := true, warnings := warn "Match" matchWarning x.warnings }
    else
      let x := if isKeyword "host" keyword then { x with inMatch := false } else x
      let x := if isKeyword "include" keyword then
          { x with warnings := warn "Include" includeWarning x.warnings }
        else x
      keepLine line x

def sanitize (contents : String) : List Char × List String :=
  let x := (textLines contents).foldl sanitizeLine ⟨[], [], false⟩
  (x.output, x.warnings)

/-! ## The rules -/

structure Directive where
  keyword : Line
  separator : Line
  value : Line
  deriving DecidableEq

/-- The arguments end at a `#` that starts a word outside quotes. -/
def uncommented (quoted start : Bool) : Line → Line
  | [] => []
  | c :: s =>
    if c = '#' ∧ start ∧ !quoted then []
    else c :: uncommented (quoted ^^ (c == '"')) (isWhitespace c && !quoted) s

/-- Blanks, or one `=` between blanks, and what follows. -/
def separated (s : Line) : Line × Line :=
  let blanks := s.takeWhile isWhitespace
  match s.dropWhile isWhitespace with
  | '=' :: rest => (blanks ++ '=' :: rest.takeWhile isWhitespace, rest.dropWhile isWhitespace)
  | rest => (blanks, rest)

def inKeyword (c : Char) : Bool := !isWhitespace c && c ≠ '='

/-- A keyword and its arguments; nothing on a blank line, in a comment or if either is missing. -/
def directive (line : Line) : Option Directive :=
  let s := trimmed isWhitespace line
  let keyword := s.takeWhile inKeyword
  let (separator, rest) := separated (s.dropWhile inKeyword)
  let value := (uncommented false true rest).rdropWhile isWhitespace
  if s.head? = some '#' ∨ keyword = [] ∨ value = [] then none
  else some ⟨keyword, separator, value⟩

/-- The words of the arguments, without their quotes. -/
def wordsFrom (quoted : Bool) (word : Option Line) : Line → List Line
  | [] => word.toList
  | c :: s =>
    if c = '"' then wordsFrom (!quoted) (some (word.getD [])) s
    else if isWhitespace c && !quoted then word.toList ++ wordsFrom false none s
    else wordsFrom quoted (some (word.getD [] ++ [c])) s

def words (value : Line) : List Line := wordsFrom false none value

/-- A name that is no pattern and not negated. -/
def IsConcrete (name : Line) : Prop := name.head? ≠ some '!' ∧ '*' ∉ name ∧ '?' ∉ name

/-- The lines that are in no `Match` block. -/
def outsideMatch (inMatch : Bool) : List Line → List Line
  | [] => []
  | line :: rest =>
    match directive line with
    | none => if inMatch then outsideMatch inMatch rest else line :: outsideMatch inMatch rest
    | some d =>
      if isKeyword "match" d.keyword then outsideMatch true rest
      else
        let inMatch := inMatch && !isKeyword "host" d.keyword
        if inMatch then outsideMatch inMatch rest else line :: outsideMatch inMatch rest

/-- The text is read by the rules. -/
structure ReadsRight (contents : String) : Prop where
  directives : ∀ line ∈ textLines contents, ∀ d, directive line = some d →
    splitDirective (trimmed isWhitespace line) = some (d.keyword, d.value) ∧
      (isKeyword "host" d.keyword = true → splitAsciiWhitespace d.value = words d.value)
  aliases : ∀ a, a ∈ concreteAliases contents ↔ ∃ line ∈ textLines contents, ∃ d,
    directive line = some d ∧ isKeyword "host" d.keyword = true ∧ a ∈ words d.value ∧ IsConcrete a
  nodup : (concreteAliases contents).Nodup
  outside : (sanitize contents).1 = (outsideMatch false (textLines contents)).flatMap outputLine

/-- What is read by the rules on a line that is read right. -/
structure Directive.Plain (d : Directive) : Prop where
  keyword : '#' ∉ d.keyword
  value : '#' ∉ d.value
  equals : d.value.head? ≠ some '='
  /-- After a keyword with an `=` right behind it there are no blanks. -/
  separator : d.separator.head? = some '=' → ∀ c ∈ d.separator ++ d.value, isWhitespace c = false
  host : isKeyword "host" d.keyword = true →
    '"' ∉ d.value ∧ (∀ c ∈ d.value, isWhitespace c = true → isAsciiWhitespace c = true) ∧
      ∀ name ∈ words d.value, IsConcrete name → '[' ∉ name

section Lists
variable {p : Char → Bool} {a b : Line}

theorem takeWhile_append_stop (ha : ∀ c ∈ a, p c = true)
    (hb : ∀ c, b.head? = some c → p c = false) : (a ++ b).takeWhile p = a := by
  rw [List.takeWhile_append_of_pos ha]
  cases b with
  | nil => rw [List.takeWhile_nil, List.append_nil]
  | cons c b => rw [List.takeWhile_cons, hb c rfl, if_neg Bool.false_ne_true, List.append_nil]

theorem dropWhile_append_stop (ha : ∀ c ∈ a, p c = true)
    (hb : ∀ c, b.head? = some c → p c = false) : (a ++ b).dropWhile p = b := by
  rw [List.dropWhile_append_of_pos ha, dropWhile_eq_self]
  exact hb

end Lists

theorem isWhitespace_hash : isWhitespace '#' = false := by decide

theorem isWhitespace_equals : isWhitespace '=' = false := by decide

/-! ## What the rules read -/

theorem uncommented_append (quoted start : Bool) (s : Line) : ∃ tail,
    s = uncommented quoted start s ++ tail ∧ (tail = [] ∨ tail.head? = some '#') := by
  induction s generalizing quoted start with
  | nil => exact ⟨[], rfl, Or.inl rfl⟩
  | cons c s ih =>
    rw [uncommented]
    split
    · rename_i h
      refine ⟨c :: s, rfl, Or.inr ?_⟩
      rw [h.1]
      rfl
    · obtain ⟨tail, hs, htail⟩ := ih (quoted ^^ (c == '"')) (isWhitespace c && !quoted)
      exact ⟨tail, by rw [List.cons_append, ← hs], htail⟩

/-- A separator, up to something that is no blank. -/
theorem separated_spec (s : Line) : (separated s).1 ++ (separated s).2 = s ∧
    (∀ c ∈ (separated s).1, isWhitespace c = true ∨ c = '=') ∧
    (∀ c, (separated s).2.head? = some c → isWhitespace c = false) ∧
    ∀ c, s.head? = some c → (isWhitespace c = true ∨ c = '=') →
      (separated s).1.head? = some c := by
  have hall := List.takeWhile_append_dropWhile (p := isWhitespace) (l := s)
  have hblank : ∀ c ∈ s.takeWhile isWhitespace, isWhitespace c = true :=
    fun c hc => List.mem_takeWhile_imp hc
  have hstop : ∀ c, (s.dropWhile isWhitespace).head? = some c → isWhitespace c = false := by
    intro c hc
    have hnot := List.head?_dropWhile_not isWhitespace s
    rw [hc] at hnot
    simpa using hnot
  have hfirst : ∀ c, s.head? = some c → isWhitespace c = true →
      (s.takeWhile isWhitespace).head? = some c := by
    intro c hc hspace
    cases s with
    | nil => cases hc
    | cons d s =>
      cases hc
      rw [List.takeWhile_cons, if_pos hspace]
      rfl
  unfold separated
  dsimp only
  split
  · rename_i rest hrest
    have hafter := List.takeWhile_append_dropWhile (p := isWhitespace) (l := rest)
    refine ⟨?_, fun c hc => ?_, fun c hc => ?_, fun c hc hsep => ?_⟩
    · rw [List.append_assoc, List.cons_append, hafter, ← hrest, hall]
    · obtain hc | hc := List.mem_append.1 hc
      · exact Or.inl (hblank c hc)
      · obtain rfl | hc := List.mem_cons.1 hc
        · exact Or.inr rfl
        · exact Or.inl (List.mem_takeWhile_imp hc)
    · have hnot := List.head?_dropWhile_not isWhitespace rest
      rw [hc] at hnot
      simpa using hnot
    · obtain hspace | rfl := hsep
      · rw [List.head?_append, hfirst c hc hspace]
        rfl
      · have hnil : s.takeWhile isWhitespace = [] := by
          cases s with
          | nil => rfl
          | cons d s =>
            cases hc
            rw [List.takeWhile_cons, isWhitespace_equals, if_neg Bool.false_ne_true]
        rw [hnil]
        rfl
  · rename_i hne
    refine ⟨hall, fun c hc => Or.inl (hblank c hc), hstop, fun c hc hsep => ?_⟩
    obtain hspace | rfl := hsep
    · exact hfirst c hc hspace
    · cases s with
      | nil => cases hc
      | cons d s =>
        cases hc
        refine absurd ?_ (hne s)
        exact List.dropWhile_cons_of_neg (by rw [isWhitespace_equals]; exact Bool.false_ne_true)

/-- How the parts of a directive lie in its line. -/
structure Directive.Parts (d : Directive) (s : Line) : Prop where
  split : ∃ blanks rest, s = d.keyword ++ (d.separator ++ (d.value ++ (blanks ++ rest))) ∧
    (∀ c ∈ blanks, isWhitespace c = true) ∧ (rest = [] ∨ rest.head? = some '#')
  start : s.head? ≠ some '#'
  keyword_ne : d.keyword ≠ []
  keyword : ∀ c ∈ d.keyword, inKeyword c = true
  separator : ∀ c ∈ d.separator, isWhitespace c = true ∨ c = '='
  separator_head : ∃ c, d.separator.head? = some c
  value_ne : d.value ≠ []
  value : Bare isWhitespace d.value

theorem inKeyword_eq_false {c : Char} : inKeyword c = false ↔ isWhitespace c = true ∨ c = '=' := by
  unfold inKeyword
  cases isWhitespace c <;> simp

theorem directive_parts {line : Line} {d : Directive} (h : directive line = some d) :
    d.Parts (trimmed isWhitespace line) := by
  unfold directive at h
  dsimp only at h
  generalize trimmed isWhitespace line = s at h ⊢
  obtain ⟨hsplit, hsep, hrest, hhead⟩ := separated_spec (s.dropWhile inKeyword)
  have hall := List.takeWhile_append_dropWhile (p := inKeyword) (l := s)
  generalize hseparated : separated (s.dropWhile inKeyword) = separated at h hsplit hsep hrest hhead
  obtain ⟨separator, rest⟩ := separated
  dsimp only at h hsplit hsep hrest hhead
  split at h
  · cases h
  rename_i hnot
  rw [not_or, not_or] at hnot
  obtain ⟨hstart, hkeyword, hvalue⟩ := hnot
  cases h
  obtain ⟨tail, htail, hcomment⟩ := uncommented_append false true rest
  have hback := List.rdropWhile_append_rtakeWhile (p := isWhitespace) (l := uncommented false true rest)
  refine ⟨⟨(uncommented false true rest).rtakeWhile isWhitespace, tail, ?_, fun c hc =>
    List.mem_rtakeWhile_imp hc, hcomment⟩, hstart, hkeyword, fun c hc => List.mem_takeWhile_imp hc,
    hsep, ?_, hvalue, ?_⟩
  · rw [← List.append_assoc (List.rdropWhile _ _), hback, ← htail, hsplit, hall]
  · have hne : s.dropWhile inKeyword ≠ [] := by
      intro hnil
      rw [hnil] at hsplit
      rw [(List.append_eq_nil_iff.1 hsplit).2] at hvalue
      exact hvalue rfl
    obtain ⟨c, rest', hcons⟩ := List.exists_cons_of_ne_nil hne
    have hc : (s.dropWhile inKeyword).head? = some c := by rw [hcons]; rfl
    have hstop := List.head?_dropWhile_not inKeyword s
    rw [hc] at hstop
    have hstop : inKeyword c = false := by simpa using hstop
    exact ⟨c, hhead c hc (inKeyword_eq_false.1 hstop)⟩
  · refine ⟨fun c hc => hrest c ?_, rdropWhile_eq_self.1 (List.rdropWhile_idempotent _ _)⟩
    rw [htail, ← hback, List.append_assoc, List.head?_append, hc]
    rfl

/-- Blanks, or one `=` between blanks. -/
def Separates (separator : Line) : Prop :=
  ∃ before after, (∀ c ∈ before ++ after, isWhitespace c = true) ∧
    (separator = before ++ '=' :: after ∨ separator = before ∧ before ≠ [] ∧ after = [])

theorem separated_append {separator value : Line} (h : Separates separator)
    (hvalue : ∀ c, value.head? = some c → isWhitespace c = false ∧ c ≠ '=') :
    separated (separator ++ value) = (separator, value) := by
  have hstop : ∀ c, value.head? = some c → isWhitespace c = false := fun c hc => (hvalue c hc).1
  obtain ⟨before, after, hspace, rfl | ⟨rfl, -, rfl⟩⟩ := h
  · have hbefore : ∀ c ∈ before, isWhitespace c = true :=
      fun c hc => hspace c (List.mem_append_left _ hc)
    have hafter : ∀ c ∈ after, isWhitespace c = true :=
      fun c hc => hspace c (List.mem_append_right _ hc)
    have hequals : ∀ c, ('=' :: (after ++ value)).head? = some c → isWhitespace c = false := by
      rintro c hc
      cases hc
      decide
    rw [List.append_assoc, List.cons_append, separated, takeWhile_append_stop hbefore hequals,
      dropWhile_append_stop hbefore hequals]
    change (before ++ '=' :: (after ++ value).takeWhile isWhitespace,
      (after ++ value).dropWhile isWhitespace) = _
    rw [takeWhile_append_stop hafter hstop, dropWhile_append_stop hafter hstop]
  · have hbefore : ∀ c ∈ separator, isWhitespace c = true :=
      fun c hc => hspace c (List.mem_append_left _ hc)
    rw [separated, takeWhile_append_stop hbefore hstop, dropWhile_append_stop hbefore hstop]
    split
    · rename_i rest
      exact absurd rfl (hvalue '=' rfl).2
    · rfl

theorem uncommented_of_notMem {s : Line} (h : '#' ∉ s) (quoted start : Bool) :
    uncommented quoted start s = s := by
  induction s generalizing quoted start with
  | nil => rfl
  | cons c s ih =>
    rw [List.mem_cons, not_or] at h
    rw [uncommented, if_neg fun hall => h.1 hall.1.symm, ih h.2]

/-- However keyword and value are separated, they are read alike. -/
theorem directive_spelled {indent keyword separator value trailing : Line}
    (hindent : ∀ c ∈ indent, isWhitespace c = true)
    (htrailing : ∀ c ∈ trailing, isWhitespace c = true)
    (hkeyword : keyword ≠ [] ∧ '#' ∉ keyword ∧ ∀ c ∈ keyword, inKeyword c = true)
    (hseparator : Separates separator)
    (hvalue : value ≠ [] ∧ '#' ∉ value ∧ value.head? ≠ some '=' ∧ Bare isWhitespace value) :
    directive (indent ++ (keyword ++ (separator ++ value)) ++ trailing) =
      some ⟨keyword, separator, value⟩ := by
  obtain ⟨hne, hhash, hin⟩ := hkeyword
  obtain ⟨hvalue, hnohash, hequals, hbare⟩ := hvalue
  have hall : Bare isWhitespace (keyword ++ (separator ++ value)) := by
    refine ⟨fun c hc => ?_, fun c hc => ?_⟩
    · rw [List.head?_append_of_ne_nil _ hne] at hc
      have hc := hin c (List.mem_of_mem_head? hc)
      rw [inKeyword, Bool.and_eq_true, Bool.not_eq_true'] at hc
      exact hc.1
    · rw [← List.append_assoc, List.getLast?_append_of_ne_nil _ hvalue] at hc
      exact hbare.2 c hc
  have hstop : ∀ c, (separator ++ value).head? = some c → inKeyword c = false := by
    intro c hc
    rw [inKeyword_eq_false]
    obtain ⟨before, after, hspace, rfl | ⟨rfl, hbefore, rfl⟩⟩ := hseparator
    · cases before with
      | nil =>
        cases hc
        exact Or.inr rfl
      | cons b before =>
        cases hc
        exact Or.inl (hspace c List.mem_cons_self)
    · rw [List.head?_append_of_ne_nil _ hbefore] at hc
      exact Or.inl (hspace c (List.mem_append_left _ (List.mem_of_mem_head? hc)))
  have hhead : ∀ c, value.head? = some c → isWhitespace c = false ∧ c ≠ '=' := by
    intro c hc
    refine ⟨hbare.1 c hc, ?_⟩
    rintro rfl
    exact hequals hc
  have hstart : ¬((keyword ++ (separator ++ value)).head? = some '#' ∨ keyword = [] ∨ value = []) := by
    rw [List.head?_append_of_ne_nil _ hne, not_or, not_or]
    exact ⟨fun hc => hhash (List.mem_of_mem_head? hc), hne, hvalue⟩
  unfold directive
  rw [trimmed_append hindent htrailing hall]
  dsimp only
  rw [takeWhile_append_stop hin hstop, dropWhile_append_stop hin hstop,
    separated_append hseparator hhead]
  dsimp only
  rw [uncommented_of_notMem hnohash, rdropWhile_eq_self.2 hbare.2, if_neg hstart]

/-! ## What the code splits -/

theorem splitDirective_eq {s : Line} (h : s ≠ []) (hstart : s.head? ≠ some '#') :
    splitDirective s =
      let w := withoutComment s
      let value := trimmed isWhitespace
        ((w.dropWhile fun c => !splits w c).dropWhile fun c => isWhitespace c || c == '=')
      if w.any (splits w) = true ∧ (w.takeWhile fun c => !splits w c) ≠ [] ∧ value ≠ [] then
        some (w.takeWhile fun c => !splits w c, value)
      else none := by
  rw [splitDirective, if_neg (not_or.2 ⟨h, hstart⟩)]
  dsimp only
  cases hany : (withoutComment s).any (splits (withoutComment s)) with
  | false =>
    rw [Bool.not_false, if_pos rfl]
    exact (if_neg fun hall => Bool.false_ne_true hall.1).symm
  | true =>
    rw [Bool.not_true, if_neg Bool.false_ne_true]
    simp only [true_and]

theorem splits_eq_true {w : Line} {c : Char} (h : splits w c = true) :
    isWhitespace c = true ∨ c = '=' := by
  unfold splits at h
  split at h
  · exact Or.inl h
  · exact Or.inr (by simpa using h)

theorem mem_of_mem_trimmed {p : Char → Bool} {l : Line} {c : Char} (h : c ∈ trimmed p l) :
    c ∈ l := by
  have hall := lead_trimmed_trail p l
  rw [← hall]
  exact List.mem_append_left _ (List.mem_append_right _ h)

theorem mem_withoutComment {s : Line} {c : Char} (h : c ∈ withoutComment s) : c ≠ '#' := by
  have hc := List.mem_takeWhile_imp (mem_of_mem_trimmed h)
  simpa using hc

/-- Neither part has a comment in it, and the value begins with neither blank nor `=`. -/
theorem splitDirective_some {s k v : Line} (hs : s ≠ []) (hstart : s.head? ≠ some '#')
    (h : splitDirective s = some (k, v)) :
    k = (withoutComment s).takeWhile (fun c => !splits (withoutComment s) c) ∧
      '#' ∉ k ∧ '#' ∉ v ∧ v.head? ≠ some '=' := by
  rw [splitDirective_eq hs hstart] at h
  dsimp only at h
  split at h
  · cases h
    refine ⟨rfl, fun hmem => ?_, fun hmem => ?_, fun hhead => ?_⟩
    · exact mem_withoutComment ((List.takeWhile_prefix _).subset hmem) rfl
    · have hmem := mem_of_mem_trimmed hmem
      have hmem := (List.dropWhile_suffix _).subset ((List.dropWhile_suffix _).subset hmem)
      exact mem_withoutComment hmem rfl
    · generalize hx : (List.dropWhile (fun c => isWhitespace c || c == '=')
        ((withoutComment s).dropWhile fun c => !splits (withoutComment s) c)) = x at hhead
      have hnot : ∀ c, x.head? = some c → isWhitespace c = false ∧ c ≠ '=' := by
        intro c hc
        have hnot := List.head?_dropWhile_not (fun c => isWhitespace c || c == '=')
          ((withoutComment s).dropWhile fun c => !splits (withoutComment s) c)
        rw [hx, hc] at hnot
        simpa using hnot
      have hdrop : x.dropWhile isWhitespace = x := dropWhile_eq_self.2 fun c hc => (hnot c hc).1
      rw [trimmed, hdrop] at hhead
      obtain ⟨rest, hrest⟩ := List.rdropWhile_prefix isWhitespace x
      refine (hnot '=' ?_).2 rfl
      rw [← hrest, List.head?_append, hhead]
      rfl
  · cases h

section Directives
variable {d : Directive} {s : Line}

theorem separator_no_hash (h : d.Parts s) : ∀ c ∈ d.separator, c ≠ '#' := by
  rintro c hc rfl
  obtain hspace | heq := h.separator _ hc
  · rw [isWhitespace_hash] at hspace
    cases hspace
  · cases heq

theorem keyword_plain (h : d.Parts s) {c : Char} (hc : c ∈ d.keyword) :
    isWhitespace c = false ∧ c ≠ '=' := by
  have hin := h.keyword c hc
  unfold inKeyword at hin
  simpa using hin

theorem withoutComment_parts (h : d.Parts s) (hkeyword : '#' ∉ d.keyword) (hvalue : '#' ∉ d.value) :
    withoutComment s = d.keyword ++ (d.separator ++ d.value) := by
  obtain ⟨blanks, rest, hs, hblanks, hrest⟩ := h.split
  have htake : s.takeWhile (· ≠ '#') = d.keyword ++ (d.separator ++ d.value) ++ blanks := by
    have hassoc : s = d.keyword ++ (d.separator ++ d.value) ++ blanks ++ rest := by
      simp only [hs, List.append_assoc]
    rw [hassoc]
    refine takeWhile_append_stop (fun c hc => decide_eq_true ?_) fun c hc => ?_
    · rintro rfl
      obtain hc | hc := List.mem_append.1 hc
      · obtain hc | hc := List.mem_append.1 hc
        · exact hkeyword hc
        · obtain hc | hc := List.mem_append.1 hc
          · exact separator_no_hash h _ hc rfl
          · exact hvalue hc
      · have hspace := hblanks _ hc
        rw [isWhitespace_hash] at hspace
        cases hspace
    · obtain rfl | hhash := hrest
      · cases hc
      · rw [hhash] at hc
        cases hc
        rfl
  have hbare : Bare isWhitespace (d.keyword ++ (d.separator ++ d.value)) := by
    refine ⟨fun c hc => ?_, fun c hc => ?_⟩
    · rw [List.head?_append_of_ne_nil _ h.keyword_ne] at hc
      exact (keyword_plain h (List.mem_of_mem_head? hc)).1
    · rw [← List.append_assoc, List.getLast?_append_of_ne_nil _ h.value_ne] at hc
      exact h.value.2 c hc
  have htrim := trimmed_append (a := []) (fun _ h => by cases h) hblanks hbare
  rw [withoutComment, htake]
  exact htrim

/-- A directive is split by the code as by the rules exactly if it has no `#` and no second `=`,
and no blank if it has an `=` right behind the keyword. -/
theorem splitDirective_parts_iff (h : d.Parts s) :
    splitDirective s = some (d.keyword, d.value) ↔
      '#' ∉ d.keyword ∧ '#' ∉ d.value ∧ d.value.head? ≠ some '=' ∧
        (d.separator.head? = some '=' → ∀ c ∈ d.separator ++ d.value, isWhitespace c = false) := by
  have hs : s ≠ [] := by
    obtain ⟨blanks, rest, hs, -⟩ := h.split
    rw [hs]
    exact fun hnil => h.keyword_ne (List.append_eq_nil_iff.1 hnil).1
  obtain ⟨first, hfirst⟩ := h.separator_head
  have hseparator := h.separator first (List.mem_of_mem_head? hfirst)
  constructor
  · intro heq
    obtain ⟨hkeyword, hk, hv, hequals⟩ := splitDirective_some hs h.start heq
    refine ⟨hk, hv, hequals, fun hhead c hc => ?_⟩
    rw [hhead] at hfirst
    cases hfirst
    have hw := withoutComment_parts h hk hv
    rw [hw] at hkeyword
    rw [← Bool.not_eq_true]
    intro hspace
    -- with a blank in it the text is cut there, behind the `=`
    have hany : (d.keyword ++ (d.separator ++ d.value)).any isWhitespace = true :=
      List.any_eq_true.2 ⟨c, List.mem_append_right _ hc, hspace⟩
    have hsplits : splits (d.keyword ++ (d.separator ++ d.value)) = isWhitespace := if_pos hany
    obtain ⟨separator, hcons⟩ : ∃ separator, d.separator = '=' :: separator := by
      obtain ⟨x, l, hxl⟩ := List.exists_cons_of_ne_nil
        (show d.separator ≠ [] by intro hnil; rw [hnil] at hhead; cases hhead)
      rw [hxl] at hhead
      cases hhead
      exact ⟨l, hxl⟩
    rw [hsplits, List.takeWhile_append_of_pos, hcons, List.cons_append, List.takeWhile_cons,
      isWhitespace_equals] at hkeyword
    · have hlength := congrArg List.length hkeyword
      rw [List.length_append] at hlength
      simp at hlength
    · intro x hx
      rw [(keyword_plain h hx).1]
      rfl
  · rintro ⟨hk, hv, hequals, hblank⟩
    have hw := withoutComment_parts h hk hv
    have hmem : first ∈ d.keyword ++ (d.separator ++ d.value) :=
      List.mem_append_right _ (List.mem_append_left _ (List.mem_of_mem_head? hfirst))
    have hsplits : splits (d.keyword ++ (d.separator ++ d.value)) first = true := by
      unfold splits
      split
      · rename_i hany
        obtain hspace | rfl := hseparator
        · exact hspace
        · obtain ⟨c, hc, hspace⟩ := List.any_eq_true.1 hany
          obtain hc | hc := List.mem_append.1 hc
          · rw [(keyword_plain h hc).1] at hspace
            cases hspace
          · rw [hblank hfirst c hc] at hspace
            cases hspace
      · rename_i hany
        obtain hspace | rfl := hseparator
        · exact absurd (List.any_eq_true.2 ⟨first, hmem, hspace⟩) hany
        · rfl
    have hinside : ∀ c ∈ d.keyword,
        (!splits (d.keyword ++ (d.separator ++ d.value)) c) = true := by
      intro c hc
      rw [Bool.not_eq_true']
      rw [← Bool.not_eq_true]
      intro htrue
      obtain hspace | rfl := splits_eq_true htrue
      · rw [(keyword_plain h hc).1] at hspace
        cases hspace
      · exact (keyword_plain h hc).2 rfl
    have hstop : ∀ c, (d.separator ++ d.value).head? = some c →
        (!splits (d.keyword ++ (d.separator ++ d.value)) c) = false := by
      intro c hc
      rw [List.head?_append, hfirst] at hc
      cases hc
      rw [hsplits]
      rfl
    have hvalue : (d.separator ++ d.value).dropWhile (fun c => isWhitespace c || c == '=') =
        d.value := by
      refine dropWhile_append_stop (fun c hc => ?_) fun c hc => ?_
      · obtain hspace | rfl := h.separator c hc
        · rw [hspace]
          rfl
        · rfl
      · rw [h.value.1 c hc, Bool.false_or, beq_eq_false_iff_ne]
        rintro rfl
        exact hequals hc
    rw [splitDirective_eq hs h.start, hw]
    dsimp only
    rw [takeWhile_append_stop hinside hstop, dropWhile_append_stop hinside hstop, hvalue,
      trimmed_of_bare h.value,
      if_pos ⟨List.any_eq_true.2 ⟨first, hmem, hsplits⟩, h.keyword_ne, h.value_ne⟩]

end Directives

/-- What has white space and `=` behind its keyword only is split into nothing. -/
theorem splitDirective_of_rest_blank {s a b : Line} (hs : s ≠ []) (hstart : s.head? ≠ some '#')
    (hw : withoutComment s = a ++ b) (ha : ∀ c ∈ a, isWhitespace c = false ∧ c ≠ '=')
    (hb : ∀ c ∈ b, isWhitespace c = true ∨ c = '=') : splitDirective s = none := by
  rw [splitDirective_eq hs hstart]
  dsimp only
  rw [if_neg]
  rintro ⟨-, -, hvalue⟩
  apply hvalue
  have hinside : ∀ c ∈ a, (!splits (withoutComment s) c) = true := by
    intro c hc
    rw [Bool.not_eq_true', ← Bool.not_eq_true]
    intro htrue
    obtain hspace | heq := splits_eq_true htrue
    · rw [(ha c hc).1] at hspace
      cases hspace
    · exact (ha c hc).2 heq
  have hnil : ((withoutComment s).dropWhile fun c => !splits (withoutComment s) c).dropWhile
      (fun c => isWhitespace c || c == '=') = [] := by
    rw [List.dropWhile_eq_nil_iff]
    intro c hc
    have hdrop : ∀ stops : Char → Bool, (∀ c ∈ a, stops c = true) →
        (withoutComment s).dropWhile stops = b.dropWhile stops := by
      intro stops hstops
      rw [hw]
      exact List.dropWhile_append_of_pos hstops
    rw [hdrop _ hinside] at hc
    obtain hspace | rfl := hb c ((List.dropWhile_suffix _).subset hc)
    · rw [hspace]
      rfl
    · rfl
  rw [hnil]
  rfl

/-- A line that begins with `=` is split into nothing, or into something that does. -/
theorem splitDirective_equals {s k v : Line} (h : splitDirective ('=' :: s) = some (k, v)) :
    k.head? = some '=' := by
  have hstart : ('=' :: s).head? ≠ some '#' := fun h => by cases h
  obtain ⟨hk, -⟩ := splitDirective_some (List.cons_ne_nil _ _) hstart h
  obtain ⟨w, hw⟩ : ∃ w, withoutComment ('=' :: s) = '=' :: w := by
    rw [withoutComment, List.takeWhile_cons_of_pos (by decide), trimmed,
      List.dropWhile_cons_of_neg (by decide)]
    obtain ⟨rest, hrest⟩ := List.rdropWhile_prefix isWhitespace ('=' :: s.takeWhile (· ≠ '#'))
    cases hr : ('=' :: s.takeWhile (· ≠ '#')).rdropWhile isWhitespace with
    | nil =>
      rw [List.rdropWhile_eq_nil_iff] at hr
      exact absurd (hr '=' List.mem_cons_self) (by decide)
    | cons x xs =>
      rw [hr, List.cons_append, List.cons.injEq] at hrest
      rw [hrest.1]
      exact ⟨xs, rfl⟩
  rw [hw, List.takeWhile_cons] at hk
  split at hk
  · rw [hk]
    rfl
  · rename_i hstop
    rw [splitDirective_eq (List.cons_ne_nil _ _) hstart] at h
    dsimp only at h
    rw [hw, List.takeWhile_cons, if_neg hstop, if_neg fun hall => hall.2.1 rfl] at h
    cases h

/-- A line without a value is split into nothing. -/
theorem splitDirective_no_value {s : Line} (hbare : Bare isWhitespace s) (hs : s ≠ [])
    (hstart : s.head? ≠ some '#')
    (hvalue : (uncommented false true (separated (s.dropWhile inKeyword)).2).rdropWhile
      isWhitespace = []) : splitDirective s = none := by
  obtain ⟨hseparated, hsep, hrest, -⟩ := separated_spec (s.dropWhile inKeyword)
  generalize hseparator : (separated (s.dropWhile inKeyword)).1 = separator at hseparated hsep
  generalize (separated (s.dropWhile inKeyword)).2 = rest at hvalue hseparated hrest
  have hall := List.takeWhile_append_dropWhile (p := inKeyword) (l := s)
  obtain ⟨tail, htail, hcomment⟩ := uncommented_append false true rest
  have huncommented : uncommented false true rest = [] := by
    cases hu : uncommented false true rest with
    | nil => rfl
    | cons c u =>
      rw [hu, List.rdropWhile_eq_nil_iff] at hvalue
      have hspace := hvalue c List.mem_cons_self
      rw [hu] at htail
      rw [hrest c (by rw [htail]; rfl)] at hspace
      cases hspace
  rw [huncommented, List.nil_append] at htail
  subst htail
  have hlead : s = s.takeWhile inKeyword ++ separator ++ rest := by
    conv_lhs => rw [← hall, ← hseparated]
    rw [List.append_assoc]
  have hcut : s.takeWhile (· ≠ '#') <+: s.takeWhile inKeyword ++ separator := by
    conv_lhs => rw [hlead]
    rw [List.takeWhile_append]
    split
    · have hend : rest.takeWhile (· ≠ '#') = [] := by
        obtain rfl | hhash := hcomment
        · rfl
        · obtain ⟨c, t, rfl⟩ := List.exists_cons_of_ne_nil
            (show rest ≠ [] by rintro rfl; cases hhash)
          cases hhash
          rfl
      rw [hend, List.append_nil]
    · exact List.takeWhile_prefix _
  have hdrop : (s.takeWhile (· ≠ '#')).dropWhile isWhitespace = s.takeWhile (· ≠ '#') := by
    refine dropWhile_eq_self.2 fun c hc => hbare.1 c ?_
    obtain ⟨t, ht⟩ := List.takeWhile_prefix (l := s) (· ≠ '#')
    rw [← ht, List.head?_append, hc]
    rfl
  obtain ⟨t, ht⟩ : withoutComment s <+: s.takeWhile inKeyword ++ separator := by
    rw [withoutComment, trimmed, hdrop]
    exact (List.rdropWhile_prefix _ _).trans hcut
  have hkeyword : ∀ c ∈ s.takeWhile inKeyword, isWhitespace c = false ∧ c ≠ '=' := by
    intro c hc
    have hin := List.mem_takeWhile_imp hc
    unfold inKeyword at hin
    simpa using hin
  obtain ⟨a, ha, -⟩ | ⟨b, hb, hb'⟩ := List.append_eq_append_iff.1 ht
  · refine splitDirective_of_rest_blank (b := []) hs hstart (List.append_nil _).symm
      (fun c hc => hkeyword c ?_) fun _ h => by cases h
    rw [ha]
    exact List.mem_append_left _ hc
  · refine splitDirective_of_rest_blank hs hstart hb hkeyword fun c hc => hsep c ?_
    rw [hb']
    exact List.mem_append_left _ hc

/-- Where the rules read no directive, the code reads none or one whose keyword begins with `=`. -/
theorem splitDirective_of_none {line k v : Line} (h : directive line = none)
    (hsplit : splitDirective (trimmed isWhitespace line) = some (k, v)) : k.head? = some '=' := by
  have hbare := bare_trimmed isWhitespace line
  unfold directive at h
  dsimp only at h
  generalize trimmed isWhitespace line = s at h hsplit hbare
  have hs : s ≠ [] := by
    rintro rfl
    cases hsplit
  have hstart : s.head? ≠ some '#' := by
    intro hhash
    rw [splitDirective, if_pos (Or.inr hhash)] at hsplit
    cases hsplit
  by_cases hnil : s.takeWhile inKeyword = []
  · obtain ⟨c, s', rfl⟩ := List.exists_cons_of_ne_nil hs
    have hc : inKeyword c = false := by
      rw [← Bool.not_eq_true]
      intro hin
      rw [List.takeWhile_cons, if_pos hin] at hnil
      cases hnil
    obtain hspace | rfl := inKeyword_eq_false.1 hc
    · rw [hbare.1 c rfl] at hspace
      cases hspace
    · exact splitDirective_equals hsplit
  · by_cases hvalue : (uncommented false true (separated (s.dropWhile inKeyword)).2).rdropWhile
        isWhitespace = []
    · rw [splitDirective_no_value hbare hs hstart hvalue] at hsplit
      cases hsplit
    · rw [if_neg (not_or.2 ⟨hstart, not_or.2 ⟨hnil, hvalue⟩⟩)] at h
      cases h

/-! ## The names of a line -/

theorem isWhitespace_of_ascii {c : Char} (h : isAsciiWhitespace c = true) :
    isWhitespace c = true := by
  simp only [isAsciiWhitespace, Bool.or_eq_true, beq_iff_eq] at h
  obtain (((rfl | rfl) | rfl) | rfl) | rfl := h <;> decide

theorem mem_split {p : Char → Bool} {v : Line} {c : Char} (h : c ∈ v) (hc : p c = false) :
    ∃ piece ∈ v.splitOnP p, c ∈ piece := by
  induction v with
  | nil => cases h
  | cons x v ih =>
    rw [List.splitOnP_cons_eq_if_modifyHead]
    obtain rfl | h := List.mem_cons.1 h
    · rw [hc, if_neg Bool.false_ne_true]
      obtain ⟨first, rest, hsplit⟩ := List.exists_cons_of_ne_nil (List.splitOnP_ne_nil p v)
      rw [hsplit]
      exact ⟨c :: first, List.mem_cons_self, List.mem_cons_self⟩
    · obtain ⟨piece, hpiece, hmem⟩ := ih h
      split
      · exact ⟨piece, List.mem_cons_of_mem [] hpiece, hmem⟩
      · obtain ⟨first, rest, hsplit⟩ := List.exists_cons_of_ne_nil (List.splitOnP_ne_nil p v)
        rw [hsplit] at hpiece ⊢
        obtain rfl | hpiece := List.mem_cons.1 hpiece
        · exact ⟨x :: piece, List.mem_cons_self, List.mem_cons_of_mem x hmem⟩
        · exact ⟨piece, List.mem_cons_of_mem _ hpiece, hmem⟩

theorem mem_splitAsciiWhitespace {v : Line} {c : Char} (h : c ∈ v)
    (hc : isAsciiWhitespace c = false) : ∃ piece ∈ splitAsciiWhitespace v, c ∈ piece := by
  obtain ⟨piece, hpiece, hmem⟩ := mem_split h hc
  refine ⟨piece, List.mem_filter.2 ⟨hpiece, ?_⟩, hmem⟩
  cases piece with
  | nil => cases hmem
  | cons x piece => rfl

/-- Words have no quotes in them. -/
theorem quote_notMem_wordsFrom {quoted : Bool} {word : Option Line} {v : Line}
    (hword : ∀ w ∈ word, '"' ∉ w) : ∀ w ∈ wordsFrom quoted word v, '"' ∉ w := by
  induction v generalizing quoted word with
  | nil =>
    intro w hw
    exact hword w (Option.mem_toList.1 hw)
  | cons c v ih =>
    have hgetD : '"' ∉ word.getD [] := by
      cases word with
      | none => exact List.not_mem_nil
      | some w => exact hword w rfl
    rw [wordsFrom]
    split
    · refine ih fun w hw => ?_
      cases hw
      exact hgetD
    · rename_i hne
      split
      · intro w hw
        obtain hw | hw := List.mem_append.1 hw
        · exact hword w (Option.mem_toList.1 hw)
        · exact ih (fun w hw => by cases hw) w hw
      · refine ih fun w hw => ?_
        cases hw
        rw [List.mem_append, List.mem_singleton, not_or]
        exact ⟨hgetD, fun heq => hne heq.symm⟩

/-- Outside quotes words have no blanks in them. -/
theorem blank_notMem_wordsFrom {word : Option Line} {v : Line} (hv : '"' ∉ v)
    (hword : ∀ w ∈ word, ∀ c ∈ w, isWhitespace c = false) :
    ∀ w ∈ wordsFrom false word v, ∀ c ∈ w, isWhitespace c = false := by
  induction v generalizing word with
  | nil =>
    intro w hw
    exact hword w (Option.mem_toList.1 hw)
  | cons x v ih =>
    rw [List.mem_cons, not_or] at hv
    rw [wordsFrom, if_neg (Ne.symm hv.1)]
    split
    · intro w hw
      obtain hw | hw := List.mem_append.1 hw
      · exact hword w (Option.mem_toList.1 hw)
      · exact ih hv.2 (fun w hw => by cases hw) w hw
    · rename_i hblank
      refine ih hv.2 fun w hw c hc => ?_
      cases hw
      obtain hc | hc := List.mem_append.1 hc
      · cases word with
        | none => cases hc
        | some w => exact hword w rfl c hc
      · rw [List.mem_singleton.1 hc]
        simpa using hblank

theorem wordsFrom_eq_split {v : Line} (hquote : '"' ∉ v)
    (hblank : ∀ c ∈ v, isWhitespace c = isAsciiWhitespace c) (word : Line) :
    wordsFrom false (if word.isEmpty then none else some word) v =
      ((v.splitOnP isAsciiWhitespace).modifyHead (word ++ ·)).filter fun w => !w.isEmpty := by
  induction v generalizing word with
  | nil =>
    cases word with
    | nil => rfl
    | cons x word =>
      rw [List.splitOnP_nil, List.modifyHead_cons, List.append_nil]
      rfl
  | cons c v ih =>
    rw [List.mem_cons, not_or] at hquote
    have hrest := ih hquote.2 fun x hx => hblank x (List.mem_cons_of_mem c hx)
    rw [wordsFrom, if_neg (Ne.symm hquote.1), hblank c List.mem_cons_self,
      List.splitOnP_cons_eq_if_modifyHead]
    by_cases hc : isAsciiWhitespace c = true
    · have hnil := hrest []
      have hid : (v.splitOnP isAsciiWhitespace).modifyHead ([] ++ ·) = v.splitOnP isAsciiWhitespace := by
        cases v.splitOnP isAsciiWhitespace <;> rfl
      rw [hid] at hnil
      rw [hc, if_pos (show (true && !false) = true from rfl), if_pos rfl, List.modifyHead_cons,
        List.append_nil]
      cases word with
      | nil => exact hnil
      | cons x word => exact congrArg ((x :: word) :: ·) hnil
    · rw [Bool.not_eq_true] at hc
      have hword := hrest (word ++ [c])
      have hsome : (if (word ++ [c]).isEmpty then none else some (word ++ [c])) =
          some (word ++ [c]) := by
        cases word <;> rfl
      have hgetD : (if word.isEmpty then none else some word).getD [] = word := by
        cases word <;> rfl
      rw [hsome] at hword
      rw [hc, Bool.false_and, if_neg Bool.false_ne_true, if_neg Bool.false_ne_true, hgetD, hword]
      obtain ⟨first, rest, hsplit⟩ :=
        List.exists_cons_of_ne_nil (List.splitOnP_ne_nil isAsciiWhitespace v)
      rw [hsplit, List.modifyHead_cons, List.modifyHead_cons, List.modifyHead_cons,
        List.append_assoc]
      rfl

/-- The pieces between blanks are the words if there are no quotes and only ASCII blanks. -/
theorem splitAsciiWhitespace_eq_words_iff (v : Line) :
    splitAsciiWhitespace v = words v ↔
      '"' ∉ v ∧ ∀ c ∈ v, isWhitespace c = true → isAsciiWhitespace c = true := by
  constructor
  · intro h
    have hquote : '"' ∉ v := by
      intro hmem
      obtain ⟨piece, hpiece, hc⟩ := mem_splitAsciiWhitespace hmem (by decide)
      rw [h] at hpiece
      exact quote_notMem_wordsFrom (fun w hw => by cases hw) piece hpiece hc
    refine ⟨hquote, fun c hmem hspace => ?_⟩
    by_contra hascii
    rw [Bool.not_eq_true] at hascii
    obtain ⟨piece, hpiece, hc⟩ := mem_splitAsciiWhitespace hmem hascii
    rw [h] at hpiece
    rw [blank_notMem_wordsFrom hquote (fun w hw => by cases hw) piece hpiece c hc] at hspace
    cases hspace
  · rintro ⟨hquote, hblank⟩
    have heq := wordsFrom_eq_split hquote (fun c hc => Bool.eq_iff_iff.2
      ⟨hblank c hc, isWhitespace_of_ascii⟩) []
    have hid : (v.splitOnP isAsciiWhitespace).modifyHead ([] ++ ·) = v.splitOnP isAsciiWhitespace := by
      cases v.splitOnP isAsciiWhitespace <;> rfl
    rw [hid] at heq
    exact heq.symm

/-! ## The aliases -/

theorem mem_foldl_addAlias {names aliases : List Line} {a : Line} :
    a ∈ names.foldl addAlias aliases ↔ a ∈ aliases ∨ a ∈ names ∧ isSkipped a = false := by
  induction names generalizing aliases with
  | nil => simp
  | cons name names ih =>
    rw [List.foldl_cons, ih]
    have hadd : a ∈ addAlias aliases name ↔ a ∈ aliases ∨ a = name ∧ isSkipped name = false := by
      unfold addAlias
      split
      · rename_i h
        constructor
        · exact Or.inl
        · rintro (ha | ⟨rfl, hskip⟩)
          · exact ha
          · rw [hskip] at h
            exact h.resolve_left Bool.false_ne_true
      · rename_i h
        rw [not_or, Bool.not_eq_true] at h
        rw [List.mem_append, List.mem_singleton]
        exact or_congr_right ⟨fun heq => ⟨heq, h.1⟩, fun heq => heq.1⟩
    rw [hadd, List.mem_cons, or_assoc]
    refine or_congr_right ?_
    constructor
    · rintro (⟨rfl, hskip⟩ | ⟨hmem, hskip⟩)
      · exact ⟨Or.inl rfl, hskip⟩
      · exact ⟨Or.inr hmem, hskip⟩
    · rintro ⟨rfl | hmem, hskip⟩
      · exact Or.inl ⟨rfl, hskip⟩
      · exact Or.inr ⟨hmem, hskip⟩

theorem nodup_foldl_addAlias {names aliases : List Line} (h : aliases.Nodup) :
    (names.foldl addAlias aliases).Nodup := by
  induction names generalizing aliases with
  | nil => exact h
  | cons name names ih =>
    refine ih ?_
    unfold addAlias
    split
    · exact h
    · rename_i hnot
      rw [not_or] at hnot
      rw [List.nodup_append]
      refine ⟨h, List.nodup_singleton name, fun x hx y hy => ?_⟩
      rw [List.mem_singleton.1 hy]
      rintro rfl
      exact hnot.2 hx

/-- An unskipped piece of a line that is read as a `Host` line. -/
def Names (a line : Line) : Prop :=
  ∃ k v, splitDirective (trimmed isWhitespace line) = some (k, v) ∧ isKeyword "host" k = true ∧
    a ∈ splitAsciiWhitespace v ∧ isSkipped a = false

theorem mem_addAliases {aliases : List Line} {a line : Line} :
    a ∈ addAliases aliases line ↔ a ∈ aliases ∨ Names a line := by
  unfold addAliases Names
  cases hsplit : splitDirective (trimmed isWhitespace line) with
  | none => simp
  | some p =>
    obtain ⟨keyword, value⟩ := p
    dsimp only
    split
    · rename_i hhost
      rw [mem_foldl_addAlias]
      refine or_congr_right ⟨fun h => ⟨keyword, value, rfl, hhost, h⟩, ?_⟩
      rintro ⟨_, _, heq, -, h⟩
      cases heq
      exact h
    · rename_i hhost
      constructor
      · exact Or.inl
      · rintro (ha | ⟨_, _, heq, h, -⟩)
        · exact ha
        · cases heq
          exact absurd h hhost

theorem mem_concreteAliases {contents : String} {a : Line} :
    a ∈ concreteAliases contents ↔ ∃ line ∈ textLines contents, Names a line := by
  have hfold : ∀ lines aliases, a ∈ List.foldl addAliases aliases lines ↔
      a ∈ aliases ∨ ∃ line ∈ lines, Names a line := by
    intro lines
    induction lines with
    | nil => simp
    | cons line lines ih =>
      intro aliases
      rw [List.foldl_cons, ih, mem_addAliases, or_assoc, List.exists_mem_cons_iff]
  rw [concreteAliases, hfold]
  exact or_iff_right List.not_mem_nil

theorem nodup_concreteAliases (contents : String) : (concreteAliases contents).Nodup := by
  have hfold : ∀ lines aliases, aliases.Nodup → (List.foldl addAliases aliases lines).Nodup := by
    intro lines
    induction lines with
    | nil => exact fun _ h => h
    | cons line lines ih =>
      intro aliases h
      refine ih _ ?_
      unfold addAliases
      split
      · exact h
      · split
        · exact nodup_foldl_addAlias h
        · exact h
  exact hfold _ _ List.nodup_nil

/-! ## Without the `Match` blocks -/

theorem isKeyword_equals {name : String} {k : Line} (hk : k.head? = some '=')
    (hname : (name.toList.map Char.toLower).head? ≠ some '=') : isKeyword name k = false := by
  rw [isKeyword, eqIgnoreAsciiCase, beq_eq_false_iff_ne]
  intro heq
  have hlist := congrArg String.toList heq
  rw [toAsciiLowercase, toAsciiLowercase, String.toList_map, String.toList_map,
    String.toList_ofList] at hlist
  rw [← hlist, List.head?_map, hk] at hname
  exact hname rfl

theorem keepLine_spec (line : Line) (x : Sanitized) :
    (keepLine line x).inMatch = x.inMatch ∧
      (keepLine line x).output = x.output ++ if x.inMatch then [] else outputLine line := by
  unfold keepLine
  cases h : x.inMatch <;> simp [h]

/-- What a line does to the output if it is split as the rules read it. -/
theorem sanitizeLine_spec (x : Sanitized) {line : Line}
    (hline : ∀ d, directive line = some d →
      splitDirective (trimmed isWhitespace line) = some (d.keyword, d.value)) (rest : List Line) :
    (outsideMatch x.inMatch (line :: rest)).flatMap outputLine =
        (outsideMatch x.inMatch [line]).flatMap outputLine ++
          (outsideMatch (sanitizeLine x line).inMatch rest).flatMap outputLine ∧
      (sanitizeLine x line).output =
        x.output ++ (outsideMatch x.inMatch [line]).flatMap outputLine := by
  have hone (inMatch : Bool) (l : List Line) :
      (if inMatch then outsideMatch inMatch l else line :: outsideMatch inMatch l).flatMap outputLine =
        (if inMatch then [] else outputLine line) ++ (outsideMatch inMatch l).flatMap outputLine := by
    cases inMatch <;> rfl
  rw [outsideMatch, outsideMatch]
  unfold sanitizeLine
  cases hd : directive line with
  | none =>
    dsimp only
    cases hsplit : splitDirective (trimmed isWhitespace line) with
    | none =>
      obtain ⟨hmatch, houtput⟩ := keepLine_spec line x
      dsimp only
      rw [hone, hone, hmatch, houtput, outsideMatch, List.flatMap_nil, List.append_nil]
      exact ⟨rfl, rfl⟩
    | some p =>
      obtain ⟨k, v⟩ := p
      have hk := splitDirective_of_none hd hsplit
      have hmatch : isKeyword "match" k = false := isKeyword_equals hk (by decide)
      have hhost : isKeyword "host" k = false := isKeyword_equals hk (by decide)
      have hinclude : isKeyword "include" k = false := isKeyword_equals hk (by decide)
      obtain ⟨hkeep, houtput⟩ := keepLine_spec line x
      dsimp only
      rw [hmatch, hhost, hinclude, if_neg Bool.false_ne_true, if_neg Bool.false_ne_true,
        if_neg Bool.false_ne_true, hone, hone, hkeep, houtput, outsideMatch, List.flatMap_nil,
        List.append_nil]
      exact ⟨rfl, rfl⟩
  | some d =>
    rw [hline d hd]
    dsimp only
    cases hmatch : isKeyword "match" d.keyword with
    | true =>
      rw [if_pos rfl, if_pos rfl, if_pos rfl, outsideMatch, List.flatMap_nil, List.append_nil]
      exact ⟨rfl, rfl⟩
    | false =>
      rw [if_neg Bool.false_ne_true, if_neg Bool.false_ne_true, if_neg Bool.false_ne_true, hone,
        hone, outsideMatch, List.flatMap_nil, List.append_nil]
      generalize hy : (if isKeyword "include" d.keyword = true then
        { (if isKeyword "host" d.keyword = true then { x with inMatch := false } else x) with
          warnings := warn "Include" includeWarning
            (if isKeyword "host" d.keyword = true then { x with inMatch := false } else x).warnings }
        else if isKeyword "host" d.keyword = true then { x with inMatch := false } else x) = y
      have hkept : y.inMatch = (x.inMatch && !isKeyword "host" d.keyword) ∧
          y.output = x.output := by
        subst hy
        cases isKeyword "host" d.keyword <;> cases isKeyword "include" d.keyword <;> simp
      obtain ⟨hkeep, houtput⟩ := keepLine_spec line y
      rw [hkeep, houtput, hkept.1, hkept.2]
      exact ⟨rfl, rfl⟩

theorem sanitize_output {contents : String}
    (h : ∀ line ∈ textLines contents, ∀ d, directive line = some d →
      splitDirective (trimmed isWhitespace line) = some (d.keyword, d.value)) :
    (sanitize contents).1 = (outsideMatch false (textLines contents)).flatMap outputLine := by
  have hfold : ∀ lines x, (∀ line ∈ lines, ∀ d, directive line = some d →
      splitDirective (trimmed isWhitespace line) = some (d.keyword, d.value)) →
      (List.foldl sanitizeLine x lines).output =
        x.output ++ (outsideMatch x.inMatch lines).flatMap outputLine := by
    intro lines
    induction lines with
    | nil => exact fun x _ => (List.append_nil _).symm
    | cons line lines ih =>
      intro x hlines
      obtain ⟨hsplit, houtput⟩ := sanitizeLine_spec x (hlines line List.mem_cons_self) lines
      rw [List.foldl_cons, ih _ fun l hl => hlines l (List.mem_cons_of_mem line hl), houtput,
        hsplit, List.append_assoc]
  exact hfold (textLines contents) ⟨[], [], false⟩ h

/-! ## When a text is read right -/

theorem isSkipped_eq_false {name : Line} :
    isSkipped name = false ↔ name ≠ [] ∧ IsConcrete name ∧ '[' ∉ name := by
  unfold isSkipped IsConcrete
  simp only [Bool.or_eq_false_iff, List.isEmpty_eq_false_iff, beq_eq_false_iff_ne,
    List.any_eq_false, Bool.or_eq_true, beq_iff_eq, not_or]
  constructor
  · rintro ⟨⟨hne, hneg⟩, hall⟩
    exact ⟨hne, ⟨hneg, fun h => (hall _ h).1.1 rfl, fun h => (hall _ h).1.2 rfl⟩,
      fun h => (hall _ h).2 rfl⟩
  · rintro ⟨hne, ⟨hneg, hstar, hmark⟩, hopen⟩
    refine ⟨⟨hne, hneg⟩, fun c hc => ⟨⟨?_, ?_⟩, ?_⟩⟩ <;> rintro rfl
    · exact hstar hc
    · exact hmark hc
    · exact hopen hc

theorem ne_nil_of_mem_split {v a : Line} (h : a ∈ splitAsciiWhitespace v) : a ≠ [] := by
  have hne := (List.mem_filter.1 h).2
  rintro rfl
  cases hne

/-- A text is read right exactly if each of its directives is plain. -/
theorem readsRight_iff (contents : String) : ReadsRight contents ↔
    ∀ line ∈ textLines contents, ∀ d, directive line = some d → d.Plain := by
  constructor
  · intro h line hline d hd
    obtain ⟨hsplit, hwords⟩ := h.directives line hline d hd
    obtain ⟨hkeyword, hvalue, hequals, hseparator⟩ :=
      (splitDirective_parts_iff (directive_parts hd)).1 hsplit
    refine ⟨hkeyword, hvalue, hequals, hseparator, fun hhost => ?_⟩
    obtain ⟨hquote, hblank⟩ := (splitAsciiWhitespace_eq_words_iff d.value).1 (hwords hhost)
    refine ⟨hquote, hblank, fun name hname hconcrete => ?_⟩
    have halias := (h.aliases name).2 ⟨line, hline, d, hd, hhost, hname, hconcrete⟩
    obtain ⟨line', -, k, v, -, -, -, hskip⟩ := mem_concreteAliases.1 halias
    exact (isSkipped_eq_false.1 hskip).2.2
  · intro h
    have hsplits : ∀ line ∈ textLines contents, ∀ d, directive line = some d →
        splitDirective (trimmed isWhitespace line) = some (d.keyword, d.value) := by
      intro line hline d hd
      obtain ⟨hkeyword, hvalue, hequals, hseparator, -⟩ := h line hline d hd
      exact (splitDirective_parts_iff (directive_parts hd)).2
        ⟨hkeyword, hvalue, hequals, hseparator⟩
    have hwords : ∀ line ∈ textLines contents, ∀ d, directive line = some d →
        isKeyword "host" d.keyword = true → splitAsciiWhitespace d.value = words d.value := by
      intro line hline d hd hhost
      obtain ⟨hquote, hblank, -⟩ := (h line hline d hd).host hhost
      exact (splitAsciiWhitespace_eq_words_iff d.value).2 ⟨hquote, hblank⟩
    refine ⟨fun line hline d hd => ⟨hsplits line hline d hd, hwords line hline d hd⟩, fun a => ?_,
      nodup_concreteAliases contents, sanitize_output hsplits⟩
    rw [mem_concreteAliases]
    constructor
    · rintro ⟨line, hline, k, v, hsplit, hhost, ha, hskip⟩
      cases hd : directive line with
      | none =>
        rw [isKeyword_equals (splitDirective_of_none hd hsplit) (by decide)] at hhost
        cases hhost
      | some d =>
        have heq := (hsplits line hline d hd).symm.trans hsplit
        cases heq
        rw [hwords line hline d hd hhost] at ha
        exact ⟨line, hline, d, hd, hhost, ha, (isSkipped_eq_false.1 hskip).2.1⟩
    · rintro ⟨line, hline, d, hd, hhost, ha, hconcrete⟩
      have hopen := ((h line hline d hd).host hhost).2.2 a ha hconcrete
      rw [← hwords line hline d hd hhost] at ha
      exact ⟨line, hline, d.keyword, d.value, hsplits line hline d hd, hhost, ha,
        isSkipped_eq_false.2 ⟨ne_nil_of_mem_split ha, hconcrete, hopen⟩⟩

/-- Two names behind an `=` are missed, and a `Match` behind an `=` is a part of the host. -/
theorem readsRight_fails :
    (directive "Host=web db".toList).map Directive.value = some "web db".toList ∧
      concreteAliases "Host=web db" = [] ∧ ¬ ReadsRight "Host=web db" ∧
      (sanitize "Host web\nMatch=host x\nUser root").1 =
        "Host web\nMatch=host x\nUser root\n".toList := by
  have haliases : concreteAliases "Host=web db" = [] := by decide +kernel
  refine ⟨by decide +kernel, haliases, fun h => ?_, by decide +kernel⟩
  have hweb := (h.aliases "web".toList).2 ⟨"Host=web db".toList, by decide +kernel,
    ⟨"Host".toList, "=".toList, "web db".toList⟩, by decide +kernel, by decide +kernel,
    by decide +kernel, by decide, by decide, by decide⟩
  rw [haliases] at hweb
  cases hweb

end Tethra.SshConfigDirectives
