import Mathlib.Data.Bool.AllAny
import Tethra.ScriptText

set_option autoImplicit false

/-!
# Taking the prompt off a row

The command of a block is what follows the prompt in a row of the terminal. The shapes of prompts
are tried one after the other, on prompt and command together.
-/
namespace Tethra.PromptStripping
open ScriptText Trimming
open ShellInjection (between unit)
open ShellInjection.Pattern (TextPattern code lit)
open TextPatterns TextPatterns.Pattern

/-! ## The patterns -/

/-- The class `PS1_END_CHARS`. -/
def isPs1End (u : UInt16) : Bool :=
  [0x24, 0x23, 0x25, 0x3e, 0x276f, 0x27a2, 0x27a4, 0x203a, 0xbb, 0x27e9, 0x232a, 0x279c, 0x21d2,
    0x2192, 0x25b6, 0x21b5].contains u

/-- The class as it is written out elsewhere, without `↵`. -/
def isPromptGlyph (u : UInt16) : Bool :=
  [0x24, 0x23, 0x25, 0x3e, 0x276f, 0x27a2, 0x27a4, 0x203a, 0xbb, 0x27e9, 0x232a, 0x279c, 0x21d2,
    0x2192, 0x25b6].contains u

def isOrnament (u : UInt16) : Bool :=
  [0xb7, 0x2022, 0x2219, 0x25b2, 0x25b6, 0x25ba, 0x25b8, 0x261b, 0x27a2, 0x2729, 0x2605, 0x25c6,
    0x25c7, 0x25cb, 0x25cf].contains u

/-- `[\w.-]` -/
def isNamePart (u : UInt16) : Bool := isWord u || u == unit '.' || u == unit '-'

def isRootGlyph (u : UInt16) : Bool := u == unit '#' || u == unit '$'

def notSpace (u : UInt16) : Bool := !isSpace u

/-- A text that `.*` matches to its end. -/
def isLine (s : Text) : Bool := s.all fun u => !isLineEnd u

def stripOrnaments (raw : Text) : Text :=
  trimStart
    (match raw with
    | [] => []
    | u :: s => if isOrnament u then s.dropWhile isSpace else u :: s)

/-- `[\w.-]+@[\w.-]+` -/
def userAtHost (r : TextPattern) : TextPattern :=
  .seq (.plus (.sym isNamePart)) (.seq (lit '@') (.seq (.plus (.sym isNamePart)) r))

/-- `^[\w.-]+@[\w.-]+:[^\s]*[#\$]\s*` -/
def classicPrompt : TextPattern :=
  userAtHost (.seq (lit ':') (.seq (.many (.sym notSpace))
    (.seq (.sym isRootGlyph) (.many (.sym isSpace)))))

/-- `^~(?:\/\S*)? ` -/
def homePrompt : TextPattern :=
  .seq (lit '~') (.seq (.opt (.seq (lit '/') (.many (.sym notSpace)))) (lit ' '))

/-- `(.*)$` after a pattern. -/
def lineAfter (rests : List Text) : Option Text := rests.find? isLine

def classic (line : Text) : Option Text := lineAfter (classicPrompt.rests line)

/-- `^[\w.-]+@[\w.-]+\s+[^\n]*?[…]\s*(.*)$` -/
def userHost (line : Text) : Option Text :=
  lineAfter (((userAtHost (.plus (.sym isSpace))).rests line).flatMap fun s =>
    (lazily (· != ShellInjection.LF) isPromptGlyph s).flatMap (many (.sym isSpace)).rests)

def pathPref (line : Text) : Option Text := lineAfter (homePrompt.rests line)

/-- `~(?:\/\S*)?\s+(\S.*)$`, anywhere. -/
def homeCmd (raw : Text) : Option Text :=
  (raw.tails.flatMap
    (Pattern.seq (lit '~') (.seq (.opt (.seq (lit '/') (.many (.sym notSpace))))
      (.plus (.sym isSpace)))).rests).find?
    fun s => isLine s && s.head?.any notSpace

def looksLikeDirectoryListing (s : Text) : Bool :=
  let tokens := (s.splitOnP isSpace).filter fun token => !token.isEmpty
  if tokens.length < 5 then false
  else if s.any fun u => (text "|;&<>()\x7b\x7d").contains u then false
  else if tokens.any fun token => startsWith token (text "-") || token.contains (unit '/') then false
  else tokens.all fun token => token.all fun u =>
    between 0x41 0x5a u || between 0x61 0x7a u || between 0x30 0x39 u ||
      (text "._+-").contains u

/-- `replace(/^.*?[…] ?/, "")` -/
def stripThrough (ends : UInt16 → Bool) (head : Text) : Text :=
  match ((lazily (fun u => !isLineEnd u) ends head).flatMap (opt (lit ' ')).rests).head? with
  | some rest => rest
  | none => head

def stripPs1 (raw : Text) : Text :=
  let line := stripOrnaments raw
  let line := stripOrnaments line
  match classic line with
  | some command => trim command
  | none =>
    match userHost line with
    | some command => trim command
    | none =>
      let head := line.take 80
      let tail := line.drop 80
      if line.any isPs1End && head.any isPs1End then
        let after := stripThrough isPs1End head ++ tail
        match pathPref after with
        | some command => trim command
        | none => trim after
      else
        match pathPref line with
        | some command => trim command
        | none =>
          match homeCmd raw with
          | some command =>
            if !looksLikeDirectoryListing command then trim command else trim line
          | none => trim line

def stripPs1Local (raw : Text) : Text :=
  let line := stripOrnaments raw
  let line := stripOrnaments line
  match classic line with
  | some command => trim command
  | none =>
    match userHost line with
    | some command => trim command
    | none =>
      if (line.take 80).any isPromptGlyph then
        let head := line.take 80
        let tail := line.drop 80
        let line := stripThrough isPromptGlyph head ++ tail
        match pathPref line with
        | some command => trim command
        | none => trim line
      else
        match pathPref line with
        | some command => trim command
        | none =>
          match homeCmd raw with
          | some command => trim command
          | none => trim line

example : stripPs1 (text "root@box:~# apt update") = text "apt update" := by decide +kernel

/-! ## Prompts of the supported shapes -/

/-- `user@host:path` and a glyph, or an optional path below home and a glyph. -/
inductive Prompt where
  | classic (user host path : Text) (glyph : UInt16)
  | home (path : Option Text) (glyph : UInt16)

def HomePath (path : Text) : Prop :=
  path = text "~" ∨ ∃ below, path = text "~/" ++ below ∧ ∀ u ∈ below, isSpace u = false

namespace Prompt

def text : Prompt → Text
  | .classic user host path glyph =>
    user ++ unit '@' :: (host ++ unit ':' :: (path ++ [glyph, unit ' ']))
  | .home none glyph => [glyph, unit ' ']
  | .home (some path) glyph => path ++ [unit ' ', glyph, unit ' ']

/-- Names are of the characters that the pattern for them has. -/
def Supported : Prompt → Prop
  | .classic user host path glyph =>
    (user ≠ [] ∧ ∀ u ∈ user, isNamePart u = true) ∧
      (host ≠ [] ∧ ∀ u ∈ host, isNamePart u = true) ∧
      (∀ u ∈ path, isSpace u = false) ∧ glyph ∈ ScriptText.text "#$"
  | .home path glyph => (∀ p ∈ path, HomePath p) ∧ glyph ∈ ScriptText.text "$#%>"

/-- No part of the path is read as a glyph, and no part of the command as a path. -/
def Clear (command : Text) : Prompt → Prop
  | .classic _ _ _ _ => True
  | .home path _ => (∀ p ∈ path, ∀ u ∈ p, isPs1End u = false) ∧
      ¬ ∃ path rest, HomePath path ∧ command = path ++ unit ' ' :: rest

end Prompt

/-- A trimmed line that is not empty. -/
structure Command (c : Text) : Prop where
  ne_nil : c ≠ []
  bare : Bare isSpace c
  line : isLine c = true

/-! ## Characters -/

theorem isNamePart_of_isOrnament {u : UInt16} (h : isOrnament u = true) : isNamePart u = false := by
  unfold isOrnament at h
  rw [List.contains_iff_mem] at h
  exact (List.all_iff_forall_prop (p := fun u => isNamePart u = false)).1 (by decide) u h

theorem isNamePart_of_isSpace {u : UInt16} (h : isSpace u = true) : isNamePart u = false := by
  rw [← Bool.not_eq_true]
  intro hname
  simp only [isNamePart, isWord, isSpace, between, unit, Bool.or_eq_true, Bool.and_eq_true,
    decide_eq_true_eq, beq_iff_eq, UInt16.le_iff_toNat_le, ← UInt16.toNat_inj] at h hname
  simp at h hname
  omega

theorem isPs1End_of_isPromptGlyph {u : UInt16} (h : isPromptGlyph u = true) :
    isPs1End u = true := by
  unfold isPromptGlyph at h
  unfold isPs1End
  rw [List.contains_iff_mem] at h ⊢
  exact List.mem_of_mem_dropLast h

theorem isSpace_blank : isSpace (unit ' ') = true := by decide

/-- What is no blank breaks no line. -/
theorem isLineEnd_of_isSpace {u : UInt16} (h : isSpace u = false) : isLineEnd u = false := by
  rw [← Bool.not_eq_true] at h ⊢
  intro hend
  apply h
  simp only [isLineEnd, Bool.or_eq_true, beq_iff_eq] at hend
  obtain ((rfl | rfl) | rfl) | rfl := hend <;> decide

theorem stripOrnaments_cons {u : UInt16} (s : Text) (hornament : isOrnament u = false)
    (hspace : isSpace u = false) : stripOrnaments (u :: s) = u :: s := by
  unfold stripOrnaments trimStart
  dsimp only
  rw [hornament, if_neg Bool.false_ne_true, List.dropWhile_cons_of_neg]
  rw [hspace]
  exact Bool.false_ne_true

theorem lineAfter_of_head? {rests : List Text} {s : Text} (h : rests.head? = some s)
    (hs : isLine s = true) : lineAfter rests = some s := by
  cases rests with
  | nil => cases h
  | cons t rests =>
    cases h
    exact List.find?_cons_of_pos hs

/-! ## User and host -/

theorem classic_prompt {user host path c : Text} {glyph : UInt16}
    (h : (Prompt.classic user host path glyph).Supported) (hc : Command c) :
    classic ((Prompt.classic user host path glyph).text ++ c) = some c := by
  obtain ⟨⟨huser, husers⟩, ⟨hhost, hhosts⟩, hpath, hglyph⟩ := h
  have hglyphs : isRootGlyph glyph = true ∧ notSpace glyph = true := by
    obtain rfl | hglyph := List.mem_cons.1 hglyph
    · decide
    · rw [List.mem_singleton.1 hglyph]
      decide
  have hhead : ∀ u, c.head? = some u → isSpace u = false := hc.bare.1
  have hblank : ((many (.sym isSpace)).rests (unit ' ' :: c)).head? = some c :=
    head?_many_sym (w := [unit ' ']) (fun u hu => by rw [List.mem_singleton.1 hu]; decide) hhead
  have hpaths : ∀ u ∈ path ++ [glyph], notSpace u = true := by
    intro u hu
    obtain hu | hu := List.mem_append.1 hu
    · rw [notSpace, hpath u hu]
      rfl
    · rw [List.mem_singleton.1 hu]
      exact hglyphs.2
  have hrest := head?_many_sym_seq (q := isRootGlyph) (w := path) (a := glyph) (b := unit ' ')
    (s := c) hpaths (by decide) (by decide) hglyphs.1 hblank
  have hcolon : ((lit ':').rests (unit ':' :: (path ++ glyph :: unit ' ' :: c))).head? =
      some (path ++ glyph :: unit ' ' :: c) := by
    rw [lit, code, rests_sym_cons, if_pos (beq_self_eq_true _)]
    rfl
  have hat : ((lit '@').rests (unit '@' :: (host ++ unit ':' :: (path ++ glyph :: unit ' ' :: c)))).head? =
      some (host ++ unit ':' :: (path ++ glyph :: unit ' ' :: c)) := by
    rw [lit, code, rests_sym_cons, if_pos (beq_self_eq_true _)]
    rfl
  have hnames (s : Text) {u : UInt16} (hu : isNamePart u = false) :
      ∀ a, (u :: s).head? = some a → isNamePart a = false := by
    rintro a ha
    cases ha
    exact hu
  have hline : (Prompt.classic user host path glyph).text ++ c =
      user ++ unit '@' :: (host ++ unit ':' :: (path ++ glyph :: unit ' ' :: c)) := by
    simp [Prompt.text]
  rw [hline, classic]
  refine lineAfter_of_head? ?_ hc.line
  exact head?_seq (head?_plus_sym huser husers (hnames _ (by decide)))
    (head?_seq hat (head?_seq (head?_plus_sym hhost hhosts (hnames _ (by decide)))
      (head?_seq hcolon hrest)))

theorem classic_prompt_head {user host path c : Text} {glyph : UInt16}
    (h : (Prompt.classic user host path glyph).Supported) : ∃ u s,
      (Prompt.classic user host path glyph).text ++ c = u :: s ∧ isNamePart u = true := by
  obtain ⟨⟨huser, husers⟩, -⟩ := h
  cases user with
  | nil => exact absurd rfl huser
  | cons u user => exact ⟨u, _, rfl, husers u List.mem_cons_self⟩

theorem not_ornament_of_namePart {u : UInt16} (h : isNamePart u = true) :
    isOrnament u = false ∧ isSpace u = false := by
  rw [← Bool.not_eq_true, ← Bool.not_eq_true]
  constructor
  · intro hornament
    rw [isNamePart_of_isOrnament hornament] at h
    cases h
  · intro hspace
    rw [isNamePart_of_isSpace hspace] at h
    cases h

theorem strip_classic {user host path c : Text} {glyph : UInt16}
    (h : (Prompt.classic user host path glyph).Supported) (hc : Command c) :
    stripPs1 ((Prompt.classic user host path glyph).text ++ c) = c ∧
      stripPs1Local ((Prompt.classic user host path glyph).text ++ c) = c := by
  have hclassic := classic_prompt h hc
  obtain ⟨u, s, hline, hname⟩ := classic_prompt_head (c := c) h
  obtain ⟨hornament, hspace⟩ := not_ornament_of_namePart hname
  have hstrip := stripOrnaments_cons s hornament hspace
  have htrim : trim c = c := trimmed_of_bare hc.bare
  rw [hline] at hclassic ⊢
  constructor
  · unfold stripPs1
    dsimp only
    rw [hstrip, hstrip, hclassic]
    exact htrim
  · unfold stripPs1Local
    dsimp only
    rw [hstrip, hstrip, hclassic]
    exact htrim

/-! ## A path below home -/

/-- What is left of a line when a pattern takes the prompt off. -/
def commandOf (line : Text) : Text :=
  match pathPref line with
  | some command => trim command
  | none => trim line

/-- The row without everything through the first glyph. -/
def cut (ends : UInt16 → Bool) (line : Text) : Text :=
  stripThrough ends (line.take 80) ++ line.drop 80

theorem mem_homePrompt {w : Text} :
    w ∈ homePrompt.language ↔ ∃ path, HomePath path ∧ w = path ++ [unit ' '] := by
  have hbelow (x : Text) : x ∈ (opt (.seq (lit '/') (.many (.sym notSpace)))).language ↔
      x = [] ∨ ∃ below, x = unit '/' :: below ∧ ∀ u ∈ below, isSpace u = false := by
    constructor
    · rintro ⟨words, hlength, rfl, hwords⟩
      cases words with
      | nil => exact Or.inl rfl
      | cons word words =>
        have hnil : words = [] := List.length_eq_zero_iff.1
          (Nat.le_zero.1 (Nat.le_of_succ_le_succ hlength))
        subst hnil
        obtain ⟨slash, ⟨a, ha, rfl⟩, below, hbelow, hword⟩ :=
          mem_seq.1 (hwords word List.mem_cons_self)
        rw [mem_many_sym] at hbelow
        refine Or.inr ⟨below, ?_, fun u hu => ?_⟩
        · rw [← hword, beq_iff_eq.1 ha, List.flatten_cons, List.flatten_nil, List.append_nil]
          rfl
        · have hu := hbelow u hu
          rwa [notSpace, Bool.not_eq_true'] at hu
    · rintro (rfl | ⟨below, rfl, hbelow⟩)
      · exact nil_mem_upTo 1 _
      · refine ⟨[unit '/' :: below], le_refl _, ?_, fun word hword => ?_⟩
        · rw [List.flatten_cons, List.flatten_nil, List.append_nil]
        · rw [List.mem_singleton.1 hword]
          refine mem_seq.2 ⟨[unit '/'], ⟨_, beq_self_eq_true _, rfl⟩, below, ?_, rfl⟩
          refine mem_many_sym.2 fun u hu => ?_
          rw [notSpace, hbelow u hu]
          rfl
  rw [homePrompt, mem_seq]
  constructor
  · rintro ⟨tilde, ⟨a, ha, rfl⟩, y, hy, rfl⟩
    obtain ⟨x, hx, blank, ⟨b, hb, rfl⟩, rfl⟩ := mem_seq.1 hy
    rw [beq_iff_eq.1 ha, beq_iff_eq.1 hb]
    obtain rfl | ⟨below, rfl, hspace⟩ := (hbelow x).1 hx
    · exact ⟨ScriptText.text "~", Or.inl rfl, rfl⟩
    · exact ⟨ScriptText.text "~/" ++ below, Or.inr ⟨below, rfl, hspace⟩, rfl⟩
  · rintro ⟨path, hpath, rfl⟩
    obtain rfl | ⟨below, rfl, hspace⟩ := hpath
    · refine ⟨[unit '~'], ⟨_, beq_self_eq_true _, rfl⟩, [unit ' '], ?_, rfl⟩
      exact mem_seq.2 ⟨[], (hbelow []).2 (Or.inl rfl), [unit ' '], ⟨_, beq_self_eq_true _, rfl⟩, rfl⟩
    · refine ⟨[unit '~'], ⟨_, beq_self_eq_true _, rfl⟩, unit '/' :: below ++ [unit ' '], ?_, rfl⟩
      exact mem_seq.2 ⟨unit '/' :: below, (hbelow _).2 (Or.inr ⟨below, rfl, hspace⟩), [unit ' '],
        ⟨_, beq_self_eq_true _, rfl⟩, rfl⟩

theorem pathPref_eq_some {line rest : Text} (h : pathPref line = some rest) :
    ∃ path, HomePath path ∧ line = path ++ unit ' ' :: rest := by
  obtain ⟨w, hw, hline⟩ := (mem_rests _ _ _).1 (List.mem_of_find?_eq_some h)
  obtain ⟨path, hpath, rfl⟩ := mem_homePrompt.1 hw
  refine ⟨path, hpath, ?_⟩
  rw [hline, List.append_assoc]
  rfl

theorem pathPref_isSome {path rest : Text} (hpath : HomePath path) (hrest : isLine rest = true) :
    ∃ r, pathPref (path ++ unit ' ' :: rest) = some r := by
  refine Option.isSome_iff_exists.1 (List.find?_isSome.2 ⟨rest, ?_, hrest⟩)
  refine (mem_rests _ _ _).2 ⟨path ++ [unit ' '], mem_homePrompt.2 ⟨path, hpath, rfl⟩, ?_⟩
  rw [List.append_assoc]
  rfl

theorem isLine_of_append {a b : Text} (h : isLine (a ++ b) = true) : isLine b = true := by
  rw [isLine, List.all_append, Bool.and_eq_true] at h
  exact h.2

/-- A command that starts like a path is cut. -/
theorem commandOf_eq_iff {c : Text} (hc : Command c) :
    commandOf c = c ↔ ¬ ∃ path rest, HomePath path ∧ c = path ++ unit ' ' :: rest := by
  constructor
  · rintro hcommand ⟨path, rest, hpath, hline⟩
    have hrest : isLine rest = true := by
      have hline' := hc.line
      rw [hline, List.append_cons] at hline'
      exact isLine_of_append hline'
    obtain ⟨r, hr⟩ := pathPref_isSome hpath hrest
    rw [← hline] at hr
    obtain ⟨path', -, hline'⟩ := pathPref_eq_some hr
    unfold commandOf at hcommand
    rw [hr] at hcommand
    have hshort := length_trimmed_le isSpace r
    have hlength := congrArg List.length hline'
    rw [List.length_append, List.length_cons, ← hcommand] at hlength
    have htrim : (trim r).length ≤ r.length := hshort
    change (trim r).length = _ at hlength
    omega
  · intro hnone
    have hpref : pathPref c = none := by
      rw [Option.eq_none_iff_forall_ne_some]
      intro rest hrest
      obtain ⟨path, hpath, hline⟩ := pathPref_eq_some hrest
      exact hnone ⟨path, rest, hpath, hline⟩
    unfold commandOf
    rw [hpref]
    exact trimmed_of_bare hc.bare

theorem bare_append {a c : Text} {u : UInt16} (hu : isSpace u = false) (hc : Command c) :
    Bare isSpace (u :: a ++ c) := by
  refine ⟨fun x hx => ?_, fun x hx => ?_⟩
  · cases hx
    exact hu
  · rw [List.getLast?_append_of_ne_nil _ hc.ne_nil] at hx
    exact hc.bare.2 x hx

theorem homePath_spaces {path : Text} (h : HomePath path) : ∀ u ∈ path, isSpace u = false := by
  obtain rfl | ⟨below, rfl, hbelow⟩ := h
  · exact List.all_iff_forall_prop.1 (by decide)
  · intro u hu
    obtain hu | hu := List.mem_append.1 hu
    · exact (List.all_iff_forall_prop (p := fun u => isSpace u = false)).1 (by decide) u hu
    · exact hbelow u hu

/-- A glyph that is left in front of the command stays there. -/
theorem commandOf_glyph {c word : Text} {glyph : UInt16} (hc : Command c)
    (hglyph : isSpace glyph = false) (htilde : glyph ≠ unit '~')
    (hword : ∀ u ∈ word, isSpace u = false) :
    commandOf ([glyph, unit ' '] ++ c) ≠ c ∧
      (word ≠ [] → commandOf (word ++ [unit ' ', glyph, unit ' '] ++ c) ≠ c) := by
  have hlonger {front : Text} (h : trim (front ++ c) = front ++ c) (hne : front ≠ []) :
      trim (front ++ c) ≠ c := by
    intro heq
    rw [heq] at h
    have hlength := congrArg List.length h
    rw [List.length_append] at hlength
    have hpos := List.length_pos_iff.2 hne
    omega
  have hglyphs : trim ([glyph, unit ' '] ++ c) ≠ c :=
    hlonger (trimmed_of_bare (bare_append hglyph hc)) (List.cons_ne_nil _ _)
  constructor
  · have hnone : pathPref ([glyph, unit ' '] ++ c) = none := by
      rw [Option.eq_none_iff_forall_ne_some]
      intro rest hrest
      obtain ⟨path, hpath, hline⟩ := pathPref_eq_some hrest
      obtain rfl | ⟨below, rfl, -⟩ := hpath <;> cases hline <;> exact htilde rfl
    unfold commandOf
    rw [hnone]
    exact hglyphs
  · intro hne
    unfold commandOf
    cases hpref : pathPref (word ++ [unit ' ', glyph, unit ' '] ++ c) with
    | none =>
      cases word with
      | nil => exact absurd rfl hne
      | cons u word =>
        exact hlonger (trimmed_of_bare (bare_append (hword u List.mem_cons_self) hc))
          (List.cons_ne_nil _ _)
    | some rest =>
      -- the word ends where the path ends, at the first blank
      obtain ⟨path, hpath, hline⟩ := pathPref_eq_some hpref
      have hpaths := homePath_spaces hpath
      have hfirst {w s : Text} (hw : ∀ u ∈ w, isSpace u = false) :
          (w ++ unit ' ' :: s).dropWhile (fun u => !isSpace u) = unit ' ' :: s := by
        rw [List.dropWhile_append_of_pos]
        · exact List.dropWhile_cons_of_neg (by decide)
        · intro u hu
          rw [hw u hu]
          rfl
      rw [List.append_assoc] at hline
      have hdrop := congrArg (List.dropWhile fun u => !isSpace u) hline
      rw [hfirst hpaths] at hdrop
      have hrest := (hfirst (s := glyph :: unit ' ' :: c) hword).symm.trans hdrop
      cases hrest
      exact hglyphs

/-! ## Through the first glyph -/

section Cut
variable {ends : UInt16 → Bool} {before more c : Text} {first : UInt16}

theorem stripThrough_append (hline : ∀ u ∈ before, isLineEnd u = false)
    (hbefore : ∀ u ∈ before, ends u = false) (hfirst : ends first = true) (s : Text) :
    stripThrough ends (before ++ first :: unit ' ' :: s) = s ∧
      ∀ u, u ≠ unit ' ' → stripThrough ends (before ++ first :: u :: s) = u :: s := by
  have hlines : ∀ u ∈ before, (!isLineEnd u) = true := by
    intro u hu
    rw [hline u hu]
    rfl
  have hlazily (t : Text) := head?_lazily (p := fun u => !isLineEnd u) (s := t) hlines hbefore hfirst
  have hstrip {t r : Text} (h : ((opt (lit ' ')).rests t).head? = some r) :
      stripThrough ends (before ++ first :: t) = r := by
    have hall := hlazily t
    unfold stripThrough
    cases hrests : lazily (fun u => !isLineEnd u) ends (before ++ first :: t) with
    | nil =>
      rw [hrests] at hall
      cases hall
    | cons x xs =>
      rw [hrests] at hall
      cases hall
      rw [List.flatMap_cons, List.head?_append, h]
      rfl
  constructor
  · refine hstrip ?_
    rw [opt, Pattern.rests, rounds, lit, code, rests_sym_cons, if_pos (beq_self_eq_true _)]
    simp [rounds]
  · intro u hu
    refine hstrip ?_
    rw [opt, Pattern.rests, rounds, lit, code, rests_sym_cons, if_neg (by simpa using hu)]
    rfl

/-- In the first eighty characters everything through the first glyph goes, and a blank behind. -/
theorem cut_append (hline : ∀ u ∈ before, isLineEnd u = false)
    (hbefore : ∀ u ∈ before, ends u = false) (hfirst : ends first = true) {u : UInt16}
    (hlength : (before ++ first :: u :: more).length ≤ 80) :
    cut ends (before ++ first :: u :: more ++ c) =
      (if u = unit ' ' then more else u :: more) ++ c := by
  have htake : (before ++ first :: u :: more ++ c).take 80 =
      before ++ first :: u :: (more ++ c.take (80 - (before ++ first :: u :: more).length)) := by
    rw [List.take_append, List.take_of_length_le hlength, List.append_assoc]
    rfl
  have hdrop : (before ++ first :: u :: more ++ c).drop 80 =
      c.drop (80 - (before ++ first :: u :: more).length) := by
    rw [List.drop_append, List.drop_eq_nil_of_le hlength, List.nil_append]
  obtain ⟨hblank, hother⟩ := stripThrough_append hline hbefore hfirst
    (more ++ c.take (80 - (before ++ first :: u :: more).length))
  rw [cut, htake, hdrop]
  by_cases hu : u = unit ' '
  · subst hu
    rw [if_pos rfl, hblank, List.append_assoc, List.take_append_drop]
  · rw [if_neg hu, hother u hu, List.cons_append, List.append_assoc, List.take_append_drop]
    rfl

end Cut

/-- A row that is no name has its prompt taken off through the first glyph. -/
theorem strip_eq_commandOf {u : UInt16} {s : Text} (hname : isNamePart u = false)
    (hornament : isOrnament u = false) (hspace : isSpace u = false) :
    (((u :: s).take 80).any isPs1End = true →
        stripPs1 (u :: s) = commandOf (cut isPs1End (u :: s))) ∧
      (((u :: s).take 80).any isPromptGlyph = true →
        stripPs1Local (u :: s) = commandOf (cut isPromptGlyph (u :: s))) := by
  have hstrip := stripOrnaments_cons s hornament hspace
  have hnone (r : TextPattern) : (userAtHost r).rests (u :: s) = [] := by
    rw [userAtHost, plus, Pattern.rests, Pattern.rests, rests_sym_cons, hname,
      if_neg Bool.false_ne_true]
    rfl
  have hclassic : classic (u :: s) = none := by
    rw [classic, classicPrompt, hnone]
    rfl
  have huserHost : userHost (u :: s) = none := by
    rw [userHost, hnone]
    rfl
  constructor
  · intro hany
    have hall : (u :: s).any isPs1End = true := by
      obtain ⟨x, hx, hend⟩ := List.any_eq_true.1 hany
      exact List.any_eq_true.2 ⟨x, List.mem_of_mem_take hx, hend⟩
    unfold stripPs1
    dsimp only
    rw [hstrip, hstrip, hclassic, huserHost, hall, hany]
    rfl
  · intro hany
    unfold stripPs1Local
    dsimp only
    rw [hstrip, hstrip, hclassic, huserHost, hany]
    rfl

/-! ## Both copies -/

section Home
variable {path c : Text} {glyph : UInt16}

theorem cut_home_none {ends : UInt16 → Bool} (hends : ends glyph = true) :
    cut ends ((Prompt.home none glyph).text ++ c) = c := by
  have hcut : cut ends ([] ++ glyph :: unit ' ' :: [] ++ c) =
      (if unit ' ' = unit ' ' then [] else [unit ' ']) ++ c :=
    cut_append (fun _ h => by cases h) (fun _ h => by cases h) hends (show 2 ≤ 80 by decide)
  rwa [if_pos rfl] at hcut

theorem cut_home_clear {ends : UInt16 → Bool} (hends : ends glyph = true)
    (hblank : ends (unit ' ') = false) (hpath : HomePath path)
    (hlength : (Prompt.home (some path) glyph).text.length ≤ 80)
    (hclear : ∀ u ∈ path, ends u = false) :
    cut ends ((Prompt.home (some path) glyph).text ++ c) = c := by
  have hline : (Prompt.home (some path) glyph).text = path ++ [unit ' '] ++ glyph :: unit ' ' :: [] := by
    rw [List.append_assoc]
    rfl
  have hends' : ∀ u ∈ path ++ [unit ' '], ends u = false := by
    intro u hu
    obtain hu | hu := List.mem_append.1 hu
    · exact hclear u hu
    · rw [List.mem_singleton.1 hu]
      exact hblank
  have hlines : ∀ u ∈ path ++ [unit ' '], isLineEnd u = false := by
    intro u hu
    obtain hu | hu := List.mem_append.1 hu
    · exact isLineEnd_of_isSpace (homePath_spaces hpath u hu)
    · rw [List.mem_singleton.1 hu]
      decide
  rw [hline] at hlength ⊢
  rw [cut_append hlines hends' hends hlength, if_pos rfl, List.nil_append]

/-- A glyph in the path is taken for the end of the prompt. -/
theorem commandOf_cut_glyph {ends : UInt16 → Bool} (hc : Command c) (hpath : HomePath path)
    (hglyph : isSpace glyph = false) (htilde : glyph ≠ unit '~')
    (hlength : (Prompt.home (some path) glyph).text.length ≤ 80)
    (hend : ∃ u ∈ path, ends u = true) :
    commandOf (cut ends ((Prompt.home (some path) glyph).text ++ c)) ≠ c := by
  have hspaces := homePath_spaces hpath
  obtain ⟨before, first, rest, hsplit, hbefore, hfirst⟩ : ∃ before first rest,
      path = before ++ first :: rest ∧ (∀ u ∈ before, ends u = false) ∧ ends first = true := by
    have hall := List.takeWhile_append_dropWhile (p := fun u => !ends u) (l := path)
    have htake : ∀ u ∈ path.takeWhile fun u => !ends u, ends u = false := by
      intro u hu
      have hu := List.mem_takeWhile_imp hu
      rwa [Bool.not_eq_true'] at hu
    cases hdrop : path.dropWhile fun u => !ends u with
    | nil =>
      obtain ⟨u, hu, htrue⟩ := hend
      have hu := List.dropWhile_eq_nil_iff.1 hdrop u hu
      rw [htrue] at hu
      cases hu
    | cons first rest =>
      have hhead := List.head?_dropWhile_not (fun u => !ends u) path
      rw [hdrop] at hall hhead
      refine ⟨_, first, rest, hall.symm, htake, ?_⟩
      simpa using hhead
  have hlines : ∀ u ∈ before, isLineEnd u = false := by
    intro u hu
    refine isLineEnd_of_isSpace (hspaces u ?_)
    rw [hsplit]
    exact List.mem_append_left _ hu
  have hrest : ∀ u ∈ rest, isSpace u = false := by
    intro u hu
    refine hspaces u ?_
    rw [hsplit]
    exact List.mem_append_right _ (List.mem_cons_of_mem first hu)
  obtain ⟨hglyphs, hwords⟩ := commandOf_glyph hc hglyph htilde hrest
  have htext : (Prompt.home (some path) glyph).text =
      before ++ first :: (rest ++ [unit ' ', glyph, unit ' ']) := by
    change path ++ _ = _
    rw [hsplit, List.append_assoc]
    rfl
  rw [htext] at hlength ⊢
  cases rest with
  | nil =>
    rw [List.nil_append] at hlength ⊢
    rw [cut_append hlines hbefore hfirst hlength, if_pos rfl]
    exact hglyphs
  | cons u rest =>
    have hu : u ≠ unit ' ' := by
      rintro rfl
      have hspace := hrest _ List.mem_cons_self
      rw [isSpace_blank] at hspace
      cases hspace
    rw [List.cons_append] at hlength ⊢
    rw [cut_append hlines hbefore hfirst hlength, if_neg hu]
    exact hwords (List.cons_ne_nil u rest)

/-- What both copies make of a row that starts below home. -/
theorem strip_home {path : Option Text} (h : (Prompt.home path glyph).Supported)
    (hlength : (Prompt.home path glyph).text.length ≤ 80) :
    stripPs1 ((Prompt.home path glyph).text ++ c) =
        commandOf (cut isPs1End ((Prompt.home path glyph).text ++ c)) ∧
      stripPs1Local ((Prompt.home path glyph).text ++ c) =
        commandOf (cut isPromptGlyph ((Prompt.home path glyph).text ++ c)) := by
  obtain ⟨hpath, hglyph⟩ := h
  have hmem : glyph ∈ ((Prompt.home path glyph).text ++ c).take 80 := by
    rw [List.take_append, List.take_of_length_le hlength]
    refine List.mem_append_left _ ?_
    cases path <;> simp [Prompt.text]
  have hglyphs : ∀ u ∈ ScriptText.text "$#%>", isPromptGlyph u = true ∧ isNamePart u = false ∧
      isOrnament u = false ∧ isSpace u = false := List.all_iff_forall_prop.1 (by decide)
  obtain ⟨hends, hname, hornament, hspace⟩ := hglyphs glyph hglyph
  obtain ⟨u, s, hline, hname, hornament, hspace⟩ : ∃ u s,
      (Prompt.home path glyph).text ++ c = u :: s ∧ isNamePart u = false ∧
        isOrnament u = false ∧ isSpace u = false := by
    cases path with
    | none => exact ⟨glyph, _, rfl, hname, hornament, hspace⟩
    | some path =>
      have htilde : isNamePart (unit '~') = false ∧ isOrnament (unit '~') = false ∧
          isSpace (unit '~') = false := by decide
      obtain rfl | ⟨below, rfl, -⟩ := hpath path rfl
      · exact ⟨unit '~', _, rfl, htilde⟩
      · exact ⟨unit '~', _, rfl, htilde⟩
  rw [hline] at hmem ⊢
  obtain ⟨hstrip, hlocal⟩ := strip_eq_commandOf (s := s) hname hornament hspace
  exact ⟨hstrip (List.any_eq_true.2 ⟨glyph, hmem, isPs1End_of_isPromptGlyph hends⟩),
    hlocal (List.any_eq_true.2 ⟨glyph, hmem, hends⟩)⟩

end Home

/-- Both copies give the command back if the path has no glyph and the command starts with no
path. -/
theorem strip_iff {prompt : Prompt} {c : Text} (h : prompt.Supported)
    (hlength : prompt.text.length ≤ 80) (hc : Command c) :
    (stripPs1 (prompt.text ++ c) = c ∧ stripPs1Local (prompt.text ++ c) = c) ↔
      prompt.Clear c := by
  cases prompt with
  | classic user host path glyph =>
    exact ⟨fun _ => trivial, fun _ => strip_classic h hc⟩
  | home path glyph =>
    obtain ⟨hstrip, hlocal⟩ := strip_home (c := c) h hlength
    obtain ⟨hpath, hglyph⟩ := h
    have hglyphs : ∀ u ∈ ScriptText.text "$#%>", isPromptGlyph u = true ∧ isSpace u = false ∧
        u ≠ unit '~' := List.all_iff_forall_prop.1 (by decide)
    obtain ⟨hends, hspace, htilde⟩ := hglyphs glyph hglyph
    have hends' := isPs1End_of_isPromptGlyph hends
    rw [hstrip, hlocal]
    cases path with
    | none =>
      rw [cut_home_none hends, cut_home_none hends', and_self, commandOf_eq_iff hc]
      exact ⟨fun hnot => ⟨fun _ hp => (by cases hp), hnot⟩, fun hclear => hclear.2⟩
    | some path =>
      have hhome := hpath path rfl
      constructor
      · rintro ⟨heq, -⟩
        have hclear : ∀ u ∈ path, isPs1End u = false := by
          intro u hu
          rw [← Bool.not_eq_true]
          intro hend
          exact commandOf_cut_glyph hc hhome hspace htilde hlength ⟨u, hu, hend⟩ heq
        rw [cut_home_clear hends' (by decide) hhome hlength hclear, commandOf_eq_iff hc] at heq
        refine ⟨fun p hp => ?_, heq⟩
        cases hp
        exact hclear
      · rintro ⟨hclear, hnot⟩
        have hclear := hclear path rfl
        have hclear' : ∀ u ∈ path, isPromptGlyph u = false := by
          intro u hu
          rw [← Bool.not_eq_true]
          intro hglyph
          have hend := hclear u hu
          rw [isPs1End_of_isPromptGlyph hglyph] at hend
          cases hend
        rw [cut_home_clear hends' (by decide) hhome hlength hclear,
          cut_home_clear hends (by decide) hhome hlength hclear', and_self]
        exact (commandOf_eq_iff hc).2 hnot

theorem strip_iff_sample :
    stripPs1 (text "~/code % git push") = text "git push" ∧
      stripPs1Local (text "~/code % git push") = text "git push" := by
  have hpath : HomePath (text "~/code") :=
    Or.inr ⟨text "code", by decide, List.all_iff_forall_prop.1 (by decide)⟩
  have hsupported : (Prompt.home (some (text "~/code")) (unit '%')).Supported := by
    refine ⟨fun p hp => ?_, by decide⟩
    cases hp
    exact hpath
  have hcommand : Command (text "git push") := by
    refine ⟨by decide, bare_iff.2 ⟨by decide, by decide⟩, by decide⟩
  refine (strip_iff hsupported (by decide) hcommand).2 ⟨fun p hp => ?_, ?_⟩
  · cases hp
    exact List.all_iff_forall_prop.1 (by decide)
  · rintro ⟨path, rest, hhome, hline⟩
    have hhead := congrArg List.head? hline
    obtain rfl | ⟨below, rfl, -⟩ := hhome <;>
      exact absurd (show unit 'g' = unit '~' from Option.some.inj hhead) (by decide)

/-- A program below home that is called with an argument loses its name. -/
theorem strip_iff_fails :
    (Prompt.home none (unit '$')).Supported ∧ (Prompt.home none (unit '$')).text.length ≤ 80 ∧
      Command (text "~/bin/run now") ∧
      stripPs1 ((Prompt.home none (unit '$')).text ++ text "~/bin/run now") = text "now" ∧
      stripPs1Local ((Prompt.home none (unit '$')).text ++ text "~/bin/run now") = text "now" := by
  refine ⟨⟨fun _ h => (by cases h), by decide⟩, by decide, ?_, by decide +kernel, by decide +kernel⟩
  exact ⟨by decide, bare_iff.2 ⟨by decide, by decide⟩, by decide⟩

end Tethra.PromptStripping
