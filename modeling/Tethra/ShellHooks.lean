import Tethra.MarkerResync
import Tethra.Trimming

set_option autoImplicit false

/-!
# From the shell's hooks to the blocks

Bash calls the hooks before each command and before each prompt, and they write markers between
what the commands write. The parser of the terminal finds the prompts and commands again.
-/
namespace Tethra.ShellHooks
open MarkerResync RustText TerminalMarkers Transducers

/-- What the prompt hook reads: `$?`, the host, the directory and the branch. -/
structure Prompt where
  status : UInt8
  host : Bytes
  pwd : Bytes
  branch : Bytes

inductive ShellEvent where
  | output (bytes : Bytes)
  | debug (command compLine : String)
  | prompt (p : Prompt)

def ascii (text : String) : Bytes := text.toList.flatMap String.utf8EncodeChar

/-- `__tethra_osc`, outside tmux. -/
def osc (body : Bytes) : Bytes := 0x1b :: 0x5d :: (body ++ [0x07])

def promptStart (p : Prompt) : Bytes :=
  osc (ascii "133;A") ++ osc (ascii "133;B") ++ osc (ascii "7;file://" ++ p.host ++ p.pwd) ++
    if p.branch.isEmpty then [] else osc (ascii "133;G;" ++ p.branch)

/-! ## bash -/

/-- `__tethra_has_cmd`, `__tethra_at_prompt` and `__tethra_ready`. -/
structure Bash where
  hasCmd : Bool
  atPrompt : Bool
  ready : Bool
  deriving DecidableEq

/-- As the script sets them. -/
def Bash.sourced : Bash := ⟨false, false, false⟩

section Bash
variable (promptChain : String)

/-- The hook's own command, or one of those `PROMPT_COMMAND` held before. -/
def ofPrompt (command : String) : Bool :=
  "__tethra_precmd".toList.isPrefixOf command.toList ||
    containsText (";" ++ promptChain ++ ";") (";" ++ command ++ ";")

def preexec (s : Bash) (command compLine : String) : Bash × Bytes :=
  if !s.ready then (s, [])
  else if !compLine.isEmpty then (s, [])
  else if !s.atPrompt then (s, [])
  else if ofPrompt promptChain command then (s, [])
  else ({ s with atPrompt := false, hasCmd := true }, osc (ascii "133;C"))

def precmd (s : Bash) (p : Prompt) : Bash × Bytes :=
  ({ s with hasCmd := false, atPrompt := true, ready := true },
    (if s.hasCmd then osc (ascii "133;D;" ++ ascii (toString p.status.toNat)) else []) ++
      promptStart p)

def bashStep (s : Bash) : ShellEvent → Bash × Bytes
  | .output bytes => (s, bytes)
  | .debug command compLine => preexec promptChain s command compLine
  | .prompt p => precmd s p

/-- The shell and its commands, as a writer of the terminal's stream. -/
def bash : Transducer Bash ShellEvent UInt8 := ⟨bashStep promptChain⟩

/-! ## What the user did -/

/-- A command of the line the user entered. -/
def userCommand (promptChain : String) : ShellEvent → Bool
  | .debug command compLine => compLine.isEmpty && !ofPrompt promptChain command
  | _ => false

/-- From a prompt to the next one. -/
structure Period where
  prompt : Prompt
  acts : List ShellEvent
  quiet : ∀ p, .prompt p ∉ acts

def Period.ran (period : Period) : Bool := period.acts.any (userCommand promptChain)

def Period.events (period : Period) : List ShellEvent := .prompt period.prompt :: period.acts

/-- The blocks of a session: each prompt, the command entered there if one was, and how it
ended; `ran` if one was before. -/
def blocks (promptChain : String) : Bool → List Period → List BlockEvent
  | _, [] => []
  | ran, period :: periods =>
    (if ran then [.commandEnd (some period.prompt.status.toNat)] else []) ++
      [.promptStart, .commandStart] ++
      (if period.ran promptChain then [.outputStart] else []) ++
      blocks promptChain (period.ran promptChain) periods

end Bash

/-- Nothing but the hooks writes an ESC. -/
def Clean : ShellEvent → Prop
  | .output bytes => 0x1b ∉ bytes
  | .debug _ _ => True
  | .prompt p => 0x1b ∉ p.host ∧ 0x1b ∉ p.pwd ∧ 0x1b ∉ p.branch

/-! ## What the parser makes of it -/

/-- The parser reads `bytes` outside every sequence, ends there and finds `events`. -/
def Reads (p : Osc133Parser) (bytes : Bytes) (events : List BlockEvent) : Prop :=
  p.state = .ground →
    (machine.state p bytes).state = .ground ∧ machine.output p bytes = events

theorem Reads.nil (p : Osc133Parser) : Reads p [] [] := fun hp => ⟨hp, rfl⟩

theorem Reads.append {p : Osc133Parser} {a b : Bytes} {first second : List BlockEvent}
    (ha : Reads p a first) (hb : ∀ q, Reads q b second) : Reads p (a ++ b) (first ++ second) := by
  intro hp
  obtain ⟨hstate, hout⟩ := ha hp
  obtain ⟨hstate', hout'⟩ := hb (machine.state p a) hstate
  rw [Transducer.state_append, Transducer.output_append, hout, hout']
  exact ⟨hstate', rfl⟩

/-- Text without an ESC. -/
theorem reads_text {bytes : Bytes} (h : 0x1b ∉ bytes) (p : Osc133Parser) : Reads p bytes [] := by
  intro hp
  have hidle : machine.run p bytes = (p, []) := machine.run_idle fun byte hbyte =>
    feed_idle hp (fun he => h (he ▸ hbyte))
  obtain ⟨hstate, hout⟩ := Prod.mk.inj hidle
  rw [hstate, hout]
  exact ⟨hp, rfl⟩

/-- A body that fits is read, a longer one is given up. -/
theorem reads_osc {body : Bytes} (hbody : ∀ b ∈ body, Plain b) (p : Osc133Parser) :
    Reads p (osc body)
      (if body.length ≤ 256 then (Osc133Parser.parseBody body).toList else []) := by
  intro hp
  have hopen : machine.run p [0x1b, 0x5d] = (⟨.osc, []⟩, []) := by
    simp [Transducer.run, machine, Osc133Parser.feed, hp, Osc133Parser.feedGround]
  have hgather : ∀ part : Bytes, (∀ b ∈ part, Plain b) → part.length ≤ 256 →
      machine.run ⟨.osc, []⟩ part = (⟨.osc, part⟩, []) := fun part hpart hlen =>
    machine.run_gather feed_gather (fun _ h => by cases h) hpart (by simpa using hlen)
  suffices h : ∃ q : Osc133Parser, q.state = .ground ∧ machine.run p (osc body) =
      (q, if body.length ≤ 256 then (Osc133Parser.parseBody body).toList else []) by
    obtain ⟨q, hq, hrun⟩ := h
    obtain ⟨hstate, hout⟩ := Prod.mk.inj hrun
    exact ⟨by rw [hstate]; exact hq, hout⟩
  refine ⟨⟨.ground, []⟩, rfl, ?_⟩
  change machine.run p ([0x1b, 0x5d] ++ (body ++ [0x07])) = _
  rw [machine.run_append hopen]
  by_cases hlen : body.length ≤ 256
  · rw [machine.run_append (hgather body hbody hlen), if_pos hlen]
    simp [Transducer.run, machine, Osc133Parser.feed]
  · obtain ⟨b, rest, hsplit⟩ : ∃ b rest, body = body.take 256 ++ b :: rest := by
      have hdrop : body.drop 256 ≠ [] := by
        intro hnil
        rw [List.drop_eq_nil_iff] at hnil
        omega
      obtain ⟨b, rest, hrest⟩ := List.exists_cons_of_ne_nil hdrop
      exact ⟨b, rest, by rw [← hrest, List.take_append_drop]⟩
    have htake : (body.take 256).length = 256 := by
      rw [List.length_take]
      omega
    have hhead : ∀ c ∈ body.take 256, Plain c := fun c hc => hbody c (List.mem_of_mem_take hc)
    have hb : Plain b := hbody b (by rw [hsplit]; simp)
    have hrest : ∀ c ∈ rest ++ [0x07], c ≠ 0x1b := by
      intro c hc
      obtain hc | hc := List.mem_append.1 hc
      · exact (hbody c (by rw [hsplit]; simp [hc])).1
      · rw [List.mem_singleton.1 hc]
        decide
    have hlast : (body.take 256).getLast? ≠ some 0x1b := fun h =>
      (hhead _ (List.mem_of_getLast? h)).1 rfl
    have hfull : machine.run ⟨.osc, body.take 256⟩ [b] = (⟨.ground, []⟩, []) := by
      simp [Transducer.run, machine, Osc133Parser.feed, hb.1, hb.2, hlast, htake]
    have hidle : machine.run ⟨.ground, []⟩ (rest ++ [0x07]) = (⟨.ground, []⟩, []) :=
      machine.run_idle fun c hc => feed_idle rfl (hrest c hc)
    have hbytes : body ++ [0x07] = body.take 256 ++ ([b] ++ (rest ++ [0x07])) := by
      conv_lhs => rw [hsplit]
      simp
    rw [hbytes, machine.run_append (hgather _ hhead (by omega)), machine.run_append hfull, hidle,
      if_neg hlen]
    rfl

/-- A body none of whose beginnings is a marker, whatever it holds but an ESC. -/
theorem reads_other {body : Bytes} (hescape : 0x1b ∉ body)
    (hnone : ∀ a, a <+: body → Osc133Parser.parseBody a = none) (p : Osc133Parser) :
    Reads p (osc body) [] := by
  by_cases hbell : 0x07 ∈ body
  · -- The first BEL ends the sequence, and the rest is text.
    obtain ⟨a, b, hsplit, ha⟩ := List.eq_append_cons_of_mem hbell
    have hplain : ∀ c ∈ a, Plain c := fun c hc =>
      ⟨fun h => hescape (h ▸ hsplit ▸ List.mem_append_left _ hc), fun h => ha (h ▸ hc)⟩
    have hread := reads_osc hplain p
    rw [hnone a (hsplit ▸ List.prefix_append _ _)] at hread
    have hrest : ∀ q, Reads q (b ++ [0x07]) [] := by
      refine reads_text fun hmem => ?_
      obtain hmem | hmem := List.mem_append.1 hmem
      · exact hescape (hsplit ▸ List.mem_append_right _ (List.mem_cons_of_mem _ hmem))
      · revert hmem
        decide
    have hbytes : osc body = osc a ++ (b ++ [0x07]) := by
      rw [hsplit]
      simp [osc]
    rw [hbytes]
    simpa using hread.append hrest
  · have hplain : ∀ b ∈ body, Plain b := fun b hb =>
      ⟨fun h => hescape (h ▸ hb), fun h => hbell (h ▸ hb)⟩
    have hread := reads_osc hplain p
    rw [hnone body (List.prefix_refl body)] at hread
    simpa using hread

/-! ## The sequences of the hooks -/

theorem ascii_append (a b : String) : ascii (a ++ b) = ascii a ++ ascii b := by
  unfold ascii
  rw [String.toList_append, List.flatMap_append]

theorem ascii_opening : ascii "133;" = [0x31, 0x33, 0x33, 0x3b] := by decide +kernel

theorem ascii_directory : ascii "7;file://" =
    [0x37, 0x3b, 0x66, 0x69, 0x6c, 0x65, 0x3a, 0x2f, 0x2f] := by decide +kernel

theorem ascii_branch : ascii "133;G;" = [0x31, 0x33, 0x33, 0x3b, 0x47, 0x3b] := by decide +kernel

/-- Every body that is read begins with `133;` and one of the four letters. -/
theorem opening_of_parseBody {body : Bytes} {event : BlockEvent}
    (h : Osc133Parser.parseBody body = some event) :
    ∃ letter rest, letter ∈ ['A', 'a', 'B', 'b', 'C', 'c', 'D', 'd'] ∧
      body = ascii "133;" ++ String.utf8EncodeChar letter ++ rest := by
  unfold Osc133Parser.parseBody at h
  obtain ⟨text, htext, h⟩ := Option.bind_eq_some_iff.1 h
  split at h
  · rename_i kind parts hsplit
    obtain ⟨letter, hletter, h⟩ := Option.bind_eq_some_iff.1 h
    obtain ⟨chars, hchars⟩ := List.head?_eq_some_iff.1 hletter
    obtain ⟨tail, htail⟩ : ∃ tail, text.toList = ['1', '3', '3', ';'] ++ letter :: tail := by
      have hlists : text.toList.splitOn ';' =
          ['1', '3', '3'] :: kind.toList :: parts.map String.toList := by
        have hmap := congrArg (List.map String.toList) hsplit
        unfold split at hmap
        rw [List.map_map] at hmap
        have hid : String.toList ∘ String.ofList = id := funext fun l => String.toList_ofList
        rw [hid, List.map_id] at hmap
        exact hmap
      have hinter : [';'].intercalate (text.toList.splitOn ';') = text.toList :=
        List.intercalate_splitOn _
      rw [hlists, hchars] at hinter
      rw [← hinter]
      cases parts with
      | nil => exact ⟨_, rfl⟩
      | cons part parts => exact ⟨_, rfl⟩
    have hmem : letter ∈ ['A', 'a', 'B', 'b', 'C', 'c', 'D', 'd'] := by
      split at h <;> first | decide | cases h
    refine ⟨letter, tail.flatMap String.utf8EncodeChar, hmem, ?_⟩
    rw [TerminalMarkers.fromUtf8_eq_some htext, htail, List.flatMap_append, List.flatMap_cons,
      List.append_assoc]
    rfl
  · cases h

theorem parseBody_directory (host pwd a : Bytes) (h : a <+: ascii "7;file://" ++ host ++ pwd) :
    Osc133Parser.parseBody a = none := by
  by_contra hsome
  obtain ⟨event, hevent⟩ := Option.ne_none_iff_exists'.1 hsome
  obtain ⟨letter, rest, -, rfl⟩ := opening_of_parseBody hevent
  obtain ⟨more, hmore⟩ := h
  rw [ascii_opening, ascii_directory] at hmore
  cases hmore

theorem parseBody_branch (branch a : Bytes) (h : a <+: ascii "133;G;" ++ branch) :
    Osc133Parser.parseBody a = none := by
  by_contra hsome
  obtain ⟨event, hevent⟩ := Option.ne_none_iff_exists'.1 hsome
  obtain ⟨letter, rest, hletter, rfl⟩ := opening_of_parseBody hevent
  obtain ⟨more, hmore⟩ := h
  have hbyte : ∃ b ∈ ([0x41, 0x61, 0x42, 0x62, 0x43, 0x63, 0x44, 0x64] : Bytes),
      String.utf8EncodeChar letter = [b] := by
    simp only [List.mem_cons, List.not_mem_nil, or_false] at hletter
    obtain rfl | rfl | rfl | rfl | rfl | rfl | rfl | rfl := hletter <;> decide
  obtain ⟨b, hb, hencode⟩ := hbyte
  rw [ascii_opening, ascii_branch, hencode] at hmore
  simp only [List.cons_append, List.nil_append, List.cons.injEq, true_and] at hmore
  obtain ⟨rfl, -⟩ := hmore
  revert hb
  decide

theorem fromUtf8_ascii (text : String) : fromUtf8 (ascii text) = some text := by
  have happend := fromUtf8_append text.toList []
  have hempty : fromUtf8 [] = some "" := rfl
  rw [List.append_nil, hempty, Option.map_some, String.ofList_toList,
    String.append_empty] at happend
  exact happend

/-- The parameter of a `D` marker. -/
theorem parseBody_end {text : String} (h : ';' ∉ text.toList) :
    Osc133Parser.parseBody (ascii "133;D;" ++ ascii text) = some (.commandEnd
      (if (trim text).isEmpty then none else parseI32 (trim text))) := by
  have hjoin : "133;D;" ++ text =
      String.ofList (['1', '3', '3'] ++ ';' :: (['D'] ++ ';' :: text.toList)) := by
    have hlist : "133;D;".toList ++ text.toList =
        ['1', '3', '3'] ++ ';' :: (['D'] ++ ';' :: text.toList) := rfl
    apply String.toList_injective
    rw [String.toList_append, hlist]
    exact String.toList_ofList.symm
  have hsplit : split ("133;D;" ++ text) = ["133", "D", text] := by
    rw [hjoin, split_append _ _ (by decide), split_append _ _ (by decide)]
    unfold split
    rw [String.toList_ofList, List.splitOn_eq_singleton h, List.map_singleton, String.ofList_toList]
  unfold Osc133Parser.parseBody
  rw [← ascii_append, fromUtf8_ascii]
  simp only [Option.bind_eq_bind, Option.bind_some, hsplit]
  rfl

/-- The text of a number is its digits. -/
theorem toList_nat (n : ℕ) : (toString n).toList = Nat.toDigits 10 n := Nat.toList_repr

theorem isDigit_of_mem {n : ℕ} {c : Char} (h : c ∈ Nat.toDigits 10 n) : c.isDigit = true :=
  Nat.isDigit_of_mem_toDigits (by decide) (by decide) h

theorem code_digit {c : Char} (h : c.isDigit = true) : 48 ≤ c.toNat ∧ c.toNat ≤ 57 := by
  simp only [Char.isDigit, ge_iff_le, Bool.and_eq_true, decide_eq_true_eq] at h
  exact h

theorem foldl_digits {digits : List Char} (h : ∀ c ∈ digits, c.isDigit = true) (m : ℕ) :
    digits.foldl (fun n c => 10 * n + (c.toNat - '0'.toNat : ℤ)) (m : ℤ) =
      (Nat.ofDigitChars 10 digits m : ℤ) := by
  induction digits generalizing m with
  | nil => rfl
  | cons c digits ih =>
    have hdigit := (code_digit (h c List.mem_cons_self)).1
    have hzero : '0'.toNat = 48 := rfl
    have hstep : (10 * (m : ℤ) + (c.toNat - '0'.toNat : ℤ)) =
        ((10 * m + (c.toNat - '0'.toNat) : ℕ) : ℤ) := by
      omega
    have hrest := ih (fun d hd => h d (List.mem_cons_of_mem c hd)) (10 * m + (c.toNat - '0'.toNat))
    rw [List.foldl_cons, hstep, hrest]
    rfl

theorem decimal_toDigits (n : ℕ) : decimal (Nat.toDigits 10 n) = some (n : ℤ) := by
  have hall : (Nat.toDigits 10 n).all Char.isDigit = true :=
    List.all_eq_true.2 fun c hc => isDigit_of_mem hc
  have hfold := @foldl_digits (Nat.toDigits 10 n) (fun c hc => isDigit_of_mem hc) 0
  unfold decimal
  rw [if_pos ⟨Nat.toDigits_ne_nil, hall⟩]
  refine congrArg some (hfold.trans ?_)
  rw [Nat.ofDigitChars_toDigits (by decide) (by decide)]

theorem parseI32_nat {n : ℕ} (h : n < 2 ^ 31) : parseI32 (toString n) = some (n : ℤ) := by
  have hdecimal : decimal (toString n).toList = some (n : ℤ) := by
    rw [toList_nat]
    exact decimal_toDigits n
  have hsign : ∀ c ∈ (toString n).toList, c.isDigit = true := by
    rw [toList_nat]
    exact fun c hc => isDigit_of_mem hc
  have hrange : -2 ^ 31 ≤ (n : ℤ) ∧ (n : ℤ) < 2 ^ 31 := by omega
  unfold parseI32
  split
  · rename_i hdigits
    exact absurd (hsign '-' (hdigits ▸ List.mem_cons_self)) (by decide)
  · rename_i hdigits
    exact absurd (hsign '+' (hdigits ▸ List.mem_cons_self)) (by decide)
  · exact Option.filter_eq_some_iff.2 ⟨hdecimal, decide_eq_true hrange⟩

theorem trim_nat (n : ℕ) : trim (toString n) = toString n := by
  have hblank : ∀ c ∈ (toString n).toList, isWhitespace c = false := by
    intro c hc
    rw [toList_nat] at hc
    have hdigit := code_digit (isDigit_of_mem hc)
    unfold isWhitespace
    simp only [Bool.or_eq_false_iff, Bool.and_eq_false_iff, decide_eq_false_iff_not,
      beq_eq_false_iff_ne]
    omega
  have hbare : Trimming.Bare isWhitespace (toString n).toList :=
    ⟨fun c hc => hblank c (List.mem_of_head? hc), fun c hc => hblank c (List.mem_of_getLast? hc)⟩
  have htrimmed := congrArg String.ofList (Trimming.trimmed_of_bare hbare)
  rw [String.ofList_toList] at htrimmed
  exact htrimmed

theorem parseBody_status (status : UInt8) : Osc133Parser.parseBody (ascii "133;D;" ++
    ascii (toString status.toNat)) = some (.commandEnd (some (status.toNat : ℤ))) := by
  have hlt : status.toNat < 256 := status.toNat_lt
  have hsemicolon : ';' ∉ (toString status.toNat).toList := by
    rw [toList_nat]
    exact fun h => absurd (isDigit_of_mem h) (by decide)
  have hempty : (toString status.toNat).isEmpty = false := by
    rw [Bool.eq_false_iff]
    intro he
    have hnil := congrArg String.toList (String.isEmpty_iff.1 he)
    rw [toList_nat] at hnil
    exact Nat.toDigits_ne_nil hnil
  rw [parseBody_end hsemicolon, trim_nat, hempty, parseI32_nat (by omega)]
  rfl

/-- A marker of the hooks is read as `event`. -/
theorem reads_marker {text : String} {event : BlockEvent}
    (hplain : (ascii text).all (fun b => b != 0x1b && b != 0x07) = true)
    (hlen : (ascii text).length ≤ 256)
    (hparse : Osc133Parser.parseBody (ascii text) = some event) (p : Osc133Parser) :
    Reads p (osc (ascii text)) [event] := by
  have hbody : ∀ b ∈ ascii text, Plain b := by
    intro b hb
    have hboth := List.all_eq_true.1 hplain b hb
    simp only [Bool.and_eq_true, bne_iff_ne] at hboth
    exact hboth
  have hread := reads_osc hbody p
  rw [if_pos hlen, hparse] at hread
  exact hread

theorem reads_outputStart (p : Osc133Parser) : Reads p (osc (ascii "133;C")) [.outputStart] :=
  reads_marker (by decide +kernel) (by decide +kernel) (by decide +kernel) p

theorem reads_promptStart {prompt : Prompt} (hclean : Clean (.prompt prompt)) (p : Osc133Parser) :
    Reads p (promptStart prompt) [.promptStart, .commandStart] := by
  obtain ⟨hhost, hpwd, hbranch⟩ := hclean
  have hstart : ∀ q, Reads q (osc (ascii "133;A")) [.promptStart] :=
    reads_marker (by decide +kernel) (by decide +kernel) (by decide +kernel)
  have hcommand : ∀ q, Reads q (osc (ascii "133;B")) [.commandStart] :=
    reads_marker (by decide +kernel) (by decide +kernel) (by decide +kernel)
  have hdirectory : ∀ q, Reads q (osc (ascii "7;file://" ++ prompt.host ++ prompt.pwd)) [] := by
    refine reads_other ?_ (parseBody_directory prompt.host prompt.pwd)
    rw [ascii_directory]
    simp [hhost, hpwd]
  have hlast : ∀ q, Reads q
      (if prompt.branch.isEmpty then [] else osc (ascii "133;G;" ++ prompt.branch)) [] := by
    intro q
    split
    · exact Reads.nil q
    · refine reads_other ?_ (parseBody_branch prompt.branch) q
      rw [ascii_branch]
      simp [hbranch]
  exact (((hstart p).append hcommand).append hdirectory).append hlast

theorem utf8_digit {c : Char} (h : c.isDigit = true) :
    String.utf8EncodeChar c = [UInt8.ofNat c.toNat] := by
  have hcode : 48 ≤ c.val.toNat ∧ c.val.toNat ≤ 57 := code_digit h
  unfold String.utf8EncodeChar
  dsimp only
  rw [if_pos (by omega)]
  rfl

theorem ascii_digits {text : String} (h : ∀ c ∈ text.toList, c.isDigit = true) :
    ascii text = text.toList.map fun c => UInt8.ofNat c.toNat := by
  have hsingle : ascii text = text.toList.flatMap fun c => [UInt8.ofNat c.toNat] :=
    List.flatMap_congr fun c hc => utf8_digit (h c hc)
  rw [hsingle, List.map_eq_flatMap]

theorem plain_digit {c : Char} (h : c.isDigit = true) : Plain (UInt8.ofNat c.toNat) := by
  have hcode := code_digit h
  have hbyte : (UInt8.ofNat c.toNat).toNat = c.toNat := by
    rw [UInt8.toNat_ofNat']
    exact Nat.mod_eq_of_lt (by omega)
  have hescape : (0x1b : UInt8).toNat = 27 := rfl
  have hbell : (0x07 : UInt8).toNat = 7 := rfl
  constructor <;> intro he <;> rw [he] at hbyte <;> omega

theorem reads_commandEnd (status : UInt8) (p : Osc133Parser) :
    Reads p (osc (ascii "133;D;" ++ ascii (toString status.toNat)))
      [.commandEnd (some status.toNat)] := by
  have hlt : status.toNat < 256 := status.toNat_lt
  have hdigits : ∀ c ∈ (toString status.toNat).toList, c.isDigit = true := by
    rw [toList_nat]
    exact fun c hc => isDigit_of_mem hc
  have hopening : (ascii "133;D;").all (fun b => b != 0x1b && b != 0x07) = true ∧
      (ascii "133;D;").length = 6 := by decide +kernel
  have hshort : (ascii (toString status.toNat)).length ≤ 3 := by
    rw [ascii_digits hdigits, List.length_map, toList_nat]
    exact (Nat.length_toDigits_le_iff (by decide) (by decide)).2 (by omega)
  have hplain : ∀ b ∈ ascii "133;D;" ++ ascii (toString status.toNat), Plain b := by
    intro b hb
    obtain hb | hb := List.mem_append.1 hb
    · have hboth := List.all_eq_true.1 hopening.1 b hb
      simp only [Bool.and_eq_true, bne_iff_ne] at hboth
      exact hboth
    · rw [ascii_digits hdigits] at hb
      obtain ⟨c, hc, rfl⟩ := List.mem_map.1 hb
      exact plain_digit (hdigits c hc)
  have hlen : (ascii "133;D;" ++ ascii (toString status.toNat)).length ≤ 256 := by
    rw [List.length_append, hopening.2]
    omega
  have hread := reads_osc hplain p
  rw [if_pos hlen, parseBody_status] at hread
  exact hread

/-! ## A session -/

section Session
variable (promptChain : String)

/-- Once a prompt was written: whether a command was entered there. -/
def Bash.entered (ran : Bool) : Bash := ⟨ran, !ran, true⟩

theorem preexec_entered (ran : Bool) (command compLine : String) :
    preexec promptChain (.entered ran) command compLine =
      (.entered (ran || userCommand promptChain (.debug command compLine)),
        if !ran && userCommand promptChain (.debug command compLine) then osc (ascii "133;C")
        else []) := by
  simp only [preexec, Bash.entered, userCommand]
  by_cases hline : compLine.isEmpty = true <;>
    by_cases hown : ofPrompt promptChain command = true <;> cases ran <;> simp [hline, hown]

/-- What the hooks write of an event and the parser makes of it. -/
theorem reads_step (ran : Bool) {e : ShellEvent} (hquiet : ∀ p, e ≠ .prompt p) (hclean : Clean e) :
    (bashStep promptChain (.entered ran) e).1 = .entered (ran || userCommand promptChain e) ∧
      ∀ q, Reads q (bashStep promptChain (.entered ran) e).2
        (if !ran && userCommand promptChain e then [.outputStart] else []) := by
  cases e with
  | output bytes =>
    refine ⟨by simp [bashStep, userCommand], fun q => ?_⟩
    simpa [bashStep, userCommand] using reads_text hclean q
  | debug command compLine =>
    rw [bashStep, preexec_entered]
    refine ⟨rfl, fun q => ?_⟩
    split
    · exact reads_outputStart q
    · exact Reads.nil q
  | prompt p => exact absurd rfl (hquiet p)

theorem reads_acts {acts : List ShellEvent} (ran : Bool) (hquiet : ∀ p, .prompt p ∉ acts)
    (hclean : ∀ e ∈ acts, Clean e) :
    (bash promptChain).state (.entered ran) acts =
        .entered (ran || acts.any (userCommand promptChain)) ∧
      ∀ q, Reads q ((bash promptChain).output (.entered ran) acts)
        (if !ran && acts.any (userCommand promptChain) then [.outputStart] else []) := by
  induction acts generalizing ran with
  | nil => simp [Reads.nil]
  | cons e acts ih =>
    obtain ⟨hstate, hreads⟩ := reads_step promptChain ran
      (fun p he => hquiet p (he ▸ List.mem_cons_self)) (hclean e List.mem_cons_self)
    obtain ⟨hrest, hreadsRest⟩ := ih (ran || userCommand promptChain e)
      (fun p hp => hquiet p (List.mem_cons_of_mem e hp))
      (fun a ha => hclean a (List.mem_cons_of_mem e ha))
    have hstep : ((bash promptChain).step (.entered ran) e).1 =
        .entered (ran || userCommand promptChain e) := hstate
    rw [Transducer.state_cons, Transducer.output_cons, hstep, hrest, List.any_cons]
    refine ⟨by rw [Bool.or_assoc], fun q => ?_⟩
    have happend := (hreads q).append hreadsRest
    cases ran <;> cases hcommand : userCommand promptChain e <;> simp_all [bash]

/-- Before the first prompt the hooks write nothing. -/
theorem reads_startup {acts : List ShellEvent} (hquiet : ∀ p, .prompt p ∉ acts)
    (hclean : ∀ e ∈ acts, Clean e) :
    (bash promptChain).state .sourced acts = .sourced ∧
      ∀ q, Reads q ((bash promptChain).output .sourced acts) [] := by
  induction acts with
  | nil => exact ⟨rfl, Reads.nil⟩
  | cons e acts ih =>
    obtain ⟨hrest, hreadsRest⟩ := ih (fun p hp => hquiet p (List.mem_cons_of_mem e hp))
      (fun a ha => hclean a (List.mem_cons_of_mem e ha))
    have hstep : ((bash promptChain).step .sourced e).1 = .sourced ∧
        ∀ q, Reads q ((bash promptChain).step .sourced e).2 [] := by
      cases e with
      | output bytes => exact ⟨rfl, reads_text (hclean _ List.mem_cons_self)⟩
      | debug command compLine => exact ⟨rfl, Reads.nil⟩
      | prompt p => exact absurd List.mem_cons_self (hquiet p)
    rw [Transducer.state_cons, Transducer.output_cons, hstep.1]
    exact ⟨hrest, fun q => (hstep.2 q).append hreadsRest⟩

/-- The periods from a prompt on, after a command or without one. -/
theorem reads_periods (periods : List Period) {s : Bash} {ran : Bool} (hran : s.hasCmd = ran)
    (hclean : ∀ e ∈ periods.flatMap Period.events, Clean e) (q : Osc133Parser) :
    Reads q ((bash promptChain).output s (periods.flatMap Period.events))
      (blocks promptChain ran periods) := by
  induction periods generalizing s ran q with
  | nil => exact Reads.nil q
  | cons period periods ih =>
    have hprompt : Clean (.prompt period.prompt) := hclean _ (by simp [Period.events])
    obtain ⟨hacts, hreadsActs⟩ := reads_acts promptChain false period.quiet
      (fun e he => hclean e (by simp [Period.events, he]))
    have hrest := ih (s := .entered (period.ran promptChain)) rfl
      (fun e he => hclean e (by rw [List.flatMap_cons]; exact List.mem_append_right _ he))
    have hstep : (bash promptChain).step s (.prompt period.prompt) = (.entered false,
        (if ran then osc (ascii "133;D;" ++ ascii (toString period.prompt.status.toNat)) else []) ++
          promptStart period.prompt) := by
      rw [← hran]
      rfl
    have hend : Reads q
        (if ran then osc (ascii "133;D;" ++ ascii (toString period.prompt.status.toNat)) else [])
        (if ran then [.commandEnd (some period.prompt.status.toNat)] else []) := by
      cases ran with
      | false => exact Reads.nil q
      | true => exact reads_commandEnd period.prompt.status q
    have hstream := ((hend.append (reads_promptStart hprompt)).append hreadsActs).append hrest
    rw [List.flatMap_cons, Period.events, List.cons_append, Transducer.output_cons, hstep,
      Transducer.output_append, hacts]
    rw [List.append_assoc _ ((bash promptChain).output _ _)] at hstream
    exact hstream

/-- A shell from its start on: what comes before the first prompt, and the periods. -/
structure Session where
  startup : List ShellEvent
  quiet : ∀ p, .prompt p ∉ startup
  periods : List Period

def Session.events (session : Session) : List ShellEvent :=
  session.startup ++ session.periods.flatMap Period.events

theorem not_mem_cons_quiet {e : ShellEvent} {acts : List ShellEvent} (he : ∀ p, e ≠ .prompt p)
    (hquiet : ∀ p, .prompt p ∉ acts) : ∀ p, .prompt p ∉ e :: acts := by
  intro p hp
  obtain hp | hp := List.mem_cons.1 hp
  · exact he p hp.symm
  · exact hquiet p hp

/-- Whatever happens in a shell is a session. -/
theorem exists_session (events : List ShellEvent) :
    ∃ session : Session, session.events = events := by
  induction events with
  | nil => exact ⟨⟨[], fun _ h => (List.not_mem_nil h).elim, []⟩, rfl⟩
  | cons e events ih =>
    obtain ⟨session, rfl⟩ := ih
    cases e with
    | prompt p =>
      let first : Period := ⟨p, session.startup, session.quiet⟩
      exact ⟨⟨[], fun _ h => (List.not_mem_nil h).elim, first :: session.periods⟩, rfl⟩
    | output bytes =>
      exact ⟨⟨.output bytes :: session.startup,
        not_mem_cons_quiet (fun _ h => by cases h) session.quiet, session.periods⟩, rfl⟩
    | debug command compLine =>
      exact ⟨⟨.debug command compLine :: session.startup,
        not_mem_cons_quiet (fun _ h => by cases h) session.quiet, session.periods⟩, rfl⟩

theorem output_events (session : Session) (hclean : ∀ e ∈ session.events, Clean e) :
    machine.output .new ((bash promptChain).output .sourced session.events) =
      blocks promptChain false session.periods := by
  have hstartup := reads_startup promptChain session.quiet
    fun e he => hclean e (List.mem_append_left _ he)
  have hperiods := reads_periods promptChain session.periods (s := .sourced) rfl
    fun e he => hclean e (List.mem_append_right _ he)
  have hread := ((hstartup.2 .new).append hperiods) rfl
  rw [Session.events, Transducer.output_append, hstartup.1]
  exact hread.2

end Session

/-! ## A pipeline -/

/-- The user completes a word and enters `ls | wc`. -/
def sampleActs : List ShellEvent :=
  [.debug "compgen -c" "l", .debug "ls" "", .output [0x61, 0x0a], .debug "wc" "", .output [0x31]]

def samplePrompt (status : UInt8) : Prompt := ⟨status, ascii "host", ascii "/tmp", ascii "main"⟩

theorem sampleActs_quiet : ∀ p, .prompt p ∉ sampleActs := by
  intro p
  simp [sampleActs]

theorem nil_quiet : ∀ p : Prompt, .prompt p ∉ ([] : List ShellEvent) := fun _ => List.not_mem_nil

theorem startup_quiet : ∀ p, .prompt p ∉ [ShellEvent.debug "umask 22" ""] := by
  intro p
  simp

def sampleSession : Session :=
  ⟨[.debug "umask 22" ""], startup_quiet, [⟨samplePrompt 0, sampleActs, sampleActs_quiet⟩,
    ⟨samplePrompt 1, [], nil_quiet⟩]⟩

theorem sampleSession_clean : ∀ e ∈ sampleSession.events, Clean e := by
  have hprompt : ∀ status, Clean (.prompt (samplePrompt status)) := by
    intro status
    have hbytes : 0x1b ∉ ascii "host" ∧ 0x1b ∉ ascii "/tmp" ∧ 0x1b ∉ ascii "main" := by
      decide +kernel
    exact hbytes
  intro e he
  simp only [Session.events, sampleSession, sampleActs, Period.events, List.flatMap_cons,
    List.flatMap_nil, List.cons_append, List.nil_append, List.append_nil, List.mem_cons,
    List.not_mem_nil, or_false] at he
  rcases he with rfl | rfl | rfl | rfl | rfl | rfl | rfl | rfl
  · trivial
  · exact hprompt 0
  · trivial
  · trivial
  · change _ ∉ _
    decide
  · trivial
  · change _ ∉ _
    decide
  · exact hprompt 1

def sampleStream : Bytes := (bash "").output .sourced sampleSession.events

end Tethra.ShellHooks
