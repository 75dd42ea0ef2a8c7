import Mathlib.Data.Bool.AllAny
import Tethra.RustText
import Tethra.Trimming

set_option autoImplicit false

/-!
# Commands out of a model's replies

A reply is trimmed, its fence lines and the quotes at its ends are taken off. What a command
loses by this is its own quotes at its ends, and the carriage returns of its lines.
-/
namespace Tethra.CommandFences
open RustText Trimming

def startsWithFence (text : String) : Bool := "```".toList.isPrefixOf text.toList

def isQuote (c : Char) : Bool := c == '`' || c == '"' || c == '\''

/-- Without a first line that starts a fence. -/
def openLines (lines : List String) : List String :=
  if lines.head?.any startsWithFence then lines.tail else lines

/-- Without a last line that ends a fence. -/
def closeLines (lines : List String) : List String :=
  if lines.getLast?.any fun line => trim line = "```" then lines.dropLast else lines

def unfenced (text : String) : String :=
  if startsWithFence text then trim ("\n".intercalate (closeLines (openLines (lines text))))
  else text

def stripCommandFences (raw : String) : String :=
  trim (trimMatches isQuote (unfenced (trim raw)))

example : stripCommandFences "```bash\npwd\n```" = "pwd" := by decide +kernel

/-! ## Commands and replies -/

/-- The command alone on the lines of a fenced block. -/
def fenced (tag command : String) : String := "```" ++ tag ++ "\n" ++ command ++ "\n```"

def quotes : List Char := ['`', '"', '\'']

/-- Each quote and the backtick stand in it an even number of times. -/
def Balanced (text : List Char) : Prop := ∀ q ∈ quotes, Even (text.count q)

instance (text : List Char) : Decidable (Balanced text) :=
  List.decidableBAll (fun q => Even (text.count q)) quotes

/-- The command, or a block of it whose tag has no quotes. -/
inductive ReplyOf (command : String) : String → Prop
  | alone : ReplyOf command command
  | block {tag : String} : '\n' ∉ tag.toList → (∀ q ∈ quotes, q ∉ tag.toList) →
      ReplyOf command (fenced tag command)

/-- The command comes back, trimmed, from a reply that is the command or a block of it, and with
balanced quotes from a balanced one. -/
structure Kept (command : String) : Prop where
  alone : stripCommandFences command = trim command
  block : ∀ tag : String, '\n' ∉ tag.toList →
    stripCommandFences (fenced tag command) = trim command
  balanced : ∀ reply, ReplyOf command reply → Balanced reply.toList →
    Balanced (stripCommandFences reply).toList

/-- The command begins and ends with neither quote nor backtick, and no line of it ends in a
carriage return. -/
def Plain (command : String) : Prop :=
  Bare isQuote (trim command).toList ∧ containsText (trim command) "\r\n" = false

/-- The fence lines that are taken off a text. -/
def fenceLines (text : String) : List String :=
  if startsWithFence text then
    (if (lines text).head?.any startsWithFence then (lines text).take 1 else []) ++
      if (openLines (lines text)).getLast?.any fun line => trim line = "```" then
        (openLines (lines text)).getLast?.toList
      else []
  else []

/-- What is taken off a reply, without whitespace: its fence lines, and the quotes at the ends of
what they leave. -/
def removed (reply : String) : List Char :=
  (fenceLines (trim reply)).flatMap String.toList ++
    (lead isQuote (unfenced (trim reply)).toList ++ trail isQuote (unfenced (trim reply)).toList)

/-! ## Lines -/

/-- A line ends here; `final` says whether one does at the end of the text. -/
def atLineEnd (final : Bool) : List Char → Bool
  | [] => final
  | c :: _ => c == '\n'

/-- A text without the carriage returns at its line ends. -/
def dropCr (final : Bool) : List Char → List Char
  | [] => []
  | c :: rest =>
    if c = '\r' ∧ atLineEnd final rest = true then dropCr final rest else c :: dropCr final rest

theorem linesOf_concat (pieces : List (List Char)) (last : List Char) :
    linesOf (pieces ++ [last]) = pieces.map stripCr ++ if last.isEmpty then [] else [last] := by
  induction pieces with
  | nil => rfl
  | cons piece pieces ih =>
    rw [List.map_cons, List.cons_append, List.cons_append, ← ih]
    cases pieces <;> rfl

theorem stripCr_cons (c : Char) (line : List Char) :
    stripCr (c :: line) = if c = '\r' ∧ line = [] then [] else c :: stripCr line := by
  cases line with
  | nil =>
    by_cases hc : c = '\r'
    · simp [stripCr, hc]
    · simp [stripCr, hc]
  | cons d line =>
    rw [if_neg (by simp), stripCr, stripCr, List.getLast?_cons_cons]
    split <;> simp

theorem join_lines (text : List Char) :
    ['\n'].intercalate ((text.splitOn '\n').map stripCr) = dropCr true text := by
  induction text with
  | nil => rfl
  | cons c rest ih =>
    have hend : ∀ piece pieces, rest.splitOn '\n' = piece :: pieces →
        (piece = [] ↔ atLineEnd true rest = true) := by
      intro piece pieces h
      cases rest with
      | nil =>
        rw [List.splitOn_nil] at h
        cases h
        exact iff_of_true rfl rfl
      | cons d rest =>
        rw [List.splitOn_cons_eq_if_modifyHead] at h
        split at h
        · rename_i hd
          cases h
          exact iff_of_true rfl hd
        · rename_i hd
          refine iff_of_false ?_ hd
          rintro rfl
          cases hrest : rest.splitOn '\n' with
          | nil => exact List.splitOn_ne_nil _ _ hrest
          | cons first others =>
            rw [hrest] at h
            cases h
    rw [List.splitOn_cons_eq_if_modifyHead]
    cases hrest : rest.splitOn '\n' with
    | nil => exact (List.splitOn_ne_nil _ _ hrest).elim
    | cons piece pieces =>
      have hpiece := hend piece pieces hrest
      rw [hrest, List.map_cons] at ih
      split
      · rename_i hc
        obtain rfl := eq_of_beq hc
        rw [List.map_cons, List.map_cons, dropCr, if_neg (by simp), ← ih]
        rfl
      · rw [List.modifyHead_cons, List.map_cons, stripCr_cons, dropCr, ← ih]
        by_cases hcr : c = '\r' ∧ piece = []
        · rw [if_pos hcr, if_pos ⟨hcr.1, hpiece.1 hcr.2⟩, hcr.2]
          rfl
        · rw [if_neg hcr, if_neg fun h => hcr ⟨h.1, hpiece.2 h.2⟩]
          cases pieces <;> rfl

/-! ## Carriage returns at line ends -/

section DropCr
variable {final : Bool} {a b text : List Char} {c : Char}

theorem dropCr_sublist (final : Bool) (text : List Char) : (dropCr final text).Sublist text := by
  induction text with
  | nil => exact .slnil
  | cons c rest ih =>
    rw [dropCr]
    split
    · exact ih.cons c
    · exact ih.cons_cons c

theorem dropCr_append (final : Bool) (a b : List Char) :
    dropCr final (a ++ b) = dropCr (atLineEnd final b) a ++ dropCr final b := by
  induction a with
  | nil => rfl
  | cons c a ih =>
    have hend : atLineEnd final (a ++ b) = atLineEnd (atLineEnd final b) a := by
      cases a <;> rfl
    rw [List.cons_append, dropCr, dropCr, hend, ih]
    split <;> rfl

theorem dropCr_cons_of_ne (hc : c ≠ '\r') (final : Bool) (text : List Char) :
    dropCr final (c :: text) = c :: dropCr final text := by
  rw [dropCr, if_neg fun h => hc h.1]

/-- What ends a text whose last character is no carriage return does not matter. -/
theorem dropCr_concat (hc : c ≠ '\r') (final : Bool) (a : List Char) :
    dropCr final (a ++ [c]) = dropCr false (a ++ [c]) := by
  rw [dropCr_append, dropCr_append, dropCr_cons_of_ne hc, dropCr_cons_of_ne hc]
  rfl

theorem dropCr_eq_self_iff (text : List Char) :
    dropCr false text = text ↔ ¬ ['\r', '\n'] <:+: text := by
  induction text with
  | nil => simp [dropCr]
  | cons c rest ih =>
    have hpair : ['\r', '\n'] <+: c :: rest ↔ c = '\r' ∧ atLineEnd false rest = true := by
      cases rest with
      | nil => simp [atLineEnd]
      | cons d rest =>
        rw [List.cons_prefix_cons, List.cons_prefix_cons, atLineEnd, beq_iff_eq]
        exact ⟨fun h => ⟨h.1.symm, h.2.1.symm⟩, fun h => ⟨h.1.symm, h.2.symm, List.nil_prefix⟩⟩
    rw [List.infix_cons_iff, hpair, dropCr]
    by_cases hcr : c = '\r' ∧ atLineEnd false rest = true
    · rw [if_pos hcr]
      refine iff_of_false (fun h => ?_) (not_not.2 (Or.inl hcr))
      have hlength := (dropCr_sublist false rest).length_le
      rw [h, List.length_cons] at hlength
      omega
    · rw [if_neg hcr, List.cons.injEq, ih]
      simp [hcr]

end DropCr

/-! ## Trimmed texts -/

theorem toList_trim (s : String) : (trim s).toList = trimmed isWhitespace s.toList :=
  String.toList_ofList

theorem toList_trimMatches (p : Char → Bool) (s : String) :
    (trimMatches p s).toList = trimmed p s.toList := String.toList_ofList

theorem bare_trim (s : String) : Bare isWhitespace (trim s).toList := by
  rw [toList_trim]
  exact bare_trimmed _ _

/-- Whether the carriage returns at line ends go before the trimming or after it is the same. -/
theorem trimmed_dropCr (text : List Char) :
    trimmed isWhitespace (dropCr true text) = dropCr false (trimmed isWhitespace text) := by
  have hall := lead_trimmed_trail isWhitespace text
  have hbare := bare_trimmed isWhitespace text
  have hlead : ∀ final, ∀ c ∈ dropCr final (lead isWhitespace text), isWhitespace c = true :=
    fun final c hc => of_mem_lead ((dropCr_sublist _ _).mem hc)
  have htrail : ∀ c ∈ dropCr true (trail isWhitespace text), isWhitespace c = true :=
    fun c hc => of_mem_trail ((dropCr_sublist _ _).mem hc)
  generalize trimmed isWhitespace text = core at hall hbare ⊢
  have hne : ∀ c, isWhitespace c = false → c ≠ '\r' := by
    rintro c hc rfl
    cases hc
  rw [← hall, dropCr_append, dropCr_append]
  have hcore : ∀ final, dropCr final core = dropCr false core := by
    intro final
    induction core using List.reverseRecOn with
    | nil => rfl
    | append_singleton a c =>
      exact dropCr_concat (hne c (hbare.2 c (by simp))) final a
  rw [hcore]
  refine trimmed_append (hlead _) htrail ⟨fun c hc => ?_, fun c hc => ?_⟩
  · cases core with
    | nil => cases hc
    | cons d core =>
      have hd := hbare.1 d rfl
      rw [dropCr_cons_of_ne (hne d hd)] at hc
      cases hc
      exact hd
  · induction core using List.reverseRecOn with
    | nil => cases hc
    | append_singleton a d =>
      have hd := hbare.2 d (by simp)
      rw [dropCr_append, dropCr_cons_of_ne (hne d hd), dropCr, List.getLast?_concat] at hc
      cases hc
      exact hd

/-! ## A block of a command -/

theorem toList_fenced (tag command : String) : (fenced tag command).toList =
    ("```".toList ++ tag.toList) ++ '\n' :: (command.toList ++ '\n' :: "```".toList) := by
  simp [fenced, String.toList_append]

theorem trim_fenced (tag command : String) : trim (fenced tag command) = fenced tag command := by
  rw [← String.toList_inj, toList_trim, toList_fenced]
  apply trimmed_of_bare
  refine ⟨fun c hc => ?_, fun c hc => ?_⟩
  · cases hc
    rfl
  · have hlast : (("```".toList ++ tag.toList) ++
        '\n' :: (command.toList ++ '\n' :: "```".toList)).getLast? = some '`' := by
      have hshape : ("```".toList ++ tag.toList) ++
          '\n' :: (command.toList ++ '\n' :: "```".toList) =
          ("```".toList ++ tag.toList ++ '\n' :: (command.toList ++ ['\n', '`', '`'])) ++
            ['`'] := by
        simp
      rw [hshape, List.getLast?_concat]
    rw [hlast] at hc
    cases hc
    rfl

theorem lines_fenced {tag : String} (htag : '\n' ∉ tag.toList) (command : String) :
    lines (fenced tag command) = String.ofList (stripCr ("```".toList ++ tag.toList)) ::
      (((command.toList.splitOn '\n').map stripCr).map String.ofList ++ ["```"]) := by
  have hfirst : '\n' ∉ "```".toList ++ tag.toList := by
    rw [List.mem_append, not_or]
    exact ⟨by decide, htag⟩
  have hlast : "```".toList.splitOn '\n' = ["```".toList] :=
    List.splitOn_eq_singleton (by decide)
  rw [lines, toList_fenced, List.splitOn_append_cons_self_of_not_mem hfirst,
    List.splitOn_append_cons_self, hlast, ← List.cons_append, linesOf_concat]
  simp

theorem startsWithFence_of_toList {text : String} {rest : List Char}
    (h : text.toList = '`' :: '`' :: '`' :: rest) : startsWithFence text = true := by
  rw [startsWithFence, h]
  rfl

/-- The block's lines without its fences, put together and trimmed. -/
theorem unfenced_fenced {tag : String} (htag : '\n' ∉ tag.toList) (command : String) :
    (unfenced (fenced tag command)).toList = dropCr false (trim command).toList := by
  have hfirst : startsWithFence (String.ofList (stripCr ("```".toList ++ tag.toList))) = true := by
    refine @startsWithFence_of_toList _ (stripCr tag.toList) ?_
    rw [String.toList_ofList]
    change stripCr ('`' :: '`' :: '`' :: tag.toList) = _
    rw [stripCr_cons, stripCr_cons, stripCr_cons, if_neg (by simp), if_neg (by simp),
      if_neg (by simp)]
  have hopen : openLines (lines (fenced tag command)) =
      ((command.toList.splitOn '\n').map stripCr).map String.ofList ++ ["```"] := by
    rw [lines_fenced htag, openLines, List.head?_cons, Option.any_some, if_pos hfirst]
    rfl
  have hclose : ∀ inner : List String, closeLines (inner ++ ["```"]) = inner := by
    intro inner
    have hfence : trim "```" = "```" := by decide +kernel
    rw [closeLines, List.getLast?_concat, if_pos (by simp [hfence]), List.dropLast_concat]
  have hfence : startsWithFence (fenced tag command) = true :=
    startsWithFence_of_toList (toList_fenced tag command)
  rw [unfenced, if_pos hfence, hopen, hclose, toList_trim, String.toList_intercalate,
    List.map_map]
  have hid : (String.toList ∘ String.ofList) = id := funext fun l => String.toList_ofList
  rw [hid, List.map_id]
  change trimmed isWhitespace (['\n'].intercalate _) = _
  rw [join_lines, trimmed_dropCr, toList_trim]

/-! ## Quotes of a reply -/

section Quotes
variable {q : Char}

theorem not_whitespace_of_mem (h : q ∈ quotes) : isWhitespace q = false := by
  have hall : ∀ q ∈ quotes, isWhitespace q = false := List.all_iff_forall_prop.1 (by decide)
  exact hall q h

/-- Trimming off what is no quote leaves the quotes. -/
theorem count_trimmed {p : Char → Bool} (hq : p q = false) (text : List Char) :
    (trimmed p text).count q = text.count q := by
  have hlead : (lead p text).count q = 0 :=
    List.count_eq_zero.2 fun h => Bool.false_ne_true (hq.symm.trans (of_mem_lead h))
  have htrail : (trail p text).count q = 0 :=
    List.count_eq_zero.2 fun h => Bool.false_ne_true (hq.symm.trans (of_mem_trail h))
  have hall := congrArg (List.count q) (lead_trimmed_trail p text)
  rw [List.count_append, List.count_append, hlead, htrail] at hall
  omega

theorem count_trim (h : q ∈ quotes) (s : String) : (trim s).toList.count q = s.toList.count q := by
  rw [toList_trim, count_trimmed (not_whitespace_of_mem h)]

theorem count_stripCr (hq : q ≠ '\r') (line : List Char) :
    (stripCr line).count q = line.count q := by
  induction line with
  | nil => rfl
  | cons c line ih =>
    rw [stripCr_cons]
    split
    · rename_i hc
      rw [hc.1, hc.2, List.count_cons_of_ne (Ne.symm hq)]
    · rw [List.count_cons, List.count_cons, ih]

theorem count_intercalate {sep : Char} (hq : q ≠ sep) (pieces : List (List Char)) :
    ([sep].intercalate pieces).count q = pieces.flatten.count q := by
  induction pieces with
  | nil => rfl
  | cons piece pieces ih =>
    cases pieces with
    | nil => simp
    | cons next pieces =>
      rw [List.intercalate_cons_cons, List.count_append, List.count_append, ih,
        List.count_singleton, if_neg (by simpa using Ne.symm hq)]
      simp only [List.flatten_cons, List.count_append]
      omega

theorem count_linesOf (hq : q ≠ '\r') (pieces : List (List Char)) :
    (linesOf pieces).flatten.count q = pieces.flatten.count q := by
  induction pieces with
  | nil => rfl
  | cons piece pieces ih =>
    cases pieces with
    | nil =>
      cases piece with
      | nil => rfl
      | cons c piece => rfl
    | cons next pieces =>
      rw [linesOf, List.flatten_cons, List.count_append, ih, count_stripCr hq, ← List.count_append]
      rfl

theorem count_lines (h : q ∈ quotes) (text : String) :
    ((lines text).flatMap String.toList).count q = text.toList.count q := by
  have hn : q ≠ '\n' := by
    rintro rfl
    revert h
    decide
  have hr : q ≠ '\r' := by
    rintro rfl
    revert h
    decide
  have hid : (String.toList ∘ String.ofList) = id := funext fun l => String.toList_ofList
  rw [lines, List.flatMap_map, List.flatMap_def]
  change ((linesOf (text.toList.splitOn '\n')).map
    (String.toList ∘ String.ofList)).flatten.count q = _
  rw [hid, List.map_id, count_linesOf hr, ← count_intercalate hn, List.intercalate_splitOn]

theorem count_closeLines (opened : List String) :
    (opened.flatMap String.toList).count q = ((closeLines opened).flatMap String.toList).count q +
      ((if opened.getLast?.any fun line => trim line = "```" then opened.getLast?.toList
        else []).flatMap String.toList).count q := by
  unfold closeLines
  split
  · induction opened using List.reverseRecOn with
    | nil => rfl
    | append_singleton opened last =>
      rw [List.dropLast_concat, List.getLast?_concat, List.flatMap_append, List.count_append]
      rfl
  · rfl

theorem count_openLines (all : List String) :
    (all.flatMap String.toList).count q = ((openLines all).flatMap String.toList).count q +
      ((if all.head?.any startsWithFence then all.take 1 else []).flatMap
        String.toList).count q := by
  unfold openLines
  split
  · cases all with
    | nil => rfl
    | cons first all =>
      change _ = (all.flatMap String.toList).count q + ([first].flatMap String.toList).count q
      rw [List.flatMap_cons, List.count_append, List.flatMap_singleton, Nat.add_comm]
  · rfl

/-- Every quote of a text is in a fence line or in what the fence lines leave. -/
theorem count_unfenced (h : q ∈ quotes) (text : String) : text.toList.count q =
    (unfenced text).toList.count q + ((fenceLines text).flatMap String.toList).count q := by
  have hn : q ≠ '\n' := by
    rintro rfl
    revert h
    decide
  unfold unfenced fenceLines
  split
  · rw [count_trim h, String.toList_intercalate]
    change _ = (['\n'].intercalate _).count q + _
    rw [count_intercalate hn, ← List.flatMap_def, ← count_lines h, count_openLines,
      count_closeLines, List.flatMap_append, List.count_append]
    omega
  · rfl

/-- Every quote of a reply is in the command or has been taken off. -/
theorem count_strip (h : q ∈ quotes) (reply : String) : reply.toList.count q =
    (stripCommandFences reply).toList.count q + (removed reply).count q := by
  have hbody := congrArg (List.count q)
    (lead_trimmed_trail isQuote (unfenced (trim reply)).toList)
  simp only [List.count_append] at hbody
  rw [← count_trim h reply, count_unfenced h, stripCommandFences, count_trim h,
    toList_trimMatches, removed, List.count_append, List.count_append]
  omega

end Quotes

/-! ## Commands that are kept -/

theorem strip_fenced {tag : String} (htag : '\n' ∉ tag.toList) (command : String) :
    (stripCommandFences (fenced tag command)).toList =
      trimmed isWhitespace (trimmed isQuote (dropCr false (trim command).toList)) := by
  rw [stripCommandFences, trim_fenced, toList_trim, toList_trimMatches, unfenced_fenced htag]

theorem plain_iff (command : String) : Plain command ↔ Bare isQuote (trim command).toList ∧
    dropCr false (trim command).toList = (trim command).toList := by
  rw [Plain, dropCr_eq_self_iff, containsText, decide_eq_false_iff_not]
  rfl

theorem strip_of_plain {command : String} (h : Plain command) :
    stripCommandFences command = trim command := by
  have hfence : startsWithFence (trim command) = false := by
    by_contra hfence
    rw [Bool.not_eq_false, startsWithFence, List.isPrefixOf_iff_prefix] at hfence
    obtain ⟨rest, hrest⟩ := hfence
    have hhead := h.1.1 '`' (by rw [← hrest]; rfl)
    cases hhead
  rw [stripCommandFences, unfenced, if_neg (by rw [hfence]; exact Bool.false_ne_true),
    ← String.toList_inj, toList_trim, toList_trimMatches, trimmed_of_bare h.1,
    trimmed_of_bare (bare_trim command)]

theorem strip_fenced_of_plain {tag command : String} (htag : '\n' ∉ tag.toList)
    (h : Plain command) : stripCommandFences (fenced tag command) = trim command := by
  obtain ⟨hbare, hcr⟩ := (plain_iff command).1 h
  rw [← String.toList_inj, strip_fenced htag, hcr, trimmed_of_bare hbare,
    trimmed_of_bare (bare_trim command)]

/-- A command that comes back from its block is plain: each step takes off or leaves. -/
theorem plain_of_strip_fenced {command : String}
    (h : stripCommandFences (fenced "" command) = trim command) : Plain command := by
  rw [← String.toList_inj, strip_fenced (by simp)] at h
  have hcr := (dropCr_sublist false (trim command).toList).length_le
  have hquote := length_trimmed_le isQuote (dropCr false (trim command).toList)
  have hspace := length_trimmed_le isWhitespace
    (trimmed isQuote (dropCr false (trim command).toList))
  rw [h] at hspace
  have hkept : dropCr false (trim command).toList = (trim command).toList :=
    (dropCr_sublist _ _).eq_of_length_le (by omega)
  rw [plain_iff]
  refine ⟨trimmed_eq_self_iff.1 (trimmed_of_length ?_), hkept⟩
  rw [hkept] at hspace
  exact hspace

theorem balanced_of_plain {command reply : String} (h : Plain command)
    (hreply : ReplyOf command reply) (hbalanced : Balanced reply.toList) :
    Balanced (stripCommandFences reply).toList := by
  intro q hq
  have heven := hbalanced q hq
  cases hreply with
  | alone =>
    rw [strip_of_plain h, count_trim hq]
    exact heven
  | @block tag htag hunquoted =>
    rw [strip_fenced_of_plain htag h, count_trim hq]
    have hn : q ≠ '\n' := by
      rintro rfl
      revert hq
      decide
    have htagq : tag.toList.count q = 0 := List.count_eq_zero.2 (hunquoted q hq)
    rw [toList_fenced] at heven
    simp only [List.count_append, List.count_cons_of_ne (Ne.symm hn), htagq] at heven
    obtain ⟨half, hhalf⟩ := heven
    exact ⟨half - "```".toList.count q, by omega⟩

/-- A command is kept exactly when it is plain. A balanced reply, of whatever form, gives a
balanced command exactly when what is taken off it is balanced. -/
theorem command_kept_iff (command reply : String) : (Kept command ↔ Plain command) ∧
    (Balanced reply.toList →
      (Balanced (stripCommandFences reply).toList ↔ Balanced (removed reply))) := by
  refine ⟨⟨fun h => plain_of_strip_fenced (h.block "" (by simp)), fun h =>
    ⟨strip_of_plain h, fun tag htag => strip_fenced_of_plain htag h, fun reply hreply hbalanced =>
      balanced_of_plain h hreply hbalanced⟩⟩, fun hbalanced => ?_⟩
  refine forall₂_congr fun q hq => ?_
  have heven := hbalanced q hq
  rw [count_strip hq, Nat.even_add] at heven
  exact heven

theorem kept_sample : Kept "grep \"a b\" notes" ∧
    ¬ Balanced (stripCommandFences "echo \"hi\"").toList := by
  refine ⟨(command_kept_iff _ "").1.2 ⟨⟨fun c hc => ?_, fun c hc => ?_⟩, by decide +kernel⟩, ?_⟩
  · have hhead : (trim "grep \"a b\" notes").toList.head? = some 'g' := by decide +kernel
    cases hhead.symm.trans hc
    rfl
  · have hlast : (trim "grep \"a b\" notes").toList.getLast? = some 's' := by decide +kernel
    cases hlast.symm.trans hc
    rfl
  · rw [(command_kept_iff "" _).2 (by decide +kernel)]
    decide +kernel

/-! ## A command that ends in a quote -/

/-- The command is, as a whole, within a fence or within one pair of quotes or backticks. -/
inductive Wrapped (command : String) : Prop
  | fence (inner : List Char) : (trim command).toList = "```".toList ++ inner ++ "```".toList →
      Wrapped command
  | pair (q : Char) (inner : List Char) : q ∈ quotes → q ∉ inner →
      (trim command).toList = q :: inner ++ [q] → Wrapped command

theorem kept_fails : ¬ ∀ command : String, command ≠ "" → ¬ Wrapped command → Kept command := by
  intro hall
  have htrim : trim "echo \"hi\"" = "echo \"hi\"" := by decide +kernel
  have hunwrapped : ¬ Wrapped "echo \"hi\"" := by
    rintro (⟨inner, h⟩ | ⟨q, inner, hq, -, h⟩)
    · rw [htrim] at h
      cases h
    · rw [htrim] at h
      have hhead := (List.cons.inj h).1
      subst hhead
      revert hq
      decide
  have hstrip : stripCommandFences "echo \"hi\"" = "echo \"hi" := by decide +kernel
  have hkept := (hall _ (by decide) hunwrapped).alone
  rw [hstrip, htrim] at hkept
  revert hkept
  decide

end Tethra.CommandFences
