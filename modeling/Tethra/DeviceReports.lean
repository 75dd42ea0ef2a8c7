import Mathlib.Data.Bool.AllAny
import Tethra.ShellInjection

set_option autoImplicit false

/-!
# Texts that no report pattern matches

When the removal of device reports leaves a text of the shell alone. The patterns also take
reports without any number in them, and those are texts of the shell.
-/
namespace Tethra.DeviceReports
open TextPatterns ShellInjection
open TextPatterns.Pattern (Occurs)
open ShellInjection.Pattern

/-- Numbers separated by semicolons. -/
def numbers : TextPattern :=
  .seq (.plus digit) (.many (.seq (lit ';') (.plus digit)))

def attributesReport : TextPattern :=
  .seq (.opt (.sym (isOneOf ['?', '>']))) (.seq numbers (lit 'c'))

def hexDigits : TextPattern := .plus hexDigit

def colorReport : TextPattern :=
  .seq (lit '1') (.seq (.sym (isOneOf ['0', '1', '2'])) (.seq (lit ';')
    (word ['r', 'g', 'b', ':'] (.seq hexDigits (.seq (lit '/') (.seq hexDigits
      (.seq (lit '/') hexDigits)))))))

/-- A device report without its ESC. -/
def report : TextPattern := .alt attributesReport colorReport

/-- Without control characters but TAB and LF, and without a device report. -/
structure ShellText where
  text : Text
  plain : ∀ u ∈ text, (0x20 ≤ u ∧ u ≠ 0x7f) ∨ u = TAB ∨ u = LF
  noReport : ¬ report.Occurs text

/-- A mark, digits and semicolons if any, and `c`; or a digit, a semicolon, digits if any, and
`c`. -/
def shortReport : TextPattern :=
  .alt (.seq (.sym (isOneOf ['?', '>'])) parametersC)
    (.seq digit (.seq (lit ';') (.seq (.many digit) (lit 'c'))))

/-! ## What the patterns take -/

theorem bareReport_of_short : ∀ w ∈ shortReport.language, w ∈ bareReport.language := by
  rintro w (hw | hw)
  · obtain ⟨x, ⟨u, hu, rfl⟩, y, hy, rfl⟩ := Pattern.mem_seq.1 hw
    have hmark : u = unit '?' ∨ u = unit '>' := by
      simpa [isOneOf] using hu
    obtain rfl | rfl := hmark
    · exact Or.inl (Pattern.mem_seq.2 ⟨_, ⟨unit '?', rfl, rfl⟩, y, hy, rfl⟩)
    · exact Or.inr (Or.inl (Pattern.mem_seq.2 ⟨_, ⟨unit '>', rfl, rfl⟩, y, hy, rfl⟩))
  · obtain ⟨x, hx, y, hy, rfl⟩ := Pattern.mem_seq.1 hw
    obtain ⟨semicolon, hsemicolon, z, hz, rfl⟩ := Pattern.mem_seq.1 hy
    have hnumber : x ++ semicolon ∈ numberSemicolon.language := by
      refine Pattern.mem_seq.2 ⟨x, Pattern.mem_seq.2 ⟨x, hx, [], ?_, List.append_nil x⟩,
        semicolon, hsemicolon, rfl⟩
      exact Pattern.nil_mem_many digit
    refine Or.inr (Or.inr (Pattern.mem_seq.2 ⟨x ++ semicolon, ?_, z, hz, List.append_assoc _ _ _⟩))
    exact Pattern.mem_seq.2 ⟨_, hnumber, [], Pattern.nil_mem_upTo 7 numberSemicolon,
      List.append_nil _⟩

/-- A number and its semicolon end in a digit and the semicolon. -/
theorem numberSemicolon_end {w : Text} (h : w ∈ numberSemicolon.language) :
    ∃ before d, isDigit d = true ∧ w = before ++ [d, unit ';'] := by
  obtain ⟨x, hx, y, ⟨u, hu, rfl⟩, rfl⟩ := Pattern.mem_seq.1 h
  obtain ⟨hne, hdigits⟩ := Pattern.mem_plus_sym.1 hx
  refine ⟨x.dropLast, x.getLast hne, hdigits _ (List.getLast_mem hne), ?_⟩
  rw [beq_iff_eq.1 hu]
  conv_lhs => rw [← List.dropLast_append_getLast hne]
  rw [List.append_assoc]
  rfl

/-- So do several of them in a row. -/
theorem numbers_end {first : Text} (hfirst : first ∈ numberSemicolon.language)
    {words : List Text} (hwords : ∀ w ∈ words, w ∈ numberSemicolon.language) :
    ∃ before d, isDigit d = true ∧ first ++ words.flatten = before ++ [d, unit ';'] := by
  cases words using List.reverseRecOn with
  | nil =>
    rw [List.flatten_nil, List.append_nil]
    exact numberSemicolon_end hfirst
  | append_singleton words last =>
    obtain ⟨before, d, hd, rfl⟩ := numberSemicolon_end
      (hwords last (List.mem_append_right _ (List.mem_singleton_self last)))
    refine ⟨first ++ words.flatten ++ before, d, hd, ?_⟩
    rw [List.flatten_append, List.flatten_singleton, List.append_assoc, List.append_assoc]

theorem short_of_bareReport : ∀ w ∈ bareReport.language, shortReport.Occurs w := by
  rintro w (hw | hw | hw)
  · refine Pattern.occurs_of_mem (Or.inl (Pattern.seq_mono ?_ (fun _ h => h) w hw))
    rintro x ⟨u, hu, rfl⟩
    exact ⟨u, by rw [beq_iff_eq.1 hu]; rfl, rfl⟩
  · refine Pattern.occurs_of_mem (Or.inl (Pattern.seq_mono ?_ (fun _ h => h) w hw))
    rintro x ⟨u, hu, rfl⟩
    exact ⟨u, by rw [beq_iff_eq.1 hu]; rfl, rfl⟩
  · obtain ⟨x, hx, y, hy, rfl⟩ := Pattern.mem_seq.1 hw
    obtain ⟨first, hfirst, rest, ⟨words, -, rfl, hwords⟩, rfl⟩ := Pattern.mem_seq.1 hx
    obtain ⟨before, d, hd, hend⟩ := numbers_end hfirst hwords
    refine ⟨before, [d] ++ ([unit ';'] ++ y), [], Or.inr ?_, ?_⟩
    · exact Pattern.mem_seq.2 ⟨[d], ⟨d, hd, rfl⟩, _,
        Pattern.mem_seq.2 ⟨[unit ';'], ⟨unit ';', rfl, rfl⟩, y, hy, rfl⟩, rfl⟩
    · rw [hend, List.append_nil, List.append_assoc]
      rfl

/-- The pattern occurs where a short report does. -/
theorem occurs_bare_iff (s : Text) : BARE_DA.Occurs s ↔ shortReport.Occurs s := by
  constructor
  · intro h
    refine h.mono fun w hw => ?_
    obtain ⟨x, hx, y, -, rfl⟩ := Pattern.mem_seq.1 hw
    obtain ⟨before, z, after, hz, rfl⟩ := short_of_bareReport x hx
    exact ⟨before, z, after ++ y, hz, List.append_assoc _ _ _⟩
  · intro h
    refine h.mono fun w hw => Pattern.occurs_of_mem ?_
    exact Pattern.mem_seq.2 ⟨w, bareReport_of_short w hw, [], Pattern.nil_mem_many bareReport,
      List.append_nil w⟩

theorem word_mono {r t : TextPattern} (h : ∀ w ∈ r.language, w ∈ t.language) (chars : List Char) :
    ∀ w ∈ (word chars r).language, w ∈ (word chars t).language := by
  induction chars with
  | nil => exact h
  | cons c chars ih => exact Pattern.seq_mono (fun _ h => h) ih

/-- A color pattern matches color reports only. -/
theorem report_of_bareColor : ∀ w ∈ BARE_OSC_RGB.language, w ∈ report.language := by
  have hgroup : ∀ w ∈ hexGroup.language, w ∈ hexDigits.language :=
    Pattern.seq_mono (fun _ h => h) fun _ h => Pattern.mem_many_of_upTo h
  have hgroups : ∀ w ∈ RGB.language, w ∈ (word ['r', 'g', 'b', ':'] (.seq hexDigits
      (.seq (lit '/') (.seq hexDigits (.seq (lit '/') hexDigits))))).language :=
    word_mono (Pattern.seq_mono hgroup (Pattern.seq_mono (fun _ h => h)
      (Pattern.seq_mono hgroup (Pattern.seq_mono (fun _ h => h) hgroup)))) _
  intro w hw
  exact Or.inr (Pattern.seq_mono (fun _ h => h) (Pattern.seq_mono (fun _ h => h)
    (Pattern.seq_mono (fun _ h => h) hgroups)) w hw)

/-! ## What stays -/

/-- A pattern that starts with a symbol the text does not have occurs nowhere. -/
theorem not_occurs_code {u : UInt16} {s : Text} (hu : u ∉ s) (r : TextPattern) :
    ¬ Occurs (.seq (code u) r) s := by
  have hstart : Pattern.StartsWith (· = u) (.seq (code u) r) :=
    (Pattern.startsWith_sym.mono fun a ha => beq_iff_eq.1 ha).seq r
  exact hstart.not_occurs fun a ha heq => hu (heq ▸ ha)

theorem not_occurs_sym {p : UInt16 → Bool} {s : Text} (h : ∀ a ∈ s, p a = false) :
    ¬ Occurs (.sym p) s :=
  Pattern.startsWith_sym.not_occurs fun a ha hp => by
    rw [h a ha] at hp
    cases hp

theorem remove_absent {u : UInt16} {s : Text} (hu : u ∉ s) (r : TextPattern) :
    remove (.seq (code u) r) s = s :=
  Pattern.replaceAll_of_not_occurs [] (not_occurs_code hu r)

theorem ShellText.absent (t : ShellText) {u : UInt16} (hu : u < 0x20) (htab : u ≠ TAB)
    (hlf : u ≠ LF) : u ∉ t.text := by
  intro h
  obtain ⟨hprinted, -⟩ | rfl | rfl := t.plain u h
  · exact absurd hprinted (UInt16.not_le.2 hu)
  · exact htab rfl
  · exact hlf rfl

theorem ShellText.not_control (t : ShellText) : ∀ u ∈ t.text, isControl u = false := by
  intro u h
  obtain hprinted | htab | hlf := t.plain u h
  · exact isControl_eq_false_iff.2 (Or.inl hprinted)
  · exact isControl_eq_false_iff.2 (Or.inr (Or.inl htab))
  · exact isControl_eq_false_iff.2 (Or.inr (Or.inr (Or.inl hlf)))

theorem proper_bare : Pattern.Proper BARE_DA := by
  intro h
  obtain ⟨x, hx, y, -, hxy⟩ := Pattern.mem_seq.1 h
  obtain ⟨before, z, after, hz, hs⟩ := short_of_bareReport x hx
  have hnil : z = [] := by
    have hx := (List.append_eq_nil_iff.1 hxy).1
    rw [hx] at hs
    exact (List.append_eq_nil_iff.1 (List.append_eq_nil_iff.1 hs.symm).1).2
  have hstart : Pattern.StartsWith (fun _ => True) shortReport :=
    ((Pattern.startsWith_sym.mono fun _ _ => trivial).seq _).alt
      ((Pattern.startsWith_sym.mono fun _ _ => trivial).seq _)
  exact hstart.proper (hnil ▸ hz)

theorem strip_eq (t : ShellText) : stripDeviceReports t.text = remove (code BEL)
    (remove BARE_OSC_RGB (remove BARE_DA t.text)) := by
  have hesc : ESC ∉ t.text := t.absent (by decide) (by decide) (by decide)
  unfold stripDeviceReports CSI_DA CSI_DA_SEC OSC_RGB
  rw [remove_absent hesc, remove_absent hesc, remove_absent hesc]

theorem sanitize_eq (t : ShellText) : sanitizeShellPayload t.text = stripDeviceReports t.text := by
  have hesc : ESC ∉ t.text := t.absent (by decide) (by decide) (by decide)
  have hcr : CR ∉ t.text := t.absent (by decide) (by decide) (by decide)
  have hnormal : normalizeNewlines t.text = t.text := by
    unfold normalizeNewlines CRLF
    rw [Pattern.replaceAll_of_not_occurs [LF] (not_occurs_code hcr _)]
    refine Pattern.replaceAll_of_not_occurs [LF] (not_occurs_sym fun u hu => ?_)
    exact beq_eq_false_iff_ne.2 fun heq => hcr (heq ▸ hu)
  have hsequences : stripSequences t.text = t.text := by
    unfold stripSequences csiSequence oscSequence stringSequence escapedUnit
    rw [remove_absent hesc, remove_absent hesc, remove_absent hesc, remove_absent hesc]
  have hcontrols : remove (.sym isControl) t.text = t.text :=
    Pattern.replaceAll_of_not_occurs [] (not_occurs_sym t.not_control)
  unfold sanitizeShellPayload
  rw [hnormal, hsequences, hcontrols]

theorem strip_of_not_short (t : ShellText) (h : ¬ shortReport.Occurs t.text) :
    stripDeviceReports t.text = t.text := by
  have hbel : BEL ∉ t.text := t.absent (by decide) (by decide) (by decide)
  have hattributes : remove BARE_DA t.text = t.text :=
    Pattern.replaceAll_of_not_occurs [] fun hbare => h ((occurs_bare_iff _).1 hbare)
  have hcolors : remove BARE_OSC_RGB t.text = t.text :=
    Pattern.replaceAll_of_not_occurs [] fun hcolor => t.noReport
      (hcolor.mono fun w hw => Pattern.occurs_of_mem (report_of_bareColor w hw))
  have hbell : remove (code BEL) t.text = t.text := by
    refine Pattern.replaceAll_of_not_occurs [] (not_occurs_sym fun u hu => ?_)
    exact beq_eq_false_iff_ne.2 fun heq => hbel (heq ▸ hu)
  rw [strip_eq, hattributes, hcolors, hbell]

/-- A short report is taken out. -/
theorem strip_shorter (t : ShellText) (h : shortReport.Occurs t.text) :
    (stripDeviceReports t.text).length < t.text.length := by
  have hbare : (remove BARE_DA t.text).length < t.text.length :=
    Pattern.removeFrom_shorter proper_bare (le_refl _) ((occurs_bare_iff _).2 h)
  rw [strip_eq]
  have hcolors := ((BARE_OSC_RGB).removeAll_sublist (remove BARE_DA t.text)).length_le
  have hbell := ((code BEL).removeAll_sublist (remove BARE_OSC_RGB (remove BARE_DA t.text))).length_le
  exact (hbell.trans hcolors).trans_lt hbare

/-- Both functions leave the text as it is. -/
def Unaltered (t : ShellText) : Prop :=
  stripDeviceReports t.text = t.text ∧ sanitizeShellPayload t.text = t.text

/-- A text of the shell is left alone just when it has no short report in it. -/
theorem unaltered_iff (t : ShellText) : Unaltered t ↔ ¬ shortReport.Occurs t.text := by
  constructor
  · intro h hshort
    have hlength := strip_shorter t hshort
    rw [h.1] at hlength
    exact lt_irrefl _ hlength
  · intro h
    exact ⟨strip_of_not_short t h, (sanitize_eq t).trans (strip_of_not_short t h)⟩

/-- `echo hi >c` -/
def sampleText : ShellText where
  text := ['e', 'c', 'h', 'o', ' ', '>', 'c'].map unit
  plain := List.all_iff_forall_prop.1 (by decide)
  noReport := by decide +kernel

/-- The redirection is taken out. -/
theorem unaltered_fails : ¬ ∀ t : ShellText, Unaltered t := by
  intro h
  have hstrip := (h sampleText).1
  revert hstrip
  decide +kernel

end Tethra.DeviceReports
