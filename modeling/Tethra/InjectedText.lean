import Mathlib.Data.Bool.AllAny
import Tethra.ShellInjection

set_option autoImplicit false

/-!
# Injected text cannot run itself

Whatever the text, what is sent of it holds no control that the shell would act on, and its
line feeds stand between paste markers.
-/
namespace Tethra.InjectedText
open TextPatterns ShellInjection

/-! ## What is left of a text -/

/-- A printed symbol, TAB or LF. -/
def Tame (u : UInt16) : Prop := 0x20 ≤ u ∨ u = TAB ∨ u = LF

theorem remove_sublist (r : Pattern UInt16) (data : Text) : (remove r data).Sublist data :=
  r.removeAll_sublist data

theorem stripDeviceReports_sublist (data : Text) : (stripDeviceReports data).Sublist data := by
  unfold stripDeviceReports
  refine (remove_sublist _ _).trans ((remove_sublist _ _).trans ((remove_sublist _ _).trans ?_))
  exact (remove_sublist _ _).trans ((remove_sublist _ _).trans (remove_sublist _ _))

theorem stripSequences_sublist (text : Text) : (stripSequences text).Sublist text := by
  unfold stripSequences
  refine (remove_sublist _ _).trans ((remove_sublist _ _).trans ?_)
  exact (remove_sublist _ _).trans (remove_sublist _ _)

theorem normalizeNewlines_noCR (text : Text) : CR ∉ normalizeNewlines text := by
  intro h
  unfold normalizeNewlines Pattern.code at h
  rw [Pattern.replaceAll_sym, List.mem_flatMap] at h
  obtain ⟨u, -, hu⟩ := h
  split at hu
  · exact absurd (List.mem_singleton.1 hu) (by decide)
  · rename_i hne
    rw [List.mem_singleton] at hu
    exact hne (by rw [← hu]; rfl)

/-- No control but TAB, LF and CR is left. -/
theorem removeControls_spec (text : Text) :
    ∀ u ∈ remove (.sym Pattern.isControl) text, Pattern.isControl u = false := by
  intro u hu
  unfold remove at hu
  rw [Pattern.replaceAll_sym, List.mem_flatMap] at hu
  obtain ⟨v, -, hv⟩ := hu
  split at hv
  · cases hv
  · rename_i hcontrol
    rw [List.mem_singleton.1 hv]
    exact Bool.eq_false_iff.2 hcontrol

theorem tame_of_not_control {u : UInt16} (hcontrol : Pattern.isControl u = false) (hcr : u ≠ CR) :
    Tame u := by
  obtain ⟨hprinted, -⟩ | htab | hlf | h := Pattern.isControl_eq_false_iff.1 hcontrol
  · exact Or.inl hprinted
  · exact Or.inr (Or.inl htab)
  · exact Or.inr (Or.inr hlf)
  · exact absurd h hcr

theorem sanitizeShellPayload_tame (text : Text) : ∀ u ∈ sanitizeShellPayload text, Tame u := by
  intro u hu
  unfold sanitizeShellPayload at hu
  have hcontrols := (stripDeviceReports_sublist _).subset hu
  refine tame_of_not_control (removeControls_spec _ u hcontrols) fun hcr => ?_
  have hnormal := (stripSequences_sublist _).subset ((remove_sublist _ _).subset hcontrols)
  exact normalizeNewlines_noCR text (hcr ▸ hnormal)

theorem trimNewlines_subset (text : Text) : trimNewlines text ⊆ text := by
  intro u hu
  unfold trimNewlines at hu
  rw [List.mem_reverse] at hu
  have hdropped := (List.dropWhile_sublist _).subset hu
  rw [List.mem_reverse] at hdropped
  exact (List.dropWhile_sublist _).subset hdropped

/-! ## The bytes of a text -/

theorem ofNat_value {n : ℕ} (h : n.isValidChar) : (Char.ofNat n).val.toNat = n := by
  unfold Char.ofNat
  rw [dif_pos h]
  rfl

theorem utf8EncodeChar_ascii {u : UInt16} (hu : u < 0x80) :
    String.utf8EncodeChar (Char.ofNat u.toNat) = [u.toUInt8] := by
  have hlt : u.toNat < 0x80 := UInt16.lt_iff_toNat_lt.1 hu
  have hvalid : u.toNat.isValidChar := Or.inl (by omega)
  unfold String.utf8EncodeChar
  rw [ofNat_value hvalid]
  dsimp only
  rw [if_pos (by omega)]
  rfl

theorem high_ofNat {n : ℕ} (h : 0x80 ≤ n) (h' : n < 0x100) : 0x80 ≤ UInt8.ofNat n := by
  rw [UInt8.le_iff_toNat_le, UInt8.toNat_ofNat']
  change 0x80 ≤ n % 256
  omega

/-- The bytes of a character above the ASCII ones are none of theirs. -/
theorem high_of_mem_utf8EncodeChar {c : Char} (hc : 0x80 ≤ c.val.toNat) {b : UInt8}
    (h : b ∈ String.utf8EncodeChar c) : 0x80 ≤ b := by
  unfold String.utf8EncodeChar at h
  dsimp only at h
  rw [if_neg (by omega)] at h
  split at h
  · simp only [List.mem_cons, List.not_mem_nil, or_false] at h
    rcases h with rfl | rfl <;> exact high_ofNat (by omega) (by omega)
  · split at h
    · simp only [List.mem_cons, List.not_mem_nil, or_false] at h
      rcases h with rfl | rfl | rfl <;> exact high_ofNat (by omega) (by omega)
    · simp only [List.mem_cons, List.not_mem_nil, or_false] at h
      rcases h with rfl | rfl | rfl | rfl <;> exact high_ofNat (by omega) (by omega)

theorem not_surrogate {u : UInt16} (hu : u < 0x80) :
    isHighSurrogate u = false ∧ isLowSurrogate u = false := by
  have hlt : u.toNat < 0x80 := UInt16.lt_iff_toNat_lt.1 hu
  unfold isHighSurrogate isLowSurrogate between
  simp only [Bool.and_eq_false_iff, decide_eq_false_iff_not, UInt16.le_iff_toNat_le,
    UInt16.reduceToNat]
  omega

theorem encode_ascii {u : UInt16} (hu : u < 0x80) (text : Text) :
    encode (u :: text) = u.toUInt8 :: encode text := by
  obtain ⟨hhigh, hlow⟩ := not_surrogate hu
  cases text with
  | nil => simp [encode, hhigh, hlow, utf8EncodeChar_ascii hu]
  | cons v text => simp [encode, hhigh, hlow, utf8EncodeChar_ascii hu]

theorem mem_replacementBytes {b : UInt8} (h : b ∈ replacementBytes) : 0x80 ≤ b := by
  have hall : ∀ b ∈ replacementBytes, 0x80 ≤ b := List.all_iff_forall_prop.1 (by decide)
  exact hall b h

theorem mem_pairBytes {high low : UInt16} (hhigh : isHighSurrogate high = true)
    (hlow : isLowSurrogate low = true) {b : UInt8} (h : b ∈ pairBytes high low) : 0x80 ≤ b := by
  simp only [isHighSurrogate, isLowSurrogate, between, Bool.and_eq_true, decide_eq_true_eq,
    UInt16.le_iff_toNat_le, UInt16.reduceToNat] at hhigh hlow
  refine high_of_mem_utf8EncodeChar ?_ h
  rw [ofNat_value (Or.inr ⟨by omega, by omega⟩)]
  omega

/-- A symbol that is half of no pair gives its own byte, or bytes above the ASCII ones. -/
theorem mem_single {u : UInt16} (hhigh : isHighSurrogate u = false) (hlow : isLowSurrogate u = false)
    {b : UInt8} (h : b ∈ String.utf8EncodeChar (Char.ofNat u.toNat)) :
    0x80 ≤ b ∨ u < 0x80 ∧ b = u.toUInt8 := by
  by_cases hu : u < 0x80
  · rw [utf8EncodeChar_ascii hu] at h
    exact Or.inr ⟨hu, List.mem_singleton.1 h⟩
  · simp only [isHighSurrogate, isLowSurrogate, between, Bool.and_eq_false_iff,
      decide_eq_false_iff_not, UInt16.le_iff_toNat_le, UInt16.lt_iff_toNat_lt,
      UInt16.reduceToNat] at hhigh hlow hu
    have hlt := u.toNat_lt
    refine Or.inl (high_of_mem_utf8EncodeChar ?_ h)
    rw [ofNat_value (by unfold Nat.isValidChar; omega)]
    omega

/-- An ASCII byte is one of the symbols of the text. -/
def StandsIn (text : Text) (b : UInt8) : Prop :=
  0x80 ≤ b ∨ ∃ u ∈ text, u < 0x80 ∧ b = u.toUInt8

theorem StandsIn.mono {part text : Text} {b : UInt8} (h : StandsIn part b) (hsub : part ⊆ text) :
    StandsIn text b :=
  h.imp_right fun ⟨u, hu, hrest⟩ => ⟨u, hsub hu, hrest⟩

theorem mem_encode {text : Text} {b : UInt8} (h : b ∈ encode text) : StandsIn text b := by
  fun_induction encode text with
  | case1 => cases h
  | case2 u hsurrogate => exact Or.inl (mem_replacementBytes h)
  | case3 u hsurrogate =>
    rw [Bool.or_eq_true, not_or, Bool.not_eq_true, Bool.not_eq_true] at hsurrogate
    refine (mem_single hsurrogate.1 hsurrogate.2 h).imp_right fun hu => ?_
    exact ⟨u, List.mem_cons_self, hu⟩
  | case4 u v text hhigh hlow ih =>
    obtain h | h := List.mem_append.1 h
    · exact Or.inl (mem_pairBytes hhigh hlow h)
    · exact (ih h).mono fun w hw => List.mem_cons_of_mem u (List.mem_cons_of_mem v hw)
  | case5 u v text hhigh hlow ih =>
    obtain h | h := List.mem_append.1 h
    · exact Or.inl (mem_replacementBytes h)
    · exact (ih h).mono (List.subset_cons_self u _)
  | case6 u v text hhigh hlow ih =>
    obtain h | h := List.mem_append.1 h
    · exact Or.inl (mem_replacementBytes h)
    · exact (ih h).mono (List.subset_cons_self u _)
  | case7 u v text hhigh hlow ih =>
    rw [Bool.not_eq_true] at hhigh hlow
    obtain h | h := List.mem_append.1 h
    · exact (mem_single hhigh hlow h).imp_right fun hu => ⟨u, List.mem_cons_self, hu⟩
    · exact (ih h).mono (List.subset_cons_self u _)

/-- An ASCII symbol does not touch what stands before it. -/
theorem encode_append {u : UInt16} (hu : u < 0x80) (a b : Text) :
    encode (a ++ u :: b) = encode a ++ encode (u :: b) := by
  obtain ⟨-, hulow⟩ := not_surrogate hu
  fun_induction encode a with
  | case1 => rfl
  | case2 w hsurrogate =>
    rw [List.singleton_append, encode]
    by_cases hhigh : isHighSurrogate w = true
    · rw [if_pos hhigh, if_neg (by rw [hulow]; exact Bool.false_ne_true)]
    · rw [if_neg hhigh, if_pos (by simpa [hhigh] using hsurrogate)]
  | case3 w hsurrogate =>
    rw [Bool.or_eq_true, not_or] at hsurrogate
    rw [List.singleton_append, encode, if_neg hsurrogate.1, if_neg hsurrogate.2]
  | case4 w v text hhigh hlow ih =>
    rw [List.cons_append, List.cons_append, encode, if_pos hhigh, if_pos hlow, ih,
      List.append_assoc]
  | case5 w v text hhigh hlow ih =>
    rw [List.cons_append] at ih
    rw [List.cons_append, List.cons_append, encode, if_pos hhigh, if_neg hlow, ih,
      List.append_assoc]
  | case6 w v text hhigh hlow ih =>
    rw [List.cons_append] at ih
    rw [List.cons_append, List.cons_append, encode, if_neg hhigh, if_pos hlow, ih,
      List.append_assoc]
  | case7 w v text hhigh hlow ih =>
    rw [List.cons_append] at ih
    rw [List.cons_append, List.cons_append, encode, if_neg hhigh, if_neg hlow, ih,
      List.append_assoc]

/-! ## What is sent -/

def OPEN : List UInt8 := [0x1b, 0x5b, 0x32, 0x30, 0x30, 0x7e]

def CLOSE : List UInt8 := [0x1b, 0x5b, 0x32, 0x30, 0x31, 0x7e]

/-- No control byte but TAB and LF. -/
def Quiet (bytes : List UInt8) : Prop := ∀ b ∈ bytes, 0x20 ≤ b ∨ b = 0x09 ∨ b = 0x0a

/-- Ctrl-U a number of times, and then quiet bytes: without a line feed, or between one opening
and one closing paste marker. -/
def Harmless (bytes : List UInt8) : Prop :=
  ∃ (kills : ℕ) (inner : List UInt8), Quiet inner ∧
    (bytes = List.replicate kills 0x15 ++ inner ∧ 0x0a ∉ inner ∨
      bytes = List.replicate kills 0x15 ++ OPEN ++ inner ++ CLOSE)

theorem quiet_encode {text : Text} (h : ∀ u ∈ text, Tame u) : Quiet (encode text) := by
  intro b hb
  obtain hhigh | ⟨u, hu, hlt, rfl⟩ := mem_encode hb
  · exact Or.inl (UInt8.le_trans (by decide) hhigh)
  · obtain htame | rfl | rfl := h u hu
    · refine Or.inl ?_
      rw [UInt16.lt_iff_toNat_lt] at hlt
      rw [UInt16.le_iff_toNat_le] at htame
      rw [UInt8.le_iff_toNat_le, UInt16.toNat_toUInt8]
      simp only [UInt16.reduceToNat, UInt8.reduceToNat] at hlt htame ⊢
      omega
    · exact Or.inr (Or.inl rfl)
    · exact Or.inr (Or.inr rfl)

theorem lf_not_mem_encode {text : Text} (h : LF ∉ text) : 0x0a ∉ encode text := by
  intro hb
  obtain hhigh | ⟨u, hu, hlt, hlf⟩ := mem_encode hb
  · exact absurd hhigh (by decide)
  · refine h ?_
    have heq : u = LF := by
      rw [UInt16.lt_iff_toNat_lt] at hlt
      rw [← UInt8.toNat_inj, UInt16.toNat_toUInt8] at hlf
      rw [← UInt16.toNat_inj]
      simp only [UInt16.reduceToNat, UInt8.reduceToNat, LF] at hlt hlf ⊢
      omega
    exact heq ▸ hu

theorem encode_ascii_append {a : Text} (ha : ∀ u ∈ a, u < 0x80) (b : Text) :
    encode (a ++ b) = a.map UInt16.toUInt8 ++ encode b := by
  induction a with
  | nil => rfl
  | cons u a ih =>
    rw [List.cons_append, encode_ascii (ha u List.mem_cons_self),
      ih fun v hv => ha v (List.mem_cons_of_mem u hv)]
    rfl

theorem encode_pasted (text : Text) :
    encode (pasteOpen ++ text ++ pasteClose) = OPEN ++ encode text ++ CLOSE := by
  have hclose : encode pasteClose = CLOSE := by
    have h := encode_ascii_append (show ∀ u ∈ pasteClose, u < 0x80 from
      List.all_iff_forall_prop.1 (by decide)) []
    rwa [List.append_nil] at h
  have happend : encode (text ++ pasteClose) = encode text ++ encode pasteClose :=
    encode_append (show ESC < 0x80 by decide) text _
  have hopen : ∀ u ∈ pasteOpen, u < 0x80 := List.all_iff_forall_prop.1 (by decide)
  rw [List.append_assoc, encode_ascii_append hopen, happend, hclose, List.append_assoc]
  rfl

theorem encode_payload {clean : Text} (h : ∀ u ∈ clean, Tame u) :
    ∃ inner, Quiet inner ∧ (encode (withBracketedPaste clean) = inner ∧ 0x0a ∉ inner ∨
      encode (withBracketedPaste clean) = OPEN ++ inner ++ CLOSE) := by
  refine ⟨encode clean, quiet_encode h, ?_⟩
  unfold withBracketedPaste
  by_cases hlf : clean.contains LF = true
  · rw [if_pos hlf]
    exact Or.inr (encode_pasted clean)
  · rw [if_neg hlf]
    refine Or.inl ⟨rfl, lf_not_mem_encode fun hmem => hlf ?_⟩
    exact List.contains_iff_mem.2 hmem

theorem Harmless.kills (n : ℕ) : Harmless (List.replicate n 0x15) :=
  ⟨n, [], fun b hb => (by cases hb), Or.inl ⟨(List.append_nil _).symm, List.not_mem_nil⟩⟩

theorem Harmless.payload {clean : Text} (h : ∀ u ∈ clean, Tame u) (n : ℕ) :
    Harmless (List.replicate n 0x15 ++ encode (withBracketedPaste clean)) := by
  obtain ⟨inner, hquiet, ⟨hinner, hlf⟩ | hpasted⟩ := encode_payload h
  · exact ⟨n, inner, hquiet, Or.inl ⟨by rw [hinner], hlf⟩⟩
  · refine ⟨n, inner, hquiet, Or.inr ?_⟩
    rw [hpasted, List.append_assoc, List.append_assoc, List.append_assoc]

/-- Without `run`, whatever the text and the options. -/
theorem injected_harmless (text : Text) (clearLine armGates : Option Bool) (accepted : Bool) :
    Harmless (injectShellText text false clearLine armGates accepted).flatten := by
  have htame : ∀ u ∈ trimNewlines (sanitizeShellPayload text), Tame u := fun u hu =>
    sanitizeShellPayload_tame text u (trimNewlines_subset _ hu)
  have hkill : ∀ body, encode (CTRL_U :: body) = 0x15 :: encode body := fun body =>
    encode_ascii (by decide) body
  unfold injectShellText
  simp only [Bool.false_eq_true, if_false, List.append_nil]
  split
  · exact Harmless.kills 0
  · split
    · split
      · have h := Harmless.payload htame 2
        simp only [List.replicate, List.cons_append, List.nil_append] at h
        simp only [hkill, List.flatten_cons, List.flatten_nil, List.append_nil, List.cons_append]
        exact h
      · simp only [hkill, List.flatten_cons, List.flatten_nil, List.append_nil]
        exact Harmless.kills 1
    · have h := Harmless.payload htame 0
      rw [List.replicate_zero, List.nil_append] at h
      rw [List.flatten_cons, List.flatten_nil, List.append_nil]
      exact h

end Tethra.InjectedText
