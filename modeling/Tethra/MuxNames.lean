import Mathlib.Data.Bool.AllAny
import Tethra.RunningSessions
import Tethra.SecretFleets
import Tethra.ShellInjection
import Tethra.Trimming

set_option autoImplicit false

/-!
# Session names of projects

The name of a project's session, in Rust and in TypeScript, and the check that a name passes
before it is used. The name keeps 24 characters of the identifier, which are ten of its bytes.
-/
namespace Tethra.MuxNames
open AuthenticatedEncryption RunningSessions ShellInjection TextPatterns VaultTypes

/-- The code units of an ASCII text. -/
def units (text : String) : Text := text.toList.map unit

/-- `[^A-Za-z0-9_-]` -/
def notNameUnit (u : UInt16) : Bool :=
  !(between 0x41 0x5a u || between 0x61 0x7a u || ShellInjection.isDigit u ||
    u == unit '_' || u == unit '-')

/-- `muxSessionName` of the launcher. -/
def muxSessionNameTs (projectId : Text) : Text :=
  let cleaned := Pattern.replaceAll (.sym notNameUnit) [] projectId
  units "tethra-" ++ cleaned.take 24

/-- Alphanumeric ASCII, hyphens, underscores and dots. -/
def isNameChar (c : Char) : Bool := (c.toNat < 128 && c.isAlphanum) || c == '-' || c == '_' || c == '.'

/-- What `open_terminal` makes of the name it is given. -/
def checkSessionName (muxSession : Option String) : Except String (Option String) :=
  match muxSession.map RustText.trim with
  | some name =>
    if name.isEmpty then .ok none
    else if name.utf8ByteSize > 64 ∨ ¬ name.toList.all isNameChar then .error "invalid session name"
    else .ok (some name)
  | none => .ok none

/-! ## The characters of an identifier -/

theorem hexChar_of_mem {id : Uuid} {c : Char} (h : c ∈ id.display.toList) :
    c ∈ "0123456789abcdef-".toList := by
  have hhex : ∀ b : UInt8, ∀ c ∈ hexByte b, c ∈ "0123456789abcdef-".toList := by
    have hall : ∀ n < 16, Nat.digitChar n ∈ "0123456789abcdef-".toList := by decide
    intro b c hc
    have hb := b.toNat_lt
    simp only [hexByte, List.mem_cons, List.not_mem_nil, or_false] at hc
    obtain rfl | rfl := hc
    · exact hall _ (by omega)
    · exact hall _ (by omega)
  have hgroup : ∀ i j, c ∈ ((id.asBytes.1.flatMap hexByte).take j).drop i →
      c ∈ "0123456789abcdef-".toList := by
    intro i j hc
    obtain ⟨b, -, hb⟩ := List.mem_flatMap.1 (List.mem_of_mem_take (List.mem_of_mem_drop hc))
    exact hhex b c hb
  unfold Uuid.display at h
  rw [String.toList_ofList] at h
  simp only [List.mem_append, List.mem_cons] at h
  rcases h with ((((h | rfl | h) | rfl | h) | rfl | h) | rfl | h)
  all_goals first | exact hgroup _ _ h | decide

theorem filter_display (id : Uuid) : id.display.toList.filter isMuxChar = id.display.toList := by
  have hall : ∀ c ∈ "0123456789abcdef-".toList, isMuxChar c = true :=
    List.all_iff_forall_prop.1 (by decide)
  exact List.filter_eq_self.2 fun c hc => hall c (hexChar_of_mem hc)

theorem name_eq (id : Uuid) :
    (muxSessionName id).toList = "tethra-".toList ++ id.display.toList.take 24 := by
  unfold muxSessionName
  rw [filter_display, String.toList_append]
  exact congrArg (_ ++ ·) String.toList_ofList

/-- The two implementations agree. -/
theorem ts_eq_rust (id : Uuid) :
    muxSessionNameTs (units id.display) = units (muxSessionName id) := by
  have hkept : ∀ c ∈ "0123456789abcdef-".toList, notNameUnit (unit c) = false :=
    List.all_iff_forall_prop.1 (by decide)
  have hcleaned : Pattern.replaceAll (.sym notNameUnit) [] (units id.display) = units id.display := by
    refine Pattern.replaceAll_of_not_occurs [] (Pattern.startsWith_sym.not_occurs fun u hu => ?_)
    obtain ⟨c, hc, rfl⟩ := List.mem_map.1 hu
    rw [hkept c (hexChar_of_mem hc)]
    exact Bool.false_ne_true
  unfold muxSessionNameTs
  rw [hcleaned, units, units, units, name_eq, List.map_append, List.map_take]

/-! ## What the name keeps -/

/-- The ten bytes that the name shows. -/
def shown (id : Uuid) : List UInt8 := id.asBytes.1.take 10

theorem length_hex (bytes : Bytes) : (bytes.flatMap hexByte).length = 2 * bytes.length := by
  induction bytes with
  | nil => rfl
  | cons b bytes ih =>
    rw [List.flatMap_cons, List.length_append, ih]
    change 2 + _ = _
    rw [List.length_cons]
    omega

theorem take_hex (bytes : Bytes) (n : ℕ) :
    (bytes.flatMap hexByte).take (2 * n) = (bytes.take n).flatMap hexByte := by
  induction bytes generalizing n with
  | nil => simp
  | cons b bytes ih =>
    cases n with
    | zero => rfl
    | succ n =>
      rw [List.flatMap_cons, List.take_succ_cons, List.flatMap_cons, ← ih n]
      rfl

/-- Four groups and four hyphens. -/
def front (hex : List Char) : List Char :=
  hex.take 8 ++ '-' :: ((hex.take 12).drop 8 ++ '-' :: ((hex.take 16).drop 12 ++
    '-' :: ((hex.take 20).drop 16 ++ ['-'])))

theorem take_display (id : Uuid) : id.display.toList.take 24 = front (id.asBytes.1.flatMap hexByte) := by
  have hlength : (id.asBytes.1.flatMap hexByte).length = 32 := by
    rw [length_hex, id.asBytes.2]
  generalize hhex : id.asBytes.1.flatMap hexByte = hex at hlength
  have hdisplay : id.display.toList = front hex ++ (hex.take 32).drop 20 := by
    unfold Uuid.display front
    rw [String.toList_ofList, hhex]
    simp
  have hfront : (front hex).length = 24 := by
    unfold front
    simp [hlength]
  rw [hdisplay, ← hfront, List.take_left]

theorem front_take (hex : List Char) : front (hex.take 20) = front hex := by
  unfold front
  simp [List.take_take]

/-- Without the hyphens the front is the digits. -/
theorem filter_front {hex : List Char} (h : '-' ∉ hex) (hlength : 20 ≤ hex.length) :
    (front hex).filter (· ≠ '-') = hex.take 20 := by
  rw [← front_take]
  have hpart : '-' ∉ hex.take 20 := fun hmem => h (List.mem_of_mem_take hmem)
  have htwenty : (hex.take 20).length = 20 := by
    rw [List.length_take]
    omega
  generalize hex.take 20 = part at hpart htwenty
  have hkeep : ∀ i j, ((part.take j).drop i).filter (· ≠ '-') = (part.take j).drop i := by
    intro i j
    refine List.filter_eq_self.2 fun c hc => decide_eq_true fun hhyphen => hpart ?_
    exact hhyphen ▸ List.mem_of_mem_take (List.mem_of_mem_drop hc)
  have hlast : (part.take 20).drop 16 = part.drop 16 := by
    rw [← htwenty, List.take_length]
  have hfirst : part.take 8 = (part.take 8).drop 0 := rfl
  unfold front
  rw [hfirst]
  simp only [List.filter_append, List.filter_cons, hkeep]
  simp only [ne_eq, not_true_eq_false, decide_false, Bool.false_eq_true, if_false,
    List.filter_nil, List.append_nil, hlast]
  rw [SecretFleets.slice_append_drop part (by omega) (by omega),
    SecretFleets.slice_append_drop part (by omega) (by omega),
    SecretFleets.slice_append_drop part (by omega) (by omega)]
  rfl

theorem hyphen_not_mem (bytes : Bytes) : '-' ∉ bytes.flatMap hexByte := by
  intro h
  obtain ⟨b, -, hb⟩ := List.mem_flatMap.1 h
  exact SecretFleets.hexByte_ne_hyphen b '-' hb rfl

/-- Two identifiers have one name if their first ten bytes are the same. -/
theorem name_eq_iff (a b : Uuid) : muxSessionName a = muxSessionName b ↔ shown a = shown b := by
  have hnames : muxSessionName a = muxSessionName b ↔
      front (a.asBytes.1.flatMap hexByte) = front (b.asBytes.1.flatMap hexByte) := by
    rw [← String.toList_inj, name_eq, name_eq, List.append_cancel_left_eq, take_display,
      take_display]
  have hdigits : ∀ id : Uuid, (front (id.asBytes.1.flatMap hexByte)).filter (· ≠ '-') =
      (shown id).flatMap hexByte := by
    intro id
    rw [filter_front (hyphen_not_mem _) (by rw [length_hex, id.asBytes.2]; decide)]
    exact take_hex _ 10
  rw [hnames]
  constructor
  · intro h
    have hhex : (shown a).flatMap hexByte = (shown b).flatMap hexByte := by
      rw [← hdigits, ← hdigits, h]
    rw [← SecretFleets.unhex_flatMap (shown a), hhex, SecretFleets.unhex_flatMap]
  · intro h
    have htake : ∀ id : Uuid, (id.asBytes.1.flatMap hexByte).take 20 = (shown id).flatMap hexByte :=
      fun id => take_hex _ 10
    rw [← front_take, htake, h, ← htake, front_take]

/-! ## The check -/

theorem nameChar_of_mem {id : Uuid} {c : Char} (h : c ∈ (muxSessionName id).toList) :
    c ∈ "tethra-0123456789abcdef".toList := by
  rw [name_eq] at h
  obtain h | h := List.mem_append.1 h
  · have hall : ∀ c ∈ "tethra-".toList, c ∈ "tethra-0123456789abcdef".toList :=
      List.all_iff_forall_prop.1 (by decide)
    exact hall c h
  · have hall : ∀ c ∈ "0123456789abcdef-".toList, c ∈ "tethra-0123456789abcdef".toList :=
      List.all_iff_forall_prop.1 (by decide)
    exact hall c (hexChar_of_mem (List.mem_of_mem_take h))

theorem trim_of_not_whitespace {s : String} (h : ∀ c ∈ s.toList, RustText.isWhitespace c = false) :
    RustText.trim s = s := by
  have hbare : Trimming.Bare RustText.isWhitespace s.toList :=
    ⟨fun c hc => h c (List.mem_of_mem_head? hc), fun c hc => h c (List.mem_of_getLast? hc)⟩
  change String.ofList (Trimming.trimmed RustText.isWhitespace s.toList) = s
  rw [Trimming.trimmed_of_bare hbare, String.ofList_toList]

theorem utf8ByteSize_ascii {s : String} (h : ∀ c ∈ s.toList, c.utf8Size = 1) :
    s.utf8ByteSize = s.toList.length := by
  obtain ⟨chars, rfl⟩ := s.exists_eq_ofList
  rw [String.toList_ofList] at h ⊢
  have hbytes : (chars.flatMap String.utf8EncodeChar).length = chars.length := by
    induction chars with
    | nil => rfl
    | cons c chars ih =>
      rw [List.flatMap_cons, List.length_append, String.length_utf8EncodeChar,
        h c List.mem_cons_self, ih fun d hd => h d (List.mem_cons_of_mem c hd), List.length_cons]
      omega
  change (String.ofList chars).toByteArray.size = _
  rw [String.toByteArray_ofList, List.utf8Encode, List.size_toByteArray, hbytes]

/-- The name is accepted as it is. -/
theorem check_name (id : Uuid) :
    checkSessionName (some (muxSessionName id)) = .ok (some (muxSessionName id)) := by
  have hall : ∀ c ∈ "tethra-0123456789abcdef".toList,
      RustText.isWhitespace c = false ∧ c.utf8Size = 1 ∧ isNameChar c = true :=
    List.all_iff_forall_prop.1 (by decide)
  have hname : ∀ c ∈ (muxSessionName id).toList,
      RustText.isWhitespace c = false ∧ c.utf8Size = 1 ∧ isNameChar c = true := fun c hc =>
    hall c (nameChar_of_mem hc)
  have hlength : (muxSessionName id).toList.length ≤ 64 := by
    rw [name_eq, List.length_append]
    refine (Nat.add_le_add_left (List.length_take_le 24 _) _).trans ?_
    decide
  have hempty : (muxSessionName id).isEmpty = false := by
    rw [Bool.eq_false_iff, ne_eq, String.isEmpty_iff]
    intro h
    have htoList := congrArg String.toList h
    rw [name_eq] at htoList
    cases htoList
  unfold checkSessionName
  rw [Option.map_some, trim_of_not_whitespace fun c hc => (hname c hc).1]
  dsimp only
  rw [hempty, if_neg Bool.false_ne_true, if_neg]
  rw [utf8ByteSize_ascii fun c hc => (hname c hc).2.1, not_or, not_not]
  exact ⟨by omega, List.all_eq_true.2 fun c hc => (hname c hc).2.2⟩

/-! ## Two projects -/

/-- Both names are the same in both languages and pass the check, and no two projects share
one. -/
structure Named (a b : Uuid) : Prop where
  same : ∀ id ∈ [a, b], muxSessionNameTs (units id.display) = units (muxSessionName id)
  passes : ∀ id ∈ [a, b], checkSessionName (some (muxSessionName id)) = .ok (some (muxSessionName id))
  apart : a ≠ b → muxSessionName a ≠ muxSessionName b

/-- Two projects are told apart just when their identifiers differ in the first ten bytes. -/
theorem named_iff (a b : Uuid) : Named a b ↔ (a ≠ b → shown a ≠ shown b) := by
  constructor
  · intro h hab hshown
    exact h.apart hab ((name_eq_iff a b).2 hshown)
  · intro h
    constructor
    case same => exact fun id _ => ts_eq_rust id
    case passes => exact fun id _ => check_name id
    case apart => exact fun hab hname => h hab ((name_eq_iff a b).1 hname)

/-- Two identifiers of one millisecond. -/
def sampleUuid (last : UInt8) : Uuid :=
  ⟨⟨[0x01, 0x9a, 0x3c, 0x5e, 0x10, 0x22, 0x74, 0x11, 0x8f, 0x02, 0, 0, 0, 0, 0, last], rfl⟩⟩

theorem named_fails : ¬ ∀ a b : Uuid, Named a b := by
  intro h
  refine (h (sampleUuid 0) (sampleUuid 1)).apart (by decide) ?_
  decide +kernel

end Tethra.MuxNames
