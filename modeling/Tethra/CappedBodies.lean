import Tethra.MarkerResync

set_option autoImplicit false

/-!
# The memory of the marker scanners

Both scanners cap the body of an operating-system command, except for the ESC that it gathers
while it waits for the end of the body. What they hold is read off the bytes that have come.
-/
namespace Tethra.CappedBodies
open TerminalMarkers MarkerResync

/-- What `feed` does to the state and the body. After an ESC the OSC 133 scanner takes any byte
but `]`, the attention scanner starts `again` with an ESC. -/
def feedBody (cap : ℕ) (again : Bool) : State × Bytes → UInt8 → State × Bytes
  | (.ground, body), byte => (if byte = 0x1b then .esc else .ground, body)
  | (.esc, body), byte =>
    if byte = 0x5d then (.osc, [])
    else if again = true ∧ byte = 0x1b then (.esc, body)
    else (.ground, body)
  | (.osc, body), byte =>
    if byte = 0x07 then (.ground, [])
    else if byte = 0x1b then (.osc, body ++ [byte])
    else if body.getLast? = some 0x1b then (.ground, [])
    else if body.length < cap then (.osc, body ++ [byte])
    else (.ground, [])

def gather (cap : ℕ) (again : Bool) (data : Bytes) : State × Bytes :=
  data.foldl (feedBody cap again) (.ground, [])

theorem osc133_feed (p : Osc133Parser) (byte : UInt8) :
    ((p.feed byte).1.state, (p.feed byte).1.body) = feedBody 256 false (p.state, p.body) byte := by
  obtain ⟨state, body⟩ := p
  cases state with
  | ground =>
    simp only [Osc133Parser.feed, Osc133Parser.feedGround, feedBody]
    split <;> rfl
  | esc =>
    simp only [Osc133Parser.feed, feedBody, Bool.false_eq_true, false_and, if_false]
    split <;> rfl
  | osc =>
    simp only [Osc133Parser.feed, Osc133Parser.feedGround, feedBody]
    by_cases hbel : byte = 0x07
    · simp only [if_pos hbel]
    · by_cases hesc : byte = 0x1b
      · simp only [if_neg hbel, if_pos hesc]
      · simp only [if_neg hbel, if_neg hesc]
        split
        · split <;> rfl
        · split <;> rfl

theorem attention_feed (p : AttentionParser) (byte : UInt8) :
    ((p.feed byte).1.state, (p.feed byte).1.body) = feedBody 512 true (p.state, p.body) byte := by
  have hbel : (0x07 : UInt8) ≠ 0x1b := by decide
  obtain ⟨state, body⟩ := p
  cases state with
  | ground =>
    simp only [AttentionParser.feed, AttentionParser.feedGround, feedBody]
    by_cases h : byte = 0x07
    · simp only [h, if_true, if_neg hbel]
    · simp only [if_neg h]
      split <;> rfl
  | esc =>
    simp only [AttentionParser.feed, AttentionParser.feedGround, feedBody, true_and]
    by_cases hopen : byte = 0x5d
    · simp only [if_pos hopen]
    · simp only [if_neg hopen]
      by_cases h : byte = 0x07
      · simp only [h, if_true, if_neg hbel]
      · simp only [if_neg h]
        split <;> rfl
  | osc =>
    simp only [AttentionParser.feed, AttentionParser.feedGround, feedBody]
    by_cases h : byte = 0x07
    · simp only [if_pos h]
    · by_cases hesc : byte = 0x1b
      · simp only [if_neg h, if_pos hesc]
      · simp only [if_neg h, if_neg hesc]
        split
        · split <;> rfl
        · split <;> rfl

/-! ## What the bytes say -/

/-- What opens a command with `]`. -/
def Escape (again : Bool) (e : Bytes) : Prop :=
  ∃ n, e = List.replicate (n + 1) 0x1b ∧ (again = true ∨ n = 0)

def Capped (cap : ℕ) (body : Bytes) : Prop := (∀ byte ∈ body, Plain byte) ∧ body.length ≤ cap

/-- A command that is open, with `n` ESC after its body. -/
def opened (before e body : Bytes) (n : ℕ) : Bytes :=
  before ++ e ++ [0x5d] ++ body ++ List.replicate n 0x1b

/-- No sequence is open after the bytes. -/
inductive Between (cap : ℕ) (again : Bool) : Bytes → Prop
  | nil : Between cap again []
  | text {before : Bytes} {byte : UInt8} (h : Between cap again before) (hbyte : byte ≠ 0x1b) :
      Between cap again (before ++ [byte])
  | escaped {before e : Bytes} {byte : UInt8} (h : Between cap again before) (he : Escape again e)
      (hopen : byte ≠ 0x5d) (hagain : again = true → byte ≠ 0x1b) :
      Between cap again (before ++ e ++ [byte])
  | bel {before e body : Bytes} {n : ℕ} (h : Between cap again before) (he : Escape again e)
      (hbody : Capped cap body) : Between cap again (opened before e body n ++ [0x07])
  | ended {before e body : Bytes} {n : ℕ} {byte : UInt8} (h : Between cap again before)
      (he : Escape again e) (hbody : Capped cap body) (hbyte : Plain byte) :
      Between cap again (opened before e body (n + 1) ++ [byte])
  | dropped {before e body : Bytes} {byte : UInt8} (h : Between cap again before)
      (he : Escape again e) (hbody : Capped cap body) (hfull : body.length = cap)
      (hbyte : Plain byte) : Between cap again (opened before e body 0 ++ [byte])

/-- A command is opened whose body and the ESC after it are more than the cap and one byte. -/
def Overlong (cap : ℕ) (again : Bool) (data : Bytes) : Prop :=
  ∃ before e body n, Between cap again before ∧ Escape again e ∧ Capped cap body ∧
    cap + 1 < body.length + n ∧ opened before e body n <+: data

/-- How the bytes leave a scanner. -/
def Leaves (cap : ℕ) (again : Bool) (data : Bytes) : State × Bytes → Prop
  | (.ground, gathered) => gathered = [] ∧ Between cap again data
  | (.esc, gathered) => gathered = [] ∧
      ∃ before e, Between cap again before ∧ Escape again e ∧ data = before ++ e
  | (.osc, gathered) => ∃ before e body n, Between cap again before ∧ Escape again e ∧
      Capped cap body ∧ data = opened before e body n ∧ gathered = body ++ List.replicate n 0x1b

variable {cap : ℕ} {again : Bool} {data before e body : Bytes} {n : ℕ}

theorem opened_succ (before e body : Bytes) (n : ℕ) :
    opened before e body n ++ [0x1b] = opened before e body (n + 1) := by
  rw [opened, opened, List.replicate_succ', List.append_assoc _ _ [0x1b]]

theorem opened_snoc (before e body : Bytes) (byte : UInt8) :
    opened before e body 0 ++ [byte] = opened before e (body ++ [byte]) 0 := by
  simp [opened]

theorem Escape.one (again : Bool) : Escape again [0x1b] := ⟨0, rfl, Or.inr rfl⟩

theorem getLast?_replicate_succ (body : Bytes) (n : ℕ) :
    (body ++ List.replicate (n + 1) 0x1b).getLast? = some (0x1b : UInt8) := by
  rw [List.replicate_succ', ← List.append_assoc, List.getLast?_append]
  rfl

theorem Capped.getLast? (h : Capped cap body) : body.getLast? ≠ some 0x1b := fun hlast =>
  (h.1 _ (List.mem_of_getLast? hlast)).1 rfl

theorem Leaves.feed {p : State × Bytes} (h : Leaves cap again data p) (byte : UInt8) :
    Leaves cap again (data ++ [byte]) (feedBody cap again p byte) := by
  obtain ⟨state, gathered⟩ := p
  cases state with
  | ground =>
    obtain ⟨rfl, h⟩ := h
    rw [feedBody]
    by_cases hesc : byte = 0x1b
    · rw [if_pos hesc]
      exact ⟨rfl, data, [byte], h, hesc ▸ Escape.one again, rfl⟩
    · rw [if_neg hesc]
      exact ⟨rfl, h.text hesc⟩
  | esc =>
    obtain ⟨rfl, before, e, hbefore, he, rfl⟩ := h
    rw [feedBody]
    split
    case isTrue hopen =>
      refine ⟨before, e, [], 0, hbefore, he, ⟨fun _ hb => (nomatch hb), Nat.zero_le _⟩, ?_, rfl⟩
      simp [opened, hopen]
    case isFalse hopen =>
      split
      case isTrue hagain =>
        obtain ⟨n, rfl, -⟩ := he
        refine ⟨rfl, before, List.replicate (n + 2) 0x1b, hbefore, ⟨n + 1, rfl, Or.inl hagain.1⟩, ?_⟩
        rw [hagain.2, List.append_assoc, ← List.replicate_succ']
      case isFalse hagain => exact ⟨rfl, hbefore.escaped he hopen fun ha hb => hagain ⟨ha, hb⟩⟩
  | osc =>
    obtain ⟨before, e, body, n, hbefore, he, hbody, rfl, rfl⟩ := h
    rw [feedBody]
    split
    case isTrue hbel => exact ⟨rfl, hbel ▸ .bel hbefore he hbody⟩
    case isFalse hbel =>
      split
      case isTrue hesc =>
        refine ⟨before, e, body, n + 1, hbefore, he, hbody, hesc ▸ opened_succ _ _ _ _, ?_⟩
        rw [hesc, List.replicate_succ', List.append_assoc]
      case isFalse hesc =>
        cases n with
        | succ n =>
          rw [if_pos (getLast?_replicate_succ body n)]
          exact ⟨rfl, .ended hbefore he hbody ⟨hesc, hbel⟩⟩
        | zero =>
          rw [List.replicate_zero, List.append_nil, if_neg hbody.getLast?]
          split
          case isTrue hlt =>
            refine ⟨before, e, body ++ [byte], 0, hbefore, he, ⟨fun b hb => ?_, ?_⟩,
              opened_snoc _ _ _ _, (List.append_nil _).symm⟩
            · obtain hb | hb := List.mem_append.1 hb
              · exact hbody.1 b hb
              · exact List.mem_singleton.1 hb ▸ ⟨hesc, hbel⟩
            · rw [List.length_append, List.length_singleton]
              exact hlt
          case isFalse hlt =>
            exact ⟨rfl, .dropped hbefore he hbody (le_antisymm hbody.2 (not_lt.1 hlt))
              ⟨hesc, hbel⟩⟩

theorem leaves_gather (cap : ℕ) (again : Bool) (data : Bytes) :
    Leaves cap again data (gather cap again data) := by
  induction data using List.reverseRecOn with
  | nil => exact ⟨rfl, .nil⟩
  | append_singleton data byte ih =>
    rw [gather, List.foldl_append]
    exact ih.feed byte

/-! ## What the scanner makes of them -/

theorem gather_append (a b : Bytes) :
    gather cap again (a ++ b) = b.foldl (feedBody cap again) (gather cap again a) := by
  rw [gather, List.foldl_append, gather]

theorem foldl_escape (he : Escape again e) (gathered : Bytes) :
    e.foldl (feedBody cap again) (.ground, gathered) = (.esc, gathered) := by
  obtain ⟨n, rfl, hn⟩ := he
  rw [List.replicate_succ, List.foldl_cons, feedBody, if_pos rfl]
  obtain rfl | rfl := hn
  · induction n with
    | zero => rfl
    | succ n ih =>
      rw [List.replicate_succ, List.foldl_cons, feedBody, if_neg (by decide), if_pos ⟨rfl, rfl⟩]
      exact ih
  · rfl

theorem foldl_body {gathered : Bytes} (hgathered : ∀ byte ∈ gathered, Plain byte)
    (hbody : ∀ byte ∈ body, Plain byte) (hcap : gathered.length + body.length ≤ cap) :
    body.foldl (feedBody cap again) (.osc, gathered) = (.osc, gathered ++ body) := by
  induction body generalizing gathered with
  | nil => rw [List.foldl_nil, List.append_nil]
  | cons byte body ih =>
    rw [List.length_cons] at hcap
    have hbyte : Plain byte := hbody byte List.mem_cons_self
    have hcapped : Capped gathered.length gathered := ⟨hgathered, le_refl _⟩
    have hlast : gathered.getLast? ≠ some 0x1b := hcapped.getLast?
    rw [List.foldl_cons, feedBody, if_neg hbyte.2, if_neg hbyte.1, if_neg hlast,
      if_pos (by omega), ih, List.append_assoc, List.singleton_append]
    · intro b hb
      obtain hb | hb := List.mem_append.1 hb
      · exact hgathered b hb
      · exact List.mem_singleton.1 hb ▸ hbyte
    · exact fun b hb => hbody b (List.mem_cons_of_mem _ hb)
    · rw [List.length_append, List.length_singleton]
      omega

theorem foldl_escapes (gathered : Bytes) (n : ℕ) :
    (List.replicate n 0x1b).foldl (feedBody cap again) (.osc, gathered) =
      (.osc, gathered ++ List.replicate n 0x1b) := by
  induction n generalizing gathered with
  | zero => rw [List.replicate_zero, List.foldl_nil, List.append_nil]
  | succ n ih =>
    rw [List.replicate_succ, List.foldl_cons, feedBody, if_neg (by decide), if_pos rfl, ih,
      List.append_assoc, List.singleton_append]

theorem gather_opened (hbefore : (gather cap again before).1 = .ground) (he : Escape again e)
    (hbody : Capped cap body) (n : ℕ) :
    gather cap again (opened before e body n) = (.osc, body ++ List.replicate n 0x1b) := by
  have hground : gather cap again before = (.ground, (gather cap again before).2) :=
    Prod.ext hbefore rfl
  have hnone : ∀ byte ∈ ([] : Bytes), Plain byte := by simp
  rw [opened, gather_append, gather_append, gather_append, gather_append, hground,
    foldl_escape he, List.foldl_cons, feedBody, if_pos rfl, List.foldl_nil,
    foldl_body hnone hbody.1 (by simpa using hbody.2), foldl_escapes,
    List.nil_append]

theorem gather_snoc (byte : UInt8) :
    gather cap again (data ++ [byte]) = feedBody cap again (gather cap again data) byte := by
  rw [gather_append, List.foldl_cons, List.foldl_nil]

theorem Between.ground (h : Between cap again data) : (gather cap again data).1 = .ground := by
  induction h with
  | nil => rfl
  | @text before byte _ hbyte ih =>
    have hground : gather cap again before = (.ground, (gather cap again before).2) :=
      Prod.ext ih rfl
    rw [gather_snoc, hground, feedBody, if_neg hbyte]
  | @escaped before e byte _ he hopen hagain ih =>
    have hground : gather cap again before = (.ground, (gather cap again before).2) :=
      Prod.ext ih rfl
    rw [gather_snoc, gather_append, hground, foldl_escape he, feedBody, if_neg hopen,
      if_neg fun h => hagain h.1 h.2]
  | bel _ he hbody ih =>
    rw [gather_snoc, gather_opened ih he hbody, feedBody, if_pos rfl]
  | ended _ he hbody hbyte ih =>
    rw [gather_snoc, gather_opened ih he hbody, feedBody, if_neg hbyte.2, if_neg hbyte.1,
      if_pos (getLast?_replicate_succ _ _)]
  | dropped _ he hbody hfull hbyte ih =>
    rw [gather_snoc, gather_opened ih he hbody, List.replicate_zero, List.append_nil, feedBody,
      if_neg hbyte.2, if_neg hbyte.1, if_neg hbody.getLast?, if_neg (by omega)]

/-- What the scanner holds stays within the cap and one byte unless the bytes are overlong. -/
theorem gather_bounded_iff (cap : ℕ) (again : Bool) (data : Bytes) :
    (∀ seen, seen <+: data → (gather cap again seen).2.length ≤ cap + 1) ↔
      ¬ Overlong cap again data := by
  constructor
  · rintro hbound ⟨before, e, body, n, hbefore, he, hbody, hlong, hprefix⟩
    have hle := hbound _ hprefix
    rw [gather_opened hbefore.ground he hbody, List.length_append, List.length_replicate] at hle
    omega
  · intro hshort seen hprefix
    have hleaves := leaves_gather cap again seen
    generalize gather cap again seen = p at hleaves ⊢
    obtain ⟨state, gathered⟩ := p
    cases state with
    | ground =>
      obtain ⟨rfl, -⟩ := hleaves
      exact Nat.zero_le _
    | esc =>
      obtain ⟨rfl, -⟩ := hleaves
      exact Nat.zero_le _
    | osc =>
      obtain ⟨before, e, body, n, hbefore, he, hbody, rfl, rfl⟩ := hleaves
      by_contra hlong
      rw [List.length_append, List.length_replicate] at hlong
      exact hshort ⟨before, e, body, n, hbefore, he, hbody, by omega, hprefix⟩

/-! ## Chunks -/

theorem osc133_push (p : Osc133Parser) (chunk : Bytes) :
    ((push p chunk).1.state, (push p chunk).1.body) =
      chunk.foldl (feedBody 256 false) (p.state, p.body) := by
  rw [push_run]
  induction chunk generalizing p with
  | nil => rfl
  | cons byte chunk ih =>
    rw [List.foldl_cons, ← osc133_feed]
    exact ih (p.feed byte).1

theorem attention_push (p : AttentionParser) (chunk : Bytes) :
    ((p.push chunk).1.state, (p.push chunk).1.body) =
      chunk.foldl (feedBody 512 true) (p.state, p.body) := by
  induction chunk generalizing p with
  | nil => rfl
  | cons byte chunk ih =>
    rw [List.foldl_cons, ← attention_feed]
    exact ih (p.feed byte).1

/-- The scanner after the chunks. -/
def osc133Reads (chunks : List Bytes) : Osc133Parser :=
  chunks.foldl (fun p chunk => (push p chunk).1) .new

def attentionReads (chunks : List Bytes) : AttentionParser :=
  chunks.foldl (fun p chunk => (p.push chunk).1) .new

theorem osc133_reads (chunks : List Bytes) :
    ((osc133Reads chunks).state, (osc133Reads chunks).body) =
      gather 256 false chunks.flatten := by
  induction chunks using List.reverseRecOn with
  | nil => rfl
  | append_singleton chunks chunk ih =>
    have hsnoc : osc133Reads (chunks ++ [chunk]) = (push (osc133Reads chunks) chunk).1 :=
      List.foldl_append
    rw [hsnoc, osc133_push, ih, List.flatten_append, List.flatten_singleton, gather_append]

theorem attention_reads (chunks : List Bytes) :
    ((attentionReads chunks).state, (attentionReads chunks).body) =
      gather 512 true chunks.flatten := by
  induction chunks using List.reverseRecOn with
  | nil => rfl
  | append_singleton chunks chunk ih =>
    have hsnoc : attentionReads (chunks ++ [chunk]) = ((attentionReads chunks).push chunk).1 :=
      List.foldl_append
    rw [hsnoc, attention_push, ih, List.flatten_append, List.flatten_singleton, gather_append]

/-- However a stream is cut, the bodies stay within their caps and one byte if and only if no
command of the stream is overlong. -/
theorem bodies_bounded_iff (data : Bytes) :
    ((∀ chunks : List Bytes, chunks.flatten <+: data →
        (osc133Reads chunks).body.length ≤ 256 + 1) ↔ ¬ Overlong 256 false data) ∧
    ((∀ chunks : List Bytes, chunks.flatten <+: data →
        (attentionReads chunks).body.length ≤ 512 + 1) ↔ ¬ Overlong 512 true data) := by
  constructor
  · rw [← gather_bounded_iff]
    constructor
    · intro h seen hprefix
      have hle := h [seen] (by simpa using hprefix)
      rwa [show (osc133Reads [seen]).body = (gather 256 false seen).2 by
        simpa using congrArg Prod.snd (osc133_reads [seen])] at hle
    · intro h chunks hprefix
      have hle := h _ hprefix
      rwa [← osc133_reads] at hle
  · rw [← gather_bounded_iff]
    constructor
    · intro h seen hprefix
      have hle := h [seen] (by simpa using hprefix)
      rwa [show (attentionReads [seen]).body = (gather 512 true seen).2 by
        simpa using congrArg Prod.snd (attention_reads [seen])] at hle
    · intro h chunks hprefix
      have hle := h _ hprefix
      rwa [← attention_reads] at hle

/-- One ESC after another. -/
theorem bodies_bounded_fails :
    ¬ (osc133Reads [[0x1b, 0x5d] ++ List.replicate 300 0x1b]).body.length ≤ 256 + 1 ∧
      ¬ (attentionReads [[0x1b, 0x5d] ++ List.replicate 600 0x1b]).body.length ≤ 512 + 1 := by
  decide +kernel

end Tethra.CappedBodies
