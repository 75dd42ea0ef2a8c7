import Tethra.ScriptText

set_option autoImplicit false

/-!
# The prompt mirror

The input box shows the line the shell has echoed and, behind it, the keys that are not echoed
yet. Both are kept twice, as a reference and as the state that is shown.
-/
namespace Tethra.PromptMirror
open ScriptText

structure Panel where
  mirror : Text
  mirrorRef : Text
  pending : Text
  pendingRef : Text
  pendingBase : Text
  pendingMismatches : ℕ
  uncover : Bool
  mirrorMisses : ℕ
  forwardedSinceMirror : ℕ
  lastForwardWasEdit : Bool
  /-- The texts of `submittedCommands`. -/
  submitted : List Text

structure KeyEvent where
  key : Text
  metaKey : Bool
  ctrlKey : Bool
  altKey : Bool

/-- A character without modifiers. -/
def KeyEvent.char (u : UInt16) : KeyEvent := ⟨[u], false, false, false⟩

def KeyEvent.enter : KeyEvent := ⟨text "Enter", false, false, false⟩

def noteSubmittedCommand (line : Text) (queue : List Text) : List Text :=
  if trim line = [] then queue
  else
    let queue := queue ++ [trim line]
    queue.drop (queue.length - 32)

def predictKey (event : KeyEvent) (p : Panel) : Panel :=
  if p.uncover || event.metaKey || event.ctrlKey || event.altKey then p
  else if event.key.length = 1 then
    let p := if p.pendingRef = [] then { p with pendingBase := p.mirrorRef } else p
    { p with pendingRef := p.pendingRef ++ event.key, pending := p.pendingRef ++ event.key }
  else if event.key = text "Backspace" then
    { p with pendingRef := p.pendingRef.dropLast, pending := p.pendingRef.dropLast }
  else
    let p := if event.key = text "Enter" then
        { p with submitted := noteSubmittedCommand (p.mirrorRef ++ p.pendingRef) p.submitted }
      else p
    { p with pendingRef := [], pending := [], pendingBase := p.mirrorRef }

/-- What the line does to the prediction: the characters that stay, the new base and count of
mismatches, and whether the line is accepted. -/
def reconcile (line : Text) (p : Panel) : Text × Text × ℕ × Bool :=
  if p.pendingRef = [] then (p.pendingRef, line, 0, true)
  else if startsWith line p.pendingBase ∧
      startsWith p.pendingRef (line.drop p.pendingBase.length) then
    (p.pendingRef.drop (line.drop p.pendingBase.length).length, line, 0, true)
  else if p.pendingMismatches < 1 then
    (p.pendingRef, p.pendingBase, p.pendingMismatches + 1, false)
  else ([], line, 0, true)

/-- The end of `refreshMirror`, which may uncover the live prompt. -/
def countMisses (line : Text) (p : Panel) : Panel :=
  if 0 < p.forwardedSinceMirror then
    let misses :=
      if !p.lastForwardWasEdit then 0
      else if line.length = 0 ∧ 2 ≤ p.forwardedSinceMirror then p.mirrorMisses + 1
      else if 0 < line.length then 0
      else p.mirrorMisses
    let p := { p with mirrorMisses := misses, forwardedSinceMirror := 0 }
    if 3 ≤ misses then { p with uncover := true, mirror := [] } else p
  else p

def refreshMirror (line : Option Text) (p : Panel) : Panel :=
  if p.uncover then { p with mirror := [] }
  else
    match line with
    | none =>
      { p with mirrorRef := [], mirror := [], pendingRef := [], pending := [], pendingBase := [] }
    | some line =>
      match reconcile line p with
      | (_, base, mismatches, false) =>
        { p with pendingBase := base, pendingMismatches := mismatches }
      | (next, base, mismatches, true) =>
        countMisses line { p with
          pendingBase := base
          pendingMismatches := mismatches
          pendingRef := next
          pending := next
          mirrorRef := line
          mirror := line }

/-- `forwardBytes` up to the first `await`. -/
def forwardBytes (edit : Bool) (p : Panel) : Panel :=
  { p with
    forwardedSinceMirror := p.forwardedSinceMirror + 1
    lastForwardWasEdit := edit }

inductive Step where
  | key (u : UInt16)
  | refresh (line : Text)
  | forward (edit : Bool)

def perform (p : Panel) : Step → Panel
  | .key u => predictKey (.char u) p
  | .refresh line => refreshMirror (some line) p
  | .forward edit => forwardBytes edit p

def run (p : Panel) (steps : List Step) : Panel := steps.foldl perform p

def typed (steps : List Step) : Text :=
  steps.filterMap fun
    | .key u => some u
    | _ => none

/-- The mirror shows the line, and no key is pending. -/
structure Settled (line : Text) (p : Panel) : Prop where
  mirror : p.mirror = line
  mirrorRef : p.mirrorRef = line
  pending : p.pending = []
  pendingRef : p.pendingRef = []

/-- Every line that is read is the first line followed by what the shell has echoed of the keys
before, and never less than was there already. -/
def Echoes (line : Text) : Text → ℕ → List Step → Prop
  | _, _, [] => True
  | keys, echoed, .key u :: steps => Echoes line (keys ++ [u]) echoed steps
  | keys, echoed, .refresh read :: steps => ∃ n, echoed ≤ n ∧ n ≤ keys.length ∧
      read = line ++ keys.take n ∧ Echoes line keys n steps
  | keys, echoed, .forward _ :: steps => Echoes line keys echoed steps

/-- The live prompt is not uncovered. -/
def Covered : Panel → List Step → Prop
  | p, [] => p.uncover = false
  | p, step :: steps => p.uncover = false ∧ Covered (perform p step) steps

/-! ## Keys and echoes -/

/-- The shell has echoed `echoed` of the keys. -/
structure Tracks (line keys : Text) (echoed : ℕ) (p : Panel) : Prop where
  le : echoed ≤ keys.length
  mirrorRef : p.mirrorRef = line ++ keys.take echoed
  pendingRef : p.pendingRef = keys.drop echoed
  base : p.pendingRef ≠ [] → p.pendingBase = p.mirrorRef
  mirror : p.mirror = p.mirrorRef
  pending : p.pending = p.pendingRef

variable {line keys : Text} {echoed n : ℕ} {p : Panel}

theorem Tracks.key (h : Tracks line keys echoed p) (hcovered : p.uncover = false) (u : UInt16) :
    Tracks line (keys ++ [u]) echoed (predictKey (.char u) p) := by
  have hpredict : predictKey (.char u) p =
      { (if p.pendingRef = [] then { p with pendingBase := p.mirrorRef } else p) with
        pendingRef := p.pendingRef ++ [u], pending := p.pendingRef ++ [u] } := by
    unfold predictKey KeyEvent.char
    simp only [hcovered, Bool.or_self, Bool.false_eq_true, ↓reduceIte, List.length_singleton]
    split <;> rfl
  rw [hpredict]
  constructor
  case le =>
    rw [List.length_append]
    exact Nat.le_add_right_of_le h.le
  case mirrorRef =>
    rw [List.take_append_of_le_length h.le, ← h.mirrorRef]
    split <;> rfl
  case pendingRef =>
    change p.pendingRef ++ [u] = _
    rw [h.pendingRef, List.drop_append_of_le_length h.le]
  case base =>
    intro _
    split
    · rfl
    · rename_i hne
      exact h.base hne
  case mirror =>
    split <;> exact h.mirror
  case pending => rfl

/-- The echo of some of the pending keys takes them off. -/
theorem reconcile_echo (h : Tracks line keys echoed p) (hle : echoed ≤ n) (hn : n ≤ keys.length) :
    reconcile (line ++ keys.take n) p = (keys.drop n, line ++ keys.take n, 0, true) := by
  unfold reconcile
  by_cases hnil : p.pendingRef = []
  · rw [if_pos hnil]
    have hall : keys.length ≤ echoed := by
      rw [h.pendingRef, List.drop_eq_nil_iff] at hnil
      exact hnil
    have hdrop : keys.drop n = [] := List.drop_eq_nil_iff.2 (hall.trans hle)
    rw [hnil, hdrop]
  · rw [if_neg hnil]
    have hbase : p.pendingBase = line ++ keys.take echoed := (h.base hnil).trans h.mirrorRef
    have hsplit : keys.take n = keys.take echoed ++ (keys.drop echoed).take (n - echoed) := by
      rw [← List.take_add, Nat.add_sub_cancel' hle]
    have hline : line ++ keys.take n =
        p.pendingBase ++ p.pendingRef.take (n - echoed) := by
      rw [hbase, h.pendingRef, hsplit, List.append_assoc]
    have hecho : (line ++ keys.take n).drop p.pendingBase.length = p.pendingRef.take (n - echoed) := by
      rw [hline, List.drop_left]
    have hstarts : startsWith (line ++ keys.take n) p.pendingBase = true ∧
        startsWith p.pendingRef (p.pendingRef.take (n - echoed)) = true := by
      refine ⟨List.isPrefixOf_iff_prefix.2 ?_, List.isPrefixOf_iff_prefix.2 (List.take_prefix _ _)⟩
      rw [hline]
      exact List.prefix_append _ _
    rw [hecho, if_pos hstarts]
    refine congrArg (·, line ++ keys.take n, 0, true) ?_
    rw [h.pendingRef, List.length_take, List.length_drop, List.drop_drop]
    congr 1
    omega

theorem countMisses_kept (read : Text) (hcovered : (countMisses read p).uncover = false)
    (hp : Tracks line keys echoed p) : Tracks line keys echoed (countMisses read p) := by
  have hkept (misses forwarded : ℕ) : Tracks line keys echoed
      { p with mirrorMisses := misses, forwardedSinceMirror := forwarded } :=
    ⟨hp.le, hp.mirrorRef, hp.pendingRef, hp.base, hp.mirror, hp.pending⟩
  unfold countMisses at hcovered ⊢
  dsimp only at hcovered ⊢
  by_cases hforwarded : 0 < p.forwardedSinceMirror
  · rw [if_pos hforwarded] at hcovered ⊢
    generalize (if (!p.lastForwardWasEdit) = true then 0
      else if read.length = 0 ∧ 2 ≤ p.forwardedSinceMirror then p.mirrorMisses + 1
      else if 0 < read.length then 0 else p.mirrorMisses) = misses at hcovered ⊢
    by_cases hmany : 3 ≤ misses
    · rw [if_pos hmany] at hcovered
      cases hcovered
    · rw [if_neg hmany]
      exact hkept misses 0
  · rw [if_neg hforwarded]
    exact hp

theorem Tracks.refresh (h : Tracks line keys echoed p) (hle : echoed ≤ n) (hn : n ≤ keys.length)
    (hcovered : p.uncover = false)
    (hafter : (refreshMirror (some (line ++ keys.take n)) p).uncover = false) :
    Tracks line keys n (refreshMirror (some (line ++ keys.take n)) p) := by
  unfold refreshMirror at hafter ⊢
  rw [hcovered] at hafter ⊢
  rw [if_neg Bool.false_ne_true] at hafter ⊢
  dsimp only at hafter ⊢
  rw [reconcile_echo h hle hn] at hafter ⊢
  exact countMisses_kept _ hafter ⟨hn, rfl, rfl, fun _ => rfl, rfl, rfl⟩

theorem Tracks.run {steps : List Step} (h : Tracks line keys echoed p)
    (hechoes : Echoes line keys echoed steps) (hcovered : Covered p steps) :
    ∃ n, Tracks line (keys ++ typed steps) n (run p steps) ∧ (run p steps).uncover = false := by
  induction steps generalizing p keys echoed with
  | nil =>
    refine ⟨echoed, ?_, hcovered⟩
    rw [typed, List.filterMap_nil, List.append_nil]
    exact h
  | cons step steps ih =>
    obtain ⟨hnow, hrest⟩ := hcovered
    have hnext : (perform p step).uncover = false := by
      cases steps with
      | nil => exact hrest
      | cons _ _ => exact hrest.1
    cases step with
    | key u =>
      obtain ⟨n, hn, hend⟩ := ih (h.key hnow u) hechoes hrest
      refine ⟨n, ?_, hend⟩
      rw [List.append_assoc] at hn
      exact hn
    | refresh read =>
      obtain ⟨n, hle, hn, rfl, hechoes⟩ := hechoes
      exact ih (h.refresh hle hn hnow hnext) hechoes hrest
    | forward edit =>
      refine ih ?_ hechoes hrest
      exact ⟨h.le, h.mirrorRef, h.pendingRef, h.base, h.mirror, h.pending⟩

/-- What is shown is the first line and all keys, however the echo lags, and Enter records it. -/
theorem mirror_follows {steps : List Step} (h : Settled line p) (hechoes : Echoes line [] 0 steps)
    (hcovered : Covered p steps) :
    (run p steps).mirror ++ (run p steps).pending = line ++ typed steps ∧
      (predictKey .enter (run p steps)).submitted =
        noteSubmittedCommand (line ++ typed steps) (run p steps).submitted := by
  have hstart : Tracks line [] 0 p := by
    refine ⟨Nat.zero_le _, ?_, h.pendingRef, fun hne => absurd h.pendingRef hne, ?_, ?_⟩
    · rw [h.mirrorRef, List.take_nil, List.append_nil]
    · rw [h.mirror, h.mirrorRef]
    · rw [h.pending, h.pendingRef]
  obtain ⟨n, hn, huncover⟩ := hstart.run hechoes hcovered
  rw [List.nil_append] at hn
  have hall : (run p steps).mirrorRef ++ (run p steps).pendingRef = line ++ typed steps := by
    rw [hn.mirrorRef, hn.pendingRef, List.append_assoc, List.take_append_drop]
  refine ⟨by rw [hn.mirror, hn.pending, hall], ?_⟩
  have hlength : ¬(KeyEvent.enter.key.length = 1) := by decide
  have hbackspace : ¬(KeyEvent.enter.key = text "Backspace") := by decide
  unfold predictKey
  rw [huncover, if_neg hlength, if_neg hbackspace]
  change noteSubmittedCommand ((run p steps).mirrorRef ++ (run p steps).pendingRef) _ = _
  rw [hall]

def samplePanel : Panel := ⟨text "l", text "l", [], [], [], 0, false, 0, 0, false, []⟩

/-- Keys, an echo that lags by one, and a blank at the end. -/
def sampleSteps : List Step :=
  [.key 0x73, .key 0x73, .forward true, .refresh (text "ls"), .key 0x20]

theorem sampleSteps_echoes : Echoes (text "l") [] 0 sampleSteps := by
  refine ⟨1, by decide, by decide, by decide, trivial⟩

theorem mirror_follows_sample :
    (run samplePanel sampleSteps).mirror ++ (run samplePanel sampleSteps).pending =
      text "lss " := by
  have h : Settled (text "l") samplePanel := ⟨rfl, rfl, rfl, rfl⟩
  refine (mirror_follows h sampleSteps_echoes ⟨rfl, rfl, rfl, rfl, rfl, rfl⟩).1.trans ?_
  decide

/-- The blank is not recorded. -/
theorem mirror_follows_fails :
    Settled (text "l") samplePanel ∧ Echoes (text "l") [] 0 sampleSteps ∧
      Covered samplePanel sampleSteps ∧ text "l" ++ typed sampleSteps = text "lss " ∧
      (predictKey .enter (run samplePanel sampleSteps)).submitted = [text "lss"] := by
  refine ⟨⟨rfl, rfl, rfl, rfl⟩, sampleSteps_echoes, ⟨rfl, rfl, rfl, rfl, rfl, rfl⟩, ?_, ?_⟩
  · decide
  · decide +kernel

end Tethra.PromptMirror
