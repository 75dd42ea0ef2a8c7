import Mathlib.Data.List.Nodup
import Mathlib.Tactic

set_option autoImplicit false

/-!
# Pane layouts

The split layout of a tab is a binary tree with a session in each leaf. A ratio is carried along
and only ever clamped.
-/
namespace Tethra.PaneLayouts

inductive SplitOrientation where
  | horizontal
  | vertical
  deriving DecidableEq, Repr

inductive LayoutNode (ρ : Type) where
  | leaf (sessionId : String)
  | split (id : String) (orientation : SplitOrientation) (ratio : ρ) (first second : LayoutNode ρ)
  deriving DecidableEq

variable {ρ : Type}

open LayoutNode

def collectSessionIds : LayoutNode ρ → List String
  | .leaf sessionId => [sessionId]
  | .split _ _ _ first second => collectSessionIds first ++ collectSessionIds second

def replaceSession (source target : String) : LayoutNode ρ → LayoutNode ρ
  | .leaf sessionId => if sessionId = source then .leaf target else .leaf sessionId
  | .split id orientation ratio first second =>
    .split id orientation ratio (replaceSession source target first)
      (replaceSession source target second)

def removeSession (sessionId : String) : LayoutNode ρ → Option (LayoutNode ρ)
  | .leaf s => if s = sessionId then none else some (.leaf s)
  | .split id orientation ratio first second =>
    match removeSession sessionId first, removeSession sessionId second with
    | none, second => second
    | some first, none => some first
    | some first, some second => some (.split id orientation ratio first second)

/-- Ratios are floating point numbers: `clampRatio` and `0.5` are parameters. -/
structure Ratios (ρ : Type) where
  clampRatio : ρ → ρ
  half : ρ

section Edits
variable (ratios : Ratios ρ)

/-- `split` with its default ratio, under the identifier that is drawn. -/
def split (id : String) (orientation : SplitOrientation) (first second : LayoutNode ρ) :
    LayoutNode ρ :=
  .split id orientation (ratios.clampRatio ratios.half) first second

def splitLeaf (sessionId newSessionId id : String) (orientation : SplitOrientation) :
    LayoutNode ρ → LayoutNode ρ
  | .leaf s =>
    if s ≠ sessionId then .leaf s
    else split ratios id orientation (.leaf s) (.leaf newSessionId)
  | .split i o r first second =>
    .split i o r (splitLeaf sessionId newSessionId id orientation first)
      (splitLeaf sessionId newSessionId id orientation second)

def setSplitRatio (splitId : String) (ratio : ρ) : LayoutNode ρ → LayoutNode ρ
  | .leaf s => .leaf s
  | .split id o r first second =>
    if id = splitId then .split id o (ratios.clampRatio ratio) first second
    else .split id o r (setSplitRatio splitId ratio first) (setSplitRatio splitId ratio second)

inductive Operation (ρ : Type) where
  | splitLeaf (sessionId newSessionId id : String) (orientation : SplitOrientation)
  | removeSession (sessionId : String)
  | replaceSession (source target : String)
  | setSplitRatio (splitId : String) (ratio : ρ)

def perform (x : Option (LayoutNode ρ)) : Operation ρ → Option (LayoutNode ρ)
  | .splitLeaf sessionId newSessionId id orientation =>
    x.map (splitLeaf ratios sessionId newSessionId id orientation)
  | .removeSession sessionId => x.bind (removeSession sessionId)
  | .replaceSession source target => x.map (replaceSession source target)
  | .setSplitRatio splitId ratio => x.map (setSplitRatio ratios splitId ratio)

def run (x : Option (LayoutNode ρ)) (operations : List (Operation ρ)) : Option (LayoutNode ρ) :=
  operations.foldl (perform ratios) x

/-- The sessions of a layout from left to right; none without a layout. -/
def sessions (x : Option (LayoutNode ρ)) : List String := x.elim [] collectSessionIds

/-- The session that comes in is new. -/
def Fresh (x : Option (LayoutNode ρ)) : Operation ρ → Prop
  | .splitLeaf _ newSessionId _ _ => newSessionId ∉ sessions x
  | .replaceSession _ target => target ∉ sessions x
  | _ => True

def Along : Option (LayoutNode ρ) → List (Operation ρ) → Prop
  | _, [] => True
  | x, operation :: operations =>
    Fresh x operation ∧ Along (perform ratios x operation) operations

end Edits

/-! ## What the operations are to do -/

/-- What an operation does to the sessions of a layout. -/
def edit (l : List String) : Operation ρ → List String
  | .splitLeaf sessionId newSessionId _ _ =>
    l.flatMap fun s => if s = sessionId then [s, newSessionId] else [s]
  | .removeSession sessionId => l.filter (· ≠ sessionId)
  | .replaceSession source target => l.map fun s => if s = source then target else s
  | .setSplitRatio _ _ => l

/-- One turn on the way from the root to a place in the tree. -/
inductive Turn (ρ : Type) where
  | first (id : String) (orientation : SplitOrientation) (ratio : ρ) (second : LayoutNode ρ)
  | second (id : String) (orientation : SplitOrientation) (ratio : ρ) (first : LayoutNode ρ)

def Turn.fill : Turn ρ → LayoutNode ρ → LayoutNode ρ
  | .first id o r b, a => .split id o r a b
  | .second id o r a, b => .split id o r a b

/-- The tree around a place, with `node` at the place. -/
def fill (turns : List (Turn ρ)) (node : LayoutNode ρ) : LayoutNode ρ := turns.foldr Turn.fill node

/-- What is on the other side of a turn. -/
def Turn.sibling : Turn ρ → LayoutNode ρ
  | .first _ _ _ b => b
  | .second _ _ _ a => a

def splitIds : LayoutNode ρ → List String
  | .leaf _ => []
  | .split id _ _ first second => id :: (splitIds first ++ splitIds second)

/-- The tree but for the ratios of the splits under `splitId`. -/
def unset (splitId : String) (r₀ : ρ) : LayoutNode ρ → LayoutNode ρ
  | .leaf s => .leaf s
  | .split id o r first second =>
    .split id o (if id = splitId then r₀ else r) (unset splitId r₀ first) (unset splitId r₀ second)

/-- The tree changes at the place the operation names, and nowhere else. -/
def Local (ratios : Ratios ρ) (node : LayoutNode ρ) : Operation ρ → Option (LayoutNode ρ) → Prop
  | .splitLeaf sessionId newSessionId id orientation, y =>
    (sessionId ∉ collectSessionIds node → y = some node) ∧
      (sessionId ∈ collectSessionIds node → ∃ turns, node = fill turns (.leaf sessionId) ∧
        y = some (fill turns
          (split ratios id orientation (.leaf sessionId) (.leaf newSessionId))))
  | .removeSession sessionId, y =>
    (sessionId ∉ collectSessionIds node → y = some node) ∧
      (sessionId ∈ collectSessionIds node → (node = .leaf sessionId ∧ y = none) ∨
        ∃ turns, ∃ turn : Turn ρ, node = fill turns (turn.fill (.leaf sessionId)) ∧
          y = some (fill turns turn.sibling))
  | .replaceSession source target, y =>
    (source ∉ collectSessionIds node → y = some node) ∧
      (source ∈ collectSessionIds node → ∃ turns, node = fill turns (.leaf source) ∧
        y = some (fill turns (.leaf target)))
  | .setSplitRatio splitId ratio, y =>
    (splitId ∉ splitIds node → y = some node) ∧
      ((splitIds node).Nodup → splitId ∈ splitIds node → ∃ turns o r a b,
        node = fill turns (.split splitId o r a b) ∧
          y = some (fill turns (.split splitId o (ratios.clampRatio ratio) a b))) ∧
      ∃ node', y = some node' ∧ ∀ r₀, unset splitId r₀ node' = unset splitId r₀ node

/-! ## One operation -/

section Operations
variable {ratios : Ratios ρ} {node : LayoutNode ρ}

theorem collectSessionIds_ne_nil (node : LayoutNode ρ) : collectSessionIds node ≠ [] := by
  induction node with
  | leaf s => simp [collectSessionIds]
  | split id o r first second ih _ => simp [collectSessionIds, ih]

/-- An edit that goes through the splits and changes one leaf. -/
structure Acts (f : LayoutNode ρ → LayoutNode ρ) (s : String) (target : LayoutNode ρ) : Prop where
  self : f (.leaf s) = target
  other : ∀ s', s' ≠ s → f (.leaf s') = .leaf s'
  split : ∀ i o r a b, f (.split i o r a b) = .split i o r (f a) (f b)

theorem Acts.absent {f : LayoutNode ρ → LayoutNode ρ} {s : String} {target : LayoutNode ρ}
    (hf : Acts f s target) (hs : s ∉ collectSessionIds node) : f node = node := by
  induction node with
  | leaf s' =>
    refine hf.other s' fun heq => hs ?_
    simp [collectSessionIds, heq]
  | split i o r first second ihfirst ihsecond =>
    rw [collectSessionIds, List.mem_append, not_or] at hs
    rw [hf.split, ihfirst hs.1, ihsecond hs.2]

/-- The leaf of a session that occurs once is the only place that changes. -/
theorem Acts.present {f : LayoutNode ρ → LayoutNode ρ} {s : String} {target : LayoutNode ρ}
    (hf : Acts f s target) (hnodup : (collectSessionIds node).Nodup)
    (hs : s ∈ collectSessionIds node) :
    ∃ turns, node = fill turns (.leaf s) ∧ f node = fill turns target := by
  induction node with
  | leaf s' =>
    obtain rfl : s = s' := by simpa [collectSessionIds] using hs
    exact ⟨[], rfl, hf.self⟩
  | split i o r first second ihfirst ihsecond =>
    obtain ⟨hfirst, hsecond, hdisjoint⟩ := List.nodup_append'.1 hnodup
    obtain hs | hs := List.mem_append.1 hs
    · obtain ⟨turns, hnode, hfill⟩ := ihfirst hfirst hs
      refine ⟨.first i o r second :: turns, congrArg (LayoutNode.split i o r · second) hnode, ?_⟩
      rw [hf.split, hf.absent (hdisjoint hs), hfill]
      rfl
    · obtain ⟨turns, hnode, hfill⟩ := ihsecond hsecond hs
      refine ⟨.second i o r first :: turns, congrArg (LayoutNode.split i o r first) hnode, ?_⟩
      rw [hf.split, hf.absent fun h => hdisjoint h hs, hfill]
      rfl

theorem acts_splitLeaf (s s' id : String) (o : SplitOrientation) :
    Acts (splitLeaf ratios s s' id o) s (split ratios id o (.leaf s) (.leaf s')) where
  self := by simp [splitLeaf]
  other t ht := by simp [splitLeaf, ht]
  split _ _ _ _ _ := rfl

theorem acts_replaceSession (source target : String) :
    Acts (replaceSession (ρ := ρ) source target) source (.leaf target) where
  self := by simp [replaceSession]
  other t ht := by simp [replaceSession, ht]
  split _ _ _ _ _ := rfl

theorem removeSession_absent {s : String} (hs : s ∉ collectSessionIds node) :
    removeSession s node = some node := by
  induction node with
  | leaf s' =>
    have hne : s' ≠ s := fun heq => hs (by simp [collectSessionIds, heq])
    simp [removeSession, hne]
  | split i o r first second ihfirst ihsecond =>
    rw [collectSessionIds, List.mem_append, not_or] at hs
    simp [removeSession, ihfirst hs.1, ihsecond hs.2]

/-- The parent of the removed leaf gives way to the other child. -/
theorem removeSession_present {s : String} (hnodup : (collectSessionIds node).Nodup)
    (hs : s ∈ collectSessionIds node) : (node = .leaf s ∧ removeSession s node = none) ∨
      ∃ turns, ∃ turn : Turn ρ, node = fill turns (turn.fill (.leaf s)) ∧
        removeSession s node = some (fill turns turn.sibling) := by
  induction node with
  | leaf s' =>
    obtain rfl : s = s' := by simpa [collectSessionIds] using hs
    exact Or.inl ⟨rfl, by simp [removeSession]⟩
  | split i o r first second ihfirst ihsecond =>
    refine Or.inr ?_
    obtain ⟨hfirst, hsecond, hdisjoint⟩ := List.nodup_append'.1 hnodup
    obtain hs | hs := List.mem_append.1 hs
    · have hkept : removeSession s second = some second := removeSession_absent (hdisjoint hs)
      obtain ⟨rfl, hnone⟩ | ⟨turns, turn, hnode, hsome⟩ := ihfirst hfirst hs
      · exact ⟨[], .first i o r second, rfl, by simp [removeSession, hkept, fill, Turn.sibling]⟩
      · refine ⟨.first i o r second :: turns, turn, congrArg (LayoutNode.split i o r · second) hnode, ?_⟩
        simp [removeSession, hkept, hsome, fill, Turn.fill]
    · have hkept : removeSession s first = some first :=
        removeSession_absent fun h => hdisjoint h hs
      obtain ⟨rfl, hnone⟩ | ⟨turns, turn, hnode, hsome⟩ := ihsecond hsecond hs
      · exact ⟨[], .second i o r first, rfl, by simp [removeSession, hkept, fill, Turn.sibling]⟩
      · refine ⟨.second i o r first :: turns, turn, congrArg (LayoutNode.split i o r first) hnode, ?_⟩
        simp [removeSession, hkept, hsome, fill, Turn.fill]

theorem setSplitRatio_absent {splitId : String} {ratio : ρ} (hs : splitId ∉ splitIds node) :
    setSplitRatio ratios splitId ratio node = node := by
  induction node with
  | leaf s => rfl
  | split i o r first second ihfirst ihsecond =>
    rw [splitIds, List.mem_cons, List.mem_append, not_or, not_or] at hs
    rw [setSplitRatio, if_neg (Ne.symm hs.1), ihfirst hs.2.1, ihsecond hs.2.2]

theorem setSplitRatio_present {splitId : String} {ratio : ρ} (hnodup : (splitIds node).Nodup)
    (hs : splitId ∈ splitIds node) : ∃ turns o r a b,
      node = fill turns (.split splitId o r a b) ∧ setSplitRatio ratios splitId ratio node =
        fill turns (.split splitId o (ratios.clampRatio ratio) a b) := by
  induction node with
  | leaf s => cases hs
  | split i o r first second ihfirst ihsecond =>
    obtain ⟨hi, hrest⟩ := List.nodup_cons.1 hnodup
    obtain ⟨hfirst, hsecond, hdisjoint⟩ := List.nodup_append'.1 hrest
    obtain rfl | hs := List.mem_cons.1 hs
    · exact ⟨[], o, r, first, second, rfl, by simp [setSplitRatio, fill]⟩
    have hne : i ≠ splitId := by
      rintro rfl
      exact hi hs
    rw [setSplitRatio, if_neg hne]
    obtain hs | hs := List.mem_append.1 hs
    · obtain ⟨turns, o', r', a, b, hnode, hfill⟩ := ihfirst hfirst hs
      refine ⟨.first i o r second :: turns, o', r', a, b,
        congrArg (LayoutNode.split i o r · second) hnode, ?_⟩
      rw [setSplitRatio_absent (hdisjoint hs), hfill]
      rfl
    · obtain ⟨turns, o', r', a, b, hnode, hfill⟩ := ihsecond hsecond hs
      refine ⟨.second i o r first :: turns, o', r', a, b,
        congrArg (LayoutNode.split i o r first) hnode, ?_⟩
      rw [setSplitRatio_absent fun h => hdisjoint h hs, hfill]
      rfl

theorem unset_setSplitRatio (splitId : String) (ratio r₀ : ρ) (node : LayoutNode ρ) :
    unset splitId r₀ (setSplitRatio ratios splitId ratio node) = unset splitId r₀ node := by
  induction node with
  | leaf s => rfl
  | split i o r first second ihfirst ihsecond =>
    rw [setSplitRatio]
    split
    · rename_i h
      simp [unset, h]
    · simp [unset, ihfirst, ihsecond]

/-- What the tree of one step has to do with the tree before. -/
theorem local_perform (hnodup : (collectSessionIds node).Nodup) (operation : Operation ρ) :
    Local ratios node operation (perform ratios (some node) operation) := by
  cases operation with
  | splitLeaf s s' id o =>
    refine ⟨fun hs => congrArg some ((acts_splitLeaf s s' id o).absent hs), fun hs => ?_⟩
    have hacts : Acts (splitLeaf ratios s s' id o) s (split ratios id o (.leaf s) (.leaf s')) :=
      acts_splitLeaf s s' id o
    obtain ⟨turns, hnode, hfill⟩ := hacts.present hnodup hs
    exact ⟨turns, hnode, congrArg some hfill⟩
  | removeSession s => exact ⟨removeSession_absent, removeSession_present hnodup⟩
  | replaceSession source target =>
    refine ⟨fun hs => congrArg some ((acts_replaceSession source target).absent hs), fun hs => ?_⟩
    obtain ⟨turns, hnode, hfill⟩ := (acts_replaceSession source target).present hnodup hs
    exact ⟨turns, hnode, congrArg some hfill⟩
  | setSplitRatio splitId ratio =>
    refine ⟨fun hs => congrArg some (setSplitRatio_absent hs), fun hids hs => ?_, _, rfl,
      fun r₀ => unset_setSplitRatio splitId ratio r₀ node⟩
    obtain ⟨turns, o, r, a, b, hnode, hfill⟩ := setSplitRatio_present hids hs
    exact ⟨turns, o, r, a, b, hnode, congrArg some hfill⟩

theorem sessions_removeSession (s : String) (node : LayoutNode ρ) :
    sessions (removeSession s node) = (collectSessionIds node).filter (· ≠ s) := by
  induction node with
  | leaf s' =>
    by_cases h : s' = s <;> simp [removeSession, sessions, collectSessionIds, h]
  | split i o r first second ihfirst ihsecond =>
    rw [collectSessionIds, List.filter_append, ← ihfirst, ← ihsecond, removeSession]
    cases removeSession s first <;> cases removeSession s second <;>
      simp [sessions, collectSessionIds]

/-- The sessions change as their list is edited. -/
theorem sessions_perform (x : Option (LayoutNode ρ)) (operation : Operation ρ) :
    sessions (perform ratios x operation) = edit (sessions x) operation := by
  cases x with
  | none => cases operation <;> rfl
  | some node =>
    cases operation with
    | splitLeaf s s' id o =>
      change collectSessionIds (splitLeaf ratios s s' id o node) =
        (collectSessionIds node).flatMap fun t => if t = s then [t, s'] else [t]
      induction node with
      | leaf t =>
        by_cases h : t = s <;> simp [splitLeaf, split, collectSessionIds, h]
      | split i o r first second ihfirst ihsecond =>
        rw [splitLeaf, collectSessionIds, ihfirst, ihsecond, collectSessionIds,
          List.flatMap_append]
    | removeSession s => exact sessions_removeSession s node
    | replaceSession source target =>
      change collectSessionIds (replaceSession source target node) =
        (collectSessionIds node).map fun t => if t = source then target else t
      induction node with
      | leaf t =>
        by_cases h : t = source <;> simp [replaceSession, collectSessionIds, h]
      | split i o r first second ihfirst ihsecond =>
        rw [replaceSession, collectSessionIds, ihfirst, ihsecond, collectSessionIds,
          List.map_append]
    | setSplitRatio splitId ratio =>
      change collectSessionIds (setSplitRatio ratios splitId ratio node) = collectSessionIds node
      induction node with
      | leaf t => rfl
      | split i o r first second ihfirst ihsecond =>
        rw [setSplitRatio]
        split
        · rfl
        · rw [collectSessionIds, ihfirst, ihsecond, collectSessionIds]

theorem nodup_edit {x : Option (LayoutNode ρ)} {operation : Operation ρ}
    (hnodup : (sessions x).Nodup) (hfresh : Fresh x operation) :
    (edit (sessions x) operation).Nodup := by
  cases operation with
  | splitLeaf s s' id o =>
    refine List.nodup_flatMap.2 ⟨fun t ht => ?_, hnodup.imp_of_mem fun {t u} ht hu htu => ?_⟩
    · split
      · have hne : t ≠ s' := by
          rintro rfl
          exact hfresh ht
        simp [hne]
      · simp
    · have ht' : t ≠ s' := by
        rintro rfl
        exact hfresh ht
      have hu' : u ≠ s' := by
        rintro rfl
        exact hfresh hu
      intro w hw hw'
      have hcases : ∀ v, (w ∈ if v = s then [v, s'] else [v]) → w = v ∨ (v = s ∧ w = s') := by
        intro v hv
        split at hv
        · rename_i heq
          simpa [heq] using hv
        · exact Or.inl (List.mem_singleton.1 hv)
      have hcase := hcases u hw'
      obtain rfl | ⟨rfl, rfl⟩ := hcases t hw
      · obtain rfl | ⟨-, rfl⟩ := hcase
        · exact htu rfl
        · exact ht' rfl
      · obtain rfl | ⟨rfl, -⟩ := hcase
        · exact hu' rfl
        · exact htu rfl
  | removeSession s => exact hnodup.filter _
  | replaceSession source target =>
    refine hnodup.map_on fun t ht u hu heq => ?_
    have ht' : t ≠ target := by
      rintro rfl
      exact hfresh ht
    have hu' : u ≠ target := by
      rintro rfl
      exact hfresh hu
    split at heq <;> split at heq <;> simp_all
  | setSplitRatio splitId ratio => exact hnodup

end Operations

/-! ## Runs -/

section Runs
variable {ratios : Ratios ρ}

theorem sessions_eq_nil {x : Option (LayoutNode ρ)} : sessions x = [] ↔ x = none := by
  cases x with
  | none => simp [sessions]
  | some node => simp [sessions, collectSessionIds_ne_nil]

theorem sessions_run (x : Option (LayoutNode ρ)) (operations : List (Operation ρ)) :
    sessions (run ratios x operations) = operations.foldl edit (sessions x) := by
  induction operations generalizing x with
  | nil => rfl
  | cons operation operations ih =>
    change sessions (run ratios (perform ratios x operation) operations) = _
    rw [ih, sessions_perform]
    rfl

theorem nodup_run {x : Option (LayoutNode ρ)} {operations : List (Operation ρ)}
    (hnodup : (sessions x).Nodup) (h : Along ratios x operations) :
    (sessions (run ratios x operations)).Nodup := by
  induction operations generalizing x with
  | nil => exact hnodup
  | cons operation operations ih =>
    refine ih ?_ h.2
    rw [sessions_perform]
    exact nodup_edit hnodup h.1

theorem along_of_append {x : Option (LayoutNode ρ)} {before after : List (Operation ρ)}
    (h : Along ratios x (before ++ after)) : Along ratios x before := by
  induction before generalizing x with
  | nil => trivial
  | cons operation before ih => exact ⟨h.1, ih h.2⟩

theorem pane_layout (ratios : Ratios ρ) {node : LayoutNode ρ} {operations : List (Operation ρ)}
    (hnodup : (collectSessionIds node).Nodup) (h : Along ratios (some node) operations) :
    sessions (run ratios (some node) operations) =
        operations.foldl edit (collectSessionIds node) ∧
      (sessions (run ratios (some node) operations)).Nodup ∧
      (run ratios (some node) operations = none ↔
        operations.foldl edit (collectSessionIds node) = []) ∧
      ∀ before operation after node', operations = before ++ operation :: after →
        run ratios (some node) before = some node' →
          Local ratios node' operation (perform ratios (some node') operation) := by
  have hnodup : (sessions (some node)).Nodup := hnodup
  refine ⟨sessions_run _ _, nodup_run hnodup h, ?_, fun before operation after node' hsplit hrun => ?_⟩
  · rw [← sessions_eq_nil, sessions_run]
    rfl
  · rw [hsplit] at h
    have hnodup' := nodup_run hnodup (along_of_append h)
    rw [hrun] at hnodup'
    exact local_perform hnodup' operation

def sampleRatios : Ratios ℚ := ⟨fun r => min (85 / 100) (max (15 / 100) r), 1 / 2⟩

def sampleOperations : List (Operation ℚ) :=
  [.splitLeaf "a" "b" "s" .horizontal, .splitLeaf "a" "c" "t" .vertical, .setSplitRatio "s" 2,
    .removeSession "a", .replaceSession "b" "d", .removeSession "c"]

theorem pane_layout_sample :
    sessions (run sampleRatios (some (.leaf "a")) sampleOperations) = ["d"] := by
  have h : Along sampleRatios (some (.leaf "a")) sampleOperations := by
    refine ⟨?_, ?_, trivial, trivial, ?_, trivial, trivial⟩ <;> unfold Fresh <;> decide +kernel
  have hnodup : (collectSessionIds (.leaf "a" : LayoutNode ℚ)).Nodup := List.nodup_singleton "a"
  rw [(pane_layout sampleRatios hnodup h).1]
  decide +kernel

end Runs
end Tethra.PaneLayouts
