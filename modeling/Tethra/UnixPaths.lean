import Mathlib.Tactic

set_option autoImplicit false

/-!
# Paths as the standard library reads them on Unix

A path is text. Its components skip empty segments and dots that are not in front.
-/
namespace Tethra.UnixPaths

abbrev PathBuf := List Char

inductive Component where
  | rootDir
  | curDir
  | parentDir
  | normal (name : List Char)
  deriving DecidableEq

/-- Neither the root nor a parent. -/
def Component.Ordinary : Component → Prop
  | .rootDir => False
  | .parentDir => False
  | .curDir => True
  | .normal _ => True

instance (c : Component) : Decidable c.Ordinary :=
  match c with
  | .rootDir => isFalse id
  | .parentDir => isFalse id
  | .curDir => isTrue trivial
  | .normal _ => isTrue trivial

/-- The texts between slashes. -/
def segments : List Char → List (List Char)
  | [] => [[]]
  | c :: text =>
    if c = '/' then [] :: segments text
    else match segments text with
      | [] => [[c]]
      | segment :: rest => (c :: segment) :: rest

def segmentComponent : List Char → Option Component
  | [] => none
  | ['.'] => none
  | ['.', '.'] => some .parentDir
  | name => some (.normal name)

/-- The components that are neither the root nor a dot in front. -/
def body (path : PathBuf) : List Component := (segments path).filterMap segmentComponent

def isAbsolute (path : PathBuf) : Bool := path.head? = some '/'

def front (path : PathBuf) : List Component :=
  if isAbsolute path then [.rootDir]
  else if (segments path).head? = some ['.'] then [.curDir] else []

def components (path : PathBuf) : List Component := front path ++ body path

/-- `Path::join`: an absolute path replaces, a separator is added where there is none. -/
def join (dir path : PathBuf) : PathBuf :=
  if isAbsolute path then path
  else if dir = [] ∨ dir.getLast? = some '/' then dir ++ path
  else dir ++ '/' :: path

/-- The components of `Path::parent`. -/
def parent (path : List Component) : Option (List Component) :=
  match path.getLast? with
  | none => none
  | some .rootDir => none
  | some _ => some path.dropLast

theorem segments_ne_nil (text : List Char) : segments text ≠ [] := by
  cases text with
  | nil => simp [segments]
  | cons c text =>
    unfold segments
    split
    · simp
    · split <;> simp

theorem segments_append_slash (a b : List Char) :
    segments (a ++ '/' :: b) = segments a ++ segments b := by
  induction a with
  | nil => simp [segments]
  | cons c a ih =>
    rw [List.cons_append, segments, segments, ih]
    by_cases hc : c = '/'
    · rw [if_pos hc, if_pos hc]
      rfl
    · rw [if_neg hc, if_neg hc]
      cases hs : segments a with
      | nil => exact absurd hs (segments_ne_nil a)
      | cons segment rest => rfl

theorem body_append_slash (a b : List Char) : body (a ++ '/' :: b) = body a ++ body b := by
  rw [body, segments_append_slash, List.filterMap_append]
  rfl

theorem body_nil : body [] = [] := rfl

theorem components_nil : components [] = [] := rfl

/-- A longer path starts as the path it extends. -/
theorem front_append_slash {a : List Char} (ha : a ≠ []) (b : List Char) :
    front (a ++ '/' :: b) = front a := by
  have habs : isAbsolute (a ++ '/' :: b) = isAbsolute a := by
    cases a with
    | nil => exact absurd rfl ha
    | cons c a => rfl
  have hhead : (segments (a ++ '/' :: b)).head? = (segments a).head? := by
    rw [segments_append_slash]
    exact List.head?_append_of_ne_nil _ (segments_ne_nil a)
  rw [front, front, habs, hhead]

theorem components_append_slash {a : List Char} (ha : a ≠ []) (b : List Char) :
    components (a ++ '/' :: b) = components a ++ body b := by
  rw [components, front_append_slash ha, body_append_slash, components, List.append_assoc]

/-- The components of a relative path, after those of the directory. -/
theorem components_join {dir path : PathBuf} (hdir : dir ≠ []) (hpath : isAbsolute path = false) :
    components (join dir path) = components dir ++ body path := by
  unfold join
  rw [hpath, if_neg (by decide)]
  split
  · rename_i hlast
    obtain ⟨a, rfl⟩ : ∃ a, dir = a ++ ['/'] := List.getLast?_eq_some_iff.1 (hlast.resolve_left hdir)
    rw [List.append_assoc]
    change components (a ++ '/' :: path) = components (a ++ '/' :: []) ++ body path
    cases a with
    | nil => rfl
    | cons c a =>
      rw [components_append_slash (List.cons_ne_nil c a),
        components_append_slash (List.cons_ne_nil c a), body_nil, List.append_nil]
  · exact components_append_slash hdir path

theorem join_nil {path : PathBuf} : join [] path = path := by
  unfold join
  split
  · rfl
  · rw [if_pos (Or.inl rfl), List.nil_append]

theorem join_absolute {dir path : PathBuf} (h : isAbsolute path = true) : join dir path = path := by
  rw [join, if_pos h]

theorem ordinary_front {path : PathBuf} (h : isAbsolute path = false) :
    ∀ c ∈ front path, c.Ordinary := by
  intro c hc
  rw [front, h, if_neg (by decide)] at hc
  split at hc
  · rw [List.mem_singleton.1 hc]
    trivial
  · cases hc

theorem segmentComponent_ne_root (segment : List Char) :
    segmentComponent segment ≠ some .rootDir := by
  unfold segmentComponent
  split <;> simp

theorem ordinary_body {path : PathBuf} :
    (∀ c ∈ body path, c.Ordinary) ↔ Component.parentDir ∉ body path := by
  constructor
  · exact fun h hmem => h _ hmem
  · intro h c hc
    cases c with
    | rootDir =>
      obtain ⟨segment, -, hseg⟩ := List.mem_filterMap.1 hc
      exact absurd hseg (segmentComponent_ne_root segment)
    | curDir => trivial
    | parentDir => exact absurd hc h
    | normal name => trivial

/-- The directory's components, followed by ordinary ones. -/
def InsideOf (root path : List Component) : Prop :=
  ∃ rest, path = root ++ rest ∧ ∀ c ∈ rest, c.Ordinary

def Inside (root path : PathBuf) : Prop := InsideOf (components root) (components path)

/-- Joining the name to a directory inside `root` stays inside. -/
def Stays (root name : PathBuf) : Prop :=
  if isAbsolute name then Inside root name else Component.parentDir ∉ body name

theorem inside_refl (root : PathBuf) : Inside root root :=
  ⟨[], (List.append_nil _).symm, fun _ h => by cases h⟩

theorem inside_join {root dir name : PathBuf} (hdir : Inside root dir) :
    Inside root (join dir name) ↔ Stays root name := by
  unfold Stays
  cases habs : isAbsolute name with
  | true => rw [if_pos rfl, join_absolute habs]
  | false =>
    rw [if_neg (by decide), ← ordinary_body]
    obtain ⟨rest, hrest, hord⟩ := hdir
    by_cases hnil : dir = []
    · subst hnil
      rw [components_nil] at hrest
      obtain ⟨hroot, -⟩ := List.append_eq_nil_iff.1 hrest.symm
      rw [join_nil, Inside, hroot]
      constructor
      · rintro ⟨more, hmore, hall⟩ c hc
        refine hall c ?_
        rw [List.nil_append] at hmore
        rw [← hmore]
        exact List.mem_append_right _ hc
      · intro hall
        refine ⟨components name, (List.nil_append _).symm, fun c hc => ?_⟩
        obtain hc | hc := List.mem_append.1 hc
        · exact ordinary_front habs c hc
        · exact hall c hc
    · rw [Inside, components_join hnil habs, hrest, List.append_assoc]
      constructor
      · rintro ⟨more, hmore, hall⟩ c hc
        refine hall c ?_
        rw [← List.append_cancel_left hmore]
        exact List.mem_append_right _ hc
      · intro hall
        refine ⟨rest ++ body name, rfl, fun c hc => ?_⟩
        obtain hc | hc := List.mem_append.1 hc
        · exact hord c hc
        · exact hall c hc

/-- The parent of a path inside is inside, or above the root. -/
theorem insideOf_parent {root path up : List Component} (h : InsideOf root path)
    (hup : parent path = some up) : InsideOf root up ∨ up <+: root := by
  obtain ⟨rest, rfl, hord⟩ := h
  have hdrop : up = (root ++ rest).dropLast := by
    unfold parent at hup
    split at hup
    · cases hup
    · cases hup
    · exact (Option.some.inj hup).symm
  cases rest using List.reverseRecOn with
  | nil =>
    rw [hdrop, List.append_nil]
    exact Or.inr (List.dropLast_prefix root)
  | append_singleton rest c =>
    refine Or.inl ⟨rest, ?_, fun d hd => hord d (List.mem_append_left _ hd)⟩
    rw [hdrop, ← List.append_assoc, List.dropLast_concat]

end Tethra.UnixPaths
