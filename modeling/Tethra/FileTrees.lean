import Mathlib.Data.List.Induction
import Mathlib.Data.List.Nodup

/-!
Finite file trees with symbolic links, and the calls that read a path in them: how a path is
walked, what it names, and how an entry is listed or removed.
-/

namespace Tethra.FileTrees

/-- Bytes that a directory can hold as a name: `.` and `..` are directions instead. -/
def proper (bytes : List UInt8) : Bool :=
  !bytes.isEmpty && bytes.all (fun b => b != 0 && b != 47) &&
    bytes != [46] && bytes != [46, 46]

structure Name where
  bytes : List UInt8
  isProper : proper bytes = true
deriving DecidableEq

inductive Step where
  | self
  | parent
  | name (n : Name)
deriving DecidableEq

/-- A path as its walker reads it: repeated slashes are one, and one may stand at the end. -/
structure Path where
  steps : List Step
  slash : Bool
deriving DecidableEq

def Path.join (p : Path) (n : Name) : Path := ⟨p.steps ++ [.name n], false⟩

/-- The names that lead from the root to an entry through directories. -/
abbrev Location := List Name

inductive Entry where
  | file (content : List UInt8)
  | link (absolute : Bool) (target : Path)
  | dir
deriving DecidableEq

inductive Errno where
  | notFound
  | notDirectory
  | isDirectory
  | notEmpty
  | tooManyLinks
  | invalid
  | busy
deriving DecidableEq

/-- The entries below the root, each in a directory of the tree. -/
structure FileTree where
  entries : List (Location × Entry)
  nodup : (entries.map Prod.fst).Nodup
  below : [] ∉ entries.map Prod.fst
  parents : ∀ x ∈ entries.map Prod.fst, x.dropLast = [] ∨ (x.dropLast, .dir) ∈ entries

namespace FileTree
variable (t : FileTree)

def entryAt (l : Location) : Option Entry :=
  if l = [] then some .dir else (t.entries.find? (·.1 = l)).map Prod.snd

/-- The name of a location within the directory `l`. -/
def nameIn (l x : Location) : Option Name :=
  if x.dropLast = l then x.getLast? else none

def children (l : Location) : List Name :=
  (t.entries.map Prod.fst).filterMap (nameIn l)

def depth : ℕ := (t.entries.map (·.1.length)).foldr max 0

/-! ## Entries -/

theorem nameIn_eq_some {l x : Location} {n : Name} : nameIn l x = some n ↔ x = l ++ [n] := by
  unfold nameIn
  constructor
  · intro h
    split at h
    · rename_i hl
      rw [← hl]
      exact (List.dropLast_append_getLast? n h).symm
    · cases h
  · rintro rfl
    rw [if_pos List.dropLast_concat, List.getLast?_concat]

variable {t}

theorem entryAt_mem {l : Location} {e : Entry} (hl : l ≠ []) :
    t.entryAt l = some e ↔ (l, e) ∈ t.entries := by
  unfold entryAt
  rw [if_neg hl]
  constructor
  · intro h
    obtain ⟨⟨x, e'⟩, hfind, rfl⟩ := Option.map_eq_some_iff.1 h
    have hx : x = l := by simpa using List.find?_some hfind
    exact hx ▸ List.mem_of_find?_eq_some hfind
  · intro h
    cases hfind : t.entries.find? (·.1 = l) with
    | none =>
      have := List.find?_eq_none.1 hfind _ h
      simp at this
    | some found =>
      have hx : found.1 = l := by simpa using List.find?_some hfind
      have hsame := List.inj_on_of_nodup_map t.nodup (List.mem_of_find?_eq_some hfind) h hx
      rw [hsame]
      rfl

theorem entryAt_isSome {l : Location} (hl : l ≠ []) :
    (t.entryAt l).isSome ↔ l ∈ t.entries.map Prod.fst := by
  rw [Option.isSome_iff_exists, List.mem_map]
  constructor
  · rintro ⟨e, he⟩
    exact ⟨_, (entryAt_mem hl).1 he, rfl⟩
  · rintro ⟨⟨x, e⟩, he, rfl⟩
    exact ⟨e, (entryAt_mem hl).2 he⟩

theorem entryAt_root : t.entryAt [] = some .dir := rfl

/-- What an entry stands in is a directory. -/
theorem entryAt_parent {l : Location} {n : Name} (h : (t.entryAt (l ++ [n])).isSome) :
    t.entryAt l = some .dir := by
  have hne : l ++ [n] ≠ [] := by simp
  have hparents := t.parents _ ((entryAt_isSome hne).1 h)
  rw [List.dropLast_concat] at hparents
  rcases hparents with rfl | hdir
  · rfl
  · refine (entryAt_mem ?_).2 hdir
    rintro rfl
    exact t.below (List.mem_map_of_mem hdir)

theorem mem_children {l : Location} {n : Name} :
    n ∈ t.children l ↔ (t.entryAt (l ++ [n])).isSome := by
  have hne : l ++ [n] ≠ [] := by simp
  rw [entryAt_isSome hne, children, List.mem_filterMap]
  constructor
  · rintro ⟨x, hx, hname⟩
    exact nameIn_eq_some.1 hname ▸ hx
  · intro h
    exact ⟨_, h, nameIn_eq_some.2 rfl⟩

theorem nodup_children (l : Location) : (t.children l).Nodup := by
  refine List.Nodup.filterMap ?_ t.nodup
  intro x y n hx hy
  rw [nameIn_eq_some.1 hx, nameIn_eq_some.1 hy]

/-- Whatever stands below an entry makes it a directory. -/
theorem entryAt_above {l x : Location} (h : (t.entryAt x).isSome) (hl : l <+: x)
    (hne : l ≠ x) : t.entryAt l = some .dir := by
  induction x using List.reverseRecOn with
  | nil => exact absurd (List.prefix_nil.1 hl) hne
  | append_singleton x n ih =>
    have hdir := entryAt_parent h
    rcases List.prefix_concat_iff.1 hl with rfl | hprefix
    · exact absurd rfl hne
    · by_cases hx : l = x
      · exact hx ▸ hdir
      · exact ih (hdir ▸ rfl) hprefix hx

theorem length_le_depth {l : Location} (h : (t.entryAt l).isSome) : l.length ≤ t.depth := by
  have hmax : ∀ (ns : List ℕ) n, n ∈ ns → n ≤ ns.foldr max 0 := by
    intro ns
    induction ns with
    | nil => intro n h; cases h
    | cons m ns ih =>
      intro n h
      rw [List.foldr_cons]
      rcases List.mem_cons.1 h with rfl | h
      · exact Nat.le_max_left _ _
      · exact Nat.le_trans (ih n h) (Nat.le_max_right _ _)
  by_cases hl : l = []
  · rw [hl]
    exact Nat.zero_le _
  · obtain ⟨e, he⟩ := Option.isSome_iff_exists.1 h
    refine hmax _ _ (List.mem_map.2 ⟨_, (entryAt_mem hl).1 he, rfl⟩)

/-! ## Taking an entry away -/

/-- The entries whose locations are kept, and with each the directory it stands in. -/
def restrict (t : FileTree) (keep : Location → Bool)
    (h : ∀ x n, (t.entryAt (x ++ [n])).isSome → keep (x ++ [n]) = true → keep x = true) :
    FileTree where
  entries := t.entries.filter (keep ·.1)
  nodup := t.nodup.sublist (List.filter_sublist.map _)
  below hroot := t.below ((List.filter_sublist.map _).subset hroot)
  parents x hx := by
    have hall := (List.filter_sublist.map _).subset hx
    have hne : x ≠ [] := by
      rintro rfl
      exact t.below hall
    obtain ⟨⟨y, e⟩, hmem, rfl⟩ := List.mem_map.1 hx
    have hlast := List.dropLast_append_getLast hne
    refine (t.parents _ hall).imp id fun hdir => List.mem_filter.2 ⟨hdir, h _ (y.getLast hne) ?_ ?_⟩
    · rw [hlast, entryAt_isSome hne]
      exact hall
    · rw [hlast]
      exact (List.mem_filter.1 hmem).2

theorem entryAt_restrict {keep : Location → Bool}
    (h : ∀ x n, (t.entryAt (x ++ [n])).isSome → keep (x ++ [n]) = true → keep x = true)
    {x : Location} (hx : x ≠ []) :
    (t.restrict keep h).entryAt x = if keep x then t.entryAt x else none := by
  unfold entryAt
  rw [if_neg hx, if_neg hx]
  change Option.map Prod.snd ((t.entries.filter (keep ·.1)).find? _) = _
  rw [List.find?_filter]
  by_cases hkeep : keep x
  · rw [if_pos hkeep]
    congr 2
    funext ⟨y, e⟩
    by_cases hy : y = x
    · simp [hy, hkeep]
    · simp [hy]
  · rw [if_neg hkeep, List.find?_eq_none.2]
    · rfl
    · rintro ⟨y, e⟩ -
      simp only [decide_eq_true_eq, Bool.and_eq_true, Bool.decide_and, not_and]
      rintro hy rfl
      exact hkeep hy

/-- The tree without an entry that nothing stands below. -/
def without (t : FileTree) (l : Location) (h : t.children l = []) : FileTree :=
  t.restrict (· ≠ l) fun x n hx _ => decide_eq_true (by
    rintro rfl
    have hchild := mem_children.2 hx
    rw [h] at hchild
    cases hchild)

theorem entryAt_without {l : Location} (hl : l ≠ []) (h : t.children l = []) (x : Location) :
    (t.without l h).entryAt x = if x = l then none else t.entryAt x := by
  by_cases hroot : x = []
  · rw [hroot, if_neg hl.symm]
    rfl
  · rw [without, entryAt_restrict _ hroot]
    by_cases hx : x = l <;> simp [hx]

/-- The tree with nothing left below `l`. -/
def emptied (t : FileTree) (l : Location) : FileTree :=
  t.restrict (fun x => decide (l <+: x → x = l)) fun x n _ hx => decide_eq_true fun hl => by
    have hsame := of_decide_eq_true hx (hl.trans (List.prefix_append x [n]))
    have hlength := hl.length_le
    rw [← hsame, List.length_append, List.length_singleton] at hlength
    omega

theorem entryAt_emptied (t : FileTree) (l x : Location) :
    (t.emptied l).entryAt x = if l <+: x → x = l then t.entryAt x else none := by
  by_cases hroot : x = []
  · subst hroot
    rw [if_pos fun h => (List.prefix_nil.1 h).symm]
    rfl
  · rw [emptied, entryAt_restrict _ hroot]
    by_cases hl : l <+: x → x = l
    · rw [if_pos hl, if_pos (decide_eq_true hl)]
    · rw [if_neg hl, if_neg (by simpa using hl)]

theorem children_leaf {l : Location} {e : Entry} (h : t.entryAt l = some e) (he : e ≠ .dir) :
    t.children l = [] := by
  refine List.eq_nil_iff_forall_not_mem.2 fun n hn => he ?_
  have hdir := entryAt_parent (mem_children.1 hn)
  rw [h] at hdir
  exact Option.some.inj hdir

/-- `t'` is `t` less some of the entries at `l` or below it. -/
def Pruned (l : Location) (t t' : FileTree) : Prop :=
  ∀ x, t'.entryAt x = t.entryAt x ∨ l <+: x ∧ t'.entryAt x = none

theorem Pruned.refl (l : Location) (t : FileTree) : Pruned l t t := fun _ => Or.inl rfl

theorem Pruned.trans {l : Location} {t t' t'' : FileTree} (h : Pruned l t t')
    (h' : Pruned l t' t'') : Pruned l t t'' := by
  intro x
  rcases h' x with hsame | hgone
  · rw [hsame]
    exact h x
  · exact Or.inr hgone

theorem Pruned.up {l m : Location} {t t' : FileTree} (h : Pruned (l ++ m) t t') :
    Pruned l t t' := by
  intro x
  rcases h x with hsame | ⟨hx, hgone⟩
  · exact Or.inl hsame
  · exact Or.inr ⟨(List.prefix_append l m).trans hx, hgone⟩

theorem Pruned.kept {l : Location} {t t' : FileTree} (h : Pruned l t t') {x : Location}
    {e : Entry} (hx : t'.entryAt x = some e) : t.entryAt x = some e := by
  rcases h x with hsame | ⟨_, hgone⟩
  · exact hsame ▸ hx
  · rw [hx] at hgone
    cases hgone

theorem Pruned.outside {l : Location} {t t' : FileTree} (h : Pruned l t t') {x : Location}
    (hx : ¬ l <+: x) : t'.entryAt x = t.entryAt x :=
  (h x).resolve_right fun hgone => hx hgone.1

theorem pruned_without {l : Location} (hl : l ≠ []) (h : t.children l = []) :
    Pruned l t (t.without l h) := by
  intro x
  rw [entryAt_without hl]
  by_cases hx : x = l
  · rw [if_pos hx, hx]
    exact Or.inr ⟨List.prefix_refl l, rfl⟩
  · rw [if_neg hx]
    exact Or.inl rfl

/-! ## Walking a path -/

variable (t)

/-- Follows the steps from a directory; `next` follows those that a link puts in its place. -/
def walkWith (next : List Step → Location → Except Errno Location) :
    List Step → Location → Except Errno Location
  | [], here => .ok here
  | .self :: rest, here => walkWith next rest here
  | .parent :: rest, here => walkWith next rest here.dropLast
  | .name n :: rest, here =>
    match t.entryAt (here ++ [n]) with
    | none => .error .notFound
    | some .dir => walkWith next rest (here ++ [n])
    | some (.file _) => if rest = [] then .ok (here ++ [n]) else .error .notDirectory
    | some (.link absolute target) =>
      next (target.steps ++ (if target.slash then [.self] else []) ++ rest)
        (if absolute then [] else here)

def walk : ℕ → List Step → Location → Except Errno Location
  | 0 => t.walkWith fun _ _ => .error .tooManyLinks
  | links + 1 => t.walkWith (walk links)

variable {t}

theorem walkWith_kept {t' : FileTree}
    (hkept : ∀ x e, t'.entryAt x = some e → t.entryAt x = some e)
    {next next' : List Step → Location → Except Errno Location}
    (hnext : ∀ steps x y, next' steps x = .ok y → next steps x = .ok y)
    {steps : List Step} {x y : Location} (h : t'.walkWith next' steps x = .ok y) :
    t.walkWith next steps x = .ok y := by
  induction steps generalizing x with
  | nil => exact h
  | cons step rest ih =>
    cases step with
    | self => exact ih h
    | parent => exact ih h
    | name n =>
      rw [walkWith] at h ⊢
      cases hentry : t'.entryAt (x ++ [n]) with
      | none => rw [hentry] at h; cases h
      | some e =>
        rw [hentry] at h
        rw [hkept _ _ hentry]
        cases e with
        | dir => exact ih h
        | file content => exact h
        | link absolute target => exact hnext _ _ _ h

/-- A walk that arrives, arrives in every tree that has the entries it met. -/
theorem walk_kept {t' : FileTree}
    (hkept : ∀ x e, t'.entryAt x = some e → t.entryAt x = some e) {links : ℕ}
    {steps : List Step} {x y : Location} (h : t'.walk links steps x = .ok y) :
    t.walk links steps x = .ok y := by
  induction links generalizing steps x y with
  | zero => exact walkWith_kept hkept (fun _ _ _ h => by cases h) h
  | succ links ih => exact walkWith_kept hkept (fun _ _ _ h => ih h) h

theorem walkWith_append {more : List Step} {y : Location} {result : Except Errno Location}
    {next : List Step → Location → Except Errno Location}
    (hnext : ∀ steps x, next (steps ++ [.self]) x = .ok y → next (steps ++ more) x = result)
    (hmore : t.walkWith next more y = result) {steps : List Step}
    {x : Location} (h : t.walkWith next (steps ++ [.self]) x = .ok y) :
    t.walkWith next (steps ++ more) x = result := by
  induction steps generalizing x with
  | nil =>
    obtain rfl : x = y := Except.ok.inj h
    exact hmore
  | cons step rest ih =>
    cases step with
    | self => exact ih h
    | parent => exact ih h
    | name n =>
      rw [List.cons_append, walkWith] at h ⊢
      cases hentry : t.entryAt (x ++ [n]) with
      | none => rw [hentry] at h; cases h
      | some e =>
        rw [hentry] at h
        cases e with
        | dir => exact ih h
        | file content =>
          have hrest : rest ++ [Step.self] ≠ [] := by simp
          rw [if_neg hrest] at h
          cases h
        | link absolute target =>
          dsimp only at h ⊢
          rw [← List.append_assoc] at h ⊢
          exact hnext _ _ h

/-- A walk goes on from the directory that its first steps lead to. -/
theorem walk_append {more : List Step} {y : Location} {result : Except Errno Location}
    (hmore : ∀ links, t.walk links more y = result) {links : ℕ}
    {steps : List Step} {x : Location} (h : t.walk links (steps ++ [.self]) x = .ok y) :
    t.walk links (steps ++ more) x = result := by
  induction links generalizing steps x with
  | zero => exact walkWith_append (fun _ _ h => by cases h) (hmore 0) h
  | succ links ih => exact walkWith_append (fun _ _ h => ih h) (hmore (links + 1)) h

theorem walkWith_dir {next : List Step → Location → Except Errno Location}
    (hnext : ∀ steps x y, t.entryAt x = some .dir → next (steps ++ [.self]) x = .ok y →
      t.entryAt y = some .dir) {steps : List Step} {x y : Location}
    (hx : t.entryAt x = some .dir) (h : t.walkWith next (steps ++ [.self]) x = .ok y) :
    t.entryAt y = some .dir := by
  induction steps generalizing x with
  | nil => exact Except.ok.inj h ▸ hx
  | cons step rest ih =>
    cases step with
    | self => exact ih hx h
    | parent =>
      refine ih ?_ h
      induction x using List.reverseRecOn with
      | nil => exact hx
      | append_singleton x n =>
        rw [List.dropLast_concat]
        exact entryAt_parent (Option.isSome_of_eq_some hx)
    | name n =>
      rw [List.cons_append, walkWith] at h
      cases hentry : t.entryAt (x ++ [n]) with
      | none => rw [hentry] at h; cases h
      | some e =>
        rw [hentry] at h
        cases e with
        | dir => exact ih hentry h
        | file content =>
          have hrest : rest ++ [Step.self] ≠ [] := by simp
          rw [if_neg hrest] at h
          cases h
        | link absolute target =>
          dsimp only at h
          rw [← List.append_assoc] at h
          refine hnext _ _ _ ?_ h
          cases absolute
          · exact hx
          · rfl

theorem walk_dir {links : ℕ} {steps : List Step} {x y : Location}
    (hx : t.entryAt x = some .dir) (h : t.walk links (steps ++ [.self]) x = .ok y) :
    t.entryAt y = some .dir := by
  induction links generalizing steps x y with
  | zero => exact walkWith_dir (fun _ _ _ _ h => by cases h) hx h
  | succ links ih => exact walkWith_dir (fun _ _ _ hx h => ih hx h) hx h

variable (t)

/-- How many links a walk may follow. -/
def maxLinks : ℕ := 40

/-- The directory that the steps lead to. -/
def directory (steps : List Step) : Except Errno Location :=
  t.walk maxLinks (steps ++ [.self]) []

/-- What a path names when a link at its end stands for itself: a slash behind it asks for the
directory it leads to. -/
def lookup (p : Path) : Except Errno Location :=
  match p.slash, p.steps.getLast? with
  | false, some (.name n) =>
    match t.directory p.steps.dropLast with
    | .error e => .error e
    | .ok here =>
      if (t.entryAt (here ++ [n])).isSome then .ok (here ++ [n]) else .error .notFound
  | _, _ => t.directory p.steps

variable {t}

theorem directory_kept {t' : FileTree}
    (hkept : ∀ x e, t'.entryAt x = some e → t.entryAt x = some e) {steps : List Step}
    {l : Location} (h : t'.directory steps = .ok l) : t.directory steps = .ok l :=
  walk_kept hkept h

theorem directory_dir {steps : List Step} {l : Location} (h : t.directory steps = .ok l) :
    t.entryAt l = some .dir :=
  walk_dir entryAt_root h

theorem directory_child {steps : List Step} {l : Location} {n : Name}
    (h : t.directory steps = .ok l) (hdir : t.entryAt (l ++ [n]) = some .dir) :
    t.directory (steps ++ [.name n]) = .ok (l ++ [n]) := by
  unfold directory
  rw [List.append_assoc]
  refine walk_append (fun links => ?_) h
  cases links <;> simp [walk, walkWith, hdir]

/-- The names of a directory's location lead to it. -/
theorem directory_own {l : Location} (h : t.entryAt l = some .dir) :
    t.directory (l.map .name) = .ok l := by
  induction l using List.reverseRecOn with
  | nil => rfl
  | append_singleton l n ih =>
    rw [List.map_append]
    exact directory_child (ih (entryAt_parent (Option.isSome_of_eq_some h))) h

theorem lookup_join (p : Path) (n : Name) :
    t.lookup (p.join n) =
      match t.directory p.steps with
      | .error e => .error e
      | .ok here =>
        if (t.entryAt (here ++ [n])).isSome then .ok (here ++ [n]) else .error .notFound := by
  simp [lookup, Path.join]

theorem lookup_isSome {p : Path} {l : Location} (h : t.lookup p = .ok l) :
    (t.entryAt l).isSome := by
  unfold lookup at h
  split at h
  · split at h
    · cases h
    · split at h
      · rename_i hsome
        exact Except.ok.inj h ▸ hsome
      · cases h
  · rw [directory_dir h]
    rfl

/-- A directory is opened where its path says. -/
theorem directory_lookup {p : Path} {l : Location} (h : t.lookup p = .ok l)
    (hdir : t.entryAt l = some .dir) : t.directory p.steps = .ok l := by
  unfold lookup at h
  split at h
  · rename_i n _ hlast
    split at h
    · cases h
    · rename_i here hhere
      split at h
      · obtain rfl := Except.ok.inj h
        have hsteps := List.dropLast_append_getLast? _ hlast
        exact hsteps ▸ directory_child hhere hdir
      · cases h
  · exact h

variable (t)

/-! ## Calls -/

/-- What stands at a path, a link at its end unfollowed. -/
def symlinkMetadata (p : Path) : Except Errno Entry :=
  match t.lookup p with
  | .error e => .error e
  | .ok l =>
    match t.entryAt l with
    | none => .error .notFound
    | some e => .ok e

/-- The names in a directory, as it is opened. -/
def readDir (p : Path) : Except Errno (List Name) :=
  match t.directory p.steps with
  | .error e => .error e
  | .ok here => .ok (t.children here)

def removeFile (p : Path) : Except Errno FileTree :=
  match p.steps.getLast? with
  | some (.name n) =>
    match t.directory p.steps.dropLast with
    | .error e => .error e
    | .ok here =>
      if p.slash then .error .notDirectory
      else if h : (t.entryAt (here ++ [n])).isSome then
        if hdir : (t.entryAt (here ++ [n])).get h = .dir then .error .isDirectory
        else .ok (t.without (here ++ [n]) (children_leaf (Option.some_get h).symm hdir))
      else .error .notFound
  | _ => .error .isDirectory

/-- A directory is removed under its own name: not as `.` or `..`, nor through a link. -/
def removeDir (p : Path) : Except Errno FileTree :=
  match p.steps.getLast? with
  | none => .error .busy
  | some .self => .error .invalid
  | some .parent => .error .notEmpty
  | some (.name n) =>
    match t.directory p.steps.dropLast with
    | .error e => .error e
    | .ok here =>
      match t.entryAt (here ++ [n]) with
      | none => .error .notFound
      | some .dir =>
        if h : t.children (here ++ [n]) = [] then .ok (t.without (here ++ [n]) h)
        else .error .notEmpty
      | some _ => .error .notDirectory

variable {t}

theorem symlinkMetadata_ok {p : Path} {l : Location} {e : Entry} (h : t.lookup p = .ok l)
    (he : t.entryAt l = some e) : t.symlinkMetadata p = .ok e := by
  rw [symlinkMetadata, h]
  dsimp only
  rw [he]

theorem readDir_ok {p : Path} {l : Location} (h : t.directory p.steps = .ok l) :
    t.readDir p = .ok (t.children l) := by
  rw [readDir, h]

theorem removeFile_ok {steps : List Step} {n : Name} {here : Location} {e : Entry}
    (h : t.directory steps = .ok here) (hentry : t.entryAt (here ++ [n]) = some e)
    (he : e ≠ .dir) :
    t.removeFile ⟨steps ++ [.name n], false⟩ =
      .ok (t.without (here ++ [n]) (children_leaf hentry he)) := by
  simp [removeFile, h, hentry, he]

theorem removeFile_eq_ok {p : Path} {t' : FileTree} (h : t.removeFile p = .ok t') :
    ∃ steps n here e hchildren, p = ⟨steps ++ [.name n], false⟩ ∧
      t.directory steps = .ok here ∧ t.entryAt (here ++ [n]) = some e ∧ e ≠ .dir ∧
      t' = t.without (here ++ [n]) hchildren := by
  unfold removeFile at h
  split at h
  · rename_i n hlast
    split at h
    · cases h
    · rename_i here hhere
      split at h
      · cases h
      · rename_i hslash
        split at h
        · rename_i hsome
          split at h
          · cases h
          · rename_i hdir
            have hentry := (Option.some_get hsome).symm
            refine ⟨_, n, here, _, children_leaf hentry hdir, ?_, hhere, hentry, hdir,
              (Except.ok.inj h).symm⟩
            rw [List.dropLast_append_getLast? _ hlast, ← Bool.eq_false_iff.2 hslash]
        · cases h
  · cases h

theorem removeDir_ok {steps : List Step} {slash : Bool} {n : Name} {here : Location}
    (h : t.directory steps = .ok here) (hentry : t.entryAt (here ++ [n]) = some .dir)
    (hchildren : t.children (here ++ [n]) = []) :
    t.removeDir ⟨steps ++ [.name n], slash⟩ = .ok (t.without (here ++ [n]) hchildren) := by
  simp [removeDir, h, hentry, hchildren]

theorem removeDir_eq_ok {p : Path} {t' : FileTree} (h : t.removeDir p = .ok t') :
    ∃ steps n here hchildren, p.steps = steps ++ [.name n] ∧
      t.directory steps = .ok here ∧ t.entryAt (here ++ [n]) = some .dir ∧
      t' = t.without (here ++ [n]) hchildren := by
  unfold removeDir at h
  split at h
  · cases h
  · cases h
  · cases h
  · rename_i n hlast
    split at h
    · cases h
    · rename_i here hhere
      split at h
      · cases h
      · rename_i hentry
        split at h
        · rename_i hchildren
          exact ⟨_, n, here, hchildren, (List.dropLast_append_getLast? _ hlast).symm, hhere,
            hentry, (Except.ok.inj h).symm⟩
        · cases h
      · cases h

end FileTree

end Tethra.FileTrees
