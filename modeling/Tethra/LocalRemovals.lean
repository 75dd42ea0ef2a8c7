import Tethra.FileTrees

/-!
Removing files of this machine: what `remove_path` takes away, and that it ends.
-/

namespace Tethra.LocalRemovals

open FileTrees FileTrees.FileTree

/-! ## The commands -/

abbrev Outcome := Except Errno Unit

def finish (t : FileTree) : Except Errno FileTree → FileTree × Outcome
  | .ok t' => (t', .ok ())
  | .error e => (t, .error e)

/-- The loop over a directory's names; it stops at the first error. -/
def removeEach (remove : Path → FileTree → Option (FileTree × Outcome)) (p : Path) :
    List Name → FileTree → Option (FileTree × Outcome)
  | [], t => some (t, .ok ())
  | n :: rest, t =>
    match remove (p.join n) t with
    | some (t', .ok ()) => removeEach remove p rest t'
    | other => other

/-- `fuel` bounds the recursion. -/
def removePath : ℕ → Bool → Path → FileTree → Option (FileTree × Outcome)
  | 0, _, _, _ => none
  | fuel + 1, recursive, p, t =>
    match t.symlinkMetadata p with
    | .error e => some (t, .error e)
    | .ok (.link _ _) => some (finish t (t.removeFile p))
    | .ok .dir =>
      if recursive then
        match t.readDir p with
        | .error e => some (t, .error e)
        | .ok names =>
          match removeEach (removePath fuel true) p names t with
          | some (t', .ok ()) => some (finish t' (t'.removeDir p))
          | other => other
      else some (finish t (t.removeDir p))
    | .ok (.file _) => some (finish t (t.removeFile p))

inductive Refusal where
  | notAbsolute
  | traversal
  | root
  | system (e : Errno)
deriving DecidableEq

def Refusal.text (describe : Errno → String) : Refusal → String
  | .notAbsolute => "path must be absolute"
  | .traversal => "path traversal is not allowed"
  | .root => "cannot remove root path"
  | .system e => describe e

def validateLocalPath (absolute : Bool) (p : Path) : Except Refusal Unit :=
  if !absolute then .error .notAbsolute
  else if p.steps.contains .parent then .error .traversal
  else .ok ()

/-- The last component, once those that stay where they are have been passed over. -/
def fileName (p : Path) : Option Name :=
  match (p.steps.filter (· ≠ .self)).getLast? with
  | some (.name n) => some n
  | _ => none

def localRemove (fuel : ℕ) (absolute : Bool) (p : Path) (recursive : Bool) (t : FileTree) :
    Option (FileTree × Except Refusal Unit) :=
  match validateLocalPath absolute p with
  | .error e => some (t, .error e)
  | .ok () =>
    if (fileName p).isNone then some (t, .error .root)
    else (removePath fuel recursive p t).map fun done =>
      (done.1, match done.2 with | .ok () => .ok () | .error e => .error (.system e))

/-! ## Nothing outside -/

variable {t t' : FileTree} {p : Path} {l : Location}

theorem finish_ok {r : Except Errno FileTree} (h : finish t r = (t', .ok ())) : r = .ok t' := by
  cases r with
  | error e => cases h
  | ok u => exact congrArg Except.ok (congrArg Prod.fst h)

theorem location_of_entry {steps : List Step} {n : Name} {here : Location} {e : Entry}
    (hhere : t.directory steps = .ok here) (he : t.entryAt (here ++ [n]) = some e)
    (hl : t.lookup ⟨steps ++ [.name n], false⟩ = .ok l) : here ++ [n] = l := by
  have hjoin := lookup_join (t := t) ⟨steps, false⟩ n
  rw [hhere] at hjoin
  dsimp only at hjoin
  rw [if_pos (Option.isSome_of_eq_some he)] at hjoin
  exact Except.ok.inj (hjoin.symm.trans hl)

theorem removeFile_pruned (hl : t.lookup p = .ok l) : Pruned l t (finish t (t.removeFile p)).1 := by
  cases hremoved : t.removeFile p with
  | error e => exact Pruned.refl l t
  | ok t' =>
    obtain ⟨steps, n, here, e, hchildren, rfl, hhere, hentry, -, rfl⟩ :=
      removeFile_eq_ok hremoved
    obtain rfl := location_of_entry hhere hentry hl
    exact pruned_without (by simp) hchildren

/-- The directory goes under its own location, whatever of it is gone by then. -/
theorem removeDir_pruned (hl : t.directory p.steps = .ok l) (h : Pruned l t t') :
    Pruned l t (finish t' (t'.removeDir p)).1 := by
  cases hremoved : t'.removeDir p with
  | error e => exact h
  | ok t'' =>
    obtain ⟨steps, n, here, hchildren, hsteps, hhere, hdir, rfl⟩ := removeDir_eq_ok hremoved
    have hchild := directory_child (directory_kept (fun _ _ => h.kept) hhere) (h.kept hdir)
    rw [← hsteps, hl] at hchild
    obtain rfl := Except.ok.inj hchild
    exact h.trans (pruned_without (by simp) hchildren)

/-- What a run leaves: a path that names nothing is refused, and otherwise only entries at the
location it names, or below, are gone. -/
def Within (t : FileTree) (p : Path) (t' : FileTree) : Prop :=
  match t.lookup p with
  | .error _ => t' = t
  | .ok l => Pruned l t t'

theorem removeEach_ends {remove : Path → FileTree → Option (FileTree × Outcome)}
    (hl : t.directory p.steps = .ok l) {names : List Name}
    (hremove : ∀ n ∈ names, ∀ t', Pruned l t t' →
      ∃ t'' o, remove (p.join n) t' = some (t'', o) ∧ Within t' (p.join n) t'')
    (h : Pruned l t t') :
    ∃ t'' o, removeEach remove p names t' = some (t'', o) ∧ Pruned l t t'' := by
  induction names generalizing t' with
  | nil => exact ⟨t', .ok (), rfl, h⟩
  | cons n rest ih =>
    obtain ⟨u, o, hrun, hwithin⟩ := hremove n List.mem_cons_self t' h
    have hu : Pruned l t u := by
      unfold Within at hwithin
      rw [lookup_join] at hwithin
      cases hhere : t'.directory p.steps with
      | error e => rw [hhere] at hwithin; exact hwithin ▸ h
      | ok here =>
        have hsame := directory_kept (fun _ _ => h.kept) hhere
        rw [hl] at hsame
        obtain rfl := Except.ok.inj hsame
        rw [hhere] at hwithin
        dsimp only at hwithin
        by_cases hsome : (t'.entryAt (l ++ [n])).isSome
        · rw [if_pos hsome] at hwithin
          exact h.trans hwithin.up
        · rw [if_neg hsome] at hwithin
          exact hwithin ▸ h
    rw [removeEach, hrun]
    cases o with
    | error e => exact ⟨u, .error e, rfl, hu⟩
    | ok done => exact ih (fun m hm => hremove m (List.mem_cons_of_mem n hm)) hu

/-- One level of the recursion, where every name found at it is dealt with. -/
theorem removePath_step {fuel : ℕ} {recursive : Bool}
    (hnames : ∀ l, t.lookup p = .ok l → ∀ n ∈ t.children l, ∀ t', Pruned l t t' →
      ∃ t'' o, removePath fuel true (p.join n) t' = some (t'', o) ∧ Within t' (p.join n) t'') :
    ∃ t' o, removePath (fuel + 1) recursive p t = some (t', o) ∧ Within t p t' := by
  unfold Within
  cases hl : t.lookup p with
  | error e =>
    refine ⟨t, .error e, ?_, rfl⟩
    rw [removePath, symlinkMetadata, hl]
  | ok l =>
    have hfile := removeFile_pruned hl
    obtain ⟨e, he⟩ := Option.isSome_iff_exists.1 (lookup_isSome hl)
    rw [removePath, symlinkMetadata_ok hl he]
    cases e with
    | file content => exact ⟨_, _, rfl, hfile⟩
    | link absolute target => exact ⟨_, _, rfl, hfile⟩
    | dir =>
      have hdirectory := directory_lookup hl he
      cases recursive with
      | false => exact ⟨_, _, rfl, removeDir_pruned hdirectory (Pruned.refl l t)⟩
      | true =>
        obtain ⟨t', o, hrun, hpruned⟩ :=
          removeEach_ends hdirectory (hnames l hl) (Pruned.refl l t)
        dsimp only
        rw [if_pos rfl, readDir_ok hdirectory]
        dsimp only
        rw [hrun]
        cases o with
        | error e => exact ⟨t', .error e, rfl, hpruned⟩
        | ok done => exact ⟨_, _, rfl, removeDir_pruned hdirectory hpruned⟩

/-- Where a name of a directory leads in what is left of the tree. -/
theorem lookup_child {l' : Location} {n : Name} (hl : t.directory p.steps = .ok l)
    (h : Pruned l t t') (hchild : t'.lookup (p.join n) = .ok l') : l' = l ++ [n] := by
  rw [lookup_join] at hchild
  cases hhere : t'.directory p.steps with
  | error e => rw [hhere] at hchild; cases hchild
  | ok here =>
    have hsame := directory_kept (fun _ _ => h.kept) hhere
    rw [hl] at hsame
    obtain rfl := Except.ok.inj hsame
    rw [hhere] at hchild
    dsimp only at hchild
    split at hchild
    · exact (Except.ok.inj hchild).symm
    · cases hchild

/-- Each level of the recursion is one directory deeper. -/
theorem removePath_ends {depth fuel : ℕ} {recursive : Bool}
    (hdepth : ∀ x, (t.entryAt x).isSome → x.length ≤ depth)
    (hfuel : ∀ l, t.lookup p = .ok l → depth ≤ fuel + l.length) :
    ∃ t' o, removePath (fuel + 1) recursive p t = some (t', o) ∧ Within t p t' := by
  induction fuel generalizing recursive p t with
  | zero =>
    refine removePath_step fun l hl n hn => ?_
    have hdeep := hdepth _ (mem_children.1 hn)
    have hbound := hfuel l hl
    rw [List.length_append, List.length_singleton] at hdeep
    omega
  | succ fuel ih =>
    refine removePath_step fun l hl n hn t' hpruned => ih ?_ fun l' hl' => ?_
    · intro x hx
      obtain ⟨e, he⟩ := Option.isSome_iff_exists.1 hx
      exact hdepth x (Option.isSome_of_eq_some (hpruned.kept he))
    · have hdir := entryAt_parent (mem_children.1 hn)
      have hbound := hfuel l hl
      rw [lookup_child (directory_lookup hl hdir) hpruned hl', List.length_append,
        List.length_singleton]
      omega

/-- The command ends, and is held to what its path names. -/
theorem localRemove_ends {fuel : ℕ} {absolute recursive : Bool} (hfuel : t.depth < fuel) :
    ∃ t' r, localRemove fuel absolute p recursive t = some (t', r) ∧ (t' = t ∨ Within t p t') := by
  unfold localRemove
  cases hvalid : validateLocalPath absolute p with
  | error e => exact ⟨t, .error e, rfl, Or.inl rfl⟩
  | ok accepted =>
    dsimp only
    split
    · exact ⟨t, .error .root, rfl, Or.inl rfl⟩
    · obtain ⟨fuel, rfl⟩ := Nat.exists_eq_succ_of_ne_zero (Nat.ne_zero_of_lt hfuel)
      have hends : ∃ t' o, removePath (fuel + 1) recursive p t = some (t', o) ∧ Within t p t' :=
        removePath_ends (fun _ => length_le_depth) fun l _ => by omega
      obtain ⟨t', o, hrun, hwithin⟩ := hends
      rw [hrun]
      exact ⟨t', _, rfl, Or.inr hwithin⟩

/-! ## The whole of it -/

/-- `t'` is `t` less the entry at `l` and all below it. -/
def Deleted (l : Location) (t t' : FileTree) : Prop :=
  ∀ x, t'.entryAt x = if l <+: x then none else t.entryAt x

/-- The path ends in the entry's own name, and the steps before it lead to the entry's directory
without what stands below the entry. -/
def ClearWay (t : FileTree) (p : Path) (l : Location) : Prop :=
  ∃ steps n here, p.steps = steps ++ [.name n] ∧ l = here ++ [n] ∧
    (t.emptied l).directory steps = .ok here

theorem emptied_kept {x : Location} {e : Entry} (h : (t.emptied l).entryAt x = some e) :
    t.entryAt x = some e := by
  rw [entryAt_emptied] at h
  split at h
  · exact h
  · cases h

/-- Below a directory that is being emptied, what its emptied tree has stays. -/
theorem emptied_emptied {m : Name}
    (hkept : ∀ x e, (t.emptied l).entryAt x = some e → t'.entryAt x = some e) (x : Location)
    (e : Entry) (h : (t.emptied l).entryAt x = some e) :
    (t'.emptied (l ++ [m])).entryAt x = some e ∧ ¬ l ++ [m] <+: x := by
  have hx := hkept x e h
  have hout : ¬ l ++ [m] <+: x := by
    intro hm
    rw [entryAt_emptied] at h
    split at h
    · rename_i hl
      have hlength := hm.length_le
      rw [hl ((List.prefix_append l [m]).trans hm), List.length_append,
        List.length_singleton] at hlength
      omega
    · cases h
  rw [entryAt_emptied, if_pos fun hm => absurd hm hout]
  exact ⟨hx, hout⟩

/-- An entry's own names are a clear way to it. -/
theorem clearWay_own {n : Name} (h : (t.entryAt (l ++ [n])).isSome) :
    t.lookup ⟨(l ++ [n]).map .name, false⟩ = .ok (l ++ [n]) ∧
    ClearWay t ⟨(l ++ [n]).map .name, false⟩ (l ++ [n]) := by
  have hdir := entryAt_parent h
  constructor
  · have hjoin := lookup_join (t := t) ⟨l.map .name, false⟩ n
    rw [directory_own hdir] at hjoin
    rw [List.map_append]
    exact hjoin.trans (if_pos h)
  · refine ⟨l.map .name, n, l, List.map_append, rfl, directory_own ?_⟩
    rw [entryAt_emptied, if_pos]
    · exact hdir
    · intro hprefix
      have hlength := hprefix.length_le
      rw [List.length_append, List.length_singleton] at hlength
      omega

theorem removeEach_deletes {remove : Path → FileTree → Option (FileTree × Outcome)}
    {names : List Name} (hnodup : names.Nodup)
    (hremove : ∀ n ∈ names, ∀ t',
      (∀ x e, (t.emptied l).entryAt x = some e → t'.entryAt x = some e) →
      (t'.entryAt (l ++ [n])).isSome → (∀ x e, t'.entryAt x = some e → t.entryAt x = some e) →
      ∃ t'', remove (p.join n) t' = some (t'', .ok ()) ∧ Deleted (l ++ [n]) t' t'')
    (hkept : ∀ x e, (t.emptied l).entryAt x = some e → t'.entryAt x = some e)
    (hless : ∀ x e, t'.entryAt x = some e → t.entryAt x = some e)
    (hnames : ∀ n ∈ names, (t'.entryAt (l ++ [n])).isSome) :
    ∃ t'', removeEach remove p names t' = some (t'', .ok ()) ∧
      ∀ x, t''.entryAt x = if ∃ n ∈ names, l ++ [n] <+: x then none else t'.entryAt x := by
  induction names generalizing t' with
  | nil => exact ⟨t', rfl, fun x => by rw [if_neg (by simp)]⟩
  | cons n rest ih =>
    obtain ⟨hn, hrest⟩ := List.nodup_cons.1 hnodup
    obtain ⟨u, hrun, hdeleted⟩ :=
      hremove n List.mem_cons_self t' hkept (hnames n List.mem_cons_self) hless
    have hstay : ∀ x e, (t.emptied l).entryAt x = some e → u.entryAt x = some e := by
      intro x e hx
      rw [hdeleted x, if_neg (emptied_emptied hkept x e hx).2]
      exact hkept x e hx
    have hsub : ∀ x e, u.entryAt x = some e → t.entryAt x = some e := by
      intro x e hx
      rw [hdeleted x] at hx
      split at hx
      · cases hx
      · exact hless x e hx
    have hothers : ∀ m ∈ rest, (u.entryAt (l ++ [m])).isSome := by
      intro m hm
      have hout : ¬ l ++ [n] <+: l ++ [m] := by
        intro hprefix
        obtain rfl : n = m := by simpa using (List.prefix_append_right_inj l).1 hprefix
        exact hn hm
      rw [hdeleted, if_neg hout]
      exact hnames m (List.mem_cons_of_mem n hm)
    obtain ⟨t'', hloop, hentries⟩ :=
      ih hrest (fun m hm => hremove m (List.mem_cons_of_mem n hm)) hstay hsub hothers
    rw [removeEach, hrun]
    refine ⟨t'', hloop, fun x => ?_⟩
    rw [hentries x, hdeleted x]
    by_cases hx : l ++ [n] <+: x
    · have hany : ∃ m ∈ n :: rest, l ++ [m] <+: x := ⟨n, List.mem_cons_self, hx⟩
      rw [if_pos hx, if_pos hany, ite_self]
    · simp [hx]

/-- Once the names of a directory are gone, so is all that stood below it. -/
theorem entryAt_of_children {x : Location} (hx : (t.entryAt x).isSome) (hl : l <+: x)
    (hne : x ≠ l) : ∃ n ∈ t.children l, l ++ [n] <+: x := by
  obtain ⟨rest, rfl⟩ := hl
  cases rest with
  | nil => simp at hne
  | cons n rest =>
    have hprefix : l ++ [n] <+: l ++ n :: rest := ⟨rest, by simp⟩
    refine ⟨n, mem_children.2 ?_, hprefix⟩
    by_cases hsame : l ++ [n] = l ++ n :: rest
    · exact hsame ▸ hx
    · rw [entryAt_above hx hprefix hsame]
      rfl

/-- A leaf is all there is at its location. -/
theorem deleted_leaf {e : Entry} (hl : l ≠ []) (he : t.entryAt l = some e) (hleaf : e ≠ .dir) :
    Deleted l t (t.without l (children_leaf he hleaf)) := by
  intro x
  rw [entryAt_without hl]
  by_cases hx : x = l
  · rw [if_pos hx, if_pos (hx ▸ List.prefix_refl l)]
  · rw [if_neg hx]
    split
    · rename_i hprefix
      refine Option.eq_none_iff_forall_ne_some.2 fun e' he' => hleaf ?_
      have hdir := entryAt_above (Option.isSome_of_eq_some he') hprefix (Ne.symm hx)
      exact Option.some.inj (he.symm.trans hdir)
    · rfl

/-- The steps to a directory of the emptied tree lead there while it is emptied. -/
theorem ClearWay.directory (hway : ClearWay t p l) (hdir : t.entryAt l = some .dir) :
    (t.emptied l).directory p.steps = .ok l := by
  obtain ⟨steps, n, here, hsteps, rfl, hhere⟩ := hway
  rw [hsteps]
  refine directory_child hhere ?_
  rw [entryAt_emptied, if_pos fun _ => rfl, hdir]

theorem removePath_deletes_step {fuel : ℕ} (hl : t.lookup p = .ok l) (hway : ClearWay t p l)
    (hnames : ∀ n ∈ t.children l, ∀ t',
      (∀ x e, (t.emptied l).entryAt x = some e → t'.entryAt x = some e) →
      (t'.entryAt (l ++ [n])).isSome → (∀ x e, t'.entryAt x = some e → t.entryAt x = some e) →
      ∃ t'', removePath fuel true (p.join n) t' = some (t'', .ok ()) ∧
        Deleted (l ++ [n]) t' t'') :
    ∃ t', removePath (fuel + 1) true p t = some (t', .ok ()) ∧ Deleted l t t' := by
  obtain ⟨e, he⟩ := Option.isSome_iff_exists.1 (lookup_isSome hl)
  obtain ⟨steps, n, here, hsteps, hlocation, hhere⟩ := id hway
  have hne : l ≠ [] := by simp [hlocation]
  rw [removePath, symlinkMetadata_ok hl he]
  have hleaf (hleaf : e ≠ .dir) :
      t.removeFile p = .ok (t.without l (children_leaf he hleaf)) := by
    obtain ⟨psteps, slash⟩ := p
    obtain rfl : psteps = steps ++ [.name n] := hsteps
    subst hlocation
    cases slash with
    | false => exact removeFile_ok (directory_kept (fun _ _ => emptied_kept) hhere) he hleaf
    | true => exact absurd (Option.some.inj (he.symm.trans (directory_dir hl))) hleaf
  cases e with
  | file content =>
    dsimp only
    rw [hleaf nofun]
    exact ⟨_, rfl, deleted_leaf hne he nofun⟩
  | link absolute target =>
    dsimp only
    rw [hleaf nofun]
    exact ⟨_, rfl, deleted_leaf hne he nofun⟩
  | dir =>
    obtain ⟨t', hloop, hentries⟩ := removeEach_deletes (nodup_children l) hnames
      (fun _ _ => emptied_kept) (fun _ _ h => h) fun n hn => mem_children.1 hn
    have hkept : ∀ x e, (t.emptied l).entryAt x = some e → t'.entryAt x = some e := by
      intro x e hx
      rw [hentries, if_neg]
      · exact emptied_kept hx
      · rintro ⟨m, -, hm⟩
        exact (emptied_emptied (fun _ _ => emptied_kept) x e hx).2 hm
    have hdir : t'.entryAt l = some .dir :=
      hkept l .dir (by rw [entryAt_emptied, if_pos fun _ => rfl, he])
    have hempty : t'.children l = [] := by
      refine List.eq_nil_iff_forall_not_mem.2 fun m hm => ?_
      have hsome := mem_children.1 hm
      rw [hentries] at hsome
      split at hsome
      · cases hsome
      · rename_i hnone
        exact hnone ⟨m, mem_children.2 hsome, List.prefix_refl _⟩
    have hremoved : t'.removeDir p = .ok (t'.without l hempty) := by
      obtain ⟨psteps, slash⟩ := p
      obtain rfl : psteps = steps ++ [.name n] := hsteps
      subst hlocation
      exact removeDir_ok (directory_kept hkept hhere) hdir hempty
    dsimp only
    rw [if_pos rfl, readDir_ok (directory_lookup hl he)]
    dsimp only
    rw [hloop]
    dsimp only
    rw [hremoved]
    refine ⟨_, rfl, fun x => ?_⟩
    rw [entryAt_without hne]
    by_cases hx : x = l
    · rw [if_pos hx, if_pos (hx ▸ List.prefix_refl l)]
    · rw [if_neg hx, hentries]
      by_cases hprefix : l <+: x
      · rw [if_pos hprefix]
        cases hsome : t.entryAt x with
        | none => rw [ite_self]
        | some e => rw [if_pos (entryAt_of_children (Option.isSome_of_eq_some hsome) hprefix hx)]
      · rw [if_neg hprefix, if_neg]
        rintro ⟨m, -, hm⟩
        exact hprefix ((List.prefix_append l [m]).trans hm)

theorem removePath_deletes {depth fuel : ℕ}
    (hdepth : ∀ x, (t.entryAt x).isSome → x.length ≤ depth) (hl : t.lookup p = .ok l)
    (hfuel : depth ≤ fuel + l.length) (hway : ClearWay t p l) :
    ∃ t', removePath (fuel + 1) true p t = some (t', .ok ()) ∧ Deleted l t t' := by
  induction fuel generalizing p t l with
  | zero =>
    refine removePath_deletes_step hl hway fun n hn => ?_
    have hdeep := hdepth _ (mem_children.1 hn)
    rw [List.length_append, List.length_singleton] at hdeep
    omega
  | succ fuel ih =>
    refine removePath_deletes_step hl hway fun n hn t' hkept hsome hless => ?_
    have hway' := hway.directory (entryAt_parent (mem_children.1 hn))
    refine ih ?_ ?_ ?_ ⟨p.steps, n, l, rfl, rfl, ?_⟩
    · intro x hx
      obtain ⟨e, he⟩ := Option.isSome_iff_exists.1 hx
      exact hdepth x (Option.isSome_of_eq_some (hless x e he))
    · rw [lookup_join, directory_kept hkept hway']
      exact if_pos hsome
    · rw [List.length_append, List.length_singleton]
      omega
    · exact directory_kept (fun x e h => (emptied_emptied hkept x e h).1) hway'

theorem clearWay_of_removeFile {e : Entry} (hl : t.lookup p = .ok l) (he : t.entryAt l = some e)
    (hleaf : e ≠ .dir) (h : t.removeFile p = .ok t') : ClearWay t p l := by
  obtain ⟨steps, n, here, e', hchildren, rfl, hhere, hentry, -, -⟩ := removeFile_eq_ok h
  obtain rfl := location_of_entry hhere hentry hl
  refine ⟨steps, n, here, rfl, rfl, directory_kept (fun x e hx => ?_) hhere⟩
  rw [entryAt_emptied, if_pos]
  · exact hx
  · intro hprefix
    by_contra hne
    have hdir := entryAt_above (Option.isSome_of_eq_some hx) hprefix (Ne.symm hne)
    exact hleaf (Option.some.inj (he.symm.trans hdir))

/-- Only the path's own steps are left to take to a directory that is removed last. -/
theorem clearWay_of_removeDir {u : FileTree} (hl : t.directory p.steps = .ok l)
    (hpruned : Pruned l t u) (h : u.removeDir p = .ok t') : ClearWay t p l := by
  obtain ⟨steps, n, here, hchildren, hsteps, hhere, hdir, -⟩ := removeDir_eq_ok h
  have hchild := directory_child (directory_kept (fun _ _ => hpruned.kept) hhere)
    (hpruned.kept hdir)
  rw [← hsteps, hl] at hchild
  obtain rfl := Except.ok.inj hchild
  refine ⟨steps, n, here, hsteps, rfl, directory_kept (fun x e hx => ?_) hhere⟩
  rw [entryAt_emptied, if_pos]
  · exact hpruned.kept hx
  · intro hprefix
    by_contra hne
    obtain ⟨m, hm, -⟩ := entryAt_of_children (Option.isSome_of_eq_some hx) hprefix hne
    rw [hchildren] at hm
    cases hm

/-- A run that succeeds went by a way that it left clear. -/
theorem clearWay_of_ok {depth fuel : ℕ}
    (hdepth : ∀ x, (t.entryAt x).isSome → x.length ≤ depth) (hl : t.lookup p = .ok l)
    (hfuel : depth ≤ fuel + l.length)
    (hrun : removePath (fuel + 1) true p t = some (t', .ok ())) : ClearWay t p l := by
  obtain ⟨e, he⟩ := Option.isSome_iff_exists.1 (lookup_isSome hl)
  rw [removePath, symlinkMetadata_ok hl he] at hrun
  cases e with
  | file content =>
    exact clearWay_of_removeFile hl he nofun (finish_ok (Option.some.inj hrun))
  | link absolute target =>
    exact clearWay_of_removeFile hl he nofun (finish_ok (Option.some.inj hrun))
  | dir =>
    have hdirectory := directory_lookup hl he
    have hnames : ∀ n ∈ t.children l, ∀ u, Pruned l t u →
        ∃ v o, removePath fuel true (p.join n) u = some (v, o) ∧ Within u (p.join n) v := by
      intro n hn u hu
      have hdeep := hdepth _ (mem_children.1 hn)
      rw [List.length_append, List.length_singleton] at hdeep
      obtain ⟨fuel, rfl⟩ := Nat.exists_eq_succ_of_ne_zero (n := fuel) (by omega)
      have hless : ∀ x, (u.entryAt x).isSome → x.length ≤ depth := by
        intro x hx
        obtain ⟨e, hxe⟩ := Option.isSome_iff_exists.1 hx
        exact hdepth x (Option.isSome_of_eq_some (hu.kept hxe))
      refine removePath_ends hless fun l' hl' => ?_
      rw [lookup_child hdirectory hu hl', List.length_append, List.length_singleton]
      omega
    obtain ⟨u, o, hloop, hpruned⟩ := removeEach_ends hdirectory hnames (Pruned.refl l t)
    dsimp only at hrun
    rw [if_pos rfl, readDir_ok hdirectory] at hrun
    dsimp only at hrun
    rw [hloop] at hrun
    cases o with
    | error e => cases hrun
    | ok done => exact clearWay_of_removeDir hdirectory hpruned (finish_ok (Option.some.inj hrun))

/-- Removing a path recursively ends, and touches nothing but the entry that the path names and
what stands below it. It deletes all of that where the path has a clear way, and only there. -/
theorem removePath_iff (hl : t.lookup p = .ok l) :
    (∀ fuel > t.depth, ∃ t' o, removePath fuel true p t = some (t', o) ∧ Pruned l t t') ∧
    ((∀ fuel > t.depth, ∃ t', removePath fuel true p t = some (t', .ok ()) ∧ Deleted l t t') ↔
      ClearWay t p l) := by
  have hdepth : ∀ x, (t.entryAt x).isSome → x.length ≤ t.depth := fun _ => length_le_depth
  refine ⟨fun fuel hfuel => ?_, fun h => ?_, fun hway fuel hfuel => ?_⟩
  · obtain ⟨fuel, rfl⟩ := Nat.exists_eq_succ_of_ne_zero (Nat.ne_zero_of_lt hfuel)
    have hends : ∃ t' o, removePath (fuel + 1) true p t = some (t', o) ∧ Within t p t' :=
      removePath_ends hdepth fun l _ => by omega
    obtain ⟨t', o, hrun, hwithin⟩ := hends
    rw [Within, hl] at hwithin
    exact ⟨t', o, hrun, hwithin⟩
  · obtain ⟨t', hrun, -⟩ := h (t.depth + 1) (Nat.lt_succ_self _)
    exact clearWay_of_ok hdepth hl (Nat.le_add_right _ _) hrun
  · obtain ⟨fuel, rfl⟩ := Nat.exists_eq_succ_of_ne_zero (Nat.ne_zero_of_lt hfuel)
    exact removePath_deletes hdepth hl (by omega) hway

section Samples

def docs : Name := ⟨[100], by decide⟩
def notes : Name := ⟨[110], by decide⟩
def home : Name := ⟨[104], by decide⟩
def link : Name := ⟨[108], by decide⟩

/-- A directory with a file and a link to itself, and elsewhere a link to it. -/
def sampleTree : FileTree where
  entries := [([docs], .dir), ([docs, notes], .file [1]),
    ([docs, link], .link true ⟨[.name docs], false⟩), ([home], .dir),
    ([home, link], .link false ⟨[.parent, .name docs], false⟩)]
  nodup := by decide
  below := by decide
  parents := by decide

theorem removePath_iff_sample : ∃ t',
    removePath 3 true ⟨[.name docs], false⟩ sampleTree = some (t', .ok ()) ∧
    Deleted [docs] sampleTree t' := by
  have hl : sampleTree.lookup ⟨[.name docs], false⟩ = .ok [docs] := by decide
  exact (removePath_iff hl).2.2 ⟨[], docs, [], rfl, rfl, by decide⟩ 3 (by decide)

/-- The link with a slash behind it: what it leads to is emptied, and it stays. -/
def slashed : Path := ⟨[.name home, .name link], true⟩

theorem removePath_fails :
    (∃ t', localRemove 3 true slashed true sampleTree =
        some (t', .error (.system .notDirectory)) ∧
      t'.entryAt [home, link] = sampleTree.entryAt [home, link] ∧
      t'.entryAt [docs] = some .dir ∧ t'.entryAt [docs, notes] = none) ∧
    ¬ ∀ (t : FileTree) (p : Path) (l : Location), t.lookup p = .ok l →
      ∀ fuel > t.depth, ∃ t', removePath fuel true p t = some (t', .ok ()) ∧
        Deleted l t t' := by
  constructor
  · refine ⟨_, rfl, ?_, ?_, ?_⟩ <;> decide
  · intro h
    obtain ⟨t', hrun, -⟩ := h sampleTree slashed [docs] (by decide) 3 (by decide)
    have hfails : (removePath 3 true slashed sampleTree).map Prod.snd =
        some (.error .notDirectory) := by decide
    rw [hrun] at hfails
    cases hfails

end Samples
end Tethra.LocalRemovals
