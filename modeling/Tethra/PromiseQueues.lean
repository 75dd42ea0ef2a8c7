import Mathlib.Logic.Function.Basic
import Mathlib.Data.List.Basic

set_option autoImplicit false

/-!
# Queues made of promises

Each operation waits for the promise that was the tail of its key when it was enqueued, and its
own promise is the tail from then on. A tail is taken off after it has settled, unless another
operation has been enqueued behind it.
-/
namespace Tethra.PromiseQueues

inductive Stage where
  | waiting
  | running
  | settled (fulfilled : Bool)
  deriving DecidableEq

def Stage.Done : Stage → Prop
  | .settled _ => True
  | _ => False

instance : DecidablePred Stage.Done := fun stage => by
  cases stage <;> unfold Stage.Done <;> infer_instance

/-- An operation and its promise. -/
structure Link (K Op : Type*) where
  key : K
  op : Op
  /-- The promise it waits for, `Promise.resolve()` without one. -/
  prev : Option ℕ
  stage : Stage
  cleaned : Bool

structure Queues (K Op : Type*) where
  links : List (Link K Op)
  tail : K → Option ℕ
  /-- The operations in the order they started. -/
  started : List ℕ

namespace Queues

variable {K Op : Type*}

def new : Queues K Op := ⟨[], fun _ => none, []⟩

def stage (q : Queues K Op) (i : ℕ) : Option Stage := q.links[i]?.map Link.stage

def key (q : Queues K Op) (i : ℕ) : Option K := q.links[i]?.map Link.key

def setStage (q : Queues K Op) (i : ℕ) (stage : Stage) : Queues K Op :=
  { q with links := q.links.modify i fun l => { l with stage := stage } }

/-- How the promise that an operation waits for stands: open, fulfilled or rejected. -/
def standing (q : Queues K Op) : Option ℕ → Option Bool
  | none => some true
  | some p =>
    match q.stage p with
    | some (.settled fulfilled) => some fulfilled
    | _ => none

/-- `prev.then(op)`, or `prev.then(op, op)` when `both` are given. -/
def start (both : Bool) (i : ℕ) (q : Queues K Op) : Queues K Op :=
  match q.links[i]? with
  | some ⟨_, _, prev, .waiting, _⟩ =>
    match q.standing prev with
    | none => q
    | some fulfilled =>
      if fulfilled || both then { q.setStage i .running with started := q.started ++ [i] }
      else q.setStage i (.settled false)
  | _ => q

def finish (i : ℕ) (fulfilled : Bool) (q : Queues K Op) : Queues K Op :=
  if q.stage i = some .running then q.setStage i (.settled fulfilled) else q

section Steps
variable [DecidableEq K]

def enqueue (key : K) (op : Op) (q : Queues K Op) : Queues K Op :=
  { q with
    links := q.links ++ [⟨key, op, q.tail key, .waiting, false⟩]
    tail := Function.update q.tail key (some q.links.length) }

/-- The reaction that takes the tail off. -/
def cleanUp (i : ℕ) (q : Queues K Op) : Queues K Op :=
  match q.links[i]? with
  | some ⟨key, _, _, .settled _, false⟩ =>
    { q with
      links := q.links.modify i fun l => { l with cleaned := true }
      tail := if q.tail key = some i then Function.update q.tail key none else q.tail }
  | _ => q

end Steps

/-- Operations of one key go one after another, in the order they were enqueued. -/
structure Serial (q : Queues K Op) : Prop where
  /-- Without a promise to wait for, nothing before is open. -/
  prev_none : ∀ {i j : ℕ} {l m : Link K Op}, q.links[j]? = some l → l.prev = none → i < j →
    q.links[i]? = some m → m.key = l.key → m.stage.Done
  /-- The promise an operation waits for is the one of the operation before. -/
  prev_some : ∀ {j p : ℕ} {l : Link K Op}, q.links[j]? = some l → l.prev = some p → p < j ∧
    (∃ m, q.links[p]? = some m ∧ m.key = l.key) ∧
    ∀ {i : ℕ} {m : Link K Op}, p < i → i < j → q.links[i]? = some m → m.key ≠ l.key
  order : ∀ {i j : ℕ} {l m : Link K Op}, q.links[j]? = some l → l.stage ≠ .waiting → i < j →
    q.links[i]? = some m → m.key = l.key → m.stage.Done
  tail_none : ∀ {i : ℕ} {m : Link K Op}, q.links[i]? = some m → q.tail m.key = none → m.stage.Done
  tail_some : ∀ {key : K} {i : ℕ}, q.tail key = some i →
    (∃ m, q.links[i]? = some m ∧ m.key = key) ∧
    ∀ {j : ℕ} {l : Link K Op}, i < j → q.links[j]? = some l → l.key ≠ key
  cleaned : ∀ {i : ℕ} {m : Link K Op}, q.links[i]? = some m → m.cleaned = true →
    m.stage.Done ∧ q.tail m.key ≠ some i

/-- What has started is in order, key by key, and no longer waits. -/
structure Started (q : Queues K Op) : Prop where
  sorted : q.started.Pairwise fun i j => q.key i = q.key j → i < j
  mem : ∀ i, i ∈ q.started ↔ ∃ m, q.links[i]? = some m ∧ m.stage ≠ .waiting

theorem serial_new : (new : Queues K Op).Serial := by
  constructor <;> simp [new]

theorem started_new : (new : Queues K Op).Started := by
  constructor <;> simp [new]

variable {q : Queues K Op} {i j : ℕ} {l m : Link K Op} {stage : Stage}

theorem settled_of_done (hm : q.links[i]? = some m) (hdone : m.stage.Done) :
    ∃ fulfilled, q.stage i = some (.settled fulfilled) := by
  rw [Queues.stage, hm, Option.map_some]
  cases hstage : m.stage with
  | waiting =>
    rw [hstage] at hdone
    exact hdone.elim
  | running =>
    rw [hstage] at hdone
    exact hdone.elim
  | settled fulfilled => exact ⟨fulfilled, rfl⟩

/-! ## A later stage of one operation -/

/-- The link of an operation after another's or its own stage has changed. -/
structure Moved (i j : ℕ) (stage : Stage) (l l' : Link K Op) : Prop where
  key : l'.key = l.key
  prev : l'.prev = l.prev
  cleaned : l'.cleaned = l.cleaned
  stage : i = j ∧ l'.stage = stage ∨ i ≠ j ∧ l'.stage = l.stage

theorem setStage_link (i : ℕ) (stage : Stage) (h : q.links[j]? = some l) :
    ∃ l', (q.setStage i stage).links[j]? = some l' ∧ Moved i j stage l l' := by
  rw [setStage, List.getElem?_modify, h]
  by_cases hij : i = j
  · exact ⟨_, rfl, by simp [hij], by simp [hij], by simp [hij], Or.inl ⟨hij, by simp [hij]⟩⟩
  · exact ⟨_, rfl, by simp [hij], by simp [hij], by simp [hij], Or.inr ⟨hij, by simp [hij]⟩⟩

theorem link_of_setStage {l' : Link K Op} (h : (q.setStage i stage).links[j]? = some l') :
    ∃ l, q.links[j]? = some l ∧ Moved i j stage l l' := by
  cases hl : q.links[j]? with
  | none =>
    rw [setStage, List.getElem?_modify, hl] at h
    cases h
  | some l =>
    obtain ⟨l'', hl'', hmoved⟩ := setStage_link i stage hl
    cases h.symm.trans hl''
    exact ⟨l, rfl, hmoved⟩

@[simp] theorem stage_setStage (q : Queues K Op) (i j : ℕ) (stage : Stage) :
    (q.setStage i stage).stage j =
      if i = j then (q.stage j).map fun _ => stage else q.stage j := by
  unfold Queues.stage
  cases hl : q.links[j]? with
  | none =>
    rw [Queues.setStage, List.getElem?_modify, hl]
    simp
  | some l =>
    obtain ⟨l', hl', hmoved⟩ := setStage_link i stage hl
    rw [hl']
    obtain ⟨hij, hstage⟩ | ⟨hij, hstage⟩ := hmoved.stage
    · rw [if_pos hij]
      exact congrArg some hstage
    · rw [if_neg hij]
      exact congrArg some hstage

/-- A settled promise stays settled. -/
def Onward (q : Queues K Op) (i : ℕ) (stage : Stage) : Prop :=
  ∀ l, q.links[i]? = some l → l.stage.Done → stage.Done

theorem Moved.done {l' : Link K Op} (hmoved : Moved i j stage l l') (h : q.Onward i stage)
    (hl : q.links[j]? = some l) (hdone : l.stage.Done) : l'.stage.Done := by
  obtain ⟨rfl, hstage⟩ | ⟨-, hstage⟩ := hmoved.stage
  · rw [hstage]
    exact h l hl hdone
  · rw [hstage]
    exact hdone

theorem Serial.setStage (h : q.Serial) (honward : q.Onward i stage)
    (hturn : ∀ {j : ℕ} {l m : Link K Op}, q.links[i]? = some l → j < i → q.links[j]? = some m →
      m.key = l.key → m.stage.Done) : (q.setStage i stage).Serial where
  prev_none hl hprev hij hm hkey := by
    obtain ⟨l, hl, hmoved⟩ := link_of_setStage hl
    obtain ⟨m, hm, hmoved'⟩ := link_of_setStage hm
    rw [hmoved.key, hmoved'.key] at hkey
    exact hmoved'.done honward hm (h.prev_none hl (hmoved.prev ▸ hprev) hij hm hkey)
  prev_some hl hprev := by
    obtain ⟨l, hl, hmoved⟩ := link_of_setStage hl
    obtain ⟨hlt, ⟨m, hm, hkey⟩, hbetween⟩ := h.prev_some hl (hmoved.prev ▸ hprev)
    obtain ⟨m', hm', hmoved'⟩ := setStage_link i stage hm
    refine ⟨hlt, ⟨m', hm', by rw [hmoved'.key, hmoved.key, hkey]⟩, fun hpi hij hn => ?_⟩
    obtain ⟨n, hn, hmoved''⟩ := link_of_setStage hn
    rw [hmoved''.key, hmoved.key]
    exact hbetween hpi hij hn
  order hl hwaiting hij hm hkey := by
    obtain ⟨l, hl, hmoved⟩ := link_of_setStage hl
    obtain ⟨m, hm, hmoved'⟩ := link_of_setStage hm
    rw [hmoved.key, hmoved'.key] at hkey
    refine hmoved'.done honward hm ?_
    obtain ⟨rfl, -⟩ | ⟨-, hstage⟩ := hmoved.stage
    · exact hturn hl hij hm hkey
    · exact h.order hl (hstage ▸ hwaiting) hij hm hkey
  tail_none hm htail := by
    obtain ⟨m, hm, hmoved⟩ := link_of_setStage hm
    exact hmoved.done honward hm (h.tail_none hm (hmoved.key ▸ htail))
  tail_some htail := by
    obtain ⟨⟨m, hm, hkey⟩, hlast⟩ := h.tail_some htail
    obtain ⟨m', hm', hmoved⟩ := setStage_link i stage hm
    refine ⟨⟨m', hm', hmoved.key.trans hkey⟩, fun hij hl => ?_⟩
    obtain ⟨l, hl, hmoved'⟩ := link_of_setStage hl
    rw [hmoved'.key]
    exact hlast hij hl
  cleaned hm hcleaned := by
    obtain ⟨m, hm, hmoved⟩ := link_of_setStage hm
    obtain ⟨hdone, htail⟩ := h.cleaned hm (hmoved.cleaned ▸ hcleaned)
    exact ⟨hmoved.done honward hm hdone, hmoved.key ▸ htail⟩

@[simp] theorem key_setStage (q : Queues K Op) (i j : ℕ) (stage : Stage) :
    (q.setStage i stage).key j = q.key j := by
  unfold key
  cases hl : q.links[j]? with
  | none => rw [Queues.setStage, List.getElem?_modify, hl]; rfl
  | some l =>
    obtain ⟨l', hl', hmoved⟩ := setStage_link i stage hl
    rw [hl']
    exact congrArg some hmoved.key

/-! ## The operations -/

/-- Where the promise an operation waits for has settled, everything before has. -/
theorem Serial.turn (h : q.Serial) (hl : q.links[j]? = some l) {fulfilled : Bool}
    (hstanding : q.standing l.prev = some fulfilled) (hij : i < j) (hm : q.links[i]? = some m)
    (hkey : m.key = l.key) : m.stage.Done := by
  cases hprev : l.prev with
  | none => exact h.prev_none hl hprev hij hm hkey
  | some p =>
    obtain ⟨hlt, ⟨n, hn, hnkey⟩, hbetween⟩ := h.prev_some hl hprev
    have hdone : n.stage.Done := by
      rw [hprev, standing, Queues.stage, hn, Option.map_some] at hstanding
      split at hstanding
      · rename_i hsettled
        rw [Option.some.inj hsettled]
        trivial
      · cases hstanding
    obtain hip | rfl | hpi := Nat.lt_trichotomy i p
    · refine h.order hn (fun hwaiting => ?_) hip hm (hkey.trans hnkey.symm)
      rw [hwaiting] at hdone
      exact hdone
    · cases hm.symm.trans hn
      exact hdone
    · exact absurd hkey (hbetween hpi hij hm)

theorem Serial.withStarted (h : q.Serial) (started : List ℕ) :
    { q with started := started }.Serial :=
  ⟨h.prev_none, h.prev_some, h.order, h.tail_none, h.tail_some, h.cleaned⟩

/-- The cases of `start`. -/
theorem start_cases (both : Bool) (i : ℕ) (q : Queues K Op) :
    q.start both i = q ∨ ∃ l fulfilled, q.links[i]? = some l ∧ l.stage = .waiting ∧
      q.standing l.prev = some fulfilled ∧
      q.start both i = if fulfilled || both then
        { q.setStage i .running with started := q.started ++ [i] }
        else q.setStage i (.settled false) := by
  unfold start
  split
  case h_2 => exact Or.inl rfl
  case h_1 key op prev cleaned hl =>
    split
    case h_1 => exact Or.inl rfl
    case h_2 fulfilled hstanding => exact Or.inr ⟨_, fulfilled, hl, rfl, hstanding, rfl⟩

theorem onward_of_waiting (hl : q.links[i]? = some l) (hwaiting : l.stage = .waiting) :
    q.Onward i stage := by
  intro l' hl' hdone
  cases hl.symm.trans hl'
  rw [hwaiting] at hdone
  exact hdone.elim

theorem Serial.start (h : q.Serial) (both : Bool) (i : ℕ) : (q.start both i).Serial := by
  obtain heq | ⟨l, fulfilled, hl, hwaiting, hstanding, heq⟩ := start_cases both i q
  · rw [heq]
    exact h
  · have hturn : ∀ {j : ℕ} {l' m : Link K Op}, q.links[i]? = some l' → j < i →
        q.links[j]? = some m → m.key = l'.key → m.stage.Done := by
      intro j l' m hl' hij hm hkey
      cases hl.symm.trans hl'
      exact h.turn hl hstanding hij hm hkey
    rw [heq]
    split
    · exact (h.setStage (onward_of_waiting hl hwaiting) hturn).withStarted _
    · exact h.setStage (onward_of_waiting hl hwaiting) hturn

theorem Serial.finish (h : q.Serial) (i : ℕ) (fulfilled : Bool) : (q.finish i fulfilled).Serial := by
  unfold Queues.finish
  split
  case isFalse => exact h
  case isTrue hrunning =>
    refine h.setStage (fun l hl hdone => trivial) fun {j l m} hl hij hm hkey => ?_
    rw [Queues.stage, hl, Option.map_some, Option.some.injEq] at hrunning
    exact h.order hl (by rw [hrunning]; exact fun hw => nomatch hw) hij hm hkey

theorem link_of_cleaned {l' : Link K Op}
    (h : (q.links.modify i fun l => { l with cleaned := true })[j]? = some l') :
    ∃ l, q.links[j]? = some l ∧ l'.key = l.key ∧ l'.prev = l.prev ∧ l'.stage = l.stage ∧
      (l'.cleaned = true → i = j ∨ l.cleaned = true) := by
  rw [List.getElem?_modify] at h
  cases hl : q.links[j]? with
  | none =>
    rw [hl] at h
    cases h
  | some l =>
    rw [hl] at h
    by_cases hij : i = j
    · simp only [hij, if_true, Option.map_eq_map, Option.map_some, Option.some.injEq] at h
      subst h
      exact ⟨l, rfl, rfl, rfl, rfl, fun _ => Or.inl hij⟩
    · simp only [hij, if_false, Option.map_eq_map, Option.map_some, Option.some.injEq] at h
      subst h
      exact ⟨l, rfl, rfl, rfl, rfl, Or.inr⟩

theorem cleaned_link (hl : q.links[j]? = some l) :
    ∃ l', (q.links.modify i fun l => { l with cleaned := true })[j]? = some l' ∧
      l'.key = l.key ∧ l'.stage = l.stage := by
  rw [List.getElem?_modify, hl]
  by_cases hij : i = j
  · exact ⟨_, rfl, by simp [hij], by simp [hij]⟩
  · exact ⟨_, rfl, by simp [hij], by simp [hij]⟩

section Steps
variable [DecidableEq K]

theorem Serial.enqueue (h : q.Serial) (key : K) (op : Op) : (q.enqueue key op).Serial := by
  have hnew : (q.links ++ [⟨key, op, q.tail key, .waiting, false⟩])[q.links.length]? =
      some (⟨key, op, q.tail key, .waiting, false⟩ : Link K Op) := by simp
  have hold : ∀ {j : ℕ} {l : Link K Op}, (q.enqueue key op).links[j]? = some l →
      q.links[j]? = some l ∨ j = q.links.length ∧ l = ⟨key, op, q.tail key, .waiting, false⟩ := by
    intro j l hl
    change (q.links ++ [_])[j]? = some l at hl
    rw [List.getElem?_append] at hl
    split at hl
    · exact Or.inl hl
    · rename_i hle
      rw [List.getElem?_singleton] at hl
      split at hl
      · exact Or.inr ⟨by omega, (Option.some.inj hl).symm⟩
      · cases hl
  have hkeep : ∀ {j : ℕ} {l : Link K Op}, q.links[j]? = some l →
      (q.enqueue key op).links[j]? = some l := by
    intro j l hl
    change (q.links ++ [_])[j]? = some l
    rw [List.getElem?_append_left (List.getElem?_eq_some_iff.1 hl).1, hl]
  have hlt : ∀ {j : ℕ} {l : Link K Op}, q.links[j]? = some l → j < q.links.length :=
    fun hl => (List.getElem?_eq_some_iff.1 hl).1
  constructor
  case prev_none =>
    intro i j l m hl hprev hij hm hkey
    obtain hm | ⟨rfl, rfl⟩ := hold hm
    · obtain hl | ⟨rfl, rfl⟩ := hold hl
      · exact h.prev_none hl hprev hij hm hkey
      · exact h.tail_none hm (hkey ▸ hprev)
    · obtain hl | ⟨rfl, -⟩ := hold hl
      · exact absurd (hlt hl) (by omega)
      · omega
  case prev_some =>
    intro j p l hl hprev
    obtain hl | ⟨rfl, rfl⟩ := hold hl
    · obtain ⟨hpj, ⟨m, hm, hkey⟩, hbetween⟩ := h.prev_some hl hprev
      refine ⟨hpj, ⟨m, hkeep hm, hkey⟩, fun hpi hij hn => ?_⟩
      obtain hn | ⟨rfl, -⟩ := hold hn
      · exact hbetween hpi hij hn
      · exact absurd (hlt hl) (by omega)
    · obtain ⟨⟨m, hm, hkey⟩, hlast⟩ := h.tail_some hprev
      refine ⟨hlt hm, ⟨m, hkeep hm, hkey⟩, fun hpi hij hn => ?_⟩
      obtain hn | ⟨rfl, -⟩ := hold hn
      · exact hlast hpi hn
      · omega
  case order =>
    intro i j l m hl hwaiting hij hm hkey
    obtain hl | ⟨rfl, rfl⟩ := hold hl
    · obtain hm | ⟨rfl, -⟩ := hold hm
      · exact h.order hl hwaiting hij hm hkey
      · exact absurd (hlt hl) (by omega)
    · exact absurd rfl hwaiting
  case tail_none =>
    intro i m hm htail
    change Function.update q.tail key (some q.links.length) m.key = none at htail
    by_cases hkey : m.key = key
    · rw [hkey, Function.update_self] at htail
      cases htail
    · rw [Function.update_of_ne hkey] at htail
      obtain hm | ⟨-, rfl⟩ := hold hm
      · exact h.tail_none hm htail
      · exact absurd rfl hkey
  case tail_some =>
    intro key' i htail
    change Function.update q.tail key (some q.links.length) key' = some i at htail
    by_cases hkey : key' = key
    · subst hkey
      rw [Function.update_self] at htail
      obtain rfl := Option.some.inj htail
      refine ⟨⟨_, hnew, rfl⟩, fun hij hl => ?_⟩
      obtain hl | ⟨rfl, -⟩ := hold hl
      · exact absurd (hlt hl) (by omega)
      · omega
    · rw [Function.update_of_ne hkey] at htail
      obtain ⟨⟨m, hm, hmkey⟩, hlast⟩ := h.tail_some htail
      refine ⟨⟨m, hkeep hm, hmkey⟩, fun hij hl => ?_⟩
      obtain hl | ⟨-, rfl⟩ := hold hl
      · exact hlast hij hl
      · exact Ne.symm hkey
  case cleaned =>
    intro i m hm hcleaned
    obtain hm | ⟨-, rfl⟩ := hold hm
    · obtain ⟨hdone, htail⟩ := h.cleaned hm hcleaned
      refine ⟨hdone, fun hsome => ?_⟩
      change Function.update q.tail key (some q.links.length) m.key = some i at hsome
      by_cases hkey : m.key = key
      · rw [hkey, Function.update_self] at hsome
        exact absurd (hlt hm) (by rw [Option.some.inj hsome]; omega)
      · rw [Function.update_of_ne hkey] at hsome
        exact htail hsome
    · cases hcleaned

/-- The cases of `cleanUp`. -/
theorem cleanUp_cases (i : ℕ) (q : Queues K Op) :
    q.cleanUp i = q ∨ ∃ l, q.links[i]? = some l ∧ l.stage.Done ∧
      q.cleanUp i =
        { q with
          links := q.links.modify i fun l => { l with cleaned := true }
          tail := if q.tail l.key = some i then Function.update q.tail l.key none else q.tail } := by
  unfold cleanUp
  split
  case h_2 => exact Or.inl rfl
  case h_1 key op prev fulfilled hl => exact Or.inr ⟨_, hl, trivial, rfl⟩

theorem Serial.cleanUp (h : q.Serial) (i : ℕ) : (q.cleanUp i).Serial := by
  obtain heq | ⟨l, hl, hdone, heq⟩ := cleanUp_cases i q
  · rw [heq]
    exact h
  · -- The tail of every key is the old one, or `i` was the tail and is no longer.
    have htails : ∀ key, (if q.tail l.key = some i then Function.update q.tail l.key none
        else q.tail) key = q.tail key ∨ key = l.key ∧ q.tail key = some i ∧
        (if q.tail l.key = some i then Function.update q.tail l.key none else q.tail) key =
          none := by
      intro key
      split
      case isFalse => exact Or.inl rfl
      case isTrue htail =>
        by_cases hkey : key = l.key
        · subst hkey
          exact Or.inr ⟨rfl, htail, Function.update_self _ _ _⟩
        · exact Or.inl (Function.update_of_ne hkey _ _)
    have hwaiting : l.stage ≠ .waiting := by
      intro hw
      rw [hw] at hdone
      exact hdone
    rw [heq]
    constructor
    case prev_none =>
      intro a b l' m' hl' hprev hab hm' hkey
      obtain ⟨l', hl', hlkey, hlprev, -⟩ := link_of_cleaned hl'
      obtain ⟨m', hm', hmkey, -, hstage, -⟩ := link_of_cleaned hm'
      rw [hstage]
      rw [hlkey, hmkey] at hkey
      exact h.prev_none hl' (hlprev ▸ hprev) hab hm' hkey
    case prev_some =>
      intro b p l' hl' hprev
      obtain ⟨l', hl', hlkey, hlprev, -⟩ := link_of_cleaned hl'
      obtain ⟨hpb, ⟨m', hm', hkey⟩, hbetween⟩ := h.prev_some hl' (hlprev ▸ hprev)
      obtain ⟨m'', hm'', hkey', -⟩ := cleaned_link (i := i) hm'
      refine ⟨hpb, ⟨m'', hm'', by rw [hkey', hkey, hlkey]⟩, fun hpa hab hn => ?_⟩
      obtain ⟨n, hn, hnkey, -⟩ := link_of_cleaned hn
      rw [hnkey, hlkey]
      exact hbetween hpa hab hn
    case order =>
      intro a b l' m' hl' hstarted hab hm' hkey
      obtain ⟨l', hl', hlkey, -, hlstage, -⟩ := link_of_cleaned hl'
      obtain ⟨m', hm', hmkey, -, hstage, -⟩ := link_of_cleaned hm'
      rw [hstage]
      rw [hlkey, hmkey] at hkey
      exact h.order hl' (hlstage ▸ hstarted) hab hm' hkey
    case tail_none =>
      intro a m' hm' htail
      obtain ⟨n, hn, hmkey, -, hstage, -⟩ := link_of_cleaned hm'
      rw [hstage]
      rw [hmkey] at htail
      obtain hsame | ⟨hkey, hold, -⟩ := htails n.key
      · exact h.tail_none hn (hsame.symm.trans htail)
      · obtain hai | rfl | hia := Nat.lt_trichotomy a i
        · exact h.order hl hwaiting hai hn hkey
        · cases hl.symm.trans hn
          exact hdone
        · exact absurd rfl ((h.tail_some hold).2 hia hn)
    case tail_some =>
      intro key a htail
      obtain hsame | ⟨-, -, hnone⟩ := htails key
      · obtain ⟨⟨m', hm', hkey⟩, hlast⟩ := h.tail_some (hsame.symm.trans htail)
        obtain ⟨m'', hm'', hkey', -⟩ := cleaned_link (i := i) hm'
        refine ⟨⟨m'', hm'', hkey'.trans hkey⟩, fun hab hn => ?_⟩
        obtain ⟨n, hn, hnkey, -⟩ := link_of_cleaned hn
        rw [hnkey]
        exact hlast hab hn
      · cases hnone.symm.trans htail
    case cleaned =>
      intro a m' hm' hcleaned
      obtain ⟨n, hn, hmkey, -, hstage, hold⟩ := link_of_cleaned hm'
      rw [hstage, hmkey]
      obtain hsame | ⟨hkey, htail, hnone⟩ := htails n.key
      · obtain rfl | hc := hold hcleaned
        · cases hl.symm.trans hn
          refine ⟨hdone, fun hsome => ?_⟩
          have htail : q.tail l.key = some i := hsame.symm.trans hsome
          rw [if_pos htail, Function.update_self, htail] at hsame
          cases hsame
        · obtain ⟨hdone', htail⟩ := h.cleaned hn hc
          exact ⟨hdone', fun hsome => htail (hsame.symm.trans hsome)⟩
      · refine ⟨?_, fun hsome => by cases hnone.symm.trans hsome⟩
        obtain rfl | hc := hold hcleaned
        · cases hl.symm.trans hn
          exact hdone
        · exact (h.cleaned hn hc).1

theorem stage_enqueue (q : Queues K Op) (key : K) (op : Op) (i : ℕ) :
    (q.enqueue key op).stage i = if i = q.links.length then some .waiting else q.stage i := by
  change ((q.links ++ [_])[i]?).map Link.stage = _
  rw [List.getElem?_append]
  split
  · rename_i hlt
    rw [if_neg (by omega)]
    rfl
  · rename_i hle
    rw [List.getElem?_singleton]
    split
    · rw [if_pos (by omega)]
      rfl
    · rw [if_neg (by omega), Queues.stage, List.getElem?_eq_none (by omega)]

@[simp] theorem stage_cleanUp (q : Queues K Op) (i j : ℕ) : (q.cleanUp i).stage j = q.stage j := by
  obtain heq | ⟨l, hl, hdone, heq⟩ := cleanUp_cases i q
  · rw [heq]
  · rw [heq]
    unfold Queues.stage
    cases hj : q.links[j]? with
    | none => rw [List.getElem?_modify, hj]; rfl
    | some m =>
      obtain ⟨m', hm', -, hstage⟩ := cleaned_link (i := i) hj
      rw [hm', Option.map_some, Option.map_some, hstage]

theorem Started.enqueue (h : q.Started) (key : K) (op : Op) : (q.enqueue key op).Started := by
  have hlinks : (q.enqueue key op).links =
      q.links ++ [⟨key, op, q.tail key, .waiting, false⟩] := rfl
  have hkey : ∀ i ∈ q.started, (q.enqueue key op).key i = q.key i := by
    intro i hi
    obtain ⟨m, hm, -⟩ := (h.mem i).1 hi
    rw [Queues.key, Queues.key, hlinks,
      List.getElem?_append_left (List.getElem?_eq_some_iff.1 hm).1]
  constructor
  case sorted =>
    refine h.sorted.imp_of_mem fun {i j} hi hj hij hsame => hij ?_
    rw [← hkey i hi, ← hkey j hj, hsame]
  case mem =>
    intro i
    change i ∈ q.started ↔ _
    rw [h.mem, hlinks]
    constructor
    · rintro ⟨m, hm, hwaiting⟩
      exact ⟨m, by rw [List.getElem?_append_left (List.getElem?_eq_some_iff.1 hm).1, hm],
        hwaiting⟩
    · rintro ⟨m, hm, hwaiting⟩
      rw [List.getElem?_append] at hm
      split at hm
      · exact ⟨m, hm, hwaiting⟩
      · rw [List.getElem?_singleton] at hm
        split at hm
        · rw [← Option.some.inj hm] at hwaiting
          exact absurd rfl hwaiting
        · cases hm

theorem Started.cleanUp (h : q.Started) (i : ℕ) : (q.cleanUp i).Started := by
  obtain heq | ⟨l, hl, hdone, heq⟩ := cleanUp_cases i q
  · rw [heq]
    exact h
  · have hkey : ∀ j, (q.cleanUp i).key j = q.key j := by
      intro j
      rw [heq]
      unfold Queues.key
      cases hj : q.links[j]? with
      | none => rw [List.getElem?_modify, hj]; rfl
      | some m =>
        obtain ⟨m', hm', hsame, -⟩ := cleaned_link (i := i) hj
        rw [hm', Option.map_some, Option.map_some, hsame]
    constructor
    case sorted =>
      have hsorted := h.sorted
      simp only [← hkey] at hsorted
      rw [heq] at hsorted ⊢
      exact hsorted
    case mem =>
      intro j
      rw [heq]
      change j ∈ q.started ↔ _
      rw [h.mem]
      constructor
      · rintro ⟨m, hm, hwaiting⟩
        obtain ⟨m', hm', -, hstage⟩ := cleaned_link (i := i) hm
        exact ⟨m', hm', hstage ▸ hwaiting⟩
      · rintro ⟨m, hm, hwaiting⟩
        obtain ⟨m', hm', -, -, hstage, -⟩ := link_of_cleaned hm
        exact ⟨m', hm', hstage ▸ hwaiting⟩

end Steps

/-! ## Starting -/

/-- The queue runs its operations also behind rejected promises, or there are none. -/
def Runs (both : Bool) (q : Queues K Op) : Prop :=
  ∀ prev fulfilled, q.standing prev = some fulfilled → (fulfilled || both) = true

theorem runs_both (q : Queues K Op) : q.Runs true := fun _ fulfilled _ => Bool.or_true fulfilled

theorem runs_of_fulfilled (h : ∀ i, q.stage i ≠ some (.settled false)) : q.Runs false := by
  intro prev fulfilled hstanding
  rw [Bool.or_false]
  cases prev with
  | none => exact (Option.some.inj hstanding).symm
  | some p =>
    rw [standing] at hstanding
    split at hstanding
    · rename_i settled hsettled
      cases settled with
      | true => exact (Option.some.inj hstanding).symm
      | false => exact absurd hsettled (h p)
    · cases hstanding

theorem Started.start {both : Bool} (h : q.Started) (hserial : q.Serial) (hruns : q.Runs both)
    (i : ℕ) : (q.start both i).Started := by
  obtain heq | ⟨l, fulfilled, hl, hwaiting, hstanding, heq⟩ := start_cases both i q
  · rw [heq]
    exact h
  · rw [if_pos (hruns _ _ hstanding)] at heq
    rw [heq]
    have hnew : i ∉ q.started := by
      intro hi
      obtain ⟨m, hm, hstarted⟩ := (h.mem i).1 hi
      cases hl.symm.trans hm
      exact hstarted hwaiting
    constructor
    case sorted =>
      change (q.started ++ [i]).Pairwise fun a b =>
        (q.setStage i .running).key a = (q.setStage i .running).key b → a < b
      simp only [key_setStage]
      rw [List.pairwise_append]
      refine ⟨h.sorted, List.pairwise_singleton _ _, fun a ha b hb hkey => ?_⟩
      rw [List.mem_singleton.1 hb] at hkey ⊢
      obtain ⟨m, hm, hstarted⟩ := (h.mem a).1 ha
      obtain hai | rfl | hia := Nat.lt_trichotomy a i
      · exact hai
      · exact absurd ha hnew
      · -- What starts later in the queue would have waited for `i`.
        rw [Queues.key, Queues.key, hm, hl] at hkey
        have hdone := hserial.order hm hstarted hia hl (Option.some.inj hkey).symm
        rw [hwaiting] at hdone
        exact hdone.elim
    case mem =>
      intro j
      change j ∈ q.started ++ [i] ↔ ∃ m, (q.setStage i .running).links[j]? = some m ∧ _
      rw [List.mem_append, List.mem_singleton, h.mem]
      constructor
      · rintro (⟨m, hm, hstarted⟩ | rfl)
        · obtain ⟨m', hm', hmoved⟩ := setStage_link i .running hm
          refine ⟨m', hm', ?_⟩
          obtain ⟨-, hstage⟩ | ⟨-, hstage⟩ := hmoved.stage
          · rw [hstage]
            exact fun hw => nomatch hw
          · rw [hstage]
            exact hstarted
        · obtain ⟨m', hm', hmoved⟩ := setStage_link j .running hl
          refine ⟨m', hm', ?_⟩
          obtain ⟨-, hstage⟩ | ⟨hne, -⟩ := hmoved.stage
          · rw [hstage]
            exact fun hw => nomatch hw
          · exact absurd rfl hne
      · rintro ⟨m, hm, hstarted⟩
        obtain ⟨m', hm', hmoved⟩ := link_of_setStage hm
        obtain ⟨hij, -⟩ | ⟨-, hstage⟩ := hmoved.stage
        · exact Or.inr hij.symm
        · exact Or.inl ⟨m', hm', hstage ▸ hstarted⟩

theorem Started.finish (h : q.Started) (i : ℕ) (fulfilled : Bool) :
    (q.finish i fulfilled).Started := by
  unfold Queues.finish
  split
  case isFalse => exact h
  case isTrue hrunning =>
    constructor
    case sorted =>
      simp only [key_setStage]
      exact h.sorted
    case mem =>
      intro j
      change j ∈ q.started ↔ _
      rw [h.mem]
      constructor
      · rintro ⟨m, hm, hstarted⟩
        obtain ⟨m', hm', hmoved⟩ := setStage_link i (.settled fulfilled) hm
        refine ⟨m', hm', ?_⟩
        obtain ⟨-, hstage⟩ | ⟨-, hstage⟩ := hmoved.stage
        · rw [hstage]
          exact fun hw => nomatch hw
        · rw [hstage]
          exact hstarted
      · rintro ⟨m, hm, hstarted⟩
        obtain ⟨m', hm', hmoved⟩ := link_of_setStage hm
        refine ⟨m', hm', ?_⟩
        obtain ⟨rfl, -⟩ | ⟨-, hstage⟩ := hmoved.stage
        · rw [Queues.stage, hm', Option.map_some, Option.some.injEq] at hrunning
          rw [hrunning]
          exact fun hw => nomatch hw
        · exact hstage ▸ hstarted

theorem Started.length (h : q.Started) (hi : i ∈ q.started) : i < q.links.length := by
  obtain ⟨m, hm, -⟩ := (h.mem i).1 hi
  exact (List.getElem?_eq_some_iff.1 hm).1

theorem Started.mem_stage (h : q.Started) :
    i ∈ q.started ↔ ∃ stage, q.stage i = some stage ∧ stage ≠ .waiting := by
  rw [h.mem, Queues.stage]
  cases q.links[i]? <;> simp

/-- An operation can start when those of its key before it have settled. -/
theorem Serial.start_running {both : Bool} (h : q.Serial) (hruns : q.Runs both)
    (hl : q.links[j]? = some l) (hwaiting : l.stage = .waiting)
    (hbefore : ∀ {i : ℕ} {m : Link K Op}, i < j → q.links[i]? = some m → m.key = l.key →
      m.stage.Done) : (q.start both j).stage j = some .running := by
  have hstanding : ∃ fulfilled, q.standing l.prev = some fulfilled := by
    cases hprev : l.prev with
    | none => exact ⟨true, rfl⟩
    | some p =>
      obtain ⟨hlt, ⟨m, hm, hkey⟩, -⟩ := h.prev_some hl hprev
      obtain ⟨fulfilled, hsettled⟩ := settled_of_done hm (hbefore hlt hm hkey)
      exact ⟨fulfilled, by rw [standing, hsettled]⟩
  obtain ⟨fulfilled, hstanding⟩ := hstanding
  have hstart : q.start both j =
      { q.setStage j .running with started := q.started ++ [j] } := by
    obtain ⟨key, op, prev, stage, cleaned⟩ := l
    cases hwaiting
    simp only [Queues.start, hl, hstanding, hruns _ _ hstanding, if_true]
  obtain ⟨m', hm', hmoved⟩ := setStage_link j .running hl
  rw [hstart]
  change ((q.setStage j .running).links[j]?).map Link.stage = _
  rw [hm']
  obtain ⟨-, hstage⟩ | ⟨hne, -⟩ := hmoved.stage
  · exact congrArg some hstage
  · exact absurd rfl hne

/-- The map has no entry of a key when its operations have been cleaned up. -/
theorem Serial.tail_eq_none (h : q.Serial) {key : K}
    (hcleaned : ∀ {i : ℕ} {m : Link K Op}, q.links[i]? = some m → m.key = key →
      m.cleaned = true) : q.tail key = none := by
  cases htail : q.tail key with
  | none => rfl
  | some i =>
    obtain ⟨⟨m, hm, rfl⟩, -⟩ := h.tail_some htail
    exact absurd htail (h.cleaned hm (hcleaned hm rfl)).2

end Queues

end Tethra.PromiseQueues
