import Tethra.RowUpdates

set_option autoImplicit false

/-!
# Jobs one after another

Each job runs alone until it is done or given up. What it replaces is then the row it has
seen, unless it has replaced that row before.
-/
namespace Tethra.SequentialUpdates
open AtomicPrograms RowUpdates StatefulActions

section Sequences
variable {σ ε κ ρ J : Type}

/-- Each job on a task of its own, with the number of its actions. -/
def oneByOne : ℕ → List (J × ℕ) → List (Step σ J ℕ)
  | _, [] => []
  | t, (job, actions) :: jobs =>
    .start t job :: (List.replicate actions (.advance t) ++ oneByOne (t + 1) jobs)

variable (S : Store σ κ ρ) (I : σ → Prop) (A : J → σ → Prop) (fresh : J → ρ → Prop)
variable (program : J → Program σ ε Unit)

/-- A job installs nothing where it has installed a row before, and a new row only where there
is none. It takes an action where it may rely on `A`. -/
def Once (x : Board σ ε J ℕ) (g : ℕ → Trace κ ρ) : Step σ J ℕ → Prop
  | .advance t => ∀ job (β : Type) (m : Action σ ε β) (next : β → Program σ ε Unit),
      x.tasks t = some (.running job (.act m next)) → A job x.state ∧ ∀ r, Puts S r m →
      (∀ r', (g t).puts r' → S.key r' ≠ S.key r) ∧
        (fresh job r → S.row x.state (S.key r) = none)
  | _ => True

def AlongOnce : Board σ ε J ℕ → (ℕ → Trace κ ρ) → List (Step σ J ℕ) → Prop
  | _, _, [] => True
  | x, g, step :: steps => Once S A fresh x g step ∧
      AlongOnce (perform program x step) (watch S x g step) steps

/-- What the task has seen is stored still, or was replaced by the task. -/
def Abreast (x : Board σ ε J ℕ) (g : ℕ → Trace κ ρ) (t : ℕ) : Prop :=
  ∀ k old, (g t).seen k old → old = S.row x.state k ∨ ∃ r, (g t).puts r ∧ S.key r = k

variable {S I A fresh program}
variable {follows : J → Option ρ → ρ → Prop} {Q : J → Unit → Trace κ ρ → Prop}
variable {x : Board σ ε J ℕ} {g : ℕ → Trace κ ρ} {es : κ → List (Entry J ℕ ρ)} {t : ℕ}

theorem Once.current (hx : Abreast S x g t) (h : Once S A fresh x g (.advance t)) :
    Current S I A fresh x g (.advance t) := by
  intro job β m next ht
  obtain ⟨hA, hputs⟩ := h job β m next ht
  refine ⟨hA, fun r hr => ⟨fun old hold => ?_, (hputs r hr).2⟩⟩
  rcases hx _ old hold with hsame | ⟨r', hr', hkey⟩
  · exact hsame
  · exact absurd hkey ((hputs r hr).1 r' hr')

theorem Abreast.settle {β : Type} {m : Action σ ε β} {rows : κ → Option ρ}
    {task : Task σ ε J} (hx : Abreast S x g t) (hsets : Sets S rows m) :
    Abreast S (x.settle t (m x.state).2 task)
      (Function.update g t ((g t).after S m x.state)) t := by
  intro k old hold
  rw [Function.update_self] at hold ⊢
  have hbefore : old = S.row x.state k ∨ ∃ r, (g t).puts r ∧ S.key r = k := by
    rcases hold with hold | ⟨-, hold⟩
    · exact hx k old hold
    · exact Or.inl hold
  rcases hbefore with hsame | ⟨r, hr, hkey⟩
  · change old = S.row (m x.state).2 k ∨ _
    cases hm : (m x.state).1 with
    | error e => exact Or.inl (hsame.trans (hsets.failed _ e hm k).symm)
    | ok a =>
      rw [hsets.done _ a hm]
      cases hrows : rows k with
      | none => exact Or.inl hsame
      | some r => exact Or.inr ⟨r, Or.inr ⟨hsets.puts k r hrows, a, hm⟩, hsets.keyed k r hrows⟩
  · exact Or.inr ⟨r, Or.inl hr, hkey⟩

theorem Abreast.advance (htraced : Traced S I A fresh follows Q x g es) (hx : Abreast S x g t) :
    Abreast S (perform program x (.advance t)) (watch S x g (.advance t)) t := by
  rcases ht : x.tasks t with _ | ⟨job, _ | ⟨m, next⟩⟩ | ⟨job, r⟩
  · simp only [perform, watch, ht]
    exact hx
  · simp only [perform, watch, ht]
    exact hx
  · simp only [perform, watch, ht]
    obtain ⟨-, ⟨rows, hsets, -⟩, -⟩ := htraced.running t job _ ht
    exact hx.settle hsets
  · simp only [perform, watch, ht]
    exact hx

theorem Chain.eq_nil {entries : List (Entry J ℕ ρ)} {old : Option ρ}
    (h : Chain follows old entries none) : entries = [] := by
  induction entries generalizing old with
  | nil => rfl
  | cons entry rest ih =>
    obtain rfl := ih h.2
    cases h.2

theorem tasks_advance {u : ℕ} (hu : u ≠ t) :
    (perform program x (.advance t)).tasks u = x.tasks u := by
  rcases ht : x.tasks t with _ | ⟨job, _ | ⟨m, next⟩⟩ | ⟨job, r⟩
  · simp only [perform, ht]
  · simp only [perform, ht]
    rw [tasks_settle, if_neg hu]
  · simp only [perform, ht]
    rw [tasks_settle, if_neg hu]
  · simp only [perform, ht]

theorem tasks_start {job : J} {u : ℕ} (hu : u ≠ t) :
    (perform program x (.start t job)).tasks u = x.tasks u := by
  cases ht : x.tasks t with
  | some task => simp only [perform, ht]
  | none =>
    simp only [perform, ht]
    rw [tasks_settle, if_neg hu]

/-- Every task works at a job that was started. -/
theorem job_perform {P : J → Prop} {step : Step σ J ℕ}
    (hx : ∀ t task, x.tasks t = some task → P task.job)
    (hstep : ∀ t job, step = .start t job → P job) {u : ℕ} {task : Task σ ε J}
    (h : (perform program x step).tasks u = some task) : P task.job := by
  have hsettle : ∀ t s (new : Task σ ε J), P new.job → (x.settle t s new).tasks u = some task →
      P task.job := by
    intro t s new hnew hu
    rw [tasks_settle] at hu
    split at hu
    · exact Option.some.inj hu ▸ hnew
    · exact hx u task hu
  cases step with
  | meanwhile f => exact hx u task h
  | start t job =>
    cases ht : x.tasks t with
    | some other =>
      simp only [perform, ht] at h
      exact hx u task h
    | none =>
      simp only [perform, ht] at h
      exact hsettle t _ (.running job (program job)) (hstep t job rfl) h
  | advance t =>
    rcases ht : x.tasks t with _ | ⟨job, _ | ⟨m, next⟩⟩ | ⟨job, r⟩
    · simp only [perform, ht] at h
      exact hx u task h
    · simp only [perform, ht] at h
      have hjob := hx t _ ht
      refine hsettle t _ _ ?_ h
      exact hjob
    · simp only [perform, ht] at h
      refine hsettle t _ _ ?_ h
      have hjob := hx t _ ht
      cases (m x.state).1 <;> exact hjob
    · simp only [perform, ht] at h
      exact hx u task h

variable (hjobs : ∀ job,
  Grounded S I (A job) (Allows S fresh follows job) (Q job) (program job) Trace.empty)
include hjobs

/-- One job to its end, and then the others. -/
theorem along_advances {rest : List (Step σ J ℕ)} (n : ℕ)
    (hrest : ∀ (x : Board σ ε J ℕ) g es, Traced S I A fresh follows Q x g es →
      (∀ u > t, x.tasks u = none) → AlongOnce S A fresh program x g rest →
      Along S I A program fresh x g rest)
    (htraced : Traced S I A fresh follows Q x g es) (hx : Abreast S x g t)
    (hidle : ∀ u > t, x.tasks u = none)
    (h : AlongOnce S A fresh program x g (List.replicate n (.advance t) ++ rest)) :
    Along S I A program fresh x g (List.replicate n (.advance t) ++ rest) := by
  induction n generalizing x g es with
  | zero => exact hrest x g es htraced hidle h
  | succ n ih =>
    rw [List.replicate_succ, List.cons_append] at h ⊢
    have hcurrent : Current S I A fresh x g (.advance t) := h.1.current hx
    refine ⟨hcurrent, ih (htraced.perform hjobs hcurrent).1 (hx.advance htraced) ?_ h.2⟩
    intro u hu
    rw [tasks_advance (Nat.ne_of_gt hu)]
    exact hidle u hu

theorem along_oneByOne (jobs : List (J × ℕ)) (htraced : Traced S I A fresh follows Q x g es)
    (hidle : ∀ u ≥ t, x.tasks u = none)
    (h : AlongOnce S A fresh program x g (oneByOne t jobs)) :
    Along S I A program fresh x g (oneByOne t jobs) := by
  induction jobs generalizing t x g es with
  | nil => trivial
  | cons entry jobs ih =>
    obtain ⟨job, actions⟩ := entry
    have hcurrent : Current S I A fresh x g (.start t job) := trivial
    refine ⟨hcurrent, ?_⟩
    refine along_advances hjobs actions ?_ (htraced.perform hjobs hcurrent).1 ?_ ?_ h.2
    · exact fun x g es htraced hidle => ih htraced hidle
    · intro k old hold
      change (g t).seen k old at hold
      rw [htraced.idle t (hidle t (Nat.le_refl t))] at hold
      exact hold.elim
    · intro u hu
      rw [tasks_start (Nat.ne_of_gt hu)]
      exact hidle u (Nat.le_of_lt hu)

/-- Jobs one after another leave every row with a serial history. -/
theorem sequential_history (hidle : ∀ t, x.tasks t = none) (hI : I x.state)
    (jobs : List (J × ℕ))
    (h : AlongOnce S A fresh program x (fun _ => Trace.empty) (oneByOne 0 jobs)) (k : κ) :
    Chain follows (S.row x.state k) (history S program k x (oneByOne 0 jobs))
      (S.row (run program x (oneByOne 0 jobs)).state k) := by
  have htraced : Traced S I A fresh follows Q x (fun _ => Trace.empty) fun _ => [] :=
    traced_idle hidle hI
  exact (serial_history hjobs hidle hI _
    (along_oneByOne hjobs jobs htraced (fun u _ => hidle u) h)).1 k

/-- While there are no rows, nothing is replaced. -/
theorem alongOnce_empty {P : J → Prop}
    (hA : ∀ job s, P job → (∀ k, S.row s k = none) → A job s)
    (hP : ∀ t task, x.tasks t = some task → P task.job)
    (htraced : Traced S I A fresh follows Q x g es) (hes : ∀ k, es k = [])
    (hseen : ∀ t k old, (g t).seen k old → old = none) (steps : List (Step σ J ℕ))
    (hsteps : ∀ step ∈ steps, (∀ f, step ≠ .meanwhile f) ∧ ∀ t job, step = .start t job → P job)
    (hempty : ∀ n < steps.length, ∀ k, S.row (run program x (steps.take n)).state k = none) :
    AlongOnce S A fresh program x g steps := by
  induction steps generalizing x g es with
  | nil => trivial
  | cons step steps ih =>
    have hnone : ∀ k, S.row x.state k = none := hempty 0 (Nat.succ_pos _)
    have hputs : ∀ t task r, x.tasks t = some task → ¬ (g t).puts r := by
      intro t task r ht hr
      have hmem := htraced.recorded t task r ht hr
      rw [hes] at hmem
      cases hmem
    have honce : Once S A fresh x g step := by
      cases step with
      | start t job => trivial
      | meanwhile f => trivial
      | advance t =>
        intro job β m next ht
        refine ⟨hA job _ (hP t _ ht) hnone, fun r _ => ⟨fun r' hr' => ?_, fun _ => hnone _⟩⟩
        exact (hputs t _ r' ht hr').elim
    have hcurrent : Current S I A fresh x g step := by
      cases step with
      | start t job => trivial
      | meanwhile f => exact ((hsteps _ List.mem_cons_self).1 f rfl).elim
      | advance t =>
        intro job β m next ht
        refine ⟨hA job _ (hP t _ ht) hnone, fun r _ => ⟨fun old hold => ?_, fun _ => hnone _⟩⟩
        rw [hseen t _ old hold, hnone]
    obtain ⟨hnext, hchain⟩ := htraced.perform hjobs hcurrent
    refine ⟨honce, ?_⟩
    cases hrest : steps with
    | nil => trivial
    | cons second rest =>
      rw [← hrest]
      have hstarted := (hsteps step List.mem_cons_self).2
      refine ih (fun t task => job_perform hP hstarted) hnext (fun k => ?_) ?_
        (fun step' h => hsteps step' (List.mem_cons_of_mem _ h)) fun n hn => hempty (n + 1) (Nat.succ_lt_succ hn)
      · have hafter : S.row (perform program x step).state k = none :=
          hempty 1 (by rw [hrest]; simp) k
        rw [hes, List.nil_append]
        have hlast := hchain k
        rw [hafter] at hlast
        exact Chain.eq_nil hlast
      · intro t k old hold
        rcases seen_watch S hold with hbefore | hnow
        · exact hseen t k old hbefore
        · exact hnow.trans (hnone k)

end Sequences
end Tethra.SequentialUpdates
