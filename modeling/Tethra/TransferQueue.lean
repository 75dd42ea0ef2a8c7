import Tethra.SftpResume

set_option autoImplicit false

/-!
# The transfer queue and its backend

The queue runs one transfer at a time. What its backend sends is arbitrary, but that a call ends
with one last event and then a result, and that a folder is only taken from offset 0. User
actions come at any time, also between the last event of a call and its result.
-/
namespace Tethra.TransferQueue
open SftpTransfers
open SftpResume (KeepsRoute mem_modifyItem modifyItem_ids onEvent_keeps)

/-- How a call of `sftp_transfer` ends: before its transfer is known to the backend, or with the
event that tells of it. -/
inductive Outcome where
  | rejected (message : String)
  | completed (bytes : ℕ) (message : Option String)
  | paused (bytes : ℕ) (totalBytes : Option ℕ) (message : String)
  | failed (bytes : ℕ) (totalBytes : Option ℕ) (message : String)

def Outcome.event : Outcome → Option TransferEvent
  | .rejected _ => none
  | .completed bytes message => some ⟨.completed, bytes, some bytes, message⟩
  | .paused bytes totalBytes message => some ⟨.paused, bytes, totalBytes, some message⟩
  | .failed bytes totalBytes message => some ⟨.failed, bytes, totalBytes, some message⟩

def Outcome.result : Outcome → Except String ℕ
  | .rejected message => .error message
  | .completed bytes _ => .ok bytes
  | .paused _ _ _ => .error CANCELLED
  | .failed _ _ message => .error message

def FOLDER_OFFSET : String := "folder transfers cannot resume; cancel and retry from the start"

inductive Action where
  | enqueue (id : String) (route : Route) (offset : Option ℕ)
  | pauseActive
  | resume (id : String)
  | cancel (id : String)
  | retry (id : String)
  | clearCompleted
  | started
  | progress (bytes : ℕ) (totalBytes : Option ℕ)
  | last (outcome : Outcome)
  | settle

section Backend
variable (isFolder : Route → Bool)

/-- A folder is refused at any other offset than 0, if the call gets that far. -/
def answer (a : Active) : Outcome → Outcome
  | .rejected message => .rejected message
  | .failed bytes totalBytes message => .failed bytes totalBytes message
  | outcome =>
    if isFolder a.route ∧ 0 < a.offset then .failed a.offset none FOLDER_OFFSET else outcome

/-- An event of the call under way, before its last one. -/
def notify (x : Runner) (event : Active → TransferEvent) : Runner :=
  match x.active with
  | none => x
  | some a =>
    match a.phase with
    | .ended _ => x
    | _ => applyEvent x a.id (event a)

/-- The last event of the call under way, after which its result is on the way. -/
def last (x : Runner) (outcome : Outcome) : Runner :=
  match x.active with
  | none => x
  | some a =>
    match a.phase with
    | .ended _ => x
    | _ =>
      let outcome := answer isFolder a outcome
      let x := { x with active := some { a with phase := .ended outcome.result } }
      match outcome.event with
      | none => x
      | some event => applyEvent x a.id event

def perform (x : Runner) : Action → Runner
  | .enqueue id route offset => enqueue x id route offset
  | .pauseActive => pauseActive x
  | .resume id => resume x id
  | .cancel id => cancel x id
  | .retry id => retry x id
  | .clearCompleted => clearCompleted x
  | .started => notify x fun a => ⟨.started, a.offset, none, none⟩
  | .progress bytes totalBytes => notify x fun _ => ⟨.progress, bytes, totalBytes, none⟩
  | .last outcome => last isFolder x outcome
  | .settle => settle x

def run (x : Runner) (steps : List Action) : Runner := steps.foldl (perform isFolder) x

/-- The call under way ends, its result comes, and no one acts meanwhile. -/
def endRun (x : Runner) (outcome : Outcome) : Runner := settle (last isFolder x outcome)

/-- `n` calls end one after the other. -/
def drive (outcomes : ℕ → Outcome) : ℕ → Runner → Runner
  | 0, x => x
  | n + 1, x => drive (fun k => outcomes (k + 1)) n (endRun isFolder x (outcomes 0))

end Backend

/-- A queue without items. -/
def start : Runner := ⟨[], none, fun _ => none⟩

/-! ## The protocol -/

def newId : Action → Option String
  | .enqueue id _ _ => some id
  | _ => none

/-- No two items get one identifier. -/
def NewIds (steps : List Action) : Prop := (steps.filterMap newId).Nodup

/-- The user asks for the item to run again, and is heard. -/
def Requeues (x : Runner) (id : String) : Action → Prop
  | .resume i => i = id ∧ ∃ item ∈ x.items, item.id = id ∧ item.status = .paused
  | .retry i => i = id ∧ ∃ item ∈ x.items, item.id = id
  | _ => False

section Protocol
variable (isFolder : Route → Bool)

/-- A call for the item is under way, of a folder from offset 0. -/
def Started (x : Runner) (id : String) : Prop :=
  ∃ a, x.active = some a ∧ a.id = id ∧ a.phase = .starting ∧
    (isFolder a.route = true → a.offset = 0)

/-- However the calls end, one for the item begins after some of them. -/
def WillStart (x : Runner) (id : String) : Prop :=
  ∀ outcomes, ∃ n, Started isFolder (drive isFolder outcomes n x) id

def OneRunning (x : Runner) : Prop :=
  ∀ i ∈ x.items, ∀ j ∈ x.items, i.status = .running → j.status = .running → i.id = j.id

/-- An item that was cancelled is cancelled as long as it is not retried. -/
def CancelKept (steps : List Action) : Prop :=
  ∀ before id after, steps = before ++ .cancel id :: after →
    (∃ item ∈ (run isFolder start before).items, item.id = id) → .retry id ∉ after →
    ∀ i ∈ (run isFolder start steps).items, i.id = id → i.status = .cancelled

/-- An item that was resumed or retried, and not cancelled since, has been started since or
will be. -/
def RequeueKept (steps : List Action) : Prop :=
  ∀ before id step after, steps = before ++ step :: after →
    Requeues (run isFolder start before) id step → .cancel id ∉ after →
    (∃ p, p <+: after ∧ Started isFolder (run isFolder start (before ++ step :: p)) id) ∨
      WillStart isFolder (run isFolder start steps) id

structure Protocol (steps : List Action) : Prop where
  one : OneRunning (run isFolder start steps)
  cancelled : CancelKept isFolder steps
  requeued : RequeueKept isFolder steps

/-- No call for the item is under way, but for one that has said it is completed. -/
def Free (x : Runner) (id : String) : Prop :=
  ∀ a, x.active = some a → a.id = id → ∃ bytes, a.phase = .ended (.ok bytes)

/-- The item is no folder that is left at another offset than 0. -/
def FromStart (x : Runner) (id : String) : Prop :=
  ∀ i ∈ x.items, i.id = id → isFolder i.route = true → i.offset = 0

/-- Only items without a call under way are cancelled, resumed and retried, and folders are
resumed and retried only at offset 0. -/
def Careful (x : Runner) : Action → Prop
  | .cancel id => Free x id
  | .retry id => Free x id ∧ FromStart isFolder x id
  | .resume id => Requeues x id (.resume id) → Free x id ∧ FromStart isFolder x id
  | _ => True

def Along : Runner → List Action → Prop
  | _, [] => True
  | x, step :: steps => Careful isFolder x step ∧ Along (perform isFolder x step) steps

end Protocol

/-! ## At most one is running -/

/-- Identifiers differ, a running item is that of the call under way, and the item of a call that
has said it is completed is not running. -/
structure Sane (x : Runner) : Prop where
  ids : (x.items.map TransferItem.id).Nodup
  running : ∀ i ∈ x.items, i.status = .running → ∃ a, x.active = some a ∧ a.id = i.id
  done : ∀ a bytes, x.active = some a → a.phase = .ended (.ok bytes) →
    ∀ i ∈ x.items, i.id = a.id → i.status ≠ .running

/-- Without a call under way no item waits. -/
structure Good (x : Runner) : Prop extends Sane x where
  idle : x.active = none → ∀ i ∈ x.items, i.status ≠ .queued

section Operations
variable {x : Runner} {id : String} {f : TransferItem → TransferItem}

theorem Good.one (hx : Good x) : OneRunning x := by
  intro i hi j hj hri hrj
  obtain ⟨a, ha, hai⟩ := hx.running i hi hri
  obtain ⟨b, hb, hbj⟩ := hx.running j hj hrj
  rw [ha, Option.some.injEq] at hb
  rw [← hai, ← hbj, hb]

/-- The item stays the same transfer and does not become a running one. -/
structure Tame (f : TransferItem → TransferItem) : Prop where
  keeps : KeepsRoute f
  running : ∀ i, (f i).status = .running → i.status = .running

theorem Sane.modify (hx : Sane x) (hf : Tame f) (id : String) :
    Sane { x with items := modifyItem id f x.items } where
  ids := by
    rw [modifyItem_ids hf.keeps]
    exact hx.ids
  running i hi hr := by
    obtain ⟨hold, -⟩ | ⟨j, hj, -, rfl⟩ := mem_modifyItem hi
    · exact hx.running i hold hr
    · rw [(hf.keeps j).1]
      exact hx.running j hj (hf.running j hr)
  done a bytes ha hp i hi hid hr := by
    obtain ⟨hold, -⟩ | ⟨j, hj, -, rfl⟩ := mem_modifyItem hi
    · exact hx.done a bytes ha hp i hold hid hr
    · rw [(hf.keeps j).1] at hid
      exact hx.done a bytes ha hp j hj hid (hf.running j hr)

theorem Good.modify (hx : Good x) (hf : Tame f)
    (hqueued : ∀ i, (f i).status = .queued → i.status = .queued) (id : String) :
    Good { x with items := modifyItem id f x.items } where
  toSane := hx.toSane.modify hf id
  idle ha i hi hq := by
    obtain ⟨hold, -⟩ | ⟨j, hj, -, rfl⟩ := mem_modifyItem hi
    · exact hx.idle ha i hold hq
    · exact hx.idle ha j hj (hqueued j hq)

theorem tame_requeue : Tame requeue := ⟨fun _ => ⟨rfl, rfl⟩, fun _ h => by cases h⟩

theorem tame_setStatus {status : TransferStatus} (h : status ≠ .running) :
    Tame fun item => { item with status := status } := ⟨fun _ => ⟨rfl, rfl⟩, fun _ hs => absurd hs h⟩

/-- What `pump` does: nothing, or the first queued item becomes the running one. -/
theorem pump_cases (x : Runner) :
    (pump x = x ∧ (x.active = none → ∀ i ∈ x.items, i.status ≠ .queued)) ∨
    ∃ next ∈ x.items, next.status = .queued ∧ x.active = none ∧ pump x = { x with
      active := some ⟨next.id, next.route, next.offset, .starting, false⟩
      items := modifyItem next.id (fun item => { item with status := .running }) x.items } := by
  unfold pump
  cases ha : x.active with
  | some a => exact Or.inl ⟨rfl, fun h => by cases h⟩
  | none =>
    cases hn : x.items.find? (fun item => item.status = .queued) with
    | none =>
      refine Or.inl ⟨rfl, fun _ i hi hq => ?_⟩
      have hnot := List.find?_eq_none.1 hn i hi
      simp [hq] at hnot
    | some next =>
      have hq : next.status = .queued := by simpa using List.find?_some hn
      exact Or.inr ⟨next, List.mem_of_find?_eq_some hn, hq, rfl, rfl⟩

theorem Sane.pump (hx : Sane x) : Good (pump x) := by
  obtain ⟨heq, hidle⟩ | ⟨next, hnext, hq, ha, heq⟩ := pump_cases x
  · rw [heq]
    exact ⟨hx, hidle⟩
  · rw [heq]
    have hkeeps : KeepsRoute fun item => { item with status := .running } := fun _ => ⟨rfl, rfl⟩
    refine ⟨⟨?_, fun i hi hr => ?_, fun a bytes hact hp => ?_⟩, fun h => by cases h⟩
    · rw [modifyItem_ids hkeeps]
      exact hx.ids
    · obtain ⟨hold, -⟩ | ⟨j, hj, hid, rfl⟩ := mem_modifyItem hi
      · obtain ⟨a, hact, -⟩ := hx.running i hold hr
        rw [ha] at hact
        cases hact
      · exact ⟨_, rfl, hid.symm⟩
    · cases hact
      cases hp

theorem find_of_mem (hx : (x.items.map TransferItem.id).Nodup) {i : TransferItem}
    (hi : i ∈ x.items) : x.items.find? (fun item => item.id = i.id) = some i := by
  cases hfind : x.items.find? (fun item => item.id = i.id) with
  | none => simpa using List.find?_eq_none.1 hfind i hi
  | some j =>
    have hid : j.id = i.id := by simpa using List.find?_some hfind
    rw [List.inj_on_of_nodup_map hx (List.mem_of_find?_eq_some hfind) hi hid]

theorem find_none (h : x.items.find? (fun item => item.id = id) = none) :
    ∀ i ∈ x.items, i.id ≠ id := fun i hi => by simpa using List.find?_eq_none.1 h i hi

theorem find_some {item : TransferItem} (h : x.items.find? (fun item => item.id = id) = some item) :
    item ∈ x.items ∧ item.id = id :=
  ⟨List.mem_of_find?_eq_some h, by simpa using List.find?_some h⟩

/-- What `resume` does: nothing, or a paused item is queued. -/
theorem resume_cases (x : Runner) (id : String) :
    (resume x id = x ∧ ∀ item, x.items.find? (fun item => item.id = id) = some item →
      item.status ≠ .paused) ∨
    ∃ item ∈ x.items, item.id = id ∧ item.status = .paused ∧
      resume x id = pump { x with items := modifyItem id requeue x.items } := by
  unfold SftpTransfers.resume
  cases hfind : x.items.find? (fun item => item.id = id) with
  | none => exact Or.inl ⟨rfl, fun item h => by cases h⟩
  | some item =>
    obtain ⟨hmem, hid⟩ := find_some hfind
    by_cases hpaused : item.status = .paused
    · exact Or.inr ⟨item, hmem, hid, hpaused, if_pos hpaused⟩
    · exact Or.inl ⟨if_neg hpaused, fun i h => by cases h; exact hpaused⟩

/-- What `retry` does: nothing, or an item is queued. -/
theorem retry_cases (x : Runner) (id : String) :
    (retry x id = x ∧ ∀ i ∈ x.items, i.id ≠ id) ∨
    ∃ item ∈ x.items, item.id = id ∧
      retry x id = pump { x with items := modifyItem id requeue x.items } := by
  unfold SftpTransfers.retry
  cases hfind : x.items.find? (fun item => item.id = id) with
  | none => exact Or.inl ⟨rfl, find_none hfind⟩
  | some item => exact Or.inr ⟨item, (find_some hfind).1, (find_some hfind).2, rfl⟩

/-- What `cancel` does: nothing, or the running call is told, or an item is cancelled. -/
theorem cancel_cases (x : Runner) (id : String) :
    (cancel x id = x ∧ ∀ i ∈ x.items, i.id ≠ id) ∨
    (∃ item ∈ x.items, item.id = id ∧ item.status = .running ∧
      x.active.map Active.id = some id ∧ cancel x id = cancelSftpTransfer x id) ∨
    cancel x id = { x with
      items := modifyItem id (fun item => { item with status := .cancelled }) x.items } := by
  unfold SftpTransfers.cancel
  cases hfind : x.items.find? (fun item => item.id = id) with
  | none => exact Or.inl ⟨rfl, find_none hfind⟩
  | some item =>
    obtain ⟨hmem, hid⟩ := find_some hfind
    by_cases hrunning : item.status = .running ∧ x.active.map Active.id = some id
    · exact Or.inr (Or.inl ⟨item, hmem, hid, hrunning.1, hrunning.2, if_pos hrunning⟩)
    · exact Or.inr (Or.inr (if_neg hrunning))

theorem pauseActive_cases (x : Runner) :
    pauseActive x = x ∨ ∃ i, pauseActive x = cancelSftpTransfer x i := by
  unfold SftpTransfers.pauseActive
  cases x.active with
  | none => exact Or.inl rfl
  | some a => exact Or.inr ⟨a.id, rfl⟩

theorem Good.resume (hx : Good x) (id : String) : Good (resume x id) := by
  obtain ⟨heq, -⟩ | ⟨item, -, -, -, heq⟩ := resume_cases x id
  · rw [heq]
    exact hx
  · rw [heq]
    exact (hx.toSane.modify tame_requeue id).pump

theorem Good.retry (hx : Good x) (id : String) : Good (retry x id) := by
  obtain ⟨heq, -⟩ | ⟨item, -, -, heq⟩ := retry_cases x id
  · rw [heq]
    exact hx
  · rw [heq]
    exact (hx.toSane.modify tame_requeue id).pump

/-- A cancellation reaches the call under way, if it is for it. -/
theorem cancelSftpTransfer_active {a : Active}
    (ha : (cancelSftpTransfer x id).active = some a) :
    ∃ b, x.active = some b ∧ a.id = b.id ∧ a.route = b.route ∧ a.offset = b.offset ∧
      a.phase = b.phase := by
  obtain ⟨b, hb, rfl⟩ := Option.map_eq_some_iff.1 ha
  refine ⟨b, hb, ?_⟩
  split <;> exact ⟨rfl, rfl, rfl, rfl⟩

theorem Good.cancelSftpTransfer (hx : Good x) (id : String) : Good (cancelSftpTransfer x id) where
  ids := hx.ids
  running i hi hr := by
    obtain ⟨a, ha, hid⟩ := hx.running i hi hr
    change ∃ b, x.active.map _ = some b ∧ _
    rw [ha]
    refine ⟨_, rfl, ?_⟩
    change (if a.id = id then { a with cancelled := true } else a).id = i.id
    split <;> exact hid
  done a bytes ha hp i hi hid := by
    obtain ⟨b, hb, hida, -, -, hphase⟩ := cancelSftpTransfer_active ha
    exact hx.done b bytes hb (hphase.symm.trans hp) i hi (hid.trans hida)
  idle h := hx.idle (Option.map_eq_none_iff.1 h)

theorem Good.pauseActive (hx : Good x) : Good (pauseActive x) := by
  obtain heq | ⟨i, heq⟩ := pauseActive_cases x
  · rw [heq]
    exact hx
  · rw [heq]
    exact hx.cancelSftpTransfer i

theorem Good.cancel (hx : Good x) (id : String) : Good (cancel x id) := by
  obtain ⟨heq, -⟩ | ⟨item, -, -, -, -, heq⟩ | heq := cancel_cases x id
  · rw [heq]
    exact hx
  · rw [heq]
    exact hx.cancelSftpTransfer id
  · rw [heq]
    exact hx.modify (tame_setStatus (by decide)) (fun _ h => by cases h) id

theorem Good.clearCompleted (hx : Good x) : Good (clearCompleted x) := by
  have hsub : ∀ {i}, i ∈ (SftpTransfers.clearCompleted x).items → i ∈ x.items :=
    fun h => List.mem_of_mem_filter h
  exact ⟨⟨hx.ids.sublist (List.filter_sublist.map TransferItem.id),
    fun i hi => hx.running i (hsub hi), fun a bytes ha hp i hi => hx.done a bytes ha hp i (hsub hi)⟩,
    fun ha i hi => hx.idle ha i (hsub hi)⟩

theorem Good.enqueue (hx : Good x) (hnew : ∀ i ∈ x.items, i.id ≠ id) (route : Route)
    (offset : Option ℕ) : Good (enqueue x id route offset) := by
  have hold : ∀ i ∈ x.items ++ [⟨id, route, .queued, offset.getD 0, none, offset.getD 0, none⟩],
      i.status = .running → i ∈ x.items := by
    intro i hi hr
    simp only [List.mem_append, List.mem_singleton] at hi
    obtain hi | rfl := hi
    · exact hi
    · cases hr
  refine Sane.pump ⟨?_, fun i hi hr => hx.running i (hold i hi hr) hr,
    fun a bytes ha hp i hi hid hr => hx.done a bytes ha hp i (hold i hi hr) hid hr⟩
  rw [List.map_append]
  refine List.Nodup.append hx.ids (List.nodup_singleton _) ?_
  simpa [List.disjoint_singleton] using hnew

/-- An event that does not end a call leaves the status. -/
theorem onEvent_status {event : TransferEvent}
    (h : event.kind = .started ∨ event.kind = .progress) (i : TransferItem) :
    (onEvent event i).status = i.status := by
  unfold onEvent
  obtain h | h := h
  · rw [h]
  · rw [h]
    dsimp only
    split <;> rfl

/-- The last event of a call leaves the item neither running nor queued. -/
theorem onEvent_ended {outcome : Outcome} {event : TransferEvent} (h : outcome.event = some event)
    (i : TransferItem) :
    (onEvent event i).status ≠ .running ∧ (onEvent event i).status ≠ .queued := by
  cases outcome with
  | rejected message => cases h
  | completed bytes message => cases h; exact ⟨by simp [onEvent], by simp [onEvent]⟩
  | paused bytes totalBytes message => cases h; exact ⟨by simp [onEvent], by simp [onEvent]⟩
  | failed bytes totalBytes message => cases h; exact ⟨by simp [onEvent], by simp [onEvent]⟩

theorem onSettled_keeps (result : Except String ℕ) : KeepsRoute (onSettled result) := by
  intro i
  unfold onSettled
  cases result <;> dsimp only <;> split <;> exact ⟨rfl, rfl⟩

theorem onSettled_running (result : Except String ℕ) (i : TransferItem) :
    (onSettled result i).status ≠ .running := by
  unfold onSettled
  cases result with
  | ok bytes =>
    dsimp only
    split
    · simp
    · assumption
  | error message =>
    dsimp only
    split <;> simp

/-- A result never queues an item. -/
theorem onSettled_queued {result : Except String ℕ} {i : TransferItem}
    (h : (onSettled result i).status = .queued) : i.status = .queued := by
  unfold onSettled at h
  cases result with
  | ok bytes =>
    dsimp only at h
    split at h
    · cases h
    · exact h
  | error message =>
    dsimp only at h
    split at h <;> cases h

theorem notify_cases (x : Runner) (event : Active → TransferEvent) :
    notify x event = x ∨ ∃ a, x.active = some a ∧ (∀ r, a.phase ≠ .ended r) ∧
      notify x event = applyEvent x a.id (event a) := by
  unfold notify
  cases ha : x.active with
  | none => exact Or.inl rfl
  | some a =>
    cases hp : a.phase with
    | ended r => exact Or.inl (by simp [hp])
    | starting => exact Or.inr ⟨a, rfl, by simp [hp], by simp [hp]⟩
    | copying n => exact Or.inr ⟨a, rfl, by simp [hp], by simp [hp]⟩

/-- What the last event does: nothing, or the call has ended and its item is as the event says. -/
theorem last_cases (isFolder : Route → Bool) (x : Runner) (outcome : Outcome) :
    (last isFolder x outcome = x ∧ ∀ a, x.active = some a → ∃ r, a.phase = .ended r) ∨
    ∃ a outcome', x.active = some a ∧ (∀ r, a.phase ≠ .ended r) ∧
      last isFolder x outcome = { x with
        active := some { a with phase := .ended (Outcome.result outcome') }
        items := match outcome'.event with
          | none => x.items
          | some event => modifyItem a.id (onEvent event) x.items } := by
  unfold last
  cases ha : x.active with
  | none => exact Or.inl ⟨rfl, fun a h => by cases h⟩
  | some a =>
    have hended : ∀ outcome', (match Outcome.event outcome' with
        | none => { x with active := some { a with phase := .ended outcome'.result } }
        | some event => applyEvent { x with active := some { a with phase := .ended outcome'.result } }
            a.id event) = { x with
          active := some { a with phase := .ended outcome'.result }
          items := match outcome'.event with
            | none => x.items
            | some event => modifyItem a.id (onEvent event) x.items } := by
      intro outcome'
      cases outcome'.event <;> rfl
    cases hp : a.phase with
    | ended r => exact Or.inl ⟨by simp [hp], fun b hb => by cases hb; exact ⟨r, hp⟩⟩
    | starting =>
      exact Or.inr ⟨a, answer isFolder a outcome, rfl, by simp [hp], by simp [hp, hended]⟩
    | copying n =>
      exact Or.inr ⟨a, answer isFolder a outcome, rfl, by simp [hp], by simp [hp, hended]⟩

theorem settle_cases (x : Runner) :
    (settle x = x ∧ ∀ a r, x.active = some a → a.phase ≠ .ended r) ∨
    ∃ a result, x.active = some a ∧ a.phase = .ended result ∧
      settle x = pump { x with
        items := modifyItem a.id (onSettled result) x.items, active := none } := by
  unfold settle
  cases ha : x.active with
  | none => exact Or.inl ⟨rfl, fun a r h => by cases h⟩
  | some a =>
    cases hp : a.phase with
    | ended result => exact Or.inr ⟨a, result, rfl, hp, by simp [hp]⟩
    | starting => exact Or.inl ⟨by simp [hp], fun b r hb => by cases hb; simp [hp]⟩
    | copying n => exact Or.inl ⟨by simp [hp], fun b r hb => by cases hb; simp [hp]⟩

theorem Good.notify (hx : Good x) {event : Active → TransferEvent}
    (hkind : ∀ a, (event a).kind = .started ∨ (event a).kind = .progress) :
    Good (notify x event) := by
  obtain heq | ⟨a, -, -, heq⟩ := notify_cases x event
  · rw [heq]
    exact hx
  · rw [heq]
    exact hx.modify ⟨onEvent_keeps _, fun i h => by rwa [onEvent_status (hkind a)] at h⟩
      (fun i h => by rwa [onEvent_status (hkind a)] at h) a.id

theorem Good.last (hx : Good x) (isFolder : Route → Bool) (outcome : Outcome) :
    Good (last isFolder x outcome) := by
  obtain ⟨heq, -⟩ | ⟨a, outcome', ha, -, heq⟩ := last_cases isFolder x outcome
  · rw [heq]
    exact hx
  · rw [heq]
    cases hevent : outcome'.event with
    | none =>
      refine ⟨⟨hx.ids, fun i hi hr => ?_, fun b bytes hb hp => ?_⟩, fun h => by cases h⟩
      · obtain ⟨b, hb, hid⟩ := hx.running i hi hr
        rw [ha] at hb
        cases hb
        exact ⟨_, rfl, hid⟩
      · -- Only a rejection has no event, and it is no completion.
        cases hb
        cases outcome' with
        | rejected message => simp [Outcome.result] at hp
        | completed bytes message => cases hevent
        | paused bytes totalBytes message => cases hevent
        | failed bytes totalBytes message => cases hevent
    | some event =>
      have hended := onEvent_ended hevent
      refine ⟨⟨?_, fun i hi hr => ?_, fun b bytes hb hp i hi hid => ?_⟩, fun h => by cases h⟩
      · rw [modifyItem_ids (onEvent_keeps event)]
        exact hx.ids
      · obtain ⟨hold, -⟩ | ⟨j, -, -, rfl⟩ := mem_modifyItem hi
        · obtain ⟨b, hb, hid⟩ := hx.running i hold hr
          rw [ha] at hb
          cases hb
          exact ⟨_, rfl, hid⟩
        · exact absurd hr (hended j).1
      · cases hb
        obtain ⟨-, hne⟩ | ⟨j, -, -, rfl⟩ := mem_modifyItem hi
        · exact absurd hid hne
        · exact (hended j).1

theorem Good.settle (hx : Good x) : Good (settle x) := by
  obtain ⟨heq, -⟩ | ⟨a, result, ha, -, heq⟩ := settle_cases x
  · rw [heq]
    exact hx
  · rw [heq]
    refine Sane.pump ⟨?_, fun i hi hr => ?_, fun b bytes hb => by cases hb⟩
    · rw [modifyItem_ids (onSettled_keeps result)]
      exact hx.ids
    · obtain ⟨hold, hne⟩ | ⟨j, -, -, rfl⟩ := mem_modifyItem hi
      · obtain ⟨b, hb, hid⟩ := hx.running i hold hr
        rw [ha] at hb
        cases hb
        exact absurd hid.symm hne
      · exact absurd hr (onSettled_running result j)

theorem Good.perform (hx : Good x) (isFolder : Route → Bool) (step : Action)
    (hnew : ∀ id, newId step = some id → ∀ i ∈ x.items, i.id ≠ id) :
    Good (perform isFolder x step) := by
  cases step with
  | enqueue id route offset => exact hx.enqueue (hnew id rfl) route offset
  | pauseActive => exact hx.pauseActive
  | resume id => exact hx.resume id
  | cancel id => exact hx.cancel id
  | retry id => exact hx.retry id
  | clearCompleted => exact hx.clearCompleted
  | started => exact hx.notify fun _ => Or.inl rfl
  | progress bytes totalBytes => exact hx.notify fun _ => Or.inr rfl
  | last outcome => exact hx.last isFolder outcome
  | settle => exact hx.settle

end Operations

/-! ## What is done to other items -/

/-- The item is as it was, or was taken off a queue it did not wait in. -/
structure Same (x y : Runner) (id : String) : Prop where
  old : ∀ i ∈ y.items, i.id = id → i ∈ x.items
  kept : ∀ i ∈ x.items, i.id = id → i.status = .queued → i ∈ y.items
  free : Free x id → Free y id

/-- The item waited, and a call for it begins. -/
def Starts (x y : Runner) (id : String) : Prop :=
  ∃ i ∈ x.items, i.id = id ∧ i.status = .queued ∧
    y.active = some ⟨i.id, i.route, i.offset, .starting, false⟩

/-- The action is about the item. -/
def Action.On (id : String) : Action → Prop
  | .enqueue i _ _ => i = id
  | .resume i => i = id
  | .cancel i => i = id
  | .retry i => i = id
  | _ => False

theorem Action.on_cases {id : String} {step : Action} (h : step.On id) :
    (∃ route offset, step = .enqueue id route offset) ∨ step = .resume id ∨ step = .cancel id ∨
      step = .retry id := by
  cases step with
  | enqueue i route offset => exact Or.inl ⟨route, offset, h ▸ rfl⟩
  | resume i => exact Or.inr (Or.inl (h ▸ rfl))
  | cancel i => exact Or.inr (Or.inr (Or.inl (h ▸ rfl)))
  | retry i => exact Or.inr (Or.inr (Or.inr (h ▸ rfl)))
  | pauseActive => exact h.elim
  | clearCompleted => exact h.elim
  | started => exact h.elim
  | progress bytes totalBytes => exact h.elim
  | last outcome => exact h.elim
  | settle => exact h.elim

section Items
variable {x y z : Runner} {id : String} {isFolder : Route → Bool}

theorem Same.refl (x : Runner) (id : String) : Same x x id :=
  ⟨fun _ hi _ => hi, fun _ hi _ _ => hi, fun h => h⟩

theorem Same.trans (h : Same x y id) (h' : Same y z id) : Same x z id where
  old i hi hid := h.old i (h'.old i hi hid) hid
  kept i hi hid hq := h'.kept i (h.kept i hi hid hq) hid hq
  free hx := h'.free (h.free hx)

theorem Same.starts (h : Same x y id) (h' : Starts y z id) : Starts x z id := by
  obtain ⟨i, hi, hid, hq, hz⟩ := h'
  exact ⟨i, h.old i hi hid, hid, hq, hz⟩

theorem same_modify {i : String} (hne : i ≠ id) {f : TransferItem → TransferItem}
    (hf : KeepsRoute f) (x : Runner) : Same x { x with items := modifyItem i f x.items } id := by
  refine ⟨fun j hj hid => ?_, fun j hj hid _ => ?_, fun h => h⟩
  · obtain ⟨hold, -⟩ | ⟨k, -, hk, rfl⟩ := mem_modifyItem hj
    · exact hold
    · rw [(hf k).1, hk] at hid
      exact absurd hid hne
  · refine List.mem_map.2 ⟨j, hj, ?_⟩
    rw [if_neg fun h => hne (h.symm.trans hid)]

/-- What happens to the active call does not matter to items it is not for. -/
theorem Same.active (h : Same x y id) {active : Option Active}
    (hne : ∀ a, active = some a → a.id = id → ∃ bytes, a.phase = .ended (.ok bytes)) :
    Same x { y with active := active } id := ⟨h.old, h.kept, fun _ => hne⟩

theorem pump_same (x : Runner) (id : String) : Same x (pump x) id ∨ Starts x (pump x) id := by
  obtain ⟨heq, -⟩ | ⟨next, hnext, hq, ha, heq⟩ := pump_cases x
  · rw [heq]
    exact Or.inl (.refl x id)
  · rw [heq]
    by_cases hid : next.id = id
    · exact Or.inr ⟨next, hnext, hid, hq, rfl⟩
    · have hkeeps : KeepsRoute fun item => { item with status := .running } :=
        fun _ => ⟨rfl, rfl⟩
      refine Or.inl ((same_modify hid hkeeps x).active fun a hact hida => ?_)
      cases hact
      exact absurd hida hid

theorem Same.pump (h : Same x y id) : Same x (pump y) id ∨ Starts x (pump y) id :=
  (pump_same y id).imp h.trans h.starts

theorem same_cancelSftpTransfer (x : Runner) (i id : String) :
    Same x (cancelSftpTransfer x i) id := by
  refine ⟨fun _ hi _ => hi, fun _ hi _ _ => hi, fun hfree a ha hid => ?_⟩
  obtain ⟨b, hb, hida, -, -, hphase⟩ := cancelSftpTransfer_active ha
  rw [hphase]
  exact hfree b hb (hida.symm.trans hid)

theorem same_notify (hfree : Free x id) (event : Active → TransferEvent) :
    Same x (notify x event) id := by
  obtain heq | ⟨a, ha, hp, heq⟩ := notify_cases x event
  · rw [heq]
    exact .refl x id
  · rw [heq]
    refine same_modify (fun hid => ?_) (onEvent_keeps _) x
    obtain ⟨bytes, hended⟩ := hfree a ha hid
    exact hp _ hended

theorem same_last (hfree : Free x id) (outcome : Outcome) :
    Same x (last isFolder x outcome) id := by
  obtain ⟨heq, -⟩ | ⟨a, outcome', ha, hp, heq⟩ := last_cases isFolder x outcome
  · rw [heq]
    exact .refl x id
  · rw [heq]
    have hne : a.id ≠ id := fun hid => by
      obtain ⟨bytes, hended⟩ := hfree a ha hid
      exact hp _ hended
    have hactive : ∀ b, some { a with phase := .ended outcome'.result } = some b → b.id = id →
        ∃ bytes, b.phase = .ended (.ok bytes) := by
      intro b hb hid
      cases hb
      exact absurd hid hne
    cases outcome'.event with
    | none => exact (Same.refl x id).active hactive
    | some event => exact (same_modify hne (onEvent_keeps event) x).active hactive

theorem same_settle (hfree : Free x id) (hidle : ∀ i ∈ x.items, i.id = id → i.status ≠ .running) :
    Same x (settle x) id ∨ Starts x (settle x) id := by
  obtain ⟨heq, -⟩ | ⟨a, result, ha, hp, heq⟩ := settle_cases x
  · rw [heq]
    exact Or.inl (.refl x id)
  · rw [heq]
    have hmodified : Same x { x with items := modifyItem a.id (onSettled result) x.items } id := ?_
    · exact (hmodified.active fun b (hb : none = some b) => by cases hb).pump
    by_cases hid : a.id = id
    · obtain ⟨bytes, hok⟩ := hfree a ha hid
      rw [hp] at hok
      cases hok
      -- The result finds the item as the last event or the user left it.
      have hsame : modifyItem a.id (onSettled (.ok bytes)) x.items = x.items := by
        refine (List.map_congr_left fun i hi => ?_).trans (List.map_id _)
        split
        · rename_i hi'
          exact if_neg (hidle i hi (hi'.trans hid))
        · rfl
      rw [hsame]
      exact .refl x id
    · exact same_modify hid (onSettled_keeps result) x

/-- An action about other items leaves the item, or starts it. -/
theorem perform_same (hfree : Free x id) (hidle : ∀ i ∈ x.items, i.id = id → i.status ≠ .running)
    {step : Action} (hon : ¬ step.On id) :
    Same x (perform isFolder x step) id ∨ Starts x (perform isFolder x step) id := by
  cases step with
  | enqueue i route offset =>
    refine Same.pump ⟨fun j hj hid => ?_, fun j hj _ _ => List.mem_append_left _ hj, fun h => h⟩
    simp only [List.mem_append, List.mem_singleton] at hj
    obtain hj | rfl := hj
    · exact hj
    · exact absurd hid hon
  | pauseActive =>
    refine Or.inl ?_
    change Same x (pauseActive x) id
    obtain heq | ⟨i, heq⟩ := pauseActive_cases x
    · rw [heq]
      exact .refl x id
    · rw [heq]
      exact same_cancelSftpTransfer x i id
  | resume i =>
    change Same x (resume x i) id ∨ Starts x (resume x i) id
    obtain ⟨heq, -⟩ | ⟨item, -, -, -, heq⟩ := resume_cases x i
    · rw [heq]
      exact Or.inl (.refl x id)
    · rw [heq]
      exact (same_modify hon tame_requeue.keeps x).pump
  | cancel i =>
    refine Or.inl ?_
    change Same x (cancel x i) id
    obtain ⟨heq, -⟩ | ⟨item, -, -, -, -, heq⟩ | heq := cancel_cases x i
    · rw [heq]
      exact .refl x id
    · rw [heq]
      exact same_cancelSftpTransfer x i id
    · rw [heq]
      exact same_modify hon (tame_setStatus (by decide)).keeps x
  | retry i =>
    change Same x (retry x i) id ∨ Starts x (retry x i) id
    obtain ⟨heq, -⟩ | ⟨item, -, -, heq⟩ := retry_cases x i
    · rw [heq]
      exact Or.inl (.refl x id)
    · rw [heq]
      exact (same_modify hon tame_requeue.keeps x).pump
  | clearCompleted =>
    refine Or.inl ⟨fun j hj _ => List.mem_of_mem_filter hj, fun j hj _ hq => ?_, fun h => h⟩
    refine List.mem_filter.2 ⟨hj, ?_⟩
    simp [hq]
  | started => exact Or.inl (same_notify hfree _)
  | progress bytes totalBytes => exact Or.inl (same_notify hfree _)
  | last outcome => exact Or.inl (same_last hfree outcome)
  | settle => exact same_settle hfree hidle

/-! ## A cancelled item -/

/-- The item is cancelled, and no call is under way that could say otherwise. -/
structure Called (x : Runner) (id : String) : Prop where
  items : ∀ i ∈ x.items, i.id = id → i.status = .cancelled
  free : Free x id

theorem called_cancel (hx : Good x) (hfree : Free x id) : Called (cancel x id) id := by
  obtain ⟨heq, hnone⟩ | ⟨item, hmem, hid, hrunning, hactive, -⟩ | heq := cancel_cases x id
  · rw [heq]
    exact ⟨fun i hi hid => absurd hid (hnone i hi), hfree⟩
  · -- A call that has said it is completed has no running item.
    obtain ⟨a, ha, hida⟩ := Option.map_eq_some_iff.1 hactive
    obtain ⟨bytes, hp⟩ := hfree a ha hida
    exact absurd hrunning (hx.done a bytes ha hp item hmem (hid.trans hida.symm))
  · rw [heq]
    refine ⟨fun i hi hidi => ?_, hfree⟩
    obtain ⟨-, hne⟩ | ⟨j, -, -, rfl⟩ := mem_modifyItem hi
    · exact absurd hidi hne
    · rfl

theorem resume_eq_self (h : ∀ i ∈ x.items, i.id = id → i.status ≠ .paused) :
    resume x id = x := by
  obtain ⟨heq, -⟩ | ⟨item, hmem, hid, hpaused, -⟩ := resume_cases x id
  · exact heq
  · exact absurd hpaused (h item hmem hid)

/-- An item that is cancelled stays so until it is retried. -/
theorem Called.perform (h : Called x id) (hx : Good x) {step : Action}
    (hretry : step ≠ .retry id) (hnew : newId step ≠ some id) :
    Called (perform isFolder x step) id := by
  by_cases hon : step.On id
  · obtain ⟨route, offset, rfl⟩ | rfl | rfl | rfl := Action.on_cases hon
    · exact absurd rfl hnew
    · change Called (resume x id) id
      rw [resume_eq_self fun j hj hid => by rw [h.items j hj hid]; decide]
      exact h
    · exact called_cancel hx h.free
    · exact absurd rfl hretry
  · have hidle : ∀ i ∈ x.items, i.id = id → i.status ≠ .running := by
      intro i hi hid
      rw [h.items i hi hid]
      decide
    obtain hsame | ⟨i, hi, hid, hq, -⟩ := @perform_same _ _ isFolder h.free hidle _ hon
    · exact ⟨fun i hi hid => h.items i (hsame.old i hi hid) hid, hsame.free h.free⟩
    · rw [h.items i hi hid] at hq
      cases hq

/-! ## An item that waits -/

/-- The item is queued, a folder at offset 0, and no call is under way that could change it. -/
structure Waits (isFolder : Route → Bool) (x : Runner) (id : String) : Prop where
  item : ∃ i ∈ x.items, i.id = id ∧ i.status = .queued ∧ (isFolder i.route = true → i.offset = 0)
  free : Free x id

theorem Waits.same (h : Waits isFolder x id) (hsame : Same x y id) : Waits isFolder y id := by
  obtain ⟨i, hi, hid, hq, hfolder⟩ := h.item
  exact ⟨⟨i, hsame.kept i hi hid hq, hid, hq, hfolder⟩, hsame.free h.free⟩

theorem Waits.starts (h : Waits isFolder x id) (hx : (x.items.map TransferItem.id).Nodup)
    (hstarts : Starts x y id) : Started isFolder y id := by
  obtain ⟨i, hi, hid, -, hfolder⟩ := h.item
  obtain ⟨j, hj, hidj, -, hactive⟩ := hstarts
  obtain rfl := List.inj_on_of_nodup_map hx hj hi (hidj.trans hid.symm)
  exact ⟨_, hactive, hid, rfl, hfolder⟩

theorem Waits.status (h : Waits isFolder x id) (hx : (x.items.map TransferItem.id).Nodup)
    {i : TransferItem} (hi : i ∈ x.items) (hid : i.id = id) : i.status = .queued := by
  obtain ⟨j, hj, hidj, hq, -⟩ := h.item
  obtain rfl := List.inj_on_of_nodup_map hx hi hj (hid.trans hidj.symm)
  exact hq

/-- The item is queued, and the queue goes on. -/
theorem waits_requeue (hx : Sane x) (hi : ∃ i ∈ x.items, i.id = id) (hfree : Free x id)
    (hstart : FromStart isFolder x id) :
    let y := pump { x with items := modifyItem id requeue x.items }
    Waits isFolder y id ∨ Started isFolder y id := by
  obtain ⟨i, hi, hid⟩ := hi
  have hwaits : Waits isFolder { x with items := modifyItem id requeue x.items } id := by
    refine ⟨⟨requeue i, List.mem_map.2 ⟨i, hi, if_pos hid⟩, hid, rfl, hstart i hi hid⟩, hfree⟩
  obtain hsame | hstarts := pump_same { x with items := modifyItem id requeue x.items } id
  · exact Or.inl (hwaits.same hsame)
  · exact Or.inr (hwaits.starts (hx.modify tame_requeue id).ids hstarts)

theorem waits_of_requeues (hx : Good x) {step : Action} (h : Requeues x id step)
    (hcareful : Careful isFolder x step) :
    Waits isFolder (perform isFolder x step) id ∨ Started isFolder (perform isFolder x step) id := by
  cases step with
  | resume i =>
    obtain ⟨rfl, item, hitem, hid, hpaused⟩ := h
    obtain ⟨hfree, hstart⟩ := hcareful ⟨rfl, item, hitem, hid, hpaused⟩
    change Waits isFolder (resume x i) i ∨ Started isFolder (resume x i) i
    obtain ⟨-, hnone⟩ | ⟨-, -, -, -, heq⟩ := resume_cases x i
    · have hfind := find_of_mem hx.ids hitem
      rw [hid] at hfind
      exact absurd hpaused (hnone item hfind)
    · rw [heq]
      exact waits_requeue hx.toSane ⟨item, hitem, hid⟩ hfree hstart
  | retry i =>
    obtain ⟨rfl, item, hitem, hid⟩ := h
    change Waits isFolder (retry x i) i ∨ Started isFolder (retry x i) i
    obtain ⟨-, hnone⟩ | ⟨-, -, -, heq⟩ := retry_cases x i
    · exact absurd hid (hnone item hitem)
    · rw [heq]
      exact waits_requeue hx.toSane ⟨item, hitem, hid⟩ hcareful.1 hcareful.2
  | enqueue i route offset => exact h.elim
  | cancel i => exact h.elim
  | pauseActive => exact h.elim
  | clearCompleted => exact h.elim
  | started => exact h.elim
  | progress bytes totalBytes => exact h.elim
  | last outcome => exact h.elim
  | settle => exact h.elim

/-- An item that waits does so until it is cancelled or starts. -/
theorem Waits.perform (h : Waits isFolder x id) (hx : Good x) {step : Action}
    (hcareful : Careful isFolder x step) (hcancel : step ≠ .cancel id)
    (hnew : newId step ≠ some id) :
    Waits isFolder (perform isFolder x step) id ∨
      Started isFolder (perform isFolder x step) id := by
  have hstatus := fun i (hi : i ∈ x.items) hid => h.status hx.ids hi hid
  by_cases hon : step.On id
  · obtain ⟨route, offset, rfl⟩ | rfl | rfl | rfl := Action.on_cases hon
    · exact absurd rfl hnew
    · change Waits isFolder (resume x id) id ∨ _
      rw [resume_eq_self fun j hj hid => by rw [hstatus j hj hid]; decide]
      exact Or.inl h
    · exact absurd rfl hcancel
    · obtain ⟨item, hitem, hid, -, -⟩ := h.item
      have hrequeues : Requeues x id (.retry id) := ⟨rfl, item, hitem, hid⟩
      exact waits_of_requeues hx hrequeues hcareful
  · have hidle : ∀ i ∈ x.items, i.id = id → i.status ≠ .running := by
      intro i hi hid
      rw [hstatus i hi hid]
      decide
    exact (perform_same h.free hidle hon).imp h.same (h.starts hx.ids)

/-! ## The queue moves on -/

def queued (x : Runner) : ℕ := x.items.countP fun i => i.status = .queued

theorem count_modify_le {f : TransferItem → TransferItem}
    (hf : ∀ i, (f i).status = .queued → i.status = .queued) (i : String)
    (items : List TransferItem) : (modifyItem i f items).countP (fun j => j.status = .queued) ≤
      items.countP fun j => j.status = .queued := by
  rw [modifyItem, List.countP_map]
  refine List.countP_mono_left fun j _ hj => ?_
  simp only [Function.comp_apply, decide_eq_true_eq] at hj ⊢
  split at hj
  · exact hf j hj
  · exact hj

/-- An item that waited and does not any more is counted no more. -/
theorem count_modify_lt {f : TransferItem → TransferItem} (hf : ∀ j, (f j).status ≠ .queued)
    {next : TransferItem} {items : List TransferItem} (hnext : next ∈ items)
    (hq : next.status = .queued) : (modifyItem next.id f items).countP (fun j => j.status = .queued) <
      items.countP fun j => j.status = .queued := by
  obtain ⟨before, after, rfl⟩ := List.append_of_mem hnext
  have hbefore := count_modify_le (fun j h => absurd h (hf j)) next.id before
  have hafter := count_modify_le (fun j h => absurd h (hf j)) next.id after
  have hsplit : modifyItem next.id f (before ++ next :: after) =
      modifyItem next.id f before ++ f next :: modifyItem next.id f after := by
    rw [modifyItem, List.map_append, List.map_cons, if_pos rfl]
    rfl
  rw [hsplit, List.countP_append, List.countP_append, List.countP_cons_of_neg (by simp [hf]),
    List.countP_cons_of_pos (by simp [hq])]
  omega

theorem queued_last_le (isFolder : Route → Bool) (x : Runner) (outcome : Outcome) :
    queued (last isFolder x outcome) ≤ queued x := by
  obtain ⟨heq, -⟩ | ⟨a, outcome', -, -, heq⟩ := last_cases isFolder x outcome
  · rw [heq]
  · rw [heq]
    cases hevent : outcome'.event with
    | none => exact le_refl _
    | some event =>
      exact count_modify_le (fun i h => absurd h (onEvent_ended hevent i).2) a.id x.items

/-- After the last event of the call under way its result is on the way. -/
theorem last_ended {a : Active} (ha : x.active = some a) (isFolder : Route → Bool)
    (outcome : Outcome) :
    ∃ b result, (last isFolder x outcome).active = some b ∧ b.phase = .ended result := by
  obtain ⟨heq, hended⟩ | ⟨b, outcome', -, -, heq⟩ := last_cases isFolder x outcome
  · obtain ⟨result, hp⟩ := hended a ha
    exact ⟨a, result, by rw [heq]; exact ha, hp⟩
  · rw [heq]
    exact ⟨_, _, rfl, rfl⟩

/-- The result of a call takes an item off the queue, if one waits. -/
theorem queued_settle_lt {a : Active} {result : Except String ℕ} (ha : x.active = some a)
    (hp : a.phase = .ended result) {i : TransferItem} (hi : i ∈ (settle x).items)
    (hq : i.status = .queued) : queued (settle x) < queued x := by
  obtain ⟨-, hnever⟩ | ⟨b, result', -, -, heq⟩ := settle_cases x
  · exact absurd hp (hnever a result ha)
  · rw [heq] at hi ⊢
    have hle := count_modify_le (fun _ => @onSettled_queued result' _) b.id x.items
    obtain ⟨hsame, hnone⟩ | ⟨next, hnext, hnextq, -, hpump⟩ := pump_cases
      { x with items := modifyItem b.id (onSettled result') x.items, active := none }
    · rw [hsame] at hi
      exact absurd hq (hnone rfl i hi)
    · rw [hpump]
      exact lt_of_lt_of_le (count_modify_lt (fun j h => by cases h) hnext hnextq) hle

/-- The end of a call takes one item off the queue. -/
theorem Waits.endRun (h : Waits isFolder x id) (hx : Good x) (outcome : Outcome) :
    Started isFolder (endRun isFolder x outcome) id ∨
      Waits isFolder (endRun isFolder x outcome) id ∧
        queued (endRun isFolder x outcome) < queued x := by
  obtain ⟨i, hi, hid, hq, -⟩ := h.item
  have hactive : ∃ a, x.active = some a :=
    Option.ne_none_iff_exists'.1 fun hnone => hx.idle hnone i hi hq
  obtain ⟨a, ha⟩ := hactive
  have hlast : Good (last isFolder x outcome) := hx.last isFolder outcome
  have hwaits : Waits isFolder (last isFolder x outcome) id := h.same (same_last h.free outcome)
  have hidle : ∀ i ∈ (last isFolder x outcome).items, i.id = id → i.status ≠ .running := by
    intro j hj hidj
    rw [hwaits.status hlast.ids hj hidj]
    decide
  obtain hsame | hstarts := same_settle hwaits.free hidle
  · have hsettled := hwaits.same hsame
    refine Or.inr ⟨hsettled, lt_of_lt_of_le ?_ (queued_last_le isFolder x outcome)⟩
    obtain ⟨b, result, hb, hp⟩ := last_ended ha isFolder outcome
    obtain ⟨j, hj, -, hqj, -⟩ := hsettled.item
    exact queued_settle_lt hb hp hj hqj
  · exact Or.inl (hwaits.starts hlast.ids hstarts)

/-- However the calls end, an item that waits is started: each end leaves fewer that wait. -/
theorem Waits.willStart (h : Waits isFolder x id) (hx : Good x) : WillStart isFolder x id := by
  induction hn : queued x using Nat.strong_induction_on generalizing x with
  | h n ih =>
    intro outcomes
    obtain hstarted | ⟨hwaits, hless⟩ := h.endRun hx (outcomes 0)
    · exact ⟨1, hstarted⟩
    · have hgood : Good (TransferQueue.endRun isFolder x (outcomes 0)) :=
        (hx.last isFolder (outcomes 0)).settle
      obtain ⟨k, hk⟩ := ih _ (hn ▸ hless) hwaits hgood rfl fun k => outcomes (k + 1)
      exact ⟨k + 1, hk⟩

end Items

/-! ## Runs -/

section Runs
variable {isFolder : Route → Bool} {x : Runner} {id : String}

theorem run_append (x : Runner) (before after : List Action) :
    run isFolder x (before ++ after) = run isFolder (run isFolder x before) after :=
  List.foldl_append

theorem along_append {before after : List Action} :
    Along isFolder x (before ++ after) ↔
      Along isFolder x before ∧ Along isFolder (run isFolder x before) after := by
  induction before generalizing x with
  | nil => simp [Along, run]
  | cons step before ih =>
    rw [List.cons_append, Along, ih, Along, and_assoc]
    rfl

theorem ids_pump (x : Runner) :
    (pump x).items.map TransferItem.id = x.items.map TransferItem.id := by
  obtain ⟨heq, -⟩ | ⟨next, -, -, -, heq⟩ := pump_cases x
  · rw [heq]
  · rw [heq]
    have hkeeps : KeepsRoute fun item => { item with status := .running } := fun _ => ⟨rfl, rfl⟩
    exact modifyItem_ids hkeeps _ _

/-- Items come with `enqueue` only. -/
theorem ids_perform (x : Runner) (step : Action) : (perform isFolder x step).items.map
    TransferItem.id ⊆ x.items.map TransferItem.id ++ (newId step).toList := by
  have hsame : ∀ {y : Runner}, y.items.map TransferItem.id = x.items.map TransferItem.id →
      y.items.map TransferItem.id ⊆ x.items.map TransferItem.id ++ (newId step).toList :=
    fun h => h ▸ List.subset_append_left _ _
  cases step with
  | enqueue id route offset =>
    change (pump _).items.map _ ⊆ _
    rw [ids_pump, List.map_append]
    exact List.Subset.refl _
  | pauseActive =>
    refine hsame ?_
    change (pauseActive x).items.map _ = _
    obtain heq | ⟨i, heq⟩ := pauseActive_cases x
    · rw [heq]
    · rw [heq]
      rfl
  | resume id =>
    refine hsame ?_
    change (resume x id).items.map _ = _
    obtain ⟨heq, -⟩ | ⟨item, -, -, -, heq⟩ := resume_cases x id
    · rw [heq]
    · rw [heq, ids_pump, modifyItem_ids tame_requeue.keeps]
  | cancel id =>
    refine hsame ?_
    change (cancel x id).items.map _ = _
    obtain ⟨heq, -⟩ | ⟨item, -, -, -, -, heq⟩ | heq := cancel_cases x id
    · rw [heq]
    · rw [heq]
      rfl
    · rw [heq]
      exact modifyItem_ids (tame_setStatus (by decide)).keeps _ _
  | retry id =>
    refine hsame ?_
    change (retry x id).items.map _ = _
    obtain ⟨heq, -⟩ | ⟨item, -, -, heq⟩ := retry_cases x id
    · rw [heq]
    · rw [heq, ids_pump, modifyItem_ids tame_requeue.keeps]
  | clearCompleted =>
    exact fun i hi => List.mem_append_left _
      ((List.filter_sublist.map TransferItem.id).subset hi)
  | started =>
    refine hsame ?_
    obtain heq | ⟨a, -, -, heq⟩ := notify_cases x fun a => ⟨.started, a.offset, none, none⟩
    · exact congrArg (fun y => y.items.map TransferItem.id) heq
    · exact (congrArg (fun y => y.items.map TransferItem.id) heq).trans
        (modifyItem_ids (onEvent_keeps _) _ _)
  | progress bytes totalBytes =>
    refine hsame ?_
    obtain heq | ⟨a, -, -, heq⟩ := notify_cases x fun _ => ⟨.progress, bytes, totalBytes, none⟩
    · exact congrArg (fun y => y.items.map TransferItem.id) heq
    · exact (congrArg (fun y => y.items.map TransferItem.id) heq).trans
        (modifyItem_ids (onEvent_keeps _) _ _)
  | last outcome =>
    refine hsame ?_
    change (last isFolder x outcome).items.map _ = _
    obtain ⟨heq, -⟩ | ⟨a, outcome', -, -, heq⟩ := last_cases isFolder x outcome
    · rw [heq]
    · rw [heq]
      cases outcome'.event with
      | none => rfl
      | some event => exact modifyItem_ids (onEvent_keeps event) _ _
  | settle =>
    refine hsame ?_
    change (settle x).items.map _ = _
    obtain ⟨heq, -⟩ | ⟨a, result, -, -, heq⟩ := settle_cases x
    · rw [heq]
    · rw [heq, ids_pump, modifyItem_ids (onSettled_keeps result)]

theorem ids_run (steps : List Action) :
    (run isFolder start steps).items.map TransferItem.id ⊆ steps.filterMap newId := by
  induction steps using List.reverseRecOn with
  | nil => exact List.Subset.refl _
  | append_singleton steps step ih =>
    rw [run_append, List.filterMap_append]
    refine List.Subset.trans (ids_perform _ step) fun i hi => ?_
    obtain hi | hi := List.mem_append.1 hi
    · exact List.mem_append_left _ (ih hi)
    · exact List.mem_append_right _ (List.mem_filterMap.2
        ⟨step, List.mem_singleton_self step, Option.mem_toList.1 hi⟩)

theorem NewIds.prefix {before after : List Action} (h : NewIds (before ++ after)) :
    NewIds before := by
  rw [NewIds, List.filterMap_append] at h
  exact h.of_append_left

/-- What is in the queue is not enqueued again. -/
theorem NewIds.next {before after : List Action} {step : Action}
    (h : NewIds (before ++ step :: after)) {i : String} (hi : i ∈ before.filterMap newId) :
    newId step ≠ some i := by
  intro hstep
  rw [NewIds, List.filterMap_append, List.filterMap_cons, hstep] at h
  exact List.disjoint_of_nodup_append h hi List.mem_cons_self

theorem good_run {steps : List Action} (h : NewIds steps) : Good (run isFolder start steps) := by
  induction steps using List.reverseRecOn with
  | nil =>
    exact ⟨⟨List.nodup_nil, fun i hi => (by cases hi), fun a bytes ha => by cases ha⟩,
      fun _ i hi => by cases hi⟩
  | append_singleton steps step ih =>
    rw [run_append]
    refine (ih h.prefix).perform isFolder step fun i hstep item hitem hid => ?_
    exact h.next (ids_run steps (List.mem_map_of_mem hitem)) (hstep.trans (congrArg some hid.symm))

theorem called_run {before after : List Action} (hnew : NewIds (before ++ .cancel id :: after))
    (halong : Along isFolder start (before ++ .cancel id :: after))
    (hpresent : ∃ item ∈ (run isFolder start before).items, item.id = id)
    (hretry : .retry id ∉ after) :
    Called (run isFolder start (before ++ .cancel id :: after)) id := by
  have hknown : id ∈ before.filterMap newId := by
    obtain ⟨item, hitem, rfl⟩ := hpresent
    exact ids_run before (List.mem_map_of_mem hitem)
  induction after using List.reverseRecOn with
  | nil =>
    rw [run_append]
    exact called_cancel (good_run hnew.prefix) (along_append.1 halong).2.1
  | append_singleton after step ih =>
    have hsplit : before ++ .cancel id :: (after ++ [step]) =
        (before ++ .cancel id :: after) ++ [step] := by simp
    rw [hsplit] at hnew halong ⊢
    rw [run_append]
    have hmem : id ∈ (before ++ .cancel id :: after).filterMap newId := by
      rw [List.filterMap_append]
      exact List.mem_append_left _ hknown
    refine (ih hnew.prefix (along_append.1 halong).1 fun h => ?_).perform (good_run hnew.prefix)
      (fun h => ?_) (hnew.next hmem)
    · exact hretry (List.mem_append_left _ h)
    · exact hretry (by simp [h])

theorem waits_run {before after : List Action} {step : Action}
    (hnew : NewIds (before ++ step :: after))
    (halong : Along isFolder start (before ++ step :: after))
    (hrequeues : Requeues (run isFolder start before) id step) (hcancel : .cancel id ∉ after) :
    (∃ p, p <+: after ∧ Started isFolder (run isFolder start (before ++ step :: p)) id) ∨
      Waits isFolder (run isFolder start (before ++ step :: after)) id := by
  induction after using List.reverseRecOn with
  | nil =>
    rw [run_append]
    obtain h | h := waits_of_requeues (good_run hnew.prefix) hrequeues (along_append.1 halong).2.1
    · exact Or.inr h
    · exact Or.inl ⟨[], List.prefix_rfl, by rw [run_append]; exact h⟩
  | append_singleton after last ih =>
    have hsplit : before ++ step :: (after ++ [last]) = (before ++ step :: after) ++ [last] := by
      simp
    rw [hsplit] at hnew halong ⊢
    obtain ⟨p, hp, hstarted⟩ | hwaits := ih hnew.prefix (along_append.1 halong).1
      fun h => hcancel (List.mem_append_left _ h)
    · exact Or.inl ⟨p, hp.trans (List.prefix_append after [last]), hstarted⟩
    · have hknown : id ∈ (before ++ step :: after).filterMap newId := by
        obtain ⟨item, hitem, rfl, -⟩ := hwaits.item
        exact ids_run _ (List.mem_map_of_mem hitem)
      have hother : last ≠ .cancel id := fun h => hcancel (by simp [h])
      obtain h | h := hwaits.perform (good_run hnew.prefix) (along_append.1 halong).2.1 hother
        (hnew.next hknown)
      · exact Or.inr (by rw [run_append]; exact h)
      · refine Or.inl ⟨after ++ [last], List.prefix_rfl, ?_⟩
        rw [hsplit, run_append]
        exact h

/-- In a run whose actions are careful the queue keeps its protocol. -/
theorem protocol_of_careful {steps : List Action} (hnew : NewIds steps)
    (halong : Along isFolder start steps) : Protocol isFolder steps where
  one := (good_run hnew).one
  cancelled before i after hsteps hpresent hretry := by
    subst hsteps
    exact (called_run hnew halong hpresent hretry).items
  requeued before i step after hsteps hrequeues hcancel := by
    subst hsteps
    exact (waits_run hnew halong hrequeues hcancel).imp_right
      fun h => h.willStart (good_run hnew)

theorem drive_idle (h : x.active = none) (outcomes : ℕ → Outcome) (n : ℕ) :
    drive isFolder outcomes n x = x := by
  induction n generalizing outcomes with
  | zero => rfl
  | succ n ih =>
    have hend : endRun isFolder x (outcomes 0) = x := by simp [endRun, last, settle, h]
    rw [drive, hend]
    exact ih _

theorem not_started_idle (h : x.active = none) : ¬ Started isFolder x id := by
  rintro ⟨a, ha, -⟩
  rw [h] at ha
  cases ha

theorem not_willStart_idle (h : x.active = none) : ¬ WillStart isFolder x id := by
  intro hwill
  obtain ⟨n, hstarted⟩ := hwill fun _ => .rejected ""
  rw [drive_idle h] at hstarted
  exact not_started_idle h hstarted

end Runs

/-- An upload is paused and resumed, and another one cancelled, retried and cancelled again. -/
theorem protocol_sample :
    Protocol (fun _ => false)
      [.enqueue "a" ⟨.upload, "/a", "/b"⟩ none, .enqueue "c" ⟨.upload, "/c", "/d"⟩ none,
        .cancel "c", .pauseActive, .last (.paused 3 none CANCELLED), .settle, .resume "a",
        .retry "c", .last (.completed 5 none), .settle, .last (.completed 2 none), .cancel "c",
        .settle] := by
  refine protocol_of_careful (by unfold NewIds; decide) ?_
  have hwhile : ∀ {x : Runner} {a : Active}, x.active = some a → a.id = "a" → Free x "c" := by
    intro x a ha hid b hb hidb
    rw [ha] at hb
    cases hb
    exact absurd (hid.symm.trans hidb) (by decide)
  refine ⟨trivial, trivial, hwhile rfl rfl, trivial, trivial, trivial, fun _ => ⟨?_, ?_⟩,
    ⟨hwhile rfl rfl, ?_⟩, trivial, trivial, trivial, fun a ha _ => ⟨2, ?_⟩, trivial, trivial⟩
  · intro a ha
    cases ha
  · exact fun i _ _ h => by cases h
  · exact fun i _ _ h => by cases h
  · cases ha
    rfl

/-- A cancelled call is paused. What is resumed before its call returns is lost, and a folder is
resumed at the offset it was paused at. -/
theorem protocol_fails :
    let r : Route := ⟨.upload, "/a", "/b"⟩
    let cancelled : List Action :=
      [.enqueue "a" r none, .cancel "a", .last (.paused 3 none CANCELLED), .settle]
    let early : List Action :=
      [.enqueue "a" r none, .pauseActive, .last (.paused 3 none CANCELLED), .resume "a", .settle]
    let folder : List Action :=
      [.enqueue "a" r none, .pauseActive, .last (.paused 7 none CANCELLED), .settle, .resume "a"]
    (NewIds cancelled ∧ ¬ CancelKept (fun _ => false) cancelled) ∧
      (NewIds early ∧ ¬ RequeueKept (fun _ => false) early) ∧
      NewIds folder ∧ ¬ RequeueKept (fun _ => true) folder := by
  intro r cancelled early folder
  refine ⟨⟨by unfold NewIds; decide, fun h => ?_⟩, ⟨by unfold NewIds; decide, fun h => ?_⟩,
    by unfold NewIds; decide, fun h => ?_⟩
  · have hkept := h [.enqueue "a" r none] "a" [.last (.paused 3 none CANCELLED), .settle] rfl
      ⟨⟨"a", r, .running, 0, none, 0, none⟩, by decide, rfl⟩ (by simp)
      ⟨"a", r, .paused, 3, none, 3, some "Paused"⟩ (by decide) rfl
    cases hkept
  · obtain ⟨p, hp, hstarted⟩ | hwill := h
      [.enqueue "a" r none, .pauseActive, .last (.paused 3 none CANCELLED)] "a" (.resume "a")
      [.settle] rfl ⟨rfl, ⟨"a", r, .paused, 3, none, 3, some CANCELLED⟩, by decide, rfl, rfl⟩
      (by simp)
    · obtain rfl | ⟨q, rfl, hq⟩ := List.prefix_cons_iff.1 hp
      · obtain ⟨a, ha, -, hphase, -⟩ := hstarted
        cases ha
        cases hphase
      · obtain rfl := List.prefix_nil.1 hq
        exact not_started_idle rfl hstarted
    · exact not_willStart_idle rfl hwill
  · have hnot : ¬ Started (fun _ => true) (run (fun _ => true) start folder) "a" := by
      rintro ⟨a, ha, -, -, hzero⟩
      cases ha
      exact absurd (hzero rfl) (by decide)
    obtain ⟨p, hp, hstarted⟩ | hwill := h
      [.enqueue "a" r none, .pauseActive, .last (.paused 7 none CANCELLED), .settle] "a"
      (.resume "a") [] rfl ⟨rfl, ⟨"a", r, .paused, 7, none, 7, some "Paused"⟩, by decide, rfl, rfl⟩
      (by simp)
    · obtain rfl := List.prefix_nil.1 hp
      exact hnot hstarted
    · obtain ⟨n, hstarted⟩ := hwill fun _ => .completed 9 none
      cases n with
      | zero => exact hnot hstarted
      | succ n =>
        have hidle : (endRun (fun _ => true) (run (fun _ => true) start folder)
            (.completed 9 none)).active = none := by decide +kernel
        rw [drive, drive_idle hidle] at hstarted
        exact not_started_idle hidle hstarted

end Tethra.TransferQueue
