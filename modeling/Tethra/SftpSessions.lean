import Mathlib.Tactic
import Tethra.VaultTypes

set_option autoImplicit false

/-!
# SFTP sessions and the transfers started on them

The map of active transfers has a control for each transfer and no session. A control is made by
one call of `sftp_transfer`, and the call and the map share it.
-/
namespace Tethra.SftpSessions
open VaultTypes

/-- A `TransferControl`, with the session and the transfer of the call that made it. -/
structure Control where
  session : Uuid
  transfer : Uuid
  cancelled : Bool
  deriving DecidableEq

def Control.cancel (control : Control) : Control := { control with cancelled := true }

structure AppState where
  sftpSessions : List (Uuid × Uuid)
  /-- Transfers with the numbers of their controls. -/
  activeTransfers : List (Uuid × ℕ)
  controls : List Control

section Maps
variable {α : Type}

/-- `HashMap::remove`. -/
def remove (id : Uuid) (map : List (Uuid × α)) : List (Uuid × α) := map.filter fun p => p.1 ≠ id

/-- `HashMap::insert`. -/
def insert (id : Uuid) (a : α) (map : List (Uuid × α)) : List (Uuid × α) := (id, a) :: remove id map

def get (id : Uuid) (map : List (Uuid × α)) : Option α := (map.find? fun p => p.1 = id).map Prod.snd

end Maps

def cancelEach (numbers : List ℕ) (controls : List Control) : List Control :=
  controls.mapIdx fun n control => if n ∈ numbers then control.cancel else control

/-- The end of `sftp_open`, when the host has answered. -/
def sftpOpen (sessionId hostId : Uuid) (x : AppState) : AppState :=
  { x with sftpSessions := insert sessionId hostId x.sftpSessions }

/-- `sftp_transfer` up to the transfer itself. -/
def sftpTransfer (sessionId transferId : Uuid) (x : AppState) : Except String Unit × AppState :=
  match get sessionId x.sftpSessions with
  | none => (.error "SFTP session not found", x)
  | some _ =>
    (.ok (), { x with
      controls := x.controls ++ [⟨sessionId, transferId, false⟩]
      activeTransfers := insert transferId x.controls.length x.activeTransfers })

/-- `sftp_transfer` after the transfer itself. -/
def endTransfer (transferId : Uuid) (x : AppState) : AppState :=
  { x with activeTransfers := remove transferId x.activeTransfers }

def sftpCancelTransfer (transferId : Uuid) (x : AppState) : Except String Unit × AppState :=
  match get transferId x.activeTransfers with
  | some n => (.ok (), { x with controls := cancelEach [n] x.controls })
  | none => (.error "transfer not found", x)

/-- The session is not looked at. -/
def cancelTransfersForSession (_sessionId : Uuid) (x : AppState) : AppState :=
  { x with controls := cancelEach (x.activeTransfers.map Prod.snd) x.controls }

/-- `sftp_close` of a parsed identifier; `closed` is what closing the connection gives. -/
def sftpClose (closed : Except String Unit) (sessionId : Uuid) (x : AppState) :
    Except String Unit × AppState :=
  let x := cancelTransfersForSession sessionId x
  match get sessionId x.sftpSessions with
  | none => (.error "SFTP session not found", x)
  | some _ => (closed, { x with sftpSessions := remove sessionId x.sftpSessions })

def closeAllSftp (x : AppState) : AppState where
  sftpSessions := []
  activeTransfers := []
  controls := cancelEach (x.activeTransfers.map Prod.snd) x.controls

inductive Command where
  | sftpOpen (sessionId hostId : Uuid)
  | sftpTransfer (sessionId transferId : Uuid)
  | endTransfer (transferId : Uuid)
  | sftpCancelTransfer (transferId : Uuid)
  | sftpClose (closed : Except String Unit) (sessionId : Uuid)
  | closeAllSftp

def perform (x : AppState) : Command → AppState
  | .sftpOpen sessionId hostId => sftpOpen sessionId hostId x
  | .sftpTransfer sessionId transferId => (sftpTransfer sessionId transferId x).2
  | .endTransfer transferId => endTransfer transferId x
  | .sftpCancelTransfer transferId => (sftpCancelTransfer transferId x).2
  | .sftpClose closed sessionId => (sftpClose closed sessionId x).2
  | .closeAllSftp => closeAllSftp x

def run (x : AppState) (commands : List Command) : AppState := commands.foldl perform x

def start : AppState := ⟨[], [], []⟩

/-! ## Closing one session -/

/-- The transfers of the session are cancelled; the entry and the control of every other are as
they were. -/
def ClosesOnly (s : Uuid) (x y : AppState) : Prop :=
  y.activeTransfers = x.activeTransfers ∧ ∀ p ∈ x.activeTransfers, ∀ control,
    x.controls[p.2]? = some control →
      y.controls[p.2]? = some (if control.session = s then control.cancel else control)

theorem cancelEach_getElem? (numbers : List ℕ) (controls : List Control) (n : ℕ) :
    (cancelEach numbers controls)[n]? =
      controls[n]?.map fun control => if n ∈ numbers then control.cancel else control := by
  simp [cancelEach]

theorem cancelEach_session (numbers : List ℕ) (controls : List Control) {n : ℕ} {control : Control}
    (h : (cancelEach numbers controls)[n]? = some control) :
    ∃ old, controls[n]? = some old ∧ control.session = old.session ∧
      control.transfer = old.transfer ∧
      (control.cancelled = true ↔ old.cancelled = true ∨ n ∈ numbers) := by
  rw [cancelEach_getElem?, Option.map_eq_some_iff] at h
  obtain ⟨old, hold, rfl⟩ := h
  refine ⟨old, hold, ?_⟩
  split
  · rename_i hn
    simp [Control.cancel, hn]
  · rename_i hn
    simp [hn]

theorem sftpClose_snd (closed : Except String Unit) (s : Uuid) (x : AppState) :
    (sftpClose closed s x).2.activeTransfers = x.activeTransfers ∧
      (sftpClose closed s x).2.controls =
        cancelEach (x.activeTransfers.map Prod.snd) x.controls := by
  unfold sftpClose
  dsimp only
  split <;> exact ⟨rfl, rfl⟩

/-- Closing a session leaves the others alone if all their transfers are cancelled already. -/
theorem sftpClose_closesOnly_iff (closed : Except String Unit) (s : Uuid) (x : AppState) :
    ClosesOnly s x (sftpClose closed s x).2 ↔ ∀ p ∈ x.activeTransfers, ∀ control,
      x.controls[p.2]? = some control → control.session ≠ s → control.cancelled = true := by
  obtain ⟨hactive, hcontrols⟩ := sftpClose_snd closed s x
  have hcancelled : ∀ p ∈ x.activeTransfers, ∀ control, x.controls[p.2]? = some control →
      (sftpClose closed s x).2.controls[p.2]? = some control.cancel := by
    intro p hp control hcontrol
    have hn : p.2 ∈ x.activeTransfers.map Prod.snd := List.mem_map_of_mem hp
    rw [hcontrols, cancelEach_getElem?, hcontrol, Option.map_some, if_pos hn]
  constructor
  · rintro ⟨-, h⟩ p hp control hcontrol hne
    have heq := (hcancelled p hp control hcontrol).symm.trans (h p hp control hcontrol)
    rw [if_neg hne, Option.some.injEq] at heq
    rw [← heq]
    rfl
  · intro h
    refine ⟨hactive, fun p hp control hcontrol => ?_⟩
    rw [hcancelled p hp control hcontrol]
    split
    · rfl
    · rename_i hne
      have hold := h p hp control hcontrol hne
      cases control
      cases hold
      rfl

/-! ## Runs in which sessions are closed alone -/

/-- The command is about the transfer with control `n`. -/
def Asks (x : AppState) (n : ℕ) : Command → Prop
  | .sftpCancelTransfer transferId => get transferId x.activeTransfers = some n
  | .sftpClose _ s => ∃ control, x.controls[n]? = some control ∧ control.session = s
  | .closeAllSftp => True
  | _ => False

/-- Every session is closed when the transfers of the others are cancelled already. -/
def Along : AppState → List Command → Prop
  | _, [] => True
  | x, command :: commands =>
    (∀ closed s, command = .sftpClose closed s → ∀ p ∈ x.activeTransfers, ∀ control,
      x.controls[p.2]? = some control → control.session ≠ s → control.cancelled = true) ∧
    Along (perform x command) commands

/-- Who cancels a transfer has asked for it, or it was new and is not cancelled. -/
theorem perform_cancelled {x : AppState} {command : Command}
    (hclose : ∀ closed s, command = .sftpClose closed s → ∀ p ∈ x.activeTransfers, ∀ control,
      x.controls[p.2]? = some control → control.session ≠ s → control.cancelled = true)
    {n : ℕ} {control : Control} (h : (perform x command).controls[n]? = some control)
    (hcancelled : control.cancelled = true) :
    (∃ old, x.controls[n]? = some old ∧ old.cancelled = true) ∨ Asks x n command := by
  cases command with
  | sftpOpen sessionId hostId => exact Or.inl ⟨control, h, hcancelled⟩
  | endTransfer transferId => exact Or.inl ⟨control, h, hcancelled⟩
  | sftpTransfer sessionId transferId =>
    refine Or.inl ⟨control, ?_, hcancelled⟩
    change (sftpTransfer sessionId transferId x).2.controls[n]? = some control at h
    unfold sftpTransfer at h
    split at h
    · exact h
    · obtain hlt | hge := Nat.lt_or_ge n x.controls.length
      · rwa [List.getElem?_append_left hlt] at h
      · rw [List.getElem?_append_right hge, List.getElem?_singleton] at h
        split at h
        · cases h
          cases hcancelled
        · cases h
  | sftpCancelTransfer transferId =>
    change (sftpCancelTransfer transferId x).2.controls[n]? = some control at h
    unfold sftpCancelTransfer at h
    split at h
    · rename_i m hm
      obtain ⟨old, hold, -, -, hiff⟩ := cancelEach_session _ _ h
      obtain hbefore | hn := hiff.1 hcancelled
      · exact Or.inl ⟨old, hold, hbefore⟩
      · rw [List.mem_singleton] at hn
        rw [← hn] at hm
        exact Or.inr hm
    · exact Or.inl ⟨control, h, hcancelled⟩
  | sftpClose closed s =>
    change (sftpClose closed s x).2.controls[n]? = some control at h
    rw [(sftpClose_snd closed s x).2] at h
    obtain ⟨old, hold, -, -, hiff⟩ := cancelEach_session _ _ h
    obtain hbefore | hn := hiff.1 hcancelled
    · exact Or.inl ⟨old, hold, hbefore⟩
    obtain ⟨p, hp, rfl⟩ := List.mem_map.1 hn
    by_cases hs : old.session = s
    · exact Or.inr ⟨old, hold, hs⟩
    · exact Or.inl ⟨old, hold, hclose closed s rfl p hp old hold hs⟩
  | closeAllSftp => exact Or.inr trivial

/-- In such a run no transfer is cancelled that no command was about. -/
theorem asked_run {commands : List Command} (h : Along start commands) {n : ℕ} {control : Control}
    (hcontrol : (run start commands).controls[n]? = some control)
    (hcancelled : control.cancelled = true) : ∃ before command after,
      commands = before ++ command :: after ∧ Asks (run start before) n command := by
  have hrun : ∀ (commands : List Command) (x : AppState), Along x commands →
      ∀ control, (run x commands).controls[n]? = some control → control.cancelled = true →
        (∃ old, x.controls[n]? = some old ∧ old.cancelled = true) ∨ ∃ before command after,
          commands = before ++ command :: after ∧ Asks (run x before) n command := by
    intro commands
    induction commands with
    | nil => exact fun x _ control hcontrol hcancelled => Or.inl ⟨control, hcontrol, hcancelled⟩
    | cons command commands ih =>
      intro x hx control hcontrol hcancelled
      obtain ⟨old, hold, hbefore⟩ | ⟨before, next, after, heq, hasks⟩ :=
        ih (perform x command) hx.2 control hcontrol hcancelled
      · obtain hdone | hasks := perform_cancelled hx.1 hold hbefore
        · exact Or.inl hdone
        · exact Or.inr ⟨[], command, commands, rfl, hasks⟩
      · exact Or.inr ⟨command :: before, next, after, by rw [heq, List.cons_append], hasks⟩
  obtain ⟨old, hold, -⟩ | hasked := hrun commands start h control hcontrol hcancelled
  · cases hold
  · exact hasked

def idOf (n : UInt8) : Uuid := ⟨List.replicate 16 n, by simp⟩

/-- Two browsers, and a transfer on the second. -/
def sampleState : AppState :=
  run start [.sftpOpen (idOf 1) (idOf 9), .sftpOpen (idOf 2) (idOf 9),
    .sftpTransfer (idOf 2) (idOf 3)]

/-- Closing the first browser cancels the transfer of the second. -/
theorem sftpClose_closesOnly_fails :
    sampleState.controls[0]? = some ⟨idOf 2, idOf 3, false⟩ ∧
      ¬ ClosesOnly (idOf 1) sampleState (sftpClose (.ok ()) (idOf 1) sampleState).2 := by
  refine ⟨by decide +kernel, fun h => ?_⟩
  have hcontrol : sampleState.controls[0]? = some ⟨idOf 2, idOf 3, false⟩ := by decide +kernel
  have hafter := h.2 (idOf 3, 0) (by decide +kernel) _ hcontrol
  revert hafter
  decide +kernel

end Tethra.SftpSessions
