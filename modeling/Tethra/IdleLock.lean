import Tethra.SyncEngine

set_option autoImplicit false

/-!
# The idle lock over timed runs

User commands, the actions of background syncs, status polls and checks of the idle watcher,
each at its own time. A sync uses the vault key and by that counts as activity.
-/
namespace Tethra.IdleLock
open AtomicPrograms AuthenticatedEncryption Base64Strings StatefulActions
open SyncEngine SyncFileBackend SyncItems VaultCrypto VaultState VaultTypes
open AtomicPrograms.Program (fail)

/-- The last activity is not in the future. -/
def ActivePast (v : Vault) : Prop :=
  ∀ vaultKey authKey last, v.state = .unlocked vaultKey authKey last → last ≤ v.world.now

/-- Locked, or without activity for the timeout. -/
def Idle (v : Vault) : Prop :=
  ∀ vaultKey authKey last, v.state = .unlocked vaultKey authKey last →
    v.idleTimeout ≤ v.world.now - last

/-- A command of the user, at one instant. It does not set the timeout. -/
structure UserCommand where
  run : VaultM Unit
  timeout : run.Leaves Vault.idleTimeout
  clock : run.Leaves fun v => v.world.now
  activity : run.Keeps ActivePast

section Programs
variable {β : Type} (aead : Aead KeyBytes) (b64 : Base64) (backend : SyncBackend β)

/-- One turn of the interval task, and of the debounced task after its delay. -/
def backgroundSync : EngineM β SyncReport := do
  if ← onVault isUnlocked then syncNow aead b64 backend
  else fail .vaultLocked

inductive Step where
  | user (command : UserCommand)
  | startSync (t : ℕ)
  | advanceSync (t : ℕ)
  | poll
  | idleCheck

abbrev Desk (β : Type) := Machine Unit ℕ Engine β Error SyncReport

def vault (x : Desk β) : Vault := (x.own ()).vault

def mapVault (f : Vault → Vault) (x : Desk β) : Desk β :=
  x.edit () { x.own () with vault := f (vault x) }

def perform (x : Desk β) : Step → Desk β
  | .user command => mapVault (fun v => (command.run v).2) x
  | .startSync t =>
    match x.tasks t with
    | none => x.start t () (backgroundSync aead b64 backend)
    | some _ => x
  | .advanceSync t => x.advance t
  | .poll => mapVault (fun v => (status v).2) x
  | .idleCheck => mapVault (fun v => (isUnlocked v).2) x

def setClock (now : Instant) (x : Desk β) : Desk β :=
  mapVault (fun v => { v with world.now := now }) x

def exec (x : Desk β) (e : Instant × Step) : Desk β :=
  perform aead b64 backend (setClock e.1 x) e.2

def run (x : Desk β) (es : List (Instant × Step)) : Desk β := es.foldl (exec aead b64 backend) x

end Programs

section Actions
variable {β : Type}

/-- The action neither uses nor unlocks the vault. -/
def Quiet {γ : Type} (m : Action (Engine × β) Error γ) : Prop :=
  m.Within fun s t => (t.1.vault.state = s.1.vault.state ∨ t.1.vault.state = .locked) ∧
    t.1.vault.idleTimeout = s.1.vault.idleTimeout ∧ t.1.vault.world.now = s.1.vault.world.now

/-- The action is the `require_key` of a sync. -/
inductive KeyUse : ∀ {γ : Type}, Action (Engine × β) Error γ → Prop where
  | requireKey : KeyUse (vaultAction requireKey)

def SyncAction {γ : Type} (m : Action (Engine × β) Error γ) : Prop := Quiet m ∨ KeyUse m

theorem quiet_vaultAction {γ : Type} {m : VaultM γ}
    (hstate : ∀ v, (m v).2.state = v.state ∨ (m v).2.state = .locked)
    (htimeout : m.Leaves Vault.idleTimeout) (hclock : m.Leaves fun v => v.world.now) :
    Quiet (vaultAction m : Action (Engine × β) Error γ) :=
  fun s => ⟨hstate s.1.vault, htimeout s.1.vault, hclock s.1.vault⟩

theorem quiet_withDb {γ : Type} (g : VaultDb → Except Error γ) :
    Quiet (vaultAction (withDb g) : Action (Engine × β) Error γ) :=
  quiet_vaultAction (fun v => Or.inl (leaves_withDb (f := Vault.state) (fun _ _ => rfl) g v))
    (leaves_withDb (fun _ _ => rfl) g) (leaves_withDb (fun _ _ => rfl) g)

theorem quiet_withDbMut (g : VaultDb → VaultDb) :
    Quiet (vaultAction (withDbMut g) : Action (Engine × β) Error Unit) := by
  refine quiet_vaultAction (fun v => Or.inl ?_) (leaves_withDbMut (fun _ _ => rfl) fun _ _ => rfl)
    (leaves_withDbMut (fun _ _ => rfl) fun _ _ => rfl)
  exact leaves_withDbMut (f := Vault.state) (fun _ _ => rfl) (fun _ _ => rfl) v

theorem quiet_isUnlocked : Quiet (vaultAction isUnlocked : Action (Engine × β) Error Bool) :=
  quiet_vaultAction touchIdle_state (leaves_isUnlocked fun _ _ => rfl)
    (leaves_isUnlocked fun _ _ => rfl)

theorem quiet_backendAction {γ : Type} (m : Action β Error γ) :
    Quiet (backendAction m : Action (Engine × β) Error γ) :=
  fun _ => ⟨Or.inl rfl, rfl, rfl⟩

theorem quiet_ofExcept {γ : Type} (r : Except Error γ) :
    Quiet (Action.ofExcept r : Action (Engine × β) Error γ) :=
  fun _ => ⟨Or.inl rfl, rfl, rfl⟩

variable (aead : Aead KeyBytes) (b64 : Base64) (backend : SyncBackend β)

theorem each_fail {α : Type} (e : Error) : (Program.fail e : EngineM β α).Each SyncAction :=
  Program.Each.lift (Or.inl fun _ => ⟨Or.inl rfl, rfl, rfl⟩)

theorem each_exportSyncHeader :
    (exportSyncHeader : EngineM β SyncedVaultHeader).Each SyncAction :=
  Program.Each.bind (Program.Each.lift (Or.inl (quiet_withDb _))) fun _ => Program.Each.pure _

theorem each_adoptRemoteRekey : (adoptRemoteRekeyIfNeeded aead backend).Each SyncAction := by
  refine Program.Each.bind (Program.Each.lift (Or.inl (quiet_backendAction _))) fun found => ?_
  cases found with
  | none => exact Program.Each.pure _
  | some remote =>
    refine Program.Each.bind each_exportSyncHeader fun header => ?_
    split
    · exact Program.Each.pure _
    · refine Program.Each.bind (Program.Each.lift (Or.inr .requireKey)) fun key => ?_
      refine Program.Each.bind (Program.Each.lift (Or.inl (quiet_ofExcept _))) fun verified => ?_
      split
      · exact Program.Each.bind (Program.Each.lift (Or.inl (quiet_withDb _))) fun old =>
          Program.Each.lift (Or.inl (quiet_withDbMut _))
      · exact Program.Each.pure _

theorem each_publishHeader : (publishHeader backend).Each SyncAction := by
  refine Program.Each.bind each_exportSyncHeader fun header => ?_
  refine Program.Each.bind (Program.Each.lift (Or.inl (quiet_backendAction _))) fun found => ?_
  have hput : (onBackend (backend.putHeader header)).Each SyncAction :=
    Program.Each.lift (Or.inl (quiet_backendAction _))
  cases found with
  | none => exact hput
  | some remote =>
    unfold publishOver
    dsimp only
    split
    · exact Program.Each.pure _
    · split
      · split
        · exact hput
        · exact each_fail _
      · exact each_fail _

theorem each_applyItems (applied : UInt32) (items : List SyncItem) :
    (applyItems b64 applied items : EngineM β UInt32).Each SyncAction := by
  induction items generalizing applied with
  | nil => exact Program.Each.pure _
  | cons item items ih =>
    refine Program.Each.bind (Program.Each.lift (Or.inl (quiet_withDb _))) fun row => ?_
    split
    · refine Program.Each.bind (Program.Each.lift (Or.inl (quiet_ofExcept _))) fun row => ?_
      exact Program.Each.bind (Program.Each.lift (Or.inl (quiet_withDbMut _))) fun _ => ih _
    · exact ih _

theorem each_exchangeItems : (exchangeItems b64 backend).Each SyncAction := by
  refine Program.Each.bind (Program.Each.lift (Or.inl fun _ => ⟨Or.inl rfl, rfl, rfl⟩))
    fun since => ?_
  refine Program.Each.bind (Program.Each.lift (Or.inl (quiet_backendAction _))) fun pulled => ?_
  refine Program.Each.bind (each_applyItems b64 0 pulled.1) fun applied => ?_
  refine Program.Each.bind (Program.Each.bind (Program.Each.lift (Or.inr .requireKey)) fun _ =>
    Program.Each.lift (Or.inl (quiet_withDb _))) fun rows => ?_
  refine Program.Each.bind (Program.Each.lift (Or.inl (quiet_backendAction _))) fun cursor => ?_
  exact Program.Each.bind (Program.Each.lift (Or.inl fun _ => ⟨Or.inl rfl, rfl, rfl⟩))
    fun _ => Program.Each.pure _

/-- Every action of a background sync leaves the vault's activity alone or is its `require_key`. -/
theorem each_backgroundSync : (backgroundSync aead b64 backend).Each SyncAction := by
  refine Program.Each.bind (Program.Each.lift (Or.inl quiet_isUnlocked)) fun unlocked => ?_
  split
  · refine Program.Each.bind (Program.Each.lift (Or.inl quiet_isUnlocked)) fun unlocked => ?_
    split
    · refine Program.Each.bind (each_adoptRemoteRekey aead backend) fun _ => ?_
      exact Program.Each.bind (each_publishHeader backend) fun _ => each_exchangeItems b64 backend
    · exact each_fail _
  · exact each_fail _

end Actions

section Effects

theorem touchIdle_idle {v : Vault} (hT : v.idleTimeout ≠ IDLE_LOCK_DISABLED) (h : Idle v) :
    (touchIdle v).2.state = .locked := by
  unfold touchIdle Action.update
  dsimp only
  rw [if_neg hT]
  cases hs : v.state with
  | locked => simp [LockState.expired, hs]
  | unlocked vaultKey authKey last =>
    have hexp : v.idleTimeout ≤ v.world.now - last := h vaultKey authKey last hs
    simp [LockState.expired, hexp]

theorem requireKey_idle {v : Vault} (hT : v.idleTimeout ≠ IDLE_LOCK_DISABLED) (h : Idle v) :
    (requireKey v).2.state = .locked := by
  have hlocked := touchIdle_idle hT h
  have hread : (Action.read Vault.state : VaultM LockState) (touchIdle v).2 =
      (.ok .locked, (touchIdle v).2) := by
    rw [← hlocked]
    rfl
  have htouch : touchIdle v = (.ok (), (touchIdle v).2) := rfl
  rw [requireKey, Action.bind_ok htouch, Action.bind_ok hread]
  exact hlocked

theorem idle_of_locked {v : Vault} (h : v.state = .locked) : Idle v := by
  intro vaultKey authKey last hs
  rw [h] at hs
  cases hs

theorem activePast_of_locked {v : Vault} (h : v.state = .locked) : ActivePast v := by
  intro vaultKey authKey last hs
  rw [h] at hs
  cases hs

theorem idle_congr {v w : Vault} (h : Idle v) (hs : w.state = v.state ∨ w.state = .locked)
    (ht : w.idleTimeout = v.idleTimeout) (hn : w.world.now = v.world.now) : Idle w := by
  cases hs with
  | inr hlocked => exact idle_of_locked hlocked
  | inl hs =>
    intro vaultKey authKey last hu
    rw [ht, hn]
    exact h vaultKey authKey last (hs ▸ hu)

theorem activePast_congr {v w : Vault} (h : ActivePast v)
    (hs : w.state = v.state ∨ w.state = .locked) (hn : w.world.now = v.world.now) :
    ActivePast w := by
  cases hs with
  | inr hlocked => exact activePast_of_locked hlocked
  | inl hs =>
    intro vaultKey authKey last hu
    rw [hn]
    exact h vaultKey authKey last (hs ▸ hu)

/-- What every step of a run keeps of the vault. -/
structure Follows (v w : Vault) : Prop where
  timeout : w.idleTimeout = v.idleTimeout
  now : w.world.now = v.world.now
  past : ActivePast v → ActivePast w

theorem Follows.refl (v : Vault) : Follows v v := ⟨rfl, rfl, fun h => h⟩

theorem follows_of_state {v w : Vault} (hs : w.state = v.state ∨ w.state = .locked)
    (ht : w.idleTimeout = v.idleTimeout) (hn : w.world.now = v.world.now) : Follows v w :=
  ⟨ht, hn, fun h => activePast_congr h hs hn⟩

theorem requireKey_follows (v : Vault) : Follows v (requireKey v).2 := by
  have ht : (requireKey v).2.idleTimeout = v.idleTimeout :=
    leaves_requireKey (f := Vault.idleTimeout) (fun _ _ => rfl) v
  have hn : (requireKey v).2.world.now = v.world.now :=
    leaves_requireKey (f := fun v => v.world.now) (fun _ _ => rfl) v
  refine ⟨ht, hn, fun hpast => ?_⟩
  rcases hr : requireKey v with ⟨r, w⟩
  cases r with
  | ok vaultKey =>
    obtain ⟨auth, last, -, rfl⟩ := requireKey_eq_ok hr
    intro key auth' last' hs
    cases hs
    exact le_refl _
  | error e =>
    have hw : w = (touchIdle v).2 := by
      obtain hbad | ⟨u, t, ht, h⟩ := Action.bind_eq_error.1 hr
      · have hok := touchIdle_run v
        rw [hbad] at hok
        cases hok
      · obtain hbad | ⟨state, x, hx, h⟩ := Action.bind_eq_error.1 h
        · cases hbad
        · obtain ⟨rfl, rfl⟩ := Action.read_eq_ok.1 hx
          rw [ht]
          cases hs : t.state with
          | locked =>
            rw [hs] at h
            cases h
            rfl
          | unlocked key auth last =>
            rw [hs] at h
            cases h
    rw [hw]
    exact activePast_congr hpast (touchIdle_state v) (leaves_touchIdle
      (f := fun v => v.world.now) (fun _ _ => rfl) v)

end Effects

section Runs
variable {β : Type}

/-- What one step of a run did to the vault. -/
inductive Moved (x : Desk β) (step : Step) (w : Vault) : Prop where
  | still (h : w = vault x)
  | user (command : UserCommand) (hstep : step = .user command)
      (h : w = (command.run (vault x)).2)
  | touch (hs : w.state = (vault x).state ∨ w.state = .locked)
      (ht : w.idleTimeout = (vault x).idleTimeout) (hn : w.world.now = (vault x).world.now)
      (hlock : step = .idleCheck → (vault x).idleTimeout ≠ IDLE_LOCK_DISABLED →
        Idle (vault x) → w.state = .locked)
  | sync (t : ℕ) (hstep : step = .advanceSync t) {γ : Type} (m : Action (Engine × β) Error γ)
      (next : γ → EngineM β SyncReport) (d : Unit)
      (htask : x.tasks t = some (.running d (.act m next)))
      (h : w = (m (x.own (), x.shared)).2.1.vault)

/-- Every program in progress takes actions of a background sync only. -/
def Syncing (x : Desk β) : Prop :=
  ∀ t d p, x.tasks t = some (.running d p) → p.Each SyncAction

theorem vault_mapVault (f : Vault → Vault) (x : Desk β) : vault (mapVault f x) = f (vault x) := by
  simp [vault, mapVault, Machine.edit, Machine.write]

theorem Syncing.settle {x : Desk β} (hx : Syncing x) (t : ℕ) {task : Task Unit Engine β Error SyncReport}
    (htask : ∀ d p, task = .running d p → p.Each SyncAction) : Syncing (x.settle t task) := by
  intro u d p hu
  by_cases h : u = t
  · rw [h, Machine.tasks_settle_self, Option.some.injEq] at hu
    exact htask d p hu
  · rw [Machine.tasks_settle_of_ne x h] at hu
    exact hx u d p hu

theorem advance_moved {x : Desk β} (hx : Syncing x) (t : ℕ) :
    Moved x (.advanceSync t) (vault (x.advance t)) ∧ Syncing (x.advance t) := by
  obtain h | ⟨d, a, ht, h⟩ | ⟨d, γ, m, next, ht, h⟩ := x.advance_cases t
  · rw [h]
    exact ⟨.still rfl, hx⟩
  · rw [h]
    exact ⟨.still rfl, hx.settle t fun e p he => by cases he⟩
  · rw [h]
    refine ⟨.sync t rfl m next d ht ?_, ?_⟩
    · simp [vault, Machine.settle, Machine.write, Machine.view]
    · refine Syncing.settle (x := x.write d (m (x.view d)).2) hx t fun e p he => ?_
      cases hr : (m (x.view d)).1 with
      | ok b =>
        rw [hr] at he
        cases he
        exact (hx t d _ ht).2 b
      | error f =>
        rw [hr] at he
        cases he

variable (aead : Aead KeyBytes) (b64 : Base64) (backend : SyncBackend β)

theorem perform_moved {x : Desk β} (hx : Syncing x) (step : Step) :
    Moved x step (vault (perform aead b64 backend x step)) ∧
      Syncing (perform aead b64 backend x step) := by
  cases step with
  | user command => exact ⟨.user command rfl (vault_mapVault (fun v => (command.run v).2) x), hx⟩
  | startSync t =>
    unfold perform
    dsimp only
    cases ht : x.tasks t with
    | none =>
      refine ⟨.still rfl, hx.settle t fun d p he => ?_⟩
      cases he
      exact each_backgroundSync aead b64 backend
    | some task => exact ⟨.still rfl, hx⟩
  | advanceSync t => exact advance_moved hx t
  | poll =>
    refine ⟨.touch ?_ ?_ ?_ (fun h => by cases h), hx⟩
    all_goals rw [perform, vault_mapVault]
    · exact status_state _
    · exact leaves_status (f := Vault.idleTimeout) (fun _ _ => rfl) (fun _ _ => rfl) _
    · exact leaves_status (f := fun v => v.world.now) (fun _ _ => rfl) (fun _ _ => rfl) _
  | idleCheck =>
    refine ⟨.touch ?_ ?_ ?_ fun _ hT hidle => ?_, hx⟩
    all_goals rw [perform, vault_mapVault]
    · exact touchIdle_state _
    · exact leaves_isUnlocked (f := Vault.idleTimeout) (fun _ _ => rfl) _
    · exact leaves_isUnlocked (f := fun v => v.world.now) (fun _ _ => rfl) _
    · exact touchIdle_idle hT hidle

theorem SyncAction.follows {γ : Type} {m : Action (Engine × β) Error γ} (hm : SyncAction m)
    (s : Engine × β) : Follows s.1.vault (m s).2.1.vault := by
  cases hm with
  | inl hquiet =>
    obtain ⟨hs, ht, hn⟩ := hquiet s
    exact follows_of_state hs ht hn
  | inr huse =>
    cases huse
    exact requireKey_follows s.1.vault

theorem SyncAction.idle {γ : Type} {m : Action (Engine × β) Error γ} (hm : SyncAction m)
    (s : Engine × β) (hT : s.1.vault.idleTimeout ≠ IDLE_LOCK_DISABLED) (h : Idle s.1.vault) :
    Idle (m s).2.1.vault := by
  cases hm with
  | inl hquiet =>
    obtain ⟨hs, ht, hn⟩ := hquiet s
    exact idle_congr h hs ht hn
  | inr huse =>
    cases huse
    exact idle_of_locked (requireKey_idle hT h)

section Moves
variable {x : Desk β} {step : Step} {w : Vault}

theorem Moved.follows (hx : Syncing x) (h : Moved x step w) : Follows (vault x) w := by
  cases h with
  | still h =>
    rw [h]
    exact Follows.refl _
  | user command hstep h =>
    rw [h]
    exact ⟨command.timeout _, command.clock _, command.activity _⟩
  | touch hs ht hn _ => exact follows_of_state hs ht hn
  | sync t hstep m next d htask h =>
    rw [h]
    exact (hx t d _ htask).1.follows (x.own (), x.shared)

/-- An idle vault stays idle unless the user unlocks it. -/
theorem Moved.idle (hx : Syncing x) (h : Moved x step w)
    (hT : (vault x).idleTimeout ≠ IDLE_LOCK_DISABLED) (hidle : Idle (vault x))
    (huser : ∀ command, step = .user command → command.run.Keeps Idle) : Idle w := by
  cases h with
  | still h => rwa [h]
  | user command hstep h =>
    rw [h]
    exact huser command hstep _ hidle
  | touch hs ht hn _ => exact idle_congr hidle hs ht hn
  | sync t hstep m next d htask h =>
    rw [h]
    exact (hx t d _ htask).1.idle (x.own (), x.shared) hT hidle

/-- The next action of sync `t` is its `require_key`. -/
def AtKeyUse (x : Desk β) (t : ℕ) : Prop :=
  ∃ d γ, ∃ (m : Action (Engine × β) Error γ) (next : γ → EngineM β SyncReport),
    x.tasks t = some (.running d (.act m next)) ∧ KeyUse m

/-- Without the user and without a sync's use of the key the activity time stands still. -/
theorem Moved.stands (hx : Syncing x) (h : Moved x step w)
    (huser : ∀ command, step ≠ .user command) (hsync : ∀ t, step = .advanceSync t → ¬ AtKeyUse x t) :
    w.state = (vault x).state ∨ w.state = .locked := by
  cases h with
  | still h => exact Or.inl (by rw [h])
  | user command hstep h => exact absurd hstep (huser command)
  | touch hs ht hn _ => exact hs
  | sync t hstep m next d htask h =>
    rw [h]
    cases (hx t d _ htask).1 with
    | inl hquiet => exact (hquiet _).1
    | inr huse => exact absurd ⟨d, _, m, next, htask, huse⟩ (hsync t hstep)

end Moves

def clock (x : Desk β) : Instant := (vault x).world.now

structure Settled (T : Instant) (x : Desk β) : Prop where
  timeout : (vault x).idleTimeout = T
  past : ActivePast (vault x)
  syncing : Syncing x

/-- Events at times from `now` on, in order. -/
def Ordered : Instant → List (Instant × Step) → Prop
  | _, [] => True
  | now, e :: es => now ≤ e.1 ∧ Ordered e.1 es

/-- No sync comes to use the key. -/
def KeyFree : Desk β → List (Instant × Step) → Prop
  | _, [] => True
  | x, e :: es => (∀ t, e.2 = .advanceSync t → ¬ AtKeyUse x t) ∧
      KeyFree (exec aead b64 backend x e) es

/-- Locked, or last active by time `a`. -/
def Stale (a : Instant) (v : Vault) : Prop :=
  ∀ vaultKey authKey last, v.state = .unlocked vaultKey authKey last → last ≤ a

variable {T : Instant} {x : Desk β}

theorem vault_setClock (now : Instant) (x : Desk β) :
    vault (setClock now x) = { vault x with world.now := now } :=
  vault_mapVault _ x

theorem Settled.setClock (hx : Settled T x) {now : Instant} (hnow : clock x ≤ now) :
    Settled T (setClock now x) where
  timeout := by rw [vault_setClock]; exact hx.timeout
  past := by
    rw [vault_setClock]
    intro vaultKey authKey last hs
    exact (hx.past vaultKey authKey last hs).trans hnow
  syncing := hx.syncing

theorem Settled.exec (hx : Settled T x) {e : Instant × Step} (he : clock x ≤ e.1) :
    Settled T (exec aead b64 backend x e) ∧ clock (IdleLock.exec aead b64 backend x e) = e.1 := by
  have hc := hx.setClock he
  obtain ⟨hmoved, hsync⟩ := perform_moved aead b64 backend hc.syncing e.2
  have hf := hmoved.follows hc.syncing
  refine ⟨⟨hf.timeout.trans hc.timeout, hf.past hc.past, hsync⟩, hf.now.trans ?_⟩
  rw [vault_setClock]

theorem Settled.run (hx : Settled T x) {es : List (Instant × Step)} (ho : Ordered (clock x) es) :
    Settled T (run aead b64 backend x es) := by
  induction es generalizing x with
  | nil => exact hx
  | cons e es ih =>
    obtain ⟨hnext, hclock⟩ := hx.exec aead b64 backend ho.1
    refine ih hnext ?_
    rw [hclock]
    exact ho.2

theorem clock_run_le (hx : Settled T x) {es : List (Instant × Step)} (ho : Ordered (clock x) es)
    {b : Instant} (hb : clock x ≤ b) (hes : ∀ e ∈ es, e.1 ≤ b) :
    clock (IdleLock.run aead b64 backend x es) ≤ b := by
  induction es generalizing x with
  | nil => exact hb
  | cons e es ih =>
    obtain ⟨hnext, hclock⟩ := hx.exec aead b64 backend ho.1
    refine ih hnext ?_ ?_ fun f hf => hes f (List.mem_cons_of_mem _ hf)
    · rw [hclock]
      exact ho.2
    · rw [hclock]
      exact hes e List.mem_cons_self

theorem ordered_le {now : Instant} {es : List (Instant × Step)} (h : Ordered now es)
    {f : Instant × Step} (hf : f ∈ es) : now ≤ f.1 := by
  induction es generalizing now with
  | nil => cases hf
  | cons e es ih =>
    rcases List.mem_cons.1 hf with rfl | hf
    · exact h.1
    · exact le_trans h.1 (ih h.2 hf)

theorem ordered_append {now : Instant} {es fs : List (Instant × Step)} :
    Ordered now (es ++ fs) → Ordered now es := by
  induction es generalizing now with
  | nil => exact fun _ => trivial
  | cons e es ih => exact fun h => ⟨h.1, ih h.2⟩

theorem ordered_run (hx : Settled T x) {es fs : List (Instant × Step)}
    (ho : Ordered (clock x) (es ++ fs)) :
    Ordered (clock (IdleLock.run aead b64 backend x es)) fs := by
  induction es generalizing x with
  | nil => exact ho
  | cons e es ih =>
    obtain ⟨hnext, hclock⟩ := hx.exec aead b64 backend ho.1
    refine ih hnext ?_
    rw [hclock]
    exact ho.2

/-- Over a span without the user and without a use of the key the last activity stays. -/
theorem stale_run {a : Instant} (hx : Settled T x) {es : List (Instant × Step)}
    (ho : Ordered (clock x) es) (hstale : Stale a (vault x))
    (huser : ∀ e ∈ es, ∀ command, e.2 ≠ .user command) (hkey : KeyFree aead b64 backend x es) :
    Stale a (vault (IdleLock.run aead b64 backend x es)) := by
  induction es generalizing x with
  | nil => exact hstale
  | cons e es ih =>
    obtain ⟨hnext, hclock⟩ := hx.exec aead b64 backend ho.1
    refine ih hnext (by rw [hclock]; exact ho.2) ?_
      (fun f hf => huser f (List.mem_cons_of_mem _ hf)) hkey.2
    have hc := hx.setClock ho.1
    obtain ⟨hmoved, -⟩ := perform_moved aead b64 backend hc.syncing e.2
    obtain hs | hs := hmoved.stands hc.syncing (huser e List.mem_cons_self) hkey.1
    · intro vaultKey authKey last hu
      rw [vault_setClock] at hs
      exact hstale vaultKey authKey last (hs ▸ hu)
    · intro vaultKey authKey last hu
      change (vault (perform aead b64 backend (IdleLock.setClock e.1 x) e.2)).state = _ at hu
      rw [hs] at hu
      cases hu

/-- Locked, or without activity for the timeout by time `b`. -/
def IdleBy (b : Instant) (v : Vault) : Prop :=
  ∀ vaultKey authKey last, v.state = .unlocked vaultKey authKey last → v.idleTimeout ≤ b - last

theorem idle_exec (hT : T ≠ IDLE_LOCK_DISABLED) (hx : Settled T x) {b : Instant}
    (hidle : IdleBy b (vault x)) {e : Instant × Step} (hb : b ≤ e.1) (he : clock x ≤ e.1)
    (huser : ∀ command, e.2 = .user command → command.run.Keeps Idle) :
    Idle (vault (IdleLock.exec aead b64 backend x e)) ∧
      (e.2 = .idleCheck → (vault (IdleLock.exec aead b64 backend x e)).state = .locked) := by
  have hc := hx.setClock he
  have hT' : (vault (IdleLock.setClock e.1 x)).idleTimeout ≠ IDLE_LOCK_DISABLED := by
    rwa [hc.timeout]
  have hidle' : Idle (vault (IdleLock.setClock e.1 x)) := by
    rw [vault_setClock]
    intro vaultKey authKey last hs
    exact (hidle vaultKey authKey last hs).trans (Nat.sub_le_sub_right hb last)
  obtain ⟨hmoved, -⟩ := perform_moved aead b64 backend hc.syncing e.2
  refine ⟨hmoved.idle hc.syncing hT' hidle' huser, fun hcheck => ?_⟩
  change (vault (perform aead b64 backend (IdleLock.setClock e.1 x) e.2)).state = .locked
  rw [hcheck, perform, vault_mapVault]
  exact touchIdle_idle hT' hidle'

theorem locked_at_check (hT : T ≠ IDLE_LOCK_DISABLED) (hx : Settled T x) {b c : Instant}
    (hidle : IdleBy b (vault x)) {es : List (Instant × Step)}
    (ho : Ordered (clock x) (es ++ [(c, .idleCheck)])) (hb : ∀ e ∈ es, b ≤ e.1) (hc : b ≤ c)
    (huser : ∀ e ∈ es, ∀ command, e.2 = .user command → command.run.Keeps Idle) :
    (vault (IdleLock.run aead b64 backend x (es ++ [(c, .idleCheck)]))).state = .locked := by
  induction es generalizing x b with
  | nil =>
    exact (idle_exec aead b64 backend hT hx hidle hc ho.1 fun command h => by cases h).2 rfl
  | cons e es ih =>
    obtain ⟨hnext, hclock⟩ := hx.exec aead b64 backend ho.1
    have hbe := hb e List.mem_cons_self
    have hidle' := (idle_exec aead b64 backend hT hx hidle hbe ho.1
      (huser e List.mem_cons_self)).1
    have hnow : Ordered e.1 (es ++ [(c, .idleCheck)]) := ho.2
    refine ih (b := e.1) hnext ?_ (by rw [hclock]; exact hnow) ?_ ?_
      fun f hf => huser f (List.mem_cons_of_mem _ hf)
    · intro vaultKey authKey last hs
      have h := hidle' vaultKey authKey last hs
      change _ ≤ clock _ - last at h
      rwa [hclock] at h
    · exact fun f hf => ordered_le (ordered_append hnow) hf
    · exact ordered_le hnow (f := (c, .idleCheck)) (by simp)

/-- The claim about one run: after a span from `a` to `b` of at least the timeout without a user
command, the first check of the watcher from `b` on finds the vault locked. -/
def AutoLocks (T : Instant) (x₀ : Desk β) (es : List (Instant × Step)) : Prop :=
  ∀ pre span mid post a b c, es = pre ++ span ++ mid ++ (c, .idleCheck) :: post →
    clock x₀ ≤ a → (∀ e ∈ pre, e.1 ≤ a) → a + T ≤ b → (∀ e ∈ span, e.1 ≤ b) →
    (∀ e ∈ span, ∀ command, e.2 ≠ .user command) →
    (∀ e ∈ mid, b ≤ e.1 ∧ e.2 ≠ .idleCheck) → b ≤ c →
    (vault (run aead b64 backend x₀ (pre ++ span ++ mid ++ [(c, .idleCheck)]))).state = .locked

/-- The vault is locked at the check if no sync came to use its key in the span and no user
command between span and check unlocked it anew. -/
theorem locked_after_idle_span {T : Instant} (hT : T ≠ IDLE_LOCK_DISABLED) {x₀ : Desk β}
    (hx₀ : Settled T x₀) {pre span mid : List (Instant × Step)} {a b c : Instant}
    (hordered : Ordered (clock x₀) (pre ++ span ++ mid ++ [(c, .idleCheck)]))
    (ha : clock x₀ ≤ a) (hpre : ∀ e ∈ pre, e.1 ≤ a) (hab : a + T ≤ b)
    (huser : ∀ e ∈ span, ∀ command, e.2 ≠ .user command)
    (hkey : KeyFree aead b64 backend (run aead b64 backend x₀ pre) span)
    (hmid : ∀ e ∈ mid, b ≤ e.1) (hc : b ≤ c)
    (hunlock : ∀ e ∈ mid, ∀ command, e.2 = .user command → command.run.Keeps Idle) :
    (vault (run aead b64 backend x₀ (pre ++ span ++ mid ++ [(c, .idleCheck)]))).state =
      .locked := by
  have ho₁ : Ordered (clock x₀) (pre ++ (span ++ (mid ++ [(c, .idleCheck)]))) := by
    simpa only [List.append_assoc] using hordered
  have hy : Settled T (run aead b64 backend x₀ pre) := hx₀.run aead b64 backend (ordered_append ho₁)
  have ho₂ := ordered_run aead b64 backend hx₀ ho₁
  have hz : Settled T (run aead b64 backend (run aead b64 backend x₀ pre) span) :=
    hy.run aead b64 backend (ordered_append ho₂)
  have ho₃ := ordered_run aead b64 backend hy ho₂
  have hstale : Stale a (vault (run aead b64 backend (run aead b64 backend x₀ pre) span)) := by
    refine stale_run aead b64 backend hy (ordered_append ho₂) ?_ huser hkey
    intro vaultKey authKey last hs
    exact (hy.past vaultKey authKey last hs).trans (clock_run_le aead b64 backend hx₀
      (ordered_append ho₁) ha hpre)
  have hidle : IdleBy b (vault (run aead b64 backend (run aead b64 backend x₀ pre) span)) := by
    intro vaultKey authKey last hs
    have hle : last + T ≤ b :=
      (Nat.add_le_add_right (hstale vaultKey authKey last hs) T).trans hab
    rw [hz.timeout]
    exact Nat.le_sub_of_add_le' hle
  have hfinal := locked_at_check aead b64 backend hT hz hidle ho₃ hmid hc hunlock
  simpa only [run, List.foldl_append, List.append_assoc] using hfinal

end Runs

/-! ## Interval syncs every five minutes under a timeout of fifteen -/

section IntervalSyncs

def DEFAULT_IDLE_LOCK : Instant := 15 * 60 * 10 ^ 9

def BACKGROUND_SYNC_INTERVAL : Instant := 5 * 60 * 10 ^ 9

def deskKey : VaultKey := ⟨Block.fill 32 7⟩

def deskHeader : VaultHeader := ⟨[], .default, ⟨[], []⟩, none, 0⟩

/-- An unlocked vault without rows, configured for a directory that holds its header. -/
def desk : Desk FileBackend where
  own _ := ⟨⟨⟨some deskHeader, KeyedTables.Table.empty⟩, none,
    .unlocked deskKey deskKey.expose 0, DEFAULT_IDLE_LOCK, World.quiet⟩, SyncCursor.default⟩
  shared := ⟨some (.ok .default), some (.ok (exportHeader deskHeader)), KeyedTables.Table.empty,
    0, fun _ => none, fun _ => ⟨id, fun _ => List.Perm.refl _⟩⟩
  tasks _ := none

/-- Sync `t` from its start to its end at one instant. -/
def intervalSync (now : Instant) (t : ℕ) : List (Instant × Step) :=
  (now, .startSync t) :: List.replicate 13 (now, .advanceSync t)

def syncedSpan : List (Instant × Step) :=
  intervalSync BACKGROUND_SYNC_INTERVAL 0 ++ intervalSync (2 * BACKGROUND_SYNC_INTERVAL) 1

private theorem syncedSpan_steps {e : Instant × Step} (he : e ∈ syncedSpan) :
    ∃ t, e.2 = .startSync t ∨ e.2 = .advanceSync t := by
  simp only [syncedSpan, intervalSync, List.mem_append, List.mem_cons, List.mem_replicate] at he
  obtain (rfl | ⟨-, rfl⟩) | (rfl | ⟨-, rfl⟩) := he
  · exact ⟨0, Or.inl rfl⟩
  · exact ⟨0, Or.inr rfl⟩
  · exact ⟨1, Or.inl rfl⟩
  · exact ⟨1, Or.inr rfl⟩

/-- The user is away for fifteen minutes and two interval syncs succeed; the watcher finds the
vault unlocked, last active at the second sync. -/
theorem intervalSync_defeats_idle_lock :
    Settled DEFAULT_IDLE_LOCK desk ∧
    (vault (run (transparent 32) standard fileBackend desk
      (syncedSpan ++ [(DEFAULT_IDLE_LOCK, .idleCheck)]))).state =
        .unlocked deskKey deskKey.expose (2 * BACKGROUND_SYNC_INTERVAL) ∧
    ¬ AutoLocks (transparent 32) standard fileBackend DEFAULT_IDLE_LOCK desk
      (syncedSpan ++ [(DEFAULT_IDLE_LOCK, .idleCheck)]) := by
  have hstate : (vault (run (transparent 32) standard fileBackend desk
      (syncedSpan ++ [(DEFAULT_IDLE_LOCK, .idleCheck)]))).state =
        .unlocked deskKey deskKey.expose (2 * BACKGROUND_SYNC_INTERVAL) := rfl
  refine ⟨⟨rfl, ?_, fun t d p h => by cases h⟩, hstate, fun h => ?_⟩
  · intro vaultKey authKey last hs
    cases hs
    exact le_refl _
  · have hlocked := h [] syncedSpan [] [] 0 DEFAULT_IDLE_LOCK DEFAULT_IDLE_LOCK (by simp)
      (le_refl _) (by simp) (by simp) ?_ ?_ (by simp) (le_refl _)
    · rw [List.nil_append, List.append_nil, hstate] at hlocked
      cases hlocked
    · decide
    · intro e he command hcommand
      obtain ⟨t, ht | ht⟩ := syncedSpan_steps he
      · rw [ht] at hcommand
        cases hcommand
      · rw [ht] at hcommand
        cases hcommand

/-- A command that uses the key, as every repository operation does. -/
def UserCommand.useKey : UserCommand where
  run := do
    let _ ← requireKey
    pure ()
  timeout := (leaves_requireKey fun _ _ => rfl).bind fun _ => Action.Leaves.pure _
  clock := (leaves_requireKey fun _ _ => rfl).bind fun _ => Action.Leaves.pure _
  activity := (show requireKey.Keeps ActivePast from fun v => (requireKey_follows v).past).bind
    fun _ => Action.Keeps.pure _

theorem not_keyUse_of_quiet {β γ : Type} {m : Action (Engine × β) Error γ} (b : β)
    (hm : Quiet m) : ¬ KeyUse m := by
  intro huse
  cases huse
  have h := (hm (⟨⟨VaultDb.empty, none, .unlocked deskKey deskKey.expose 0, IDLE_LOCK_DISABLED,
    { World.quiet with now := 1 }⟩, SyncCursor.default⟩, b)).1
  rcases h with h | h
  · cases h
  · cases h

/-- A command at time 5, a poll and the first action of a sync, a check at time 65. -/
theorem locked_after_idle_span_sample :
    (vault (run (transparent 32) standard fileBackend
      { desk with own := fun d => { desk.own d with vault := { (desk.own d).vault with
          idleTimeout := 60 } } }
      ([(5, .user .useKey)] ++ [(20, .poll), (30, .startSync 0), (30, .advanceSync 0)] ++ [] ++
        [(65, .idleCheck)]))).state = .locked := by
  refine locked_after_idle_span (transparent 32) standard fileBackend (T := 60) (a := 5) (b := 65)
    (by decide) ⟨rfl, ?_, fun t d p h => by cases h⟩ ?_ (by decide) (by decide) (by decide) ?_ ?_
    (by simp) (le_refl _) (by simp)
  · intro vaultKey authKey last hs
    cases hs
    exact le_refl _
  · exact ⟨by decide, by decide, by decide, by decide, by decide, trivial⟩
  · intro e he command hcommand
    fin_cases he <;> cases hcommand
  · refine ⟨fun t h => (by cases h), fun t h => (by cases h), fun t h => ?_, trivial⟩
    cases h
    rintro ⟨d, γ, m, next, htask, huse⟩
    cases htask
    exact not_keyUse_of_quiet desk.shared quiet_isUnlocked huse

end IntervalSyncs
end Tethra.IdleLock
