import Tethra.SharedTasks
import Tethra.VaultRecords

set_option autoImplicit false

/-!
# Tunnels of terminal sessions

Starting a tunnel looks into the map, connects and inserts later; closing a session removes what
it finds. `running` are the tunnels whose task runs, in the map or not.
-/
namespace Tethra.SessionTunnels
open SharedTasks VaultRecords VaultTypes

/-- Session and tunnel. -/
abbrev Key := Uuid × Uuid

structure LiveTunnel where
  handle : ℕ
  boundPort : UInt16
  deriving DecidableEq

structure Runtimes where
  tunnels : List (Key × LiveTunnel)
  sessionHosts : List (Uuid × Uuid)
  running : List (Key × ℕ)
  opened : ℕ

def Runtimes.new : Runtimes := ⟨[], [], [], 0⟩

/-- What the vault and the network answer. -/
structure Answer where
  host : Except String (List TunnelDefinition)
  opened : Except String UInt16

/-- The `tunnel-changed` events of a task: the port, or the error. -/
abbrev Statuses := List (Uuid × Except String UInt16)

/-- A `start_tunnel_inner` in progress, with the tunnels that come after it. -/
structure Starting where
  sessionId : Uuid
  hostId : Uuid
  tunnel : TunnelDefinition
  later : List TunnelDefinition
  statuses : Statuses

def Starting.key (s : Starting) : Key := (s.sessionId, s.tunnel.id)

inductive Task where
  | tunnelStart (sessionId tunnelId : Uuid)
  | loading (sessionId tunnelId hostId : Uuid)
  | autoStartForSession (sessionId hostId : Uuid)
  | loadingAll (sessionId hostId : Uuid)
  | checking (s : Starting)
  | opening (s : Starting)
  | inserting (s : Starting) (live : LiveTunnel)
  | stopSessionTunnels (sessionId : Uuid)
  | removing (sessionId : Uuid) (keys : List Key)
  | stopping (sessionId : Uuid) (keys : List Key) (key : Key) (live : LiveTunnel)
  | stopped (sessionId : Uuid)
  | finished (r : Except String Statuses)

def noHost : String := "no host associated with this terminal session"
def noDefinition : String := "tunnel definition not found on host"
def alreadyActive : String := "tunnel is already active"

/-! ## Maps -/

def remove {κ α : Type} [DecidableEq κ] (key : κ) (m : List (κ × α)) : List (κ × α) :=
  m.filter fun e => e.1 ≠ key

def insert {κ α : Type} [DecidableEq κ] (key : κ) (a : α) (m : List (κ × α)) : List (κ × α) :=
  (key, a) :: remove key m

def get {κ α : Type} [DecidableEq κ] (key : κ) (m : List (κ × α)) : Option α :=
  (m.find? fun e => e.1 = key).map Prod.snd

/-! ## Starting and stopping -/

def startNext (sessionId hostId : Uuid) (statuses : Statuses) : List TunnelDefinition → Task
  | [] => .finished (.ok statuses)
  | tunnel :: later => .checking ⟨sessionId, hostId, tunnel, later, statuses⟩

/-- The outcome of one tunnel is reported; the others follow. -/
def report (s : Starting) (r : Except String UInt16) : Task :=
  startNext s.sessionId s.hostId (s.statuses ++ [(s.tunnel.id, r)]) s.later

/-- A tunnel that an insertion would drop from the map. -/
def replaced (x : Runtimes) (key : Key) : Option (Key × ℕ) :=
  (get key x.tunnels).map fun live => (key, live.handle)

/-- The value that was in the map is dropped, and `Drop` aborts its task. -/
def insertTunnel (x : Runtimes) (key : Key) (live : LiveTunnel) : Runtimes :=
  { x with
    tunnels := insert key live x.tunnels
    running := match replaced x key with
      | some old => x.running.erase old
      | none => x.running }

def open_ (x : Runtimes) (s : Starting) (port : UInt16) : Effect Runtimes Task :=
  ⟨{ x with running := (s.key, x.opened) :: x.running, opened := x.opened + 1 },
    .inserting s ⟨x.opened, port⟩, []⟩

def removeNext (x : Runtimes) (sessionId : Uuid) : List Key → Effect Runtimes Task
  | [] => ⟨{ x with sessionHosts := remove sessionId x.sessionHosts }, .stopped sessionId, []⟩
  | key :: keys =>
    match get key x.tunnels with
    | some live =>
      ⟨{ x with tunnels := remove key x.tunnels }, .stopping sessionId keys key live, []⟩
    | none => ⟨x, .removing sessionId keys, []⟩

def act (o : Answer) (x : Runtimes) : Task → Effect Runtimes Task
  | .tunnelStart sessionId tunnelId =>
    match get sessionId x.sessionHosts with
    | some hostId => ⟨x, .loading sessionId tunnelId hostId, []⟩
    | none => ⟨x, .finished (.error noHost), []⟩
  | .loading sessionId tunnelId hostId =>
    match o.host with
    | .ok tunnels =>
      match tunnels.find? fun t => t.id = tunnelId with
      | some tunnel => ⟨x, .checking ⟨sessionId, hostId, tunnel, [], []⟩, []⟩
      | none => ⟨x, .finished (.error noDefinition), []⟩
    | .error e => ⟨x, .finished (.error e), []⟩
  | .autoStartForSession sessionId hostId =>
    ⟨{ x with sessionHosts := insert sessionId hostId x.sessionHosts },
      .loadingAll sessionId hostId, []⟩
  | .loadingAll sessionId hostId =>
    match o.host with
    | .ok tunnels => ⟨x, startNext sessionId hostId [] (tunnels.filter fun t => t.autoStart), []⟩
    | .error _ => ⟨x, .finished (.ok []), []⟩
  | .checking s =>
    match get s.key x.tunnels with
    | some _ => ⟨x, report s (.error alreadyActive), []⟩
    | none => ⟨x, .opening s, []⟩
  | .opening s =>
    match o.opened with
    | .ok port => open_ x s port
    | .error e => ⟨x, report s (.error e), []⟩
  | .inserting s live => ⟨insertTunnel x s.key live, report s (.ok live.boundPort), []⟩
  | .stopSessionTunnels sessionId =>
    ⟨x, .removing sessionId ((x.tunnels.map Prod.fst).filter fun key => key.1 = sessionId), []⟩
  | .removing sessionId keys => removeNext x sessionId keys
  | .stopping sessionId keys key live =>
    ⟨{ x with running := x.running.erase (key, live.handle) }, .removing sessionId keys, []⟩
  | .stopped sessionId => ⟨x, .stopped sessionId, []⟩
  | .finished r => ⟨x, .finished r, []⟩

abbrev Desk := Crowd Runtimes Task

abbrev Happening := Event Task Answer

def Desk.new : Desk := ⟨.new, []⟩

/-! ## What is still to come -/

/-- The command has not begun. -/
def Fresh : Task → Prop
  | .tunnelStart _ _ => True
  | .autoStartForSession _ _ => True
  | .stopSessionTunnels _ => True
  | _ => False

/-- The task stops a session and has collected the keys. -/
def Swept (sessionId : Uuid) : Task → Prop
  | .removing id _ => id = sessionId
  | .stopping id _ _ _ => id = sessionId
  | .stopped id => id = sessionId
  | _ => False

/-- The task will look for the key and stop what is there. -/
def WillRemove (key : Key) : Task → Prop
  | .stopSessionTunnels id => id = key.1
  | .removing id keys => id = key.1 ∧ key ∈ keys
  | .stopping id keys _ _ => id = key.1 ∧ key ∈ keys
  | _ => False

/-- No stop of the session has passed, or one of them still comes to the key. -/
def InTime (x : Desk) (key : Key) : Prop :=
  (∀ t ∈ x.tasks, ¬ Swept key.1 t) ∨ ∃ t ∈ x.tasks, WillRemove key t

/-- A tunnel is opened only where none of its key runs, and inserted in time to be stopped. -/
def Timely (x : Desk) : Happening → Prop
  | .spawn t => Fresh t
  | .advance i o => ∀ t, x.tasks[i]? = some t →
      (∀ s port, t = .opening s → o.opened = .ok port → ∀ r ∈ x.shared.running, r.1 ≠ s.key) ∧
      ∀ s live, t = .inserting s live → InTime x s.key

/-- The running tunnel that a task holds. -/
def held : Task → List (Key × ℕ)
  | .inserting s live => [(s.key, live.handle)]
  | .stopping _ _ key live => [(key, live.handle)]
  | _ => []

def entry (e : Key × LiveTunnel) : Key × ℕ := (e.1, e.2.handle)

/-- The keys of a stop are those of its session. -/
def Scoped : Task → Prop
  | .removing id keys => ∀ key ∈ keys, key.1 = id
  | .stopping id keys key _ => key.1 = id ∧ ∀ key ∈ keys, key.1 = id
  | _ => True

structure Sound (x : Desk) : Prop where
  /-- A running tunnel is in the map or held by one task. -/
  owned : x.shared.running.Perm (x.shared.tunnels.map entry ++ x.tasks.flatMap held)
  unique : (x.shared.running.map Prod.fst).Nodup
  ofSession : ∀ t ∈ x.tasks, Scoped t
  inTime : ∀ e ∈ x.shared.tunnels, InTime x e.1

/-! ## One action -/

theorem mem_remove {κ α : Type} [DecidableEq κ] {key : κ} {m : List (κ × α)} {e : κ × α} :
    e ∈ remove key m ↔ e ∈ m ∧ e.1 ≠ key := by
  simp [remove]

theorem get_eq_none {κ α : Type} [DecidableEq κ] {key : κ} {m : List (κ × α)} :
    get key m = none ↔ ∀ e ∈ m, e.1 ≠ key := by
  simp [get]

theorem get_mem {κ α : Type} [DecidableEq κ] {key : κ} {m : List (κ × α)} {a : α}
    (h : get key m = some a) : (key, a) ∈ m := by
  obtain ⟨e, he, rfl⟩ := Option.map_eq_some_iff.1 h
  have hkey : e.1 = key := by simpa using List.find?_some he
  rw [← hkey]
  exact List.mem_of_find?_eq_some he

theorem remove_of_absent {κ α : Type} [DecidableEq κ] {key : κ} {m : List (κ × α)}
    (h : ∀ e ∈ m, e.1 ≠ key) : remove key m = m :=
  List.filter_eq_self.2 fun e he => decide_eq_true (h e he)

/-- Taking an entry out of a map with distinct keys. -/
theorem perm_remove {κ α : Type} [DecidableEq κ] {key : κ} {m : List (κ × α)} {a : α}
    (hm : (m.map Prod.fst).Nodup) (h : (key, a) ∈ m) : m.Perm ((key, a) :: remove key m) := by
  induction m with
  | nil => cases h
  | cons e m ih =>
    rw [List.map_cons, List.nodup_cons] at hm
    obtain rfl | h := List.mem_cons.1 h
    · have habsent : ∀ e ∈ m, e.1 ≠ key := by
        intro e he hkey
        exact hm.1 (List.mem_map.2 ⟨e, he, hkey⟩)
      have hrest : remove key ((key, a) :: m) = m := by
        rw [remove, List.filter_cons_of_neg (by simp)]
        exact remove_of_absent habsent
      rw [hrest]
    · have hne : e.1 ≠ key := by
        intro hkey
        exact hm.1 (hkey ▸ List.mem_map_of_mem h)
      have hrest : remove key (e :: m) = e :: remove key m := by
        rw [remove, List.filter_cons_of_pos (by simpa using hne)]
        rfl
      rw [hrest]
      exact ((ih hm.2 h).cons e).trans (List.Perm.swap _ _ _)

/-- The rest of a task does for a key what the task would have done. -/
def Keeps (key : Key) (t rest : Task) : Prop :=
  (Swept key.1 rest → Swept key.1 t ∨ WillRemove key rest) ∧ (WillRemove key t → WillRemove key rest)

/-- What an action does to the tunnels it concerns. -/
structure Local (s : Runtimes) (t : Task) (e : Effect Runtimes Task) : Prop where
  spawned : e.spawned = []
  balanced : (e.shared.running ++ (s.tunnels.map entry ++ held t)).Perm
    (s.running ++ (e.shared.tunnels.map entry ++ held e.rest))
  unique : (e.shared.running.map Prod.fst).Nodup
  ofSession : Scoped e.rest
  keeps : ∀ a ∈ e.shared.tunnels, (a ∈ s.tunnels ∨ ∃ st live, t = .inserting st live ∧ a.1 = st.key) ∧
    Keeps a.1 t e.rest

/-- The task is about starting a tunnel and holds none. -/
def Unheld : Task → Prop
  | .inserting _ _ => False
  | .stopSessionTunnels _ => False
  | .removing _ _ => False
  | .stopping _ _ _ _ => False
  | .stopped _ => False
  | _ => True

theorem Unheld.held {t : Task} (h : Unheld t) : held t = [] := by
  cases t <;> first | rfl | exact h.elim

theorem Unheld.scoped {t : Task} (h : Unheld t) : Scoped t := by
  cases t <;> trivial

theorem Unheld.not_swept {t : Task} (h : Unheld t) (sessionId : Uuid) : ¬ Swept sessionId t := by
  cases t <;> first | exact id | exact h.elim

theorem Unheld.not_willRemove {t : Task} (h : Unheld t) (key : Key) : ¬ WillRemove key t := by
  cases t <;> first | exact id | exact h.elim

theorem Unheld.keeps {t rest : Task} (ht : Unheld t) (hrest : Unheld rest) (key : Key) :
    Keeps key t rest :=
  ⟨fun h => absurd h (hrest.not_swept _), fun h => absurd h (ht.not_willRemove _)⟩

theorem unheld_startNext (sessionId hostId : Uuid) (statuses : Statuses)
    (tunnels : List TunnelDefinition) : Unheld (startNext sessionId hostId statuses tunnels) := by
  cases tunnels <;> trivial

theorem unheld_report (s : Starting) (r : Except String UInt16) : Unheld (report s r) :=
  unheld_startNext _ _ _ _

section Actions
variable {s : Runtimes} {t : Task}

/-- Steps that touch no tunnel. -/
theorem Local.quiet {s' : Runtimes} {rest : Task} (hs : (s.running.map Prod.fst).Nodup)
    (ht : Unheld t) (hrest : Unheld rest) (hrunning : s'.running = s.running)
    (htunnels : s'.tunnels = s.tunnels) : Local s t ⟨s', rest, []⟩ where
  spawned := rfl
  balanced := by rw [hrunning, htunnels, ht.held, hrest.held]
  unique := by rw [hrunning]; exact hs
  ofSession := hrest.scoped
  keeps a ha := ⟨.inl (htunnels ▸ ha), ht.keeps hrest a.1⟩

theorem local_open {st : Starting} (hs : (s.running.map Prod.fst).Nodup) (port : UInt16)
    (hfree : ∀ r ∈ s.running, r.1 ≠ st.key) : Local s (.opening st) (open_ s st port) where
  spawned := rfl
  balanced := by
    simp only [open_, held, List.append_nil, List.cons_append]
    rw [← List.append_assoc]
    exact (List.perm_append_singleton _ _).symm
  unique := by
    simp only [open_, List.map_cons, List.nodup_cons]
    refine ⟨fun h => ?_, hs⟩
    obtain ⟨r, hr, hkey⟩ := List.mem_map.1 h
    exact hfree r hr hkey
  ofSession := trivial
  keeps a ha := ⟨.inl ha, fun h => h.elim, fun h => h.elim⟩

theorem local_insert {st : Starting} {live : LiveTunnel} (hs : (s.running.map Prod.fst).Nodup)
    (habsent : ∀ e ∈ s.tunnels, e.1 ≠ st.key) (r : Except String UInt16) :
    Local s (.inserting st live) ⟨insertTunnel s st.key live, report st r, []⟩ where
  spawned := rfl
  balanced := by
    have hreplaced : replaced s st.key = none := by
      rw [replaced, get_eq_none.2 habsent]
      rfl
    have hreport := (unheld_report st r).held
    simp only [insertTunnel, hreplaced, insert, remove_of_absent habsent, List.map_cons, hreport,
      List.append_nil]
    exact (List.perm_append_singleton _ _).append_left _
  unique := by
    have hreplaced : replaced s st.key = none := by
      rw [replaced, get_eq_none.2 habsent]
      rfl
    simp only [insertTunnel, hreplaced]
    exact hs
  ofSession := (unheld_report st r).scoped
  keeps a ha := by
    refine ⟨?_, fun h => absurd h ((unheld_report st r).not_swept _), fun h => h.elim⟩
    obtain rfl | ha := List.mem_cons.1 ha
    · exact .inr ⟨st, live, rfl, rfl⟩
    · exact .inl (mem_remove.1 ha).1

theorem local_collect (hs : (s.running.map Prod.fst).Nodup) (id : Uuid) :
    Local s (.stopSessionTunnels id)
      ⟨s, .removing id ((s.tunnels.map Prod.fst).filter fun key => key.1 = id), []⟩ where
  spawned := rfl
  balanced := List.Perm.refl _
  unique := hs
  ofSession key hkey := by simpa using (List.mem_filter.1 hkey).2
  keeps a ha := by
    have hmem : ∀ {sid : Uuid}, sid = a.1.1 →
        a.1 ∈ (s.tunnels.map Prod.fst).filter fun key => key.1 = sid := by
      intro sid hid
      exact List.mem_filter.2 ⟨List.mem_map_of_mem ha, by simp [hid]⟩
    exact ⟨.inl ha, fun h => .inr ⟨h, hmem h⟩, fun h => ⟨h, hmem h⟩⟩

theorem local_remove (hs : (s.running.map Prod.fst).Nodup)
    (hkeys : (s.tunnels.map Prod.fst).Nodup) {id : Uuid} {keys : List Key}
    (hscoped : Scoped (.removing id keys)) :
    Local s (.removing id keys) (removeNext s id keys) := by
  cases keys with
  | nil =>
    refine ⟨rfl, List.Perm.refl _, hs, trivial, fun a ha => ⟨.inl ha, fun h => .inl h, ?_⟩⟩
    rintro ⟨-, h⟩
    cases h
  | cons key keys =>
    have hrest : ∀ k ∈ keys, k.1 = id := fun k hk => hscoped k (List.mem_cons_of_mem _ hk)
    simp only [removeNext]
    cases hget : get key s.tunnels with
    | none =>
      refine ⟨rfl, List.Perm.refl _, hs, hrest, fun a ha => ⟨.inl ha, fun h => .inl h, ?_⟩⟩
      rintro ⟨hid, h⟩
      obtain heq | h := List.mem_cons.1 h
      · exact absurd heq (get_eq_none.1 hget a ha)
      · exact ⟨hid, h⟩
    | some live =>
      refine ⟨rfl, ?_, hs, ⟨hscoped key List.mem_cons_self, hrest⟩, fun a ha => ?_⟩
      · have hperm := (perm_remove hkeys (get_mem hget)).map entry
        simp only [held, List.append_nil]
        refine List.Perm.append_left _ (hperm.trans ?_)
        exact (List.perm_append_singleton _ _).symm
      · obtain ⟨ha, hne⟩ := mem_remove.1 ha
        refine ⟨.inl ha, fun h => .inl h, ?_⟩
        rintro ⟨hid, h⟩
        obtain heq | h := List.mem_cons.1 h
        · exact absurd heq hne
        · exact ⟨hid, h⟩

theorem local_stopped (hs : (s.running.map Prod.fst).Nodup) {id : Uuid} {keys : List Key}
    {key : Key} {live : LiveTunnel} (hheld : (key, live.handle) ∈ s.running)
    (hscoped : Scoped (.stopping id keys key live)) :
    Local s (.stopping id keys key live)
      ⟨{ s with running := s.running.erase (key, live.handle) }, .removing id keys, []⟩ where
  spawned := rfl
  balanced := by
    simp only [held, List.append_nil]
    have hperm := (List.perm_cons_erase hheld).symm
    refine List.Perm.trans ?_ (hperm.append_right _)
    rw [← List.append_assoc]
    exact List.perm_append_singleton _ _
  unique := hs.sublist ((List.erase_sublist).map _)
  ofSession := hscoped.2
  keeps a ha := ⟨.inl ha, fun h => .inl h, fun h => h⟩

end Actions

/-! ## Runs -/

section Runs
variable {x : Desk} {i : ℕ} {t : Task}

theorem Sound.keys_nodup (hx : Sound x) :
    (x.shared.tunnels.map Prod.fst ++ (x.tasks.flatMap held).map Prod.fst).Nodup := by
  have hperm := hx.owned.map Prod.fst
  rw [List.map_append, List.map_map] at hperm
  exact hperm.nodup_iff.1 hx.unique

theorem held_sub (ht : x.tasks[i]? = some t) {r : Key × ℕ} (hr : r ∈ held t) :
    r ∈ x.tasks.flatMap held :=
  List.mem_flatMap.2 ⟨t, List.mem_of_getElem? ht, hr⟩

theorem Sound.held_running (hx : Sound x) (ht : x.tasks[i]? = some t) {r : Key × ℕ}
    (hr : r ∈ held t) : r ∈ x.shared.running :=
  hx.owned.mem_iff.2 (List.mem_append_right _ (held_sub ht hr))

/-- What a task holds is not in the map. -/
theorem Sound.absent (hx : Sound x) (ht : x.tasks[i]? = some t) {r : Key × ℕ}
    (hr : r ∈ held t) : ∀ e ∈ x.shared.tunnels, e.1 ≠ r.1 := by
  intro e he hkey
  have hdisjoint := List.disjoint_of_nodup_append hx.keys_nodup
  exact hdisjoint (List.mem_map.2 ⟨e, he, hkey⟩) (List.mem_map_of_mem (held_sub ht hr))

theorem local_act (hx : Sound x) {o : Answer} (htimely : Timely x (.advance i o))
    (ht : x.tasks[i]? = some t) : Local x.shared t (act o x.shared t) := by
  obtain ⟨hfree, -⟩ := htimely t ht
  cases t with
  | tunnelStart sessionId tunnelId =>
    simp only [act]
    split <;> exact .quiet hx.unique trivial trivial rfl rfl
  | loading sessionId tunnelId hostId =>
    simp only [act]
    split
    · split <;> exact .quiet hx.unique trivial trivial rfl rfl
    · exact .quiet hx.unique trivial trivial rfl rfl
  | autoStartForSession sessionId hostId =>
    exact .quiet hx.unique trivial trivial rfl rfl
  | loadingAll sessionId hostId =>
    simp only [act]
    split
    · exact .quiet hx.unique trivial (unheld_startNext _ _ _ _) rfl rfl
    · exact .quiet hx.unique trivial trivial rfl rfl
  | checking s =>
    simp only [act]
    split
    · exact .quiet hx.unique trivial (unheld_report _ _) rfl rfl
    · exact .quiet hx.unique trivial trivial rfl rfl
  | opening s =>
    simp only [act]
    split
    · rename_i port hport
      exact local_open hx.unique port (hfree s port rfl hport)
    · exact .quiet hx.unique trivial (unheld_report _ _) rfl rfl
  | inserting s live => exact local_insert hx.unique (hx.absent ht List.mem_cons_self) _
  | stopSessionTunnels sessionId => exact local_collect hx.unique sessionId
  | removing sessionId keys =>
    exact local_remove hx.unique (List.Nodup.of_append_left hx.keys_nodup)
      (hx.ofSession _ (List.mem_of_getElem? ht))
  | stopping sessionId keys key live =>
    exact local_stopped hx.unique (hx.held_running ht List.mem_cons_self)
      (hx.ofSession _ (List.mem_of_getElem? ht))
  | stopped sessionId =>
    refine ⟨rfl, List.Perm.refl _, hx.unique, trivial, fun a ha => ⟨.inl ha, fun h => .inl h, id⟩⟩
  | finished r => exact .quiet hx.unique trivial trivial rfl rfl

theorem InTime.absorb {key : Key} (h : InTime x key) (ht : x.tasks[i]? = some t)
    {e : Effect Runtimes Task} (hspawned : e.spawned = []) (hkeeps : Keeps key t e.rest) :
    InTime (x.absorb i e) key := by
  obtain h | ⟨u, hu, hremove⟩ := h
  · by_cases hswept : Swept key.1 e.rest
    · obtain hswept | hremove := hkeeps.1 hswept
      · exact absurd hswept (h t (List.mem_of_getElem? ht))
      · exact .inr ⟨e.rest, Crowd.rest_mem_absorb ht, hremove⟩
    · refine .inl fun u hu => ?_
      obtain rfl | hu | ⟨j, -, hj⟩ := Crowd.mem_absorb hu
      · exact hswept
      · rw [hspawned] at hu
        cases hu
      · exact h u (List.mem_of_getElem? hj)
  · obtain rfl | hu := Crowd.mem_absorb_of_mem (e := e) ht hu
    · exact .inr ⟨e.rest, Crowd.rest_mem_absorb ht, hkeeps.2 hremove⟩
    · exact .inr ⟨u, hu, hremove⟩

theorem Sound.absorb (hx : Sound x) (ht : x.tasks[i]? = some t) {e : Effect Runtimes Task}
    (he : Local x.shared t e)
    (hinsert : ∀ s live, t = .inserting s live → InTime x s.key) : Sound (x.absorb i e) where
  owned := by
    have hheld := Crowd.flatMap_absorb held ht e
    have hbalanced := he.balanced
    have howned := hx.owned
    rw [he.spawned, List.flatMap_nil, List.append_nil] at hheld
    rw [← Multiset.coe_eq_coe] at *
    simp only [← Multiset.coe_add] at *
    change (e.shared.running : Multiset (Key × ℕ)) = _
    have hsum : (e.shared.running : Multiset (Key × ℕ)) + (x.shared.tunnels.map entry + held t) =
        (e.shared.tunnels.map entry : Multiset (Key × ℕ)) +
          ((x.absorb i e).tasks.flatMap held) + (x.shared.tunnels.map entry + held t) := by
      rw [hbalanced, howned]
      calc _ = (e.shared.tunnels.map entry : Multiset (Key × ℕ)) + x.shared.tunnels.map entry +
            (x.tasks.flatMap held + held e.rest) := by abel
        _ = _ := by
          rw [← hheld]
          abel
    exact add_right_cancel hsum
  unique := he.unique
  ofSession u hu := by
    obtain rfl | hu | ⟨j, -, hj⟩ := Crowd.mem_absorb hu
    · exact he.ofSession
    · rw [he.spawned] at hu
      cases hu
    · exact hx.ofSession u (List.mem_of_getElem? hj)
  inTime a ha := by
    obtain ⟨hold, hkeeps⟩ := he.keeps a ha
    refine InTime.absorb ?_ ht he.spawned hkeeps
    obtain hold | ⟨s, live, hs, hkey⟩ := hold
    · exact hx.inTime a hold
    · rw [hkey]
      exact hinsert s live hs

theorem Fresh.held {t : Task} (h : Fresh t) : held t = [] := by
  cases t <;> first | rfl | exact h.elim

theorem Fresh.scoped {t : Task} (h : Fresh t) : Scoped t := by
  cases t <;> trivial

theorem Fresh.not_swept {t : Task} (h : Fresh t) (sessionId : Uuid) : ¬ Swept sessionId t := by
  cases t <;> first | exact id | exact h.elim

theorem Sound.exec (hx : Sound x) {e : Happening} (he : Timely x e) :
    Sound (Crowd.exec act x e) := by
  cases e with
  | spawn t =>
    refine ⟨?_, hx.unique, fun u hu => ?_, fun a ha => ?_⟩
    · change x.shared.running.Perm (_ ++ (x.tasks ++ [t]).flatMap SessionTunnels.held)
      rw [List.flatMap_append, List.flatMap_singleton, Fresh.held he, List.append_nil]
      exact hx.owned
    · obtain hu | hu := List.mem_append.1 hu
      · exact hx.ofSession u hu
      · rw [List.mem_singleton.1 hu]
        exact Fresh.scoped he
    · obtain h | ⟨u, hu, hremove⟩ := hx.inTime a ha
      · refine .inl fun u hu => ?_
        obtain hu | hu := List.mem_append.1 hu
        · exact h u hu
        · rw [List.mem_singleton.1 hu]
          exact Fresh.not_swept he _
      · exact .inr ⟨u, List.mem_append_left _ hu, hremove⟩
  | advance i o =>
    rcases ht : x.tasks[i]? with _ | t
    · rw [Crowd.exec_absent ht]
      exact hx
    · rw [Crowd.exec_advance ht]
      exact hx.absorb ht (local_act hx he ht) (he t ht).2

theorem sound_new : Sound Desk.new where
  owned := List.Perm.refl _
  unique := List.nodup_nil
  ofSession _ h := by cases h
  inTime _ h := by cases h

/-- The task at `i` is about to drop a tunnel from the map that runs. -/
def Drops (x : Desk) (i : ℕ) : Prop :=
  ∃ s live old, x.tasks[i]? = some (.inserting s live) ∧ replaced x.shared s.key = some old ∧
    old ∈ x.shared.running

/-- Nothing of the session is still to be done. -/
def Settled (sessionId : Uuid) : Task → Prop
  | .tunnelStart id _ => id ≠ sessionId
  | .loading id _ _ => id ≠ sessionId
  | .autoStartForSession id _ => id ≠ sessionId
  | .loadingAll id _ => id ≠ sessionId
  | .checking s => s.sessionId ≠ sessionId
  | .opening s => s.sessionId ≠ sessionId
  | .inserting s _ => s.sessionId ≠ sessionId
  | .stopSessionTunnels id => id ≠ sessionId
  | .removing id _ => id ≠ sessionId
  | .stopping id _ _ _ => id ≠ sessionId
  | .stopped _ => True
  | .finished _ => True

/-- No tunnel of the session is in the map or runs. -/
def Closed (x : Runtimes) (sessionId : Uuid) : Prop :=
  (∀ a ∈ x.tunnels, a.1.1 ≠ sessionId) ∧ ∀ r ∈ x.running, r.1.1 ≠ sessionId

theorem Settled.not_willRemove {key : Key} (h : Settled key.1 t) : ¬ WillRemove key t := by
  cases t with
  | stopSessionTunnels id => exact h
  | removing id keys => exact fun hr => h hr.1
  | stopping id keys k live => exact fun hr => h hr.1
  | _ => exact id

theorem Settled.held {sessionId : Uuid} (h : Settled sessionId t) (hscoped : Scoped t) :
    ∀ r ∈ held t, r.1.1 ≠ sessionId := by
  cases t with
  | inserting s live =>
    intro r hr
    rw [List.mem_singleton.1 hr]
    exact h
  | stopping id keys key live =>
    intro r hr
    rw [List.mem_singleton.1 hr]
    change key.1 ≠ sessionId
    rw [hscoped.1]
    exact h
  | _ => exact fun _ hr => by cases hr

theorem Sound.closed (hx : Sound x) {sessionId : Uuid} (hstopped : .stopped sessionId ∈ x.tasks)
    (hsettled : ∀ t ∈ x.tasks, Settled sessionId t) : Closed x.shared sessionId := by
  have hmap : ∀ a ∈ x.shared.tunnels, a.1.1 ≠ sessionId := by
    rintro a ha rfl
    obtain h | ⟨t, ht, hremove⟩ := hx.inTime a ha
    · exact h _ hstopped rfl
    · exact (hsettled t ht).not_willRemove hremove
  refine ⟨hmap, fun r hr => ?_⟩
  obtain h | h := List.mem_append.1 (hx.owned.mem_iff.1 hr)
  · obtain ⟨a, ha, rfl⟩ := List.mem_map.1 h
    exact hmap a ha
  · obtain ⟨t, ht, hheld⟩ := List.mem_flatMap.1 h
    exact (hsettled t ht).held (hx.ofSession t ht) r hheld

theorem Sound.not_drops (hx : Sound x) (i : ℕ) : ¬ Drops x i := by
  rintro ⟨s, live, old, ht, hreplaced, -⟩
  have habsent := hx.absent ht List.mem_cons_self
  rw [replaced, get_eq_none.2 habsent] at hreplaced
  cases hreplaced

end Runs

/-- One tunnel for each key, none dropped while it runs, and none of a session left once a stop
of it and all else of it is over. -/
structure Tidy (x : Desk) : Prop where
  one : (x.shared.running.map Prod.fst).Nodup
  kept : ∀ i, ¬ Drops x i
  closed : ∀ sessionId, .stopped sessionId ∈ x.tasks → (∀ t ∈ x.tasks, Settled sessionId t) →
    Closed x.shared sessionId

/-- Along every run in which tunnels are opened alone and inserted in time. -/
theorem closing_stops (es : List Happening) (hes : Crowd.Follows act Timely Desk.new es) :
    Tidy (Crowd.run act Desk.new es) := by
  have hx : Sound (Crowd.run act Desk.new es) := hes.invariant (fun _ _ hx => hx.exec) sound_new
  exact ⟨hx.unique, hx.not_drops, fun _ => hx.closed⟩

/-! ## A session with one tunnel -/

def sessionA : Uuid := ⟨Block.fill 16 1⟩
def hostA : Uuid := ⟨Block.fill 16 2⟩

def tunnelA : TunnelDefinition where
  id := ⟨Block.fill 16 3⟩
  label := "db"
  direction := .local
  bindPort := 5432
  targetHost := "localhost"
  targetPort := 5432
  autoStart := true
  allowLan := false

def answerA : Answer := ⟨.ok [tunnelA], .ok 5432⟩

/-- The session is opened and comes to open its tunnel. -/
def starting : List Happening :=
  .spawn (.autoStartForSession sessionA hostA) :: List.replicate 3 (.advance 0 answerA)

def inserted : List Happening := List.replicate 2 (.advance 0 answerA)

def closing (n : ℕ) : List Happening :=
  .spawn (.stopSessionTunnels sessionA) :: List.replicate n (.advance 1 answerA)

/-- The task neither opens nor inserts. -/
def Idle : Task → Prop
  | .opening _ => False
  | .inserting _ _ => False
  | _ => True

theorem timely_idle {x : Desk} {i : ℕ} (o : Answer) {t : Task} (ht : x.tasks[i]? = some t)
    (h : Idle t) : Timely x (.advance i o) := by
  intro u hu
  rw [ht, Option.some.injEq] at hu
  subst hu
  constructor
  · rintro s port rfl
    exact h.elim
  · rintro s live rfl
    exact h.elim

theorem closing_stops_sample : Tidy (Crowd.run act Desk.new (starting ++ inserted ++ closing 4)) := by
  apply closing_stops
  refine ⟨trivial, timely_idle _ rfl trivial, timely_idle _ rfl trivial, timely_idle _ rfl trivial,
    ?_, ?_, trivial, timely_idle _ rfl trivial, timely_idle _ rfl trivial,
    timely_idle _ rfl trivial, timely_idle _ rfl trivial, trivial⟩
  · intro t ht
    constructor
    · intro _ _ _ _ r hr
      cases hr
    · rintro s live rfl
      cases ht
  · intro t ht
    constructor
    · rintro s port rfl
      cases ht
    · rintro s live -
      refine .inl fun u hu => ?_
      rw [List.mem_singleton.1 hu]
      exact id

/-- The session is closed while its tunnel is being opened. -/
theorem closing_stops_fails :
    ¬ ∀ es : List Happening, (∀ t, .spawn t ∈ es → Fresh t) → Tidy (Crowd.run act Desk.new es) := by
  intro hall
  have hfresh : ∀ t, Event.spawn t ∈ starting ++ closing 2 ++ inserted → Fresh t := by
    intro t ht
    simp [starting, closing, inserted] at ht
    obtain rfl | rfl := ht <;> trivial
  have hrun : (Crowd.run act Desk.new (starting ++ closing 2 ++ inserted)).tasks =
      [.finished (.ok [(tunnelA.id, .ok 5432)]), .stopped sessionA] := rfl
  have hlive : (Crowd.run act Desk.new (starting ++ closing 2 ++ inserted)).shared.tunnels =
      [((sessionA, tunnelA.id), ⟨0, 5432⟩)] := rfl
  have hclosed := (hall _ hfresh).closed sessionA (by rw [hrun]; simp) (by
    rw [hrun]
    intro t ht
    obtain rfl | ht := List.mem_cons.1 ht
    · trivial
    · rw [List.mem_singleton.1 ht]
      trivial)
  refine hclosed.1 ((sessionA, tunnelA.id), ⟨0, 5432⟩) ?_ rfl
  rw [hlive]
  exact List.mem_cons_self

end Tethra.SessionTunnels
