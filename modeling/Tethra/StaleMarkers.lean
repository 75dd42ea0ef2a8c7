import Tethra.HostPasswords
import Tethra.RepositoryRuns
import Tethra.SessionFleets

set_option autoImplicit false

/-!
# Pruning running sessions

A host is asked once for each marker whether its multiplexer session is alive, and a marker
whose answer is not "alive" is ended. The answer is read from what a login shell prints.
-/
namespace Tethra.StaleMarkers
open AtomicPrograms AuthenticatedEncryption JsonValues RepositoryRequests RepositoryUpdates
open RunningSessions RustText StatefulActions SyncLiveness VaultCrypto VaultRecords
open VaultRepository VaultState VaultTypes

/-! ## The probe -/

def muxAliveScript (name : String) : String :=
  "\nfor _p in /opt/homebrew/bin /usr/local/bin \"$HOME/.local/bin\"; do\n" ++
  "  [ -d \"$_p\" ] || continue\n" ++
  "  case \":$PATH:\" in *\":$_p:\"*) ;; *) PATH=\"$_p:$PATH\" ;; esac\n" ++
  "done\n" ++
  "export PATH\n" ++
  "echo TETHRA_MUX_BEGIN\n" ++
  "if command -v tmux >/dev/null 2>&1 && tmux -L tethra has-session -t '" ++ name ++
    "' 2>/dev/null; then\n" ++
  "  echo alive=1\n" ++
  "elif command -v zellij >/dev/null 2>&1 && zellij list-sessions 2>/dev/null | grep -F '" ++
    name ++ "' >/dev/null; then\n" ++
  "  echo alive=1\n" ++
  "else\n" ++
  "  echo alive=0\n" ++
  "fi\n" ++
  "echo TETHRA_MUX_END\n"

/-- The loop of `parse_mux_alive` over trimmed lines. -/
def scanAlive : Bool → List String → Bool
  | _, [] => false
  | inBlock, line :: rest =>
    if line = "TETHRA_MUX_BEGIN" then scanAlive true rest
    else if line = "TETHRA_MUX_END" then false
    else if inBlock ∧ line = "alive=1" then true
    else scanAlive inBlock rest

def parseMuxAlive (stdout : String) : Bool := scanAlive false ((lines stdout).map trim)

structure ExecResult where
  stdout : Bytes
  stderr : Bytes
  exitCode : UInt32

/-- What the approval gate and the hosts answer, marker by marker. -/
structure Answers where
  approve (id hostId : Uuid) (command : String) : Except Error Unit
  exec (id hostId : Uuid) (script : String) : Except Error ExecResult

variable (answers : Answers)

/-- The probe of a marker: its result, if there is one. -/
def probe (id hostId : Uuid) (muxSession : String) : Except Error ExecResult := do
  answers.approve id hostId ("probe_mux:" ++ muxSession)
  answers.exec id hostId (muxAliveScript muxSession)

def alive (session : RunningSessionSummary) : Bool :=
  match probe answers session.id session.hostId session.muxSession with
  | .ok result => parseMuxAlive (fromUtf8Lossy result.stdout)
  | .error _ => true

section Prune
variable (x : Externals) (toLowercase : String → String)

/-- The loop of `prune_stale_running_sessions`. -/
def prune : ℕ → List RunningSessionSummary → RepositoryM ℕ
  | removed, [] => pure removed
  | removed, session :: rest =>
    if alive answers session then prune removed rest
    else do
      endRunningSession x session.id
      prune (removed + 1) rest

def pruneStaleRunningSessions : RepositoryM ℕ := do
  let sessions ← listRunningSessions x toLowercase
  prune answers x 0 sessions

end Prune

/-! ## What an output says -/

/-- The trimmed lines of an output. -/
def output (stdout : Bytes) : List String := (lines (fromUtf8Lossy stdout)).map trim

/-- A block that is not over says `word`. -/
def Says (word : String) (text : List String) : Prop :=
  ∃ before block after, text = before ++ "TETHRA_MUX_BEGIN" :: block ++ word :: after ∧
    "TETHRA_MUX_END" ∉ block

/-- A block says `alive=1` before any end of a block. -/
def SaysAlive (text : List String) : Prop :=
  ∃ before block after, text = before ++ "TETHRA_MUX_BEGIN" :: block ++ "alive=1" :: after ∧
    "TETHRA_MUX_END" ∉ before ++ block

section Scan
variable {line : String} {rest : List String}

theorem scanAlive_begin (inBlock : Bool) :
    scanAlive inBlock ("TETHRA_MUX_BEGIN" :: rest) = scanAlive true rest := if_pos rfl

theorem scanAlive_outside (hbegin : line ≠ "TETHRA_MUX_BEGIN") (hend : line ≠ "TETHRA_MUX_END") :
    scanAlive false (line :: rest) = scanAlive false rest := by
  rw [scanAlive, if_neg hbegin, if_neg hend, if_neg fun h => Bool.false_ne_true h.1]

theorem scanAlive_inside (hbegin : line ≠ "TETHRA_MUX_BEGIN") (hend : line ≠ "TETHRA_MUX_END") :
    scanAlive true (line :: rest) = true ↔ line = "alive=1" ∨ scanAlive true rest = true := by
  rw [scanAlive, if_neg hbegin, if_neg hend]
  by_cases hword : line = "alive=1"
  · rw [if_pos ⟨rfl, hword⟩]
    exact iff_of_true rfl (Or.inl hword)
  · rw [if_neg fun h => hword h.2]
    exact (or_iff_right hword).symm

theorem scanAlive_end (inBlock : Bool) : scanAlive inBlock ("TETHRA_MUX_END" :: rest) = false := by
  rw [scanAlive, if_neg (by decide), if_pos rfl]

end Scan

/-- Inside a block the word counts until the block ends. -/
theorem scanAlive_true_iff (text : List String) : scanAlive true text = true ↔
    (∃ block after, text = block ++ "alive=1" :: after ∧ "TETHRA_MUX_END" ∉ block) := by
  induction text with
  | nil => simp [scanAlive]
  | cons line rest ih =>
    have hcons : (∃ block after, line :: rest = block ++ "alive=1" :: after ∧
        "TETHRA_MUX_END" ∉ block) ↔ line = "alive=1" ∨ (line ≠ "TETHRA_MUX_END" ∧
          ∃ block after, rest = block ++ "alive=1" :: after ∧ "TETHRA_MUX_END" ∉ block) := by
      constructor
      · rintro ⟨block, after, heq, hend⟩
        cases block with
        | nil => exact Or.inl (List.cons.inj heq).1
        | cons first block =>
          obtain ⟨rfl, rfl⟩ := List.cons.inj heq
          rw [List.mem_cons, not_or] at hend
          exact Or.inr ⟨Ne.symm hend.1, block, after, rfl, hend.2⟩
      · rintro (rfl | ⟨hline, block, after, rfl, hend⟩)
        · exact ⟨[], rest, rfl, List.not_mem_nil⟩
        · exact ⟨line :: block, after, rfl, by simp [hend, Ne.symm hline]⟩
    rw [hcons]
    by_cases hbegin : line = "TETHRA_MUX_BEGIN"
    · subst hbegin
      rw [scanAlive_begin, ih]
      simp
    · by_cases hend : line = "TETHRA_MUX_END"
      · subst hend
        rw [scanAlive_end]
        simp
      · rw [scanAlive_inside hbegin hend, ih]
        simp [hend]

theorem scanAlive_iff (text : List String) : scanAlive false text = true ↔ SaysAlive text := by
  induction text with
  | nil => simp [scanAlive, SaysAlive]
  | cons line rest ih =>
    have hcons : SaysAlive (line :: rest) ↔
        (line = "TETHRA_MUX_BEGIN" ∧ scanAlive true rest = true) ∨
          (line ≠ "TETHRA_MUX_END" ∧ SaysAlive rest) := by
      rw [scanAlive_true_iff]
      constructor
      · rintro ⟨before, block, after, heq, hend⟩
        cases before with
        | nil =>
          obtain ⟨rfl, rfl⟩ := List.cons.inj heq
          exact Or.inl ⟨rfl, block, after, rfl, hend⟩
        | cons first before =>
          obtain ⟨rfl, rfl⟩ := List.cons.inj heq
          rw [List.cons_append, List.mem_cons, not_or] at hend
          exact Or.inr ⟨Ne.symm hend.1, before, block, after, rfl, hend.2⟩
      · rintro (⟨rfl, block, after, rfl, hend⟩ | ⟨hline, before, block, after, rfl, hend⟩)
        · exact ⟨[], block, after, rfl, hend⟩
        · refine ⟨line :: before, block, after, rfl, ?_⟩
          rw [List.cons_append, List.mem_cons, not_or]
          exact ⟨Ne.symm hline, hend⟩
    rw [hcons]
    by_cases hbegin : line = "TETHRA_MUX_BEGIN"
    · subst hbegin
      have hinside : SaysAlive rest → scanAlive true rest = true := by
        rw [scanAlive_true_iff]
        rintro ⟨before, block, after, rfl, hend⟩
        refine ⟨before ++ "TETHRA_MUX_BEGIN" :: block, after, by simp, ?_⟩
        simpa using hend
      rw [scanAlive_begin]
      constructor
      · exact fun h => Or.inl ⟨rfl, h⟩
      · rintro (⟨-, h⟩ | ⟨-, h⟩)
        · exact h
        · exact hinside h
    · by_cases hend : line = "TETHRA_MUX_END"
      · subst hend
        rw [scanAlive_end]
        simp
      · rw [scanAlive_outside hbegin hend, ih]
        simp [hbegin, hend]

/-! ## Ends on evidence -/

section Evidence
variable (x : Externals) (toLowercase : String → String) (key : VaultKey) (v : Vault)

/-- A live row of a running session, and what it holds. -/
structure Marker (row : ItemRow) (session : RunningSession) : Prop where
  get : v.db.getItem row.id = some row
  kind : row.kind = .runningSession
  live : row.deleted = false
  holds : Holds x key (runningSession x.texts) row session

/-- The output of the session's own probe. -/
def Replies (session : RunningSession) (text : List String) : Prop :=
  ∃ result, probe answers session.id session.hostId session.muxSession = .ok result ∧
    text = output result.stdout

/-- The probe said that the session is gone. -/
def Evidence (session : RunningSession) : Prop :=
  ∃ text, Replies answers session text ∧ Says "alive=0" text

/-- Only markers with evidence are other than they were. -/
def OnEvidence (t : Vault) : Prop :=
  ∀ id, t.db.getItem id ≠ v.db.getItem id →
    ∃ row session, row.id = id ∧ Marker x key v row session ∧ Evidence answers session

/-- If the probe printed anything, it is an answer. -/
def Settled (session : RunningSession) : Prop :=
  ∀ text, Replies answers session text → SaysAlive text ∨ Says "alive=0" text

/-- The markers can be read. -/
def Listable : Prop :=
  ∃ sessions t, (listRunningSessions x toLowercase).run v = (.ok sessions, t)

/-- The cipher seals every message. -/
def Seals : Prop :=
  ∀ k nonce message aad, ∃ ciphertext, x.aead.encrypt k nonce message aad = some ciphertext

/-- The record has a JSON text. -/
def Encodes (session : RunningSession) : Prop :=
  ∃ bytes, x.encode (runningSession x.texts) session = .ok bytes

/-- The vault answers, its markers can be read, and what was read of them can be written. -/
structure Answering : Prop where
  ready : Ready v
  listable : Listable x toLowercase v
  encodes : ∀ row session, Marker x key v row session → Encodes x session
  seals : Seals x

end Evidence

variable {answers : Answers} {x : Externals} {toLowercase : String → String} {key : VaultKey}
variable {v t u : Vault} {projects : List ProjectSummary} {hosts : List HostSummary}
variable {sessions : List RunningSessionSummary} {session : RunningSession} {row : ItemRow}

theorem Replies.unique {text text' : List String} (h : Replies answers session text)
    (h' : Replies answers session text') : text = text' := by
  obtain ⟨result, hprobe, rfl⟩ := h
  obtain ⟨result', hprobe', rfl⟩ := h'
  rw [hprobe, Except.ok.injEq] at hprobe'
  rw [hprobe']

theorem alive_iff {text : List String} (hreply : Replies answers session text) :
    alive answers (summarize projects hosts session) = true ↔ SaysAlive text := by
  obtain ⟨result, hprobe, rfl⟩ := hreply
  rw [← scanAlive_iff, alive]
  change (match probe answers session.id session.hostId session.muxSession with
    | .ok result => parseMuxAlive (fromUtf8Lossy result.stdout)
    | .error _ => true) = true ↔ _
  rw [hprobe]
  exact Iff.rfl

theorem alive_eq_false (h : alive answers (summarize projects hosts session) = false) :
    ∃ text, Replies answers session text ∧ ¬ SaysAlive text := by
  cases hprobe : probe answers session.id session.hostId session.muxSession with
  | error e =>
    have halive : alive answers (summarize projects hosts session) = true := by
      unfold alive
      change (match probe answers session.id session.hostId session.muxSession with
        | .ok result => parseMuxAlive (fromUtf8Lossy result.stdout)
        | .error _ => true) = true
      rw [hprobe]
    exact (Bool.false_ne_true (h.symm.trans halive)).elim
  | ok result =>
    have hreply : Replies answers session (output result.stdout) := ⟨result, hprobe, rfl⟩
    refine ⟨_, hreply, fun hsays => ?_⟩
    exact Bool.false_ne_true (h.symm.trans ((alive_iff hreply).2 hsays))

/-! ### The list -/

/-- The rows that were decoded, each with its record. -/
theorem decodeRows_ok {α : Type} {f : Format α} {listed : List ItemRow} {records : List α}
    (h : decodeRows x f key listed = .ok records) :
    ∃ entries : List (ItemRow × α), listed = entries.map Prod.fst ∧
      records = entries.map Prod.snd ∧ ∀ e ∈ entries, Holds x key f e.1 e.2 := by
  induction listed generalizing records with
  | nil =>
    cases h
    exact ⟨[], rfl, rfl, fun e he => (by cases he)⟩
  | cons row listed ih =>
    rw [decodeRows] at h
    cases hplain : decryptItem x.aead key row.id row.version row.blob with
    | error e => rw [hplain] at h; cases h
    | ok plaintext =>
      rw [hplain] at h
      change (x.decode f plaintext >>= _) = _ at h
      cases hrecord : x.decode f plaintext with
      | error e => rw [hrecord] at h; cases h
      | ok record =>
        rw [hrecord] at h
        change (decodeRows x f key listed >>= _) = _ at h
        cases hrest : decodeRows x f key listed with
        | error e => rw [hrest] at h; cases h
        | ok rest =>
          rw [hrest] at h
          cases h
          obtain ⟨entries, rfl, rfl, hentries⟩ := ih hrest
          refine ⟨(row, record) :: entries, rfl, rfl, ?_⟩
          rw [List.forall_mem_cons]
          exact ⟨⟨plaintext, hplain, hrecord⟩, hentries⟩

theorem nodup_listItems (db : VaultDb) (kind : ItemKind) (includeDeleted : Bool) :
    ((db.listItems kind includeDeleted).map ItemRow.id).Nodup := by
  rw [VaultDb.listItems, ((List.perm_insertionSort _ _).map _).nodup_iff]
  exact db.items.nodup.sublist (List.filter_sublist.map _)

/-- The summaries are of the markers, one for each. -/
structure Lists (x : Externals) (key : VaultKey) (v : Vault)
    (sessions : List RunningSessionSummary) : Prop where
  sound : ∀ s ∈ sessions, ∃ row session projects hosts, Marker x key v row session ∧
    s = summarize projects hosts session
  complete : ∀ row session, Marker x key v row session →
    ∃ projects hosts, summarize projects hosts session ∈ sessions
  nodup : Proper x key v → (sessions.map RunningSessionSummary.id).Nodup

theorem lists_of_run (hv : Keyed key v)
    (h : (listRunningSessions x toLowercase).run v = (.ok sessions, t)) :
    Lists x key v sessions ∧ Same key v t := by
  have hsame : (listRunningSessions x toLowercase).run.Ends _ v :=
    ends_idle (each_listRunningSessions reading_idles toLowercase) hv
  rw [Action.Ends, h] at hsame
  refine ⟨?_, hsame⟩
  obtain ⟨k, v₁, hk, h⟩ := Program.run_bind_eq_ok.1 h
  obtain ⟨rfl, hcalm⟩ := RepositoryRuns.key_ok hv hk
  obtain ⟨listed, v₂, hlisted, h⟩ := Program.run_bind_eq_ok.1 h
  obtain ⟨hrows, -⟩ := RepositoryRuns.query_ok hcalm.keyed hlisted
  obtain ⟨projects, v₃, -, h⟩ := Program.run_bind_eq_ok.1 h
  obtain ⟨hosts, v₄, -, h⟩ := Program.run_bind_eq_ok.1 h
  obtain ⟨records, v₅, hrecords, h⟩ := Program.run_bind_eq_ok.1 h
  obtain ⟨hdecoded, -⟩ := RepositoryRuns.computed_ok hrecords
  obtain ⟨rfl, -⟩ := RepositoryRuns.pure_ok h
  have hmem : ∀ row, row ∈ listed ↔ v.db.getItem row.id = some row ∧
      row.kind = .runningSession ∧ row.deleted = false := by
    intro row
    rw [← Except.ok.inj hrows, VaultDb.mem_listItems, hcalm.rows]
    simp
  have hrowids : (listed.map ItemRow.id).Nodup := by
    rw [← Except.ok.inj hrows]
    exact nodup_listItems _ _ _
  obtain ⟨entries, rfl, rfl, hentries⟩ := decodeRows_ok hdecoded
  refine ⟨fun s hs => ?_, fun row session hmarker => ⟨projects, hosts, ?_⟩, fun hproper => ?_⟩
  · rw [List.mem_insertionSort, List.mem_map] at hs
    obtain ⟨session, hsession, rfl⟩ := hs
    obtain ⟨entry, hentry, rfl⟩ := List.mem_map.1 hsession
    obtain ⟨hget, hkind, hlive⟩ := (hmem entry.1).1 (List.mem_map_of_mem hentry)
    exact ⟨entry.1, entry.2, projects, hosts, ⟨hget, hkind, hlive, hentries entry hentry⟩, rfl⟩
  · obtain ⟨entry, hentry, rfl⟩ :=
      List.mem_map.1 ((hmem row).2 ⟨hmarker.get, hmarker.kind, hmarker.live⟩)
    rw [Holds.unique hmarker.holds (hentries entry hentry), List.mem_insertionSort]
    exact List.mem_map_of_mem (List.mem_map_of_mem hentry)
  · have hids : entries.map (fun e => e.2.id) = entries.map (fun e => e.1.id) := by
      refine List.map_congr_left fun e he => ?_
      obtain ⟨hget, hkind, -⟩ := (hmem e.1).1 (List.mem_map_of_mem he)
      exact hproper _ _ _ hget hkind (hentries e he)
    rw [((List.perm_insertionSort _ _).map _).nodup_iff, List.map_map, List.map_map]
    change (entries.map fun e => e.2.id).Nodup
    rw [hids]
    rwa [List.map_map] at hrowids

/-! ### The loop -/

/-- What pruning has made of `v` so far. -/
structure Pruned (answers : Answers) (x : Externals) (key : VaultKey) (v t : Vault) : Prop where
  keyed : Keyed key t
  proper : Proper x key t
  evidence : OnEvidence answers x key v t

/-- A session that is ended leaves one row other than it was. -/
theorem ends_end (hc : x.aead.Correct) (hv : Keyed key v) (hproper : Proper x key v) (id : Uuid) :
    (endRunningSession x id).run.Ends (fun r t => Keyed key t ∧ Proper x key t ∧
      (∀ i, i ≠ id → t.db.getItem i = v.db.getItem i) ∧
      (r = .ok () → ∃ w, t.db.getItem id = some w ∧ w.deleted = true)) v := by
  obtain ⟨hkeyed, ⟨hne, hrows⟩ | ⟨old, w, hold, hends, hafter⟩⟩ :=
    ends_endRunningSession hc hv hproper id
  · refine ⟨hkeyed, fun i row session hrow => ?_, fun i _ => hrows i, fun h => (hne h).elim⟩
    rw [hrows] at hrow
    exact hproper i row session hrow
  · have hid : w.id = id := (VaultDb.getItem_id hends.row).symm.trans (VaultDb.getItem_id hold)
    have hget : ∀ i, (((endRunningSession x id).run v).2).db.getItem i =
        if i = id then some w else v.db.getItem i := by
      intro i
      rw [hafter i, ← hid]
      exact VaultDb.getItem_upsertItem v.db w i
    refine ⟨hkeyed, fun i row session hrow hkind hholds => ?_, fun i hi => ?_,
      fun _ => ⟨w, ?_, hends.deleted⟩⟩
    · rw [hget] at hrow
      split at hrow
      · cases hrow
        obtain ⟨other, hother⟩ := hends.session
        rw [Holds.unique hholds hother.holds]
        exact hother.id
      · exact hproper i row session hrow hkind hholds
    · rw [hget, if_neg hi]
    · rw [hget, if_pos rfl]

theorem ends_prune (hc : x.aead.Correct) (hproper : Proper x key v)
    (hsessions : ∀ s ∈ sessions, ∃ row session projects hosts, Marker x key v row session ∧
      s = summarize projects hosts session ∧ Settled answers session)
    (ht : Pruned answers x key v t) (n : ℕ) :
    (prune answers x n sessions).run.Ends (fun _ u => Pruned answers x key v u) t := by
  induction sessions generalizing n t with
  | nil => exact ht
  | cons s rest ih =>
    rw [List.forall_mem_cons] at hsessions
    obtain ⟨⟨row, session, projects, hosts, hmarker, rfl, hsettled⟩, hrest⟩ := hsessions
    rw [prune]
    split
    · exact ih hrest ht n
    · rename_i hgone
      have hevidence : Evidence answers session := by
        obtain ⟨text, hreply, hsays⟩ := alive_eq_false (Bool.eq_false_iff.2 hgone)
        exact ⟨text, hreply, (hsettled text hreply).resolve_left hsays⟩
      have hid : session.id = row.id := hproper _ _ _ hmarker.get hmarker.kind hmarker.holds
      -- Whether or not the end succeeds, only the session's own row may differ.
      have hstep : ∀ u, Keyed key u → Proper x key u →
          (∀ i, i ≠ session.id → u.db.getItem i = t.db.getItem i) →
          Pruned answers x key v u := by
        intro u hkeyed hu hrows
        refine ⟨hkeyed, hu, fun i hi => ?_⟩
        by_cases heq : i = session.id
        · exact ⟨row, session, hid.symm.trans heq.symm, hmarker, hevidence⟩
        · rw [hrows i heq] at hi
          exact ht.evidence i hi
      exact ends_bind (ends_end hc ht.keyed ht.proper session.id)
        (fun _ u h => ih hrest (hstep u h.1 h.2.1 h.2.2.1) (n + 1))
        fun _ u h => hstep u h.1 h.2.1 h.2.2.1

/-- Markers that are all settled are ended on evidence only. -/
theorem onEvidence_of_settled (hc : x.aead.Correct) (hv : Keyed key v) (hproper : Proper x key v)
    (hsettled : ∀ row session, Marker x key v row session → Settled answers session) :
    OnEvidence answers x key v ((pruneStaleRunningSessions answers x toLowercase).run v).2 := by
  have hpruned : (pruneStaleRunningSessions answers x toLowercase).run.Ends
      (fun _ u => Pruned answers x key v u) v := by
    have hsame : ∀ u, Same key v u → Pruned answers x key v u := by
      refine fun u h => ⟨h.keyed, fun i row session hrow => ?_, fun i hi => (hi (h.rows i)).elim⟩
      rw [h.rows] at hrow
      exact hproper i row session hrow
    have hlist : (listRunningSessions x toLowercase).run.Ends (fun r t => Same key v t ∧
        ∀ sessions, r = .ok sessions → Lists x key v sessions) v := by
      refine ⟨ends_idle (each_listRunningSessions reading_idles toLowercase) hv, fun l h => ?_⟩
      exact (lists_of_run hv (Prod.ext h rfl)).1
    refine ends_bind hlist (fun sessions t h => ?_) fun e t h => hsame t h.1
    refine ends_prune hc hproper (fun s hs => ?_) (hsame t h.1) 0
    obtain ⟨row, session, projects, hosts, hmarker, rfl⟩ := (h.2 sessions rfl).sound s hs
    exact ⟨row, session, projects, hosts, hmarker, rfl, hsettled row session hmarker⟩
  exact hpruned.evidence

/-! ### A vault in which nothing fails -/

section Ready
variable {α β : Type} {Q : Except Error β → Vault → Prop}

theorem ready_key {f : VaultKey → RepositoryM β} (hv : Ready v) (hkey : Keyed key v)
    (h : ∀ t, Ready t → Same key v t → (f key).run.Ends Q t) :
    (Program.lift requireKey >>= f).run.Ends Q v := by
  obtain ⟨vaultKey, authKey, hrun, hready⟩ := hv.requireKey
  obtain ⟨rfl, -⟩ := requireKey_ok hkey hrun
  rw [Program.run_bind, Program.run_lift, Action.Ends, Action.bind_ok hrun]
  refine h _ hready ⟨fun _ => rfl, fun k auth t hstate => ?_⟩
  cases hstate
  rfl

theorem ready_db {g : VaultDb → Except Error α} {a : α} {f : α → RepositoryM β} (hv : Ready v)
    (hkey : Keyed key v) (hg : g v.db = .ok a)
    (h : ∀ t, Ready t → Same key v t → (f a).run.Ends Q t) :
    (Program.lift (withDb g) >>= f).run.Ends Q v := by
  rw [Program.run_bind, Program.run_lift, Action.Ends, Action.bind_ok (hv.withDb hg)]
  exact h _ (hv.drawn _) ⟨fun _ => rfl, hkey⟩

theorem ready_put (hseals : Seals x) (hencodes : Encodes x session) {id : Uuid}
    {version : UInt64} {deleted : Bool} (hv : Ready v) (hkey : Keyed key v) :
    (putRunningSession x id version deleted session).run.Ends (fun r _ => r = .ok ()) v := by
  obtain ⟨bytes, hplain⟩ := hencodes
  unfold putRunningSession putEncryptedJson
  refine ready_key hv hkey fun t ht hsame => ?_
  rw [Action.Ends, RepositoryRuns.run_computed hplain]
  obtain ⟨ciphertext, hciphertext⟩ := hseals key.expose (t.world.nonceAt t.world.draws).1 bytes
    (itemAad id version)
  have hblob : encryptItem x.aead key (t.world.nonceAt t.world.draws) id version bytes =
      .ok ⟨(t.world.nonceAt t.world.draws).1, ciphertext⟩ := by
    rw [encryptItem, encryptRaw, hciphertext]
  change (Program.run (Program.lift (Action.ofExcept (encryptItem x.aead key
    (t.world.nonceAt t.world.draws) id version bytes)) >>= _)
    { t with world.draws := t.world.draws + 1 }).1 = _
  rw [RepositoryRuns.run_computed hblob]
  simp only [Program.run_bind, Program.run_lift]
  exact congrArg Prod.fst ((ht.drawn (t.world.draws + 1)).withDbMut _)

/-- A marker can be ended. -/
theorem ready_end (hseals : Seals x) (hencodes : Encodes x session) (hv : Ready v)
    (hkey : Keyed key v) (hmarker : Marker x key v row session) :
    (endRunningSession x row.id).run.Ends (fun r _ => r = .ok ()) v := by
  obtain ⟨plaintext, hplain, hrecord⟩ := hmarker.holds
  have hget : (getEncryptedJson x (runningSession x.texts) row.id).run.Ends
      (fun r t => r = .ok (session, row) ∧ Ready t ∧ Keyed key t) v := by
    unfold getEncryptedJson
    refine ready_key hv hkey fun t ht hsame => ?_
    refine ready_db (a := some row) ht hsame.keyed ?_ fun u hu hsame' => ?_
    · rw [hsame.rows, hmarker.get]
    · dsimp only
      rw [if_neg (by simp [hmarker.live]), Action.Ends, RepositoryRuns.run_computed hplain,
        RepositoryRuns.run_computed hrecord]
      exact ⟨rfl, hu, hsame'.keyed⟩
  unfold endRunningSession
  refine ends_bind hget (fun found t h => ?_) fun e t h => (by cases h.1)
  obtain ⟨hfound, ht, hkeyed⟩ := h
  cases hfound
  dsimp only
  rw [checkKind, if_pos hmarker.kind]
  exact ready_put hseals hencodes ht hkeyed

/-- Each session whose probe is no "alive" is ended, and the others are left. -/
theorem ready_prune (hc : x.aead.Correct) (hseals : Seals x)
    (hnodup : (sessions.map RunningSessionSummary.id).Nodup)
    (hsessions : ∀ s ∈ sessions, ∃ row session projects hosts, Marker x key v row session ∧
      s = summarize projects hosts session ∧ Encodes x session)
    (hv : Ready v) (hkey : Keyed key v) (hproper : Proper x key v) (n : ℕ) :
    (prune answers x n sessions).run.Ends (fun _ u =>
      (∀ s ∈ sessions, alive answers s = false →
        ∃ w, u.db.getItem s.id = some w ∧ w.deleted = true) ∧
      ∀ i, i ∉ sessions.map RunningSessionSummary.id → u.db.getItem i = v.db.getItem i) v := by
  induction sessions generalizing n v with
  | nil => exact ⟨fun s hs => (by cases hs), fun i _ => rfl⟩
  | cons s rest ih =>
    rw [List.forall_mem_cons] at hsessions
    obtain ⟨⟨row, session, projects, hosts, hmarker, hs, hencodes⟩, hrest⟩ := hsessions
    rw [List.map_cons, List.nodup_cons] at hnodup
    have hid : s.id = row.id := by
      rw [hs]
      exact hproper _ _ _ hmarker.get hmarker.kind hmarker.holds
    rw [prune]
    split
    · rename_i halive
      obtain ⟨hended, hleft⟩ := ih hnodup.2 hrest hv hkey hproper n
      refine ⟨?_, fun i hi => ?_⟩
      · rw [List.forall_mem_cons]
        exact ⟨fun h => (Bool.false_ne_true (h.symm.trans halive)).elim, hended⟩
      · rw [List.map_cons, List.mem_cons, not_or] at hi
        exact hleft i hi.2
    · have hok := ready_end hseals hencodes hv hkey hmarker
      rw [← hid] at hok
      have hready := ((Program.Yields.of_each
        (SessionFleets.working_ready.endRunningSession (x := x) s.id)).run hv).1
      have hends : (endRunningSession x s.id).run.Ends (fun r t => r = .ok () ∧ Ready t ∧
          Keyed key t ∧ Proper x key t ∧ (∀ i, i ≠ s.id → t.db.getItem i = v.db.getItem i) ∧
          ∃ w, t.db.getItem s.id = some w ∧ w.deleted = true) v := by
        obtain ⟨hkeyed, hpropert, hsame, hdone⟩ := ends_end hc hkey hproper s.id
        exact ⟨hok, hready, hkeyed, hpropert, hsame, hdone hok⟩
      refine ends_bind hends (fun _ t h => ?_) fun e t h => (by cases h.1)
      obtain ⟨-, ht, hkeyed, hpropert, hsame, w, hw, hdeleted⟩ := h
      have hmarkers : ∀ s' ∈ rest, ∃ row session projects hosts, Marker x key t row session ∧
          s' = summarize projects hosts session ∧ Encodes x session := by
        intro s' hs'
        obtain ⟨row', session', projects', hosts', hmarker', rfl, hencodes'⟩ := hrest s' hs'
        have hid' : session'.id = row'.id :=
          hproper _ _ _ hmarker'.get hmarker'.kind hmarker'.holds
        have hne : row'.id ≠ s.id := by
          rw [← hid']
          intro heq
          exact hnodup.1 (heq ▸ List.mem_map_of_mem hs')
        refine ⟨row', session', projects', hosts', { hmarker' with get := ?_ }, rfl, hencodes'⟩
        rw [hsame _ hne]
        exact hmarker'.get
      obtain ⟨hended, hleft⟩ := ih hnodup.2 hmarkers ht hkeyed hpropert (n + 1)
      refine ⟨?_, fun i hi => ?_⟩
      · rw [List.forall_mem_cons]
        refine ⟨fun _ => ⟨w, ?_, hdeleted⟩, hended⟩
        rw [hleft _ hnodup.1]
        exact hw
      · rw [List.map_cons, List.mem_cons, not_or] at hi
        rw [hleft i hi.2, hsame i hi.1]

end Ready

/-- Markers are settled where pruning ends them on evidence only. -/
theorem settled_of_onEvidence (hc : x.aead.Correct) (hkey : Keyed key v) (hproper : Proper x key v)
    (hv : Answering x toLowercase key v)
    (h : OnEvidence answers x key v ((pruneStaleRunningSessions answers x toLowercase).run v).2)
    (hmarker : Marker x key v row session) : Settled answers session := by
  intro text hreply
  by_contra hneither
  rw [not_or] at hneither
  obtain ⟨sessions, t, hrun⟩ := hv.listable
  obtain ⟨hlists, hsame⟩ := lists_of_run hkey hrun
  obtain ⟨projects, hosts, hmem⟩ := hlists.complete row session hmarker
  have hready : Ready t := by
    have hkeeps := ((Program.Yields.of_each (each_listRunningSessions
      SessionFleets.working_ready.toReading (x := x) toLowercase)).run hv.ready).1
    rwa [hrun] at hkeeps
  have hmarkers : ∀ s ∈ sessions, ∃ row session projects hosts, Marker x key t row session ∧
      s = summarize projects hosts session ∧ Encodes x session := by
    intro s hs
    obtain ⟨row, session, projects, hosts, hm, rfl⟩ := hlists.sound s hs
    refine ⟨row, session, projects, hosts, { hm with get := ?_ }, rfl, hv.encodes row session hm⟩
    rw [hsame.rows]
    exact hm.get
  have hpropert : Proper x key t := fun i row session hrow =>
    hproper i row session ((hsame.rows i).symm.trans hrow)
  have hrest : (pruneStaleRunningSessions answers x toLowercase).run v =
      (prune answers x 0 sessions).run t := by
    rw [pruneStaleRunningSessions, Program.run_bind, Action.bind_ok hrun]
  have hprune : (prune answers x 0 sessions).run.Ends _ t :=
    ready_prune hc hv.seals (hlists.nodup hproper) hmarkers hready hsame.keyed hpropert 0
  have hended := hprune.1
  have hgone : alive answers (summarize projects hosts session) = false :=
    Bool.eq_false_iff.2 fun halive => hneither.1 ((alive_iff hreply).1 halive)
  obtain ⟨w, hw, hdeleted⟩ := hended _ hmem hgone
  rw [← hrest] at hw
  have hid : session.id = row.id := hproper _ _ _ hmarker.get hmarker.kind hmarker.holds
  have hne : ((pruneStaleRunningSessions answers x toLowercase).run v).2.db.getItem session.id ≠
      v.db.getItem session.id := by
    intro heq
    rw [hid, hmarker.get, ← hid] at heq
    cases heq.symm.trans hw
    exact Bool.false_ne_true (hmarker.live.symm.trans hdeleted)
  obtain ⟨row', session', hrow', hmarker', text', hreply', hsays⟩ := h session.id hne
  have hrows : row' = row := by
    have hget := hmarker'.get
    rw [hrow', hid, hmarker.get] at hget
    exact (Option.some.inj hget).symm
  subst hrows
  obtain rfl := Holds.unique hmarker.holds hmarker'.holds
  obtain rfl := hreply.unique hreply'
  exact hneither.2 hsays

/-- Only markers with evidence are ended, exactly when each probe that printed anything printed
an answer: `alive=1` in a block before any block ends, or `alive=0` in a block. Where the
vault does not answer, fewer markers are ended. -/
theorem ended_iff (hc : x.aead.Correct) (hkey : Keyed key v) (hproper : Proper x key v) :
    ((∀ row session, Marker x key v row session → Settled answers session) →
      OnEvidence answers x key v ((pruneStaleRunningSessions answers x toLowercase).run v).2) ∧
    (Answering x toLowercase key v →
      (OnEvidence answers x key v ((pruneStaleRunningSessions answers x toLowercase).run v).2 ↔
        ∀ row session, Marker x key v row session → Settled answers session)) := by
  have henough : (∀ row session, Marker x key v row session → Settled answers session) →
      OnEvidence answers x key v ((pruneStaleRunningSessions answers x toLowercase).run v).2 :=
    onEvidence_of_settled hc hkey hproper
  exact ⟨henough, fun hv => ⟨fun h row session hmarker =>
    settled_of_onEvidence hc hkey hproper hv h hmarker, henough⟩⟩

/-! ## A host that prints nothing -/

section Samples
open SessionFleets (deviceName marked marked_open marked_row sampleExternals sampleProject)
open SessionFleets (sessionId)
open SecretFleets (sampleKey)

/-- Every command ends without output. -/
def mute : Answers where
  approve _ _ _ := .ok ()
  exec _ _ _ := .ok ⟨[], [], 255⟩

def markedSession : RunningSession :=
  .start 0 (sessionId true) sampleProject sampleProject none (deviceName true)

theorem marked_session {i : Uuid} {row : ItemRow} {session : RunningSession}
    (hrow : (marked true).db.getItem i = some row)
    (hholds : Holds sampleExternals sampleKey (runningSession sampleExternals.texts) row session) :
    row.id = sessionId true ∧ session = markedSession := by
  obtain ⟨w, -, -, -, hrows⟩ := marked_row true
  have hid : i = sessionId true := by
    by_contra hne
    rw [hrows, if_neg hne] at hrow
    cases hrow
  subst hid
  refine ⟨VaultDb.getItem_id hrow, ?_⟩
  have hread : ((marked true).db.getItem (sessionId true)).bind (HostPasswords.readAs
      sampleExternals (runningSession sampleExternals.texts)) = some markedSession := by
    decide +kernel
  rw [hrow] at hread
  exact Holds.unique hholds (HostPasswords.holds_readAs hread)

theorem marked_keyed : Keyed sampleKey (marked true) := by
  have hproper : Proper sampleExternals sampleKey (SessionFleets.sampleFleet.devices true).vault :=
    fun i row session hrow => (by cases hrow)
  exact (does_operation (transparent_correct KEY_LEN) id (SessionFleets.sampleFleet_keyed true)
    hproper (.markProjectRunning sampleProject sampleProject none (deviceName true))).1

theorem marked_proper : Proper sampleExternals sampleKey (marked true) := by
  intro i row session hrow hkind hholds
  obtain ⟨hid, rfl⟩ := marked_session hrow hholds
  exact hid.symm

theorem marked_answering : Answering sampleExternals id sampleKey (marked true) where
  ready := (marked_open true).1
  listable := by
    have hok : ((listRunningSessions sampleExternals id).run (marked true)).1.isOk = true := by
      decide +kernel
    rcases hrun : (listRunningSessions sampleExternals id).run (marked true) with ⟨e | sessions, t⟩
    · rw [hrun] at hok
      cases hok
    · exact ⟨sessions, t, hrun⟩
  encodes row session h := by
    obtain ⟨-, rfl⟩ := marked_session h.get h.holds
    exact ⟨SessionFleets.sessionText true, by decide +kernel⟩
  seals k nonce message aad := ⟨_, rfl⟩

theorem mute_not_says {session : RunningSession} {text : List String}
    (h : Replies mute session text) (word : String) : ¬ Says word text := by
  obtain ⟨result, hprobe, rfl⟩ := h
  cases hprobe
  rintro ⟨before, block, after, heq, -⟩
  have hnil : output [] = [] := by decide +kernel
  rw [hnil] at heq
  simp at heq

/-- A banner, and a block that says that the session is gone. -/
def gone : Answers where
  approve _ _ _ := .ok ()
  exec _ _ _ :=
    .ok ⟨"motd\r\nTETHRA_MUX_BEGIN\nalive=0\nTETHRA_MUX_END\n".toUTF8.data.toList, [], 0⟩

/-- With evidence the marker of the vault may be ended, and without any it is not left. -/
theorem ended_sample :
    OnEvidence gone sampleExternals sampleKey (marked true)
      ((pruneStaleRunningSessions gone sampleExternals id).run (marked true)).2 ∧
    ¬ OnEvidence mute sampleExternals sampleKey (marked true)
      ((pruneStaleRunningSessions mute sampleExternals id).run (marked true)).2 := by
  have hiff := fun answers => @ended_iff answers sampleExternals id sampleKey (marked true)
    (transparent_correct KEY_LEN) marked_keyed marked_proper
  refine ⟨(hiff gone).1 fun row session _ text hreply => Or.inr ?_, fun h => ?_⟩
  · obtain ⟨result, hprobe, rfl⟩ := hreply
    cases hprobe
    exact ⟨["motd"], [], ["TETHRA_MUX_END"], by decide +kernel, List.not_mem_nil⟩
  · obtain ⟨w, hwid, -, ⟨hkind, hlive, session, hholds, -⟩, hrows⟩ := marked_row true
    have hget : (marked true).db.getItem w.id = some w := by rw [hrows, if_pos hwid]
    have hsettled := ((hiff mute).2 marked_answering).1 h w session ⟨hget, hkind, hlive, hholds⟩
    have hreply : Replies mute session (output []) := ⟨_, rfl, rfl⟩
    obtain ⟨before, block, after, heq, hend⟩ | hsays := hsettled _ hreply
    · rw [List.mem_append, not_or] at hend
      exact mute_not_says hreply "alive=1" ⟨before, block, after, heq, hend.2⟩
    · exact mute_not_says hreply "alive=0" hsays

/-- The only marker of a vault is ended although its host printed nothing. -/
theorem ended_fails :
    ¬ ∀ (answers : Answers) (x : Externals) (key : VaultKey) (v : Vault), x.aead.Correct →
      Keyed key v → Proper x key v →
      OnEvidence answers x key v ((pruneStaleRunningSessions answers x id).run v).2 := by
  intro hall
  have h := hall mute sampleExternals sampleKey (marked true) (transparent_correct KEY_LEN)
    marked_keyed marked_proper (sessionId true)
  have hlive : ((marked true).db.getItem (sessionId true)).map ItemRow.deleted = some false := by
    decide +kernel
  have hended : (((pruneStaleRunningSessions mute sampleExternals id).run
      (marked true)).2.db.getItem (sessionId true)).map ItemRow.deleted = some true := by
    decide +kernel
  obtain ⟨row, session, -, -, text, hreply, hsays⟩ := h fun heq => by
    rw [heq, hlive] at hended
    cases hended
  exact mute_not_says hreply _ hsays

end Samples

end Tethra.StaleMarkers
