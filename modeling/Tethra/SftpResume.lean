import Tethra.SftpTransfers

set_option autoImplicit false

/-!
# Pause and resume

A transfer may be stopped and taken up again as long as its offset is no more than what
the target holds of the source. Downloads keep to this at every pause. An upload's offset
after a pause is the length of its source, whatever was sent.
-/
namespace Tethra.SftpResume
open RandomAccessFiles SftpTransfers

/-- Neither transfer writes a file of the other. -/
structure Apart (r s : Route) : Prop where
  targets : r.target ≠ s.target
  left : r.target ≠ s.source
  right : s.target ≠ r.source

theorem Apart.symm {r s : Route} (h : Apart r s) : Apart s r := ⟨h.targets.symm, h.right, h.left⟩

def Holding (files : Files) (r : Route) (count : ℕ) : Prop :=
  ∃ source target, files r.source = some source ∧ files r.target = some target ∧
    Copied source target count

def Complete (files : Files) (r : Route) : Prop :=
  ∃ bytes, files r.source = some bytes ∧ files r.target = some bytes

theorem Holding.mono {files : Files} {r : Route} {m n : ℕ} (h : Holding files r n) (hm : m ≤ n) :
    Holding files r m := by
  obtain ⟨source, target, hs, ht, hc⟩ := h
  exact ⟨source, target, hs, ht, hc.mono hm⟩

theorem Holding.complete {files : Files} {r : Route} {n : ℕ} (h : Holding files r n)
    (hn : (content files r.source).length ≤ n) : Complete files r := by
  obtain ⟨source, target, hs, ht, hc⟩ := h
  rw [content, hs] at hn
  exact ⟨source, hs, by rw [ht, hc.eq_source hn]⟩

/-- Two states of the files that agree on the two of a transfer. -/
def Agree (files files' : Files) (r : Route) : Prop :=
  files' r.source = files r.source ∧ files' r.target = files r.target

theorem Holding.frame {files files' : Files} {r : Route} {n : ℕ} (h : Holding files r n)
    (ha : Agree files files' r) : Holding files' r n := by
  obtain ⟨source, target, hs, ht, hc⟩ := h
  exact ⟨source, target, ha.1.trans hs, ha.2.trans ht, hc⟩

theorem Complete.frame {files files' : Files} {r : Route} (h : Complete files r)
    (ha : Agree files files' r) : Complete files' r := by
  obtain ⟨bytes, hs, ht⟩ := h
  exact ⟨bytes, ha.1.trans hs, ha.2.trans ht⟩

theorem agree_update {files : Files} {place : Place} {bytes : Option (List UInt8)} {r : Route}
    (hs : r.source ≠ place) (ht : r.target ≠ place) :
    Agree files (Function.update files place bytes) r :=
  ⟨Function.update_of_ne hs _ _, Function.update_of_ne ht _ _⟩

/-- What is known of an item of the queue by itself. -/
structure ItemSound (files : Files) (i : TransferItem) : Prop where
  offset : 0 < i.offset → Holding files i.route i.offset
  completed : i.status = .completed → Complete files i.route

theorem ItemSound.frame {files files' : Files} {i : TransferItem} (h : ItemSound files i)
    (ha : Agree files files' i.route) : ItemSound files' i :=
  ⟨fun hi => (h.offset hi).frame ha, fun hi => (h.completed hi).frame ha⟩

def ActiveSound (files : Files) (a : Active) : Prop :=
  match a.phase with
  | .starting => 0 < a.offset → Holding files a.route a.offset
  | .copying position => a.offset ≤ position ∧ Holding files a.route position
  | .ended _ => True

theorem ActiveSound.frame {files files' : Files} {a : Active} (h : ActiveSound files a)
    (ha : Agree files files' a.route) : ActiveSound files' a := by
  unfold ActiveSound at h ⊢
  cases hp : a.phase with
  | starting =>
    rw [hp] at h
    exact fun ho => (h ho).frame ha
  | copying position =>
    rw [hp] at h
    exact ⟨h.1, h.2.frame ha⟩
  | ended result => trivial

/-- What the item of the active transfer may look like. -/
def InStep (a : Active) (i : TransferItem) : Prop :=
  match a.phase with
  | .ended _ => i.status ≠ .running
  | _ => i.offset = a.offset ∧ i.status ≠ .completed

structure Follows (a : Active) (i : TransferItem) : Prop where
  same : i.id = a.id → i.route = a.route ∧ InStep a i
  other : i.id ≠ a.id → Apart i.route a.route

structure Sound (x : Runner) : Prop where
  ids : (x.items.map TransferItem.id).Nodup
  apart : ∀ i ∈ x.items, ∀ j ∈ x.items, i.id ≠ j.id → Apart i.route j.route
  items : ∀ i ∈ x.items, ItemSound x.files i
  active : ∀ a, x.active = some a → ActiveSound x.files a
  follows : ∀ a, x.active = some a → ∀ i ∈ x.items, Follows a i

theorem mem_modifyItem {id : String} {f : TransferItem → TransferItem} {items : List TransferItem}
    {i : TransferItem} (h : i ∈ modifyItem id f items) :
    (i ∈ items ∧ i.id ≠ id) ∨ ∃ j ∈ items, j.id = id ∧ i = f j := by
  obtain ⟨j, hj, hi⟩ := List.mem_map.mp h
  by_cases hid : j.id = id
  · rw [if_pos hid] at hi
    exact Or.inr ⟨j, hj, hid, hi.symm⟩
  · rw [if_neg hid] at hi
    exact Or.inl ⟨hi ▸ hj, hi ▸ hid⟩

/-- An update of an item that leaves it the same transfer. -/
def KeepsRoute (f : TransferItem → TransferItem) : Prop :=
  ∀ i, (f i).id = i.id ∧ (f i).route = i.route

theorem modifyItem_ids {f : TransferItem → TransferItem} (hf : KeepsRoute f) (id : String)
    (items : List TransferItem) :
    (modifyItem id f items).map TransferItem.id = items.map TransferItem.id := by
  rw [modifyItem, List.map_map]
  refine List.map_congr_left fun i _ => ?_
  change (if i.id = id then f i else i).id = i.id
  by_cases hid : i.id = id
  · rw [if_pos hid, (hf i).1]
  · rw [if_neg hid]

theorem mem_modifyItem_kept {f : TransferItem → TransferItem} (hf : KeepsRoute f) {id : String}
    {items : List TransferItem} {i : TransferItem} (h : i ∈ modifyItem id f items) :
    ∃ j ∈ items, i.id = j.id ∧ i.route = j.route := by
  obtain ⟨hi, -⟩ | ⟨j, hj, -, rfl⟩ := mem_modifyItem h
  · exact ⟨i, hi, rfl, rfl⟩
  · exact ⟨j, hj, hf j⟩

theorem Sound.modify {x : Runner} (hx : Sound x) {id : String} {f : TransferItem → TransferItem}
    (hf : KeepsRoute f)
    (hi : ∀ i ∈ x.items, i.id = id → ItemSound x.files (f i))
    (ha : ∀ a, x.active = some a → a.id = id → ∀ i ∈ x.items, i.id = id → InStep a (f i)) :
    Sound { x with items := modifyItem id f x.items } where
  ids := by
    change (List.map TransferItem.id (modifyItem id f x.items)).Nodup
    rw [modifyItem_ids hf]
    exact hx.ids
  apart := by
    intro i hi j hj hne
    obtain ⟨i', hi', hid, hroute⟩ := mem_modifyItem_kept hf hi
    obtain ⟨j', hj', hjd, hjroute⟩ := mem_modifyItem_kept hf hj
    rw [hroute, hjroute]
    exact hx.apart i' hi' j' hj' (by rwa [← hid, ← hjd])
  items := by
    intro i hm
    obtain ⟨hold, -⟩ | ⟨j, hj, hid, rfl⟩ := mem_modifyItem hm
    · exact hx.items i hold
    · exact hi j hj hid
  active := hx.active
  follows := by
    intro a hact i hm
    obtain ⟨hold, -⟩ | ⟨j, hj, hid, rfl⟩ := mem_modifyItem hm
    · exact hx.follows a hact i hold
    · have hfollows := hx.follows a hact j hj
      refine ⟨fun h => ?_, fun h => ?_⟩
      · rw [(hf j).1] at h
        exact ⟨(hf j).2.trans (hfollows.same h).1, ha a hact (h.symm.trans hid) j hj hid⟩
      · rw [(hf j).1] at h
        rw [(hf j).2]
        exact hfollows.other h

/-- The offset stays and the status does not become one that says more. -/
structure Mild (f : TransferItem → TransferItem) : Prop where
  keeps : KeepsRoute f
  offset : ∀ i, (f i).offset = i.offset
  status : ∀ i, (f i).status = i.status ∨ ((f i).status ≠ .completed ∧ (f i).status ≠ .running)

theorem Sound.modify_mild {x : Runner} (hx : Sound x) {f : TransferItem → TransferItem}
    (hf : Mild f) (id : String) : Sound { x with items := modifyItem id f x.items } := by
  refine hx.modify hf.keeps (fun i hi _ => ⟨fun ho => ?_, fun hc => ?_⟩) ?_
  · rw [hf.offset] at ho ⊢
    rw [(hf.keeps i).2]
    exact (hx.items i hi).offset ho
  · rw [(hf.keeps i).2]
    obtain hs | ⟨hs, -⟩ := hf.status i
    · exact (hx.items i hi).completed (hs ▸ hc)
    · exact absurd hc hs
  · intro a ha hid i hi hii
    have hstep := ((hx.follows a ha i hi).same (hii.trans hid.symm)).2
    unfold InStep at hstep ⊢
    have hstatus := hf.status i
    cases hp : a.phase with
    | ended result =>
      rw [hp] at hstep
      dsimp only at hstep ⊢
      obtain hs | ⟨-, hs⟩ := hstatus
      · rwa [hs]
      · exact hs
    | starting =>
      rw [hp] at hstep
      dsimp only at hstep ⊢
      refine ⟨(hf.offset i).trans hstep.1, ?_⟩
      obtain hs | ⟨hs, -⟩ := hstatus
      · rw [hs]
        exact hstep.2
      · exact hs
    | copying position =>
      rw [hp] at hstep
      dsimp only at hstep ⊢
      refine ⟨(hf.offset i).trans hstep.1, ?_⟩
      obtain hs | ⟨hs, -⟩ := hstatus
      · rw [hs]
        exact hstep.2
      · exact hs

theorem Sound.activate {x : Runner} (hx : Sound x) {next : TransferItem} (hn : next ∈ x.items)
    (hs : next.status ≠ .completed) :
    Sound { x with active := some ⟨next.id, next.route, next.offset, .starting, false⟩ } where
  ids := hx.ids
  apart := hx.apart
  items := hx.items
  active := by
    intro a ha
    cases ha
    exact (hx.items next hn).offset
  follows := by
    intro a ha i hi
    cases ha
    refine ⟨fun hid => ?_, fun hid => hx.apart i hi next hn hid⟩
    have heq : i = next := List.inj_on_of_nodup_map hx.ids hi hn hid
    subst heq
    exact ⟨rfl, rfl, hs⟩

theorem Sound.idle {x : Runner} (hx : Sound x) : Sound { x with active := none } where
  ids := hx.ids
  apart := hx.apart
  items := hx.items
  active := fun a ha => by cases ha
  follows := fun a ha => by cases ha

theorem Sound.pump {x : Runner} (hx : Sound x) : Sound (pump x) := by
  unfold SftpTransfers.pump
  cases ha : x.active with
  | some a => exact hx
  | none =>
    dsimp only
    cases hn : x.items.find? (fun item => item.status = .queued) with
    | none => exact hx
    | some next =>
      dsimp only
      have hmem : next ∈ x.items := List.mem_of_find?_eq_some hn
      have hrunning : Sound { x with
          items := modifyItem next.id (fun item => { item with status := .running }) x.items } := by
        refine hx.modify (fun i => ⟨rfl, rfl⟩) (fun i hi _ => ?_) fun a hact => ?_
        · exact ⟨(hx.items i hi).offset, fun h => by cases h⟩
        · rw [ha] at hact
          cases hact
      have hrun : { next with status := .running } ∈ modifyItem next.id
          (fun item => { item with status := .running }) x.items := by
        refine List.mem_map.mpr ⟨next, hmem, ?_⟩
        rw [if_pos rfl]
      exact (hrunning.activate hrun (by simp) :)

theorem requeue_mild : Mild requeue where
  keeps _ := ⟨rfl, rfl⟩
  offset _ := rfl
  status _ := Or.inr ⟨by simp [requeue], by simp [requeue]⟩

theorem setStatus_mild {status : TransferStatus} (hc : status ≠ .completed)
    (hr : status ≠ .running) : Mild fun item => { item with status := status } where
  keeps _ := ⟨rfl, rfl⟩
  offset _ := rfl
  status _ := Or.inr ⟨hc, hr⟩

theorem Sound.resume {x : Runner} (hx : Sound x) (id : String) : Sound (resume x id) := by
  unfold SftpTransfers.resume
  cases x.items.find? (fun item => item.id = id) with
  | none => exact hx
  | some item =>
    dsimp only
    split
    · exact (hx.modify_mild requeue_mild id).pump
    · exact hx

theorem Sound.retry {x : Runner} (hx : Sound x) (id : String) : Sound (retry x id) := by
  unfold SftpTransfers.retry
  cases x.items.find? (fun item => item.id = id) with
  | none => exact hx
  | some item => exact (hx.modify_mild requeue_mild id).pump

theorem Sound.cancelSftpTransfer {x : Runner} (hx : Sound x) (id : String) :
    Sound (cancelSftpTransfer x id) := by
  have hcases : ∀ a, (SftpTransfers.cancelSftpTransfer x id).active = some a →
      ∃ b, x.active = some b ∧ a.id = b.id ∧ a.route = b.route ∧ a.offset = b.offset ∧
        a.phase = b.phase := by
    intro a ha
    obtain ⟨b, hb, hab⟩ := Option.map_eq_some_iff.mp ha
    refine ⟨b, hb, ?_⟩
    by_cases hid : b.id = id
    · rw [if_pos hid] at hab
      subst hab
      exact ⟨rfl, rfl, rfl, rfl⟩
    · rw [if_neg hid] at hab
      subst hab
      exact ⟨rfl, rfl, rfl, rfl⟩
  refine ⟨hx.ids, hx.apart, hx.items, fun a ha => ?_, fun a ha i hi => ?_⟩
  · obtain ⟨b, hb, -, hroute, hoffset, hphase⟩ := hcases a ha
    have hsound := hx.active b hb
    unfold ActiveSound at hsound ⊢
    rw [hphase, hroute, hoffset]
    exact hsound
  · obtain ⟨b, hb, hid, hroute, hoffset, hphase⟩ := hcases a ha
    have hfollows := hx.follows b hb i hi
    refine ⟨fun h => ?_, fun h => ?_⟩
    · obtain ⟨hr, hstep⟩ := hfollows.same (h.trans hid)
      unfold InStep at hstep ⊢
      rw [hphase, hroute, hoffset]
      exact ⟨hr, hstep⟩
    · rw [hroute]
      exact hfollows.other fun h' => h (h'.trans hid.symm)

theorem Sound.pauseActive {x : Runner} (hx : Sound x) : Sound (pauseActive x) := by
  unfold SftpTransfers.pauseActive
  cases x.active with
  | none => exact hx
  | some a => exact hx.cancelSftpTransfer a.id

theorem Sound.cancel {x : Runner} (hx : Sound x) (id : String) : Sound (cancel x id) := by
  unfold SftpTransfers.cancel
  cases x.items.find? (fun item => item.id = id) with
  | none => exact hx
  | some item =>
    dsimp only
    split
    · exact hx.cancelSftpTransfer id
    · exact hx.modify_mild (setStatus_mild (by decide) (by decide)) id

theorem Sound.clearCompleted {x : Runner} (hx : Sound x) : Sound (clearCompleted x) := by
  have hsub : ∀ {i}, i ∈ (SftpTransfers.clearCompleted x).items → i ∈ x.items :=
    fun h => List.mem_of_mem_filter h
  refine ⟨?_, fun i hi j hj => hx.apart i (hsub hi) j (hsub hj), fun i hi => hx.items i (hsub hi),
    hx.active, fun a ha i hi => hx.follows a ha i (hsub hi)⟩
  exact hx.ids.sublist (List.filter_sublist.map TransferItem.id)

theorem Sound.settle {x : Runner} (hx : Sound x) : Sound (settle x) := by
  unfold SftpTransfers.settle
  cases ha : x.active with
  | none => exact hx
  | some a =>
    dsimp only
    cases hp : a.phase with
    | starting => exact hx
    | copying position => exact hx
    | ended result =>
      refine Sound.pump ?_
      refine hx.idle.modify (fun i => ?_) (fun i hi hid => ?_) fun b hb => by cases hb
      · unfold onSettled
        cases result <;> dsimp only <;> split <;> exact ⟨rfl, rfl⟩
      · have hsound := hx.items i hi
        have hstep := ((hx.follows a ha i hi).same hid).2
        unfold InStep at hstep
        rw [hp] at hstep
        unfold onSettled
        cases result with
        | ok bytes =>
          dsimp only
          rw [if_neg hstep]
          exact hsound
        | error message =>
          dsimp only
          split
          · exact ⟨hsound.offset, fun h => by cases h⟩
          · exact ⟨hsound.offset, fun h => by cases h⟩

theorem onEvent_keeps (event : TransferEvent) : KeepsRoute (onEvent event) := by
  intro i
  unfold onEvent
  cases event.kind <;> dsimp only <;> (try split) <;> exact ⟨rfl, rfl⟩

theorem Sound.end_with {x : Runner} (hx : Sound x) {a : Active} (ha : x.active = some a)
    (result : Except String ℕ) (event : TransferEvent)
    (hitem : ∀ i ∈ x.items, i.route = a.route → ItemSound x.files (onEvent event i) ∧
      (onEvent event i).status ≠ .running) :
    Sound (applyEvent { x with active := some { a with phase := .ended result } } a.id event) := by
  have hroute : ∀ i ∈ x.items, i.id = a.id → i.route = a.route :=
    fun i hi hid => ((hx.follows a ha i hi).same hid).1
  have hmodified : Sound ⟨modifyItem a.id (onEvent event) x.items, none, x.files⟩ :=
    hx.idle.modify (onEvent_keeps event) (fun i hi hid => (hitem i hi (hroute i hi hid)).1)
      fun b hb => by cases hb
  refine ⟨hmodified.ids, hmodified.apart, hmodified.items, fun b hb => ?_, fun b hb i hi => ?_⟩
  · cases hb
    trivial
  · cases hb
    obtain ⟨hold, hid⟩ | ⟨j, hj, hid, rfl⟩ := mem_modifyItem hi
    · exact ⟨fun h => absurd h hid, (hx.follows a ha i hold).other⟩
    · have hkeeps := onEvent_keeps event j
      refine ⟨fun _ => ⟨hkeeps.2.trans (hroute j hj hid), ?_⟩,
        fun h => absurd (hkeeps.1.trans hid) h⟩
      exact (hitem j hj (hroute j hj hid)).2

theorem Sound.finish_ok {x : Runner} (hx : Sound x) {a : Active} (ha : x.active = some a)
    {bytes : ℕ} (hholding : Holding x.files a.route bytes)
    (hbytes : (content x.files a.route.source).length ≤ bytes) :
    Sound (finish x a (.ok bytes)) := by
  refine hx.end_with ha _ _ fun i hi hr => ⟨⟨fun _ => ?_, fun _ => ?_⟩, fun h => by cases h⟩
  · rw [(onEvent_keeps _ i).2, hr]
    exact hholding
  · rw [(onEvent_keeps _ i).2, hr]
    exact hholding.complete hbytes

theorem Sound.finish_cancelled {x : Runner} (hx : Sound x) {a : Active} (ha : x.active = some a)
    (hholding : Holding x.files a.route (partialBytes x.files a.route)) :
    Sound (finish x a (.error CANCELLED)) := by
  refine hx.end_with ha _ _ fun i hi hr => ?_
  rw [lastEvent, if_pos rfl]
  refine ⟨⟨fun _ => ?_, fun h => by cases h⟩, fun h => by cases h⟩
  rw [(onEvent_keeps _ i).2, hr]
  exact hholding

theorem Sound.finish_failed {x : Runner} (hx : Sound x) {a : Active} (ha : x.active = some a)
    {message : String} (hm : message ≠ CANCELLED) : Sound (finish x a (.error message)) := by
  refine hx.end_with ha _ _ fun i hi hr => ?_
  rw [lastEvent, if_neg hm]
  exact ⟨⟨(hx.items i hi).offset, fun h => by cases h⟩, fun h => by cases h⟩

/-- The active transfer alone writes its target. -/
theorem Sound.writeTarget {x : Runner} (hx : Sound x) {a : Active} (ha : x.active = some a)
    (hp : ∀ r, a.phase ≠ .ended r) {target : List UInt8} {position : ℕ}
    (hoffset : a.offset ≤ position)
    (hholding : Holding (Function.update x.files a.route.target (some target)) a.route position) :
    Sound { x with
      active := some { a with phase := .copying position }
      files := Function.update x.files a.route.target (some target) } := by
  have hinstep : ∀ i ∈ x.items, i.id = a.id →
      i.route = a.route ∧ i.offset = a.offset ∧ i.status ≠ .completed := by
    intro i hi hid
    obtain ⟨hr, hstep⟩ := (hx.follows a ha i hi).same hid
    unfold InStep at hstep
    cases hphase : a.phase with
    | ended r => exact absurd hphase (hp r)
    | starting =>
      rw [hphase] at hstep
      exact ⟨hr, hstep⟩
    | copying position =>
      rw [hphase] at hstep
      exact ⟨hr, hstep⟩
  refine ⟨hx.ids, hx.apart, fun i hi => ?_, fun b hb => ?_, fun b hb i hi => ?_⟩
  · by_cases hid : i.id = a.id
    · obtain ⟨hr, ho, hs⟩ := hinstep i hi hid
      refine ⟨fun _ => ?_, fun h => absurd h hs⟩
      rw [hr, ho]
      exact hholding.mono hoffset
    · have hapart := (hx.follows a ha i hi).other hid
      exact (hx.items i hi).frame (agree_update hapart.right.symm hapart.targets)
  · cases hb
    exact ⟨hoffset, hholding⟩
  · cases hb
    refine ⟨fun hid => ?_, (hx.follows a ha i hi).other⟩
    obtain ⟨hr, ho, hs⟩ := hinstep i hi hid
    exact ⟨hr, ho, hs⟩

theorem holding_opened {files : Files} {r : Route} {offset : ℕ} {source : List UInt8}
    (hs : files r.source = some source) (h : 0 < offset → Holding files r offset) :
    Holding (Function.update files r.target (some (openTarget offset (files r.target)))) r offset := by
  refine ⟨source, openTarget offset (files r.target), ?_, Function.update_self .., ?_⟩
  · rw [Function.update_of_ne r.target_ne_source.symm, hs]
  · by_cases ho : offset = 0
    · rw [openTarget, if_pos ho, ho]
      exact Copied.start source
    · obtain ⟨source', target, hs', ht, hc⟩ := h (Nat.pos_of_ne_zero ho)
      rw [hs] at hs'
      cases hs'
      rw [openTarget, if_neg ho, ht]
      exact hc

theorem Sound.openFiles {x : Runner} (hx : Sound x) : Sound (openFiles x) := by
  unfold SftpTransfers.openFiles
  cases ha : x.active with
  | none => exact hx
  | some a =>
    dsimp only
    cases hp : a.phase with
    | copying position => exact hx
    | ended result => exact hx
    | starting =>
      cases hs : x.files a.route.source with
      | none => exact hx
      | some source =>
        dsimp only
        have hstarted : Sound (applyEvent x a.id ⟨.started, a.offset, none, none⟩) :=
          hx.modify_mild ⟨onEvent_keeps _, fun i => rfl, fun i => Or.inl rfl⟩ a.id
        have hsound := hx.active a ha
        rw [ActiveSound, hp] at hsound
        exact hstarted.writeTarget ha (by simp [hp]) (Nat.le_refl _) (holding_opened hs hsound)

/-- A piece of the source has reached the target. -/
theorem Sound.write {x : Runner} (hx : Sound x) {a : Active} (ha : x.active = some a)
    {position : ℕ} (hp : a.phase = .copying position) (n : ℕ) :
    let chunk := readAt (content x.files a.route.source) position n
    Sound { SftpTransfers.writeTarget x a position chunk with
      active := some { a with phase := .copying (position + chunk.length) } } := by
  have hsound := hx.active a ha
  rw [ActiveSound, hp] at hsound
  obtain ⟨hoffset, source, target, hs, ht, hc⟩ := hsound
  refine hx.writeTarget ha (by simp [hp]) (hoffset.trans (Nat.le_add_right _ _)) ?_
  have hsource : content x.files a.route.source = source := by rw [content, hs, Option.getD_some]
  have htarget : content x.files a.route.target = target := by rw [content, ht, Option.getD_some]
  rw [hsource, htarget]
  refine ⟨source, _, ?_, Function.update_self .., hc.writeAt 0 n⟩
  rw [Function.update_of_ne a.route.target_ne_source.symm, hs]

/-- The transfer that the next round stops, and how far it has come. -/
def stopping (x : Runner) : Option (Route × ℕ) :=
  match x.active with
  | some ⟨_, route, _, .copying position, true⟩ => some (route, position)
  | _ => none

/-- Uploads are stopped only once their last byte is sent. -/
def StopsWell (x : Runner) : Step → Prop
  | .turn _ => ∀ stop ∈ stopping x, stop.1.direction = .upload →
      (content x.files stop.1.source).length ≤ stop.2
  | _ => True

def routes (x : Runner) : List Route :=
  x.items.map TransferItem.route ++ (x.active.map Active.route).toList

/-- Transfers start at offset 0 under fresh identifiers, and no file of a transfer is written
but by that transfer. -/
def Admissible (x : Runner) : Step → Prop
  | .enqueue id route offset => offset = none ∧ (∀ i ∈ x.items, i.id ≠ id) ∧
      x.active.map Active.id ≠ some id ∧ ∀ r ∈ routes x, Apart route r
  | .fail _ message => message ≠ CANCELLED
  | .write place _ => ∀ r ∈ routes x, r.source ≠ place ∧ r.target ≠ place
  | _ => True

theorem item_route_mem {x : Runner} {i : TransferItem} (hi : i ∈ x.items) : i.route ∈ routes x :=
  List.mem_append_left _ (List.mem_map_of_mem hi)

theorem active_route_mem {x : Runner} {a : Active} (ha : x.active = some a) :
    a.route ∈ routes x := by
  refine List.mem_append_right _ ?_
  rw [ha]
  simp

theorem Sound.turn {x : Runner} (hx : Sound x) {n : ℕ} (hstop : StopsWell x (.turn n)) :
    Sound (turn x n) := by
  unfold SftpTransfers.turn
  cases ha : x.active with
  | none => exact hx
  | some a =>
    dsimp only
    cases hp : a.phase with
    | starting => exact hx
    | ended result => exact hx
    | copying position =>
      dsimp only
      have hsound := hx.active a ha
      rw [ActiveSound, hp] at hsound
      by_cases hcancelled : a.cancelled = true
      · rw [if_pos hcancelled]
        refine hx.finish_cancelled ha ?_
        have hstopping : stopping x = some (a.route, position) := by
          rcases a with ⟨id, route, offset, phase, cancelled⟩
          cases hp
          cases hcancelled
          rw [stopping, ha]
        obtain ⟨source, target, hs, ht, hc⟩ := hsound.2
        cases hd : a.route.direction with
        | upload =>
          have hlength := hstop _ hstopping hd
          have hpartial : partialBytes x.files a.route ≤ position := by
            rw [Route.source, hd] at hlength
            exact hlength
          exact hsound.2.mono hpartial
        | download =>
          have hlocal : a.route.localPlace = a.route.target := by rw [Route.target, hd]
          rw [partialBytes, hlocal, content, ht]
          exact ⟨source, target, hs, ht, hc.isPrefix, Nat.le_refl _⟩
      · rw [if_neg hcancelled]
        have hcount : 0 < max 1 (min n CHUNK) := by omega
        split
        · rename_i hend
          exact hx.finish_ok ha hsound.2 ((readAt_eq_nil _ hcount).mp hend)
        · exact (hx.write ha hp _).modify_mild
            ⟨onEvent_keeps _, fun i => rfl, fun i => Or.inl rfl⟩ a.id

theorem Sound.fail {x : Runner} (hx : Sound x) (written : ℕ) {message : String}
    (hm : message ≠ CANCELLED) : Sound (fail x written message) := by
  unfold SftpTransfers.fail
  cases ha : x.active with
  | none => exact hx
  | some a =>
    dsimp only
    cases hp : a.phase with
    | starting => exact hx.finish_failed ha hm
    | ended result => exact hx
    | copying position => exact (hx.write ha hp _).finish_failed rfl hm

theorem Sound.enqueue {x : Runner} (hx : Sound x) {id : String} {route : Route}
    (hid : ∀ i ∈ x.items, i.id ≠ id) (hact : x.active.map Active.id ≠ some id)
    (happart : ∀ r ∈ routes x, Apart route r) : Sound (enqueue x id route none) := by
  refine Sound.pump ?_
  have hmem : ∀ i ∈ x.items ++ [⟨id, route, .queued, 0, none, 0, none⟩],
      i ∈ x.items ∨ i = ⟨id, route, .queued, 0, none, 0, none⟩ := by
    intro i hi
    simpa using hi
  refine ⟨?_, fun i hi j hj hne => ?_, fun i hi => ?_, hx.active, fun a ha i hi => ?_⟩
  · rw [List.map_append]
    refine List.Nodup.append hx.ids (List.nodup_singleton _) ?_
    simpa [List.disjoint_singleton] using hid
  · obtain hi | rfl := hmem i hi
    · obtain hj | rfl := hmem j hj
      · exact hx.apart i hi j hj hne
      · exact (happart _ (item_route_mem hi)).symm
    · obtain hj | rfl := hmem j hj
      · exact happart _ (item_route_mem hj)
      · exact absurd rfl hne
  · obtain hi | rfl := hmem i hi
    · exact hx.items i hi
    · exact ⟨fun h => absurd h (Nat.lt_irrefl 0), fun h => by cases h⟩
  · obtain hi | rfl := hmem i hi
    · exact hx.follows a ha i hi
    · refine ⟨fun h => ?_, fun _ => happart _ (active_route_mem ha)⟩
      exact absurd (by rw [ha, Option.map_some, ← h]) hact

theorem Sound.agree {x : Runner} (hx : Sound x) {files : Files}
    (h : ∀ r ∈ routes x, Agree x.files files r) : Sound { x with files := files } where
  ids := hx.ids
  apart := hx.apart
  items i hi := (hx.items i hi).frame (h _ (item_route_mem hi))
  active a ha := (hx.active a ha).frame (h _ (active_route_mem ha))
  follows := hx.follows

theorem Sound.perform {x : Runner} (hx : Sound x) {step : Step} (hadm : Admissible x step)
    (hstop : StopsWell x step) : Sound (perform x step) := by
  cases step with
  | enqueue id route offset =>
    obtain ⟨rfl, hid, hact, happart⟩ := hadm
    exact hx.enqueue hid hact happart
  | pauseActive => exact hx.pauseActive
  | resume id => exact hx.resume id
  | cancel id => exact hx.cancel id
  | retry id => exact hx.retry id
  | clearCompleted => exact hx.clearCompleted
  | openFiles => exact hx.openFiles
  | turn n => exact hx.turn hstop
  | fail written message => exact hx.fail written hadm
  | settle => exact hx.settle
  | write place bytes => exact hx.agree fun r hr => agree_update (hadm r hr).1 (hadm r hr).2

/-- `P` holds of every step in the state it is taken in. -/
def Along (P : Runner → Step → Prop) : Runner → List Step → Prop
  | _, [] => True
  | x, step :: steps => P x step ∧ Along P (perform x step) steps

theorem Sound.run {x : Runner} (hx : Sound x) {steps : List Step} (hadm : Along Admissible x steps)
    (hstop : Along StopsWell x steps) : Sound (run x steps) := by
  induction steps generalizing x with
  | nil => exact hx
  | cons step steps ih => exact ih (hx.perform hadm.1 hstop.1) hadm.2 hstop.2

def emptyQueue (files : Files) : Runner := ⟨[], none, files⟩

theorem emptyQueue_sound (files : Files) : Sound (emptyQueue files) where
  ids := List.nodup_nil
  apart := fun i hi => by cases hi
  items := fun i hi => by cases hi
  active := fun a ha => by cases ha
  follows := fun a ha => by cases ha

theorem completed_target_eq_source (files : Files) {steps : List Step}
    (hadm : Along Admissible (emptyQueue files) steps)
    (hstop : Along StopsWell (emptyQueue files) steps) :
    ∀ item ∈ (run (emptyQueue files) steps).items, item.status = .completed →
      ∃ bytes, (run (emptyQueue files) steps).files item.route.source = some bytes ∧
        (run (emptyQueue files) steps).files item.route.target = some bytes :=
  fun item hitem => (((emptyQueue_sound files).run hadm hstop).items item hitem).completed

def sampleBytes : List UInt8 := [1, 2, 3]

def sampleRoute (direction : TransferDirection) : Route := ⟨direction, "here", "there"⟩

def sampleFiles (direction : TransferDirection) : Files :=
  Function.update (fun _ => none) (sampleRoute direction).source (some sampleBytes)

def pausedDownload : List Step :=
  [.enqueue "d" (sampleRoute .download) none, .openFiles, .turn 1, .pauseActive, .turn 1, .settle,
    .resume "d", .openFiles, .turn 2, .turn 2, .settle]

theorem completed_target_eq_source_download :
    ∃ item ∈ (run (emptyQueue (sampleFiles .download)) pausedDownload).items,
      item.status = .completed ∧
      (run (emptyQueue (sampleFiles .download)) pausedDownload).files item.route.target =
        some sampleBytes := by
  have hadm : Along Admissible (emptyQueue (sampleFiles .download)) pausedDownload := by
    refine ⟨⟨rfl, ?_, ?_, ?_⟩, trivial, trivial, trivial, trivial, trivial, trivial, trivial,
      trivial, trivial, trivial, trivial⟩
    · simp [emptyQueue]
    · simp [emptyQueue]
    · simp [emptyQueue, routes]
  have hstop : Along StopsWell (emptyQueue (sampleFiles .download)) pausedDownload := by
    have hdownload : ∀ {x : Runner} {n : ℕ}, (∀ stop ∈ stopping x, stop.1.direction = .download) →
        StopsWell x (.turn n) := by
      intro x n h stop hs hd
      rw [h stop hs] at hd
      cases hd
    refine ⟨trivial, trivial, hdownload (by decide), trivial, hdownload (by decide), trivial,
      trivial, trivial, hdownload (by decide), hdownload (by decide), trivial, trivial⟩
  have hsource : (run (emptyQueue (sampleFiles .download)) pausedDownload).files
      (sampleRoute .download).source = some sampleBytes := by decide
  have hitem : (⟨"d", sampleRoute .download, .completed, 3, some 3, 3, none⟩ : TransferItem) ∈
      (run (emptyQueue (sampleFiles .download)) pausedDownload).items := by decide
  obtain ⟨bytes, hs, ht⟩ := completed_target_eq_source _ hadm hstop _ hitem rfl
  rw [hsource] at hs
  cases hs
  exact ⟨_, hitem, rfl, ht⟩

def pausedUpload : List Step :=
  [.enqueue "u" (sampleRoute .upload) none, .openFiles, .pauseActive, .turn 1, .settle,
    .resume "u", .openFiles, .turn 1, .settle]

theorem paused_upload_truncated :
    ¬ ∀ (files : Files) (steps : List Step), Along Admissible (emptyQueue files) steps →
      ∀ item ∈ (run (emptyQueue files) steps).items, item.status = .completed →
        ∃ bytes, (run (emptyQueue files) steps).files item.route.source = some bytes ∧
          (run (emptyQueue files) steps).files item.route.target = some bytes := by
  intro h
  have hadm : Along Admissible (emptyQueue (sampleFiles .upload)) pausedUpload := by
    refine ⟨⟨rfl, ?_, ?_, ?_⟩, trivial, trivial, trivial, trivial, trivial, trivial, trivial,
      trivial, trivial⟩
    · simp [emptyQueue]
    · simp [emptyQueue]
    · simp [emptyQueue, routes]
  have hitem : (⟨"u", sampleRoute .upload, .completed, 3, some 3, 3, none⟩ : TransferItem) ∈
      (run (emptyQueue (sampleFiles .upload)) pausedUpload).items := by decide
  have hsource : (run (emptyQueue (sampleFiles .upload)) pausedUpload).files
      (sampleRoute .upload).source = some sampleBytes := by decide
  have htarget : (run (emptyQueue (sampleFiles .upload)) pausedUpload).files
      (sampleRoute .upload).target = some [] := by decide
  obtain ⟨bytes, hs, ht⟩ := h _ _ hadm _ hitem rfl
  rw [hsource] at hs
  rw [htarget] at ht
  cases hs
  cases ht

end Tethra.SftpResume
