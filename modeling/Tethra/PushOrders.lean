import Tethra.SyncConvergence
import Tethra.SyncLiveness

set_option autoImplicit false

/-!
# The order of pushes

Items reach a directory in any order and any grouping. What stands under an id is the latest of
what stood there and of the items pushed under it, and a tie keeps what came first.
-/
namespace Tethra.PushOrders
open KeyedTables StampedRegisters StatefulActions SyncConvergence SyncFileBackend SyncItems
open SyncFileBackend.FileBackend SyncLiveness VaultTypes

/-- One `push` a group. -/
def pushGroups : List (List SyncItem) → FileM Unit
  | [] => pure ()
  | items :: groups => do
    let _ ← push items
    pushGroups groups

/-! ## What pushes leave -/

theorem offerAll_append (r : Option SyncItem) (xs ys : List SyncItem) :
    offerAll SyncItem.stamp r (xs ++ ys) =
      offerAll SyncItem.stamp (offerAll SyncItem.stamp r xs) ys :=
  List.foldl_append

theorem Offered.append {f g h : FileBackend} {xs ys : List SyncItem} (hfg : Offered f g xs)
    (hgh : Offered g h ys) : Offered f h (xs ++ ys) where
  header := hgh.header.trans hfg.header
  item id := by rw [hgh.item id, hfg.item id, List.filter_append, offerAll_append]
  holds x hx := by
    rcases hgh.holds x hx with hx | hx
    · exact (hfg.holds x hx).imp_right fun hx => List.mem_append_left _ hx
    · exact Or.inr (List.mem_append_right _ hx)

theorem push_offered {items : List SyncItem} {f g : FileBackend} {cursor : SyncCursor}
    (h : push items f = (.ok cursor, g)) : Offered f g items := by
  obtain ⟨done, -, hoff, -, hok⟩ := push_spec items f
  rw [h] at hoff hok
  obtain ⟨rfl, -⟩ := hok cursor rfl
  exact hoff

theorem pushGroups_offered {groups : List (List SyncItem)} {f g : FileBackend}
    (h : pushGroups groups f = (.ok (), g)) : Offered f g groups.flatten := by
  induction groups generalizing f with
  | nil =>
    obtain ⟨-, rfl⟩ := Action.pure_eq_ok.1 h
    exact Offered.of_stored rfl
  | cons items groups ih =>
    obtain ⟨cursor, t, ht, hrest⟩ := Action.bind_eq_ok.1 h
    exact Offered.append (push_offered ht) (ih hrest)

theorem pushGroups_succeeds (groups : List (List SyncItem)) :
    (pushGroups groups).Succeeds Healthy fun _ => Healthy := by
  induction groups with
  | nil => exact Action.Succeeds.pure fun _ h => h
  | cons items groups ih => exact (Healthy.push items).bind fun _ => ih

/-- For each id, the latest of the items that beat the stored one have one content. -/
def OneLatest (f : FileBackend) (items : List SyncItem) : Prop :=
  ∀ id, Settled SyncItem.stamp (f.item id) (items.filter fun x => x.id = id)

theorem oneLatest_of_distinct {f : FileBackend} {items : List SyncItem}
    (h : ∀ a ∈ items, ∀ b ∈ items, b.id = a.id → b.stamp = a.stamp → b = a) :
    OneLatest f items := by
  intro id a ha b hb _ _ hstamp
  obtain ⟨ha, haid⟩ := List.mem_filter.1 ha
  obtain ⟨hb, hbid⟩ := List.mem_filter.1 hb
  exact h a ha b hb ((of_decide_eq_true hbid).trans (of_decide_eq_true haid).symm) hstamp

/-- Two orders of the same items, in whatever groups. -/
theorem pushGroups_perm {f f' g g' : FileBackend} {groups groups' : List (List SyncItem)}
    (hone : OneLatest f groups.flatten) (hff : f'.stored = f.stored)
    (hperm : groups'.flatten.Perm groups.flatten) (hg : pushGroups groups f = (.ok (), g))
    (hg' : pushGroups groups' f' = (.ok (), g')) (id : Uuid) : g'.item id = g.item id := by
  rw [(pushGroups_offered hg).item id, (pushGroups_offered hg').item id, item_of_stored hff]
  exact offerAll_perm (hone id) (hperm.filter _)

/-- Whether each order of the items leaves the same under every id. -/
def OrderFree (f : FileBackend) (items : List SyncItem) : Prop :=
  ∀ groups groups' : List (List SyncItem), groups.flatten.Perm items →
    groups'.flatten.Perm items → ∀ g g', pushGroups groups f = (.ok (), g) →
      pushGroups groups' f = (.ok (), g') → ∀ id, g'.item id = g.item id

theorem orderFree_of_oneLatest {f : FileBackend} {items : List SyncItem}
    (hone : OneLatest f items) : OrderFree f items := by
  intro groups groups' hperm hperm' g g' hg hg' id
  rw [(pushGroups_offered hg).item id, (pushGroups_offered hg').item id,
    offerAll_perm (hone id) (hperm.filter _), offerAll_perm (hone id) (hperm'.filter _)]

/-- An order of the items of one id is part of an order of all. -/
theorem oneLatest_of_orderFree {f : FileBackend} {items : List SyncItem} (hf : Healthy f)
    (hfree : OrderFree f items) : OneLatest f items := by
  intro id
  refine settled_of_perm fun ys hys => ?_
  have hids : ∀ y ∈ ys, y.id = id := by
    intro y hy
    exact of_decide_eq_true (List.mem_filter.1 (hys.mem_iff.1 hy)).2
  have hperm : (ys ++ items.filter fun x => !decide (x.id = id)).Perm items :=
    (hys.append_right _).trans (List.filter_append_perm _ _)
  obtain ⟨⟨⟩, g, hg, -⟩ := pushGroups_succeeds [items] f hf
  obtain ⟨⟨⟩, g', hg', -⟩ :=
    pushGroups_succeeds [ys ++ items.filter fun x => !decide (x.id = id)] f hf
  have h := hfree [items] _ (by simp) (by simpa using hperm) g g' hg hg' id
  rw [(pushGroups_offered hg).item id, (pushGroups_offered hg').item id] at h
  rw [List.flatten_singleton, List.flatten_singleton, List.filter_append,
    List.filter_eq_self.2 fun y hy => decide_eq_true (hids y hy), List.filter_filter] at h
  simpa using h

/-! ## The comparison -/

theorem itemWinsOver_irrefl (x : SyncItem) : itemWinsOver x x = false := by
  rw [← Bool.not_eq_true, itemWinsOver_iff]
  exact lt_irrefl _

theorem itemWinsOver_trans {x y z : SyncItem} (hxy : itemWinsOver x y = true)
    (hyz : itemWinsOver y z = true) : itemWinsOver x z = true := by
  rw [itemWinsOver_iff] at *
  exact hyz.trans hxy

theorem stamp_inj {x y : SyncItem} :
    x.stamp = y.stamp ↔ x.version = y.version ∧ x.updatedAt = y.updatedAt := by
  rw [SyncItem.stamp, SyncItem.stamp, stampOf, stampOf, toLex_inj, Prod.mk.injEq,
    UInt64.toNat_inj]

/-- Items of different stamps are ordered, others are not. -/
theorem itemWinsOver_or_iff (x y : SyncItem) :
    (itemWinsOver x y = true ∨ itemWinsOver y x = true) ↔
      x.version ≠ y.version ∨ x.updatedAt ≠ y.updatedAt := by
  rw [itemWinsOver_iff, itemWinsOver_iff, lt_or_lt_iff_ne, ne_comm, Ne, stamp_inj,
    not_and_or]

theorem winsOver_eq (b64 : Base64Strings.Base64) (x : SyncItem) (row : ItemRow) :
    winsOver x row = itemWinsOver x (syncItemFromRow b64 row) := rfl

/-- Order and grouping do not matter when the latest are one, and only then. -/
theorem push_order (b64 : Base64Strings.Base64) :
    (∀ (f f' g g' : FileBackend) (groups groups' : List (List SyncItem)),
        OneLatest f groups.flatten → f'.stored = f.stored →
        groups'.flatten.Perm groups.flatten → pushGroups groups f = (.ok (), g) →
        pushGroups groups' f' = (.ok (), g') → ∀ id, g'.item id = g.item id) ∧
      (∀ (f : FileBackend) (items : List SyncItem), Healthy f →
        (OrderFree f items ↔ OneLatest f items)) ∧
      (∀ x, itemWinsOver x x = false) ∧
      (∀ x y z, itemWinsOver x y = true → itemWinsOver y z = true → itemWinsOver x z = true) ∧
      (∀ x y, (itemWinsOver x y = true ∨ itemWinsOver y x = true) ↔
        x.version ≠ y.version ∨ x.updatedAt ≠ y.updatedAt) ∧
      ∀ x row, winsOver x row = itemWinsOver x (syncItemFromRow b64 row) := by
  refine ⟨?_, fun f items hf => ⟨oneLatest_of_orderFree hf, orderFree_of_oneLatest⟩,
    itemWinsOver_irrefl, fun _ _ _ => itemWinsOver_trans, itemWinsOver_or_iff, winsOver_eq b64⟩
  intro f f' g g' groups groups' hone hff hperm hg hg'
  exact pushGroups_perm hone hff hperm hg hg'

/-! ## A tie -/

def tied (ciphertext : String) : SyncItem :=
  ⟨sampleUuid 1, "host", 1, 0, false, "", ciphertext⟩

theorem emptyDirectory_healthy : Healthy emptyDirectory :=
  ⟨fun _ => rfl, fun _ h => (by cases h), fun _ h => (by cases h), fun _ _ h => (by cases h)⟩

/-- Two devices edit one host at one time, and their items arrive in one push or the other
order. -/
theorem push_order_fails :
    ∃ (f g g' : FileBackend) (groups groups' : List (List SyncItem)),
      groups'.flatten.Perm groups.flatten ∧ pushGroups groups f = (.ok (), g) ∧
        pushGroups groups' f = (.ok (), g') ∧
        g.item (sampleUuid 1) = some (tied "QQ==") ∧ g'.item (sampleUuid 1) = some (tied "Qg==") ∧
        itemWinsOver (tied "QQ==") (tied "Qg==") = false ∧
        itemWinsOver (tied "Qg==") (tied "QQ==") = false := by
  obtain ⟨⟨⟩, g, hg, -⟩ :=
    pushGroups_succeeds [[tied "QQ==", tied "Qg=="]] emptyDirectory emptyDirectory_healthy
  obtain ⟨⟨⟩, g', hg', -⟩ :=
    pushGroups_succeeds [[tied "Qg=="], [tied "QQ=="]] emptyDirectory emptyDirectory_healthy
  refine ⟨_, g, g', _, _, ?_, hg, hg', ?_, ?_, by decide, by decide⟩
  · exact List.Perm.swap (tied "QQ==") (tied "Qg==") []
  · rw [(pushGroups_offered hg).item]
    decide
  · rw [(pushGroups_offered hg').item]
    decide

theorem push_order_sample :
    OrderFree emptyDirectory [tied "QQ==", { tied "Qg==" with version := 2 }] := by
  refine ((push_order Base64Strings.standard).2.1 emptyDirectory _ emptyDirectory_healthy).2 ?_
  exact oneLatest_of_distinct (by decide)

end Tethra.PushOrders
