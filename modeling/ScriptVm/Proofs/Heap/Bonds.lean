import Mathlib.Data.List.Nodup
import ScriptVm.Proofs.Heap.ExactCollection

/-!
# Instances that stand for native objects

An instance may be bound to a native object of the host, which is told when the instance goes away.

* `entity?` is the native object that an instance is bound to, and `bonds` lists all instances that
  are bound, each with its native object.
* `Steady` says that objects are placed and changed, but none is removed, bound or let go.
* `Fades` says that bonds are lost and none is made. `lost` are the bonds that one heap has and
  another has not; `count_reclaimed` says that a collection tells each native object as often as it
  loses an instance.
-/

namespace ScriptVm
namespace Heap

variable {heap heap' heap'' : Heap} {h : Handle} {e : EntityId} {o : Obj} {roots : List Handle}

/-- The native object that the instance of a handle is bound to. -/
def entity? (heap : Heap) (h : Handle) : Option EntityId := (heap.get? h).bind reclaimedEntity?

/-- No object is removed, bound to a native object or let go by one; objects keep their kind. -/
structure Steady (heap heap' : Heap) : Prop where
  slotted : heap.Slotted → heap'.Slotted
  accounted : heap.Slotted → heap.Accounted → heap'.Accounted
  entity_eq : heap.Slotted → ∀ h, heap'.entity? h = heap.entity? h
  growth : heap'.growth = heap.growth

theorem Steady.refl (heap : Heap) : heap.Steady heap := ⟨id, fun _ => id, fun _ _ => rfl, rfl⟩

theorem Steady.trans (hst : heap.Steady heap') (hst' : heap'.Steady heap'') :
    heap.Steady heap'' where
  slotted hs := hst'.slotted (hst.slotted hs)
  accounted hs ha := hst'.accounted (hst.slotted hs) (hst.accounted hs ha)
  entity_eq hs h := (hst'.entity_eq (hst.slotted hs) h).trans (hst.entity_eq hs h)
  growth := hst'.growth.trans hst.growth

theorem entity?_alloc (hs : heap.Slotted) (o : Obj) (h : Handle) :
    (heap.alloc o).2.entity? h =
      if h = (heap.alloc o).1 then reclaimedEntity? o else heap.entity? h := by
  unfold entity?
  split
  · rename_i heq
    rw [heq, get?_alloc_self hs o]
    rfl
  · rename_i hne
    rw [get?_alloc_of_ne hs (Ne.symm hne)]

/-- What is placed was not bound before. -/
theorem entity?_alloc_fresh (hs : heap.Slotted) (o : Obj) :
    heap.entity? (heap.alloc o).1 = none := by
  have hfresh := contains_alloc_fresh hs o
  unfold entity?
  cases hget : heap.get? (heap.alloc o).1 with
  | none => rfl
  | some p =>
    rw [contains_of_get? hget] at hfresh
    cases hfresh

theorem steady_alloc (heap : Heap) (ho : reclaimedEntity? o = none) :
    heap.Steady (heap.alloc o).2 where
  slotted hs := slotted_alloc hs o
  accounted hs ha := accounted_alloc hs ha o
  entity_eq hs h := by
    rw [entity?_alloc hs]
    split
    · rename_i heq
      rw [ho, heq, entity?_alloc_fresh hs]
    · rfl
  growth := by
    unfold alloc
    split <;> rfl

theorem entity?_modify (heap : Heap) {f : Obj → Obj}
    (hf : ∀ o, heap.get? h = some o → reclaimedEntity? (f o) = reclaimedEntity? o) (k : Handle) :
    (heap.modify h f).entity? k = heap.entity? k := by
  unfold entity?
  rw [get?_modify]
  split
  · rename_i heq
    subst heq
    cases ho : heap.get? k with
    | none => rfl
    | some o => exact hf o ho
  · rfl

theorem steady_modify (heap : Heap) (h : Handle) {f : Obj → Obj}
    (hkind : ∀ o : Obj, (f o).kind = o.kind)
    (hf : ∀ o, reclaimedEntity? (f o) = reclaimedEntity? o) : heap.Steady (heap.modify h f) where
  slotted hs := slotted_modify hs h f
  accounted _ ha := accounted_modify ha fun o _ => hkind o
  entity_eq _ := entity?_modify heap fun o _ => hf o
  growth := rfl

/-! ### Bonds -/

/-- The bond of the instance in a slot. -/
def bondAt? (heap : Heap) (i : Nat) : Option (Handle × EntityId) :=
  heap.slots[i]?.bind fun slot =>
    (slot.object.bind reclaimedEntity?).map fun e => (⟨i, slot.generation⟩, e)

/-- The instances that are bound, each with its native object, by slot. -/
def bonds (heap : Heap) : List (Handle × EntityId) :=
  (List.range heap.slots.size).filterMap heap.bondAt?

theorem bondAt?_eq_some {i : Nat} :
    heap.bondAt? i = some (h, e) ↔ h.index = i ∧ heap.entity? h = some e := by
  unfold bondAt? entity? get?
  cases hslot : heap.slots[i]? with
  | none =>
    simp only [Option.bind_none, reduceCtorEq, false_iff, not_and]
    rintro rfl
    simp [hslot]
  | some slot =>
    rw [Option.bind_some, Option.map_eq_some_iff]
    constructor
    · rintro ⟨d, hd, heq⟩
      cases heq
      refine ⟨rfl, ?_⟩
      rw [hslot]
      simpa using hd
    · rintro ⟨rfl, hentity⟩
      rw [hslot] at hentity
      dsimp only at hentity
      split at hentity
      · rename_i hgeneration
        exact ⟨e, hentity, by rw [hgeneration]⟩
      · cases hentity

theorem mem_bonds : (h, e) ∈ heap.bonds ↔ heap.entity? h = some e := by
  unfold bonds
  rw [List.mem_filterMap]
  constructor
  · rintro ⟨i, -, hi⟩
    exact (bondAt?_eq_some.1 hi).2
  · intro he
    obtain ⟨o, ho, -⟩ := Option.bind_eq_some_iff.1 he
    exact ⟨h.index, List.mem_range.2 (index_lt_of_contains (contains_of_get? ho)),
      bondAt?_eq_some.2 ⟨rfl, he⟩⟩

theorem nodup_bonds (heap : Heap) : heap.bonds.Nodup := by
  refine List.Nodup.filterMap (fun i j p hi hj => ?_) List.nodup_range
  rw [← (bondAt?_eq_some.1 hi).1, ← (bondAt?_eq_some.1 hj).1]

/-- The bonds of a heap that another does not have. -/
def lost (heap heap' : Heap) : List (Handle × EntityId) :=
  heap.bonds.filter fun p => heap'.entity? p.1 ≠ some p.2

theorem mem_lost :
    (h, e) ∈ heap.lost heap' ↔ heap.entity? h = some e ∧ heap'.entity? h ≠ some e := by
  unfold lost
  rw [List.mem_filter, mem_bonds]
  simp

theorem nodup_lost (heap heap' : Heap) : (heap.lost heap').Nodup := (nodup_bonds heap).filter _

/-- Where no bond is lost, none is listed. -/
theorem lost_eq_nil (he : ∀ h, heap'.entity? h = heap.entity? h) : heap.lost heap' = [] := by
  refine List.eq_nil_iff_forall_not_mem.2 fun p hp => ?_
  obtain ⟨hbound, hgone⟩ := mem_lost.1 hp
  exact hgone ((he p.1).trans hbound)

/-- Bonds are lost, and none is made. -/
def Fades (heap heap' : Heap) : Prop :=
  ∀ h, heap'.entity? h = heap.entity? h ∨ heap'.entity? h = none

theorem Fades.trans (hf : heap.Fades heap') (hf' : heap'.Fades heap'') : heap.Fades heap'' := by
  intro h
  rcases hf' h with heq | hnone
  · rw [heq]
    exact hf h
  · exact .inr hnone

/-- What two steps lose is what each of them loses. -/
theorem lost_trans_perm (hf : heap.Fades heap') (hf' : heap'.Fades heap'') :
    (heap.lost heap'').Perm (heap.lost heap' ++ heap'.lost heap'') := by
  have hdisjoint : (heap.lost heap' ++ heap'.lost heap'').Nodup := by
    refine (nodup_lost heap heap').append (nodup_lost heap' heap'') fun p hp hp' => ?_
    exact (mem_lost.1 hp).2 (mem_lost.1 hp').1
  refine (List.perm_ext_iff_of_nodup (nodup_lost heap heap'') hdisjoint).2 fun ⟨h, e⟩ => ?_
  rw [List.mem_append, mem_lost, mem_lost, mem_lost]
  rcases hf h with h₁ | h₁ <;> rcases hf' h with h₂ | h₂ <;> simp only [h₁, h₂] <;> grind

/-! ### Collections -/

theorem entity?_collect_of_reaches (hs : heap.Slotted) (hr : heap.Reaches roots h) :
    (heap.collect roots).heap.entity? h = heap.entity? h := by
  obtain ⟨o, ho⟩ := contains_iff.1 hr.contains
  unfold entity?
  rw [ho, get?_collect_of_reaches hs ho hr]

theorem entity?_collect_of_not_reaches (hs : heap.Slotted) (hr : ¬ heap.Reaches roots h) :
    (heap.collect roots).heap.entity? h = none := by
  unfold entity?
  cases ho : (heap.collect roots).heap.get? h with
  | none => rfl
  | some o => exact absurd (get?_collect_cases hs ho).2 hr

/-- A collection binds nothing. -/
theorem entity?_collect_cases (hs : heap.Slotted) (roots : List Handle) (h : Handle) :
    (heap.collect roots).heap.entity? h = heap.entity? h ∨
      (heap.collect roots).heap.entity? h = none := by
  by_cases hr : heap.Reaches roots h
  · exact .inl (entity?_collect_of_reaches hs hr)
  · exact .inr (entity?_collect_of_not_reaches hs hr)

theorem entityAt?_index (he : heap.entity? h = some e) : heap.entityAt? h.index = some e := by
  obtain ⟨o, ho, hbound⟩ := Option.bind_eq_some_iff.1 he
  obtain ⟨slot, hslot, -, hobject⟩ := get?_eq_some_iff.1 ho
  unfold entityAt?
  rw [hslot, Option.bind_some, hobject]
  exact hbound

/-- A collection tells a native object as often as it loses an instance. -/
theorem count_reclaimed (hs : heap.Slotted) (roots : List Handle) (e : EntityId) :
    (heap.collect roots).reclaimed.count e =
      (heap.lost (heap.collect roots).heap).countP fun p => p.2 = e := by
  obtain ⟨gone, hasc, hgone, -, -, hreclaimed⟩ := (emptiesExactly_collect hs roots).gone
  have hcount : (gone.filterMap heap.entityAt?).count e =
      (gone.filter fun i => heap.entityAt? i = some e).length := by
    rw [List.count_filterMap, List.countP_eq_length_filter]
    congr 1
    refine List.filter_congr fun i _ => ?_
    rw [Bool.eq_iff_iff]
    simp
  -- a bond that is lost is known by its slot
  have hslots : (((heap.lost (heap.collect roots).heap).filter fun p => p.2 = e).map
      fun p => p.1.index).Perm (gone.filter fun i => heap.entityAt? i = some e) := by
    refine (List.perm_ext_iff_of_nodup ?_ ((hasc.imp Nat.ne_of_lt).filter _)).2 fun i => ?_
    · refine List.Nodup.map_on (fun p hp q hq hindex => ?_) ((nodup_lost heap _).filter _)
      obtain ⟨hp, hpe⟩ := List.mem_filter.1 hp
      obtain ⟨hq, hqe⟩ := List.mem_filter.1 hq
      have hcontains {p : Handle × EntityId} (hp : p ∈ heap.lost (heap.collect roots).heap) :
          heap.contains p.1 = true := by
        obtain ⟨o, ho, -⟩ := Option.bind_eq_some_iff.1 (mem_lost.1 hp).1
        exact contains_of_get? ho
      refine Prod.ext (eq_of_index_eq (hcontains hp) (hcontains hq) hindex) ?_
      exact (of_decide_eq_true hpe).trans (of_decide_eq_true hqe).symm
    · rw [List.mem_map, List.mem_filter, hgone, decide_eq_true_iff]
      constructor
      · rintro ⟨⟨h, d⟩, hp, rfl⟩
        obtain ⟨hlost, hd⟩ := List.mem_filter.1 hp
        obtain rfl : d = e := of_decide_eq_true hd
        obtain ⟨hbound, hunbound⟩ := mem_lost.1 hlost
        obtain ⟨o, ho, -⟩ := Option.bind_eq_some_iff.1 hbound
        refine ⟨⟨h, rfl, contains_of_get? ho, fun hr => hunbound ?_⟩, entityAt?_index hbound⟩
        exact (entity?_collect_of_reaches hs hr).trans hbound
      · rintro ⟨⟨h, rfl, hc, hr⟩, he⟩
        have hbound : heap.entity? h = some e := by
          obtain ⟨o, ho⟩ := contains_iff.1 hc
          obtain ⟨slot, hslot, -, hobject⟩ := get?_eq_some_iff.1 ho
          rw [entityAt?, hslot, Option.bind_some, hobject] at he
          rw [entity?, ho]
          exact he
        refine ⟨(h, e), List.mem_filter.2 ⟨mem_lost.2 ⟨hbound, ?_⟩, decide_eq_true rfl⟩, rfl⟩
        rw [entity?_collect_of_not_reaches hs hr]
        exact (Option.some_ne_none e).symm
  rw [hreclaimed, hcount, List.countP_eq_length_filter, ← hslots.length_eq, List.length_map]

end Heap
end ScriptVm
