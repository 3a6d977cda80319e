import ScriptVm.Proofs.Environment.Tidying
import ScriptVm.Proofs.Machine.Steadiness

/-!
# Bonds that are lost

Runs leave the instances bound to native objects as they are, and collections tell each native
object as often as they remove an instance of it.

* `Bonded` is what is asked of an environment for this: slots and accounts in order, instances that
  are bound to native objects which exist, and steady natives.
* `Sheds` says that no instance is bound, and that native objects are told of exactly the bonds
  that are lost.
* `Guards` says that no bond of an extra root is lost.
-/

namespace ScriptVm

/-! ### What collections leave alone -/

theorem Heap.le_of_overflow {heap : Heap} (hs : heap.Slotted) (ha : heap.Accounted)
    {roots : List Handle} (hover : (heap.collect roots).overflow = true) :
    sizeRange ≤ heap.accounted + heap.growth := by
  have hle := overflow_collect.1 hover
  rw [growth_collect hs] at hle
  exact Nat.le_trans hle (Nat.add_le_add_right (accounted_collect_le hs ha roots) _)

theorem Heap.not_reaches_nil {heap : Heap} (h : Handle) : ¬ heap.Reaches [] h := by
  intro hr
  induction hr with
  | root hk _ => cases hk
  | child _ _ _ _ ih => exact ih

theorem Memory.size_entities_collect (mem : Memory) (roots : List Handle) :
    (mem.collect roots).2.entities.size = mem.entities.size := by
  have hfold : ∀ (l : List EntityId) (mem : Memory),
      (l.foldl reclaim mem).entities.size = mem.entities.size := by
    intro l
    induction l with
    | nil => exact fun _ => rfl
    | cons e rest ih => exact fun mem => (ih (mem.reclaim e)).trans (Array.size_modify ..)
  exact hfold _ _

theorem Memory.reclaimedCount_of_le {mem : Memory} {e : EntityId}
    (he : mem.entities.size ≤ e.index) : mem.reclaimedCount e = 0 := by
  unfold reclaimedCount
  rw [Array.getElem?_eq_none he]
  rfl

namespace Environment

variable {env env' env'' : Environment} {roots : List Handle} {threads : List Thread} {h : Handle}

/-- Slots and accounts are in order, instances are bound to native objects that exist, and natives
are steady. -/
structure Bonded (env : Environment) : Prop where
  slotted : env.heap.Slotted
  accounted : env.heap.Accounted
  bounded : ∀ h e, env.heap.entity? h = some e → e.index < env.memory.entities.size
  natives : env.natives.Steady

/-- No instance is bound, and native objects are told of the bonds that are lost. -/
structure Sheds (env env' : Environment) : Prop where
  bonded : env'.Bonded
  fades : env.heap.Fades env'.heap
  growth : env'.heap.growth = env.heap.growth
  told : ∀ e, env'.memory.reclaimedCount e =
    env.memory.reclaimedCount e + (env.heap.lost env'.heap).countP fun p => p.2 = e

/-- The extra roots stay, and so do their bonds. -/
structure Guards (env env' : Environment) : Prop where
  extraRoots : env'.extraRoots = env.extraRoots
  entity_eq : ∀ h, .object h ∈ env.extraRoots.toList → env'.heap.entity? h = env.heap.entity? h

theorem Sheds.trans (h : env.Sheds env') (h' : env'.Sheds env'') : env.Sheds env'' := by
  refine ⟨h'.bonded, h.fades.trans h'.fades, h'.growth.trans h.growth, fun e => ?_⟩
  rw [h'.told, h.told, (Heap.lost_trans_perm h.fades h'.fades).countP_eq, List.countP_append,
    Nat.add_assoc]

theorem Guards.trans (h : env.Guards env') (h' : env'.Guards env'') : env.Guards env'' := by
  refine ⟨h'.extraRoots.trans h.extraRoots, fun k hk => ?_⟩
  rw [h'.entity_eq k (h.extraRoots ▸ hk), h.entity_eq k hk]

/-! ### Runs -/

theorem sheds_of_steady (hb : env.Bonded) (hmem : env.memory.Steady env'.memory)
    (hn : env'.natives = env.natives) : env.Sheds env' where
  bonded :=
    { slotted := hmem.heap.slotted hb.slotted
      accounted := hmem.heap.accounted hb.slotted hb.accounted
      bounded := fun k e he =>
        Nat.lt_of_lt_of_le (hb.bounded k e (hmem.heap.entity_eq hb.slotted k ▸ he)) hmem.entities
      natives := hn ▸ hb.natives }
  fades := fun k => .inl (hmem.heap.entity_eq hb.slotted k)
  growth := hmem.heap.growth
  told := fun e => by rw [hmem.count_eq, Heap.lost_eq_nil (hmem.heap.entity_eq hb.slotted)]; rfl

theorem guards_of_steady (hb : env.Bonded) (hmem : env.memory.Steady env'.memory)
    (hroots : env'.extraRoots = env.extraRoots) : env.Guards env' :=
  ⟨hroots, fun k _ => hmem.heap.entity_eq hb.slotted k⟩

/-- What leaves the memory alone loses no bond. -/
theorem sheds_of_memory_eq (hb : env.Bonded) (hmem : env'.memory = env.memory)
    (hn : env'.natives = env.natives) : env.Sheds env' :=
  sheds_of_steady hb (hmem ▸ .refl _) hn

/-! ### Collections -/

theorem sheds_collect (hb : env.Bonded) (roots : List Handle) :
    env.Sheds { env with memory := (env.memory.collect roots).2 } := by
  have hheap := heap_collect_memory env.memory roots
  have hsize := Memory.size_entities_collect env.memory roots
  have hfades : env.heap.Fades (env.memory.collect roots).2.heap := fun k => by
    rw [hheap]
    exact Heap.entity?_collect_cases hb.slotted roots k
  refine ⟨⟨?_, ?_, fun k e he => ?_, hb.natives⟩, hfades, ?_, fun e => ?_⟩
  · show (env.memory.collect roots).2.heap.Slotted
    exact hheap ▸ Heap.slotted_collect hb.slotted roots
  · show (env.memory.collect roots).2.heap.Accounted
    exact hheap ▸ Heap.accounted_collect hb.slotted hb.accounted roots
  · show e.index < (env.memory.collect roots).2.entities.size
    rw [hsize]
    refine hb.bounded k e ?_
    rcases hfades k with heq | hnone
    · exact heq ▸ he
    · rw [show _ = _ from hnone] at he
      cases he
  · show (env.memory.collect roots).2.heap.growth = _
    rw [hheap]
    exact Heap.growth_collect hb.slotted roots
  · show (env.memory.collect roots).2.reclaimedCount e = _ +
      (env.heap.lost (env.memory.collect roots).2.heap).countP _
    rw [hheap]
    by_cases he : e.index < env.memory.entities.size
    · rw [← Heap.count_reclaimed hb.slotted]
      exact (Memory.foldl_reclaim (env.heap.collect roots).reclaimed
        { env.memory with heap := (env.heap.collect roots).heap }).2 e he
    · -- nothing is bound to what does not exist
      have hnone : (env.heap.lost (env.heap.collect roots).heap).countP (fun p => p.2 = e) = 0 := by
        refine List.countP_eq_zero.2 fun ⟨k, d⟩ hp hd => he ?_
        exact of_decide_eq_true hd ▸ hb.bounded k d (Heap.mem_lost.1 hp).1
      rw [hnone, Memory.reclaimedCount_of_le (hsize ▸ Nat.le_of_not_lt he),
        Memory.reclaimedCount_of_le (Nat.le_of_not_lt he)]

theorem Purged.sheds (hp : env.Purged roots env') (hb : env.Bonded) : env.Sheds env' := by
  obtain ⟨log, -, rfl⟩ := hp
  have hcollect := sheds_collect hb roots
  exact hcollect.trans (sheds_of_memory_eq hcollect.bonded rfl rfl)

theorem Purged.guards (hp : env.Purged roots env') (hb : env.Bonded)
    (hroots : Obj.handlesOf env.extraRoots.toList ⊆ roots) : env.Guards env' := by
  obtain ⟨log, -, rfl⟩ := hp
  refine ⟨rfl, fun k hk => ?_⟩
  show (env.memory.collect roots).2.heap.entity? k = env.heap.entity? k
  rw [heap_collect_memory]
  by_cases hc : env.heap.contains k = true
  · refine Heap.entity?_collect_of_reaches hb.slotted (.root (hroots ?_) hc)
    exact List.mem_filterMap.2 ⟨_, hk, rfl⟩
  · -- a handle that finds nothing finds nothing afterwards
    have hnone : env.heap.entity? k = none := by
      unfold Heap.entity?
      rw [Option.not_isSome_iff_eq_none.1 hc]
      rfl
    rcases Heap.entity?_collect_cases hb.slotted roots k with h | h
    · exact h
    · exact h.trans hnone.symm

theorem Tidied.sheds (ht : env.Tidied threads env') (hb : env.Bonded) : env.Sheds env' := by
  rcases ht with ⟨log, -, rfl⟩ | hp
  · exact sheds_of_memory_eq hb rfl rfl
  · exact hp.sheds hb

theorem Tidied.guards (ht : env.Tidied threads env') (hb : env.Bonded) : env.Guards env' := by
  rcases ht with ⟨log, -, rfl⟩ | hp
  · exact ⟨rfl, fun _ _ => rfl⟩
  · exact hp.guards hb (List.subset_append_right _ _)

theorem Tidied.accounted_le (ht : env.Tidied threads env') (hb : env.Bonded) :
    env'.heap.accounted ≤ env.heap.accounted := by
  rcases ht with ⟨log, -, rfl⟩ | ⟨log, -, rfl⟩
  · exact Nat.le_refl _
  · show (env.memory.collect _).2.heap.accounted ≤ _
    rw [heap_collect_memory]
    exact Heap.accounted_collect_le hb.slotted hb.accounted _

/-- A collection without roots leaves nothing. -/
theorem Purged.nothing (hp : env.Purged [] env') (hb : env.Bonded) (h : Handle) :
    env'.heap.get? h = none := by
  obtain ⟨log, -, rfl⟩ := hp
  show (env.memory.collect []).2.heap.get? h = none
  rw [heap_collect_memory]
  cases ho : (env.heap.collect []).heap.get? h with
  | none => rfl
  | some o => exact absurd (Heap.get?_collect_cases hb.slotted ho).2 (Heap.not_reaches_nil h)

end Environment
end ScriptVm
