import ScriptVm.Proofs.Machine.ClassMembers
import ScriptVm.Proofs.Machine.ModuleLoading

/-!
# Fields of entities

An instance that stands for a native object has linked fields, which its native object gave it, and
plain ones, which scripts stored. What a clone has and what is left of an unlinked instance is said
field by field.

* `lastLink?` is the link of a native object under a hash: of several names with that hash the
  last counts.
* `ChangesObjects` says that objects and known names may be others, and that nothing else is.
* `Cloned` is what cloning an instance does, `Unlinked` what unlinking one does; `cloneEntity_eq`
  and `unlinked_unlink` say that this is so.
-/

namespace ScriptVm

/-! ### Tables -/

namespace Table

variable {α β : Type}

theorem get?_mapValues (t : Table α) (f : α → β) (hash : UInt32) :
    (t.mapValues f).get? hash = (t.get? hash).map f := by
  obtain ⟨entries⟩ := t
  unfold mapValues get?
  induction entries with
  | nil => rfl
  | cons e rest ih =>
    simp only [List.map_cons, find]
    split
    · rfl
    · exact ih

/-- What is added to a table counts where nothing was before. -/
theorem get?_addNew (entries : List (UInt32 × α)) (t : Table α) (hash : UInt32) :
    (entries.foldl (fun t e => t.insertNew e.1 e.2) t).get? hash =
      (t.get? hash).or ((Table.mk entries).get? hash) := by
  induction entries generalizing t with
  | nil => exact (Option.or_none ..).symm
  | cons e rest ih =>
    rw [List.foldl_cons, ih, get?_insertNew, Option.or_assoc]
    congr 1
    show _ = find hash ((e.1, e.2) :: rest)
    rw [find]
    split
    · rfl
    · exact Option.none_or

end Table

theorem Value.plain_of_not_isLinked {v : Value} (hv : v.isLinked = false) : v.Plain := by
  intro l
  rintro rfl
  cases l <;> cases hv

theorem Table.plain_of_get?_filter {t : Table Value} {hash : UInt32} {v : Value}
    (hv : (t.filter fun v => !v.isLinked).get? hash = some v) : v.Plain := by
  have hmem : v ∈ (t.filter fun v => !v.isLinked).values := Table.mem_values_of_get? hv
  obtain ⟨e, he, rfl⟩ := List.mem_map.1 hmem
  exact Value.plain_of_not_isLinked (by simpa using (List.mem_filter.1 he).2)

/-- The last of the links whose names have a hash. -/
def lastLink? (links : List (String × Link)) (hash : UInt32) : Option Link :=
  (links.reverse.find? fun f => hashName f.1 = hash).map (·.2)

theorem lastLink?_cons (f : String × Link) (rest : List (String × Link)) (hash : UInt32) :
    lastLink? (f :: rest) hash =
      (lastLink? rest hash).or (if hashName f.1 = hash then some f.2 else none) := by
  unfold lastLink?
  rw [List.reverse_cons, List.find?_append]
  cases rest.reverse.find? fun f => hashName f.1 = hash with
  | some g => rfl
  | none =>
    rw [Option.none_or, List.find?_singleton]
    by_cases h : hashName f.1 = hash <;> simp [h]

theorem mem_of_lastLink? {links : List (String × Link)} {hash : UInt32} {l : Link}
    (hl : lastLink? links hash = some l) : ∃ name, hashName name = hash ∧ (name, l) ∈ links := by
  obtain ⟨f, hf, rfl⟩ := Option.map_eq_some_iff.1 hl
  exact ⟨f.1, of_decide_eq_true (List.find?_some hf :),
    List.mem_reverse.1 (List.mem_of_find?_eq_some hf)⟩

namespace Environment

variable {env env' env'' : Environment} {h k c clone : Handle} {i : InstanceObject} {n : EntityId}

/-- Objects and known names may be others; everything else is as it was. -/
def ChangesObjects (env env' : Environment) : Prop :=
  ∃ heap tokens, env' = { env with memory := { env.memory with heap }, tokens }

theorem ChangesObjects.trans (h : env.ChangesObjects env') (h' : env'.ChangesObjects env'') :
    env.ChangesObjects env'' := by
  obtain ⟨heap, tokens, rfl⟩ := h
  obtain ⟨heap', tokens', rfl⟩ := h'
  exact ⟨heap', tokens', rfl⟩

theorem changesObjects_mapHeap (env : Environment) (f : Heap → Heap) :
    env.ChangesObjects (env.mapHeap f) :=
  ⟨f env.heap, env.tokens, rfl⟩

/-! ### Linking -/

/-- What linking the cells of a native object into an instance does. -/
structure LinksFields (env : Environment) (h : Handle) (i : InstanceObject)
    (links : List (String × Link)) (env' : Environment) : Prop where
  inst : ∃ fields : Table Value, env'.heap.get? h = some (.inst { i with fields }) ∧
    ∀ hash, fields.get? hash = ((lastLink? links hash).map Link.value).or (i.fields.get? hash)
  others : ∀ k, k ≠ h → env'.heap.get? k = env.heap.get? k
  rest : env.ChangesObjects env'

theorem linksFields_linkFields (links : List (String × Link))
    (hi : env.heap.get? h = some (.inst i)) :
    env.LinksFields h i links (linkFields h links env) := by
  induction links generalizing env i with
  | nil => exact ⟨⟨i.fields, hi, fun _ => rfl⟩, fun _ _ => rfl, env.heap, env.tokens, rfl⟩
  | cons f rest ih =>
    obtain ⟨name, l⟩ := f
    rw [linkFields_cons]
    obtain ⟨⟨fields, hget, hfields⟩, hothers, hrest⟩ := ih (get?_linkField hi name l)
    refine ⟨⟨fields, hget, fun hash => ?_⟩, fun k hk => ?_, ?_⟩
    · rw [hfields, lastLink?_cons, Option.map_or, Option.or_assoc]
      congr 1
      by_cases hname : hashName name = hash
      · subst hname
        simp
      · rw [Table.get?_insert_of_ne _ (Ne.symm hname)]
        simp [hname]
    · rw [hothers k hk]
      exact (Heap.get?_modify ..).trans (if_neg hk)
    · exact ChangesObjects.trans ⟨_, _, rfl⟩ hrest

/-! ### Making and cloning -/

/-- Making an instance for a native object: it has the fields `plain`, and above them the links of
the object. Of the other objects only the class may change. -/
structure Makes (env : Environment) (c : Handle) (n : EntityId) (plain : Table Value) (h : Handle)
    (env' : Environment) : Prop where
  fresh : env.heap.get? h = none
  inst : ∃ fields : Table Value, env'.heap.get? h = some (.inst ⟨c, fields, some n⟩) ∧
    ∀ hash, fields.get? hash =
      ((lastLink? (env.entityFields n) hash).map Link.value).or (plain.get? hash)
  others : ∀ k, k ≠ h → env'.heap.get? k = env.heap.get? k ∨
    k = c ∧ ∃ o, env.heap.get? k = some (.scriptClass o) ∧
      env'.heap.get? k = some (.scriptClass { o with entityBound := true })
  rest : env.ChangesObjects env'

/-- What cloning an instance does: the clone has the class and the plain fields of the source. -/
abbrev Cloned (env : Environment) (source : InstanceObject) (n : EntityId) (clone : Handle)
    (env' : Environment) : Prop :=
  env.Makes source.classHandle n (source.fields.filter fun v => !v.isLinked) clone env'

/-- Of a class it may become known that it stands for native objects; no other object changes. -/
theorem get?_bindClass (env : Environment) (c k : Handle) :
    let env' := env.mapHeap (·.modifyClass c fun k =>
      if k.kind = .extended then k else { k with entityBound := true })
    env'.heap.get? k = env.heap.get? k ∨
      k = c ∧ ∃ o, env.heap.get? k = some (.scriptClass o) ∧
        env'.heap.get? k = some (.scriptClass { o with entityBound := true }) := by
  intro env'
  have hget : env'.heap.get? k = _ := Heap.get?_modify env.heap c k _
  rw [hget]
  split
  · rename_i heq
    subst heq
    cases ho : env.heap.get? k with
    | none => exact .inl rfl
    | some o =>
      cases o with
      | scriptClass o =>
        by_cases hext : o.kind = .extended
        · exact .inl (by simp [hext])
        · exact .inr ⟨rfl, o, rfl, by simp [hext]⟩
      | _ => exact .inl rfl
  · exact .inl rfl

theorem makes_newEntity (hs : env.heap.Slotted) (c : Handle) (n : EntityId) :
    env.Makes c n ∅ (env.newEntity c n).1 (env.newEntity c n).2 := by
  let o : Obj := .inst { InstanceObject.ofClass c with entity := some n }
  let placed := (env.alloc o).2
  let known := placed.mapHeap (·.modifyClass c fun k =>
    if k.kind = .extended then k else { k with entityBound := true })
  let h := (env.heap.alloc o).1
  -- the instance is no class, even if the handle of its class is that of the instance
  have hget : known.heap.get? h = some o := by
    have hself : placed.heap.get? h = some o := Heap.get?_alloc_self hs o
    obtain hsame | ⟨-, k, hk, -⟩ := placed.get?_bindClass c h
    · exact hsame.trans hself
    · exact absurd (Option.some.inj (hself.symm.trans hk)) (by simp [o])
  obtain ⟨hinst, hothers, hrest⟩ := linksFields_linkFields (env.entityFields n) hget
  refine ⟨?_, hinst, fun k hk => ?_,
    ChangesObjects.trans (⟨_, _, rfl⟩ : env.ChangesObjects known) hrest⟩
  · exact Option.not_isSome_iff_eq_none.1 (Bool.eq_false_iff.1 (Heap.contains_alloc_fresh hs o))
  · have hsame : placed.heap.get? k = env.heap.get? k := Heap.get?_alloc_of_ne hs (Ne.symm hk)
    have hleft : (env.newEntity c n).2.heap.get? k = known.heap.get? k := hothers k hk
    rw [hleft, ← hsame]
    exact placed.get?_bindClass c k

/-- Fields that are missing are added to an instance that was made without any. -/
theorem Makes.addMissing (hm : env.Makes c n ∅ h env') (plain : Table Value) :
    env.Makes c n plain h (addMissingFields h plain.entries env') := by
  obtain ⟨hfresh, ⟨fields, hget, hfields⟩, hothers, hrest⟩ := hm
  refine ⟨hfresh, ⟨plain.entries.foldl (fun t e => t.insertNew e.1 e.2) fields, ?_, fun hash => ?_⟩,
    fun k hk => ?_, hrest.trans (changesObjects_mapHeap ..)⟩
  · refine (Heap.get?_modify ..).trans ?_
    rw [if_pos rfl, hget]
    rfl
  · rw [Table.get?_addNew, hfields]
    congr 1
    exact Option.or_none
  · rw [show (addMissingFields h plain.entries env').heap.get? k = _ from
      (Heap.get?_modify ..).trans (if_neg hk)]
    exact hothers k hk

/-- A linked field of an instance that was made is one of its native object. -/
theorem Makes.links {plain : Table Value} (hm : env.Makes c n plain h env')
    (hplain : ∀ hash v, plain.get? hash = some v → v.Plain) {hash : UInt32} {l : Link}
    (hl : env'.heap.field? h hash = some l.value) :
    ∃ name, hashName name = hash ∧ (name, l) ∈ env.entityFields n := by
  obtain ⟨fields, hget, hfields⟩ := hm.inst
  obtain ⟨i, hi, hl⟩ := Heap.field?_eq_some.1 hl
  cases hget.symm.trans hi
  rw [hfields, Option.or_eq_some_iff] at hl
  obtain hl | ⟨-, hl⟩ := hl
  · obtain ⟨l', hl', hvalue⟩ := Option.map_eq_some_iff.1 hl
    obtain rfl : l' = l := Option.some.inj ((Link.link?_value l').symm.trans
      (hvalue ▸ Link.link?_value l))
    exact mem_of_lastLink? hl'
  · exact absurd rfl (hplain hash _ hl l)

/-! ### Unlinking -/

/-- What unlinking an instance does: its fields hold the numbers that they were linked to, and no
native object stands behind it. -/
structure Unlinked (env : Environment) (h : Handle) (i : InstanceObject) (env' : Environment) :
    Prop where
  inst : ∃ fields : Table Value, env'.heap.get? h = some (.inst ⟨i.classHandle, fields, none⟩) ∧
    ∀ hash, (∀ l : Link, i.fields.get? hash = some l.value →
        fields.get? hash = some (l.read env.memory.cells)) ∧
      ((∀ l : Link, i.fields.get? hash ≠ some l.value) → fields.get? hash = i.fields.get? hash)
  others : ∀ k, k ≠ h → env'.heap.get? k = env.heap.get? k
  rest : ∃ heap, env' = env.mapHeap fun _ => heap

theorem unlinked_unlink (hi : env.heap.get? h = some (.inst i)) :
    env.Unlinked h i (env.unlink h) := by
  refine ⟨⟨i.fields.mapValues (·.delink env.memory.cells), ?_, fun hash =>
    ⟨fun l hl => ?_, fun hplain => ?_⟩⟩, fun k hk =>
      (Heap.get?_modify ..).trans (if_neg hk), _, rfl⟩
  · refine (Heap.get?_modify ..).trans ?_
    rw [if_pos rfl, hi]
    rfl
  · rw [Table.get?_mapValues, hl]
    rfl
  · rw [Table.get?_mapValues]
    cases hv : i.fields.get? hash with
    | none => rfl
    | some v =>
      refine congrArg some (Value.delink_of_plain (fun l hl => hplain l ?_) _)
      rw [hv, hl]

end Environment

namespace Exec

open Environment

/-- Cloning an instance gives the clone. -/
theorem cloneEntity_eq {m : Machine} {source : Handle} {i : InstanceObject}
    (hs : m.env.heap.Slotted) (hi : m.env.heap.instance? source = some i) (n : EntityId) :
    ∃ clone env, cloneEntity source n m = .ok clone { m with env } ∧
    m.env.Cloned i n clone env := by
  refine ⟨(m.env.newEntity i.classHandle n).1, _, ?_,
    (makes_newEntity hs i.classHandle n).addMissing _⟩
  unfold cloneEntity
  refine (bind_of_ok rfl).trans ?_
  rw [hi]
  rfl

end Exec
end ScriptVm
