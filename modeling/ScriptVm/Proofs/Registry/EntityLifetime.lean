import ScriptVm.Proofs.Environment.Shedding
import ScriptVm.Proofs.Registry.Workings

/-!
# The lifetime of entities

An instance that stands for a native object is bound to it when it is made. It stays so until it is
unlinked or reclaimed, and the host is told of the latter.

* `LifeEvent` is one of the things that happen to such instances. `bond?` and `held?` read off a
  list of them, the latest first, what is bound and what was handed out, and `Orderly` says that
  each of them fits in.
* `Request.events` are the events of a request: which bonds it made, cut or lost, and what
  it handed out.
* `Course` are the registries that a host comes to, each with all events so far.
* `entity_lifetime` is the result.
-/

namespace ScriptVm

/-- What happens to an instance that stands for a native object. -/
inductive LifeEvent where
  | made (h : Handle) (e : EntityId)
  | handed (h : Handle) (e : EntityId)
  | unlinked (h : Handle) (e : EntityId)
  | reclaimed (h : Handle) (e : EntityId)
  | disposed
deriving DecidableEq

namespace LifeEvent

/-- What an instance is bound to after some events. -/
def bond? (h : Handle) : List LifeEvent → Option EntityId
  | [] => none
  | .made k e :: past => if k = h then some e else bond? h past
  | .unlinked k _ :: past | .reclaimed k _ :: past => if k = h then none else bond? h past
  | .handed _ _ :: past | .disposed :: past => bond? h past

/-- What an instance is bound to that was handed out and not unlinked or disposed of since. -/
def held? (h : Handle) : List LifeEvent → Option EntityId
  | [] => none
  | .handed k e :: past => if k = h then some e else held? h past
  | .unlinked k _ :: past => if k = h then none else held? h past
  | .disposed :: _ => none
  | .made _ _ :: past | .reclaimed _ _ :: past => held? h past

/-- Whether an event may come after others. An instance is made once, and handed out, unlinked or
reclaimed only as long as it is bound; it is not reclaimed as long as it is held. -/
def Fits (past : List LifeEvent) : LifeEvent → Prop
  | .made h _ => bond? h past = none
  | .handed h e | .unlinked h e => bond? h past = some e
  | .reclaimed h e => bond? h past = some e ∧ held? h past = none
  | .disposed => True

/-- Each event fits those before it. -/
def Orderly : List LifeEvent → Prop
  | [] => True
  | event :: past => event.Fits past ∧ Orderly past

/-- Whether an event tells a native object that an instance of it is gone. -/
def tells (e : EntityId) : LifeEvent → Bool
  | .reclaimed _ d => d = e
  | _ => false

/-- The events in which bonds are lost. -/
def ofLost (lost : List (Handle × EntityId)) : List LifeEvent :=
  lost.map fun p => .reclaimed p.1 p.2

variable {past : List LifeEvent} {lost : List (Handle × EntityId)} {h : Handle} {e : EntityId}

theorem held?_ofLost (lost : List (Handle × EntityId)) (past : List LifeEvent) (h : Handle) :
    held? h (ofLost lost ++ past) = held? h past := by
  induction lost with
  | nil => rfl
  | cons p rest ih => exact ih

theorem bond?_ofLost (lost : List (Handle × EntityId)) (past : List LifeEvent) (h : Handle) :
    bond? h (ofLost lost ++ past) = if h ∈ lost.map Prod.fst then none else bond? h past := by
  induction lost with
  | nil => rfl
  | cons p rest ih =>
    show (if p.1 = h then none else bond? h (ofLost rest ++ past)) = _
    rw [ih, List.map_cons]
    by_cases hp : p.1 = h
    · rw [if_pos hp, if_pos (hp ▸ List.mem_cons_self)]
    · rw [if_neg hp]
      refine if_congr ?_ rfl rfl
      rw [List.mem_cons, or_iff_right (Ne.symm hp)]

theorem orderly_ofLost (hnodup : (lost.map Prod.fst).Nodup) (ho : Orderly past)
    (hlost : ∀ p ∈ lost, bond? p.1 past = some p.2 ∧ held? p.1 past = none) :
    Orderly (ofLost lost ++ past) := by
  induction lost with
  | nil => exact ho
  | cons p rest ih =>
    obtain ⟨hp, hrest⟩ := List.forall_mem_cons.1 hlost
    obtain ⟨hfresh, hnodup⟩ := List.nodup_cons.1 hnodup
    refine ⟨?_, ih hnodup hrest⟩
    show bond? p.1 (ofLost rest ++ past) = some p.2 ∧ held? p.1 (ofLost rest ++ past) = none
    rw [bond?_ofLost, if_neg hfresh, held?_ofLost]
    exact hp

theorem countP_ofLost (lost : List (Handle × EntityId)) (e : EntityId) :
    (ofLost lost).countP (tells e) = lost.countP fun p => p.2 = e := by
  unfold ofLost
  rw [List.countP_map]
  rfl

end LifeEvent

namespace Heap

variable {heap heap' : Heap} {h : Handle} {e : EntityId}

/-- A handle has one bond at most. -/
theorem nodup_lost_handles (heap heap' : Heap) : ((heap.lost heap').map Prod.fst).Nodup := by
  refine List.Nodup.map_on (fun p hp q hq heq => ?_) (nodup_lost heap heap')
  have hp := (mem_lost.1 hp).1
  have hq := (mem_lost.1 hq).1
  rw [heq, hq] at hp
  exact Prod.ext heq (Option.some.inj hp).symm

/-- Where one instance was bound, its bond is the only one that was not there before. -/
theorem lost_eq_singleton (hfresh : heap.entity? h = none)
    (hmade : ∀ k, heap'.entity? k = if k = h then some e else heap.entity? k) :
    heap'.lost heap = [(h, e)] := by
  refine List.perm_singleton.1 ((List.perm_ext_iff_of_nodup (nodup_lost heap' heap)
    (List.nodup_singleton _)).2 fun ⟨k, d⟩ => ?_)
  rw [mem_lost, hmade, List.mem_singleton, Prod.mk.injEq]
  grind

end Heap

namespace Environment

variable {env env' : Environment} {c h : Handle} {e : EntityId}

theorem steady_linkFields (h : Handle) (fields : List (String × Link)) (env : Environment) :
    env.Steady (linkFields h fields env) := by
  induction fields generalizing env with
  | nil => exact .refl env
  | cons field rest ih =>
    refine Steady.trans ?_ (ih _)
    have htoken : env.Steady (env.addToken field.1).2 := ⟨.refl _, rfl, rfl, rfl, rfl⟩
    refine htoken.trans (steady_mapHeap _ (Heap.steady_modify _ h ?_ ?_))
    · exact fun o => by cases o <;> rfl
    · exact fun o => by cases o <;> rfl

/-- After an instance was placed, the rest of making an entity is steady. -/
theorem steady_newEntity (env : Environment) (c : Handle) (e : EntityId) :
    (env.alloc (.inst { InstanceObject.ofClass c with entity := some e })).2.Steady
      (env.newEntity c e).2 := by
  refine Steady.trans (steady_mapHeap _ (Heap.steady_modify _ c ?_ ?_)) (steady_linkFields _ _ _)
  · exact fun o => by cases o <;> rfl
  · exact fun o => by cases o <;> rfl

/-- One instance is bound. -/
structure BindsOne (h : Handle) (e : EntityId) (env env' : Environment) : Prop where
  bonded : env'.Bonded
  fresh : env.heap.entity? h = none
  entity_eq : ∀ k, env'.heap.entity? k = if k = h then some e else env.heap.entity? k
  told : ∀ d, env'.memory.reclaimedCount d = env.memory.reclaimedCount d
  extraRoots : env'.extraRoots = env.extraRoots

theorem bindsOne_newEntity (hb : env.Bonded) (he : e.index < env.memory.entities.size)
    (hnew : env.newEntity c e = (h, env')) : env.BindsOne h e env' := by
  let o : Obj := .inst { InstanceObject.ofClass c with entity := some e }
  have hsteady : (env.alloc o).2.Steady env' := by
    have hst := env.steady_newEntity c e
    rwa [hnew] at hst
  obtain rfl : (env.heap.alloc o).1 = h := congrArg Prod.fst hnew
  have hplaced := Heap.entity?_alloc hb.slotted o
  have hb₁ : (env.alloc o).2.Bonded := by
    refine ⟨Heap.slotted_alloc hb.slotted o, Heap.accounted_alloc hb.slotted hb.accounted o,
      fun k d hd => ?_, hb.natives⟩
    replace hd := (hplaced k).symm.trans hd
    split at hd
    · cases hd
      exact he
    · exact hb.bounded k d hd
  have hsheds := sheds_of_steady hb₁ hsteady.memory hsteady.natives
  refine ⟨hsheds.bonded, Heap.entity?_alloc_fresh hb.slotted o, fun k => ?_,
    fun d => hsteady.memory.count_eq d, hsteady.extraRoots⟩
  exact (hsteady.memory.heap.entity_eq hb₁.slotted k).trans (hplaced k)

theorem BindsOne.steady (hone : env.BindsOne h e env') {env'' : Environment}
    (hst : env'.Steady env'') : env.BindsOne h e env'' where
  bonded := (sheds_of_steady hone.bonded hst.memory hst.natives).bonded
  fresh := hone.fresh
  entity_eq k := (hst.memory.heap.entity_eq hone.bonded.slotted k).trans (hone.entity_eq k)
  told d := (hst.memory.count_eq d).trans (hone.told d)
  extraRoots := hst.extraRoots.trans hone.extraRoots

theorem entity?_unlink (env : Environment) (h k : Handle) :
    (env.unlink h).heap.entity? k = if k = h then none else env.heap.entity? k := by
  show (env.heap.modify h _).entity? k = _
  unfold Heap.entity?
  rw [Heap.get?_modify]
  split
  · cases env.heap.get? h with
    | none => rfl
    | some o => cases o <;> rfl
  · rfl

theorem Bonded.unlink (hb : env.Bonded) (h : Handle) : (env.unlink h).Bonded where
  slotted := Heap.slotted_modify hb.slotted h _
  accounted := Heap.accounted_modify hb.accounted fun o _ => by cases o <;> rfl
  bounded k d hd := by
    rw [entity?_unlink] at hd
    split at hd
    · cases hd
    · exact hb.bounded k d hd
  natives := hb.natives

end Environment

namespace Registry

open LifeEvent (bond? held? Orderly ofLost)

variable {natives : Natives} {past : List LifeEvent} {r r' : Registry} {h : Handle} {e : EntityId}

/-! ### Courses -/

/-- The events of an operation that is to bind an instance. -/
def bindingEvents (e : EntityId) (r : Registry) :
    EStateM.Result (Halt RegistryError) Registry Handle → List LifeEvent
  | .ok h r' =>
    .handed h e :: (r'.vm.env.heap.lost r.vm.env.heap).map fun p => .made p.1 p.2
  | .error _ r' => (r'.vm.env.heap.lost r.vm.env.heap).map fun p => .made p.1 p.2

/-- The events of a request, the latest first. -/
def Request.events (q : Request) (r : Registry) : List LifeEvent :=
  match q with
  | .spawnEntity fuel className e => bindingEvents e r (Registry.spawnEntity fuel className e r)
  | .cloneEntity source e => bindingEvents e r (Registry.cloneEntity source e r)
  | .unlinkEntity h => (r.vm.env.heap.entity? h).toList.map (.unlinked h)
  | .dispose => ofLost (r.vm.env.heap.lost (q.after r).vm.env.heap) ++ [.disposed]
  | _ => ofLost (r.vm.env.heap.lost (q.after r).vm.env.heap)

/-- The native object that a request is to bind. -/
def Request.entity? : Request → Option EntityId
  | .spawnEntity _ _ e | .cloneEntity _ e => some e
  | _ => none

/-- What a host does between requests: anything that leaves the extra roots alone, removes nothing
from the heap and binds nothing. -/
structure Tends (r r' : Registry) : Prop where
  memory : r.vm.env.memory.Steady r'.vm.env.memory
  extraRoots : r'.vm.env.extraRoots = r.vm.env.extraRoots
  natives : r'.vm.env.natives = r.vm.env.natives

/-- The registries that a host comes to, with all events so far. -/
inductive Course (natives : Natives) : List LifeEvent → Registry → Prop
  | new (config : Config) (source : Source) (log : Log) :
    Course natives [] (Registry.new config source natives log)
  | request {past : List LifeEvent} {r : Registry} (q : Request) : Course natives past r →
    (∀ e ∈ q.entity?, e.index < r.vm.env.memory.entities.size) →
      Course natives (q.events r ++ past) (q.after r)
  | host {past : List LifeEvent} {r r' : Registry} :
    Course natives past r → r.Tends r' → Course natives past r'

/-- The heap and the native objects are as the events say. -/
structure Tracks (past : List LifeEvent) (env : Environment) : Prop where
  bonded : env.Bonded
  orderly : Orderly past
  bond : ∀ h, env.heap.entity? h = bond? h past
  held : ∀ h e, held? h past = some e →
    env.heap.entity? h = some e ∧ .object h ∈ env.extraRoots.toList
  told : ∀ e, env.memory.reclaimedCount e = past.countP (LifeEvent.tells e)

variable {env env' : Environment}

/-- Bonds may be lost that are not held. -/
theorem Tracks.shed (ht : Tracks past env) (hs : env.Sheds env')
    (hheld : ∀ h e, held? h past = some e →
      env'.heap.entity? h = some e ∧ .object h ∈ env'.extraRoots.toList) :
    Tracks (ofLost (env.heap.lost env'.heap) ++ past) env' where
  bonded := hs.bonded
  orderly := by
    refine LifeEvent.orderly_ofLost (Heap.nodup_lost_handles _ _) ht.orderly fun ⟨k, d⟩ hp => ?_
    obtain ⟨hbound, hgone⟩ := Heap.mem_lost.1 hp
    have hbond : bond? k past = some d := (ht.bond k).symm.trans hbound
    refine ⟨hbond, ?_⟩
    cases hk : held? k past with
    | none => rfl
    | some d' =>
      -- what is held keeps its bond
      have hold := (ht.held k d' hk).1
      rw [hbound] at hold
      cases hold
      exact absurd (hheld k d hk).1 hgone
  bond k := by
    rw [LifeEvent.bond?_ofLost, ← ht.bond k]
    split
    · rename_i hlost
      obtain ⟨⟨k, d⟩, hp, rfl⟩ := List.mem_map.1 hlost
      obtain ⟨hbound, hgone⟩ := Heap.mem_lost.1 hp
      rcases hs.fades k with heq | hnone
      · exact absurd (heq.trans hbound) hgone
      · exact hnone
    · rename_i hkept
      rcases hs.fades k with heq | hnone
      · exact heq
      · cases hk : env.heap.entity? k with
        | none => exact hnone
        | some d =>
          refine absurd (List.mem_map.2 ⟨(k, d), Heap.mem_lost.2 ⟨hk, ?_⟩, rfl⟩) hkept
          rw [hnone]
          exact (Option.some_ne_none d).symm
  held k d hk := hheld k d (LifeEvent.held?_ofLost _ _ k ▸ hk)
  told d := by
    rw [List.countP_append, LifeEvent.countP_ofLost, hs.told, ht.told, Nat.add_comm]

theorem Tracks.guarded (ht : Tracks past env) (hs : env.Sheds env') (hg : env.Guards env') :
    Tracks (ofLost (env.heap.lost env'.heap) ++ past) env' := by
  refine ht.shed hs fun k d hk => ?_
  obtain ⟨hbound, hroot⟩ := ht.held k d hk
  exact ⟨(hg.entity_eq k hroot).trans hbound, hg.extraRoots ▸ hroot⟩

theorem Tracks.steady (ht : Tracks past env) (hmem : env.memory.Steady env'.memory)
    (hroots : env'.extraRoots = env.extraRoots) (hn : env'.natives = env.natives) :
    Tracks past env' := by
  have h := ht.guarded (Environment.sheds_of_steady ht.bonded hmem hn)
    (Environment.guards_of_steady ht.bonded hmem hroots)
  rwa [Heap.lost_eq_nil (hmem.heap.entity_eq ht.bonded.slotted)] at h

/-! ### Events of requests -/

theorem Act.sheds (ha : Act Machine.Steady r r') (hb : r.vm.env.Bonded) :
    r.vm.env.Sheds r'.vm.env ∧ r.vm.env.Guards r'.vm.env := by
  cases ha with
  | run hrun =>
    have hst := hrun.env hb.natives
    exact ⟨Environment.sheds_of_steady hb hst.memory hst.natives,
      Environment.guards_of_steady hb hst.memory hst.extraRoots⟩
  | report level text =>
    exact ⟨Environment.sheds_of_memory_eq hb rfl rfl, ⟨rfl, fun _ _ => rfl⟩⟩
  | tidy ht => exact ⟨ht.sheds hb, ht.guards hb⟩

theorem Acts.sheds (ha : Acts Machine.Steady r r') (hb : r.vm.env.Bonded) :
    r.vm.env.Sheds r'.vm.env ∧ r.vm.env.Guards r'.vm.env := by
  induction ha with
  | refl => exact ⟨Environment.sheds_of_memory_eq hb rfl rfl, ⟨rfl, fun _ _ => rfl⟩⟩
  | tail _ hact ih =>
    obtain ⟨hsheds, hguards⟩ := hact.sheds ih.1.bonded
    exact ⟨ih.1.trans hsheds, ih.2.trans hguards⟩

theorem Tracks.made (ht : Tracks past env) (hone : env.BindsOne h e env') :
    Tracks ((env'.heap.lost env.heap).map (fun p => .made p.1 p.2) ++ past) env' := by
  rw [Heap.lost_eq_singleton hone.fresh hone.entity_eq]
  refine ⟨hone.bonded, ⟨(ht.bond h).symm.trans hone.fresh, ht.orderly⟩, fun k => ?_,
    fun k d hk => ?_, fun d => (hone.told d).trans (ht.told d)⟩
  · show _ = if h = k then some e else bond? k past
    rw [hone.entity_eq, ht.bond k]
    exact if_congr eq_comm rfl rfl
  · obtain ⟨hbound, hroot⟩ := ht.held k d hk
    refine ⟨?_, hone.extraRoots ▸ hroot⟩
    rw [hone.entity_eq, if_neg, hbound]
    rintro rfl
    rw [hone.fresh] at hbound
    cases hbound

theorem Tracks.handed (ht : Tracks past env) (hbound : env.heap.entity? h = some e) :
    Tracks (.handed h e :: past) (env.addRoot (.object h)) := by
  refine ⟨⟨ht.bonded.slotted, ht.bonded.accounted, ht.bonded.bounded, ht.bonded.natives⟩,
    ⟨(ht.bond h).symm.trans hbound, ht.orderly⟩, ht.bond, fun k d hk => ?_, ht.told⟩
  have hroots : (env.addRoot (.object h)).extraRoots.toList = env.extraRoots.toList ++
      [.object h] :=
    Array.toList_push
  rw [hroots, List.mem_append, List.mem_singleton]
  unfold held? at hk
  split at hk
  · rename_i heq
    cases hk
    exact ⟨heq ▸ hbound, .inr (heq ▸ rfl)⟩
  · obtain ⟨hbound, hroot⟩ := ht.held k d hk
    exact ⟨hbound, .inl hroot⟩

theorem Tracks.bound (ht : Tracks past r.vm.env) (he : e.index < r.vm.env.memory.entities.size)
    (hx : Binds e r (some h) r') :
    Tracks (.handed h e :: (r'.vm.env.heap.lost r.vm.env.heap).map (fun p => .made p.1 p.2) ++ past)
      r'.vm.env := by
  cases hx with
  | made hnew hrun =>
    have hone := Environment.bindsOne_newEntity ht.bonded he hnew
    have hone := hone.steady (hrun.env hone.bonded.natives)
    exact (ht.made hone).handed ((hone.entity_eq h).trans (if_pos rfl))

theorem Tracks.unbound (ht : Tracks past r.vm.env) (he : e.index < r.vm.env.memory.entities.size)
    (hx : Binds e r none r') :
    Tracks ((r'.vm.env.heap.lost r.vm.env.heap).map (fun p => .made p.1 p.2) ++ past)
      r'.vm.env := by
  cases hx with
  | refused henv =>
    rw [henv, Heap.lost_eq_nil fun _ => rfl]
    exact ht
  | failed hnew hrun =>
    have hone := Environment.bindsOne_newEntity ht.bonded he hnew
    exact ht.made (hone.steady (hrun.env hone.bonded.natives))

theorem Request.after_of_ok {q : Request} (hrun : q.operation r = .ok () r') : q.after r = r' := by
  unfold after
  rw [hrun]

theorem Request.after_of_error {q : Request} {halt : Halt RegistryError}
    (hrun : q.operation r = .error halt r') : q.after r = r' := by
  unfold after
  rw [hrun]

/-- A request that is to bind an instance. -/
theorem Tracks.binds (ht : Tracks past r.vm.env) (he : e.index < r.vm.env.memory.entities.size)
    {x : Operation Handle} {q : Request} (hq : q.operation = do let _ ← x)
    (hx : Binds.Outcome e r (x r)) :
    Tracks (bindingEvents e r (x r) ++ past) (q.after r).vm.env := by
  cases hrun : x r with
  | ok h r' =>
    rw [Request.after_of_ok (congrFun hq r |>.trans (Exec.bind_of_ok hrun))]
    rw [hrun] at hx
    exact ht.bound he hx
  | error halt r' =>
    rw [Request.after_of_error (congrFun hq r |>.trans (Exec.bind_of_error hrun))]
    rw [hrun] at hx
    exact ht.unbound he hx

theorem Tracks.unlink (ht : Tracks past r.vm.env) (h : Handle) :
    Tracks ((Request.unlinkEntity h).events r ++ past)
      ((Request.unlinkEntity h).after r).vm.env := by
  have hentity := r.vm.env.entity?_unlink h
  have hbonded := ht.bonded.unlink h
  -- a handle that is still held is another one, and stays a root
  have hheld : ∀ k d, k ≠ h → held? k past = some d →
      (r.vm.env.unlink h).heap.entity? k = some d ∧
        .object k ∈ (r.vm.env.extraRoots.filter fun v => v.object? != some h).toList := by
    intro k d hk hd
    obtain ⟨hbound, hroot⟩ := ht.held k d hd
    refine ⟨(hentity k).trans ((if_neg hk).trans hbound), ?_⟩
    rw [Array.toList_filter, List.mem_filter]
    exact ⟨hroot, by simpa [Value.object?] using hk⟩
  cases he : r.vm.env.heap.entity? h with
  | none =>
    have hevents : (Request.unlinkEntity h).events r = [] :=
      congrArg (fun entity : Option EntityId => entity.toList.map (LifeEvent.unlinked h)) he
    rw [hevents, List.nil_append]
    refine ⟨⟨hbonded.slotted, hbonded.accounted, hbonded.bounded, hbonded.natives⟩, ht.orderly,
      fun k => ?_, fun k d hk => ?_, ht.told⟩
    · refine (hentity k).trans ?_
      split
      · rename_i heq
        rw [← ht.bond, heq, he]
      · exact ht.bond k
    · refine hheld k d ?_ hk
      rintro rfl
      have hbound := (ht.held k d hk).1
      rw [he] at hbound
      cases hbound
  | some e =>
    have hevents : (Request.unlinkEntity h).events r = [.unlinked h e] :=
      congrArg (fun entity : Option EntityId => entity.toList.map (LifeEvent.unlinked h)) he
    rw [hevents]
    refine ⟨⟨hbonded.slotted, hbonded.accounted, hbonded.bounded, hbonded.natives⟩,
      ⟨(ht.bond h).symm.trans he, ht.orderly⟩, fun k => ?_, fun k d hk => ?_, ht.told⟩
    · refine (hentity k).trans ?_
      show _ = if h = k then none else bond? k past
      rw [ht.bond k]
      exact if_congr eq_comm rfl rfl
    · have hk : (if h = k then none else held? k past) = some d := hk
      split at hk
      · cases hk
      · rename_i hne
        exact hheld k d (Ne.symm hne) hk

/-! ### Disposal -/

theorem sheds_dispose (hb : r.vm.env.Bonded) :
    Leaves r dispose (fun r' => r.vm.env.Sheds r'.vm.env) fun _ r' =>
      ∀ h, r'.vm.env.heap.get? h = none := by
  obtain ⟨env₁, env₂, env₃, htidied, hpurged, ⟨log, -, rfl⟩, hdispose⟩ := dispose_cases r
  have hkept : r.vm.env.Sheds r.vm.env.keepDefinitions := Environment.sheds_of_memory_eq hb rfl rfl
  have hfirst := hkept.trans (htidied.sheds hkept.bonded)
  have hforgot : env₁.Sheds env₁.forget := Environment.sheds_of_memory_eq hfirst.bonded rfl rfl
  have hsecond := (hfirst.trans hforgot).trans (hpurged.sheds hforgot.bonded)
  have hlast : env₂.Sheds { env₂ with loader := env₂.loader.map Loader.clear, log } :=
    Environment.sheds_of_memory_eq hsecond.bonded rfl rfl
  rcases hdispose with ⟨hrun, -⟩ | hrun
  · exact leaves_of_error hrun hfirst
  · split at hrun
    · exact leaves_of_error hrun hsecond
    · exact leaves_of_ok hrun (hsecond.trans hlast) (hpurged.nothing hforgot.bonded)

/-- Everything is taken down if the next threshold is in range even where nothing is removed. -/
theorem dispose_returns (hb : r.vm.env.Bonded)
    (hroom : r.vm.env.heap.accounted + r.vm.env.heap.growth < Heap.sizeRange) :
    ∃ r', dispose r = .ok () r' := by
  obtain ⟨env₁, env₂, env₃, htidied, -, -, hdispose⟩ := dispose_cases r
  have hkept : r.vm.env.Sheds r.vm.env.keepDefinitions := Environment.sheds_of_memory_eq hb rfl rfl
  have hfirst := htidied.sheds hkept.bonded
  have hless : env₁.heap.accounted ≤ r.vm.env.heap.accounted := htidied.accounted_le hkept.bonded
  have hgrowth : env₁.heap.growth = r.vm.env.heap.growth := hfirst.growth
  rcases hdispose with ⟨-, hover⟩ | hrun
  · exact absurd (Heap.le_of_overflow hb.slotted hb.accounted hover) (Nat.not_le_of_lt hroom)
  · split at hrun
    · rename_i hover
      have hle := Heap.le_of_overflow hfirst.bonded.slotted hfirst.bonded.accounted hover
      omega
    · exact ⟨_, hrun⟩

theorem Tracks.dispose (ht : Tracks past r.vm.env) :
    Tracks (Request.dispose.events r ++ past) (Request.dispose.after r).vm.env := by
  have hsheds : r.vm.env.Sheds (Request.dispose.after r).vm.env := by
    have hleaves := sheds_dispose ht.bonded
    cases hrun : Request.dispose.operation r with
    | ok _ r' => exact Request.after_of_ok hrun ▸ (hleaves.ok hrun).1
    | error halt r' => exact Request.after_of_error hrun ▸ hleaves.error hrun
  -- once everything is to be taken down, nothing is held any more
  have hlet : Tracks (.disposed :: past) r.vm.env :=
    ⟨ht.bonded, ⟨trivial, ht.orderly⟩, ht.bond, fun _ _ hk => (Option.some_ne_none _ hk.symm).elim,
      ht.told⟩
  have hend := hlet.shed hsheds fun _ _ hk => (Option.some_ne_none _ hk.symm).elim
  rwa [← List.singleton_append, ← List.append_assoc] at hend

/-! ### Whole courses -/

theorem Tracks.after (ht : Tracks past r.vm.env) (q : Request)
    (hq : ∀ e ∈ q.entity?, e.index < r.vm.env.memory.entities.size) :
    Tracks (q.events r ++ past) (q.after r).vm.env := by
  have hordinary (hq : q.IsOrdinary) :
      Tracks (ofLost (r.vm.env.heap.lost (q.after r).vm.env.heap) ++ past) (q.after r).vm.env := by
    obtain ⟨hsheds, hguards⟩ := Acts.sheds (acts_after Exec.keeps_steady_execute hq r) ht.bonded
    exact ht.guarded hsheds hguards
  cases q with
  | spawnEntity fuel className e => exact ht.binds (hq e rfl) rfl (binds_spawn fuel className e r)
  | cloneEntity source e => exact ht.binds (hq e rfl) rfl (binds_clone source e r)
  | unlinkEntity h => exact ht.unlink h
  | dispose => exact ht.dispose
  | _ => exact hordinary trivial

theorem Course.tracks (hn : natives.Steady) (hc : Course natives past r) :
    Tracks past r.vm.env := by
  induction hc with
  | new config source log =>
    have hnone : ∀ k, (Heap.withThreshold config.threshold config.growth).entity? k = none :=
      fun _ => rfl
    refine ⟨⟨Heap.slotted_withThreshold _ _, Heap.accounted_withThreshold _ _,
      fun k e he => ?_, hn⟩, trivial, hnone, fun _ _ hk => (Option.some_ne_none _ hk.symm).elim,
      fun _ => rfl⟩
    cases (hnone k).symm.trans he
  | request q _ hq ih => exact ih.after q hq
  | host _ ht ih => exact ih.steady ht.memory ht.extraRoots ht.natives

/-- **Entities live until they are let go.** Whatever a host does, instances are bound and reclaimed
as the events say, and a disposal that returns reclaims the rest. -/
theorem entity_lifetime (hn : natives.Steady) (hc : Course natives past r) :
    Orderly past ∧
    (∀ h, r.vm.env.heap.entity? h = bond? h past) ∧
    (∀ h e, held? h past = some e → r.vm.env.heap.entity? h = some e) ∧
    (∀ e, r.vm.env.memory.reclaimedCount e = past.countP (LifeEvent.tells e)) ∧
    (∀ r', dispose r = .ok () r' → (∀ h, r'.vm.env.heap.contains h = false) ∧
      ∀ e, r'.vm.env.memory.reclaimedCount e =
        r.vm.env.memory.reclaimedCount e + r.vm.env.heap.bonds.countP fun p => p.2 = e) ∧
    (r.vm.env.heap.accounted + r.vm.env.heap.growth < Heap.sizeRange →
      ∃ r', dispose r = .ok () r') := by
  have ht := hc.tracks hn
  refine ⟨ht.orderly, ht.bond, fun h e hh => (ht.held h e hh).1, ht.told, fun r' hrun => ?_,
    dispose_returns ht.bonded⟩
  obtain ⟨hsheds, hnothing⟩ := (sheds_dispose ht.bonded).ok hrun
  refine ⟨fun h => by rw [Heap.contains, hnothing]; rfl, fun e => ?_⟩
  -- where nothing is left, every bond is lost
  have hall : r.vm.env.heap.lost r'.vm.env.heap = r.vm.env.heap.bonds := by
    refine List.filter_eq_self.2 fun p _ => decide_eq_true ?_
    rw [Heap.entity?, hnothing]
    exact (Option.some_ne_none p.2).symm
  rw [hsheds.told, hall]

/-- A registry to which the host has given a class of lamps, a class of bulbs whose initializer asks
for an argument, and two native objects. -/
def workshop : Registry :=
  let r := Registry.new .standard .empty Native.standard default
  let (lamp, memory) := r.vm.env.memory.alloc (.scriptClass (.ofHash (hashName "Lamp")))
  let (initializer, memory) := memory.alloc (.function (.ofCode 1 (hashName "Bulb") #[]))
  let (bulb, memory) := memory.alloc (.scriptClass
    { ClassObject.ofHash (hashName "Bulb") with initializer := some (.object initializer) })
  let (_, memory) := memory.newEntity []
  let (_, memory) := memory.newEntity []
  let globals := (r.vm.env.globals.insert (hashName "Lamp") (.object lamp)).insert (hashName "Bulb")
    (.object bulb)
  { r with vm := { r.vm with env := { r.vm.env with memory, globals } } }

theorem course_workshop : Course Native.standard [] workshop := by
  refine .host (.new .standard .empty default) ⟨?_, rfl, rfl⟩
  refine (Memory.Steady.trans ?_ (Memory.steady_newEntity _ [])).trans
    (Memory.steady_newEntity _ [])
  exact ((Memory.steady_alloc _ rfl).trans (Memory.steady_alloc _ rfl)).trans
    (Memory.steady_alloc _ rfl)

/-- A lamp that was spawned outlives a collection. A bulb whose initializer failed does not, and its
native object is told. -/
theorem entity_lifetime_workshop :
    let lit := (Request.spawnEntity 9 "Lamp" ⟨0⟩).after workshop
    let blown := (Request.spawnEntity 9 "Bulb" ⟨1⟩).after lit
    let r := Request.forceCollection.after blown
    r.vm.env.heap.entity? ⟨3, 0⟩ = some ⟨0⟩ ∧ r.vm.env.memory.reclaimedCount ⟨1⟩ = 1 ∧
      ∃ r', dispose r = .ok () r' ∧ r'.vm.env.memory.reclaimedCount ⟨0⟩ = 1 := by
  intro lit blown r
  have hlit := course_workshop.request (.spawnEntity 9 "Lamp" ⟨0⟩) (by decide +kernel)
  have hblown := hlit.request (.spawnEntity 9 "Bulb" ⟨1⟩) (by decide +kernel)
  have hr := hblown.request .forceCollection (by decide +kernel)
  obtain ⟨-, -, hheld, htold, hdispose, hreturns⟩ := entity_lifetime Native.steady_standard hr
  refine ⟨hheld _ _ (by decide +kernel), (htold _).trans (by decide +kernel), ?_⟩
  obtain ⟨r', hrun⟩ := hreturns (by decide +kernel)
  exact ⟨r', hrun, ((hdispose r' hrun).2 ⟨0⟩).trans (by decide +kernel)⟩

end Registry
end ScriptVm
