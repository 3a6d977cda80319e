import ScriptVm.Proofs.Machine.Constants
import ScriptVm.Proofs.Machine.EntityFields
import ScriptVm.Proofs.Machine.HostCells

/-!
# Unlinked instances and the cells of the host

An instance that was unlinked has no linked field, and gets none: scripts store no links, and the
host gives links to new instances only. So whatever a script does with its fields has nothing to do
with the cells of the host.

* `Severed` says that no field of an object is linked. `KeepsSevered` is the relation between
  machines that steps and runs keep: an object that is severed stays so.
* `Aftermath` are the machines that come of one in which an instance was unlinked;
  `Aftermath.severed` says that the instance is severed in all of them.
* `CutOff` is what that means for the instructions that get at properties.
* `entity_links` puts together what cloning and unlinking do. `unlinked_reads_member` is the way
  that is left from an unlinked instance to a cell: a member that the host linked in its class.
-/

namespace ScriptVm

/-- No field of an object is linked. -/
def Heap.Severed (heap : Heap) (h : Handle) : Prop :=
  ∀ hash (l : Link), heap.kept? h (.field hash) ≠ some l.value

theorem Heap.Severed.noNewLink {heap heap' : Heap} {h : Handle} (hsevered : heap.Severed h)
    (hnew : heap.NoNewLink heap') : heap'.Severed h :=
  fun hash l hl => hsevered hash l (hnew h (.field hash) l hl)

/-- Natives that link no field of an object that is severed. They may write cells. -/
def Natives.LeaveSevered (natives : Natives) (h : Handle) : Prop :=
  ∀ name (mem : Memory) args, mem.heap.Severed h → (natives name mem args).2.heap.Severed h

/-- A member that an instance has from its class, an ancestor or the entity base is linked. -/
def Environment.InheritsLink (env : Environment) (i : InstanceObject) (hash : UInt32) : Prop :=
  i.fields.get? hash = none ∧ ∃ l : Link, (env.findMember i.classHandle hash).1 = some l.value

theorem Environment.severed_unlink {env : Environment} {h : Handle} {i : InstanceObject}
    (hi : env.heap.get? h = some (.inst i)) : (env.unlink h).heap.Severed h := by
  intro hash l hl
  obtain ⟨⟨fields, hget, hfields⟩, -, -⟩ := Environment.unlinked_unlink hi
  obtain ⟨o, ho, hkept⟩ := Option.bind_eq_some_iff.1 hl
  cases hget.symm.trans ho
  replace hkept : fields.get? hash = some l.value := hkept
  by_cases hlinked : ∃ l' : Link, i.fields.get? hash = some l'.value
  · obtain ⟨l', hl'⟩ := hlinked
    rw [(hfields hash).1 l' hl'] at hkept
    exact l'.value.plain_delink env.memory.cells l (Option.some.inj hkept)
  · rw [(hfields hash).2 fun l' hl' => hlinked ⟨l', hl'⟩] at hkept
    exact hlinked ⟨l, hkept⟩

namespace Machine

open Exec

variable {m m' : Machine} {h : Handle} {i : InstanceObject} {v : Value} {hash : UInt32}
  {argc : UInt8}

/-! ### Scripts link nothing -/

/-- An object that is severed stays so, with natives that leave it alone. -/
def KeepsSevered (h : Handle) (m m' : Machine) : Prop :=
  m.env.natives.LeaveSevered h → m.env.heap.Severed h →
    m'.env.natives = m.env.natives ∧ m'.env.heap.Severed h

theorem keepsSevered_of_heap (hnatives : m'.env.natives = m.env.natives)
    (hheap : m.env.heap.NoNewLink m'.env.heap) : m.KeepsSevered h m' :=
  fun _ hsevered => ⟨hnatives, hsevered.noNewLink hheap⟩

theorem keepsSevered_of_same (hnatives : m'.env.natives = m.env.natives)
    (hheap : m'.env.heap = m.env.heap) : m.KeepsSevered h m' :=
  keepsSevered_of_heap hnatives fun _ _ _ hl => hheap ▸ hl

instance : AdmitsRuns (KeepsSevered h) where
  trans _ _ _ hm hm' hn hsevered := by
    obtain ⟨hnatives, hsevered'⟩ := hm hn hsevered
    obtain ⟨hnatives', hsevered''⟩ := hm' (hnatives ▸ hn) hsevered'
    exact ⟨hnatives'.trans hnatives, hsevered''⟩
  refl _ := keepsSevered_of_same rfl rfl
  stack _ _ := keepsSevered_of_same rfl rfl
  register _ _ := keepsSevered_of_same rfl rfl
  enter _ _ := keepsSevered_of_same rfl rfl
  edit _ _ he := keepsSevered_of_heap he.steadily.natives fun k p => he.plain (.pocket k p)
  native m name args hn hsevered := ⟨rfl, hn name m.env.memory args hsevered⟩
  thread _ _ _ := keepsSevered_of_same rfl rfl
  loaded _ _ _ _ := keepsSevered_of_same rfl rfl

theorem keepsSevered_of_stores {x : Exec Unit} {l : Link} (hx : Stores x l v m) :
    m.KeepsSevered h (after x m) := by
  cases hcast : l.cast? m.env.memory.cells v with
  | none =>
    obtain ⟨c, hrun, -⟩ := hx.other hcast
    rw [after_of_error hrun]
    exact Admits.refl m
  | some w =>
    rw [after_of_ok (hx.number w hcast)]
    exact keepsSevered_of_same rfl rfl

theorem keepsSevered_setGlobal (hash : UInt32) (v : Value) :
    Keeps (KeepsSevered h) (setGlobal hash v) := by
  intro m
  obtain ⟨l, -, hstores⟩ | ⟨-, hafter⟩ | hafter := setGlobal_cases hash v m
  · exact keepsSevered_of_stores hstores
  · rw [hafter]
    exact keepsSevered_of_same rfl rfl
  · rw [hafter]
    exact Admits.refl m

/-- What is stored in a field is no link. -/
theorem keepsSevered_setProperty (object : Value) (hash : UInt32) (v : Value) :
    Keeps (KeepsSevered h) (setProperty object hash v) := by
  intro m
  obtain ⟨l, -, hstores⟩ | ⟨k, rfl, -, hafter⟩ | hafter := setProperty_cases object hash v m
  · exact keepsSevered_of_stores hstores
  · rw [hafter]
    exact keepsSevered_of_heap rfl (m.env.heap.noNewLink_modify k
      (Obj.noNewLink_insertField (v.plain_delink m.env.memory.cells) hash))
  · rw [hafter]
    exact Admits.refl m

theorem keepsSevered_defineConstant (hash : UInt32) (v : Value) :
    Keeps (KeepsSevered h) (defineConstant hash v) :=
  fun _ => keepsSevered_of_same rfl rfl

theorem keepsSevered_watch (expected : Machine → Bool) (fuel : Nat) :
    Keeps (KeepsSevered h) (watch expected fuel) :=
  keeps_watch keepsSevered_setGlobal (fun _ _ _ _ _ _ => keepsSevered_of_same rfl rfl)
    (fun _ hash m' _ _ => keeps_pop.bind (keepsSevered_defineConstant hash) m')
    keepsSevered_setProperty fuel

/-! ### After unlinking -/

/-- The machines that come of one in which an instance is unlinked: scripts run, also partly, and
the host does what it likes but link fields of the instance anew. -/
inductive Aftermath (h : Handle) (m : Machine) : Machine → Prop
  | unlink : Aftermath h m { m with env := m.env.unlink h }
  | enter {m' : Machine} (e : Entry) (expected : Machine → Bool) : Aftermath h m m' →
      Aftermath h m (after (e.run (watch expected)) m')
  | loadScript {m' : Machine} (expected : Machine → Bool) (fuel : Nat) (file : UInt32) :
      Aftermath h m m' →
      Aftermath h m (after (Load.loadScript (watch expected fuel) file) m')
  | loadClass {m' : Machine} (expected : Machine → Bool) (fuel : Nat) (name : String) :
      Aftermath h m m' →
      Aftermath h m (after (Load.loadClass (watch expected fuel) name) m')
  | host {m' : Machine} {env : Environment} (t : Thread) : Aftermath h m m' →
      env.natives = m'.env.natives →
      (∀ hash (l : Link), env.heap.kept? h (.field hash) = some l.value →
        m'.env.heap.kept? h (.field hash) = some l.value) → Aftermath h m ⟨env, t⟩

/-- Whatever happens after unlinking, the fields stay unlinked. -/
theorem Aftermath.severed (hi : m.env.heap.instance? h = some i) (hn : m.env.natives.LeaveSevered h)
    (ha : Aftermath h m m') : m'.env.natives = m.env.natives ∧ m'.env.heap.Severed h := by
  have hkeeps : ∀ {m₁ m₂ : Machine}, m₁.env.natives = m.env.natives ∧ m₁.env.heap.Severed h →
      m₁.KeepsSevered h m₂ → m₂.env.natives = m.env.natives ∧ m₂.env.heap.Severed h := by
    rintro m₁ m₂ ⟨hnatives, hsevered⟩ hkept
    obtain ⟨hnatives', hsevered'⟩ := hkept (hnatives ▸ hn) hsevered
    exact ⟨hnatives'.trans hnatives, hsevered'⟩
  -- what scripts do keeps the fields unlinked by the instructions; of the host it is assumed
  induction ha with
  | unlink => exact ⟨rfl, Environment.severed_unlink (Heap.instance?_eq_some.1 hi)⟩
  | enter e expected _ ih => exact hkeeps ih (keeps_entry (keepsSevered_watch expected) e _)
  | loadScript expected fuel file _ ih =>
    exact hkeeps ih (keeps_loadScript (keepsSevered_watch expected fuel) file _)
  | loadClass expected fuel name _ ih =>
    exact hkeeps ih (keeps_loadClass (keepsSevered_watch expected fuel) name _)
  | host t _ hnatives hnew ih =>
    exact ⟨hnatives.trans ih.1, fun hash l hl => ih.2 hash l (hnew hash l hl)⟩

/-! ### Access to an unlinked instance -/

/-- The cells hold the same numbers. -/
def SameCells (m m' : Machine) : Prop := m'.env.memory.cells = m.env.memory.cells

instance : IsTrans Machine SameCells := ⟨fun _ _ _ h h' => h'.trans h⟩

theorem keeps_sameCells {α : Type} {x : Exec α} (hx : ∀ m, Disregards x m) : Keeps SameCells x :=
  fun m => (hx m).cells_eq

/-- Scripts that get at the properties of an instance write no cell and take no notice of one, but
for members linked in the class, linked values and natives. -/
structure CutOff (h : Handle) (i : InstanceObject) (m : Machine) : Prop where
  fields : ∀ hash v, i.fields.get? hash = some v → v.Plain
  read : ∀ executor hash, m.fromTop? 0 = some (.object h) →
    SameCells m (after (perform executor (.getProperty hash)) m) ∧
      (¬ m.env.InheritsLink i hash → Disregards (perform executor (.getProperty hash)) m)
  write : ∀ executor hash v, m.fromTop? 0 = some v → m.fromTop? 1 = some (.object h) →
    SameCells m (after (perform executor (.setProperty hash)) m) ∧
      (v.Plain → Disregards (perform executor (.setProperty hash)) m)
  ask : ∀ executor hash, m.fromTop? 0 = some (.object h) →
    Disregards (perform executor (.hasProperty hash)) m
  call : ∀ executor (argc : UInt8) hash isSuper, m.fromTop? argc.toNat = some (.object h) →
    m.env.natives.DisregardCells → Disregards (perform executor (.invoke argc hash isSuper)) m

theorem plain_field (hsevered : m.env.heap.Severed h) (hi : m.env.heap.instance? h = some i)
    (hv : i.fields.get? hash = some v) : v.Plain := by
  rintro l rfl
  exact hsevered hash l (Option.bind_eq_some_iff.2 ⟨.inst i, Heap.instance?_eq_some.1 hi, hv⟩)

theorem plain_property? (hsevered : m.env.heap.Severed h) (hi : m.env.heap.instance? h = some i)
    (hlink : ¬ m.env.InheritsLink i hash) (hv : (m.env.property? (.object h) hash).1 = some v) :
    v.Plain := by
  have horigin : m.env.origin? (.object h) = some (i.fields, i.classHandle) := by
    simp [Environment.origin?, Value.object?, Heap.instance?_eq_some.1 hi]
  unfold Environment.property? at hv
  rw [horigin] at hv
  dsimp only at hv
  cases hfield : i.fields.get? hash with
  | some field =>
    rw [hfield] at hv
    exact plain_field hsevered hi (hfield.trans hv)
  | none =>
    rw [hfield] at hv
    rintro l rfl
    exact hlink ⟨hfield, l, hv⟩

theorem read_of_severed (hsevered : m.env.heap.Severed h) (hi : m.env.heap.instance? h = some i)
    (ho : m.fromTop? 0 = some (.object h)) (executor : Exec Unit) (hash : UInt32) :
    SameCells m (after (perform executor (.getProperty hash)) m) ∧
      (¬ m.env.InheritsLink i hash → Disregards (perform executor (.getProperty hash)) m) := by
  have hpeek : peek 0 m = .ok (.object h) m := peek_of_fromTop? (by decide) ho
  refine ⟨?_, fun hlink => ?_⟩
  · rw [show after (perform executor (.getProperty hash)) m = _ from after_bind_of_ok hpeek]
    exact after_bind (R := SameCells) (cells_getProperty _ hash m)
      (fun w => keeps_sameCells fun _ => disregards_setPeek 0 w) (fun _ _ _ => IsTrans.trans _ _ _)
      fun _ _ => id
  · refine (disregards_peek 0).bind fun object m' hrun => ?_
    cases hpeek.symm.trans hrun
    refine (disregards_getProperty fun w hw => plain_property? hsevered hi hlink hw).bind
      fun w _ _ => ?_
    exact disregards_setPeek 0 w

theorem write_of_severed (hsevered : m.env.heap.Severed h) (hi : m.env.heap.instance? h = some i)
    (hv : m.fromTop? 0 = some v) (ho : m.fromTop? 1 = some (.object h)) (executor : Exec Unit)
    (hash : UInt32) : SameCells m (after (perform executor (.setProperty hash)) m) ∧
      (v.Plain → Disregards (perform executor (.setProperty hash)) m) := by
  have hfields : (m.env.heap.get? h).bind fieldsOf? = some i.fields := by
    rw [Heap.instance?_eq_some.1 hi]
    rfl
  have hslot : ∀ slot, i.fields.get? hash = some slot → slot.Plain :=
    fun _ => plain_field hsevered hi
  have hrest : ∀ m, Disregards (pop >>= fun _ => setPeek 0 v) m :=
    fun _ => disregards_pop.bind fun _ _ _ => disregards_setPeek 0 v
  refine ⟨?_, fun hplain => ?_⟩
  · have hset := setProperty_of_plain (v := v) hfields fun slot hget =>
      (hslot slot hget).link?_eq_none
    unfold after
    rw [perform_setProperty hv ho, bind_of_ok hset]
    exact (hrest _).cells_eq
  · have hpeek : peek 0 m = .ok v m := peek_of_fromTop? (by decide) hv
    have hpeek' : peek 1 m = .ok (.object h) m := peek_of_fromTop? (by decide) ho
    refine (disregards_peek 0).bind fun w m' hrun => ?_
    cases hpeek.symm.trans hrun
    refine (disregards_peek 1).bind fun object m' hrun => ?_
    cases hpeek'.symm.trans hrun
    exact (disregards_setProperty hfields hslot hplain).bind fun _ m' _ => hrest m'

theorem call_of_severed (hsevered : m.env.heap.Severed h) (hi : m.env.heap.instance? h = some i)
    (ho : m.fromTop? argc.toNat = some (.object h)) (hn : m.env.natives.DisregardCells)
    (executor : Exec Unit) (hash : UInt32) (isSuper : Bool) :
    Disregards (perform executor (.invoke argc hash isSuper)) m := by
  have hpeek : peek argc.toNat m = .ok (.object h) m := by
    have hlt : argc.toNat < 256 := argc.toNat_lt
    exact peek_of_fromTop? (Nat.lt_of_le_of_lt hlt (by decide)) ho
  refine (disregards_peek argc.toNat).bind fun object m' hrun => ?_
  cases hpeek.symm.trans hrun
  refine disregards_environment (fun _ => rfl) ?_
  rw [Heap.instance?_eq_some.1 hi]
  exact disregards_invokeOnInstance hn (fun _ => plain_field hsevered hi) argc.toNat isSuper

theorem cutOff_of_severed (hsevered : m.env.heap.Severed h) (hi : m.env.heap.instance? h = some i) :
    m.CutOff h i where
  fields _ _ := plain_field hsevered hi
  read executor hash ho := read_of_severed hsevered hi ho executor hash
  write executor hash _ hv ho := write_of_severed hsevered hi hv ho executor hash
  ask _ hash _ := disregards_pop.bind fun object _ _ =>
    (disregards_hasProperty object hash).bind fun has _ _ => disregards_push (.ofBool has)
  call executor _ hash isSuper ho hn := call_of_severed hsevered hi ho hn executor hash isSuper

/-- **Clones have links of their own, and unlinked instances have none.** Of an unlinked instance
only members that the host linked in its class still lead to a cell. -/
theorem entity_links (hs : m.env.heap.Slotted) :
    (∀ source i n, m.env.heap.instance? source = some i →
      ∃ clone env, cloneEntity source n m = .ok clone { m with env } ∧ m.env.Cloned i n clone env ∧
        ∀ hash (l : Link), env.heap.field? clone hash = some l.value →
          ∃ name, hashName name = hash ∧ (name, l) ∈ m.env.entityFields n) ∧
    ∀ h i, m.env.heap.instance? h = some i →
      m.env.Unlinked h i (m.env.unlink h) ∧
      (m.env.natives.LeaveSevered h → ∀ m' i', Aftermath h m m' →
        m'.env.heap.instance? h = some i' →
        m'.CutOff h i') := by
  refine ⟨fun source i n hi => ?_, fun h i hi => ⟨?_, fun hn m' i' ha hi' => ?_⟩⟩
  · obtain ⟨clone, env, hrun, hcloned⟩ := cloneEntity_eq hs hi n
    exact ⟨clone, env, hrun, hcloned, fun hash l => hcloned.links fun _ _ =>
      Table.plain_of_get?_filter⟩
  · exact Environment.unlinked_unlink (Heap.instance?_eq_some.1 hi)
  · exact cutOff_of_severed (ha.severed hi hn).2 hi'

/-- A class of lamps with a linked member, two native objects with one cell each, and a lamp that
stands for the first, whose cell is that of the member. The lamp is on the stack. -/
def wired : Machine :=
  let heap := (Heap.empty.alloc (.scriptClass (.ofHash (hashName "Lamp")))).2
  let env := Environment.new heap (fun _ => Native.first) none default
  let memory : Memory := ⟨heap, ⟨#[5, 9], #[]⟩,
    #[⟨[("Health", .integer ⟨0⟩)], 0⟩, ⟨[("Health", .integer ⟨1⟩)], 0⟩]⟩
  let env := { env with memory }.bindLink (some ⟨0, 0⟩) "Level" (.integer ⟨0⟩)
  let (lamp, env) := env.newEntity ⟨0, 0⟩ ⟨0⟩
  ⟨env, { Thread.new 0 with stack := #[.object lamp] }⟩

/-- The lamp after it was unlinked, with a number that the host then put into the cell. -/
def unwired (n : Int32) : Machine :=
  { wired with env := (wired.env.unlink ⟨1, 0⟩).withCells ⟨#[n, 9], #[]⟩ }

/-- A clone of the lamp for the second native object is linked to the cell of that, and reading the
field of the unlinked lamp has nothing to do with what is in the cells. -/
theorem entity_links_lamp :
    (∃ clone env, cloneEntity ⟨1, 0⟩ ⟨1⟩ wired = .ok clone { wired with env } ∧
      env.heap.field? clone (hashName "Health") = some (.linkedInteger ⟨1⟩)) ∧
    Disregards (perform (execute 0) (.getProperty (hashName "Health"))) (unwired 7) := by
  have hslotted : wired.env.heap.Slotted :=
    Heap.slotted_modify (Heap.slotted_modify (Heap.slotted_alloc (Heap.slotted_modify
      (Heap.slotted_alloc (Heap.slotted_withThreshold _ _) _) _ _) _) _ _) _ _
  obtain ⟨hclone, hunlink⟩ := entity_links hslotted
  refine ⟨?_, ?_⟩
  · obtain ⟨clone, env, hrun, hcloned, -⟩ := hclone ⟨1, 0⟩ _ ⟨1⟩ rfl
    obtain ⟨fields, hget, hfields⟩ := hcloned.inst
    exact ⟨clone, env, hrun, Heap.field?_eq_some.2 ⟨_, hget, (hfields _).trans (by rfl)⟩⟩
  · have hafter : Aftermath ⟨1, 0⟩ wired (unwired 7) :=
      .host wired.thread .unlink rfl fun _ _ hl => hl
    obtain ⟨-, hcut⟩ := hunlink ⟨1, 0⟩ _ rfl
    refine ((hcut (fun _ _ _ => id) _ _ hafter rfl).read (execute 0) _ rfl).2 ?_
    rintro ⟨hnone, -⟩
    cases hnone

/-- The member of the class is another matter: reading it through the unlinked lamp gives what the
host has put into the cell of the native object since. -/
theorem unlinked_reads_member :
    Aftermath ⟨1, 0⟩ wired (unwired 5) ∧ (unwired 5).fromTop? 0 = some (.object ⟨1, 0⟩) ∧
    wired.env.heap.entity? ⟨1, 0⟩ = some ⟨0⟩ ∧
    wired.env.entityFields ⟨0⟩ = [("Health", .integer ⟨0⟩)] ∧
    let reading := perform (execute 0) (.getProperty (hashName "Level"))
    (after reading (unwired 5)).fromTop? 0 = some (.integer 5) ∧
      (after reading (unwired 7)).fromTop? 0 = some (.integer 7) ∧
      ¬ Disregards reading (unwired 5) := by
  have hfive :
    (after (perform (execute 0) (.getProperty (hashName "Level"))) (unwired 5)).fromTop? 0 =
      some (.integer 5) := by rfl
  have hseven :
    (after (perform (execute 0) (.getProperty (hashName "Level"))) (unwired 7)).fromTop? 0 =
      some (.integer 7) := by rfl
  refine ⟨.host wired.thread .unlink rfl fun _ _ hl => hl, rfl, rfl, rfl, hfive, hseven,
    fun hsame => ?_⟩
  have hrun : perform (execute 0) (.getProperty (hashName "Level")) (unwired 7) = _ :=
    hsame ⟨#[7, 9], #[]⟩
  unfold after at hfive hseven
  rw [hrun] at hseven
  cases hr : perform (execute 0) (.getProperty (hashName "Level")) (unwired 5) with
  | ok _ m =>
    rw [hr] at hfive hseven
    cases hfive.symm.trans hseven
  | error _ m =>
    rw [hr] at hfive hseven
    cases hfive.symm.trans hseven

end Machine
end ScriptVm
