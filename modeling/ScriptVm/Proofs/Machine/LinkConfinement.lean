import Mathlib.Data.Set.Basic
import ScriptVm.Proofs.Machine.Aliasing

/-!
# Links stay where the host put them

Linked values can get to the operand stack, and from there into any instruction. None of them keeps
one.

* `Confines` says of two environments that no link was stored, that the same fields are linked to
  the same cells, and that linked globals stay linked but for some that are let go.
* `Natives.Confine` asks the same of natives, as far as they can reach.
* `Confined` is the relation between machines that instructions and runs are shown to keep.
* `link_confinement` is the result.
-/

namespace ScriptVm

/-- The linked fields of instances and classes with the cells that they are linked to. -/
def Heap.linkedFields (heap : Heap) : Set (Handle × UInt32 × Link) :=
  {f | heap.kept? f.1 (.field f.2.1) = some f.2.2.value}

/-- No link is stored anew, and the linked fields stay linked to their cells. -/
structure Memory.Confines (mem mem' : Memory) : Prop where
  slotted : mem'.heap.Slotted
  created : mem.heap.NoNewLink mem'.heap
  fields : mem'.heap.linkedFields = mem.heap.linkedFields

/-- Natives that store no link and leave linked fields as they are. They may write cells. -/
def Natives.Confine (natives : Natives) : Prop :=
  ∀ name (mem : Memory) args, mem.heap.Slotted → mem.Confines (natives name mem args).2

/-- No link is stored anew, the linked fields stay linked to their cells, and so do the linked
globals that are not let go. -/
structure Environment.Confines (loose : UInt32 → Prop) (env env' : Environment) : Prop where
  created : env.NoNewLink env'
  fields : env'.heap.linkedFields = env.heap.linkedFields
  globals : ∀ hash (l : Link), env.globals.get? hash = some l.value →
    env'.globals.get? hash = some l.value ∨ loose hash

/-! ### Changes of the heap -/

/-- Storing a field leaves the others. -/
theorem Obj.kept?_insertField_of_ne {hash other : UInt32} (hne : other ≠ hash) (v : Value)
    (o : Obj) : (Exec.insertField hash v o).kept? (.field other) = o.kept? (.field other) := by
  cases o with
  | inst i => exact i.fields.get?_insert_of_ne hne v
  | scriptClass c => exact c.fields.get?_insert_of_ne hne v
  | _ => rfl

namespace Heap

variable {heap heap' : Heap}

theorem linkedFields_eq (hnew : heap.NoNewLink heap')
    (hkept : ∀ h hash (l : Link), heap.kept? h (.field hash) = some l.value →
      heap'.kept? h (.field hash) = some l.value) : heap'.linkedFields = heap.linkedFields := by
  ext ⟨h, hash, l⟩
  constructor
  · exact hnew h (.field hash) l
  · exact hkept h hash l

theorem keptField_alloc (hs : heap.Slotted) (o : Obj) {h : Handle} {hash : UInt32} {v : Value}
    (hv : heap.kept? h (.field hash) = some v) :
    (heap.alloc o).2.kept? h (.field hash) = some v := by
  obtain ⟨p, hp, hkept⟩ := Option.bind_eq_some_iff.1 hv
  exact Option.bind_eq_some_iff.2 ⟨p, get?_alloc_of_get? hs o hp, hkept⟩

/-- A field is kept by a change that keeps it in every object. -/
theorem keptField_modify {k : Handle} {f : Obj → Obj} {h : Handle} {hash : UInt32} {v : Value}
    (hf : h = k → ∀ o : Obj, o.kept? (.field hash) = some v → (f o).kept? (.field hash) = some v)
    (hv : heap.kept? h (.field hash) = some v) :
    (heap.modify k f).kept? h (.field hash) = some v := by
  obtain ⟨p, hp, hkept⟩ := Option.bind_eq_some_iff.1 hv
  rw [kept?, get?_modify]
  by_cases hk : h = k
  · subst hk
    rw [if_pos rfl, hp]
    exact hf rfl p hkept
  · rw [if_neg hk, hp]
    exact hkept

end Heap

namespace Environment

variable {env env' env'' : Environment} {loose loose' : UInt32 → Prop}

theorem Confines.mono (h : env.Confines loose env') (hloose : ∀ hash, loose hash → loose' hash) :
    env.Confines loose' env' :=
  ⟨h.created, h.fields, fun hash l hl => (h.globals hash l hl).imp_right (hloose hash)⟩

theorem Confines.trans (h : env.Confines loose env') (h' : env'.Confines loose env'') :
    env.Confines loose env'' := by
  refine ⟨fun s l hl => h.created s l (h'.created s l hl), h'.fields.trans h.fields, ?_⟩
  intro hash l hl
  rcases h.globals hash l hl with hl' | hfree
  · exact h'.globals hash l hl'
  · exact .inr hfree

/-- Where links are kept, all is as it was. -/
theorem confines_of_same (hheap : env'.heap = env.heap) (hglobals : env'.globals = env.globals)
    (hconstants : env'.constants = env.constants) : env.Confines loose env' := by
  refine ⟨noNewLink_of_heap hglobals hconstants ?_, by rw [hheap], fun hash l hl => .inl ?_⟩
  · rw [hheap]
    exact fun _ _ _ h => h
  · rwa [hglobals]

/-- An elementary change keeps the slots of the heap, the natives, the globals and the fields. -/
theorem Edit.keeps (h : env.Edit env') (hs : env.heap.Slotted) :
    env'.heap.Slotted ∧ env'.natives = env.natives ∧ env'.globals = env.globals ∧
      ∀ h hash v, env.heap.kept? h (.field hash) = some v →
        env'.heap.kept? h (.field hash) = some v := by
  cases h with
  | report level text => exact ⟨hs, rfl, rfl, fun _ _ _ hv => hv⟩
  | constant hash v => exact ⟨hs, rfl, rfl, fun _ _ _ hv => hv⟩
  | listing => exact ⟨hs, rfl, rfl, fun _ _ _ hv => hv⟩
  | alloc o =>
    exact ⟨Heap.slotted_alloc hs o, rfl, rfl, fun _ _ _ => Heap.keptField_alloc hs o⟩
  | modify k hf =>
    refine ⟨Heap.slotted_modify hs k _, rfl, rfl, fun h hash v => ?_⟩
    refine Heap.keptField_modify fun _ o hv => ?_
    rwa [Obj.kept?, (hf o).fields]

end Environment

/-! ### Machines -/

namespace Machine

open Exec

variable {m m' : Machine} {loose loose' : UInt32 → Prop}

/-- If objects are only found where they were put and the natives comply, then this stays so and
links are confined. -/
def Confined (loose : UInt32 → Prop) (m m' : Machine) : Prop :=
  m.env.heap.Slotted → m.env.natives.Confine →
    m'.env.heap.Slotted ∧ m'.env.natives = m.env.natives ∧ m.env.Confines loose m'.env

theorem Confined.mono (h : m.Confined loose m') (hloose : ∀ hash, loose hash → loose' hash) :
    m.Confined loose' m' := by
  intro hs hn
  obtain ⟨hs', hnatives, hconfines⟩ := h hs hn
  exact ⟨hs', hnatives, hconfines.mono hloose⟩

theorem confined_of_same (hheap : m'.env.heap = m.env.heap)
    (hnatives : m'.env.natives = m.env.natives) (hglobals : m'.env.globals = m.env.globals)
    (hconstants : m'.env.constants = m.env.constants) : m.Confined loose m' := by
  intro hs _
  exact ⟨by rwa [hheap], hnatives, Environment.confines_of_same hheap hglobals hconstants⟩

instance : AdmitsRuns (Confined loose) where
  trans _ _ _ h h' hs hn := by
    obtain ⟨hs₁, hnatives, hconfines⟩ := h hs hn
    obtain ⟨hs₂, hnatives', hconfines'⟩ := h' hs₁ (by rwa [hnatives])
    exact ⟨hs₂, hnatives'.trans hnatives, hconfines.trans hconfines'⟩
  refl _ := confined_of_same rfl rfl rfl rfl
  stack _ _ := confined_of_same rfl rfl rfl rfl
  register _ _ := confined_of_same rfl rfl rfl rfl
  enter _ _ := confined_of_same rfl rfl rfl rfl
  edit _ _ he hs _ := by
    obtain ⟨hs', hnatives, hglobals, hfields⟩ := he.edit.keeps hs
    refine ⟨hs', hnatives, he.plain, ?_, fun hash l hl => .inl (by rwa [hglobals])⟩
    exact Heap.linkedFields_eq (fun h p => he.plain (.pocket h p)) fun h hash l => hfields h hash _
  native m name args hs hn := by
    obtain ⟨hs', hcreated, hfields⟩ := hn name m.env.memory args hs
    exact ⟨hs', rfl, Environment.noNewLink_of_heap rfl rfl hcreated, hfields, fun _ _ => .inl⟩
  thread _ _ _ := confined_of_same rfl rfl rfl rfl
  loaded _ _ _ _ := confined_of_same rfl rfl rfl rfl

/-! ### Writing -/

/-- What goes to a cell is stored nowhere else. -/
theorem confined_of_stores {x : Exec Unit} {l : Link} {v : Value} (hx : Stores x l v m) :
    m.Confined loose (after x m) := by
  cases hcast : l.cast? m.env.memory.cells v with
  | none =>
    obtain ⟨c, hrun, -⟩ := hx.other hcast
    rw [after_of_error hrun]
    exact Admits.refl m
  | some w =>
    rw [after_of_ok (hx.number w hcast)]
    exact confined_of_same rfl rfl rfl rfl

/-- A global that is not linked, or that is let go, gets a plain value. -/
theorem confined_insertGlobal {hash : UInt32}
    (hfree : loose hash ∨ ∀ l : Link, m.env.globals.get? hash ≠ some l.value) (v : Value) :
    m.Confined loose (after (insertGlobal hash v) m) := by
  intro hs hn
  have hplain := m.env.noNewLink_global hash (v.plain_delink m.env.memory.cells)
  refine ⟨hs, rfl, hplain, rfl, fun other l hl => ?_⟩
  by_cases hh : other = hash
  · subst hh
    exact .inr (hfree.resolve_right fun hnot => hnot l hl)
  · exact .inl ((Table.get?_insert_of_ne _ hh _).trans hl)

theorem keeps_confined_setGlobal (hash : UInt32) (v : Value) :
    Keeps (Confined loose) (setGlobal hash v) := by
  intro m
  obtain ⟨l, -, hstores⟩ | ⟨hplain, hafter⟩ | hafter := setGlobal_cases hash v m
  · exact confined_of_stores hstores
  · rw [hafter]
    exact confined_insertGlobal (.inr hplain) v
  · rw [hafter]
    exact Admits.refl m

theorem keeps_confined_defineConstant (hash : UInt32) (v : Value) :
    Keeps (Confined loose) (defineConstant hash v) := by
  intro m hs _
  have hplain := m.env.noNewLink_constant hash (v.plain_delink m.env.memory.cells)
  exact ⟨hs, rfl, hplain, rfl, fun _ _ => .inl⟩

theorem fieldsAt?_bind (m : Machine) (h : Handle) (hash : UInt32) :
    (m.fieldsAt? (.object h)).bind (·.get? hash) = m.env.heap.kept? h (.field hash) :=
  Option.bind_assoc _ _ _

theorem keeps_confined_setProperty (object : Value) (hash : UInt32) (v : Value) :
    Keeps (Confined loose) (setProperty object hash v) := by
  intro m
  obtain ⟨l, -, hstores⟩ | ⟨h, rfl, hplain, hafter⟩ | hafter := setProperty_cases object hash v m
  · exact confined_of_stores hstores
  · rw [hafter]
    intro hs hn
    have hnew := m.env.heap.noNewLink_modify h
      (Obj.noNewLink_insertField (v.plain_delink m.env.memory.cells) hash)
    refine ⟨Heap.slotted_modify hs h _, rfl, Environment.noNewLink_of_heap rfl rfl hnew, ?_,
      fun _ _ => .inl⟩
    refine Heap.linkedFields_eq hnew fun k other l hl => ?_
    refine Heap.keptField_modify (fun hk o hv => ?_) hl
    -- the field that is stored was not linked, so that this is another one
    have hne : other ≠ hash := by
      rintro rfl
      subst hk
      exact hplain l ((fieldsAt?_bind m k other).trans hl)
    rwa [Obj.kept?_insertField_of_ne hne]
  · rw [hafter]
    exact Admits.refl m

/-! ### Steps and runs -/

/-- A step confines links if the runs that it starts do. -/
theorem confined_step {executor : Exec Unit} (he : Keeps (Confined loose) executor) (m : Machine) :
    m.Confined (fun hash => loose hash ∨ m.next? = some (.defineGlobal hash))
      (after (step executor) m) := by
  refine keeps_step (he.mono fun _ _ h => h.mono fun _ => .inl) m keeps_confined_setGlobal ?_
    (fun hash m' _ => keeps_pop.bind (keeps_confined_defineConstant hash) m')
    keeps_confined_setProperty
  exact fun hash hnext v m' => confined_insertGlobal (.inl (.inr hnext)) v

/-- Runs confine links; the globals that they may define anew are let go. -/
theorem keeps_confined_watch {expected : Machine → Bool}
    (hdefine : ∀ m hash, expected m = true → m.next? = some (.defineGlobal hash) → loose hash)
    (fuel : Nat) : Keeps (Confined loose) (watch expected fuel) :=
  keeps_watch keeps_confined_setGlobal
    (fun m hash hm hnext v _ => confined_insertGlobal (.inl (hdefine m hash hm hnext)) v)
    (fun _ hash m' _ _ => keeps_pop.bind (keeps_confined_defineConstant hash) m')
    keeps_confined_setProperty fuel

/-- **Links do not get into what scripts keep.** Neither a step nor a run stores a link or links a
field anew, and linked globals stay linked until they are defined anew. -/
theorem link_confinement (m : Machine) (hs : m.env.heap.Slotted) (hn : m.env.natives.Confine) :
    (∀ executor loose, Keeps (Confined loose) executor →
      m.env.Confines (fun hash => loose hash ∨ m.next? = some (.defineGlobal hash))
        (after (step executor) m).env) ∧
    (∀ executor i v (l : Link), m.slot? i = some l.value → m.fromTop? 0 = some v →
      (∀ w, l.cast? m.env.memory.cells v = some w →
        (after (perform executor i) m).env = m.env.putCell l w) ∧
      (l.cast? m.env.memory.cells v = none → after (perform executor i) m = m)) ∧
    (∀ fuel, m.env.Confines (fun _ => True) (after (execute fuel) m).env) ∧
    ∀ fuel hash, m.env.Confines (· ≠ hash) (after (watch (sparesSite (.global hash)) fuel) m).env ∧
      Refines (watch (sparesSite (.global hash)) fuel) (execute fuel) := by
  refine ⟨fun executor loose he => (confined_step he m hs hn).2.2, ?_, fun fuel => ?_,
    fun fuel hash => ⟨?_, watch_refines _ fuel⟩⟩
  · intro executor i v l hslot hv
    obtain ⟨hnumber, hother⟩ := perform_of_slot? hv hslot executor
    refine ⟨fun w hw => ?_, fun hw => ?_⟩
    · obtain ⟨m', hrun, henv⟩ := hnumber w hw
      rwa [after_of_ok hrun]
    · obtain ⟨c, hrun, -⟩ := hother hw
      exact after_of_error hrun
  · rw [← watch_true]
    exact (keeps_confined_watch (fun _ _ _ _ => trivial) fuel m hs hn).2.2
  · refine (keeps_confined_watch (fun m' other hm' hnext => ?_) fuel m hs hn).2.2
    rintro rfl
    simp [sparesSite, hnext, Site.definedBy_self] at hm'

/-- An array, a number of the host that a global is linked to, and a script that is about to store
the linked value in the array. -/
def storing : Machine :=
  let heap := (Heap.empty.alloc (.array #[.null])).2
  let env := Environment.new heap (fun _ => Native.first) none default
  ⟨{ env with memory := ⟨heap, ⟨#[5], #[]⟩, #[]⟩ }.bindLink none "level" (.integer ⟨0⟩),
    { Thread.new 0 with
      stack := #[.object ⟨0, 0⟩, .integer 0, .linkedInteger ⟨0⟩]
      frames := #[.enter ⟨0, 0⟩ #[Opcode.setElement.toByte] 0 none] }⟩

/-- The array gets the number 5, no link is stored, and the global stays linked. -/
theorem link_confinement_storing :
    let env := (after (step (execute 0)) storing).env
    env.stored? (.pocket ⟨0, 0⟩ (.element 0)) = some (.integer 5) ∧ storing.env.NoNewLink env ∧
      env.globals.get? (hashName "level") = some (.linkedInteger ⟨0⟩) := by
  have hslotted : storing.env.heap.Slotted := Heap.slotted_alloc (Heap.slotted_withThreshold _ _) _
  have hnatives : storing.env.natives.Confine := fun _ _ _ hs => ⟨hs, fun _ _ _ h => h, rfl⟩
  obtain ⟨hstep, -⟩ := link_confinement storing hslotted hnatives
  have hconfines := hstep (execute 0) (fun _ => False) (keeps_of_same after_execute_zero)
  refine ⟨by rfl, hconfines.created, ?_⟩
  have hnext : storing.next? = some .setElement := by rfl
  have hstays := hconfines.globals (hashName "level") (.integer ⟨0⟩) (by rfl)
  exact hstays.resolve_right (by simp [hnext])

end Machine
end ScriptVm
