import ScriptVm.Machine.Entity
import ScriptVm.Native.Catalog
import ScriptVm.Proofs.Heap.ExactCollection
import ScriptVm.Proofs.Machine.Footprint

/-!
# Linked sites

A field of an instance or a global that is linked to a cell of the host holds no number of its own:
the number is in the cell.

* `Link.read`, `Link.cast?` and `Link.put` are how a cell is read and written.
* `Site` is a field of an instance or a global, `Linked` says that it is linked to a cell that is
  there.
* `Aside` is what happens beside a site: the elementary changes of instructions, writing another
  global or field, loading, and collections that keep the instance. `Linked.aside` says that the
  site stays linked and that no cell is written.
* `linked_newEntity` and `linked_bindLink` are how a host makes links.
-/

namespace ScriptVm

/-! ### Cells -/

/-- The link of a linked value. -/
def Value.link? : Value → Option Link
  | .linkedInteger l => some (.integer l)
  | .linkedDecimal l => some (.decimal l)
  | _ => none

namespace Link

variable {l l' : Link} {cells : Cells} {v w : Value}

/-- The number in a cell. -/
def read (l : Link) (cells : Cells) : Value := l.value.delink cells

/-- A cell that is there. -/
def In (cells : Cells) : Link → Prop
  | .integer l => l.cell < cells.integers.size
  | .decimal l => l.cell < cells.decimals.size

/-- A number of the kind of a cell. -/
def Fits : Link → Value → Prop
  | .integer _, .integer _ => True
  | .decimal _, .decimal _ => True
  | _, _ => False

/-- A value as a number of the kind of a cell. -/
def cast? (cells : Cells) (v : Value) : Link → Option Value
  | .integer _ => (v.castInteger? cells).map .integer
  | .decimal _ => (v.castDecimal? cells).map .decimal

/-- The cells after a number was put into one. -/
def put (cells : Cells) : Link → Value → Cells
  | .integer l, .integer n => cells.setInteger l n
  | .decimal l, .decimal d => cells.setDecimal l d
  | _, _ => cells

theorem link?_eq_some : v.link? = some l ↔ v = l.value := by
  cases v <;> cases l <;> simp [Value.link?, Link.value]

theorem link?_value (l : Link) : l.value.link? = some l := link?_eq_some.2 rfl

theorem fits_of_cast? (hw : l.cast? cells v = some w) : l.Fits w := by
  cases l with
  | integer l =>
    obtain ⟨n, -, rfl⟩ := Option.map_eq_some_iff.1 hw
    exact trivial
  | decimal l =>
    obtain ⟨d, -, rfl⟩ := Option.map_eq_some_iff.1 hw
    exact trivial

/-- Only null and objects are no numbers. -/
theorem cast?_eq_none : l.cast? cells v = none ↔ v = .null ∨ ∃ h, v = .object h := by
  cases l <;> cases v <;> simp [cast?, Value.castInteger?, Value.castDecimal?]

theorem read_put (hin : l.In cells) (hfits : l.Fits w) : l.read (put cells l w) = w := by
  cases l <;> cases w <;> simp_all [read, put, value, Value.delink, Fits, In, Cells.integer,
    Cells.decimal, Cells.setInteger, Cells.setDecimal]

theorem read_put_of_ne (hne : l' ≠ l) (w : Value) : l'.read (put cells l w) = l'.read cells := by
  cases l with
  | integer l =>
    cases w with
    | integer n =>
      cases l' with
      | integer l' =>
        have hcell : l.cell ≠ l'.cell := by
          intro heq
          exact hne (congrArg Link.integer (congrArg IntegerLink.mk heq.symm))
        simp [read, put, value, Value.delink, Cells.integer, Cells.setInteger, hcell]
      | decimal l' => rfl
    | _ => rfl
  | decimal l =>
    cases w with
    | decimal d =>
      cases l' with
      | integer l' => rfl
      | decimal l' =>
        have hcell : l.cell ≠ l'.cell := by
          intro heq
          exact hne (congrArg Link.decimal (congrArg DecimalLink.mk heq.symm))
        simp [read, put, value, Value.delink, Cells.decimal, Cells.setDecimal, hcell]
    | _ => rfl

theorem in_put (l' : Link) (w : Value) : l.In (put cells l' w) ↔ l.In cells := by
  cases l <;> cases l' <;> cases w <;> simp [In, put, Cells.setInteger, Cells.setDecimal]

end Link

/-! ### Sites -/

/-- Where scripts find a link: a field of an instance, or a global. -/
inductive Site where
  | field (h : Handle) (hash : UInt32)
  | global (hash : UInt32)
deriving DecidableEq

/-- The field of an instance. -/
def Heap.field? (heap : Heap) (h : Handle) (hash : UInt32) : Option Value :=
  (heap.instance? h).bind (·.fields.get? hash)

/-- The value at a site. -/
def Environment.at? (env : Environment) : Site → Option Value
  | .field h hash => env.heap.field? h hash
  | .global hash => env.globals.get? hash

/-- Whether an instruction may put another value in the place of a global. -/
def Site.definedBy : Site → Instruction → Bool
  | .global hash, .defineGlobal other => other == hash
  | _, _ => false

theorem Site.definedBy_self (hash : UInt32) :
    (Site.global hash).definedBy (.defineGlobal hash) = true := beq_self_eq_true hash

/-- The linked fields are linked still and their cells are there, perhaps with other numbers. -/
structure Memory.KeepsLinks (mem mem' : Memory) : Prop where
  slotted : mem'.heap.Slotted
  field : ∀ h hash (l : Link), mem.heap.field? h hash = some l.value →
    mem'.heap.field? h hash = some l.value
  cell : ∀ l : Link, l.In mem.cells → l.In mem'.cells

/-- Natives that leave linked fields linked. They may write cells. -/
def Natives.KeepLinks (natives : Natives) : Prop :=
  ∀ name (mem : Memory) args, mem.heap.Slotted → mem.KeepsLinks (natives name mem args).2

/-- Natives that write no cell. -/
def Natives.KeepCells (natives : Natives) : Prop :=
  ∀ name mem args, (natives name mem args).2.cells = mem.cells

/-- A site is linked to a cell that is there. -/
structure Environment.Linked (env : Environment) (s : Site) (l : Link) : Prop where
  slotted : env.heap.Slotted
  natives : env.natives.KeepLinks
  site : env.at? s = some l.value
  cell : l.In env.memory.cells

theorem Obj.SameFields.inst {i : InstanceObject} {o : Obj} (h : (Obj.inst i).SameFields o) :
    ∃ i', o = .inst i' ∧ i'.fields = i.fields := by
  cases o with
  | inst i' => exact ⟨i', rfl, Option.some.inj h.fields⟩
  | _ => cases h.kind

namespace Heap

variable {heap : Heap} {h : Handle} {hash : UInt32} {v : Value}

theorem field?_eq_some : heap.field? h hash = some v ↔
    ∃ i, heap.get? h = some (.inst i) ∧ i.fields.get? hash = some v := by
  unfold field?
  rw [Option.bind_eq_some_iff]
  simp only [instance?_eq_some]

theorem field?_alloc (hs : heap.Slotted) (hv : heap.field? h hash = some v) (o : Obj) :
    (heap.alloc o).2.field? h hash = some v := by
  obtain ⟨i, hi, hv⟩ := field?_eq_some.1 hv
  exact field?_eq_some.2 ⟨i, get?_alloc_of_get? hs o hi, hv⟩

/-- A field is kept by a change that keeps it in every instance. -/
theorem field?_modify {f : Obj → Obj} {k : Handle}
    (hf : h = k → ∀ i, ∃ i', f (.inst i) = .inst i' ∧ i'.fields.get? hash = i.fields.get? hash)
    (hv : heap.field? h hash = some v) : (heap.modify k f).field? h hash = some v := by
  obtain ⟨i, hi, hv⟩ := field?_eq_some.1 hv
  rw [field?_eq_some, get?_modify]
  by_cases hk : h = k
  · subst hk
    obtain ⟨i', hi', hfields⟩ := hf rfl i
    exact ⟨i', by simp [hi, hi'], hfields.trans hv⟩
  · exact ⟨i, by simp [hk, hi], hv⟩

end Heap

/-- The natives of the catalogue place objects at most. -/
theorem Native.keepLinks_standard : Natives.KeepLinks Native.standard := by
  have hplaces : ∀ (mem : Memory) (f : NativeFunction) (args : Array Value), mem.heap.Slotted →
      ((f mem args).2 = mem ∨ ∃ o, (f mem args).2 = (mem.alloc o).2) →
        mem.KeepsLinks (f mem args).2 := by
    rintro mem f args hs (hsame | ⟨o, hplaced⟩)
    · rw [hsame]
      exact ⟨hs, fun _ _ _ h => h, fun _ h => h⟩
    · rw [hplaced]
      exact ⟨Heap.slotted_alloc hs o, fun _ _ _ h => Heap.field?_alloc hs h o, fun _ h => h⟩
  have hcatalog : ∀ p ∈ catalog, ∀ (mem : Memory) args,
      (p.2 mem args).2 = mem ∨ ∃ o, (p.2 mem args).2 = (mem.alloc o).2 := by
    simp only [catalog, List.forall_mem_cons]
    refine ⟨?_, ?_, ?_, ?_, ?_, ?_, ?_, ?_, ?_, ?_, ?_, ?_, nofun⟩
    all_goals
      intro mem args
      first
        | exact .inl rfl
        | exact .inr ⟨_, rfl⟩
  intro name mem args hs
  refine hplaces mem _ args hs ?_
  unfold standard
  cases hf : catalog.lookup name with
  | none => exact .inl rfl
  | some f =>
    obtain ⟨before, rest, hsplit, -⟩ := List.lookup_eq_some_iff.1 hf
    exact hcatalog (name, f) (by rw [hsplit]; simp) mem args

/-- A collection writes no cell. -/
theorem Memory.cells_collect (mem : Memory) (roots : List Handle) :
    (mem.collect roots).2.cells = mem.cells := by
  have hfold : ∀ (entities : List EntityId) (mem : Memory),
      (entities.foldl Memory.reclaim mem).cells = mem.cells := by
    intro entities
    induction entities with
    | nil => exact fun _ => rfl
    | cons e rest ih => exact fun mem => (ih _).trans rfl
  exact hfold _ _

namespace Environment

variable {env env' : Environment} {s : Site} {l : Link}

/-- The environment with a number put into a cell. -/
def putCell (env : Environment) (l : Link) (w : Value) : Environment :=
  { env with memory := { env.memory with cells := l.put env.memory.cells w } }

theorem Linked.putCell (h : env.Linked s l) (l' : Link) (w : Value) :
    (env.putCell l' w).Linked s l := by
  refine ⟨h.slotted, h.natives, ?_, (Link.in_put l' w).2 h.cell⟩
  cases s <;> exact h.site

theorem Linked.afterNative (h : env.Linked s l) (name : String) (args : Array Value) :
    (env.afterNative name args).Linked s l := by
  obtain ⟨hs, hn, hsite, hcell⟩ := h
  have hkeeps := hn name env.memory args hs
  refine ⟨hkeeps.slotted, hn, ?_, hkeeps.cell l hcell⟩
  cases s with
  | field h hash => exact hkeeps.field h hash l hsite
  | global hash => exact hsite

/-! ### What happens beside a site -/

/-- What happens to an environment beside a site: neither cells nor the site are written. -/
inductive Aside (s : Site) (env : Environment) : Environment → Prop
  | edit {env' : Environment} : env.Edit env' → Aside s env env'
  | record {env' : Environment} : env'.memory = env.memory → env'.globals = env.globals →
      env'.natives = env.natives → Aside s env env'
  | global {hash : UInt32} (v : Value) : s ≠ .global hash →
      Aside s env { env with globals := env.globals.insert hash v }
  | object (k : Handle) {f : Obj → Obj} : (∀ hash, s = .field k hash → ∀ i, ∃ i',
        f (.inst i) = .inst i' ∧ i'.fields.get? hash = i.fields.get? hash) →
      Aside s env (env.mapHeap (·.modify k f))
  | collect (roots : List Handle) : (∀ h hash, s = .field h hash → env.heap.Reaches roots h) →
      Aside s env { env with memory := (env.memory.collect roots).2 }

/-- Another field than that of the site is written. -/
theorem aside_insertField {k : Handle} {hash : UInt32} (hne : s ≠ .field k hash) (v : Value) :
    env.Aside s (env.mapHeap (·.modify k (Exec.insertField hash v))) := by
  refine .object k fun other hsite i => ⟨_, rfl, i.fields.get?_insert_of_ne ?_ v⟩
  rintro rfl
  exact hne hsite

theorem Linked.congr (h : env.Linked s l) (hmemory : env'.memory = env.memory)
    (hglobals : env'.globals = env.globals) (hnatives : env'.natives = env.natives) :
    env'.Linked s l := by
  obtain ⟨hs, hn, hsite, hcell⟩ := h
  refine ⟨by rwa [heap, hmemory], by rwa [hnatives], ?_, by rwa [hmemory]⟩
  cases s with
  | field k hash =>
    exact (congrArg (fun mem : Memory => mem.heap.field? k hash) hmemory).trans hsite
  | global hash => exact (congrArg (·.get? hash) hglobals).trans hsite

/-- An object is changed, but not the field of the site. -/
theorem Linked.modify (h : env.Linked s l) {k : Handle} {f : Obj → Obj}
    (hf : ∀ hash, s = .field k hash → ∀ i, ∃ i',
      f (.inst i) = .inst i' ∧ i'.fields.get? hash = i.fields.get? hash) :
    (env.mapHeap (·.modify k f)).Linked s l := by
  refine ⟨Heap.slotted_modify h.slotted k _, h.natives, ?_, h.cell⟩
  cases s with
  | global hash => exact h.site
  | field other hash =>
    refine Heap.field?_modify ?_ h.site
    rintro rfl
    exact hf hash rfl

theorem Linked.edit (h : env.Linked s l) (he : env.Edit env') :
    env'.Linked s l ∧ env'.natives = env.natives ∧ env'.memory.cells = env.memory.cells := by
  cases he with
  | report level text => exact ⟨h.congr rfl rfl rfl, rfl, rfl⟩
  | constant hash v => exact ⟨h.congr rfl rfl rfl, rfl, rfl⟩
  | listing => exact ⟨h.congr rfl rfl rfl, rfl, rfl⟩
  | alloc o =>
    refine ⟨⟨Heap.slotted_alloc h.slotted o, h.natives, ?_, h.cell⟩, rfl, rfl⟩
    cases s with
    | field k hash => exact Heap.field?_alloc h.slotted h.site o
    | global hash => exact h.site
  | modify k hf =>
    refine ⟨h.modify fun hash _ i => ?_, rfl, rfl⟩
    obtain ⟨i', hi', hfields⟩ := (hf (.inst i)).inst
    exact ⟨i', hi', by rw [hfields]⟩

/-- A collection that keeps the instance keeps its fields. -/
theorem Linked.collect (h : env.Linked s l) {roots : List Handle}
    (hr : ∀ h hash, s = .field h hash → env.heap.Reaches roots h) :
    ({ env with memory := (env.memory.collect roots).2 }).Linked s l ∧
      (env.memory.collect roots).2.cells = env.memory.cells := by
  obtain ⟨hs, hn, hsite, hcell⟩ := h
  have hcells := env.memory.cells_collect roots
  have hheap : (env.memory.collect roots).2.heap = (env.heap.collect roots).heap :=
    (Memory.foldl_reclaim _ _).1
  refine ⟨⟨?_, hn, ?_, ?_⟩, hcells⟩
  · show (env.memory.collect roots).2.heap.Slotted
    rw [hheap]
    exact Heap.slotted_collect hs roots
  · cases s with
    | field k hash =>
      obtain ⟨i, hi, hv⟩ := Heap.field?_eq_some.1 hsite
      refine Heap.field?_eq_some.2 ⟨i, ?_, hv⟩
      show (env.memory.collect roots).2.heap.get? k = some (.inst i)
      rw [hheap]
      exact Heap.get?_collect_of_reaches hs hi (hr k hash rfl)
    | global hash => exact hsite
  · show l.In (env.memory.collect roots).2.cells
    rw [hcells]
    exact hcell

/-- What happens beside a site leaves it linked and writes no cell. -/
theorem Linked.aside (h : env.Linked s l) (ha : env.Aside s env') :
    env'.Linked s l ∧ env'.natives = env.natives ∧ env'.memory.cells = env.memory.cells := by
  cases ha with
  | edit he => exact h.edit he
  | record hmemory hglobals hnatives =>
    exact ⟨h.congr hmemory hglobals hnatives, hnatives, by rw [hmemory]⟩
  | @global hash v hne =>
    refine ⟨⟨h.slotted, h.natives, ?_, h.cell⟩, rfl, rfl⟩
    cases s with
    | field k hash => exact h.site
    | global other =>
      have hother : other ≠ hash := by
        rintro rfl
        exact hne rfl
      exact (env.globals.get?_insert_of_ne hother v).trans h.site
  | object k hf => exact ⟨h.modify hf, rfl, rfl⟩
  | collect roots hr =>
    obtain ⟨hlinked, hcells⟩ := h.collect hr
    exact ⟨hlinked, rfl, hcells⟩

/-! ### How links are made -/

/-- A global bound to a cell is linked to it. -/
theorem linked_bindLink (hs : env.heap.Slotted) (hn : env.natives.KeepLinks)
    (hin : l.In env.memory.cells) (name : String) :
    (env.bindLink none name l).Linked (.global (hashName name)) l :=
  ⟨hs, hn, env.globals.get?_insert_self _ _, hin⟩

/-- The instance that is about to be linked. -/
structure Ready (env : Environment) (h : Handle) (l : Link) : Prop where
  slotted : env.heap.Slotted
  natives : env.natives.KeepLinks
  inst : ∃ i, env.heap.get? h = some (.inst i)
  cell : l.In env.memory.cells

/-- The environment with one field of an instance linked. -/
def linkField (env : Environment) (h : Handle) (name : String) (l : Link) : Environment :=
  (env.addToken name).2.mapHeap (·.modifyInstance h fun i =>
    { i with fields := i.fields.insert (hashName name) l.value })

theorem linkFields_cons (h : Handle) (name : String) (l : Link) (rest : List (String × Link))
    (env : Environment) :
    linkFields h ((name, l) :: rest) env = linkFields h rest (env.linkField h name l) := rfl

theorem get?_linkField {h : Handle} {i : InstanceObject} (hi : env.heap.get? h = some (.inst i))
    (name : String) (l : Link) : (env.linkField h name l).heap.get? h =
      some (.inst { i with fields := i.fields.insert (hashName name) l.value }) := by
  refine (Heap.get?_modify env.heap h h _).trans ?_
  rw [if_pos rfl, hi]
  rfl

theorem Ready.linkField {h : Handle} (hr : env.Ready h l) (name : String) (l' : Link) :
    (env.linkField h name l').Ready h l := by
  obtain ⟨hs, hn, ⟨i, hi⟩, hin⟩ := hr
  exact ⟨Heap.slotted_modify hs h _, hn, ⟨_, get?_linkField hi name l'⟩, hin⟩

theorem Ready.linked {h : Handle} (hr : env.Ready h l) (name : String) :
    (env.linkField h name l).Linked (.field h (hashName name)) l := by
  obtain ⟨hs, hn, ⟨i, hi⟩, hin⟩ := hr
  refine ⟨Heap.slotted_modify hs h _, hn, ?_, hin⟩
  refine Heap.field?_eq_some.2 ⟨_, get?_linkField hi name l, ?_⟩
  exact i.fields.get?_insert_self _ _

theorem Linked.linkField {h : Handle} {hash : UInt32} (hl : env.Linked (.field h hash) l)
    {name : String} (hne : hashName name ≠ hash) (l' : Link) :
    (env.linkField h name l').Linked (.field h hash) l := by
  have hnamed : (env.addToken name).2.Linked (.field h hash) l := hl.congr rfl rfl rfl
  refine hnamed.modify fun other hsite i => ?_
  cases hsite
  exact ⟨_, rfl, i.fields.get?_insert_of_ne hne.symm _⟩

/-- Of the links of one name the last counts. -/
theorem linked_linkFields {h : Handle} {name : String} (before after : List (String × Link))
    (hafter : ∀ f ∈ after, hashName f.1 ≠ hashName name) (env : Environment) (hr : env.Ready h l) :
    (linkFields h (before ++ (name, l) :: after) env).Linked (.field h (hashName name)) l := by
  induction before generalizing env with
  | cons f before ih => exact ih _ (hr.linkField f.1 f.2)
  | nil =>
    rw [List.nil_append, linkFields_cons]
    have hl := hr.linked name
    generalize env.linkField h name l = env at hl
    induction after generalizing env with
    | nil => exact hl
    | cons f after ih =>
      have hne := hafter f List.mem_cons_self
      exact ih (fun g hg => hafter g (List.mem_cons_of_mem f hg)) _ (hl.linkField hne f.2)

/-- A field of a native object is linked in the instance that stands for it. -/
theorem linked_newEntity {c : Handle} {e : EntityId} {name : String}
    {before after : List (String × Link)} (hs : env.heap.Slotted) (hn : env.natives.KeepLinks)
    (hin : l.In env.memory.cells) (hfields : env.entityFields e = before ++ (name, l) :: after)
    (hafter : ∀ f ∈ after, hashName f.1 ≠ hashName name) :
    (env.newEntity c e).2.Linked (.field (env.newEntity c e).1 (hashName name)) l := by
  let o : Obj := .inst { InstanceObject.ofClass c with entity := some e }
  have hget := Heap.get?_alloc_self hs o
  have hready : ((env.alloc o).2.mapHeap (·.modifyClass c fun k =>
      if k.kind = .extended then k else { k with entityBound := true })).Ready
        (env.alloc o).1 l := by
    refine ⟨Heap.slotted_modify (Heap.slotted_alloc hs o) c _, hn, ?_, hin⟩
    refine ⟨{ InstanceObject.ofClass c with entity := some e }, ?_⟩
    refine (Heap.get?_modify _ c _ _).trans ?_
    by_cases hc : (env.alloc o).1 = c
    · have hget' : (env.heap.alloc o).2.get? c = some o := by
        rw [← hget]
        exact congrArg _ hc.symm
      rw [if_pos hc]
      exact congrArg (Option.map _) hget'
    · rw [if_neg hc]
      exact hget
  have hlinked := linked_linkFields before after hafter _ hready
  rw [← hfields] at hlinked
  exact hlinked

end Environment

end ScriptVm
