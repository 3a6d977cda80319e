import ScriptVm.Proofs.Machine.Aliasing

/-!
# Linked members of classes

A host can bind a cell as a member of a class. The link is put among the methods, where scripts find
it when they read the member; but they write among the fields, which hide methods.

* `Member` says that a class has such a member, and what its field of the same name holds.
* `MemberTrail` is a history of the member: numbers put into cells, scripts that read the member and
  scripts that write it, together with what a script wrote last.
* `class_member_shadowing` is the result: the member is the cell until a script writes it, and from
  then on neither side sees what the other writes.
-/

namespace ScriptVm

theorem Value.delink_of_plain {v : Value} (hv : v.Plain) (cells : Cells) : v.delink cells = v := by
  cases v with
  | linkedInteger l => exact absurd rfl (hv (.integer l))
  | linkedDecimal l => exact absurd rfl (hv (.decimal l))
  | _ => rfl

namespace Environment

variable {env : Environment} {c : Handle} {k : ClassObject} {hash : UInt32} {l : Link}

/-- A class has a link among its methods, and perhaps a plain field of the same name. -/
structure Member (env : Environment) (c : Handle) (hash : UInt32) (l : Link)
    (field : Option Value) : Prop where
  member : ∃ k, env.heap.class? c = some k ∧ k.methods.get? hash = some l.value ∧
    k.fields.get? hash = field
  plain : ∀ v, field = some v → v.Plain

/-- What a class has itself is found there. -/
theorem findMember_of_own {v : Value} (hk : env.heap.class? c = some k)
    (hv : ownMember? k hash = some v) : env.findMember c hash = (some v, env) := by
  show walk c hash (255 + 1) (some c) false env = _
  simp only [walk, hk, hv]

/-- A cell bound as a member of a class. -/
theorem member_bindLink (hk : env.heap.class? c = some k) {name : String}
    (hfield : ∀ v, k.fields.get? (hashName name) = some v → v.Plain) (l : Link) :
    (env.bindLink (some c) name l).Member c (hashName name) l (k.fields.get? (hashName name)) := by
  refine ⟨⟨{ k with methods := k.methods.insert (hashName name) l.value }, ?_,
    k.methods.get?_insert_self _ _, rfl⟩, hfield⟩
  have hget := Heap.class?_eq_some.1 hk
  refine Heap.class?_eq_some.2 ((Heap.get?_modify env.heap c c _).trans ?_)
  rw [if_pos rfl, hget]
  rfl

/-- A plain value is stored in the field of the class. -/
theorem Member.insertField {field : Option Value} (hm : env.Member c hash l field) {v : Value}
    (hv : v.Plain) :
    (env.mapHeap (·.modify c (Exec.insertField hash v))).Member c hash l (some v) := by
  obtain ⟨k, hk, hmethod, -⟩ := hm.member
  refine ⟨⟨{ k with fields := k.fields.insert hash v }, ?_, hmethod,
    k.fields.get?_insert_self _ _⟩, fun w hw => Option.some.inj hw ▸ hv⟩
  refine Heap.class?_eq_some.2 ((Heap.get?_modify env.heap c c _).trans ?_)
  rw [if_pos rfl, Heap.class?_eq_some.1 hk]
  rfl

end Environment

namespace Machine

open Exec

variable {m m' : Machine} {c : Handle} {hash : UInt32} {l : Link} {v : Value} {last : Option Value}
  {executor : Exec Unit}

/-- A history of a machine after a cell was bound as a member of a class, and what a script wrote to
the member last, if one did, be it before the member was bound. -/
inductive MemberTrail (c : Handle) (hash : UInt32) (l : Link) : Machine → Option Value → Prop
  | start {m : Machine} {last : Option Value} : m.env.Member c hash l last →
      MemberTrail c hash l m last
  | put {m : Machine} {last : Option Value} (l' : Link) (n : Value) : MemberTrail c hash l m last →
      MemberTrail c hash l (m.putCell l' n) last
  | thread {m : Machine} {last : Option Value} (t : Thread) : MemberTrail c hash l m last →
      MemberTrail c hash l { m with thread := t } last
  | read {m m' : Machine} {last : Option Value} (executor : Exec Unit) :
      MemberTrail c hash l m last → m.fromTop? 0 = some (.object c) →
      perform executor (.getProperty hash) m = .ok () m' → MemberTrail c hash l m' last
  | write {m m' : Machine} {last : Option Value} {v : Value} (executor : Exec Unit) :
      MemberTrail c hash l m last → m.fromTop? 0 = some v → m.fromTop? 1 = some (.object c) →
      perform executor (.setProperty hash) m = .ok () m' →
      MemberTrail c hash l m' (some (v.delink m.env.memory.cells))

/-! ### Reading and writing -/

/-- A script that reads the member gets the field, or else the number in the cell. -/
theorem perform_getMember (hm : m.env.Member c hash l last)
    (hc : m.fromTop? 0 = some (.object c)) (executor : Exec Unit) :
    perform executor (.getProperty hash) m = .ok () (m.mapStack fun s =>
      s.setIfInBounds (s.size - 1) (last.getD (l.read m.env.memory.cells))) := by
  obtain ⟨⟨k, hk, hmethod, hfield⟩, hplain⟩ := hm
  have hobject : (Value.object c).object?.bind m.env.heap.get? = some (.scriptClass k) :=
    Heap.class?_eq_some.1 hk
  have hown : Environment.ownMember? k hash = some (last.getD l.value) := by
    unfold Environment.ownMember?
    rw [hfield]
    cases last with
    | none => exact hmethod
    | some v => rfl
  have hfind : onEnvironment (·.findMember c hash) m = .ok (some (last.getD l.value)) m := by
    simp only [onEnvironment, Environment.findMember_of_own hk hown]
  have hread : getProperty (.object c) hash m =
      .ok ((last.getD l.value).delink m.env.memory.cells) m := by
    unfold getProperty
    refine (bind_of_ok rfl).trans ?_
    rw [hobject]
    exact bind_of_ok hfind
  have hvalue : (last.getD l.value).delink m.env.memory.cells =
      last.getD (l.read m.env.memory.cells) := by
    cases last with
    | none => rfl
    | some v => exact Value.delink_of_plain (hplain v rfl) _
  rw [hvalue] at hread
  refine (bind_of_ok (peek_of_fromTop? (by decide) hc)).trans ?_
  rw [bind_of_ok hread]
  exact setPeek_of_fromTop? (by decide) hc _

/-- A script that writes the member stores a field, and no cell is written. -/
theorem perform_setMember (hm : m.env.Member c hash l last) (hv : m.fromTop? 0 = some v)
    (hc : m.fromTop? 1 = some (.object c)) (executor : Exec Unit) :
    ∃ m', perform executor (.setProperty hash) m = .ok () m' ∧
      m'.env.Member c hash l (some (v.delink m.env.memory.cells)) ∧
      m'.env.memory.cells = m.env.memory.cells := by
  obtain ⟨k, hk, -, hfield⟩ := hm.member
  have hfields : (m.env.heap.get? c).bind fieldsOf? = some k.fields := by
    rw [Heap.class?_eq_some.1 hk]
    rfl
  have hplain : ∀ slot, k.fields.get? hash = some slot → slot.link? = none := by
    intro slot hslot
    rcases link_or_plain slot with ⟨l', rfl⟩ | hnot
    · exact absurd rfl (hm.plain _ (hfield.symm.trans hslot) l')
    · exact hnot
  have hset := setProperty_of_plain (v := v) hfields hplain
  rw [perform_setProperty hv hc]
  exact ⟨_, (bind_of_ok hset).trans (pop_setPeek hv hc),
    hm.insertField (v.plain_delink m.env.memory.cells), rfl⟩

/-- All along, the field of the class is what a script wrote last. -/
theorem MemberTrail.member (ht : MemberTrail c hash l m last) : m.env.Member c hash l last := by
  induction ht with
  | start hm => exact hm
  | put l' n ht ih => exact ⟨ih.member, ih.plain⟩
  | thread t ht ih => exact ih
  | read executor ht hc hrun ih =>
    rw [perform_getMember ih hc] at hrun
    cases hrun
    exact ih
  | write executor ht hv hc hrun ih =>
    obtain ⟨m', hwrites, hm', -⟩ := perform_setMember ih hv hc executor
    rw [hwrites] at hrun
    cases hrun
    exact hm'

/-- **A linked member of a class is its cell until a script writes it.** The write succeeds, leaves
the cell alone and makes a field of the class that hides the link. -/
theorem class_member_shadowing (l : Link) :
    (∀ (env : Environment) c k name t, env.heap.class? c = some k →
      (∀ v, k.fields.get? (hashName name) = some v → v.Plain) →
        MemberTrail c (hashName name) l ⟨env.bindLink (some c) name l, t⟩
          (k.fields.get? (hashName name))) ∧
    ∀ c hash m last, MemberTrail c hash l m last →
      (∀ executor, m.fromTop? 0 = some (.object c) →
        perform executor (.getProperty hash) m = .ok () (m.mapStack fun s =>
          s.setIfInBounds (s.size - 1) (last.getD (l.read m.env.memory.cells)))) ∧
      ∀ executor v, m.fromTop? 0 = some v → m.fromTop? 1 = some (.object c) →
        ∃ m', perform executor (.setProperty hash) m = .ok () m' ∧
          MemberTrail c hash l m' (some (v.delink m.env.memory.cells)) ∧
          m'.env.memory.cells = m.env.memory.cells := by
  refine ⟨fun env c k name t hk hfield => .start (Environment.member_bindLink hk hfield l),
    fun c hash m last ht => ⟨fun executor hc => perform_getMember ht.member hc executor, ?_⟩⟩
  intro executor v hv hc
  obtain ⟨m', hrun, -, hcells⟩ := perform_setMember ht.member hv hc executor
  exact ⟨m', hrun, ht.write executor hv hc hrun, hcells⟩

/-- A class, and a cell of the host that holds 5. -/
def lamp : Environment :=
  let heap := (Heap.empty.alloc (.scriptClass (.ofHash (hashName "Lamp")))).2
  { Environment.new heap Native.standard none default with memory := ⟨heap, ⟨#[5], #[]⟩, #[]⟩ }

/-- The cell is bound as a member of the class. The class and the number 9 are on the stack. -/
def lampLevel : Machine :=
  ⟨lamp.bindLink (some ⟨0, 0⟩) "Level" (.integer ⟨0⟩),
    { Thread.new 0 with stack := #[.object ⟨0, 0⟩, .integer 9] }⟩

/-- A thread with that class on its stack. -/
def readingLevel : Thread := { Thread.new 0 with stack := #[.object ⟨0, 0⟩] }

/-- Before a script writes the member, it reads the 7 that the host has put into the cell. -/
theorem class_member_shadowing_unwritten :
    ∃ m', perform (execute 0) (.getProperty (hashName "Level"))
        { lampLevel.putCell (.integer ⟨0⟩) (.integer 7) with thread := readingLevel } = .ok () m' ∧
      m'.thread.stack = #[.integer 7] := by
  obtain ⟨hbound, htrail⟩ := class_member_shadowing (.integer ⟨0⟩)
  have hstart : MemberTrail ⟨0, 0⟩ (hashName "Level") (.integer ⟨0⟩) lampLevel none :=
    hbound lamp ⟨0, 0⟩ (.ofHash (hashName "Lamp")) "Level" _ rfl fun _ hv => by cases hv
  have hhost := (hstart.put (.integer ⟨0⟩) (.integer 7)).thread readingLevel
  obtain ⟨hreads, -⟩ := htrail _ _ _ _ hhost
  exact ⟨_, hreads (execute 0) rfl, by rfl⟩

/-- A script writes 9 to the member, which leaves 5 in the cell; and when the host has put 7 there,
the script still reads 9. -/
theorem class_member_disagrees :
    ∃ m' m'', perform (execute 0) (.setProperty (hashName "Level")) lampLevel = .ok () m' ∧
      (Link.integer ⟨0⟩).read m'.env.memory.cells = .integer 5 ∧
      perform (execute 0) (.getProperty (hashName "Level"))
        { m'.putCell (.integer ⟨0⟩) (.integer 7) with thread := readingLevel } = .ok () m'' ∧
      m''.thread.stack = #[.integer 9] :=
  ⟨_, _, rfl, rfl, rfl, rfl⟩

end Machine
end ScriptVm
