import ScriptVm.Proofs.Environment.Links
import ScriptVm.Proofs.Machine.Landing
import ScriptVm.Proofs.Machine.Watching
import ScriptVm.Proofs.Machine.WholeRuns

/-!
# Linked fields and globals

A field of an instance or a global that is linked to a cell of the host is that cell: what either
side writes, the other reads.

* `slot?` is the value in the slot that an instruction assigns to; `perform_of_slot?` says that an
  instruction stores what it assigns to a linked slot in the cell.
* `Trail` is a history of a linked site: numbers put into cells, natives called, and all that
  happens beside the site, together with the number that was put into the cell last.
* `Continues` says that an action extends every such history. `continues_perform` is the step, and
  `continues_watch` the run of any script, which for a global lasts until it is defined anew.
* `link_aliasing` is the result.
-/

namespace ScriptVm
namespace Machine

/-- The value so many places below the top of the operand stack. -/
def fromTop? (m : Machine) (depth : Nat) : Option Value := m.thread.stack.toList.reverse[depth]?

/-- The fields of the object that a value refers to. -/
def fieldsAt? (m : Machine) (object : Value) : Option (Table Value) :=
  (object.object?.bind m.env.heap.get?).bind Exec.fieldsOf?

/-- The value in the slot that an instruction assigns to. -/
def slot? (m : Machine) : Instruction → Option Value
  | .setGlobal hash => m.env.globals.get? hash
  | .setProperty hash => ((m.fromTop? 1).bind m.fieldsAt?).bind (·.get? hash)
  | _ => none

/-- The next instruction does not define the global of a site anew. -/
def sparesSite (s : Site) (m : Machine) : Bool := m.next?.all fun i => !s.definedBy i

theorem sparesSite_field (h : Handle) (hash : UInt32) (m : Machine) :
    sparesSite (.field h hash) m = true :=
  (Option.all_eq_true _ _).2 fun _ _ => rfl

/-- The machine with a number put into a cell. -/
def putCell (m : Machine) (l : Link) (w : Value) : Machine := { m with env := m.env.putCell l w }

/-- A history of a machine while a site is linked to a cell, and the number put into the cell last,
by either side or by a native. All else happens beside the site. -/
inductive Trail (s : Site) (l : Link) : Machine → Value → Prop
  | start {m : Machine} : m.env.Linked s l → Trail s l m (l.read m.env.memory.cells)
  | put {m : Machine} {w : Value} (l' : Link) {n : Value} : Trail s l m w → l'.Fits n →
      Trail s l (m.putCell l' n) (if l' = l then n else w)
  | native {m : Machine} {w : Value} (name : String) (args : Array Value) : Trail s l m w →
      Trail s l { m with env := m.env.afterNative name args }
        (l.read (m.env.afterNative name args).memory.cells)
  | thread {m : Machine} {w : Value} (t : Thread) : Trail s l m w →
      Trail s l { m with thread := t } w
  | aside {m : Machine} {w : Value} {env : Environment} : Trail s l m w → m.env.Aside s env →
      Trail s l { m with env } w

variable {m m' : Machine} {s : Site} {l : Link} {v w : Value} {quiet : Natives → Prop}

/-- All along, the site is linked and the cell holds the number that was put into it last. -/
theorem Trail.linked (ht : Trail s l m w) : m.env.Linked s l ∧ l.read m.env.memory.cells = w := by
  induction ht with
  | start hm => exact ⟨hm, rfl⟩
  | @put m w l' n ht hfits ih =>
    refine ⟨ih.1.putCell l' n, ?_⟩
    by_cases hl : l' = l
    · subst hl
      rw [if_pos rfl]
      exact Link.read_put ih.1.cell hfits
    · rw [if_neg hl, ← ih.2]
      exact Link.read_put_of_ne (Ne.symm hl) n
  | native name args ht ih => exact ⟨ih.1.afterNative name args, rfl⟩
  | thread t ht ih => exact ih
  | aside ht ha ih =>
    obtain ⟨hm, -, hcells⟩ := ih.1.aside ha
    rw [hcells]
    exact ⟨hm, ih.2⟩

/-- Every history goes on, and with the same number if the natives are quiet. -/
def Continues (s : Site) (l : Link) (quiet : Natives → Prop) (m m' : Machine) : Prop :=
  ∀ w, Trail s l m w → ∃ w', Trail s l m' w' ∧ m'.env.natives = m.env.natives ∧
    (quiet m.env.natives → w' = w)

theorem Continues.mono {quiet' : Natives → Prop} (h : Continues s l quiet m m')
    (hquiet : ∀ natives, quiet' natives → quiet natives) : Continues s l quiet' m m' := by
  intro w ht
  obtain ⟨w', ht', hnatives, hsame⟩ := h w ht
  exact ⟨w', ht', hnatives, fun h => hsame (hquiet _ h)⟩

theorem continues_thread (m : Machine) (t : Thread) :
    Continues s l quiet m { m with thread := t } :=
  fun w ht => ⟨w, ht.thread t, rfl, fun _ => rfl⟩

theorem continues_aside {env : Environment} (ha : m.env.Linked s l → m.env.Aside s env) :
    Continues s l quiet m { m with env } := by
  intro w ht
  have hm := ht.linked.1
  exact ⟨w, ht.aside (ha hm), (hm.aside (ha hm)).2.1, fun _ => rfl⟩

theorem continues_native (hquiet : ∀ natives, quiet natives → natives.KeepCells) (m : Machine)
    (name : String) (args : Array Value) :
    Continues s l quiet m { m with env := m.env.afterNative name args } := by
  intro w ht
  refine ⟨_, ht.native name args, rfl, fun h => ?_⟩
  have hcells : (m.env.afterNative name args).memory.cells = m.env.memory.cells :=
    hquiet _ h name m.env.memory args
  rw [hcells]
  exact ht.linked.2

instance : AdmitsMoves (Continues s l quiet) where
  trans _ _ _ h h' w ht := by
    obtain ⟨w₁, ht₁, hnatives, hsame⟩ := h w ht
    obtain ⟨w₂, ht₂, hnatives', hsame'⟩ := h' w₁ ht₁
    refine ⟨w₂, ht₂, hnatives'.trans hnatives, fun hquiet => ?_⟩
    rw [hsame' (by rwa [hnatives]), hsame hquiet]
  refl m := continues_thread m m.thread
  stack m _ := continues_thread m _
  register m _ := continues_thread m _
  enter m _ := continues_thread m _
  edit _ _ he := continues_aside fun _ => .edit he.edit
  frames m _ := continues_thread m _

/-- Natives may be called if they are quiet only where they keep the cells. -/
theorem admitsNatives_continues (hquiet : ∀ natives, quiet natives → natives.KeepCells) :
    AdmitsNatives (Continues s l quiet) where
  native := continues_native hquiet

instance : AdmitsRuns (Continues s l fun _ => False) where
  native := continues_native nofun
  thread m t _ := continues_thread m t
  loaded _ _ _ _ := continues_aside fun _ => .record rfl rfl rfl

end Machine

namespace Exec

open Machine

variable {m : Machine} {s : Site} {l : Link} {v w slot object : Value} {hash : UInt32} {depth : Nat}
  {i : Instruction}

/-! ### The operand stack -/

theorem fromTop?_eq_some : m.fromTop? depth = some v ↔
    depth < m.thread.stack.size ∧ m.thread.stack[m.thread.stack.size - (depth + 1)]? = some v := by
  unfold fromTop?
  by_cases hlt : depth < m.thread.stack.size
  · rw [List.getElem?_reverse (by simpa using hlt), Array.getElem?_toList, Array.length_toList,
      Nat.sub_sub, Nat.add_comm 1 depth]
    simp [hlt]
  · rw [List.getElem?_eq_none (by simpa using hlt)]
    simp [hlt]

theorem peek_of_fromTop? (hd : depth + 1 < Heap.sizeRange) (hv : m.fromTop? depth = some v) :
    peek depth m = .ok v m := by
  obtain ⟨hlt, hv⟩ := fromTop?_eq_some.1 hv
  exact peek_of_getElem? hd hlt hv

theorem pop_of_fromTop? (hv : m.fromTop? 0 = some v) : pop m = .ok v (m.mapStack (·.pop)) := by
  obtain ⟨-, hv⟩ := fromTop?_eq_some.1 hv
  unfold pop
  rw [Array.back?_eq_getElem?, hv]

theorem pop_of_none (hv : m.fromTop? 0 = none) :
    pop m = .error (.error (.ofCause .stackUnderflow)) m := by
  have hempty : m.thread.stack = #[] := by simpa [fromTop?] using hv
  unfold pop
  rw [hempty]
  rfl

theorem fromTop?_pop (m : Machine) (depth : Nat) :
    (m.mapStack (·.pop)).fromTop? depth = m.fromTop? (depth + 1) := by
  show m.thread.stack.pop.toList.reverse[depth]? = m.thread.stack.toList.reverse[depth + 1]?
  rw [Array.toList_pop, ← List.tail_reverse, List.getElem?_tail]

theorem setPeek_of_fromTop? (hd : depth + 1 < Heap.sizeRange) (hw : m.fromTop? depth = some w)
    (v : Value) : setPeek depth v m =
      .ok () (m.mapStack fun s => s.setIfInBounds (s.size - (depth + 1)) v) := by
  obtain ⟨hlt, -⟩ := fromTop?_eq_some.1 hw
  have hbelow : heightBelow (depth + 1) m = .ok (m.thread.stack.size - (depth + 1)) m := by
    unfold heightBelow
    rw [if_pos (Nat.succ_le_of_lt hlt)]
  unfold setPeek
  rw [bind_of_ok (size_of_lt hd), bind_of_ok hbelow]
  unfold setValueAt
  rw [if_pos (by omega)]
  rfl

/-! ### Writing through a slot -/

/-- An action stores a value in a cell and does nothing else; what is no number is refused. -/
structure Stores (x : Exec Unit) (l : Link) (v : Value) (m : Machine) : Prop where
  number : ∀ w, l.cast? m.env.memory.cells v = some w → x m = .ok () (m.putCell l w)
  other : l.cast? m.env.memory.cells v = none →
    ∃ c : Cause, x m = .error (.error (.ofCause c)) m ∧ c.severity = .runtime

theorem writeThrough_of_cast? (hw : l.cast? m.env.memory.cells v = some w) :
    writeThrough l.value v m = .ok true (m.putCell l w) := by
  unfold writeThrough
  refine (bind_of_ok rfl).trans ?_
  cases l with
  | integer l =>
    obtain ⟨n, hn, rfl⟩ := Option.map_eq_some_iff.1 hw
    dsimp only [Link.value]
    rw [hn]
    rfl
  | decimal l =>
    obtain ⟨d, hd, rfl⟩ := Option.map_eq_some_iff.1 hw
    dsimp only [Link.value]
    rw [hd]
    rfl

theorem writeThrough_of_none (hw : l.cast? m.env.memory.cells v = none) :
    ∃ c : Cause, writeThrough l.value v m = .error (.error (.ofCause c)) m ∧
      c.severity = .runtime := by
  unfold writeThrough
  cases l with
  | integer l =>
    refine ⟨.wrongKind "Integer" (m.env.memory.typeName v), (bind_of_ok rfl).trans ?_, rfl⟩
    rw [Option.map_eq_none_iff.1 hw]
    rfl
  | decimal l =>
    refine ⟨.wrongKind "Decimal" (m.env.memory.typeName v), (bind_of_ok rfl).trans ?_, rfl⟩
    rw [Option.map_eq_none_iff.1 hw]
    rfl

theorem writeThrough_of_plain (hslot : slot.link? = none) :
    writeThrough slot v m = .ok false m := by
  unfold writeThrough
  refine (bind_of_ok rfl).trans ?_
  cases slot with
  | linkedInteger l => cases hslot
  | linkedDecimal l => cases hslot
  | _ => rfl

theorem stores_of_writeThrough {x y : Exec Unit}
    (hx : x m = (writeThrough l.value v >>= fun linked => if linked then pure () else y) m) :
    Stores x l v m := by
  constructor
  · intro w hw
    rw [hx, bind_of_ok (writeThrough_of_cast? hw)]
    rfl
  · intro hw
    obtain ⟨c, hfails, hc⟩ := writeThrough_of_none hw
    exact ⟨c, hx.trans (bind_of_error hfails), hc⟩

theorem stores_setGlobal (hslot : m.env.globals.get? hash = some l.value) :
    Stores (setGlobal hash v) l v m := by
  refine stores_of_writeThrough (y := insertGlobal hash v) ?_
  unfold setGlobal
  refine (bind_of_ok rfl).trans ?_
  rw [hslot]

theorem stores_setProperty {h : Handle} {fields : Table Value}
    (hfields : (m.env.heap.get? h).bind fieldsOf? = some fields)
    (hslot : fields.get? hash = some l.value) :
    Stores (setProperty (.object h) hash v) l v m := by
  refine stores_of_writeThrough (y := do
    let plain := v.delink (← cells)
    mapHeap (·.modify h (insertField hash plain))) ?_
  unfold setProperty
  refine (bind_of_ok rfl).trans ?_
  rw [hfields]
  dsimp only
  rw [hslot]

theorem setProperty_of_plain {h : Handle} {fields : Table Value}
    (hfields : (m.env.heap.get? h).bind fieldsOf? = some fields)
    (hplain : ∀ slot, fields.get? hash = some slot → slot.link? = none) :
    setProperty (.object h) hash v m = .ok () { m with
      env := m.env.mapHeap (·.modify h (insertField hash (v.delink m.env.memory.cells))) } := by
  unfold setProperty
  refine (bind_of_ok rfl).trans ?_
  rw [hfields]
  cases hslot : fields.get? hash with
  | none =>
    dsimp only
    rw [hslot]
    rfl
  | some slot =>
    dsimp only
    rw [hslot]
    exact (bind_of_ok (writeThrough_of_plain (hplain slot hslot))).trans rfl

theorem peek_of_none (hd : depth + 1 < Heap.sizeRange) (hv : m.fromTop? depth = none) :
    peek depth m = .error (.error (.ofCause .stackUnderflow)) m := by
  have hlt : ¬ depth + 1 ≤ m.thread.stack.size := by
    intro hlt
    have hsome := List.getElem?_eq_none_iff.1 hv
    rw [List.length_reverse, Array.length_toList] at hsome
    omega
  have hbelow : heightBelow (depth + 1) m = .error (.error (.ofCause .stackUnderflow)) m := by
    unfold heightBelow
    rw [if_neg hlt]
  unfold peek
  rw [bind_of_ok (size_of_lt hd), bind_of_error hbelow]

theorem perform_setGlobal (hv : m.fromTop? 0 = some v) (executor : Exec Unit) :
    perform executor (.setGlobal hash) m = setGlobal hash v m :=
  bind_of_ok (peek_of_fromTop? (by decide) hv)

theorem perform_setProperty (hv : m.fromTop? 0 = some v) (ho : m.fromTop? 1 = some object)
    (executor : Exec Unit) : perform executor (.setProperty hash) m =
      (setProperty object hash v >>= fun _ => pop >>= fun _ => setPeek 0 v) m := by
  refine (bind_of_ok (peek_of_fromTop? (by decide) hv)).trans ?_
  exact bind_of_ok (peek_of_fromTop? (by decide) ho)

/-- The value written takes the place of the object. -/
theorem pop_setPeek (hv : m.fromTop? 0 = some v) (ho : m.fromTop? 1 = some object) :
    (pop >>= fun _ => setPeek 0 v) m =
      .ok () (m.mapStack fun s => s.pop.setIfInBounds (s.pop.size - 1) v) := by
  rw [bind_of_ok (pop_of_fromTop? hv)]
  exact setPeek_of_fromTop? (by decide) ((fromTop?_pop m 0).trans ho) v

/-- An instruction that assigns a value to a linked slot. -/
theorem slot?_eq_link (h : m.slot? i = some l.value) :
    (∃ hash, i = .setGlobal hash ∧ m.env.globals.get? hash = some l.value) ∨
      ∃ hash h fields, i = .setProperty hash ∧ m.fromTop? 1 = some (.object h) ∧
        (m.env.heap.get? h).bind fieldsOf? = some fields ∧ fields.get? hash = some l.value := by
  unfold slot? at h
  split at h
  · exact .inl ⟨_, rfl, h⟩
  · simp only [fieldsAt?, Option.bind_eq_some_iff] at h
    obtain ⟨fields, ⟨object, ho, o, ⟨k, hk, hget⟩, hfields⟩, hslot⟩ := h
    cases object with
    | object h =>
      obtain rfl : h = k := Option.some.inj hk
      refine .inr ⟨_, h, fields, rfl, ho, ?_, hslot⟩
      rw [hget]
      exact hfields
    | _ => cases hk
  · cases h

/-- An instruction stores what it assigns to a linked slot in the cell. -/
theorem perform_of_slot? (hv : m.fromTop? 0 = some v) (h : m.slot? i = some l.value)
    (executor : Exec Unit) :
    (∀ w, l.cast? m.env.memory.cells v = some w →
      ∃ m', perform executor i m = .ok () m' ∧ m'.env = m.env.putCell l w) ∧
    (l.cast? m.env.memory.cells v = none →
      ∃ c : Cause, perform executor i m = .error (.error (.ofCause c)) m ∧
        c.severity = .runtime) := by
  obtain ⟨hash, rfl, hslot⟩ | ⟨hash, h, fields, rfl, ho, hfields, hslot⟩ := slot?_eq_link h
  · have hstores := stores_setGlobal (v := v) hslot
    rw [perform_setGlobal hv]
    refine ⟨fun w hw => ?_, hstores.other⟩
    exact ⟨m.putCell l w, hstores.number w hw, rfl⟩
  · have hstores := stores_setProperty (v := v) hfields hslot
    rw [perform_setProperty hv ho]
    refine ⟨fun w hw => ?_, fun hw => ?_⟩
    · exact ⟨_, (bind_of_ok (hstores.number w hw)).trans (pop_setPeek hv ho), rfl⟩
    · obtain ⟨c, hfails, hc⟩ := hstores.other hw
      exact ⟨c, bind_of_error hfails, hc⟩

/-! ### Assignments -/

/-- What is stored in a cell is the last number in it; other cells keep theirs. -/
theorem continues_of_stores {x : Exec Unit} {l' : Link} (hx : Stores x l' v m) :
    Continues s l (fun _ => l' ≠ l) m (after x m) := by
  intro w ht
  cases hcast : l'.cast? m.env.memory.cells v with
  | none =>
    obtain ⟨c, hrun, -⟩ := hx.other hcast
    rw [after_of_error hrun]
    exact ⟨w, ht, rfl, fun _ => rfl⟩
  | some n =>
    rw [after_of_ok (hx.number n hcast)]
    refine ⟨_, ht.put l' (Link.fits_of_cast? hcast), rfl, fun hne => ?_⟩
    exact if_neg hne

/-- A slot holds a link or it does not. -/
theorem link_or_plain (slot : Value) : (∃ l : Link, slot = l.value) ∨ slot.link? = none := by
  cases hlink : slot.link? with
  | none => exact .inr rfl
  | some l => exact .inl ⟨l, Link.link?_eq_some.1 hlink⟩

/-- Writing a global goes through a link to the cell, replaces a plain value, or is refused. -/
theorem setGlobal_cases (hash : UInt32) (v : Value) (m : Machine) :
    (∃ l : Link, m.env.globals.get? hash = some l.value ∧ Stores (setGlobal hash v) l v m) ∨
    ((∀ l : Link, m.env.globals.get? hash ≠ some l.value) ∧
      after (setGlobal hash v) m = after (insertGlobal hash v) m) ∨
    after (setGlobal hash v) m = m := by
  cases hslot : m.env.globals.get? hash with
  | none =>
    have hfails : ∃ c, setGlobal hash v m = .error (.error (.ofCause c)) m := by
      unfold setGlobal
      rw [bind_of_ok (show environment m = .ok m.env m from rfl), hslot]
      by_cases hconstant : m.env.constants.contains hash = true
      · exact ⟨_, congrFun (if_pos hconstant) m⟩
      · exact ⟨_, congrFun (if_neg hconstant) m⟩
    obtain ⟨c, hrun⟩ := hfails
    exact .inr (.inr (after_of_error hrun))
  | some slot =>
    rcases link_or_plain slot with ⟨l, rfl⟩ | hplain
    · exact .inl ⟨l, rfl, stores_setGlobal hslot⟩
    · have hrun : setGlobal hash v m = insertGlobal hash v m := by
        unfold setGlobal
        rw [bind_of_ok (show environment m = .ok m.env m from rfl), hslot]
        exact bind_of_ok (writeThrough_of_plain hplain)
      refine .inr (.inl ⟨fun l hl => ?_, by unfold after; rw [hrun]⟩)
      cases hl
      rw [Link.link?_value] at hplain
      cases hplain

/-- The same for a property. -/
theorem setProperty_cases (object : Value) (hash : UInt32) (v : Value) (m : Machine) :
    (∃ l : Link, (m.fieldsAt? object).bind (·.get? hash) = some l.value ∧
      Stores (setProperty object hash v) l v m) ∨
    (∃ h, object = .object h ∧
      (∀ l : Link, (m.fieldsAt? object).bind (·.get? hash) ≠ some l.value) ∧
      after (setProperty object hash v) m = { m with
        env := m.env.mapHeap (·.modify h (insertField hash (v.delink m.env.memory.cells))) }) ∨
    after (setProperty object hash v) m = m := by
  cases object with
  | object h =>
    have hat : m.fieldsAt? (.object h) = (m.env.heap.get? h).bind fieldsOf? := rfl
    rw [hat]
    cases hfields : (m.env.heap.get? h).bind fieldsOf? with
    | none =>
      have hrun : setProperty (.object h) hash v m = fault .noProperties m := by
        unfold setProperty
        refine (bind_of_ok rfl).trans ?_
        rw [hfields]
      exact .inr (.inr (after_of_error hrun))
    | some fields =>
      by_cases hlink : ∃ l : Link, fields.get? hash = some l.value
      · obtain ⟨l, hslot⟩ := hlink
        exact .inl ⟨l, hslot, stores_setProperty hfields hslot⟩
      · refine .inr (.inl ⟨h, rfl, fun l hl => hlink ⟨l, hl⟩, ?_⟩)
        refine after_of_ok (setProperty_of_plain hfields fun slot hslot => ?_)
        rcases link_or_plain slot with ⟨l, rfl⟩ | hplain
        · exact absurd ⟨l, hslot⟩ hlink
        · exact hplain
  | _ => exact .inr (.inr rfl)

theorem continues_setGlobal (hash : UInt32) (v : Value) (m : Machine) :
    Continues s l (fun _ => m.env.globals.get? hash ≠ some l.value) m
      (after (setGlobal hash v) m) := by
  obtain ⟨l', hslot, hstores⟩ | ⟨hplain, hafter⟩ | hafter := setGlobal_cases hash v m
  · refine (continues_of_stores hstores).mono fun _ hne hl => ?_
    subst hl
    exact hne hslot
  · rw [hafter]
    refine continues_aside fun hm => .global _ ?_
    rintro rfl
    exact hplain l hm.site
  · rw [hafter]
    exact Admits.refl m

theorem continues_defineConstant {quiet : Natives → Prop} (hash : UInt32) (v : Value) :
    Keeps (Continues s l quiet) (defineConstant hash v) :=
  fun _ => continues_aside fun _ => .edit (.constant hash v)

theorem continues_setProperty (object : Value) (hash : UInt32) (v : Value) (m : Machine) :
    Continues s l (fun _ => (m.fieldsAt? object).bind (·.get? hash) ≠ some l.value) m
      (after (setProperty object hash v) m) := by
  obtain ⟨l', hslot, hstores⟩ | ⟨h, rfl, hplain, hafter⟩ | hafter :=
    setProperty_cases object hash v m
  · refine (continues_of_stores hstores).mono fun _ hne hl => ?_
    subst hl
    exact hne hslot
  · rw [hafter]
    refine continues_aside fun hm => Environment.aside_insertField ?_ _
    rintro rfl
    obtain ⟨i, hi, hv⟩ := Heap.field?_eq_some.1 hm.site
    exact hplain l (by simp [fieldsAt?, Value.object?, hi, fieldsOf?, hv])
  · rw [hafter]
    exact Admits.refl m

/-! ### Instructions -/

theorem continues_perform_setGlobal (hash : UInt32) (executor : Exec Unit) (m : Machine) :
    Continues s l (fun _ => m.slot? (.setGlobal hash) ≠ some l.value) m
      (after (perform executor (.setGlobal hash)) m) := by
  cases hv : m.fromTop? 0 with
  | none =>
    have hrun : perform executor (.setGlobal hash) m = .error _ m :=
      bind_of_error (peek_of_none (by decide) hv)
    rw [after_of_error hrun]
    exact Admits.refl m
  | some v =>
    have hrun : perform executor (.setGlobal hash) m = setGlobal hash v m :=
      perform_setGlobal hv executor
    unfold after
    rw [hrun]
    exact continues_setGlobal hash v m

theorem continues_perform_setProperty (hash : UInt32) (executor : Exec Unit) (m : Machine) :
    Continues s l (fun _ => m.slot? (.setProperty hash) ≠ some l.value) m
      (after (perform executor (.setProperty hash)) m) := by
  cases hv : m.fromTop? 0 with
  | none =>
    have hrun : perform executor (.setProperty hash) m = .error _ m :=
      bind_of_error (peek_of_none (by decide) hv)
    rw [after_of_error hrun]
    exact Admits.refl m
  | some v =>
    cases ho : m.fromTop? 1 with
    | none =>
      have hrun : perform executor (.setProperty hash) m = .error _ m :=
        (bind_of_ok (peek_of_fromTop? (by decide) hv)).trans
          (bind_of_error (peek_of_none (by decide) ho))
      rw [after_of_error hrun]
      exact Admits.refl m
    | some object =>
      have hslot : m.slot? (.setProperty hash) = (m.fieldsAt? object).bind (·.get? hash) := by
        unfold slot?
        rw [ho]
        rfl
      have hrun : perform executor (.setProperty hash) m =
          (setProperty object hash v >>= fun _ => pop >>= fun _ => setPeek 0 v) m :=
        perform_setProperty hv ho executor
      unfold after
      rw [hrun, hslot]
      refine after_bind (continues_setProperty object hash v m) (fun _ => ?_)
        (fun _ _ _ h h' => IsTrans.trans _ _ _ h h') fun _ _ h => h
      exact keeps_pop.bind fun _ => keeps_setPeek 0 v

/-- Every instruction but an import continues a history, unless it defines the global anew. -/
theorem continues_perform (hi : ∀ index, i ≠ .importClass index) (hdefined : ¬ s.definedBy i)
    (executor : Exec Unit) (m : Machine) :
    Continues s l (fun natives => m.slot? i ≠ some l.value ∧ (i.Calls → natives.KeepCells)) m
      (after (perform executor i) m) := by
  by_cases hset : ∃ hash, i = .setGlobal hash
  · obtain ⟨hash, rfl⟩ := hset
    exact (continues_perform_setGlobal hash executor m).mono fun _ h => h.1
  by_cases hproperty : ∃ hash, i = .setProperty hash
  · obtain ⟨hash, rfl⟩ := hproperty
    exact (continues_perform_setProperty hash executor m).mono fun _ h => h.1
  -- no other instruction assigns to a slot
  have hkeeps : Keeps (Continues s l fun natives => i.Calls → natives.KeepCells)
      (perform executor i) := by
    refine keeps_perform_moving hi (fun hcalls => ?_) (fun hash v heq => absurd ⟨hash, heq⟩ hset) ?_
      (fun hash v _ => continues_defineConstant hash v)
      (fun object hash v heq => absurd ⟨hash, heq⟩ hproperty) executor
    · exact admitsNatives_continues fun _ h => h hcalls
    · rintro hash v rfl m
      refine continues_aside fun _ => .global _ ?_
      rintro rfl
      exact hdefined (Site.definedBy_self hash)
  exact (hkeeps m).mono fun _ h => h.2

/-- Scripts continue a history, whatever they do, until they define the global anew. -/
theorem continues_watch (fuel : Nat) :
    Keeps (Continues s l fun _ => False) (watch (sparesSite s) fuel) := by
  refine keeps_watch (fun hash v m => ?_) (fun m' hash hm' hnext v m => ?_)
    (fun _ hash m _ _ => keeps_pop.bind (continues_defineConstant hash) m)
    (fun object hash v m => ?_) fuel
  · exact (continues_setGlobal hash v m).mono nofun
  · refine continues_aside fun _ => .global _ ?_
    rintro rfl
    simp [sparesSite, hnext, Site.definedBy_self] at hm'
  · exact (continues_setProperty object hash v m).mono nofun

/-! ### Reading -/

theorem perform_getGlobal (hm : m.env.Linked (.global hash) l) (executor : Exec Unit) :
    perform executor (.getGlobal hash) m = push (l.read m.env.memory.cells) m := by
  have hslot : m.env.globals.get? hash = some l.value := hm.site
  have hread : getGlobal hash m = .ok (l.read m.env.memory.cells) m := by
    unfold getGlobal
    refine (bind_of_ok rfl).trans ?_
    rw [hslot]
    rfl
  exact bind_of_ok hread

theorem perform_getProperty {h : Handle} (hm : m.env.Linked (.field h hash) l)
    (ho : m.fromTop? 0 = some (.object h)) (executor : Exec Unit) :
    perform executor (.getProperty hash) m = .ok ()
      (m.mapStack fun s => s.setIfInBounds (s.size - 1) (l.read m.env.memory.cells)) := by
  obtain ⟨i, hi, hv⟩ := Heap.field?_eq_some.1 hm.site
  have hobject : (Value.object h).object?.bind m.env.heap.get? = some (.inst i) := hi
  have hread : getProperty (.object h) hash m = .ok (l.read m.env.memory.cells) m := by
    unfold getProperty
    refine (bind_of_ok rfl).trans ?_
    rw [hobject]
    dsimp only
    rw [hv]
    rfl
  refine (bind_of_ok (peek_of_fromTop? (by decide) ho)).trans ?_
  rw [bind_of_ok hread]
  exact setPeek_of_fromTop? (by decide) ho _

end Exec

namespace Machine

open Exec

variable {m : Machine} {s : Site} {l : Link} {v : Value}

/-- A script is about to write a value to a site. -/
def Writes (m : Machine) : Site → Instruction → Value → Prop
  | .field h hash, i, v =>
    i = .setProperty hash ∧ m.fromTop? 0 = some v ∧ m.fromTop? 1 = some (.object h)
  | .global hash, i, v => i = .setGlobal hash ∧ m.fromTop? 0 = some v

/-- A script that writes to a linked site assigns to a linked slot. -/
theorem slot?_of_writes {i : Instruction} (hm : m.env.Linked s l) (hw : m.Writes s i v) :
    m.fromTop? 0 = some v ∧ m.slot? i = some l.value := by
  cases s with
  | global hash =>
    obtain ⟨rfl, hv⟩ := hw
    exact ⟨hv, hm.site⟩
  | field h hash =>
    obtain ⟨rfl, hv, ho⟩ := hw
    obtain ⟨i, hi, hslot⟩ := Heap.field?_eq_some.1 hm.site
    exact ⟨hv, by simp [slot?, fieldsAt?, ho, Value.object?, hi, fieldsOf?, hslot]⟩

/-- **Linked fields and globals are their cells.** Host and scripts read what either wrote last, and
what a script writes is stored as a number of the cell's kind or refused. -/
theorem link_aliasing (l : Link) :
    (∀ (env : Environment) c e name before after, env.heap.Slotted → env.natives.KeepLinks →
      l.In env.memory.cells → env.entityFields e = before ++ (name, l) :: after →
      (∀ f ∈ after, hashName f.1 ≠ hashName name) →
        (env.newEntity c e).2.Linked (.field (env.newEntity c e).1 (hashName name)) l) ∧
    (∀ (env : Environment) name, env.heap.Slotted → env.natives.KeepLinks →
      l.In env.memory.cells → (env.bindLink none name l).Linked (.global (hashName name)) l) ∧
    ∀ s m w, Trail s l m w →
      l.read m.env.memory.cells = w ∧
      (∀ executor h hash, s = .field h hash → m.fromTop? 0 = some (.object h) →
        perform executor (.getProperty hash) m =
          .ok () (m.mapStack fun stack => stack.setIfInBounds (stack.size - 1) w)) ∧
      (∀ executor hash, s = .global hash → perform executor (.getGlobal hash) m = push w m) ∧
      (∀ executor i v, m.Writes s i v →
        (∀ n, l.cast? m.env.memory.cells v = some n → ∃ m', perform executor i m = .ok () m' ∧
          Trail s l m' n ∧ m'.env = m.env.putCell l n ∧
            ∀ l' ≠ l, l'.read m'.env.memory.cells = l'.read m.env.memory.cells) ∧
        (v = .null ∨ (∃ h, v = .object h) → ∃ c : Cause,
          perform executor i m = .error (.error (.ofCause c)) m ∧ c.severity = .runtime)) ∧
      (∀ executor i, (∀ index, i ≠ .importClass index) → ¬ s.definedBy i →
        ∃ w', Trail s l (after (perform executor i) m) w' ∧
          (m.slot? i ≠ some l.value → (i.Calls → m.env.natives.KeepCells) → w' = w)) ∧
      ∀ fuel, (∃ w', Trail s l (after (watch (sparesSite s) fuel) m) w') ∧
        Refines (watch (sparesSite s) fuel) (execute fuel) ∧
        ∀ h hash, s = .field h hash → watch (sparesSite s) fuel = execute fuel := by
  refine ⟨fun env c e name before after hs hn hin => Environment.linked_newEntity hs hn hin,
    fun env name hs hn hin => Environment.linked_bindLink hs hn hin name, fun s m w ht => ?_⟩
  obtain ⟨hm, hread⟩ := ht.linked
  refine ⟨hread, ?_, ?_, ?_, ?_, ?_⟩
  · rintro executor h hash rfl ho
    rw [perform_getProperty hm ho, hread]
  · rintro executor hash rfl
    rw [perform_getGlobal hm, hread]
  · intro executor i v hw
    obtain ⟨hv, hslot⟩ := slot?_of_writes hm hw
    obtain ⟨hnumber, hother⟩ := perform_of_slot? hv hslot executor
    refine ⟨fun n hn => ?_, fun hv => hother (Link.cast?_eq_none.2 hv)⟩
    obtain ⟨m', hrun, henv⟩ := hnumber n hn
    have hput := (ht.put l (Link.fits_of_cast? hn)).thread m'.thread
    rw [if_pos rfl] at hput
    have hm' : m' = { m.putCell l n with thread := m'.thread } := by
      cases m'
      exact congrArg (Machine.mk · _) henv
    refine ⟨m', hrun, hm' ▸ hput, henv, fun l' hl' => ?_⟩
    rw [henv]
    exact Link.read_put_of_ne hl' n
  · intro executor i hi hdefined
    obtain ⟨w', ht', -, hsame⟩ := continues_perform hi hdefined executor m w ht
    exact ⟨w', ht', fun hslot hcalls => hsame ⟨hslot, hcalls⟩⟩
  · intro fuel
    obtain ⟨w', ht', -⟩ := continues_watch fuel m w ht
    refine ⟨⟨w', ht'⟩, watch_refines _ fuel, ?_⟩
    rintro h hash rfl
    exact watch_eq_execute (sparesSite_field h hash) fuel

/-- A native object with one integer, 5, and a class for it. -/
def dimmer : Environment :=
  let heap := (Heap.empty.alloc (.scriptClass (.ofHash 0))).2
  let env := Environment.new heap Native.standard none default
  { env with memory := ⟨heap, ⟨#[5], #[]⟩, #[⟨[("level", .integer ⟨0⟩)], 0⟩]⟩ }

/-- An instance of it and the number 2.5 are on the stack. -/
def dimming : Machine :=
  let (h, env) := dimmer.newEntity ⟨0, 0⟩ ⟨0⟩
  ⟨env, { Thread.new 0 with stack := #[.object h, .decimal ⟨0x40200000⟩] }⟩

/-- The number 2.5, written to the field of the instance, is 2 in the cell; when the host has put 7
there, the script reads 7. -/
theorem link_aliasing_dimming :
    ∃ m', perform (execute 0) (.setProperty (hashName "level")) dimming = .ok () m' ∧
      (Link.integer ⟨0⟩).read m'.env.memory.cells = .integer 2 ∧
      ∃ m'', perform (execute 0) (.getProperty (hashName "level"))
        { m'.putCell (.integer ⟨0⟩) (.integer 7) with
          thread := { Thread.new 0 with stack := #[.object (dimmer.newEntity ⟨0, 0⟩ ⟨0⟩).1] } } =
        .ok () m'' ∧ m''.thread.stack = #[.integer 7] := by
  obtain ⟨hentity, -, htrail⟩ := link_aliasing (.integer ⟨0⟩)
  have hslotted : dimmer.heap.Slotted := Heap.slotted_alloc (Heap.slotted_withThreshold _ _) _
  have hlinked := hentity dimmer ⟨0, 0⟩ ⟨0⟩ "level" [] [] hslotted Native.keepLinks_standard
    Nat.one_pos rfl nofun
  have hstart : Trail _ _ dimming _ := .start hlinked
  obtain ⟨-, -, -, hwrites, -, -⟩ := htrail _ _ _ hstart
  have hw : dimming.Writes (.field (dimmer.newEntity ⟨0, 0⟩ ⟨0⟩).1 (hashName "level"))
      (.setProperty (hashName "level")) (.decimal ⟨0x40200000⟩) := ⟨rfl, rfl, rfl⟩
  obtain ⟨m', hrun, ht, -⟩ := (hwrites (execute 0) _ _ hw).1 (.integer 2) (by decide +kernel)
  refine ⟨m', hrun, (htrail _ _ _ ht).1, ?_⟩
  have hhost := (ht.put (.integer ⟨0⟩) (n := .integer 7) trivial).thread
    { Thread.new 0 with stack := #[.object (dimmer.newEntity ⟨0, 0⟩ ⟨0⟩).1] }
  obtain ⟨-, hreads, -⟩ := htrail _ _ _ hhost
  exact ⟨_, hreads (execute 0) _ _ rfl rfl, rfl⟩

end Machine
end ScriptVm
