import ScriptVm.Proofs.Machine.ScriptMaps

/-!
# What instructions do to the operand stack

An instruction that succeeds, and neither makes a call nor loads a class nor returns, takes a fixed
number of values off the operand stack and puts a fixed number on. All that lies below them stays.

* `Exchange` says so of two stacks. `StackEffect` is such an exchange, or one of the two effects
  that are more: to copy the topmost values, and to write the value on top into a slot.
* `Opcode.stackEffect?` is the table for all opcodes.
* `Exchanges` says that an action exchanges values whenever it succeeds; `Exchanges.bind` puts
  actions together of which only the last puts values on.
* `relates_perform` goes through the instructions, and `step_stackEffect` is the result.
-/

namespace ScriptVm

/-! ### Effects -/

/-- Some values on top of a stack make way for others. Stacks are listed from the bottom. -/
def Exchange (taken given : Nat) (s s' : List Value) : Prop :=
  ∃ below popped pushed, s = below ++ popped ∧ s' = below ++ pushed ∧
    popped.length = taken ∧ pushed.length = given

/-- What an instruction does to the operand stack. -/
inductive StackEffect where
  | exchange (taken given : Nat)
  | copy (count : Nat)
  | assign (slot : Nat)
deriving DecidableEq

/-- An effect leads from one stack to another, in a call whose slots begin at `base`. -/
def StackEffect.Relates (base : Nat) (s s' : List Value) : StackEffect → Prop
  | exchange taken given => Exchange taken given s s'
  | copy count => ∃ below top, s = below ++ top ∧ top.length = count ∧ s' = s ++ top
  | assign slot =>
    base + slot < s.length ∧ ∃ v, s.getLast? = some v ∧ s' = s.set (base + slot) v

/-- What the instruction whose operands begin at `offset` does to the operand stack, if the operand
that it depends on is there and it is none that makes a call, loads a class or returns. -/
def Opcode.stackEffect? (code : Array UInt8) (offset : Nat) : Opcode → Option StackEffect
  | .getGlobal | .getLocal | .getModuleLocal | .loadValue | .null | .pushTrue | .pushFalse
  | .constant | .integer | .decimal | .newClass => some (.exchange 0 1)
  | .defineGlobal | .defineConstant | .defineModuleLocal | .pop | .saveValue | .print | .method
  | .switchTable => some (.exchange 1 0)
  | .getProperty | .hasProperty | .typeOf | .getSuperclass | .negate | .increment | .decrement
  | .bitNot | .logicalNot => some (.exchange 1 1)
  | .setProperty | .getElement | .equal | .equalNot | .add | .subtract | .multiply | .divide
  | .modulo | .bitshiftLeft | .bitshiftRight | .bitAnd | .bitOr | .bitXor | .logicalAnd
  | .logicalOr | .less | .greater | .lessEqual | .greaterEqual => some (.exchange 2 1)
  | .setElement => some (.exchange 3 1)
  | .newArray => (Code.word? code offset).map fun n => .exchange n.toNat 1
  | .newMap => (Code.word? code offset).map fun n => .exchange (2 * n.toNat) 1
  | .popN => (Code.byte? code offset).map fun n => .exchange n.toNat 0
  | .copy => (Code.byte? code offset).map fun n => .copy n.toNat
  | .setLocal => (Code.byte? code offset).map fun n => .assign n.toNat
  | .call | .invoke | .newInstance | .importClass | .ret => none
  | _ => some (.exchange 0 0)

variable {s s' s'' : List Value} {taken given k : Nat}

theorem Exchange.refl (s : List Value) : Exchange 0 0 s s :=
  ⟨s, [], [], (List.append_nil s).symm, (List.append_nil s).symm, rfl, rfl⟩

/-- What is taken off after values were taken off lies right below them. -/
theorem Exchange.trans (h : Exchange k 0 s s') (h' : Exchange taken given s' s'') :
    Exchange (taken + k) given s s'' := by
  obtain ⟨below, popped, pushed, rfl, rfl, rfl, hnone⟩ := h
  obtain ⟨below', popped', pushed', hsplit, rfl, rfl, rfl⟩ := h'
  rw [List.length_eq_zero_iff.1 hnone, List.append_nil] at hsplit
  subst hsplit
  exact ⟨below', popped' ++ popped, pushed', List.append_assoc .., rfl, List.length_append, rfl⟩

theorem exists_top (hle : k ≤ s.length) : ∃ below top, s = below ++ top ∧ top.length = k := by
  refine ⟨s.take (s.length - k), s.drop (s.length - k), (List.take_append_drop ..).symm, ?_⟩
  rw [List.length_drop]
  omega

/-- A stack that is cut and gets one value. -/
theorem exchange_take (hle : k ≤ s.length) (v : Value) :
    Exchange k 1 s (s.take (s.length - k) ++ [v]) := by
  obtain ⟨below, top, rfl, rfl⟩ := exists_top hle
  refine ⟨below, top, [v], rfl, ?_, rfl, rfl⟩
  rw [List.length_append, Nat.add_sub_cancel_right, List.take_left]

/-! ### Actions that leave the stack alone -/

/-- The operand stack is the same. -/
def Machine.SameStack (m m' : Machine) : Prop := m'.thread.stack = m.thread.stack

instance : IsTrans Machine Machine.SameStack := ⟨fun _ _ _ h h' => h'.trans h⟩

namespace Exec

open Machine Instruction

variable {α β : Type} {m m' : Machine} {f : Frame} {v : Value} {x : Exec α} {y : α → Exec β}

theorem Keeps.sameStack (hx : Keeps SameThread x) : Keeps SameStack x :=
  hx.mono fun _ _ h => congrArg Thread.stack h

theorem sameStack_frame : Keeps SameStack frame := by
  refine Keeps.sameStack fun m => ?_
  unfold after frame
  cases m.thread.frames.back? <;> rfl

theorem sameStack_size (n : Nat) : Keeps SameStack (size n) := by
  unfold size
  split <;> exact fun _ => rfl

theorem sameStack_offset (n : Int) : Keeps SameStack (offset n) := by
  unfold offset
  split <;> exact fun _ => rfl

theorem sameStack_heightBelow (count : Nat) : Keeps SameStack (heightBelow count) := by
  refine Keeps.sameStack fun m => ?_
  unfold after heightBelow
  by_cases hle : count ≤ m.thread.stack.size <;> simp [hle, SameThread]

theorem sameStack_valueAt (index : Nat) : Keeps SameStack (valueAt index) := by
  intro m
  unfold after valueAt
  cases m.thread.stack[index]? <;> rfl

theorem sameStack_peek (depth : Nat) : Keeps SameStack (peek depth) :=
  (sameStack_size _).bind fun count => (sameStack_heightBelow count).bind sameStack_valueAt

theorem sameStack_fault (c : Cause) : Keeps SameStack (fault c : Exec α) :=
  (thread_fault c).sameStack

theorem sameStack_ofOption (c : Cause) (o : Option α) : Keeps SameStack (ofOption c o) :=
  (thread_ofOption c o).sameStack

theorem sameStack_ofExcept (r : Except Cause α) : Keeps SameStack (ofExcept r) :=
  (thread_ofExcept r).sameStack

theorem sameStack_environment : Keeps SameStack environment := fun _ => rfl

theorem sameStack_memory : Keeps SameStack memory := fun _ => rfl

theorem sameStack_cells : Keeps SameStack cells := fun _ => rfl

theorem sameStack_get : Keeps SameStack (get : Exec Machine) := fun _ => rfl

theorem sameStack_pure (a : α) : Keeps SameStack (pure a : Exec α) := fun _ => rfl

theorem sameStack_onEnvironment (g : Environment → α × Environment) :
    Keeps SameStack (onEnvironment g) := fun _ => rfl

theorem sameStack_mapEnvironment (g : Environment → Environment) :
    Keeps SameStack (mapEnvironment g) := fun _ => rfl

theorem sameStack_alloc (o : Obj) : Keeps SameStack (alloc o) := fun _ => rfl

theorem sameStack_constantAt (index : Nat) : Keeps SameStack (constantAt index) :=
  sameStack_frame.bind fun _ => sameStack_environment.bind fun _ => sameStack_ofOption _ _

theorem sameStack_currentModule : Keeps SameStack currentModule :=
  sameStack_frame.bind fun _ => sameStack_environment.bind fun _ => sameStack_ofOption _ _

theorem sameStack_localIndex (slot : UInt8) : Keeps SameStack (localIndex slot) := by
  refine sameStack_frame.bind fun f => (sameStack_size _).bind fun index => ?_
  refine sameStack_get.bind fun m => ?_
  split
  · exact sameStack_pure _
  · exact sameStack_fault _

theorem sameStack_moveTo (target : Int) : Keeps SameStack (moveTo target) :=
  sameStack_frame.bind fun _ => (sameStack_ofExcept _).bind fun _ _ => rfl

theorem sameStack_jump (distance : Int) : Keeps SameStack (jump distance) :=
  sameStack_frame.bind fun _ => (sameStack_offset _).bind sameStack_moveTo

/-! ### Names, properties and elements -/

theorem sameStack_getGlobal (hash : UInt32) : Keeps SameStack (getGlobal hash) := by
  refine sameStack_environment.bind fun env => ?_
  dsimp only
  split
  · exact sameStack_pure _
  · exact sameStack_fault _

theorem sameStack_setGlobal (hash : UInt32) (v : Value) : Keeps SameStack (setGlobal hash v) := by
  refine sameStack_environment.bind fun env => ?_
  split
  · refine (thread_writeThrough _ v).sameStack.bind fun linked => ?_
    cases linked <;> exact fun _ => rfl
  · split <;> exact sameStack_fault _

theorem sameStack_setModuleLocal (slot : UInt16) : Keeps SameStack (setModuleLocal slot) := by
  refine (sameStack_peek 0).bind fun v => sameStack_cells.bind fun cells => ?_
  refine sameStack_currentModule.bind fun current => ?_
  dsimp only
  split
  · exact sameStack_mapEnvironment _
  · exact sameStack_fault _

theorem sameStack_bindMethod (receiver method : Value) :
    Keeps SameStack (bindMethod receiver method) := by
  refine sameStack_environment.bind fun env => ?_
  dsimp only
  split
  · exact (sameStack_alloc _).bind fun _ => sameStack_pure _
  · exact sameStack_cells.bind fun _ => sameStack_pure _

theorem sameStack_getProperty (object : Value) (hash : UInt32) :
    Keeps SameStack (getProperty object hash) := by
  refine sameStack_environment.bind fun env => ?_
  split
  · split
    · exact sameStack_pure _
    · refine (sameStack_onEnvironment _).bind fun found => ?_
      cases found with
      | some method => exact sameStack_bindMethod object method
      | none => exact sameStack_fault _
  · refine (sameStack_onEnvironment _).bind fun found => ?_
    cases found with
    | some v => exact sameStack_pure _
    | none => exact sameStack_fault _
  · exact sameStack_fault _

theorem sameStack_hasProperty (object : Value) (hash : UInt32) :
    Keeps SameStack (hasProperty object hash) := by
  unfold hasProperty
  cases object with
  | object h =>
    refine sameStack_environment.bind fun env => ?_
    split
    · split
      · exact sameStack_pure _
      · exact sameStack_onEnvironment _
    · exact sameStack_onEnvironment _
    · exact sameStack_pure _
  | _ => exact sameStack_pure _

theorem sameStack_getElement (object position : Value) :
    Keeps SameStack (getElement object position) := by
  refine sameStack_memory.bind fun mem => ?_
  split
  · exact (sameStack_ofExcept _).bind fun _ => sameStack_pure _
  · exact (sameStack_ofExcept _).bind fun _ => sameStack_pure _
  · exact sameStack_fault _
  · exact sameStack_fault _

theorem sameStack_inherit (hash : UInt32) : Keeps SameStack (inherit hash) := by
  refine (sameStack_peek 0).bind fun v => sameStack_environment.bind fun env => ?_
  split
  · exact sameStack_mapEnvironment _
  · exact sameStack_fault _

/-! ### Actions that exchange values -/

/-- Where an action succeeds, so many values on top of the stack made way for so many others. -/
def Exchanges (taken given : Nat) (x : Exec α) : Prop :=
  ∀ m a m', x m = .ok a m' → Exchange taken given m.thread.stack.toList m'.thread.stack.toList

theorem Keeps.exchanges (hx : Keeps SameStack x) : Exchanges 0 0 x := by
  intro m a m' hrun
  have hstack : m'.thread.stack = m.thread.stack := after_of_ok hrun ▸ hx m
  rw [hstack]
  exact .refl _

theorem Exchanges.bind (hx : Exchanges k 0 x) (hy : ∀ a, Exchanges taken given (y a)) :
    Exchanges (taken + k) given (x >>= y) := by
  intro m b m' hrun
  obtain ⟨a, m₁, hfirst, hrest⟩ := bind_eq_ok.1 hrun
  exact (hx m a m₁ hfirst).trans (hy a m₁ b m' hrest)

/-- What is only read comes first. -/
theorem Keeps.exchanges_bind (hx : Keeps SameStack x) (hy : ∀ a, Exchanges taken given (y a)) :
    Exchanges taken given (x >>= y) := hx.exchanges.bind hy

theorem exchanges_fault (c : Cause) : Exchanges taken given (fault c : Exec α) :=
  fun _ _ _ hrun => by cases hrun

theorem exchanges_push (v : Value) : Exchanges 0 1 (push v) := by
  intro m _ m' hrun
  rw [push_eq_ok hrun]
  exact ⟨m.thread.stack.toList, [], [v], (List.append_nil _).symm, Array.toList_push, rfl, rfl⟩

theorem exchanges_pop : Exchanges 1 0 pop := by
  intro m v m' hrun
  obtain ⟨hv, rfl⟩ := pop_eq_ok hrun
  rw [← Array.getLast?_toList] at hv
  exact ⟨m.thread.stack.toList.dropLast, [v], [], (List.dropLast_append_getLast? v hv).symm,
    Array.toList_pop.trans (List.append_nil _).symm, rfl, rfl⟩

theorem exchanges_popMany (count : Nat) : Exchanges count 0 (popMany count) := by
  induction count with
  | zero => exact (sameStack_pure ()).exchanges
  | succ count ih => exact exchanges_pop.bind fun _ => ih

theorem le_of_heightBelow {count height : Nat} (hrun : heightBelow count m = .ok height m') :
    count ≤ m.thread.stack.toList.length := by
  unfold heightBelow at hrun
  split at hrun
  · assumption
  · cases hrun

theorem setValueAt_eq_ok {index : Nat} (hrun : setValueAt index v m = .ok () m') :
    index < m.thread.stack.toList.length ∧
      m'.thread.stack.toList = m.thread.stack.toList.set index v := by
  unfold setValueAt at hrun
  split at hrun
  · rename_i hlt
    cases hrun
    exact ⟨hlt, Array.toList_setIfInBounds⟩
  · cases hrun

theorem exchanges_setPeek (v : Value) : Exchanges 1 1 (setPeek 0 v) := by
  intro m _ m' hrun
  obtain ⟨count, m₁, hsize, hnext⟩ := bind_eq_ok.1 hrun
  obtain ⟨-, rfl, rfl⟩ := size_eq_ok hsize
  obtain ⟨height, m₂, hheight, hset⟩ := bind_eq_ok.1 hnext
  have hle := le_of_heightBelow hheight
  obtain ⟨rfl, rfl⟩ := heightBelow_eq_ok hheight
  obtain ⟨-, hstack⟩ := setValueAt_eq_ok hset
  rw [hstack, ← Array.length_toList]
  obtain ⟨below, w, hs⟩ := (List.eq_nil_or_concat _).resolve_left (List.ne_nil_of_length_pos hle)
  rw [hs]
  refine ⟨below, [w], [v], List.concat_eq_append, ?_, rfl, rfl⟩
  simp

/-- Cutting the stack and pushing a new object. -/
theorem exchange_of_truncate {o : Obj} (hle : k ≤ m.thread.stack.toList.length)
    (hrun : (truncate (m.thread.stack.size - k) >>= fun _ => alloc o >>= fun h =>
      push (.object h)) m = .ok () m') :
    Exchange k 1 m.thread.stack.toList m'.thread.stack.toList := by
  obtain ⟨_, m₁, hcut, hrun⟩ := bind_eq_ok.1 hrun
  cases hcut
  obtain ⟨h, m₁, halloc, hrun⟩ := bind_eq_ok.1 hrun
  rw [push_eq_ok hrun]
  cases halloc
  have hstack := exchange_take hle (.object (m.env.memory.alloc o).1)
  rw [Array.length_toList, ← Array.toList_shrink, ← Array.toList_push] at hstack
  exact hstack

/-! ### Instructions that work on several values -/

theorem exchanges_newArray (count : Nat) : Exchanges count 1 (newArray count) := by
  intro m _ m' hrun
  obtain ⟨start, m₁, hstart, hrun₁⟩ := bind_eq_ok.1 hrun
  have hle := le_of_heightBelow hstart
  obtain ⟨rfl, rfl⟩ := heightBelow_eq_ok hstart
  obtain ⟨cells, m₂, hcells, hrun₂⟩ := bind_eq_ok.1 hrun₁
  cases hcells
  obtain ⟨values, m₃, hvalues, hrun₃⟩ := bind_eq_ok.1 hrun₂
  obtain ⟨-, rfl⟩ := valuesFrom_eq_ok hvalues
  exact exchange_of_truncate hle hrun₃

theorem exchanges_newMap (count : Nat) : Exchanges (2 * count) 1 (newMap count) := by
  intro m _ m' hrun
  obtain ⟨double, m₁, hdouble, hrun₁⟩ := bind_eq_ok.1 hrun
  obtain ⟨-, rfl, rfl⟩ := size_eq_ok hdouble
  rw [Nat.mul_comm count 2] at hrun₁
  obtain ⟨start, m₂, hstart, hrun₂⟩ := bind_eq_ok.1 hrun₁
  have hle := le_of_heightBelow hstart
  obtain ⟨rfl, rfl⟩ := heightBelow_eq_ok hstart
  obtain ⟨values, m₃, hvalues, hrun₃⟩ := bind_eq_ok.1 hrun₂
  obtain ⟨-, rfl⟩ := valuesFrom_eq_ok hvalues
  obtain ⟨mem, m₄, hmem, hrun₄⟩ := bind_eq_ok.1 hrun₃
  cases hmem
  obtain ⟨map, m₅, hmap, hrun₅⟩ := bind_eq_ok.1 hrun₄
  obtain ⟨-, rfl⟩ := ofExcept_eq_ok hmap
  exact exchange_of_truncate hle hrun₅

/-- The place that is copied stays at one depth, while every copy puts another value on top: it runs
through the values to copy. -/
theorem copyValues_eq_ok {below top : List Value} {depth left done : Nat}
    (hdepth : depth + 1 = top.length) (hdone : done + left = top.length)
    (hstack : m.thread.stack.toList = below ++ top ++ top.take done)
    (hrun : copyValues depth left m = .ok () m') :
    m'.thread.stack.toList = below ++ top ++ top := by
  induction left generalizing m done with
  | zero =>
    cases hrun
    rw [hstack, List.take_of_length_le (by omega)]
  | succ left ih =>
    obtain ⟨v, m₁, hpeek, hrun₁⟩ := bind_eq_ok.1 hrun
    obtain ⟨-, hv, rfl⟩ := peek_eq_ok hpeek
    obtain ⟨_, m₂, hpush, hrun₂⟩ := bind_eq_ok.1 hrun₁
    rw [push_eq_ok hpush] at hrun₂
    have hlt : done < top.length := by omega
    have hplace : m₁.thread.stack.size - (depth + 1) = below.length + done := by
      rw [← Array.length_toList, hstack]
      simp
      omega
    have hcopied : v = top[done] := by
      rw [hplace, ← Array.getElem?_toList, hstack, List.append_assoc,
        List.getElem?_append_right (Nat.le_add_right _ _), Nat.add_sub_cancel_left,
        List.getElem?_append_left hlt, List.getElem?_eq_getElem hlt] at hv
      exact (Option.some.inj hv).symm
    have hrest : done + 1 + left = top.length := by omega
    refine ih hrest ?_ hrun₂
    show (m₁.thread.stack.push v).toList = _
    rw [Array.toList_push, hstack, hcopied, List.append_assoc, List.take_append_getElem hlt]

theorem relates_copyTop {base count : Nat} (hrun : copyTop count m = .ok () m') :
    (StackEffect.copy count).Relates base m.thread.stack.toList m'.thread.stack.toList := by
  cases count with
  | zero =>
    cases hrun
    exact ⟨m.thread.stack.toList, [], (List.append_nil _).symm, rfl, (List.append_nil _).symm⟩
  | succ depth =>
    have hcopy : copyValues depth (depth + 1) m = .ok () m' := by
      unfold copyTop difference at hrun
      rw [if_neg (Nat.succ_ne_zero depth), if_pos (Nat.le_add_left 1 depth)] at hrun
      exact hrun
    -- since the first copy succeeds there are as many values
    obtain ⟨v, m₁, hpeek, -⟩ := bind_eq_ok.1 hcopy
    obtain ⟨hlt, -, -⟩ := peek_eq_ok hpeek
    obtain ⟨below, top, hstack, htop⟩ := exists_top (s := m.thread.stack.toList) hlt
    refine ⟨below, top, hstack, htop, ?_⟩
    rw [hstack]
    have hnone : 0 + (depth + 1) = top.length := by omega
    refine copyValues_eq_ok htop.symm hnone ?_ hcopy
    rw [hstack, List.take_zero, List.append_nil]

theorem localIndex_eq_ok {slot : UInt8} {index : Nat} (hf : m.thread.frames.back? = some f)
    (hrun : localIndex slot m = .ok index m') : index = f.slots + slot.toNat ∧ m' = m := by
  unfold localIndex at hrun
  rw [bind_of_ok (frame_of_back? hf)] at hrun
  obtain ⟨place, m₁, hplace, hrun₁⟩ := bind_eq_ok.1 hrun
  obtain ⟨-, rfl, rfl⟩ := size_eq_ok hplace
  obtain ⟨m₂, m₃, hget, hrun₂⟩ := bind_eq_ok.1 hrun₁
  cases hget
  split at hrun₂
  · cases hrun₂
    exact ⟨rfl, rfl⟩
  · cases hrun₂

theorem relates_setLocal {slot : UInt8} (hf : m.thread.frames.back? = some f)
    (hrun : setLocal slot m = .ok () m') :
    (StackEffect.assign slot.toNat).Relates f.slots m.thread.stack.toList
      m'.thread.stack.toList := by
  obtain ⟨index, m₁, hindex, hrun₁⟩ := bind_eq_ok.1 hrun
  obtain ⟨rfl, rfl⟩ := localIndex_eq_ok hf hindex
  obtain ⟨v, m₂, hpeek, hset⟩ := bind_eq_ok.1 hrun₁
  obtain ⟨hv, rfl⟩ := peek_zero_eq_ok hpeek
  obtain ⟨hlt, hstack⟩ := setValueAt_eq_ok hset
  exact ⟨hlt, v, (Array.getLast?_toList _).trans hv, hstack⟩

/-! ### Instructions that exchange values -/

section Instructions

variable (executor : Exec Unit)

theorem exchanges_drop : Exchanges 1 0 (do let _ ← pop) :=
  exchanges_pop.bind fun _ => (sameStack_pure ()).exchanges

theorem exchanges_replace (v : Value) : Exchanges 2 1 (do let _ ← pop; setPeek 0 v) :=
  exchanges_pop.bind fun _ => exchanges_setPeek v

theorem exchanges_getGlobal (hash : UInt32) :
    Exchanges 0 1 (perform executor (.getGlobal hash)) :=
  (sameStack_getGlobal hash).exchanges_bind exchanges_push

theorem exchanges_setGlobal (hash : UInt32) :
    Exchanges 0 0 (perform executor (.setGlobal hash)) :=
  (sameStack_peek 0).exchanges_bind fun v => (sameStack_setGlobal hash v).exchanges

theorem exchanges_defineGlobal (hash : UInt32) :
    Exchanges 1 0 (perform executor (.defineGlobal hash)) := by
  refine (sameStack_peek 0).exchanges_bind fun v => ?_
  exact (thread_defineGlobal hash v).sameStack.exchanges_bind fun _ => exchanges_drop

theorem exchanges_defineConstant (hash : UInt32) :
    Exchanges 1 0 (perform executor (.defineConstant hash)) :=
  exchanges_pop.bind fun _ => (sameStack_mapEnvironment _).exchanges

theorem exchanges_getLocal (slot : UInt8) : Exchanges 0 1 (getLocal slot) := by
  refine (sameStack_localIndex slot).exchanges_bind fun index => ?_
  exact (sameStack_valueAt index).exchanges_bind exchanges_push

theorem exchanges_defineModuleLocal : Exchanges 1 0 defineModuleLocal := by
  refine exchanges_pop.bind fun v => sameStack_currentModule.exchanges_bind fun current => ?_
  exact sameStack_cells.exchanges_bind fun _ => (sameStack_mapEnvironment _).exchanges

theorem exchanges_getModuleLocal (slot : UInt16) : Exchanges 0 1 (getModuleLocal slot) := by
  refine sameStack_currentModule.exchanges_bind fun current => ?_
  exact (sameStack_ofOption _ _).exchanges_bind exchanges_push

theorem exchanges_getProperty (hash : UInt32) :
    Exchanges 1 1 (perform executor (.getProperty hash)) := by
  refine (sameStack_peek 0).exchanges_bind fun object => ?_
  exact (sameStack_getProperty object hash).exchanges_bind exchanges_setPeek

theorem exchanges_setProperty (hash : UInt32) :
    Exchanges 2 1 (perform executor (.setProperty hash)) := by
  refine (sameStack_peek 0).exchanges_bind fun v => ?_
  refine (sameStack_peek 1).exchanges_bind fun object => ?_
  exact (thread_setProperty object hash v).sameStack.exchanges_bind fun _ => exchanges_replace v

theorem exchanges_hasProperty (hash : UInt32) :
    Exchanges 1 1 (perform executor (.hasProperty hash)) := by
  refine exchanges_pop.bind fun object => ?_
  exact (sameStack_hasProperty object hash).exchanges_bind fun _ => exchanges_push _

theorem exchanges_getElement : Exchanges 2 1 (perform executor .getElement) := by
  refine exchanges_pop.bind fun position => exchanges_pop.bind fun object => ?_
  exact (sameStack_getElement object position).exchanges_bind exchanges_push

theorem exchanges_setElement : Exchanges 3 1 (perform executor .setElement) := by
  refine (sameStack_peek 0).exchanges_bind fun v => ?_
  refine (sameStack_peek 1).exchanges_bind fun position => ?_
  refine (sameStack_peek 2).exchanges_bind fun object => ?_
  refine sameStack_cells.exchanges_bind fun cells => ?_
  refine (thread_setElement object position _).sameStack.exchanges_bind fun _ => ?_
  exact (exchanges_popMany 2).bind fun _ => exchanges_setPeek v

theorem exchanges_constant (index : UInt32) :
    Exchanges 0 1 (perform executor (.constant index)) :=
  (sameStack_constantAt index.toNat).exchanges_bind exchanges_push

theorem exchanges_saveValue : Exchanges 1 0 (perform executor .saveValue) :=
  exchanges_pop.bind fun _ => Keeps.exchanges fun _ => rfl

theorem exchanges_loadValue : Exchanges 0 1 (perform executor .loadValue) :=
  sameStack_get.exchanges_bind fun _ => exchanges_push _

theorem exchanges_print : Exchanges 1 0 (perform executor .print) := by
  refine (sameStack_peek 0).exchanges_bind fun v => sameStack_memory.exchanges_bind fun mem => ?_
  exact (sameStack_mapEnvironment _).exchanges_bind fun _ => exchanges_popMany 1

theorem exchanges_printStack : Exchanges 0 0 (perform executor .printStack) :=
  sameStack_get.exchanges_bind fun _ => (sameStack_mapEnvironment _).exchanges

theorem exchanges_jumpIfFalse (distance : Int) :
    Exchanges 0 0 (perform executor (.jumpIfFalse distance)) := by
  refine (sameStack_peek 0).exchanges_bind fun v => sameStack_cells.exchanges_bind fun cells => ?_
  split
  · exact (sameStack_jump distance).exchanges
  · exact (sameStack_pure ()).exchanges

theorem exchanges_switchTable (count : UInt16) : Exchanges 1 0 (switchTable count) := by
  refine exchanges_pop.bind fun v => Keeps.exchanges ?_
  refine sameStack_frame.bind fun f => sameStack_memory.bind fun mem => ?_
  refine (sameStack_size _).bind fun stop => (sameStack_ofExcept _).bind fun found => ?_
  refine (sameStack_moveTo _).bind fun _ => ?_
  split
  · refine (sameStack_size _).bind fun target => (sameStack_offset _).bind fun distance => ?_
    exact sameStack_jump distance
  · exact sameStack_pure ()

theorem exchanges_failsafe (offset : UInt16) :
    Exchanges 0 0 (perform executor (.failsafe offset)) :=
  sameStack_frame.exchanges_bind fun _ => Keeps.exchanges fun _ => rfl

theorem exchanges_add : Exchanges 2 1 add := by
  refine (sameStack_peek 0).exchanges_bind fun b => (sameStack_peek 1).exchanges_bind fun a => ?_
  refine sameStack_memory.exchanges_bind fun mem => ?_
  dsimp only
  split
  · have hjoin : Keeps SameStack (Value.object <$> onMemory (·.concatenate a b)) := fun _ => rfl
    exact hjoin.exchanges_bind exchanges_replace
  · exact (sameStack_ofExcept _).exchanges_bind exchanges_replace

theorem exchanges_binary (op : BinaryOp) : Exchanges 2 1 (binary op) := by
  refine exchanges_pop.bind fun b => exchanges_pop.bind fun a => ?_
  refine sameStack_memory.exchanges_bind fun mem => ?_
  exact (sameStack_ofExcept _).exchanges_bind exchanges_push

theorem exchanges_unary (op : UnaryOp) : Exchanges 1 1 (unary op) := by
  refine exchanges_pop.bind fun a => sameStack_memory.exchanges_bind fun mem => ?_
  exact (sameStack_ofExcept _).exchanges_bind exchanges_push

theorem exchanges_compare (expected : Bool) : Exchanges 2 1 (compare expected) := by
  refine exchanges_pop.bind fun b => exchanges_pop.bind fun a => ?_
  exact sameStack_memory.exchanges_bind fun _ => exchanges_push _

theorem exchanges_typeOf : Exchanges 1 1 (perform executor .typeOf) := by
  refine exchanges_pop.bind fun v => sameStack_memory.exchanges_bind fun mem => ?_
  exact (sameStack_alloc _).exchanges_bind fun _ => exchanges_push _

theorem exchanges_newClass (hash : UInt32) (kind : UInt8) : Exchanges 0 1 (newClass hash kind) := by
  refine sameStack_environment.exchanges_bind fun env => ?_
  refine (sameStack_alloc _).exchanges_bind fun text => ?_
  exact (sameStack_alloc _).exchanges_bind fun _ => exchanges_push _

theorem exchanges_method (index : UInt8) (hash : UInt32) : Exchanges 1 0 (method index hash) := by
  refine sameStack_frame.exchanges_bind fun f => sameStack_environment.exchanges_bind fun env => ?_
  refine (sameStack_ofOption _ _).exchanges_bind fun function => ?_
  refine (sameStack_peek 0).exchanges_bind fun v => ?_
  refine (sameStack_ofOption _ _).exchanges_bind fun c => ?_
  exact (sameStack_mapEnvironment _).exchanges_bind fun _ => exchanges_drop

theorem exchanges_getSuperclass : Exchanges 1 1 getSuperclass := by
  refine exchanges_pop.bind fun v => sameStack_environment.exchanges_bind fun env => ?_
  dsimp only
  split
  · refine (sameStack_onEnvironment _).exchanges_bind fun parent => ?_
    cases parent with
    | some p => exact exchanges_push _
    | none => exact exchanges_fault .noParent
  · exact exchanges_fault .noParent

end Instructions

/-! ### Every instruction -/

theorem relates_of_exchanges {x : Exec Unit} {base : Nat} {effect? : Option StackEffect}
    (hx : Exchanges taken given x) (heffect : effect? = some (.exchange taken given))
    (hrun : x m = .ok () m') : ∃ effect, effect? = some effect ∧
      effect.Relates base m.thread.stack.toList m'.thread.stack.toList :=
  ⟨_, heffect, hx m () m' hrun⟩

/-- What the table says of an opcode is what its instruction does. -/
theorem relates_perform {executor : Exec Unit} {op : Opcode} {i : Instruction}
    {code : Array UInt8} {offset next : Nat} (hf : m.thread.frames.back? = some f)
    (hd : decode? code offset op = some (i, next))
    (hkind : op ∉ [Opcode.call, .invoke, .newInstance, .importClass, .ret])
    (hrun : perform executor i m = .ok () m') :
    ∃ effect, op.stackEffect? code offset = some effect ∧
      effect.Relates f.slots m.thread.stack.toList m'.thread.stack.toList := by
  cases op with
  | call | invoke | newInstance | importClass | ret => exact absurd (by decide) hkind
  -- the effect of these depends on the operand
  | newArray =>
    obtain ⟨count, hcount, heq⟩ := Option.map_eq_some_iff.1 hd
    cases heq
    exact relates_of_exchanges (exchanges_newArray count.toNat)
      (Option.map_eq_some_iff.2 ⟨count, hcount, rfl⟩) hrun
  | newMap =>
    obtain ⟨count, hcount, heq⟩ := Option.map_eq_some_iff.1 hd
    cases heq
    exact relates_of_exchanges (exchanges_newMap count.toNat)
      (Option.map_eq_some_iff.2 ⟨count, hcount, rfl⟩) hrun
  | popN =>
    obtain ⟨count, hcount, heq⟩ := Option.map_eq_some_iff.1 hd
    cases heq
    exact relates_of_exchanges (exchanges_popMany count.toNat)
      (Option.map_eq_some_iff.2 ⟨count, hcount, rfl⟩) hrun
  | copy =>
    obtain ⟨count, hcount, heq⟩ := Option.map_eq_some_iff.1 hd
    cases heq
    exact ⟨_, Option.map_eq_some_iff.2 ⟨count, hcount, rfl⟩, relates_copyTop hrun⟩
  | setLocal =>
    obtain ⟨slot, hslot, heq⟩ := Option.map_eq_some_iff.1 hd
    cases heq
    exact ⟨_, Option.map_eq_some_iff.2 ⟨slot, hslot, rfl⟩, relates_setLocal hf hrun⟩
  -- that of all others is the same for every operand
  | getGlobal =>
    obtain ⟨⟨hash, rfl⟩, -⟩ := withWord_eq_some hd
    exact relates_of_exchanges (exchanges_getGlobal executor hash) rfl hrun
  | setGlobal =>
    obtain ⟨⟨hash, rfl⟩, -⟩ := withWord_eq_some hd
    exact relates_of_exchanges (exchanges_setGlobal executor hash) rfl hrun
  | defineGlobal =>
    obtain ⟨⟨hash, rfl⟩, -⟩ := withWord_eq_some hd
    exact relates_of_exchanges (exchanges_defineGlobal executor hash) rfl hrun
  | defineConstant =>
    obtain ⟨⟨hash, rfl⟩, -⟩ := withWord_eq_some hd
    exact relates_of_exchanges (exchanges_defineConstant executor hash) rfl hrun
  | getLocal =>
    obtain ⟨⟨slot, rfl⟩, -⟩ := withByte_eq_some hd
    exact relates_of_exchanges (exchanges_getLocal slot) rfl hrun
  | defineModuleLocal =>
    obtain ⟨rfl, rfl⟩ := plain_eq_some hd
    exact relates_of_exchanges exchanges_defineModuleLocal rfl hrun
  | getModuleLocal =>
    obtain ⟨⟨slot, rfl⟩, -⟩ := withHalf_eq_some hd
    exact relates_of_exchanges (exchanges_getModuleLocal slot) rfl hrun
  | setModuleLocal =>
    obtain ⟨⟨slot, rfl⟩, -⟩ := withHalf_eq_some hd
    exact relates_of_exchanges (sameStack_setModuleLocal slot).exchanges rfl hrun
  | getProperty =>
    obtain ⟨⟨hash, rfl⟩, -⟩ := withWord_eq_some hd
    exact relates_of_exchanges (exchanges_getProperty executor hash) rfl hrun
  | setProperty =>
    obtain ⟨⟨hash, rfl⟩, -⟩ := withWord_eq_some hd
    exact relates_of_exchanges (exchanges_setProperty executor hash) rfl hrun
  | hasProperty =>
    obtain ⟨⟨hash, rfl⟩, -⟩ := withWord_eq_some hd
    exact relates_of_exchanges (exchanges_hasProperty executor hash) rfl hrun
  | getElement =>
    obtain ⟨rfl, rfl⟩ := plain_eq_some hd
    exact relates_of_exchanges (exchanges_getElement executor) rfl hrun
  | setElement =>
    obtain ⟨rfl, rfl⟩ := plain_eq_some hd
    exact relates_of_exchanges (exchanges_setElement executor) rfl hrun
  | null | pushTrue | pushFalse =>
    obtain ⟨rfl, rfl⟩ := plain_eq_some hd
    exact relates_of_exchanges (exchanges_push _) rfl hrun
  | integer | decimal =>
    obtain ⟨⟨n, rfl⟩, -⟩ := withWord_eq_some hd
    exact relates_of_exchanges (exchanges_push _) rfl hrun
  | constant =>
    obtain ⟨⟨index, rfl⟩, -⟩ := withWord_eq_some hd
    exact relates_of_exchanges (exchanges_constant executor index) rfl hrun
  | pop =>
    obtain ⟨rfl, rfl⟩ := plain_eq_some hd
    exact relates_of_exchanges (exchanges_popMany 1) rfl hrun
  | saveValue =>
    obtain ⟨rfl, rfl⟩ := plain_eq_some hd
    exact relates_of_exchanges (exchanges_saveValue executor) rfl hrun
  | loadValue =>
    obtain ⟨rfl, rfl⟩ := plain_eq_some hd
    exact relates_of_exchanges (exchanges_loadValue executor) rfl hrun
  | print =>
    obtain ⟨rfl, rfl⟩ := plain_eq_some hd
    exact relates_of_exchanges (exchanges_print executor) rfl hrun
  | printStack =>
    obtain ⟨rfl, rfl⟩ := plain_eq_some hd
    exact relates_of_exchanges (exchanges_printStack executor) rfl hrun
  | jump | jumpBack =>
    obtain ⟨⟨n, rfl⟩, -⟩ := withHalf_eq_some hd
    exact relates_of_exchanges (sameStack_jump _).exchanges rfl hrun
  | jumpIfFalse =>
    obtain ⟨⟨n, rfl⟩, -⟩ := withHalf_eq_some hd
    exact relates_of_exchanges (exchanges_jumpIfFalse executor _) rfl hrun
  | switchTable =>
    obtain ⟨⟨count, rfl⟩, -⟩ := withHalf_eq_some hd
    exact relates_of_exchanges (exchanges_switchTable count) rfl hrun
  | failsafe =>
    obtain ⟨⟨target, rfl⟩, -⟩ := withHalf_eq_some hd
    exact relates_of_exchanges (exchanges_failsafe executor target) rfl hrun
  | add =>
    obtain ⟨rfl, rfl⟩ := plain_eq_some hd
    exact relates_of_exchanges exchanges_add rfl hrun
  | subtract | multiply | divide | modulo | bitshiftLeft | bitshiftRight | bitAnd | bitOr | bitXor
  | logicalAnd | logicalOr | less | greater | lessEqual | greaterEqual =>
    obtain ⟨rfl, rfl⟩ := plain_eq_some hd
    exact relates_of_exchanges (exchanges_binary _) rfl hrun
  | negate | increment | decrement | bitNot | logicalNot =>
    obtain ⟨rfl, rfl⟩ := plain_eq_some hd
    exact relates_of_exchanges (exchanges_unary _) rfl hrun
  | equal | equalNot =>
    obtain ⟨rfl, rfl⟩ := plain_eq_some hd
    exact relates_of_exchanges (exchanges_compare _) rfl hrun
  | typeOf =>
    obtain ⟨rfl, rfl⟩ := plain_eq_some hd
    exact relates_of_exchanges (exchanges_typeOf executor) rfl hrun
  | newClass =>
    obtain ⟨hash, -, hd⟩ := Option.bind_eq_some_iff.1 hd
    obtain ⟨kind, -, hd⟩ := Option.bind_eq_some_iff.1 hd
    cases hd
    exact relates_of_exchanges (exchanges_newClass hash kind) rfl hrun
  | inherit =>
    obtain ⟨⟨hash, rfl⟩, -⟩ := withWord_eq_some hd
    exact relates_of_exchanges (sameStack_inherit hash).exchanges rfl hrun
  | method =>
    obtain ⟨index, -, hd⟩ := Option.bind_eq_some_iff.1 hd
    obtain ⟨hash, -, hd⟩ := Option.bind_eq_some_iff.1 hd
    cases hd
    exact relates_of_exchanges (exchanges_method index hash) rfl hrun
  | getSuperclass =>
    obtain ⟨rfl, rfl⟩ := plain_eq_some hd
    exact relates_of_exchanges exchanges_getSuperclass rfl hrun
  | error | superMethod | withReceiver | event | enumNext | addEnum | newEnum | useNamespace
  | importModule | switch =>
    obtain ⟨rfl, rfl⟩ := plain_eq_some hd
    exact relates_of_exchanges (exchanges_fault _) rfl hrun

end Exec

namespace Machine

open Exec

/-- **Stack effects.** A step that succeeds, on an instruction that neither makes a call nor loads a
class nor returns, changes the operand stack as the table says, whatever the state. -/
theorem step_stackEffect (executor : Exec Unit) {m m' : Machine} {f : Frame} {op : Opcode}
    (hf : m.thread.frames.back? = some f) (hop : Code.opcode? f.code f.ip = some op)
    (hkind : op ∉ [Opcode.call, .invoke, .newInstance, .importClass, .ret])
    (hrun : step executor m = .ok () m') :
    ∃ effect, op.stackEffect? f.code (f.ip + 1) = some effect ∧
      effect.Relates f.slots m.thread.stack.toList m'.thread.stack.toList := by
  rw [step_eq] at hrun
  obtain ⟨i, m₁, hadvance, hperform⟩ := bind_eq_ok.1 hrun
  obtain ⟨op', next, hop', hd, rfl⟩ := advance_eq_ok hf hadvance
  rw [hop] at hop'
  cases hop'
  -- the call has moved past the operands, and its slots begin where they did
  have hmoved := back?_advanced hf op next
  obtain ⟨effect, heffect, hrelates⟩ := relates_perform hmoved hd hkind hperform
  exact ⟨effect, heffect, hrelates⟩

/-- Copying the two topmost of three values. -/
theorem step_stackEffect_copy :
    let m := (inCode #[21, 2]).mapStack fun _ => #[.integer 1, .integer 2, .integer 3]
    ∃ m', step (execute 1) m = .ok () m' ∧ m'.thread.stack.toList =
      [.integer 1, .integer 2, .integer 3, .integer 2, .integer 3] := by
  intro m
  have hrun : step (execute 1) m = .ok () (after (step (execute 1)) m) := rfl
  have hop : Code.opcode? #[21, 2] 0 = some .copy := by decide
  obtain ⟨effect, heffect, hrelates⟩ :=
    step_stackEffect (execute 1) (m := m) rfl hop (by decide) hrun
  cases heffect
  obtain ⟨below, top, hs, htop, hs'⟩ := hrelates
  refine ⟨_, hrun, ?_⟩
  have hsplit : [.integer 1] ++ [.integer 2, .integer 3] = below ++ top := hs
  have htwo := List.append_inj_right' hsplit htop.symm
  rw [hs', ← htwo]
  rfl

end Machine
end ScriptVm
