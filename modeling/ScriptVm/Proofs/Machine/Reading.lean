import ScriptVm.Environment.ClassLookup
import ScriptVm.Machine.Step
import ScriptVm.Proofs.Environment.Storage
import ScriptVm.Proofs.Machine.Safety

/-!
# What instructions only read

Most instructions do nothing that lasts: they use the operand stack, move the current call, and make
objects that only the operand stack knows.

* `Keeps R x` says that an action relates the machine before it to the one it leaves; `Keeps.bind`
  puts actions together.
* `Search` lists the elementary changes of an environment that do not last: a line in the log, a new
  object, a class that remembers its parent. `searches_findMember` says that looking for a member
  makes no others.
* `AdmitsReads R` says that a relation allows these and any use of the operand stack,
  `AdmitsCurrent R` that it also allows the current call to move.
* `keeps_perform_reading` is the result: such a relation is kept by every instruction of
  `Instruction.Reads`, whether it succeeds or not.
-/

namespace ScriptVm

/-! ### Searches -/

namespace Environment

/-- An elementary change that does not last: a line in the log, a new object, or a class that
remembers the parent that it names. -/
inductive Search (env : Environment) : Environment → Prop
  | report (level : Level) (text : Unit → String) : env.Search (env.report level text)
  | alloc {o : Obj} (ho : o.Fresh) : env.Search { env with memory := (env.memory.alloc o).2 }
  | remember {c p : Handle} {k : ClassObject} (hk : env.heap.class? c = some k)
      (hpending : k.parent = none) (hp : k.parentHash.bind env.classByHash? = some p) :
      env.Search (env.mapHeap (·.modifyClass c fun k => { k with parent := some p }))

/-- Several such changes. -/
abbrev Searches : Environment → Environment → Prop := Relation.ReflTransGen Search

theorem searches_resolveParent (env : Environment) (c : Handle) :
    env.Searches (env.resolveParent c).2 := by
  unfold resolveParent
  cases hk : env.heap.class? c with
  | none => exact .refl
  | some k =>
    cases hpending : k.parent with
    | some p =>
      dsimp only
      rw [hpending]
    | none =>
      dsimp only
      rw [hpending]
      cases hp : k.parentHash.bind env.classByHash? with
      | none => exact .refl
      | some p => exact .single (.remember hk hpending hp)

theorem searches_walk (first : Handle) (hash : UInt32) (left : Nat) (current : Option Handle)
    (bound : Bool) (env : Environment) :
    env.Searches (walk first hash left current bound env).2 := by
  induction left generalizing current bound env with
  | zero =>
    cases current with
    | none => exact .refl
    | some c => exact .single (.report _ _)
  | succ left ih =>
    cases current with
    | none => exact .refl
    | some c =>
      unfold walk
      split
      · exact .refl
      · split
        · exact .refl
        · exact (env.searches_resolveParent c).trans (ih _ _ _)

theorem searches_findMember (env : Environment) (c : Handle) (hash : UInt32) :
    env.Searches (env.findMember c hash).2 :=
  searches_walk c hash maxChain (some c) false env

end Environment

/-! ### Relations that allow reading -/

/-- A call that has moved, or has a new failsafe, and is the same otherwise. -/
structure Frame.Moved (f f' : Frame) : Prop where
  function : f'.function = f.function
  code : f'.code = f.code
  slots : f'.slots = f.slots
  module : f'.module = f.module

namespace Machine

/-- A relation between machines that allows any use of the operand stack and the elementary changes
that do not last. -/
class AdmitsReads (R : Machine → Machine → Prop) : Prop extends IsTrans Machine R where
  refl (m : Machine) : R m m
  stack (m : Machine) (g : Array Value → Array Value) : R m (m.mapStack g)
  search (m : Machine) (env : Environment) : m.env.Search env → R m { m with env }

/-- A relation that also allows the current call to move. -/
class AdmitsCurrent (R : Machine → Machine → Prop) : Prop extends AdmitsReads R where
  current (m : Machine) (g : Frame → Frame) :
    (∀ f, m.thread.frames.back? = some f → f.Moved (g f)) → R m (m.mapFrame g)

theorem AdmitsReads.searches {R : Machine → Machine → Prop} [AdmitsReads R] (m : Machine)
    {env : Environment} (h : m.env.Searches env) : R m { m with env } := by
  induction h with
  | refl => exact refl m
  | @tail env₁ env₂ _ hlast ih =>
    exact IsTrans.trans _ _ _ ih (search { m with env := env₁ } env₂ hlast)

end Machine

namespace Exec

section Sequences

variable {ε σ α β : Type} {x : EStateM ε σ α} {g : α → EStateM ε σ β} {m m' : σ}

theorem bind_of_ok {a : α} (hrun : x m = .ok a m') : (x >>= g) m = g a m' := by
  show EStateM.bind x g m = _
  unfold EStateM.bind
  rw [hrun]

theorem bind_of_error {e : ε} (hrun : x m = .error e m') : (x >>= g) m = .error e m' := by
  show EStateM.bind x g m = _
  unfold EStateM.bind
  rw [hrun]

/-- Where two actions do the same, so do they with what follows. -/
theorem bind_of_same {y : EStateM ε σ α} (h : x m = y m') : (x >>= g) m = (y >>= g) m' := by
  show EStateM.bind x g m = EStateM.bind y g m'
  unfold EStateM.bind
  rw [h]

/-- What is done in two steps and succeeds has an end of the first step. -/
theorem bind_eq_ok {b : β} : (x >>= g) m = .ok b m' ↔
    ∃ a m₁, x m = .ok a m₁ ∧ g a m₁ = .ok b m' := by
  cases hrun : x m with
  | ok a m₁ =>
    rw [bind_of_ok hrun]
    constructor
    · exact fun h => ⟨a, m₁, rfl, h⟩
    · rintro ⟨_, _, heq, h⟩
      cases heq
      exact h
  | error e m₁ =>
    rw [bind_of_error hrun]
    constructor
    · intro h
      cases h
    · rintro ⟨_, _, heq, -⟩
      cases heq

end Sequences

variable {ε δ α β : Type} {R S : Machine → Machine → Prop} {x : EStateM (Halt ε) Machine α}
  {g : α → EStateM (Halt ε) Machine β}

/-- Whatever the outcome of an action, the machine it leaves is related to the one before. -/
def Keeps (R : Machine → Machine → Prop) (x : EStateM (Halt ε) Machine α) : Prop :=
  ∀ m, R m (after x m)

/-! ### Rules -/

theorem Keeps.mono (hx : Keeps R x) (hS : ∀ m m', R m m' → S m m') : Keeps S x :=
  fun m => hS _ _ (hx m)

theorem after_of_ok {m m' : Machine} {a : α} (hrun : x m = .ok a m') : after x m = m' := by
  unfold after
  rw [hrun]

theorem after_of_error {m m' : Machine} {e : Halt ε} (hrun : x m = .error e m') :
    after x m = m' := by
  unfold after
  rw [hrun]

theorem modify_bind {u : Machine → Machine} {g : PUnit → EStateM (Halt ε) Machine β} (m : Machine) :
    (modify u >>= g) m = g ⟨⟩ (u m) := rfl

theorem after_bind_of_ok {m m' : Machine} {a : α} (hrun : x m = .ok a m') :
    after (x >>= g) m = after (g a) m' := by
  unfold after
  rw [bind_of_ok hrun]

/-- What two actions keep together on a machine. -/
theorem after_bind {T : Machine → Machine → Prop} {m : Machine} (hfirst : R m (after x m))
    (hg : ∀ a, Keeps S (g a)) (hcomp : ∀ m m' m'', R m m' → S m' m'' → T m m'')
    (hstop : ∀ m m', R m m' → T m m') : T m (after (x >>= g) m) := by
  cases hrun : x m with
  | ok a m' =>
    rw [after_of_ok hrun] at hfirst
    rw [after_bind_of_ok hrun]
    exact hcomp _ _ _ hfirst (hg a m')
  | error e m' =>
    rw [after_of_error hrun] at hfirst
    rw [after_of_error (bind_of_error hrun)]
    exact hstop _ _ hfirst

theorem Keeps.comp {T : Machine → Machine → Prop} (hx : Keeps R x) (hg : ∀ a, Keeps S (g a))
    (hcomp : ∀ m m' m'', R m m' → S m' m'' → T m m'') (hstop : ∀ m m', R m m' → T m m') :
    Keeps T (x >>= g) :=
  fun m => after_bind (hx m) hg hcomp hstop

theorem Keeps.bind [IsTrans Machine R] (hx : Keeps R x) (hg : ∀ a, Keeps R (g a)) :
    Keeps R (x >>= g) :=
  hx.comp hg (fun _ _ _ h h' => IsTrans.trans _ _ _ h h') fun _ _ h => h

theorem frame_of_back? {m : Machine} {f : Frame} (hf : m.thread.frames.back? = some f) :
    frame m = .ok f m := by
  unfold frame
  rw [hf]

theorem frame_of_none {m : Machine} (hf : m.thread.frames.back? = none) :
    frame m = .error (.error (.ofCause .noFrame)) m := by
  unfold frame
  rw [hf]

section Reading

variable [Machine.AdmitsReads R]

/-- Reading and failing change nothing. -/
theorem keeps_of_same (hx : ∀ m, after x m = m) : Keeps R x := by
  intro m
  rw [hx m]
  exact Machine.AdmitsReads.refl m

theorem keeps_pure (a : α) : Keeps R (pure a : EStateM (Halt ε) Machine α) :=
  keeps_of_same fun _ => rfl

theorem keeps_get : Keeps R (get : EStateM (Halt ε) Machine Machine) := keeps_of_same fun _ => rfl

theorem keeps_environment : Keeps R environment := keeps_of_same fun _ => rfl

theorem keeps_memory : Keeps R memory := keeps_of_same fun _ => rfl

theorem keeps_cells : Keeps R cells := keeps_of_same fun _ => rfl

theorem keeps_fault (c : Cause) : Keeps R (fault c : Exec α) := keeps_of_same fun _ => rfl

theorem keeps_ofOption (c : Cause) (r : Option α) : Keeps R (ofOption c r) := by
  cases r with
  | some a => exact keeps_pure a
  | none => exact keeps_fault c

theorem keeps_ofExcept (r : Except Cause α) : Keeps R (ofExcept r) := by
  cases r with
  | ok a => exact keeps_pure a
  | error c => exact keeps_fault c

/-! ### Primitives -/

theorem keeps_size (n : Nat) : Keeps R (size n) := by
  unfold size
  split <;> exact keeps_of_same fun _ => rfl

theorem keeps_difference (n k : Nat) : Keeps R (difference n k) := by
  unfold difference
  split <;> exact keeps_of_same fun _ => rfl

theorem keeps_offset (n : Int) : Keeps R (offset n) := by
  unfold offset
  split <;> exact keeps_of_same fun _ => rfl

theorem keeps_valueAt (index : Nat) : Keeps R (valueAt index) := by
  refine keeps_of_same fun m => ?_
  unfold after valueAt
  cases m.thread.stack[index]? <;> rfl

theorem keeps_valuesFrom (start : Nat) : Keeps R (valuesFrom start) := by
  refine keeps_of_same fun m => ?_
  by_cases hle : start ≤ m.thread.stack.size
  · exact after_of_ok (if_pos hle)
  · exact after_of_error (if_neg hle)

theorem keeps_heightBelow (count : Nat) : Keeps R (heightBelow count) := by
  refine keeps_of_same fun m => ?_
  by_cases hle : count ≤ m.thread.stack.size
  · exact after_of_ok (if_pos hle)
  · exact after_of_error (if_neg hle)

theorem keeps_frame : Keeps R frame := by
  refine keeps_of_same fun m => ?_
  unfold after frame
  cases m.thread.frames.back? <;> rfl

theorem keeps_setValueAt (index : Nat) (v : Value) : Keeps R (setValueAt index v) := by
  intro m
  by_cases hlt : index < m.thread.stack.size
  · rw [after_of_ok (if_pos hlt)]
    exact Machine.AdmitsReads.stack m _
  · rw [after_of_error (if_neg hlt)]
    exact Machine.AdmitsReads.refl m

theorem keeps_push (v : Value) : Keeps R (push v) := by
  intro m
  by_cases hlt : m.thread.stack.size < Thread.maxStack
  · rw [after_of_ok (if_pos hlt)]
    exact Machine.AdmitsReads.stack m _
  · rw [after_of_error (if_neg hlt)]
    exact Machine.AdmitsReads.refl m

theorem keeps_pushAll (vs : List Value) : Keeps R (pushAll vs) := by
  induction vs with
  | nil => exact keeps_pure ()
  | cons v rest ih => exact (keeps_push v).bind fun _ => ih

theorem keeps_pop : Keeps R pop := by
  intro m
  unfold after pop
  cases m.thread.stack.back? with
  | some v => exact Machine.AdmitsReads.stack m _
  | none => exact Machine.AdmitsReads.refl m

theorem keeps_popMany (count : Nat) : Keeps R (popMany count) := by
  induction count with
  | zero => exact keeps_pure ()
  | succ count ih => exact keeps_pop.bind fun _ => ih

theorem keeps_truncate (height : Nat) : Keeps R (truncate height) :=
  fun m => Machine.AdmitsReads.stack m _

theorem keeps_peek (depth : Nat) : Keeps R (peek depth) :=
  (keeps_size _).bind fun count => (keeps_heightBelow count).bind keeps_valueAt

theorem keeps_setPeek (depth : Nat) (v : Value) : Keeps R (setPeek depth v) :=
  (keeps_size _).bind fun count => (keeps_heightBelow count).bind fun i => keeps_setValueAt i v

theorem keeps_searches {g : Environment → α × Environment}
    (hg : ∀ env : Environment, env.Searches (g env).2) : Keeps R (onEnvironment g) :=
  fun m => Machine.AdmitsReads.searches m (hg m.env)

theorem keeps_alloc {o : Obj} (ho : o.Fresh) : Keeps R (alloc o) :=
  fun m => Machine.AdmitsReads.search m _ (.alloc ho)

theorem keeps_report (level : Level) (text : Unit → String) : Keeps R (report level text) :=
  fun m => Machine.AdmitsReads.search m _ (.report level text)

theorem keeps_findMember (c : Handle) (hash : UInt32) :
    Keeps R (onEnvironment (·.findMember c hash)) :=
  keeps_searches fun env => env.searches_findMember c hash

theorem keeps_resolveParent (c : Handle) : Keeps R (onEnvironment (·.resolveParent c)) :=
  keeps_searches fun env => env.searches_resolveParent c

/-! ### Names, properties and elements -/

theorem keeps_getGlobal (hash : UInt32) : Keeps R (getGlobal hash) := by
  refine keeps_environment.bind fun env => ?_
  dsimp only
  split
  · exact keeps_pure _
  · exact keeps_fault _

theorem keeps_bindMethod (receiver method : Value) : Keeps R (bindMethod receiver method) := by
  refine keeps_environment.bind fun env => ?_
  dsimp only
  split
  · exact (keeps_alloc ((Obj.plain_boundMethod _ _).fresh nofun rfl)).bind fun h => keeps_pure _
  · exact keeps_cells.bind fun cells => keeps_pure _

theorem keeps_getProperty (object : Value) (hash : UInt32) : Keeps R (getProperty object hash) := by
  refine keeps_environment.bind fun env => ?_
  split
  · split
    · exact keeps_pure _
    · refine (keeps_findMember _ hash).bind fun found => ?_
      split
      · exact keeps_bindMethod object _
      · exact keeps_fault _
  · refine (keeps_findMember _ hash).bind fun found => ?_
    split
    · exact keeps_pure _
    · exact keeps_fault _
  · exact keeps_fault _

theorem keeps_hasMember (c : Handle) (hash : UInt32) :
    Keeps R (onEnvironment (·.hasMember c hash)) :=
  keeps_searches fun env => env.searches_findMember c hash

theorem keeps_hasProperty (object : Value) (hash : UInt32) : Keeps R (hasProperty object hash) := by
  unfold hasProperty
  cases object with
  | object h =>
    refine keeps_environment.bind fun env => ?_
    split
    · split
      · exact keeps_pure true
      · exact keeps_hasMember _ hash
    · exact keeps_hasMember h hash
    · exact keeps_pure false
  | _ => exact keeps_pure false

theorem keeps_getElement (object position : Value) : Keeps R (getElement object position) := by
  refine keeps_memory.bind fun mem => ?_
  split
  · exact (keeps_ofExcept _).bind fun index => keeps_pure _
  · exact (keeps_ofExcept _).bind fun key => keeps_pure _
  · exact keeps_fault _
  · exact keeps_fault _

/-! ### Instructions -/

theorem keeps_constantAt (index : Nat) : Keeps R (constantAt index) :=
  keeps_frame.bind fun _ => keeps_environment.bind fun _ => keeps_ofOption _ _

theorem keeps_localIndex (slot : UInt8) : Keeps R (localIndex slot) := by
  refine keeps_frame.bind fun f => (keeps_size _).bind fun index => keeps_get.bind fun m => ?_
  split
  · exact keeps_pure index
  · exact keeps_fault _

theorem keeps_currentModule : Keeps R currentModule :=
  keeps_frame.bind fun _ => keeps_environment.bind fun _ => keeps_ofOption _ _

theorem keeps_getLocal (slot : UInt8) : Keeps R (getLocal slot) :=
  (keeps_localIndex slot).bind fun index => (keeps_valueAt index).bind keeps_push

theorem keeps_setLocal (slot : UInt8) : Keeps R (setLocal slot) :=
  (keeps_localIndex slot).bind fun index => (keeps_peek 0).bind fun v => keeps_setValueAt index v

theorem keeps_getModuleLocal (slot : UInt16) : Keeps R (getModuleLocal slot) :=
  keeps_currentModule.bind fun _ => (keeps_ofOption _ _).bind keeps_push

theorem keeps_newArray (count : Nat) : Keeps R (newArray count) := by
  refine (keeps_heightBelow count).bind fun start => keeps_cells.bind fun cells => ?_
  refine (keeps_valuesFrom start).bind fun values => (keeps_truncate start).bind fun _ => ?_
  have hplain : (Obj.array (values.map (·.delink cells))).Plain := by
    refine Obj.plain_array fun w hw => ?_
    obtain ⟨v, -, rfl⟩ := Array.mem_map.1 hw
    exact v.plain_delink cells
  exact (keeps_alloc (hplain.fresh nofun rfl)).bind fun h => keeps_push _

theorem keeps_newMap (count : Nat) : Keeps R (newMap count) := by
  refine (keeps_size _).bind fun n => (keeps_heightBelow n).bind fun start => ?_
  refine (keeps_valuesFrom start).bind fun values => keeps_memory.bind fun mem => ?_
  cases hfill : fillMap mem values.toList .empty with
  | error c => exact keeps_of_same fun m => after_of_error (bind_of_error rfl)
  | ok map =>
    have hplain := Obj.plain_fillMap Obj.plain_emptyMap hfill
    show Keeps R (do
      truncate start
      push (.object (← alloc (.map map))))
    exact (keeps_truncate start).bind fun _ => (keeps_alloc (hplain.fresh nofun rfl)).bind fun h =>
      keeps_push _

theorem keeps_copyValues (depth left : Nat) : Keeps R (copyValues depth left) := by
  induction left with
  | zero => exact keeps_pure ()
  | succ left ih => exact (keeps_peek depth).bind fun v => (keeps_push v).bind fun _ => ih

theorem keeps_copyTop (count : Nat) : Keeps R (copyTop count) := by
  unfold copyTop
  split
  · exact keeps_pure ()
  · exact (keeps_difference count 1).bind fun depth => keeps_copyValues depth count

theorem keeps_concatenate (a b : Value) : Keeps R (onMemory (·.concatenate a b)) :=
  fun m => Machine.AdmitsReads.search m _ (.alloc ((Obj.plain_string _).fresh nofun rfl))

theorem keeps_add : Keeps R add := by
  refine (keeps_peek 0).bind fun b => (keeps_peek 1).bind fun a => keeps_memory.bind fun mem => ?_
  have hput : ∀ v, Keeps R (do
      let _ ← pop
      setPeek 0 v) := fun v => keeps_pop.bind fun _ => keeps_setPeek 0 v
  dsimp only
  split
  · rw [map_eq_pure_bind, bind_assoc]
    exact (keeps_concatenate a b).bind fun h => (keeps_pure _).bind hput
  · exact (keeps_ofExcept _).bind hput

theorem keeps_binary (op : BinaryOp) : Keeps R (binary op) :=
  keeps_pop.bind fun _ => keeps_pop.bind fun _ => keeps_memory.bind fun _ =>
    (keeps_ofExcept _).bind keeps_push

theorem keeps_unary (op : UnaryOp) : Keeps R (unary op) :=
  keeps_pop.bind fun _ => keeps_memory.bind fun _ => (keeps_ofExcept _).bind keeps_push

theorem keeps_compare (expected : Bool) : Keeps R (compare expected) :=
  keeps_pop.bind fun _ => keeps_pop.bind fun _ => keeps_memory.bind fun _ => keeps_push _

theorem keeps_newClass (hash : UInt32) (kind : UInt8) : Keeps R (newClass hash kind) := by
  refine keeps_environment.bind fun env => ?_
  refine (keeps_alloc ((Obj.plain_string _).fresh nofun rfl)).bind fun text => ?_
  exact (keeps_alloc (Obj.fresh_class rfl ⟨rfl, rfl⟩)).bind fun c => keeps_push _

theorem keeps_getSuperclass : Keeps R getSuperclass := by
  refine keeps_pop.bind fun v => keeps_environment.bind fun env => ?_
  dsimp only
  split
  · refine (keeps_resolveParent _).bind fun parent => ?_
    cases parent with
    | some p => exact keeps_push _
    | none => exact keeps_fault _
  · exact keeps_fault _

end Reading

section Current

variable [Machine.AdmitsCurrent R]

/-- Moving the current call. -/
theorem keeps_modifyFrame {g : Frame → Frame} (hg : ∀ f : Frame, f.Moved (g f)) :
    Keeps R (modify (·.mapFrame g) : Exec PUnit) :=
  fun m => Machine.AdmitsCurrent.current m g fun f _ => hg f

theorem keeps_moveTo (target : Int) : Keeps R (moveTo target) := by
  intro m
  unfold moveTo
  cases hf : m.thread.frames.back? with
  | none =>
    rw [after_of_error (bind_of_error (frame_of_none hf))]
    exact Machine.AdmitsReads.refl m
  | some f =>
    rw [after_bind_of_ok (frame_of_back? hf)]
    -- what is put in place of the current call is that call, moved
    unfold Frame.moveTo
    split
    · refine Machine.AdmitsCurrent.current m _ fun f' hf' => ?_
      cases hf.symm.trans hf'
      exact ⟨rfl, rfl, rfl, rfl⟩
    · exact Machine.AdmitsReads.refl m

theorem keeps_jump (distance : Int) : Keeps R (jump distance) :=
  keeps_frame.bind fun _ => (keeps_offset _).bind keeps_moveTo

theorem keeps_switchTable (count : UInt16) : Keeps R (switchTable count) := by
  refine keeps_pop.bind fun v => keeps_frame.bind fun f => ?_
  refine keeps_memory.bind fun mem => (keeps_size _).bind fun stop => ?_
  refine (keeps_ofExcept _).bind fun p => (keeps_moveTo _).bind fun _ => ?_
  split
  · exact (keeps_size _).bind fun target => (keeps_offset _).bind keeps_jump
  · exact keeps_pure ()

end Current
end Exec

/-- An instruction that does nothing that lasts. -/
def Instruction.Reads : Instruction → Prop
  | .setGlobal _ | .defineGlobal _ | .defineConstant _ | .defineModuleLocal | .setModuleLocal _
  | .setProperty _ | .setElement | .saveValue | .inherit _ | .method _ _ | .ret | .call _
  | .invoke _ _ _ | .newInstance _ | .importClass _ => False
  | _ => True

/-- An instruction that also leaves the current call where it is. -/
def Instruction.Stays : Instruction → Prop
  | .jump _ | .jumpIfFalse _ | .switchTable _ | .failsafe _ => False
  | _ => True

namespace Exec

variable {R : Machine → Machine → Prop} {i : Instruction}

/-- Instructions that only read and stay keep what allows reading. -/
theorem keeps_perform_staying [Machine.AdmitsReads R] (hreads : i.Reads) (hstays : i.Stays)
    (executor : Exec Unit) : Keeps R (perform executor i) := by
  cases i with
  | getGlobal hash => exact (keeps_getGlobal hash).bind keeps_push
  | getLocal slot => exact keeps_getLocal slot
  | setLocal slot => exact keeps_setLocal slot
  | getModuleLocal slot => exact keeps_getModuleLocal slot
  | getProperty hash =>
    exact (keeps_peek 0).bind fun object => (keeps_getProperty object hash).bind (keeps_setPeek 0)
  | hasProperty hash =>
    exact keeps_pop.bind fun object => (keeps_hasProperty object hash).bind fun b => keeps_push _
  | getElement =>
    refine keeps_pop.bind fun position => keeps_pop.bind fun object => ?_
    exact (keeps_getElement object position).bind keeps_push
  | newArray count => exact keeps_newArray count.toNat
  | newMap count => exact keeps_newMap count.toNat
  | push v => exact keeps_push v
  | constant index => exact (keeps_constantAt index.toNat).bind keeps_push
  | pop => exact keeps_popMany 1
  | popN count => exact keeps_popMany count.toNat
  | copy count => exact keeps_copyTop count.toNat
  | loadValue => exact keeps_get.bind fun m => keeps_push _
  | print =>
    refine (keeps_peek 0).bind fun v => keeps_memory.bind fun mem => ?_
    exact (keeps_report _ _).bind fun _ => keeps_popMany 1
  | printStack => exact keeps_get.bind fun m => keeps_report _ _
  | add => exact keeps_add
  | binary op => exact keeps_binary op
  | unary op => exact keeps_unary op
  | equal expected => exact keeps_compare expected
  | typeOf =>
    refine keeps_pop.bind fun v => keeps_memory.bind fun mem => ?_
    exact (keeps_alloc ((Obj.plain_string _).fresh nofun rfl)).bind fun h => keeps_push _
  | newClass hash kind => exact keeps_newClass hash kind
  | getSuperclass => exact keeps_getSuperclass
  | invalid op => exact keeps_fault _
  | unsupported op => exact keeps_fault _
  | jump | jumpIfFalse | switchTable | failsafe => exact hstays.elim
  | setGlobal | defineGlobal | defineConstant | defineModuleLocal | setModuleLocal | setProperty
  | setElement | saveValue | inherit | method | ret | call | invoke | newInstance | importClass =>
    exact hreads.elim

/-- Instructions that only read keep what also allows the current call to move. -/
theorem keeps_perform_reading [Machine.AdmitsCurrent R] (hreads : i.Reads) (executor : Exec Unit) :
    Keeps R (perform executor i) := by
  cases i with
  | jump distance => exact keeps_jump distance
  | jumpIfFalse distance =>
    refine (keeps_peek 0).bind fun v => keeps_cells.bind fun cells => ?_
    split
    · exact keeps_jump distance
    · exact keeps_pure ()
  | switchTable count => exact keeps_switchTable count
  | failsafe offset =>
    exact keeps_frame.bind fun _ => keeps_modifyFrame fun _ => ⟨rfl, rfl, rfl, rfl⟩
  | _ => exact keeps_perform_staying hreads trivial executor

end Exec
end ScriptVm
