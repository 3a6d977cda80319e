import ScriptVm.Proofs.Machine.Events
import ScriptVm.Proofs.Machine.Properties

/-!
# Methods as values

A script may read a method from an instance and call the bound method later, or call the method by
its name at once.

* `readThenCall` and `callByName` are the two ways; both start with the instance on top
  of the stack.
* `pushAll_of_room` and `pushAll_of_full` say what becomes of the arguments.
* `readThenCall_of_room` and `callByName_of_room` reduce both ways to the same call, on the
  same thread.
* `method_values` is the result. The ways differ when the arguments do not fit on the stack: only
  the first one has looked for the method by then.
-/

namespace ScriptVm

/-- The same outcome in another environment. -/
def Exec.mapOutcome (f : Environment → Environment) :
    EStateM.Result (Halt Fault) Machine Unit → EStateM.Result (Halt Fault) Machine Unit
  | .ok u m => .ok u { m with env := f m.env }
  | .error e m => .error e { m with env := f m.env }

namespace Machine

open Exec

variable {m m' : Machine} {h g f : Handle} {hash : UInt32} {receiver v w : Value}
  {values args : List Value} {i : InstanceObject}

/-- Reads a property of the value on top, puts arguments above it and calls it. -/
def readThenCall (executor : Exec Unit) (hash : UInt32) (args : List Value) : Exec Unit := do
  perform executor (.getProperty hash)
  pushAll args
  perform executor (.call args.length.toUInt8)

/-- Puts arguments above the value on top and calls its property. -/
def callByName (executor : Exec Unit) (hash : UInt32) (args : List Value) : Exec Unit := do
  pushAll args
  perform executor (.invoke args.length.toUInt8 hash false)

/-! ### Arguments -/

theorem pushAll_of_room (hroom : m.thread.stack.size + values.length ≤ Thread.maxStack) :
    pushAll values m = .ok () (m.mapStack (· ++ values.toArray)) := by
  induction values generalizing m with
  | nil => simp [pushAll, mapStack, pure, EStateM.pure]
  | cons v rest ih =>
    rw [List.length_cons] at hroom
    have hpush : push v m = .ok () (m.mapStack (·.push v)) := by
      unfold push
      exact if_pos (by omega)
    have hrest : (m.mapStack (·.push v)).thread.stack.size + rest.length ≤ Thread.maxStack := by
      simp only [mapStack, Array.size_push]
      omega
    unfold pushAll
    rw [bind_of_ok hpush, ih hrest]
    simp [mapStack]

/-- Arguments that do not fit fill the stack, and the next one is refused. -/
theorem pushAll_of_full (values : List Value) (hsize : m.thread.stack.size ≤ Thread.maxStack)
    (hfull : Thread.maxStack < m.thread.stack.size + values.length) :
    ∃ stack, pushAll values m =
      .error (.error (.ofCause (.stackOverflow Thread.maxStack))) (m.mapStack fun _ => stack) := by
  induction values generalizing m with
  | nil =>
    rw [List.length_nil] at hfull
    omega
  | cons v rest ih =>
    rw [List.length_cons] at hfull
    unfold pushAll
    by_cases hlt : m.thread.stack.size < Thread.maxStack
    · have hpush : push v m = .ok () (m.mapStack (·.push v)) := by
        unfold push
        exact if_pos hlt
      have hsize' : (m.mapStack (·.push v)).thread.stack.size = m.thread.stack.size + 1 :=
        Array.size_push v
      obtain ⟨stack, hrest⟩ := ih (m := m.mapStack (·.push v)) (by omega) (by omega)
      exact ⟨stack, (bind_of_ok hpush).trans hrest⟩
    · have hpush : push v m =
          .error (.error (.ofCause (.stackOverflow Thread.maxStack))) m := by
        unfold push
        rw [if_neg hlt, Nat.le_antisymm hsize (by omega)]
      exact ⟨m.thread.stack, bind_of_error hpush⟩

theorem toNat_toUInt8_length (hargs : args.length ≤ 255) :
    args.length.toUInt8.toNat = args.length := by
  rw [Nat.toUInt8_eq, UInt8.toNat_ofNat']
  exact Nat.mod_eq_of_lt (Nat.lt_succ_of_le hargs)

/-! ### The same call -/

/-- The value on top of a stack, and what is below. -/
theorem stack_of_fromTop? (hv : m.fromTop? 0 = some v) :
    ∃ below : List Value, m.thread.stack = (below ++ [v]).toArray := by
  have htop : m.thread.stack.toList.reverse[0]? = some v := hv
  cases hrev : m.thread.stack.toList.reverse with
  | nil =>
    rw [hrev] at htop
    cases htop
  | cons v' rest =>
    rw [hrev] at htop
    cases htop
    refine ⟨rest.reverse, ?_⟩
    rw [← List.reverse_cons, ← hrev, List.reverse_reverse, Array.toArray_toList]

/-- Slots that are put in place of a value and the arguments above it. -/
theorem carryOut_script {below : List Value}
    (hstack : m.thread.stack = (below ++ v :: args).toArray)
    (f : Handle) (slots : List Value) : (Delivery.script f slots).carryOut args.length m =
      call f args.length (m.mapStack fun _ => (below ++ slots).toArray) := by
  have hplaced : m.thread.stack.shrink (m.thread.stack.size - (args.length + 1)) ++ slots.toArray =
      (below ++ slots).toArray := by
    rw [hstack]
    simp
  refine (bind_of_ok (place_slots slots (args.length + 1) m)).trans ?_
  exact congrArg (fun s => call f args.length (m.mapStack fun _ => s)) hplaced

/-- A call when a value and the arguments are on the stack. -/
theorem call_eq {argc : Nat} (hargs : argc < m.thread.stack.size)
    (hsize : argc + 1 < Heap.sizeRange) (f : Handle) :
    call f argc m =
      match m.env.heap.function? f with
      | none => fault .notCallable m
      | some function =>
        if function.arity.toInt ≠ argc then fault (.wrongArity function.arity.toInt argc) m
        else if Thread.maxFrames ≤ m.thread.frames.size then
          fault (.frameOverflow m.thread.frames.size Thread.maxFrames) m
        else .ok () (m.mapFrames (·.push
          (.enter f function.code (m.thread.stack.size - (argc + 1)) function.module))) := by
  cases hf : m.env.heap.function? f with
  | none =>
    unfold call
    refine (bind_of_ok rfl).trans ?_
    rw [hf]
    rfl
  | some function =>
    dsimp only
    split_ifs with harity hfull
    · unfold call
      refine (bind_of_ok rfl).trans ?_
      rw [hf]
      refine (bind_of_ok rfl).trans ?_
      rw [if_pos harity]
    · exact call_of_full hf argc (not_not.1 harity) hfull
    · exact call_of_lt hf argc (not_not.1 harity) (by omega) hargs hsize

/-- A call reads nothing of the environment but the function. -/
theorem call_mapOutcome {env : Environment} {F : Environment → Environment} {t : Thread}
    {argc : Nat} (hargs : argc < t.stack.size) (hsize : argc + 1 < Heap.sizeRange)
    (hF : (F env).heap.function? f = env.heap.function? f) :
    call f argc ⟨F env, t⟩ = mapOutcome F (call f argc ⟨env, t⟩) := by
  rw [call_eq (m := ⟨F env, t⟩) hargs hsize f, call_eq (m := ⟨env, t⟩) hargs hsize f]
  dsimp only
  rw [hF]
  cases env.heap.function? f with
  | none => rfl
  | some function =>
    dsimp only
    split_ifs <;> rfl

theorem frame_of_call {env : Environment} {t : Thread} {argc base : Nat}
    (hsize : argc + 1 < Heap.sizeRange) (hstack : t.stack.size = base + (argc + 1))
    (hrun : call f argc ⟨env, t⟩ = .ok () m') :
    m'.env = env ∧ ∃ F, env.heap.function? f = some F ∧
      m'.thread.frames = t.frames.push (.enter f F.code base F.module) := by
  rw [call_eq (m := ⟨env, t⟩) (by show argc < t.stack.size; omega) hsize] at hrun
  cases hf : env.heap.function? f with
  | none =>
    simp only [hf] at hrun
    cases hrun
  | some F =>
    simp only [hf] at hrun
    split_ifs at hrun
    · cases hrun
    · cases hrun
    · cases hrun
      refine ⟨rfl, F, rfl, ?_⟩
      show t.frames.push (.enter f F.code (t.stack.size - (argc + 1)) F.module) = _
      rw [hstack, Nat.add_sub_cancel]

/-! ### The two ways -/

theorem fromTop?_of_stack {below : List Value} (hstack : m.thread.stack = (below ++ [v]).toArray) :
    m.fromTop? 0 = some v := by
  show m.thread.stack.toList.reverse[0]? = some v
  rw [hstack]
  simp

theorem offers_of_stack {below : List Value} (hstack : m.thread.stack = (below ++ values).toArray) :
    m.Offers values :=
  ⟨below, by rw [hstack]⟩

/-- Reading a property that is found, then calling it with arguments that fit. -/
theorem readThenCall_of_room {below : List Value} (slots : List Value) (hash : UInt32)
    (hstack : m.thread.stack = (below ++ [receiver]).toArray)
    (hroom : m.thread.stack.size + args.length ≤ Thread.maxStack) (hargs : args.length ≤ 255)
    (hfound : (m.env.property? receiver hash).1 = some w)
    (hdelivered : let settled := (m.env.property? receiver hash).2.settle receiver hash w
      settled.2.heap.delivered settled.1 settled.1 args args = .script f slots)
    (executor : Exec Unit) :
    readThenCall executor hash args m = call f args.length
      ⟨((m.env.property? receiver hash).2.settle receiver hash w).2,
        { m.thread with stack := (below ++ slots).toArray }⟩ := by
  let settled := (m.env.property? receiver hash).2.settle receiver hash w
  let read : Machine := ({ m with env := settled.2 } : Machine).mapStack fun s =>
    s.setIfInBounds (s.size - 1) settled.1
  let offered := read.mapStack (· ++ args.toArray)
  have hread : perform executor (.getProperty hash) m = .ok () read :=
    perform_getProperty_of_some (fromTop?_of_stack hstack) executor hfound
  have hpushed : pushAll args read = .ok () offered := by
    refine pushAll_of_room ?_
    simpa [read, mapStack] using hroom
  have htop : offered.thread.stack = (below ++ settled.1 :: args).toArray := by
    simp [offered, read, mapStack, hstack]
  have hoffers : offered.Offers (settled.1 :: args) := offers_of_stack htop
  have hpeek : peek args.length offered = .ok settled.1 offered :=
    peek_of_fromTop? (Nat.lt_of_le_of_lt (Nat.succ_le_succ hargs) (by decide)) hoffers.fromTop?
  have hcall : perform executor (.call args.length.toUInt8) offered =
      callValue args.length offered := by
    show callValue args.length.toUInt8.toNat offered = _
    rw [toNat_toUInt8_length hargs]
  unfold readThenCall
  rw [bind_of_ok hread, bind_of_ok hpushed, hcall]
  refine (bind_of_ok hpeek).trans ((callCallee_delivers hoffers hargs settled.1).trans ?_)
  rw [show offered.env.heap.delivered settled.1 settled.1 args args = _ from hdelivered,
    carryOut_script htop]
  rfl

/-- Calling a member by name, with arguments that fit. -/
theorem callByName_of_room {below slots : List Value} {left : Environment}
    (hstack : m.thread.stack = (below ++ [Value.object h]).toArray)
    (hroom : m.thread.stack.size + args.length ≤ Thread.maxStack) (hargs : args.length ≤ 255)
    (hi : m.env.heap.get? h = some (.inst i)) (hfield : i.fields.get? hash = none)
    (hfind : m.env.findMember i.classHandle hash = (some (.object g), left))
    (hdelivered : left.heap.delivered (.object g) (.object h) args (.object h :: args) =
      .script f slots) (executor : Exec Unit) :
    callByName executor hash args m = call f args.length
      ⟨left, { m.thread with stack := (below ++ slots).toArray }⟩ := by
  let offered := m.mapStack (· ++ args.toArray)
  let searched : Machine := { offered with env := left }
  have hpushed : pushAll args m = .ok () offered := pushAll_of_room hroom
  have htop : offered.thread.stack = (below ++ Value.object h :: args).toArray := by
    simp [offered, mapStack, hstack]
  have hoffers : offered.Offers (.object h :: args) := offers_of_stack htop
  have hpeek : peek args.length offered = .ok (.object h) offered :=
    peek_of_fromTop? (Nat.lt_of_le_of_lt (Nat.succ_le_succ hargs) (by decide)) hoffers.fromTop?
  have hinvoke : perform executor (.invoke args.length.toUInt8 hash false) offered =
      invokeOnInstance i hash args.length false offered := by
    show invoke hash args.length.toUInt8.toNat false offered = _
    rw [toNat_toUInt8_length hargs]
    exact invoke_of_inst hpeek hi false
  have hsearch : onEnvironment (·.findMember i.classHandle hash) offered =
      .ok (some (.object g)) searched := by
    rw [onEnvironment_eq, show offered.env.findMember i.classHandle hash = _ from hfind]
  have hdelivers : callForObject (.object g) args.length searched = _ :=
    callForObject_delivers (m := searched) (offers_of_stack htop) hargs (.object g)
  unfold callByName
  rw [bind_of_ok hpushed, hinvoke]
  unfold invokeOnInstance invokeFromClass
  rw [if_neg Bool.false_ne_true, hfield]
  refine (bind_of_ok hsearch).trans ((bind_of_ok rfl).trans (hdelivers.trans ?_))
  rw [show searched.env.heap.delivered (.object g) (.object h) args _ = _ from hdelivered,
    carryOut_script (m := searched) htop]
  rfl

/-- Arguments that do not fit: the property has been read by then, or not been looked for. -/
theorem both_of_full (hash : UInt32) (args : List Value) (hv : m.fromTop? 0 = some receiver)
    (hsize : m.thread.stack.size ≤ Thread.maxStack)
    (hfull : Thread.maxStack < m.thread.stack.size + args.length)
    (hfound : (m.env.property? receiver hash).1 = some w) (executor : Exec Unit) :
    let e : Halt Fault := .error (.ofCause (.stackOverflow Thread.maxStack))
    (∃ m₁, readThenCall executor hash args m = .error e m₁ ∧
      m₁.env = ((m.env.property? receiver hash).2.settle receiver hash w).2) ∧
    ∃ m₂, callByName executor hash args m = .error e m₂ ∧ m₂.env = m.env := by
  intro e
  let settled := (m.env.property? receiver hash).2.settle receiver hash w
  let read : Machine := ({ m with env := settled.2 } : Machine).mapStack fun s =>
    s.setIfInBounds (s.size - 1) settled.1
  have hread : perform executor (.getProperty hash) m = .ok () read :=
    perform_getProperty_of_some hv executor hfound
  have hsame : read.thread.stack.size = m.thread.stack.size := Array.size_setIfInBounds
  obtain ⟨stack₁, hrefused₁⟩ := pushAll_of_full (m := read) args (by omega) (by omega)
  obtain ⟨stack₂, hrefused₂⟩ := pushAll_of_full args hsize hfull
  exact ⟨⟨_, (bind_of_ok hread).trans (bind_of_error hrefused₁), rfl⟩,
    _, bind_of_error hrefused₂, rfl⟩

/-- A function or a bound method stays as it is when a member is looked for. -/
theorem get?_findMember {env : Environment} {o : Obj} (hg : env.heap.get? g = some o)
    (ho : ∀ k, o ≠ .scriptClass k) (c : Handle) (hash : UInt32) :
    (env.findMember c hash).2.heap.get? g = some o := by
  obtain ⟨n, -, hleft⟩ := env.findMember_resolves c hash
  rw [hleft]
  rcases env.get?_searched c n g with hsame | ⟨k, k', hk, -⟩
  · rw [hsame, hg]
  · cases hg.symm.trans hk
    exact absurd rfl (ho k)

/-- A member of the class of an instance is its property. -/
theorem property?_of_inst {env : Environment} (hi : env.heap.get? h = some (.inst i))
    (hfield : i.fields.get? hash = none) :
    env.property? (.object h) hash = env.findMember i.classHandle hash := by
  unfold Environment.property? Environment.origin?
  simp only [Value.object?, Option.bind_some, hi, hfield]

/-- Both ways make the same call, the first one in an environment that `F` makes of the other's. -/
theorem both_of_room (slots : List Value) {left : Environment} {F : Environment → Environment}
    (hv : m.fromTop? 0 = some (.object h))
    (hroom : m.thread.stack.size + args.length ≤ Thread.maxStack) (hargs : args.length ≤ 255)
    (hi : m.env.heap.get? h = some (.inst i)) (hfield : i.fields.get? hash = none)
    (hfind : m.env.findMember i.classHandle hash = (some (.object g), left))
    (hsettled : left.settle (.object h) hash (.object g) = (w, F left))
    (hslots : slots.length = args.length + 1)
    (hread : (F left).heap.delivered w w args args = .script f slots)
    (hname : left.heap.delivered (.object g) (.object h) args (.object h :: args) = .script f slots)
    (hF : (F left).heap.function? f = left.heap.function? f) (executor : Exec Unit) :
    readThenCall executor hash args m = mapOutcome F (callByName executor hash args m) ∧
      ∀ m', callByName executor hash args m = .ok () m' →
        m'.env = left ∧ ∃ G, left.heap.function? f = some G ∧ m'.thread.frames =
          m.thread.frames.push (.enter f G.code (m.thread.stack.size - 1) G.module) := by
  obtain ⟨below, hstack⟩ := stack_of_fromTop? hv
  have hrange : args.length + 1 < Heap.sizeRange :=
    Nat.lt_of_le_of_lt (Nat.succ_le_succ hargs) (by decide)
  let t : Thread := { m.thread with stack := (below ++ slots).toArray }
  have hheight : t.stack.size = m.thread.stack.size - 1 + (args.length + 1) := by
    simp [t, hstack, hslots]
  have hproperty := property?_of_inst hi hfield
  rw [hfind] at hproperty
  have hcall := callByName_of_room hstack hroom hargs hi hfield hfind hname executor
  have hcall' : readThenCall executor hash args m = call f args.length ⟨F left, t⟩ := by
    have hrun := readThenCall_of_room (w := .object g) (f := f) slots hash hstack
      hroom hargs
    rw [hproperty] at hrun
    dsimp only at hrun
    rw [hsettled] at hrun
    exact hrun rfl hread executor
  constructor
  · rw [hcall', hcall]
    exact call_mapOutcome (by omega) hrange hF
  · intro m' hrun
    rw [hcall] at hrun
    exact frame_of_call (t := t) hrange hheight hrun

/-- **Methods as values.** Reading a method and calling it comes to the same as calling it by name,
but for the bound method that is made; if the arguments do not fit, both fail. -/
theorem method_values {left : Environment} (hv : m.fromTop? 0 = some (.object h))
    (hsize : m.thread.stack.size ≤ Thread.maxStack) (hs : m.env.heap.Slotted)
    (hi : m.env.heap.instance? h = some i) (hfield : i.fields.get? hash = none)
    (hfind : m.env.findMember i.classHandle hash = (some (.object g), left))
    (hmethod : (∃ F, m.env.heap.get? g = some (.function F)) ∨
      ∃ bound f, m.env.heap.get? g = some (.boundMethod bound f))
    (hargs : args.length ≤ 255) (executor : Exec Unit) :
    let read := readThenCall executor hash args m
    let byName := callByName executor hash args m
    let bind : Environment → Environment := fun env =>
      if (m.env.heap.function? g).isSome then (env.alloc (.boundMethod (.object h) g)).2 else env
    (m.thread.stack.size + args.length ≤ Thread.maxStack →
      read = mapOutcome bind byName ∧
      ∀ m', byName = .ok () m' → m'.env = left ∧ ∃ f G, left.heap.function? f = some G ∧
        m'.thread.frames =
          m.thread.frames.push (.enter f G.code (m.thread.stack.size - 1) G.module)) ∧
    (Thread.maxStack < m.thread.stack.size + args.length →
      let e : Halt Fault := .error (.ofCause (.stackOverflow Thread.maxStack))
      (∃ m₁, read = .error e m₁ ∧ m₁.env = bind left) ∧
      ∃ m₂, byName = .error e m₂ ∧ m₂.env = m.env) := by
  intro read byName bind
  have hget : m.env.heap.get? h = some (.inst i) := Heap.instance?_eq_some.1 hi
  have hproperty : m.env.property? (.object h) hash = (some (.object g), left) :=
    (property?_of_inst hget hfield).trans hfind
  have hleft : left.heap.Slotted := by
    have hslots := Environment.slotted_findMember hs i.classHandle hash
    rwa [hfind] at hslots
  have hi' : left.heap.instance? h = some i := by
    have hinst := m.env.instance?_findMember i.classHandle hash h
    rwa [hfind, hi] at hinst
  have hkept {o : Obj} (hg : m.env.heap.get? g = some o) (ho : ∀ k, o ≠ .scriptClass k) :
      left.heap.get? g = some o := by
    have hfound := get?_findMember hg ho i.classHandle hash
    rwa [hfind] at hfound
  have hovercrowded {w : Value}
      (hsettled : left.settle (.object h) hash (.object g) = (w, bind left)) :
      Thread.maxStack < m.thread.stack.size + args.length →
        let e : Halt Fault := .error (.ofCause (.stackOverflow Thread.maxStack))
        (∃ m₁, read = .error e m₁ ∧ m₁.env = bind left) ∧
        ∃ m₂, byName = .error e m₂ ∧ m₂.env = m.env := by
    intro hfull
    have hboth := both_of_full (w := .object g) hash args hv hsize hfull
    rw [hproperty] at hboth
    dsimp only at hboth
    rw [hsettled] at hboth
    exact hboth rfl executor
  rcases hmethod with ⟨G, hg⟩ | ⟨bound, f, hg⟩
  · have hfunction : left.heap.function? g = some G :=
      Heap.function?_eq_some.2 (hkept hg nofun)
    have hbind : bind = fun env => (env.alloc (.boundMethod (.object h) g)).2 := by
      simp [bind, Heap.function?_eq_some.2 hg]
    have hsettled : left.settle (.object h) hash (.object g) =
        (.object (left.alloc (.boundMethod (.object h) g)).1, bind left) := by
      rw [hbind]
      exact Environment.settle_of_function hi' hfield (by rw [hfunction]; rfl)
    have hnew : (bind left).heap.get? (left.alloc (.boundMethod (.object h) g)).1 =
        some (.boundMethod (.object h) g) := by
      rw [hbind]
      exact Heap.get?_alloc_self hleft _
    have hsame : (bind left).heap.function? g = some G := by
      rw [hbind]
      exact Heap.function?_eq_some.2 (Heap.get?_alloc_of_get? hleft _ (hkept hg nofun))
    refine ⟨fun hroom => ?_, hovercrowded hsettled⟩
    obtain ⟨hread, hframe⟩ := both_of_room (f := g) (.object h :: args) hv hroom hargs hget
      hfield hfind hsettled rfl (by simp [Heap.delivered, hnew])
      (by simp [Heap.delivered, hkept hg nofun]) (by rw [hsame, hfunction]) executor
    exact ⟨hread, fun m' hrun => (hframe m' hrun).imp_right fun hframe => ⟨g, hframe⟩⟩
  · have hnone : left.heap.function? g = none := by
      simp [Heap.function?, hkept hg nofun]
    have hbind : bind = id := by
      funext env
      simp [bind, Heap.function?, hg]
    have hsettled : left.settle (.object h) hash (.object g) = (.object g, bind left) := by
      rw [hbind]
      exact Environment.settle_of_other hnone _
    refine ⟨fun hroom => ?_, hovercrowded hsettled⟩
    obtain ⟨hread, hframe⟩ := both_of_room (f := f) (bound :: args) hv hroom hargs hget hfield
      hfind hsettled rfl (by simp [hbind, Heap.delivered, hkept hg nofun])
      (by simp [Heap.delivered, hkept hg nofun]) (by rw [hbind]; rfl) executor
    exact ⟨hread, fun m' hrun => (hframe m' hrun).imp_right fun hframe => ⟨f, hframe⟩⟩

/-- A class with a function of one argument, a class that names it as its parent, and an instance of
that. -/
def apprentices : Environment :=
  let parent := ClassObject.ofHash 7
  let heap := (Heap.empty.alloc (.function (.ofCode 1 9 #[]))).2
  let heap := (heap.alloc
    (.scriptClass { parent with methods := parent.methods.insert 9 (.object ⟨0, 0⟩) })).2
  let heap := (heap.alloc (.scriptClass { ClassObject.ofHash 8 with parentHash := some 7 })).2
  let heap := (heap.alloc (.inst (.ofClass ⟨2, 0⟩))).2
  let env := Environment.new heap Native.standard none default
  { env with globals := env.globals.insert 7 (.object ⟨1, 0⟩) }

theorem slotted_apprentices : apprentices.heap.Slotted :=
  Heap.slotted_alloc (Heap.slotted_alloc (Heap.slotted_alloc (Heap.slotted_alloc
    (Heap.slotted_withThreshold _ _) _) _) _) _

/-- A thread with the instance on its stack, above some values. -/
def apprenticeAbove (n : Nat) : Machine :=
  ⟨apprentices, { Thread.new 0 with stack := (Array.replicate n .null).push (.object ⟨3, 0⟩) }⟩

/-- With room for the argument, both ways enter the function. -/
theorem method_values_apprentice :
    readThenCall (execute 0) 9 [.null] (apprenticeAbove 0) =
        mapOutcome (fun env => (env.alloc (.boundMethod (.object ⟨3, 0⟩) ⟨0, 0⟩)).2)
          (callByName (execute 0) 9 [.null] (apprenticeAbove 0)) ∧
      ∃ m', callByName (execute 0) 9 [.null] (apprenticeAbove 0) = .ok () m' := by
  have htop : (apprenticeAbove 0).fromTop? 0 = some (.object ⟨3, 0⟩) := rfl
  have hi : (apprenticeAbove 0).env.heap.instance? ⟨3, 0⟩ = some (.ofClass ⟨2, 0⟩) := rfl
  have hfind : (apprenticeAbove 0).env.findMember ⟨2, 0⟩ 9 = (some (.object ⟨0, 0⟩), _) := rfl
  obtain ⟨hroom, -⟩ := method_values htop (by decide) slotted_apprentices hi rfl hfind
    (.inl ⟨_, rfl⟩) (show [Value.null].length ≤ 255 by decide) (execute 0)
  exact ⟨(hroom (by decide)).1, _, rfl⟩

/-- With no room for it both ways fail, but only the first one leaves its parent in the class. -/
theorem method_values_without_room :
    ∃ e m₁ m₂, readThenCall (execute 0) 9 [.null] (apprenticeAbove 16383) = .error e m₁ ∧
      callByName (execute 0) 9 [.null] (apprenticeAbove 16383) = .error e m₂ ∧
      (m₁.env.heap.class? ⟨2, 0⟩).bind (·.parent) = some ⟨1, 0⟩ ∧
      m₁.env ≠ m₂.env ∧ m₁.env ≠ (m₂.env.alloc (.boundMethod (.object ⟨3, 0⟩) ⟨0, 0⟩)).2 := by
  have htop : (apprenticeAbove 16383).fromTop? 0 = some (.object ⟨3, 0⟩) :=
    fromTop?_push (apprenticeAbove 16383) (Array.replicate 16383 .null) (.object ⟨3, 0⟩)
  have hsize : (apprenticeAbove 16383).thread.stack.size = Thread.maxStack := by
    simp [apprenticeAbove, Thread.maxStack]
  obtain ⟨⟨m₁, hread, henv₁⟩, m₂, hname, henv₂⟩ :=
    both_of_full (m := apprenticeAbove 16383) (w := .object ⟨0, 0⟩) 9 [.null] htop
      (by omega) (by simp [hsize]) rfl (execute 0)
  have hremembers : (m₁.env.heap.class? ⟨2, 0⟩).bind (·.parent) = some ⟨1, 0⟩ := by
    rw [henv₁]
    rfl
  refine ⟨_, m₁, m₂, hread, hname, hremembers, fun heq => ?_, fun heq => ?_⟩
  · rw [heq, henv₂] at hremembers
    cases hremembers
  · rw [heq, henv₂] at hremembers
    cases hremembers

end Machine
end ScriptVm
