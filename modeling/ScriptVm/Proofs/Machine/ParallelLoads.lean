import ScriptVm.Machine.Load
import ScriptVm.Proofs.Machine.ParallelCalls
import ScriptVm.Proofs.Machine.WholeRuns

/-!
# Runs and loading in parallel

* The trace of the calls and the reports about them have the same text on both sides, since
  functions are shown by name. So a protected run fails with the same fault, and logs the same.
* `Environment.Mirrors.loadModule` places the objects of a container one after the other
  on both sides.
* `parallel_runFile`, `parallel_loadScript` and `parallel_loadClass` are about actions that run
  scripts; the executor must be parallel to itself.
-/

namespace ScriptVm

variable {p q : Pairing}

/-! ### Reports -/

section Reports

variable {env env' : Environment} {h h' : Handle} {f f' : Frame} {m m' : Machine}

theorem Environment.Mirrors.lineOf?_eq (hm : env.Mirrors p env') (hp : p.pairs h h')
    (offset : Nat) : Machine.lineOf? env h offset = Machine.lineOf? env' h' offset := by
  refine bind_eq_of_rel (hm.heap.function? hp) fun k k' hk => ?_
  unfold FunctionObject.line?
  rw [hk.lines]

theorem Environment.Mirrors.traceEntry_eq (hm : env.Mirrors p env') {caller caller' : Option Frame}
    (hcaller : Option.Rel (Frame.Mirrors p) caller caller') (hf : f.Mirrors p f') :
    Machine.traceEntry env caller f = Machine.traceEntry env' caller' f' := by
  have hline := bind_eq_of_rel hcaller (f := fun c => Machine.lineOf? env c.function c.ipLast)
    (g := fun c => Machine.lineOf? env' c.function c.ipLast) fun c c' hc => by
      rw [hm.lineOf?_eq hc.function, hc.ipLast]
  unfold Machine.traceEntry
  rw [hm.functionName_eq hf.function, hm.sourceFilename_eq hf.function, hline]

theorem Environment.Mirrors.traceFrom_eq (hm : env.Mirrors p env') {caller caller' : Option Frame}
    {frames frames' : List Frame} (hframes : List.Forall₂ (Frame.Mirrors p) frames frames')
    (hcaller : Option.Rel (Frame.Mirrors p) caller caller') :
    Machine.traceFrom env caller frames = Machine.traceFrom env' caller' frames' := by
  induction hframes generalizing caller caller' with
  | nil => rfl
  | cons hf _ ih =>
    unfold Machine.traceFrom
    rw [hm.traceEntry_eq hcaller hf, ih (.some hf)]

theorem Machine.Mirrors.callTrace_eq (hm : m.Mirrors p m') : m.callTrace = m'.callTrace :=
  hm.env.traceFrom_eq hm.thread.frames .none

theorem Environment.Mirrors.location_eq (hm : env.Mirrors p env') (hf : f.Mirrors p f')
    (message : String) : Machine.location env f message = Machine.location env' f' message := by
  unfold Machine.location
  rw [hf.ipLast, hm.lineOf?_eq hf.function, hm.functionName_eq hf.function,
    hm.sourceFilename_eq hf.function]

theorem Machine.Mirrors.errorReport_eq (hm : m.Mirrors p m') (message : String) :
    m.errorReport message = m'.errorReport message := by
  have hback := rel_back? hm.thread.frames
  unfold Machine.errorReport
  rw [hm.callTrace_eq, hm.thread.id]
  generalize m.thread.frames.back? = f, m'.thread.frames.back? = f' at hback
  cases hback with
  | none => rfl
  | some hf =>
    dsimp only
    rw [hm.env.location_eq hf]

/-- The same fault gets the same trace and the same report. -/
theorem Machine.Mirrors.attachTrace (hm : m.Mirrors p m') (e : Fault) :
    (m.attachTrace e).1 = (m'.attachTrace e).1 ∧
    (m.attachTrace e).2.Mirrors p (m'.attachTrace e).2 := by
  unfold Machine.attachTrace
  split
  · rw [hm.callTrace_eq]
    exact ⟨rfl, hm.env.report _ (hm.errorReport_eq _), hm.thread⟩
  · exact ⟨rfl, hm⟩

theorem Machine.Mirrors.beginRun (hm : m.Mirrors p m') : m.beginRun.Mirrors p m'.beginRun :=
  ⟨hm.env, { hm.thread with returnFrame := hm.thread.frames_size, state := rfl }⟩

theorem Machine.Mirrors.endRun (hm : m.Mirrors p m') (height calls returnFrame : Nat)
    (outcome : ThreadState) :
    (m.endRun height calls returnFrame outcome).Mirrors p
      (m'.endRun height calls returnFrame outcome) := by
  refine ⟨hm.env, { hm.thread with stack := ?_, frames := ?_, returnFrame := rfl, state := rfl }⟩
  · show List.Forall₂ _ (m.thread.stack.shrink height).toList (m'.thread.stack.shrink height).toList
    rw [Array.toList_shrink, Array.toList_shrink]
    exact List.forall₂_take _ hm.thread.stack
  · show List.Forall₂ _ (m.thread.frames.shrink calls).toList (m'.thread.frames.shrink calls).toList
    rw [Array.toList_shrink, Array.toList_shrink]
    exact List.forall₂_take _ hm.thread.frames

end Reports

/-! ### Modules -/

namespace Environment.Mirrors

variable {env env' : Environment} {h h' c c' : Handle} {v v' : Value}

theorem addToken (hm : env.Mirrors p env') (name : String) :
    (env.addToken name).2.Mirrors p (env'.addToken name).2 :=
  { hm with tokens := congrArg (Table.insertNew · _ _) hm.tokens }

theorem loadConstant (hm : env.Mirrors p env') (k : Constant) :
    p.Follows (fun q => Value.Mirrors q) (env.loadConstant k) (env'.loadConstant k) := by
  cases k with
  | integer n => exact ⟨p, le_rfl, hm, .integer n⟩
  | decimal d => exact ⟨p, le_rfl, hm, .decimal d⟩
  | string s =>
    obtain ⟨q, hq, henv, hp⟩ := hm.newString s
    exact ⟨q, hq, henv, .object hp⟩

theorem loadConstants (hm : env.Mirrors p env') (ks : List Constant) {vs vs' : Array Value}
    (hvs : List.Forall₂ (Value.Mirrors p) vs.toList vs'.toList) :
    p.Follows (fun q vs vs' => List.Forall₂ (Value.Mirrors q) vs.toList vs'.toList)
      (Environment.loadConstants ks vs env) (Environment.loadConstants ks vs' env') := by
  induction ks generalizing p env env' vs vs' with
  | nil => exact ⟨p, le_rfl, hm, hvs⟩
  | cons k rest ih =>
    obtain ⟨q, hq, henv, hv⟩ := hm.loadConstant k
    obtain ⟨r, hr, hrest⟩ := ih henv (forall₂_push (mirrors_mono hvs hq) hv)
    exact ⟨r, hq.trans hr, hrest⟩

theorem loadFunction (hm : env.Mirrors p env') {source source' module module' : Handle}
    (hsource : p.pairs source source') (hmodule : p.pairs module module') (index : Nat)
    (f : Prototype) :
    p.Follows (fun q h h' => q.pairs h h') (env.loadFunction source module index f)
      (env'.loadFunction source' module' index f) := by
  have hnone : List.Forall₂ (Value.Mirrors p) (#[] : Array Value).toList
    (#[] : Array Value).toList := .nil
  obtain ⟨q₁, h₁, henv₁, hconstants⟩ := hm.loadConstants f.chunk.constants.toList hnone
  unfold Environment.loadFunction
  generalize Environment.loadConstants f.chunk.constants.toList #[] env = r at henv₁ hconstants ⊢
  generalize Environment.loadConstants f.chunk.constants.toList #[] env' = r' at henv₁ hconstants ⊢
  obtain ⟨constants, env₁⟩ := r
  obtain ⟨constants', env₁'⟩ := r'
  dsimp only at henv₁ hconstants ⊢
  rw [henv₁.tokens]
  obtain ⟨q₂, h₂, henv₂, hname⟩ :=
    henv₁.newString (Container.functionTitle env₁.tokens index f.nameHash)
  generalize env₁.newString (Container.functionTitle env₁.tokens index f.nameHash) = r
    at henv₂ hname ⊢
  generalize env₁'.newString (Container.functionTitle env₁.tokens index f.nameHash) = r'
    at henv₂ hname ⊢
  have hle := h₁.trans h₂
  have hfunction : Obj.Mirrors q₂
      (.function { FunctionObject.ofCode f.arity f.nameHash f.chunk.code with
        name := some r.1, sourceFilename := some source, module := some module
        lines := f.chunk.lines, constants })
      (.function { FunctionObject.ofCode f.arity f.nameHash f.chunk.code with
        name := some r'.1, sourceFilename := some source', module := some module'
        lines := f.chunk.lines, constants := constants' }) :=
    .function
      { arity := rfl, minArity := rfl, nameHash := rfl, code := rfl, lines := rfl
        name := .some hname
        className := .none
        sourceFilename := .some (hle.1 _ _ hsource)
        module := .some (hle.1 _ _ hmodule)
        constants := mirrors_mono hconstants h₂ }
  obtain ⟨q₃, h₃, hplaced⟩ := henv₂.alloc hfunction
  exact ⟨q₃, hle.trans h₃, hplaced⟩

theorem loadFunctions (hm : env.Mirrors p env') {source source' module module' : Handle}
    (hsource : p.pairs source source') (hmodule : p.pairs module module') (index : Nat)
    (fs : List Prototype) {hs hs' : Array Handle}
    (hhs : List.Forall₂ p.pairs hs.toList hs'.toList) :
    p.Follows (fun q hs hs' => List.Forall₂ q.pairs hs.toList hs'.toList)
      (Environment.loadFunctions source module index fs hs env)
      (Environment.loadFunctions source' module' index fs hs' env') := by
  induction fs generalizing p env env' index hs hs' with
  | nil => exact ⟨p, le_rfl, hm, hhs⟩
  | cons f rest ih =>
    obtain ⟨q, hq, henv, hp⟩ := hm.loadFunction hsource hmodule index f
    obtain ⟨r, hr, hrest⟩ := ih henv (hq.1 _ _ hsource) (hq.1 _ _ hmodule) (index + 1)
      (forall₂_push (hhs.imp hq.1) hp)
    exact ⟨r, hq.trans hr, hrest⟩

theorem addTokens (hm : env.Mirrors p env') (names : List String) :
    (names.foldl (fun env name => (env.addToken name).2) env).Mirrors p
      (names.foldl (fun env name => (env.addToken name).2) env') := by
  induction names generalizing env env' with
  | nil => exact hm
  | cons name rest ih => exact ih (hm.addToken name)

theorem loadModule (hm : env.Mirrors p env') (k : Container) (file : UInt32) :
    p.Follows (fun q h h' => q.pairs h h') (env.loadModule k file) (env'.loadModule k file) := by
  unfold Environment.loadModule
  have henv₁ := hm.addTokens k.tokens
  generalize k.tokens.foldl _ env = env₁ at henv₁ ⊢
  generalize k.tokens.foldl _ env' = env₁' at henv₁ ⊢
  obtain ⟨q₁, h₁, henv₂, hsource⟩ := henv₁.newString (k.sourceFilename.getD (Text.hexWord file))
  dsimp only
  generalize env₁.newString (k.sourceFilename.getD (Text.hexWord file)) = r₁ at henv₂ hsource ⊢
  generalize env₁'.newString (k.sourceFilename.getD (Text.hexWord file)) = r₁' at henv₂ hsource ⊢
  have hempty : Obj.Mirrors q₁ (.module ⟨#[], #[], some r₁.1⟩) (.module ⟨#[], #[], some r₁'.1⟩) :=
    .module ⟨.nil, .nil, .some hsource⟩
  obtain ⟨q₂, h₂, henv₃, hmodule⟩ := henv₂.alloc hempty
  generalize r₁.2.alloc (.module ⟨#[], #[], some r₁.1⟩) = r₂ at henv₃ hmodule ⊢
  generalize r₁'.2.alloc (.module ⟨#[], #[], some r₁'.1⟩) = r₂' at henv₃ hmodule ⊢
  have hnone : List.Forall₂ q₂.pairs (#[] : Array Handle).toList (#[] : Array Handle).toList := .nil
  obtain ⟨q₃, h₃, henv₄, hfunctions⟩ :=
    henv₃.loadFunctions (h₂.1 _ _ hsource) hmodule 0 k.functions hnone
  generalize Environment.loadFunctions r₁.1 r₂.1 0 k.functions #[] r₂.2 = r₃ at henv₄ hfunctions ⊢
  generalize Environment.loadFunctions r₁'.1 r₂'.1 0 k.functions #[] r₂'.2 = r₃'
    at henv₄ hfunctions ⊢
  have hplaced := h₃.1 _ _ hmodule
  have henv₅ := henv₄.modifyModule hplaced (f := fun m => { m with functions := r₃.1 })
    (g := fun m => { m with functions := r₃'.1 }) fun _ _ hk => { hk with functions := hfunctions }
  generalize r₃.2.mapHeap _ = env₅, r₃'.2.mapHeap _ = env₅' at henv₅
  have hlisted : Environment.Mirrors q₃
      { env₅ with functions := env₅.functions ++ r₃.1, modules := env₅.modules.push r₂.1 }
      { env₅' with
        functions := env₅'.functions ++ r₃'.1, modules := env₅'.modules.push r₂'.1 } := by
    refine { henv₅ with modules := forall₂_push henv₅.modules hplaced, functions := ?_ }
    rw [Array.toList_append, Array.toList_append]
    exact List.rel_append henv₅.functions hfunctions
  exact ⟨q₃, h₁.trans (h₂.trans h₃), hlisted.report _ rfl, hplaced⟩

theorem entryFunction? (hm : env.Mirrors p env') (hp : p.pairs h h') :
    Option.Rel p.pairs (env.entryFunction? h) (env'.entryFunction? h') := by
  refine rel_bind (hm.heap.module? hp) fun m m' hmodule => ?_
  rw [← Array.getElem?_toList, ← Array.getElem?_toList]
  exact forall₂_getElem? hmodule.functions 0

/-! ### Binding -/

theorem insertMethod (hm : env.Mirrors p env') (hp : p.pairs c c') (hash : UInt32)
    (hv : v.Mirrors p v') : (env.insertMethod c hash v).Mirrors p (env'.insertMethod c' hash v') :=
  hm.modifyClass hp fun _ _ hk => { hk with methods := hk.methods.insert hash hv }

theorem bind (hm : env.Mirrors p env') (hp : p.pairs c c') (name : String) (hv : v.Mirrors p v')
    (constant : Bool) :
    (env.bind (some c) name v constant).Mirrors p (env'.bind (some c') name v' constant) :=
  (hm.addToken name).insertMethod hp _ hv

theorem defineNative (hm : env.Mirrors p env') (hp : p.pairs c c') (name : String) {native : String}
    (hnative : p.callable native) :
    ∃ q, p ≤ q ∧ (env.defineNative c name native).Mirrors q (env'.defineNative c' name native) := by
  have htoken := hm.addToken name
  have hclass := htoken.heap.class? hp
  have hhash : (env'.addToken name).1 = (env.addToken name).1 := rfl
  unfold Environment.defineNative
  dsimp only
  rw [hhash]
  generalize (env.addToken name).2 = env₁ at htoken hclass ⊢
  generalize (env'.addToken name).2 = env₁' at htoken hclass ⊢
  generalize env₁.heap.class? c = k, env₁'.heap.class? c' = k' at hclass
  cases hclass with
  | none => exact ⟨p, le_rfl, htoken⟩
  | some hk =>
    dsimp only
    rw [← hk.methods.contains]
    split
    · exact ⟨p, le_rfl, htoken⟩
    · obtain ⟨q, hq, henv, hplaced⟩ := htoken.alloc (.native hnative)
      exact ⟨q, hq, henv.insertMethod (hq.1 _ _ hp) _ (.object hplaced)⟩

theorem bindMember (hm : env.Mirrors p env') (hp : p.pairs c c') (member : ScriptVm.Member)
    (hcallable : ∀ name, member.value = .native name → p.callable name) :
    ∃ q, p ≤ q ∧ (env.bindMember c member).Mirrors q (env'.bindMember c' member) := by
  unfold Environment.bindMember
  cases hvalue : member.value with
  | native name => exact hm.defineNative hp member.name (hcallable name hvalue)
  | link l =>
    refine ⟨p, le_rfl, hm.bind hp member.name (Value.Mirrors.refl_of_plain ?_) false⟩
    cases l <;> rfl
  | integer n => exact ⟨p, le_rfl, hm.bind hp member.name (.integer n) true⟩
  | decimal d => exact ⟨p, le_rfl, hm.bind hp member.name (.decimal d) true⟩

theorem bindAll (hm : env.Mirrors p env') (hp : p.pairs c c') (members : List ScriptVm.Member)
    (hcallable : ∀ member ∈ members, ∀ name, member.value = .native name → p.callable name) :
    ∃ q, p ≤ q ∧ (members.foldl (fun env m => env.bindMember c m) env).Mirrors q
      (members.foldl (fun env m => env.bindMember c' m) env') := by
  induction members generalizing p env env' with
  | nil => exact ⟨p, le_rfl, hm⟩
  | cons member rest ih =>
    obtain ⟨hfirst, hrest⟩ := List.forall_mem_cons.1 hcallable
    obtain ⟨q, hq, henv⟩ := hm.bindMember hp member hfirst
    obtain ⟨r, hr, hall⟩ := ih henv (hq.1 _ _ hp) (Pairing.callable_eq hq ▸ hrest)
    exact ⟨r, hq.trans hr, hall⟩

/-- Other loaders that are the same, whose binders have nothing new. -/
theorem withLoader (hm : env.Mirrors p env') {loader : Option Loader}
    (hb : ∀ l ∈ loader, ∀ b ∈ l.binder, ∀ member ∈ b.members, ∀ name, member.value = .native name →
      p.callable name) :
    Environment.Mirrors p { env with loader := loader } { env' with loader := loader } :=
  { hm with loader := rfl, bindable := hb }

theorem bindMembers (hm : env.Mirrors p env') (b : Binder) (hp : p.pairs c c') (name : String)
    (hcallable : ∀ member ∈ b.members, ∀ name, member.value = .native name → p.callable name) :
    ∃ q, p ≤ q ∧ (Load.bindMembers env b c name).Mirrors q (Load.bindMembers env' b c' name) := by
  unfold Load.bindMembers
  obtain ⟨q, hq, henv⟩ :=
    hm.bindAll hp (b.members.filter (·.className == name)) fun member hmember =>
    hcallable member (List.mem_of_mem_filter hmember)
  dsimp only
  rw [henv.loader]
  refine ⟨q, hq, henv.withLoader fun l hl d hd member hmember native hnative => ?_⟩
  obtain ⟨l₀, -, rfl⟩ := Option.mem_map.1 hl
  cases hd
  exact Pairing.callable_eq hq ▸ hcallable member hmember native hnative

end Environment.Mirrors

/-! ### Actions -/

namespace Pairing

open Exec

variable {α β : Type} {Q : Pairing → α → β → Prop} {v v' : Value}

theorem Parallel.seqRight {ε : Type} {x x' : EStateM ε Machine Unit} {y : EStateM ε Machine α}
    {y' : EStateM ε Machine β} (hx : p.Parallel Same x x') (hy : ∀ q, p ≤ q → q.Parallel Q y y') :
    p.Parallel Q (x *> y) (x' *> y') :=
  hx.bind_same fun q hq _ => hy q hq

theorem parallel_runProtected {body body' : Exec Unit} (hbody : p.Parallel Same body body') :
    p.Parallel (fun q => Value.Mirrors q) (runProtected body) (runProtected body') := by
  intro q hq m m' hm
  have hout := hbody.seqRight (fun _ _ => parallel_pop) q hq _ _ hm.beginRun
  unfold runProtected
  simp only [hm.thread.stack_size, hm.thread.frames_size, hm.thread.returnFrame]
  generalize (body *> pop) m.beginRun = r, (body' *> pop) m'.beginRun = r' at hout
  cases hout with
  | ok hle hm₁ hv => exact .ok hle (hm₁.endRun ..) hv
  | error e hle hm₁ =>
    cases e with
    | error f =>
      obtain ⟨hfault, htraced⟩ := hm₁.attachTrace f
      simp only [hfault]
      exact .error _ hle (htraced.endRun ..)
    | outOfFuel => exact .error _ hle (hm₁.endRun ..)
    | overflow => exact .error _ hle (hm₁.endRun ..)

variable {executor : Exec Unit}

theorem parallel_runValue (hx : p.Parallel Same executor executor) (hv : v.Mirrors p v')
    {args args' : List Value} (hargs : List.Forall₂ (Value.Mirrors p) args args') :
    p.Parallel (fun q => Value.Mirrors q) (runValue executor v args)
      (runValue executor v' args') := by
  refine parallel_runProtected ((parallel_push hv).bind_same fun q₁ h₁ _ => ?_)
  refine (parallel_pushAll (mirrors_mono hargs h₁)).bind_same fun q₂ h₂ _ => ?_
  rw [hargs.length_eq]
  exact (parallel_callValue _).bind_same fun q₃ h₃ _ => hx.mono (h₁.trans (h₂.trans h₃))

theorem parallel_ofExec {x : Exec α} {x' : Exec β} (hx : p.Parallel Q x x') :
    p.Parallel Q (Load.ofExec x) (Load.ofExec x') :=
  hx.adaptExcept _

theorem parallel_toExec {x : Load α} {x' : Load β} (hx : p.Parallel Q x x') :
    p.Parallel Q x.toExec x'.toExec :=
  hx.adaptExcept _

theorem parallel_loadReport (level : Level) (text : Unit → String) :
    p.Parallel Same (Load.report level text) (Load.report level text) :=
  parallel_ofExec (parallel_report level rfl)

theorem parallel_readModule (bytes : List UInt8) (file : UInt32) :
    p.Parallel (fun q h h' => q.pairs h h') (Load.readModule bytes file)
      (Load.readModule bytes file) := by
  intro q hq m m' hm
  unfold Load.readModule Environment.readModule
  cases Container.decode bytes with
  | error e => exact .error _ le_rfl hm
  | ok k =>
    obtain ⟨r, hr, henv, hp⟩ := hm.env.loadModule k file
    exact .ok hr ⟨henv, hm.thread.mono hr⟩ hp

theorem parallel_runFile (hx : p.Parallel Same executor executor) (bytes : List UInt8)
    (file : UInt32) :
    p.Parallel Same (Load.runFile executor bytes file) (Load.runFile executor bytes file) := by
  refine (parallel_readModule bytes file).bind fun q₁ h₁ module module' hmodule => ?_
  refine parallel_get.bind fun q₂ h₂ m m' hm => ?_
  have hentry := hm.env.entryFunction? (h₂.1 _ _ hmodule)
  generalize m.env.entryFunction? module = e, m'.env.entryFunction? module' = e' at hentry
  cases hentry with
  | none => exact parallel_done
  | some hp =>
    refine (parallel_ofExec (parallel_runValue (hx.mono (h₁.trans h₂)) (.object hp) .nil)).bind
      fun _ _ _ _ _ => ?_
    exact parallel_done

theorem parallel_mapLoader {f : Loader → Loader} (hf : ∀ l, (f l).binder = l.binder) :
    p.Parallel Same (Load.mapLoader f) (Load.mapLoader f) := by
  refine parallel_modify fun q hq m m' hm => ⟨?_, hm.thread⟩
  rw [hm.env.loader]
  refine hm.env.withLoader fun l hl b hb => ?_
  obtain ⟨l₀, hl₀, rfl⟩ := Option.mem_map.1 hl
  exact hm.env.bindable l₀ hl₀ b (hf l₀ ▸ hb)

theorem parallel_fetch (file : UInt32) : p.Parallel Same (Load.fetch file) (Load.fetch file) := by
  intro q hq m m' hm
  unfold Load.fetch
  rw [hm.env.loader]
  cases hl : m.env.loader with
  | none => exact .ok le_rfl hm rfl
  | some l =>
    have hasked : Machine.Mirrors q
        { m with env := { m.env with loader := some (l.fetch file).2 } }
        { m' with env := { m'.env with loader := some (l.fetch file).2 } } := by
      refine ⟨hm.env.withLoader fun l₁ hl₁ b hb => ?_, hm.thread⟩
      cases hl₁
      exact hm.env.bindable l hl b (l.binder_fetch file ▸ hb)
    cases hfound : (l.fetch file).1 with
    | ok found => simpa only [hfound] using .ok le_rfl hasked rfl
    | error e => simpa only [hfound] using .error _ le_rfl hasked

theorem parallel_loadScript (hx : p.Parallel Same executor executor) (file : UInt32) :
    p.Parallel Same (Load.loadScript executor file) (Load.loadScript executor file) := by
  refine (parallel_fetch file).bind_same fun q hq fetched => ?_
  cases fetched with
  | cached => exact parallel_pure fun _ _ => rfl
  | absent => exact (parallel_loadReport _ _).bind_same fun _ _ _ => parallel_pure fun _ _ => rfl
  | fresh bytes =>
    exact (parallel_runFile (hx.mono hq) bytes file).bind_same fun _ _ _ =>
      parallel_pure fun _ _ => rfl

theorem parallel_loadFiles (hx : p.Parallel Same executor executor) (name : String) (count : Nat)
    (first : Bool) (files : List UInt32) :
    p.Parallel Same (Load.loadFiles executor name count first files)
      (Load.loadFiles executor name count first files) := by
  induction files generalizing p first with
  | nil => exact parallel_pure fun _ _ => rfl
  | cons file rest ih =>
    refine (parallel_fetch file).bind_same fun q hq fetched => ?_
    cases fetched with
    | cached => exact ih (hx.mono hq) false
    | absent => exact (parallel_loadReport _ _).bind_same fun _ _ _ => parallel_pure fun _ _ => rfl
    | fresh bytes =>
      have hrun : ∀ r, q ≤ r → r.Parallel Same
          (do Load.runFile executor bytes file; Load.loadFiles executor name count false rest)
          (do Load.runFile executor bytes file; Load.loadFiles executor name count false rest) :=
        fun r hr => (parallel_runFile (hx.mono (hq.trans hr)) bytes file).bind_same fun s hs _ =>
          ih (hx.mono (hq.trans (hr.trans hs))) false
      cases first with
      | true => exact (parallel_loadReport _ _).bind_same fun r hr _ => hrun r hr
      | false => exact hrun q le_rfl

theorem parallel_addClass {c c' : Handle} (hp : p.pairs c c') :
    p.Parallel Same
      (modify fun m =>
        { m with env := { m.env with classes := m.env.classes.push c } } : Load PUnit)
      (modify fun m => { m with env := { m.env with classes := m.env.classes.push c' } }) :=
  parallel_modify fun _ hq _ _ hm =>
    ⟨{ hm.env with classes := forall₂_push hm.env.classes (hq.1 _ _ hp) }, hm.thread⟩

theorem parallel_bindMembers {c c' : Handle} (b : Binder) (hp : p.pairs c c') (name : String)
    (hcallable : ∀ member ∈ b.members, ∀ name, member.value = .native name → p.callable name) :
    p.Parallel Same (modify fun m => { m with env := Load.bindMembers m.env b c name } : Load PUnit)
      (modify fun m => { m with env := Load.bindMembers m.env b c' name }) := by
  intro q hq m m' hm
  obtain ⟨r, hr, henv⟩ := hm.env.bindMembers b (hq.1 _ _ hp) name (callable_eq hq ▸ hcallable)
  exact .ok hr ⟨henv, hm.thread.mono hr⟩ rfl

theorem parallel_bindClass (name : String) (hash : UInt32) :
    p.Parallel Same (Load.bindClass name hash) (Load.bindClass name hash) := by
  have htrue : ∀ {q : Pairing}, q.Parallel Same (pure true : Load Bool) (pure true) :=
    parallel_pure fun _ _ => rfl
  refine parallel_get.bind fun q hq m m' hm => ?_
  rw [hm.env.loader, ← hm.env.isStandardClass_eq]
  cases hl : m.env.loader with
  | none => exact parallel_pure fun _ _ => rfl
  | some l =>
    have hclass := hm.env.classByHash? hash
    dsimp only
    split
    · exact htrue
    · generalize m.env.classByHash? hash = c, m'.env.classByHash? hash = c' at hclass
      cases hclass with
      | none => exact (parallel_loadReport _ _).bind_same fun _ _ _ => parallel_pure fun _ _ => rfl
      | @some c c' hp =>
        have hkind : (m'.env.heap.class? c').map (·.kind) = (m.env.heap.class? c).map (·.kind) :=
          (map_eq_of_rel (hm.env.heap.class? hp) fun _ _ hk => hk.kind.symm).symm
        refine (parallel_mapLoader (f := fun l => { l with boundClasses := hash :: l.boundClasses })
          fun _ => rfl).bind_same fun q₁ h₁ _ => ?_
        refine (parallel_addClass (h₁.1 _ _ hp)).bind_same fun q₂ h₂ _ => ?_
        cases hb : l.binder with
        | none => exact htrue
        | some b =>
          have hcallable := hm.env.bindable l hl b hb
          dsimp only
          rw [hkind]
          split
          · refine (parallel_loadReport _ _).bind_same fun q₃ h₃ _ => ?_
            have hle := h₁.trans (h₂.trans h₃)
            refine (parallel_bindMembers b (hle.1 _ _ hp) name
              (callable_eq hle ▸ hcallable)).bind_same fun _ _ _ => htrue
          · exact htrue

theorem parallel_loadClass (hx : p.Parallel Same executor executor) (name : String) :
    p.Parallel Same (Load.loadClass executor name) (Load.loadClass executor name) := by
  have hfalse : ∀ {q : Pairing}, q.Parallel Same (pure false : Load Bool) (pure false) :=
    parallel_pure fun _ _ => rfl
  unfold Load.loadClass
  split
  · exact hfalse
  · refine parallel_get.bind fun q hq m m' hm => ?_
    rw [hm.env.loader]
    cases m.env.loader with
    | none => exact hfalse
    | some l =>
      dsimp only
      cases l.source.classMap.files? (hashName name) with
      | none => exact (parallel_loadReport _ _).bind_same fun _ _ _ => hfalse
      | some files =>
        refine (parallel_loadFiles (hx.mono hq) name files.length true files).bind_same
          fun r hr loaded => ?_
        split
        · exact parallel_bindClass name _
        · exact hfalse

end Pairing
end ScriptVm
