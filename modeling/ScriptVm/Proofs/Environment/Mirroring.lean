import ScriptVm.Arithmetic
import ScriptVm.Proofs.Environment.Links
import ScriptVm.Proofs.Environment.Tidying
import ScriptVm.Proofs.Heap.Mirroring

/-!
# Environments that mirror each other

What is read from environments that mirror each other is the same up to the pairing of their
handles, and texts are the same throughout, since no text shows a handle.

* `Memory.Mirrors` is about heaps and cells. `format_eq`, `typeName_eq`, `looselyEqual_eq` and the
  lemmas about arithmetic say that printed forms, names and results are the same.
* `NativeFunction.Faithful` is what is asked of natives: the same answer up to handles.
* `Log.Echoes` says that two logs have the same lines, those for debugging apart.
* `Environment.Mirrors` is about everything that threads share. `chatter` and `purged` say that
  lines for debugging and a collection on one side keep it.
* `Follows` is the outcome of two functions of environments; the lemmas about looking up members,
  loading modules and binding say what it is.
-/

namespace ScriptVm

variable {p q : Pairing}

/-! ### Memories -/

/-- Heaps that mirror each other, with the same cells. -/
structure Memory.Mirrors (p : Pairing) (mem mem' : Memory) : Prop where
  heap : mem.heap.Mirrors p mem'.heap
  cells : mem'.cells = mem.cells

section Lists

variable {α β γ : Type} {R : α → β → Prop} {l : List α} {l' : List β}

theorem map_eq_of_forall₂ (h : List.Forall₂ R l l') {f : α → γ} {g : β → γ}
    (hfg : ∀ a b, R a b → f a = g b) : l.map f = l'.map g := by
  induction h with
  | nil => rfl
  | cons hab _ ih => rw [List.map_cons, List.map_cons, hfg _ _ hab, ih]

/-- Sorting by what is the same on both sides. -/
theorem forall₂_mergeSort (h : List.Forall₂ R l l') {le : α → α → Bool} {le' : β → β → Bool}
    (hle : ∀ a b c d, R a b → R c d → le a c = le' b d) :
    List.Forall₂ R (l.mergeSort le) (l'.mergeSort le') := by
  -- both are images of the list of pairs
  let pairs := l.zip l'
  have hlength := h.length_eq
  have hrel : ∀ x ∈ pairs, R x.1 x.2 := fun x hx => List.forall₂_zip h hx
  have hfst : pairs.map Prod.fst = l := List.map_fst_zip (Nat.le_of_eq hlength)
  have hsnd : pairs.map Prod.snd = l' := List.map_snd_zip (Nat.le_of_eq hlength.symm)
  have hleft : (pairs.mergeSort fun x y => le x.1 y.1).map Prod.fst = l.mergeSort le := by
    refine (List.map_mergeSort fun x _ y _ => ?_).trans (congrArg (List.mergeSort · le) hfst)
    rfl
  have hright : (pairs.mergeSort fun x y => le x.1 y.1).map Prod.snd = l'.mergeSort le' := by
    rw [List.map_mergeSort fun x hx y hy => hle _ _ _ _ (hrel x hx) (hrel y hy), hsnd]
  rw [← hleft, ← hright]
  refine List.forall₂_map_left_iff.2
    (List.forall₂_map_right_iff.2 (List.forall₂_same.2 fun x hx => ?_))
  exact hrel x (List.mem_mergeSort.1 hx)

end Lists

namespace Memory.Mirrors

variable {mem mem' : Memory} {v v' w w' : Value} {h h' : Handle}

theorem nameOrHash_eq {heap heap' : Heap} (hm : heap.Mirrors p heap') {name name' : Option Handle}
    (hname : Option.Rel p.pairs name name') (hash : UInt32) :
    nameOrHash heap name hash = nameOrHash heap' name' hash := by
  unfold nameOrHash
  rw [bind_eq_of_rel hname fun _ _ hp => hm.string? hp]

theorem functionTitle_eq {heap heap' : Heap} (hm : heap.Mirrors p heap') (hp : p.pairs h h') :
    functionTitle heap h = functionTitle heap' h' := by
  unfold functionTitle
  rw [bind_eq_of_rel (rel_bind (hm.function? hp) fun _ _ hf => hf.name) fun _ _ hp => hm.string? hp]

theorem classTitle_eq {heap heap' : Heap} (hm : heap.Mirrors p heap') (hp : p.pairs h h') :
    classTitle heap h = classTitle heap' h' := by
  unfold classTitle
  have hclass := hm.class? hp
  generalize heap.class? h = c, heap'.class? h' = c' at hclass
  cases hclass with
  | none => rfl
  | some hc => simp only [hc.hash, nameOrHash_eq hm hc.name]

theorem renderObject_eq {heap heap' : Heap} (hm : heap.Mirrors p heap')
    {container container' : Obj → String}
    (hcontainer : ∀ o o', o.Mirrors p o' → container o = container' o') (nested : Bool)
    (hp : p.pairs h h') {o o' : Obj} (ho : o.Mirrors p o') :
    renderObject heap container nested h o = renderObject heap' container' nested h' o' := by
  cases ho with
  | string s => rfl
  | function hf => simp only [renderObject, functionTitle_eq hm hp]
  | scriptClass hc => simp only [renderObject, hc.hash, nameOrHash_eq hm hc.name]
  | inst hi => simp only [renderObject, classTitle_eq hm hi.classHandle]
  | module hmodule =>
    have hsource := bind_eq_of_rel hmodule.sourceFilename fun _ _ hp => hm.string? hp
    simp only [renderObject, hsource]
  | array hvs => exact hcontainer _ _ (.array hvs)
  | map hentries => exact hcontainer _ _ (.map hentries)
  | native _ => rfl
  | boundMethod _ hmethod => simp only [renderObject, functionTitle_eq hm hmethod]
  | upvalue _ => rfl

theorem renderValue_eq (hm : mem.Mirrors p mem') {container container' : Obj → String}
    (hcontainer : ∀ o o', o.Mirrors p o' → container o = container' o') (nested : Bool)
    (hv : v.Mirrors p v') :
    mem.renderValue container nested v = mem'.renderValue container' nested v' := by
  unfold renderValue
  cases hv with
  | object hp =>
    obtain ⟨o, o', ho, ho', hmirrors⟩ := hm.heap.object hp
    dsimp only
    rw [ho, ho']
    exact renderObject_eq hm.heap hcontainer nested hp hmirrors
  | _ => rw [hm.cells]

theorem renderContainer_eq {inner inner' : Value → String}
    (hinner : ∀ v v', v.Mirrors p v' → inner v = inner' v') {o o' : Obj} (ho : o.Mirrors p o') :
    renderContainer inner o = renderContainer inner' o' := by
  cases ho with
  | array hvs => simp only [renderContainer, map_eq_of_forall₂ hvs hinner]
  | @map m m' hentries =>
    have hsorted : List.Forall₂ (MapObject.Entry p) (sortedEntries m) (sortedEntries m') := by
      refine forall₂_mergeSort hentries.values fun a b c d hab hcd => ?_
      rw [hab.1, hcd.1]
    have hentry : ∀ e e' : String × Value, MapObject.Entry p e e' →
        "\"" ++ e.1 ++ "\": " ++ inner e.2 = "\"" ++ e'.1 ++ "\": " ++ inner' e'.2 :=
      fun e e' he => by rw [he.1, hinner _ _ he.2]
    simp only [renderContainer, map_eq_of_forall₂ hsorted hentry]
  | _ => rfl

theorem render_eq (hm : mem.Mirrors p mem') (levels : Nat) (nested : Bool) (hv : v.Mirrors p v') :
    mem.render levels nested v = mem'.render levels nested v' := by
  induction levels generalizing nested v v' with
  | zero => exact hm.renderValue_eq (fun _ _ _ => rfl) nested hv
  | succ levels ih =>
    refine hm.renderValue_eq (fun o o' ho => ?_) nested hv
    exact renderContainer_eq (fun _ _ => ih true) ho

theorem format_eq (hm : mem.Mirrors p mem') (hv : v.Mirrors p v') : mem.format v = mem'.format v' :=
  hm.render_eq _ _ hv

theorem typeName_eq (hm : mem.Mirrors p mem') (hv : v.Mirrors p v') :
    mem.typeName v = mem'.typeName v' := by
  unfold typeName
  rw [hm.heap.kind? hv, hv.kindName]

theorem typeOf_eq (hm : mem.Mirrors p mem') (hv : v.Mirrors p v') :
    mem.typeOf v = mem'.typeOf v' := by
  have hkind := hm.heap.kind? hv
  unfold typeOf
  cases hv with
  | object hp =>
    dsimp only
    rw [hkind]
  | _ => rfl

theorem equals_eq {heap heap' : Heap} (hm : heap.Mirrors p heap') (cells : Cells)
    (hv : v.Mirrors p v') (hw : w.Mirrors p w') : v.equals cells w = v'.equals cells w' := by
  cases hv with
  | object hp =>
    cases hw with
    | object hk =>
      show (_ == _) = (_ == _)
      rw [Bool.eq_iff_iff, beq_iff_eq, beq_iff_eq]
      exact hm.unique hp hk
    | _ => rfl
  | _ => cases hw <;> rfl

theorem looselyEqual_eq (hm : mem.Mirrors p mem') (hv : v.Mirrors p v') (hw : w.Mirrors p w') :
    mem.looselyEqual v w = mem'.looselyEqual v' w' := by
  have hequals := equals_eq hm.heap mem.cells hv hw
  unfold looselyEqual
  rw [hv.isNumber, hw.isNumber, hv.isDecimal, hw.isDecimal, hm.cells]
  split
  · rw [hv.castDecimal? mem.cells, hw.castDecimal? mem.cells]
  · have hv := hm.heap.find hv
    have hw := hm.heap.find hw
    generalize v.object?.bind mem.heap.get? = o, v'.object?.bind mem'.heap.get? = o' at hv
    generalize w.object?.bind mem.heap.get? = u, w'.object?.bind mem'.heap.get? = u' at hw
    cases hv with
    | none => exact hequals
    | some ho =>
      cases hw with
      | none => cases ho <;> exact hequals
      | some hu =>
        cases ho with
        | string s => cases hu <;> first | rfl | exact hequals
        | boundMethod hr hmethod =>
          cases hu with
          | boundMethod hr₂ hmethod₂ =>
            dsimp only
            rw [equals_eq hm.heap mem.cells hr hr₂]
            congr 1
            rw [Bool.eq_iff_iff, beq_iff_eq, beq_iff_eq]
            exact hm.heap.unique hmethod hmethod₂
          | _ => exact hequals
        | _ => cases hu <;> exact hequals

/-- Operations on numbers have the same outcome, and no handle in it. -/
theorem applyBinary_eq (hm : mem.Mirrors p mem') (op : BinaryOp) (hv : v.Mirrors p v')
    (hw : w.Mirrors p w') : mem.applyBinary op v w = mem'.applyBinary op v' w' := by
  unfold applyBinary requireNumber
  rw [hm.cells, hv.isNumber, hw.isNumber, hm.typeName_eq hv, hm.typeName_eq hw,
    hv.integer? mem.cells, hw.integer? mem.cells, hv.castDecimal? mem.cells,
    hw.castDecimal? mem.cells]

theorem applyUnary_eq (hm : mem.Mirrors p mem') (op : UnaryOp) (hv : v.Mirrors p v') :
    mem.applyUnary op v = mem'.applyUnary op v' := by
  unfold applyUnary
  rw [hm.cells, hm.typeName_eq hv, hv.integer? mem.cells, hv.decimal? mem.cells, hv.isNull]

end Memory.Mirrors

/-! ### Natives and logs -/

/-- Two results, where failures are the same. -/
inductive ExceptRel {ε α β : Type} (R : α → β → Prop) : Except ε α → Except ε β → Prop
  | ok {a : α} {b : β} : R a b → ExceptRel R (.ok a) (.ok b)
  | error (e : ε) : ExceptRel R (.error e) (.error e)

/-- A native that answers the same up to handles, and leaves memories that mirror each other. -/
def NativeFunction.Faithful (callable : String → Prop) (f : NativeFunction) : Prop :=
  ∀ (p : Pairing) (mem mem' : Memory) (args args' : Array Value), p.callable = callable →
    mem.Mirrors p mem' → List.Forall₂ (Value.Mirrors p) args.toList args'.toList →
      ∃ q, p ≤ q ∧ (f mem args).2.Mirrors q (f mem' args').2 ∧
        ExceptRel (Value.Mirrors q) (f mem args).1 (f mem' args').1

/-- The lines of a log that are not for debugging. -/
def Log.lines (log : Log) : List LogEntry := log.entries.toList.filter (·.level ≠ .debug)

/-- Two logs have the same lines, those for debugging apart. -/
structure Log.Echoes (log log' : Log) : Prop where
  limit : log'.limit = log.limit
  lines : log'.lines = log.lines

namespace Log

variable {log log' log'' : Log}

theorem Echoes.add (h : log.Echoes log') (level : Level) {text text' : Unit → String}
    (htext : text () = text' ()) : (log.add level text).Echoes (log'.add level text') := by
  have hkeeps : log'.keeps level = log.keeps level := by
    unfold keeps
    rw [h.limit]
  unfold Log.add
  rw [hkeeps]
  split
  · refine ⟨h.limit, ?_⟩
    have hlines : log'.entries.toList.filter _ = log.entries.toList.filter _ := h.lines
    unfold Log.lines
    rw [Array.toList_push, Array.toList_push, List.filter_append, List.filter_append, hlines, htext]
  · exact h

theorem Chatter.lines_eq (h : log.Chatter log') : log'.lines = log.lines := by
  obtain ⟨lines, hdebug, hentries⟩ := h.lines
  unfold Log.lines
  have hnone : lines.toArray.toList.filter (·.level ≠ .debug) = [] :=
    List.filter_eq_nil_iff.2 fun l hl => by simp [hdebug l (by simpa using hl)]
  rw [hentries, Array.toList_append, List.filter_append, hnone, List.append_nil]

end Log

/-! ### Environments -/

/-- Everything that threads share is the same up to handles. -/
structure Environment.Mirrors (p : Pairing) (env env' : Environment) : Prop where
  memory : env.memory.Mirrors p env'.memory
  globals : Table.Mirrors (Value.Mirrors p) env.globals env'.globals
  constants : Table.Mirrors (Value.Mirrors p) env.constants env'.constants
  tokens : env'.tokens = env.tokens
  modules : List.Forall₂ p.pairs env.modules.toList env'.modules.toList
  functions : List.Forall₂ p.pairs env.functions.toList env'.functions.toList
  classes : List.Forall₂ p.pairs env.classes.toList env'.classes.toList
  entityBase : Option.Rel p.pairs env.entityBase env'.entityBase
  extraRoots : List.Forall₂ (Value.Mirrors p) env.extraRoots.toList env'.extraRoots.toList
  natives : env'.natives = env.natives
  loader : env'.loader = env.loader
  log : env.log.Echoes env'.log
  faithful : ∀ name, p.callable name → NativeFunction.Faithful p.callable (env.natives name)
  bindable : ∀ l ∈ env.loader, ∀ b ∈ l.binder, ∀ member ∈ b.members, ∀ name,
    member.value = .native name → p.callable name

/-- The outcome of two functions of environments that mirror each other. -/
def Pairing.Follows {α β : Type} (p : Pairing) (Q : Pairing → α → β → Prop) (r : α × Environment)
    (r' : β × Environment) : Prop :=
  ∃ q, p ≤ q ∧ r.2.Mirrors q r'.2 ∧ Q q r.1 r'.1

theorem rel_filter {α β : Type} {R : α → β → Prop} {o : Option α} {o' : Option β}
    (h : Option.Rel R o o') {f : α → Bool} {g : β → Bool} (hfg : ∀ a b, R a b → f a = g b) :
    Option.Rel R (o.filter f) (o'.filter g) := by
  cases h with
  | none => exact .none
  | some hab =>
    rw [Option.filter_some, Option.filter_some, hfg _ _ hab]
    split
    · exact .some hab
    · exact .none

theorem rel_mono {o o' : Option Handle} (h : Option.Rel p.pairs o o') (hq : p ≤ q) :
    Option.Rel q.pairs o o' :=
  rel_imp_of_mem h fun _ _ _ _ => hq.1 _ _

theorem mirrors_mono {vs vs' : List Value} (h : List.Forall₂ (Value.Mirrors p) vs vs')
    (hq : p ≤ q) : List.Forall₂ (Value.Mirrors q) vs vs' :=
  h.imp fun _ _ hv => hv.mono hq

namespace Environment.Mirrors

variable {env env' : Environment} {h h' c c' : Handle} {v v' : Value}

theorem heap (hm : env.Mirrors p env') : env.heap.Mirrors p env'.heap := hm.memory.heap

/-- Other memories that mirror each other, where handles held by the environments stay paired. -/
theorem imp (hm : env.Mirrors p env') (hc : q.callable = p.callable) {mem mem' : Memory}
    (hmem : mem.Mirrors q mem') (hq : ∀ h ∈ env.roots [], ∀ h', p.pairs h h' → q.pairs h h') :
    Environment.Mirrors q { env with memory := mem } { env' with memory := mem' } where
  memory := hmem
  globals := hm.globals.imp_of_handlesOf fun h hh h' _ => hq h (mem_roots.2 (by simp [hh])) h'
  constants := hm.constants.imp_of_handlesOf fun h hh h' _ => hq h (mem_roots.2 (by simp [hh])) h'
  tokens := hm.tokens
  modules := forall₂_imp_of_mem hm.modules fun h hh h' _ =>
    hq h (mem_roots.2 (by simp only [hh, true_or, or_true])) h'
  functions := forall₂_imp_of_mem hm.functions fun h hh h' _ =>
    hq h (mem_roots.2 (by simp only [hh, true_or, or_true])) h'
  classes := forall₂_imp_of_mem hm.classes fun h hh h' _ =>
    hq h (mem_roots.2 (by simp only [hh, true_or, or_true])) h'
  entityBase := rel_imp_of_mem hm.entityBase fun h hh h' _ =>
    hq h (mem_roots.2 (by simp only [hh, true_or, or_true])) h'
  extraRoots := mirrors_imp_of_handlesOf hm.extraRoots fun h hh h' _ =>
    hq h (mem_roots.2 (by simp [hh])) h'
  natives := hm.natives
  loader := hm.loader
  log := hm.log
  faithful name hname := hc ▸ hm.faithful name (hc ▸ hname)
  bindable l hl b hb member hmember name hname :=
    hc ▸ hm.bindable l hl b hb member hmember name hname

/-- Other memories that mirror each other. -/
theorem withMemory (hm : env.Mirrors p env') (hq : p ≤ q) {mem mem' : Memory}
    (hmem : mem.Mirrors q mem') :
    Environment.Mirrors q { env with memory := mem } { env' with memory := mem' } :=
  hm.imp (Pairing.callable_eq hq) hmem fun h _ h' => hq.1 h h'

theorem swap (hm : env.Mirrors p env') : env'.Mirrors p.swap env where
  memory := ⟨hm.heap.swap, hm.memory.cells.symm⟩
  globals := hm.globals.swap_values
  constants := hm.constants.swap_values
  tokens := hm.tokens.symm
  modules := forall₂_swap hm.modules
  functions := forall₂_swap hm.functions
  classes := forall₂_swap hm.classes
  entityBase := rel_swap hm.entityBase
  extraRoots := mirrors_swap hm.extraRoots
  natives := hm.natives.symm
  loader := hm.loader.symm
  log := ⟨hm.log.limit.symm, hm.log.lines.symm⟩
  faithful name hname := hm.natives ▸ hm.faithful name hname
  bindable l hl := hm.bindable l (hm.loader ▸ hl)

theorem report (hm : env.Mirrors p env') (level : Level) {text text' : Unit → String}
    (htext : text () = text' ()) : (env.report level text).Mirrors p (env'.report level text') :=
  { hm with log := hm.log.add level htext }

theorem chatter (hm : env.Mirrors p env') {env₁ : Environment} (hc : env.Chatter env₁) :
    env₁.Mirrors p env' := by
  obtain ⟨log, hlog, rfl⟩ := hc
  exact { hm with
    log := ⟨hm.log.limit.trans hlog.limit.symm, hm.log.lines.trans hlog.lines_eq.symm⟩ }

/-- A collection on one side, with the handles that the environment holds among the roots. -/
theorem purged (hm : env.Mirrors p env') {roots : List Handle} {env₁ : Environment}
    (hp : env.Purged roots env₁) (hroots : env.roots [] ⊆ roots) :
    env₁.Mirrors (Heap.reachedPairs p env.heap roots) env' := by
  have hmem : (env.memory.collect roots).2.Mirrors (Heap.reachedPairs p env.heap roots)
      env'.memory := by
    refine ⟨?_, hm.memory.cells.trans (env.memory.cells_collect roots).symm⟩
    rw [heap_collect_memory]
    exact hm.heap.collect roots
  refine (hm.imp (Heap.reachedPairs_callable ..) hmem fun h hh h' hpair => ?_).chatter hp
  exact ⟨hpair, .root (hroots hh) (hm.heap.contains hpair).1⟩

theorem alloc (hm : env.Mirrors p env') {o o' : Obj} (ho : o.Mirrors p o') :
    p.Follows (fun q h h' => q.pairs h h') (env.alloc o) (env'.alloc o') :=
  ⟨_, p.le_add _ _, hm.withMemory (p.le_add _ _) ⟨hm.heap.alloc ho, hm.memory.cells⟩,
    p.add_pairs _ _⟩

theorem newString (hm : env.Mirrors p env') (s : String) :
    p.Follows (fun q h h' => q.pairs h h') (env.newString s) (env'.newString s) :=
  hm.alloc (.string s)

theorem modify (hm : env.Mirrors p env') (hp : p.pairs h h') {f f' : Obj → Obj}
    (hf : ∀ o o', o.Mirrors p o' → (f o).Mirrors p (f' o')) :
    (env.mapHeap (·.modify h f)).Mirrors p (env'.mapHeap (·.modify h' f')) :=
  hm.withMemory le_rfl ⟨hm.heap.modify hp hf, hm.memory.cells⟩

theorem modifyClass (hm : env.Mirrors p env') (hp : p.pairs c c') {f f' : ClassObject → ClassObject}
    (hf : ∀ k k', k.Mirrors p k' → (f k).Mirrors p (f' k')) :
    (env.mapHeap (·.modifyClass c f)).Mirrors p (env'.mapHeap (·.modifyClass c' f')) := by
  refine hm.modify hp fun o o' ho => ?_
  have hsame := ho
  cases ho with
  | scriptClass hk => exact .scriptClass (hf _ _ hk)
  | _ => exact hsame

theorem modifyModule (hm : env.Mirrors p env') (hp : p.pairs h h')
    {f g : ModuleObject → ModuleObject} (hf : ∀ k k', k.Mirrors p k' → (f k).Mirrors p (g k')) :
    (env.mapHeap (·.modifyModule h f)).Mirrors p (env'.mapHeap (·.modifyModule h' g)) := by
  refine hm.modify hp fun o o' ho => ?_
  have hsame := ho
  cases ho with
  | module hk => exact .module (hf _ _ hk)
  | _ => exact hsame

theorem modifyFunction (hm : env.Mirrors p env') (hp : p.pairs h h')
    {f f' : FunctionObject → FunctionObject}
    (hf : ∀ k k', k.Mirrors p k' → (f k).Mirrors p (f' k')) :
    (env.mapHeap (·.modifyFunction h f)).Mirrors p (env'.mapHeap (·.modifyFunction h' f')) := by
  refine hm.modify hp fun o o' ho => ?_
  have hsame := ho
  cases ho with
  | function hk => exact .function (hf _ _ hk)
  | _ => exact hsame

/-! ### Names -/

theorem token?_eq (hm : env.Mirrors p env') (hash : UInt32) :
    env.token? hash = env'.token? hash := by
  unfold token?
  rw [hm.tokens]

theorem variableName_eq (hm : env.Mirrors p env') (hash : UInt32) :
    env.variableName hash = env'.variableName hash := by
  unfold variableName
  rw [hm.token?_eq]

theorem functionName_eq (hm : env.Mirrors p env') (hp : p.pairs h h') :
    env.functionName h = env'.functionName h' := by
  have hfunction := hm.heap.function? hp
  unfold functionName
  generalize env.heap.function? h = f, env'.heap.function? h' = f' at hfunction
  cases hfunction with
  | none => rfl
  | some hf =>
    have hname := bind_eq_of_rel hf.name fun _ _ hp => hm.heap.string? hp
    have hclass := bind_eq_of_rel hf.className fun _ _ hp => hm.heap.string? hp
    simp only [tokenOrHex, hname, hclass, hf.nameHash, hm.token?_eq]

theorem sourceFilename_eq (hm : env.Mirrors p env') (hp : p.pairs h h') :
    env.sourceFilename h = env'.sourceFilename h' := by
  unfold sourceFilename
  rw [bind_eq_of_rel (rel_bind (hm.heap.function? hp) fun _ _ hf => hf.sourceFilename) fun _ _ hp =>
    hm.heap.string? hp]

theorem className_eq (hm : env.Mirrors p env') (hp : p.pairs h h') :
    env.className h = env'.className h' := by
  have hclass := hm.heap.class? hp
  unfold className
  generalize env.heap.class? h = k, env'.heap.class? h' = k' at hclass
  cases hclass with
  | none => rfl
  | some hk => simp only [hk.hash, bind_eq_of_rel hk.name fun _ _ hp => hm.heap.string? hp]

theorem classByHash? (hm : env.Mirrors p env') (hash : UInt32) :
    Option.Rel p.pairs (env.classByHash? hash) (env'.classByHash? hash) :=
  rel_filter (rel_bind (hm.globals.get? hash) fun _ _ hv => hv.object?) fun _ _ hp =>
    hm.heap.isClass hp

theorem isStandardClass_eq (hm : env.Mirrors p env') (name : String) :
    env.isStandardClass name = env'.isStandardClass name :=
  isSome_eq_of_rel
    (rel_filter (rel_bind (hm.constants.get? _) fun _ _ hv => hv.object?) fun _ _ hp =>
    hm.heap.isClass hp)

/-! ### Members -/

theorem resolveParent (hm : env.Mirrors p env') (hp : p.pairs c c') :
    p.Follows (fun q => Option.Rel q.pairs) (env.resolveParent c) (env'.resolveParent c') := by
  have hclass := hm.heap.class? hp
  unfold Environment.resolveParent
  generalize env.heap.class? c = k, env'.heap.class? c' = k' at hclass
  cases hclass with
  | none => exact ⟨p, le_rfl, hm, .none⟩
  | @some k k' hk =>
    dsimp only
    have hparent := hk.parent
    generalize k.parent = parent, k'.parent = parent' at hparent
    cases hparent with
    | some hparent => exact ⟨p, le_rfl, hm, .some hparent⟩
    | none =>
      dsimp only
      have hfound : Option.Rel p.pairs (k.parentHash.bind env.classByHash?)
          (k'.parentHash.bind env'.classByHash?) := by
        rw [hk.parentHash]
        cases k.parentHash with
        | none => exact .none
        | some hash => exact hm.classByHash? hash
      generalize k.parentHash.bind env.classByHash? = found,
        k'.parentHash.bind env'.classByHash? = found' at hfound
      cases hfound with
      | none => exact ⟨p, le_rfl, hm, .none⟩
      | some hfound =>
        refine ⟨p, le_rfl, hm.modifyClass hp fun k k' hk => ?_, .some hfound⟩
        exact { hk with parent := .some hfound }

theorem ownMember? {k k' : ClassObject} (hk : k.Mirrors p k') (hash : UInt32) :
    Option.Rel (Value.Mirrors p) (Environment.ownMember? k hash)
      (Environment.ownMember? k' hash) := by
  have hfield := hk.fields.get? hash
  unfold Environment.ownMember?
  generalize k.fields.get? hash = field, k'.fields.get? hash = field' at hfield
  cases hfield with
  | some hv => exact .some hv
  | none => exact hk.methods.get? hash

theorem baseMember? (hm : env.Mirrors p env') (hash : UInt32) :
    Option.Rel (Value.Mirrors p) (env.baseMember? hash) (env'.baseMember? hash) :=
  rel_bind (rel_bind hm.entityBase fun _ _ hp => hm.heap.class? hp) fun _ _ hk => ownMember? hk hash

theorem walk (hash : UInt32) (left : Nat) {current current' : Option Handle} (bound : Bool)
    (hm : env.Mirrors p env') (hp : p.pairs h h') (hcurrent : Option.Rel p.pairs current current') :
    p.Follows (fun q => Option.Rel (Value.Mirrors q))
      (Environment.walk h hash left current bound env)
      (Environment.walk h' hash left current' bound env') := by
  induction left generalizing p env env' current current' bound with
  | zero =>
    cases hcurrent with
    | none =>
      unfold Environment.walk
      split
      · exact ⟨p, le_rfl, hm, hm.baseMember? hash⟩
      · exact ⟨p, le_rfl, hm, .none⟩
    | some hc =>
      refine ⟨p, le_rfl, hm.report _ ?_, .none⟩
      rw [hm.className_eq hp]
  | succ left ih =>
    cases hcurrent with
    | none =>
      unfold Environment.walk
      split
      · exact ⟨p, le_rfl, hm, hm.baseMember? hash⟩
      · exact ⟨p, le_rfl, hm, .none⟩
    | @some c c' hc =>
      have hclass := hm.heap.class? hc
      unfold Environment.walk
      generalize env.heap.class? c = k, env'.heap.class? c' = k' at hclass
      cases hclass with
      | none => exact ⟨p, le_rfl, hm, .none⟩
      | @some k k' hk =>
        dsimp only
        have hown := ownMember? hk hash
        generalize Environment.ownMember? k hash = own,
          Environment.ownMember? k' hash = own' at hown
        cases hown with
        | some hv => exact ⟨p, le_rfl, hm, .some hv⟩
        | none =>
          obtain ⟨q, hq, henv, hparent⟩ := hm.resolveParent hc
          obtain ⟨q₁, hq₁, hfound⟩ := ih (bound || k.entityBound) henv (hq.1 _ _ hp) hparent
          rw [hk.entityBound]
          exact ⟨q₁, hq.trans hq₁, hfound⟩

theorem findMember (hm : env.Mirrors p env') (hp : p.pairs c c') (hash : UInt32) :
    p.Follows (fun q => Option.Rel (Value.Mirrors q)) (env.findMember c hash)
      (env'.findMember c' hash) :=
  walk hash _ false hm hp (.some hp)

theorem hasMember (hm : env.Mirrors p env') (hp : p.pairs c c') (hash : UInt32) :
    p.Follows (fun _ => Eq) (env.hasMember c hash) (env'.hasMember c' hash) := by
  obtain ⟨q, hq, henv, hfound⟩ := hm.findMember hp hash
  exact ⟨q, hq, henv, isSome_eq_of_rel hfound⟩

theorem defineMethod (hm : env.Mirrors p env') (hp : p.pairs c c') (hf : p.pairs h h')
    (hash : UInt32) : (env.defineMethod c h hash).Mirrors p (env'.defineMethod c' h' hash) := by
  have hclass := hm.heap.class? hp
  unfold Environment.defineMethod
  generalize env.heap.class? c = k, env'.heap.class? c' = k' at hclass
  cases hclass with
  | none => exact hm
  | some hk =>
    refine (hm.modifyClass hp fun k k' hk => ?_).modifyFunction hf fun f f' hf => ?_
    · refine { hk with methods := hk.methods.insert hash (.object hf), initializer := ?_ }
      rw [hk.hash]
      split
      · exact .some (.object hf)
      · exact hk.initializer
    · exact { hf with className := hk.name }

theorem extendClass (hm : env.Mirrors p env') (hp : p.pairs c c') (ht : p.pairs h h') :
    (env.extendClass c h).Mirrors p (env'.extendClass c' h') := by
  have hclass := hm.heap.class? hp
  unfold Environment.extendClass
  by_cases heq : c = h
  · rw [if_pos heq, if_pos ((hm.heap.unique hp ht).1 heq)]
    exact hm
  · rw [if_neg heq, if_neg fun heq' => heq ((hm.heap.unique hp ht).2 heq')]
    generalize env.heap.class? c = k, env'.heap.class? c' = k' at hclass
    cases hclass with
    | none => exact hm
    | some hk =>
      refine (hm.modifyClass hp fun k k' hk => ?_).modifyClass ht fun t t' ht => ?_
      · exact { hk with methods := Table.mirrors_empty }
      · exact { ht with methods := ht.methods.merge hk.methods }

theorem classOf? (hm : env.Mirrors p env') (hv : v.Mirrors p v') :
    Option.Rel p.pairs (env.classOf? v) (env'.classOf? v') := by
  cases hv with
  | object hp =>
    obtain ⟨o, o', ho, ho', hmirrors⟩ := hm.heap.object hp
    unfold Environment.classOf?
    dsimp only [Value.object?]
    rw [ho, ho']
    cases hmirrors with
    | scriptClass _ => exact .some hp
    | inst hi => exact .some hi.classHandle
    | _ => exact .none
  | _ => exact .none

end Environment.Mirrors
end ScriptVm
