import ScriptVm.Proofs.Machine.WholeRuns

/-!
# The contents of modules

The module of a container holds its functions, and the functions hold its code and its constants.
What was in the heap before is still there.

* `Heap.Retains` says that texts and functions stay as they are and classes keep their kind,
  `Environment.Retains` that the tables and the records of what is loaded are the same besides.
* `Fills.retains` says that reading a file does no more than that, `retains_bindMembers` that giving
  a class the members of the host does not either.
* `Heap.Realizes` says that a function object has the code and the texts of a compiled function, and
  `entryFunction?_loadModule` that the first function of a module is the first one of its container.
-/

namespace ScriptVm

/-! ### What stays -/

/-- A class keeps its kind, a module is a module, and all else stays as it is. -/
inductive Obj.Lasts : Obj → Obj → Prop
  | same (o : Obj) : Lasts o o
  | sameKind {k k' : ClassObject} : k'.kind = k.kind → Lasts (.scriptClass k) (.scriptClass k')
  | module (m m' : ModuleObject) : Lasts (.module m) (.module m')

theorem Obj.Lasts.trans {o o' o'' : Obj} (h : o.Lasts o') (h' : o'.Lasts o'') : o.Lasts o'' := by
  cases h with
  | same => exact h'
  | sameKind hk =>
    cases h' with
    | same => exact .sameKind hk
    | sameKind hk' => exact .sameKind (hk'.trans hk)
  | module m m' =>
    cases h' with
    | same => exact .module m m'
    | module _ m'' => exact .module m m''

/-- The objects of a heap stay. -/
structure Heap.Retains (heap heap' : Heap) : Prop where
  slotted : heap.Slotted → heap'.Slotted
  objects : heap.Slotted → ∀ h o, heap.get? h = some o → ∃ o', heap'.get? h = some o' ∧ o.Lasts o'

namespace Heap

variable {heap heap' heap'' : Heap} {h : Handle}

theorem string?_eq_some {s : String} :
    heap.string? h = some s ↔ heap.get? h = some (.string s) := by
  unfold string?
  split <;> simp_all

theorem Retains.refl (heap : Heap) : heap.Retains heap := ⟨id, fun _ _ o ho => ⟨o, ho, .same o⟩⟩

theorem Retains.trans (hr : heap.Retains heap') (hr' : heap'.Retains heap'') :
    heap.Retains heap'' := by
  refine ⟨fun hs => hr'.slotted (hr.slotted hs), fun hs h o ho => ?_⟩
  obtain ⟨o', ho', hlasts⟩ := hr.objects hs h o ho
  obtain ⟨o'', ho'', hlasts'⟩ := hr'.objects (hr.slotted hs) h o' ho'
  exact ⟨o'', ho'', hlasts.trans hlasts'⟩

theorem Retains.string? (hr : heap.Retains heap') (hs : heap.Slotted) {s : String}
    (hstring : heap.string? h = some s) : heap'.string? h = some s := by
  obtain ⟨o', ho', hlasts⟩ := hr.objects hs h _ (string?_eq_some.1 hstring)
  cases hlasts
  exact string?_eq_some.2 ho'

theorem Retains.function? (hr : heap.Retains heap') (hs : heap.Slotted) {f : FunctionObject}
    (hf : heap.function? h = some f) : heap'.function? h = some f := by
  obtain ⟨o', ho', hlasts⟩ := hr.objects hs h _ (function?_eq_some.1 hf)
  cases hlasts
  exact function?_eq_some.2 ho'

theorem Retains.class? (hr : heap.Retains heap') (hs : heap.Slotted) {k : ClassObject}
    (hk : heap.class? h = some k) : ∃ k', heap'.class? h = some k' ∧ k'.kind = k.kind := by
  obtain ⟨o', ho', hlasts⟩ := hr.objects hs h _ (class?_eq_some.1 hk)
  cases hlasts with
  | same => exact ⟨k, class?_eq_some.2 ho', rfl⟩
  | @sameKind _ k' hkind => exact ⟨k', class?_eq_some.2 ho', hkind⟩

theorem Retains.module? (hr : heap.Retains heap') (hs : heap.Slotted) {m : ModuleObject}
    (hm : heap.module? h = some m) : ∃ m', heap'.module? h = some m' := by
  obtain ⟨o', ho', hlasts⟩ := hr.objects hs h _ (module?_eq_some.1 hm)
  cases hlasts with
  | same => exact ⟨m, module?_eq_some.2 ho'⟩
  | module _ m' => exact ⟨m', module?_eq_some.2 ho'⟩

theorem module?_modifyModule {m : ModuleObject} (hm : heap.module? h = some m)
    (f : ModuleObject → ModuleObject) : (heap.modifyModule h f).module? h = some (f m) := by
  refine module?_eq_some.2 ((get?_modify heap h h _).trans ?_)
  rw [if_pos rfl, module?_eq_some.1 hm]
  rfl

theorem retains_alloc (heap : Heap) (o : Obj) : heap.Retains (heap.alloc o).2 :=
  ⟨fun hs => slotted_alloc hs o, fun hs _ p hp => ⟨p, get?_alloc_of_get? hs o hp, .same p⟩⟩

theorem retains_modify (heap : Heap) (h : Handle) {f : Obj → Obj} (hf : ∀ o : Obj, o.Lasts (f o)) :
    heap.Retains (heap.modify h f) := by
  refine ⟨fun hs => slotted_modify hs h f, fun _ k o ho => ?_⟩
  rw [get?_modify]
  split
  · rename_i hk
    rw [← hk, ho]
    exact ⟨f o, rfl, hf o⟩
  · exact ⟨o, ho, .same o⟩

theorem retains_modifyClass (heap : Heap) (h : Handle) {f : ClassObject → ClassObject}
    (hf : ∀ k, (f k).kind = k.kind) : heap.Retains (heap.modifyClass h f) := by
  refine heap.retains_modify h fun o => ?_
  cases o with
  | scriptClass k => exact .sameKind (hf k)
  | _ => exact .same _

theorem retains_modifyModule (heap : Heap) (h : Handle) (f : ModuleObject → ModuleObject) :
    heap.Retains (heap.modifyModule h f) := by
  refine heap.retains_modify h fun o => ?_
  cases o with
  | module m => exact .module m (f m)
  | _ => exact .same _

end Heap

namespace Environment

variable {env env' env'' : Environment}

/-- The objects, the tables and the records of what is loaded stay. -/
structure Retains (env env' : Environment) : Prop where
  heap : env.heap.Retains env'.heap
  globals : env'.globals = env.globals
  constants : env'.constants = env.constants
  loads : env.SameLoads env'

theorem Retains.refl (env : Environment) : env.Retains env := ⟨.refl _, rfl, rfl, .refl env⟩

theorem Retains.trans (hr : env.Retains env') (hr' : env'.Retains env'') : env.Retains env'' :=
  ⟨hr.heap.trans hr'.heap, hr'.globals.trans hr.globals, hr'.constants.trans hr.constants,
    hr.loads.trans hr'.loads⟩

theorem retains_mapHeap (env : Environment) {f : Heap → Heap} (hf : env.heap.Retains (f env.heap)) :
    env.Retains (env.mapHeap f) :=
  ⟨hf, rfl, rfl, ⟨rfl, rfl⟩⟩

theorem retains_alloc (env : Environment) (o : Obj) : env.Retains (env.alloc o).2 :=
  ⟨env.heap.retains_alloc o, rfl, rfl, ⟨rfl, rfl⟩⟩

theorem retains_report (env : Environment) (level : Level) (text : Unit → String) :
    env.Retains (env.report level text) :=
  ⟨.refl _, rfl, rfl, ⟨rfl, rfl⟩⟩

theorem Fill.retains (h : env.Fill env') : env.Retains env' := by
  cases h with
  | search hsearch =>
    cases hsearch with
    | report level text => exact env.retains_report level text
    | @alloc o _ => exact env.retains_alloc o
    | @remember c p _ _ _ _ =>
      exact env.retains_mapHeap (env.heap.retains_modifyClass c fun _ => rfl)
  | functions module functions =>
    exact env.retains_mapHeap (env.heap.retains_modifyModule module _)
  | listing tokens modules functions => exact ⟨.refl _, rfl, rfl, ⟨rfl, rfl⟩⟩

theorem Fills.retains (h : env.Fills env') : env.Retains env' := by
  induction h with
  | refl => exact .refl env
  | tail _ hfill ih => exact ih.trans hfill.retains

end Environment

/-! ### Members of the host -/

namespace Environment

theorem retains_addToken (env : Environment) (name : String) : env.Retains (env.addToken name).2 :=
  ⟨.refl _, rfl, rfl, ⟨rfl, rfl⟩⟩

theorem retains_insertMethod (env : Environment) (c : Handle) (hash : UInt32) (v : Value) :
    env.Retains (env.insertMethod c hash v) :=
  env.retains_mapHeap (env.heap.retains_modifyClass c fun _ => rfl)

theorem retains_bindMember (env : Environment) (c : Handle) (member : Member) :
    env.Retains (env.bindMember c member) := by
  have htoken := env.retains_addToken member.name
  unfold bindMember bindValue
  split
  · unfold defineNative
    dsimp only
    split
    · exact htoken
    · split
      · exact htoken
      · exact (htoken.trans (retains_alloc _ _)).trans (retains_insertMethod _ c _ _)
  · exact htoken.trans (retains_insertMethod _ c _ _)
  · exact htoken.trans (retains_insertMethod _ c _ _)
  · exact htoken.trans (retains_insertMethod _ c _ _)

theorem retains_bindAll (env : Environment) (members : List Member) (c : Handle) :
    env.Retains (members.foldl (fun env m => env.bindMember c m) env) := by
  induction members generalizing env with
  | nil => exact .refl env
  | cons member rest ih => exact (env.retains_bindMember c member).trans (ih _)

/-- Giving a class its members is put on record and changes nothing else but the class. -/
theorem retains_bindMembers (env : Environment) (b : Binder) (c : Handle) (name : String) :
    ∃ env', env.Retains env' ∧ Load.bindMembers env b c name =
      { env' with loader := env.loader.map fun l =>
          { l with binder := some { b with bound := b.bound.push name } } } := by
  have hr := env.retains_bindAll (b.members.filter (·.className == name)) c
  refine ⟨_, hr, ?_⟩
  unfold Load.bindMembers
  dsimp only
  rw [hr.loads.loader]

end Environment

/-! ### Texts and functions -/

/-- Values stand for constants: where a constant is a text, so is the value. -/
def Heap.Texts (heap : Heap) (values : Array Value) (constants : List Constant) : Prop :=
  ∀ (i : Nat) (s : String), constants[i]? = some (.string s) → values[i]?.bind heap.text? = some s

/-- A function object has the code of a compiled function and its texts. -/
def Heap.Realizes (heap : Heap) (h : Handle) (p : Prototype) : Prop :=
  ∃ f, heap.function? h = some f ∧ f.code = p.chunk.code ∧ f.arity = p.arity ∧
    heap.Texts f.constants p.chunk.constants.toList

namespace Heap

variable {heap heap' : Heap} {values : Array Value} {constants : List Constant} {h : Handle}
  {p : Prototype}

theorem Texts.mono (ht : heap.Texts values constants) (hr : heap.Retains heap')
    (hs : heap.Slotted) : heap'.Texts values constants := by
  intro i s hi
  obtain ⟨v, hv, htext⟩ := Option.bind_eq_some_iff.1 (ht i s hi)
  obtain ⟨x, hx, hstring⟩ := Option.bind_eq_some_iff.1 htext
  exact Option.bind_eq_some_iff.2
    ⟨v, hv, Option.bind_eq_some_iff.2 ⟨x, hx, hr.string? hs hstring⟩⟩

theorem Realizes.mono (hp : heap.Realizes h p) (hr : heap.Retains heap') (hs : heap.Slotted) :
    heap'.Realizes h p := by
  obtain ⟨f, hf, hcode, harity, htexts⟩ := hp
  exact ⟨f, hr.function? hs hf, hcode, harity, htexts.mono hr hs⟩

end Heap

namespace Environment

variable {env : Environment}

theorem retains_loadConstant (env : Environment) (k : Constant) :
    env.Retains (env.loadConstant k).2 := by
  cases k with
  | string s => exact env.retains_alloc (.string s)
  | _ => exact .refl env

/-- The value of a text is the text. -/
theorem text?_loadConstant (hs : env.heap.Slotted) (s : String) :
    (env.loadConstant (.string s)).2.heap.text? (env.loadConstant (.string s)).1 = some s :=
  Heap.string?_eq_some.2 (Heap.get?_alloc_self hs (.string s))

/-- Constants are loaded after those that are there. -/
theorem texts_loadConstants (constants : List Constant) {before : List Constant}
    {loaded : Array Value} (hs : env.heap.Slotted) (hsize : loaded.size = before.length)
    (hloaded : env.heap.Texts loaded before) :
    (loadConstants constants loaded env).2.heap.Texts (loadConstants constants loaded env).1
      (before ++ constants) ∧ env.Retains (loadConstants constants loaded env).2 := by
  induction constants generalizing before loaded env with
  | nil =>
    rw [List.append_nil]
    exact ⟨hloaded, .refl env⟩
  | cons k rest ih =>
    have hr := env.retains_loadConstant k
    have hnext : (env.loadConstant k).2.heap.Texts (loaded.push (env.loadConstant k).1)
        (before ++ [k]) := by
      intro i s hi
      rw [List.getElem?_append] at hi
      rw [Array.getElem?_push]
      split at hi
      · rename_i hlt
        rw [if_neg (by omega)]
        exact hloaded.mono hr.heap hs i s hi
      · -- the constant just loaded
        have hi0 : i - before.length = 0 := by
          by_contra hne
          rw [List.getElem?_eq_none (by simp; omega)] at hi
          cases hi
        rw [hi0] at hi
        cases hi
        rw [if_pos (by omega)]
        exact text?_loadConstant hs s
    obtain ⟨htexts, hrest⟩ := ih (hr.heap.slotted hs) (by simp [hsize]) hnext
    rw [List.append_assoc] at htexts
    exact ⟨htexts, hr.trans hrest⟩

theorem retains_newString (env : Environment) (s : String) : env.Retains (env.newString s).2 :=
  env.retains_alloc (.string s)

theorem realizes_loadFunction (hs : env.heap.Slotted) (source module : Handle) (index : Nat)
    (p : Prototype) :
    (env.loadFunction source module index p).2.heap.Realizes
        (env.loadFunction source module index p).1 p ∧
      env.Retains (env.loadFunction source module index p).2 := by
  have hnone : env.heap.Texts #[] [] := fun i s hi => by cases hi
  obtain ⟨htexts, hr⟩ := texts_loadConstants p.chunk.constants.toList hs rfl hnone
  unfold loadFunction
  generalize loadConstants p.chunk.constants.toList #[] env = loaded at htexts hr ⊢
  dsimp only
  have hs₁ := hr.heap.slotted hs
  have hname := loaded.2.retains_newString
    (Container.functionTitle loaded.2.tokens index p.nameHash)
  generalize loaded.2.newString _ = named at hname ⊢
  have hs₂ := hname.heap.slotted hs₁
  have hplaced := named.2.retains_alloc
  exact ⟨⟨_, Heap.function?_eq_some.2 (Heap.get?_alloc_self hs₂ _), rfl, rfl,
    (htexts.mono hname.heap hs₁).mono (hplaced _).heap hs₂⟩, (hr.trans hname).trans (hplaced _)⟩

/-- Functions are loaded after those that are there. -/
theorem getElem?_loadFunctions (source module : Handle) (index : Nat) (ps : List Prototype)
    (loaded : Array Handle) (env : Environment) {i : Nat} (hi : i < loaded.size) :
    (loadFunctions source module index ps loaded env).1[i]? = loaded[i]? := by
  induction ps generalizing index loaded env with
  | nil => rfl
  | cons p rest ih =>
    refine (ih _ _ _ (by rw [Array.size_push]; omega)).trans ?_
    rw [Array.getElem?_push, if_neg (by omega)]

/-- The first function of a module is the first one of its container. -/
theorem entryFunction?_loadModule (hs : env.heap.Slotted) {c : Container} {p : Prototype}
    {rest : List Prototype} (hc : c.functions = p :: rest) (file : UInt32) :
    ∃ h, (env.loadModule c file).2.entryFunction? (env.loadModule c file).1 = some h ∧
      (env.loadModule c file).2.heap.Realizes h p := by
  unfold loadModule
  rw [hc]
  dsimp only
  have hs₁ := (fills_addTokens c.tokens env).retains.heap.slotted hs
  generalize c.tokens.foldl (fun env name => (env.addToken name).2) env = named at hs₁ ⊢
  have hs₂ := (named.retains_newString (c.sourceFilename.getD (Text.hexWord file))).heap.slotted hs₁
  generalize named.newString (c.sourceFilename.getD (Text.hexWord file)) = source at hs₂ ⊢
  have hs₃ := (source.2.retains_alloc (.module ⟨#[], #[], some source.1⟩)).heap.slotted hs₂
  have hm := Heap.module?_eq_some.2 (Heap.get?_alloc_self hs₂ (.module ⟨#[], #[], some source.1⟩))
  replace hm : (source.2.alloc (.module ⟨#[], #[], some source.1⟩)).2.heap.module?
    (source.2.alloc (.module ⟨#[], #[], some source.1⟩)).1 = _ := hm
  generalize source.2.alloc (.module ⟨#[], #[], some source.1⟩) = module at hs₃ hm ⊢
  -- the first function is placed, then the others, and the module gets them all
  obtain ⟨hrealizes, hfirst⟩ := realizes_loadFunction hs₃ source.1 module.1 0 p
  unfold loadFunctions
  dsimp only
  generalize module.2.loadFunction source.1 module.1 0 p = function at hrealizes hfirst ⊢
  have hs₄ := hfirst.heap.slotted hs₃
  have hrest := (fills_loadFunctions source.1 module.1 1 rest #[function.1] function.2).retains
  have hentry := getElem?_loadFunctions source.1 module.1 1 rest #[function.1] function.2
    (i := 0) Nat.one_pos
  obtain ⟨m, hm⟩ := (hfirst.heap.trans hrest.heap).module? hs₃ hm
  refine ⟨function.1, Option.bind_eq_some_iff.2 ⟨_, Heap.module?_modifyModule hm _, hentry⟩, ?_⟩
  exact (hrealizes.mono hrest.heap hs₄).mono (Heap.retains_modifyModule _ module.1 _)
    (hrest.heap.slotted hs₄)

end Environment
end ScriptVm
