import ScriptVm.Native.Catalog
import ScriptVm.Proofs.Container.RoundTrip
import ScriptVm.Proofs.Machine.ModuleContents

/-!
# Loading a written container

A container that was written is read into one module with one function object for each of its
functions. The objects are placed one after the other into a heap whose slots may have been
used before.

* `Heap.Places` says which objects are placed, that they are all different and were not there, and
  that the others stay; placements follow each other by `Places.trans`.
* `Heap.Stands` says that a value stands for a constant, `Heap.Compiled` that a function object is
  that of a compiled function.
* `Environment.firstName?` is the name registered first for a hash.
* `readModule_encode` says what reading the bytes of a container leaves, and that bytes that are
  refused leave everything as it is.
-/

namespace ScriptVm

/-! ### Names -/

namespace Table

variable {α : Type}

theorem get?_insertNew (t : Table α) (hash other : UInt32) (value : α) :
    (t.insertNew hash value).get? other =
      (t.get? other).or (if hash = other then some value else none) := by
  unfold insertNew contains
  by_cases heq : hash = other
  · subst heq
    cases hget : t.get? hash <;> simp [hget]
  · rw [if_neg heq, Option.or_none]
    split
    · rfl
    · exact t.get?_insert_of_ne (Ne.symm heq) value

end Table

namespace Environment

/-- The name registered first for a hash: it was known before, or else it is the first of some names
that has the hash. -/
def firstName? (env : Environment) (names : List String) (hash : UInt32) : Option String :=
  (env.token? hash).or (names.find? fun name => hashName name = hash)

theorem token?_addToken (env : Environment) (name : String) (hash : UInt32) :
    (env.addToken name).2.token? hash =
      (env.token? hash).or (if hashName name = hash then some name else none) :=
  env.tokens.get?_insertNew (hashName name) hash name

/-- Registering names changes the table of names, where the first name of a hash stays. -/
theorem exists_addTokens (env : Environment) (names : List String) :
    ∃ tokens, names.foldl (fun env name => (env.addToken name).2) env = { env with tokens } ∧
      ∀ hash, tokens.get? hash = env.firstName? names hash := by
  induction names generalizing env with
  | nil => exact ⟨env.tokens, rfl, fun hash => (Option.or_none ..).symm⟩
  | cons name rest ih =>
    obtain ⟨tokens, hrest, htokens⟩ := ih (env.addToken name).2
    refine ⟨tokens, by rw [List.foldl_cons, hrest]; rfl, fun hash => (htokens hash).trans ?_⟩
    rw [firstName?, token?_addToken, Option.or_assoc, firstName?]
    by_cases heq : hashName name = hash
    · rw [if_pos heq, Option.some_or, List.find?_cons_of_pos (by simpa using heq)]
    · rw [if_neg heq, Option.none_or, List.find?_cons_of_neg (by simpa using heq)]

end Environment

/-! ### Placing objects -/

namespace Heap

variable {heap heap' heap'' : Heap} {h : Handle} {o : Obj} {placed placed' : List Handle}

/-- The objects of `placed`, all different, are new in `heap'`; all others are as they were. -/
structure Places (heap heap' : Heap) (placed : List Handle) : Prop where
  nodup : placed.Nodup
  absent : ∀ h ∈ placed, heap.contains h = false
  present : ∀ h, heap'.contains h = true ↔ heap.contains h = true ∨ h ∈ placed
  kept : ∀ h o, heap.get? h = some o → heap'.get? h = some o

namespace Places

theorem refl (heap : Heap) : heap.Places heap [] :=
  ⟨.nil, nofun, fun h => by simp, fun _ _ => id⟩

theorem trans (hp : heap.Places heap' placed) (hp' : heap'.Places heap'' placed') :
    heap.Places heap'' (placed ++ placed') := by
  have habsent : ∀ h ∈ placed', heap'.contains h ≠ true := fun h hh => by
    rw [hp'.absent h hh]
    exact Bool.false_ne_true
  refine ⟨?_, fun h hh => ?_, fun h => ?_, fun h o ho => hp'.kept h o (hp.kept h o ho)⟩
  · refine List.nodup_append'.2 ⟨hp.nodup, hp'.nodup, fun h hh hh' => ?_⟩
    exact habsent h hh' ((hp.present h).2 (.inr hh))
  · rcases List.mem_append.1 hh with hh | hh
    · exact hp.absent h hh
    · by_contra hin
      exact habsent h hh ((hp.present h).2 (.inl (by simpa using hin)))
  · rw [hp'.present, hp.present, List.mem_append, or_assoc]

end Places

theorem places_alloc (hs : heap.Slotted) (o : Obj) :
    heap.Places (heap.alloc o).2 [(heap.alloc o).1] := by
  refine ⟨List.nodup_singleton _, ?_, fun h => ?_, fun h p hp => get?_alloc_of_get? hs o hp⟩
  · exact List.forall_mem_singleton.2 (contains_alloc_fresh hs o)
  · rw [List.mem_singleton]
    by_cases hself : h = (heap.alloc o).1
    · subst hself
      simp [contains_of_get? (get?_alloc_self hs o)]
    · simp only [contains, get?_alloc_of_ne hs (Ne.symm hself), hself, or_false]

/-- An object that was placed may be changed. -/
theorem Places.modify (hp : heap.Places heap' placed) (hh : h ∈ placed) (f : Obj → Obj) :
    heap.Places (heap'.modify h f) placed := by
  refine ⟨hp.nodup, hp.absent, fun k => ?_, fun k o ho => ?_⟩
  · rw [contains_modify]
    exact hp.present k
  · have hne : k ≠ h := by
      rintro rfl
      have habsent := hp.absent k hh
      rw [contains_of_get? ho] at habsent
      cases habsent
    rw [get?_modify, if_neg hne]
    exact hp.kept k o ho

/-! ### Constants and functions -/

/-- Every object but modules stays as it is. -/
def KeepsContents (heap heap' : Heap) : Prop :=
  ∀ h o, heap.get? h = some o → o.kind ≠ .module → heap'.get? h = some o

theorem Places.keepsContents (hp : heap.Places heap' placed) : heap.KeepsContents heap' :=
  fun h o ho _ => hp.kept h o ho

theorem keepsContents_modifyModule (heap : Heap) (h : Handle) (f : ModuleObject → ModuleObject) :
    heap.KeepsContents (heap.modifyModule h f) := by
  intro k o ho hkind
  rw [modifyModule, get?_modify]
  split
  · rename_i heq
    rw [← heq, ho]
    cases o with
    | module m => exact absurd rfl hkind
    | _ => rfl
  · exact ho

namespace KeepsContents

theorem string? (hp : heap.KeepsContents heap') {s : String} (hstring : heap.string? h = some s) :
    heap'.string? h = some s :=
  string?_eq_some.2 (hp h _ (string?_eq_some.1 hstring) nofun)

theorem function? (hp : heap.KeepsContents heap') {f : FunctionObject}
    (hf : heap.function? h = some f) : heap'.function? h = some f :=
  function?_eq_some.2 (hp h _ (function?_eq_some.1 hf) nofun)

end KeepsContents

/-- A value stands for a constant: a number for itself, a string object for its text. -/
def Stands (heap : Heap) : Value → Constant → Prop
  | .integer n, .integer k => n = k
  | .decimal d, .decimal k => d = k
  | .object h, .string s => heap.string? h = some s
  | _, _ => False

theorem Stands.mono {v : Value} {k : Constant} (hv : heap.Stands v k)
    (hp : heap.KeepsContents heap') : heap'.Stands v k := by
  cases v with
  | object h =>
    cases k with
    | string s => exact hp.string? (s := s) hv
    | _ => exact hv.elim
  | _ => cases k <;> exact hv

/-- A function object is that of a compiled function with a title, and refers to its module and to
the name of its source file. -/
structure Compiled (heap : Heap) (source module : Handle) (title : String) (p : Prototype)
    (f : FunctionObject) : Prop where
  arity : f.arity = p.arity
  minArity : f.minArity = p.arity
  nameHash : f.nameHash = p.nameHash
  code : f.code = p.chunk.code
  lines : f.lines = p.chunk.lines
  className : f.className = none
  sourceFilename : f.sourceFilename = some source
  module : f.module = some module
  name : f.name.bind heap.string? = some title
  constants : List.Forall₂ heap.Stands f.constants.toList p.chunk.constants.toList

variable {source module : Handle} {title : String} {p : Prototype} {f : FunctionObject}

theorem Compiled.mono (hf : heap.Compiled source module title p f)
    (hp : heap.KeepsContents heap') : heap'.Compiled source module title p f := by
  refine { hf with name := ?_, constants := hf.constants.imp fun _ _ hv => hv.mono hp }
  obtain ⟨name, hname, hstring⟩ := Option.bind_eq_some_iff.1 hf.name
  exact Option.bind_eq_some_iff.2 ⟨name, hname, hp.string? hstring⟩

/-- The objects placed for a function: the texts among its constants, its name and the function. -/
def partsOf (heap : Heap) (h : Handle) : List Handle :=
  match heap.function? h with
  | some f => Obj.handlesOf f.constants.toList ++ f.name.toList ++ [h]
  | none => []

theorem partsOf_eq (hf : heap.function? h = some f) :
    heap.partsOf h = Obj.handlesOf f.constants.toList ++ f.name.toList ++ [h] := by
  rw [partsOf, hf]

end Heap

namespace Environment

variable {env env' : Environment} {source module : Handle}

/-- Objects are placed in the heap and nothing else is done. -/
structure Places (env env' : Environment) (placed : List Handle) : Prop where
  heap : env.heap.Places env'.heap placed
  slotted : env'.heap.Slotted
  others : env' = env.mapHeap fun _ => env'.heap

namespace Places

variable {env'' : Environment} {placed placed' : List Handle}

theorem refl (hs : env.heap.Slotted) : env.Places env [] := ⟨.refl _, hs, rfl⟩

theorem trans (hp : env.Places env' placed) (hp' : env'.Places env'' placed') :
    env.Places env'' (placed ++ placed') := by
  refine ⟨hp.heap.trans hp'.heap, hp'.slotted, hp'.others.trans ?_⟩
  rw [hp.others]
  rfl

theorem tokens (hp : env.Places env' placed) : env'.tokens = env.tokens := by
  rw [hp.others]
  rfl

end Places

theorem places_alloc (hs : env.heap.Slotted) (o : Obj) :
    env.Places (env.alloc o).2 [(env.alloc o).1] :=
  ⟨Heap.places_alloc hs o, Heap.slotted_alloc hs o, rfl⟩

/-- Constants become values in their order; the strings are new objects. -/
theorem exists_loadConstants (ks : List Constant) (loaded : Array Value) {before : List Constant}
    (hs : env.heap.Slotted) (hloaded : List.Forall₂ env.heap.Stands loaded.toList before) :
    ∃ vs env', loadConstants ks loaded env = ((loaded.toList ++ vs).toArray, env') ∧
      env.Places env' (Obj.handlesOf vs) ∧
      List.Forall₂ env'.heap.Stands (loaded.toList ++ vs) (before ++ ks) := by
  induction ks generalizing before loaded env with
  | nil =>
    refine ⟨[], env, by simp [loadConstants], .refl hs, ?_⟩
    simpa only [List.append_nil] using hloaded
  | cons k rest ih =>
    -- one constant: a number needs no object, a text one
    obtain ⟨v, env₁, hk, hp, hv⟩ : ∃ v env₁, env.loadConstant k = (v, env₁) ∧
        env.Places env₁ (Obj.handlesOf [v]) ∧ env₁.heap.Stands v k := by
      cases k with
      | integer n => exact ⟨_, _, rfl, .refl hs, rfl⟩
      | decimal d => exact ⟨_, _, rfl, .refl hs, rfl⟩
      | string s =>
        exact ⟨_, _, rfl, places_alloc hs (.string s),
          Heap.string?_eq_some.2 (Heap.get?_alloc_self hs (.string s))⟩
    have hnext : List.Forall₂ env₁.heap.Stands (loaded.push v).toList (before ++ [k]) := by
      rw [Array.toList_push]
      exact List.rel_append (hloaded.imp fun _ _ hw => hw.mono hp.heap.keepsContents)
        (.cons hv .nil)
    obtain ⟨vs, env₂, hrest, hp', hall⟩ := ih (loaded.push v) hp.slotted hnext
    refine ⟨v :: vs, env₂, ?_, ?_, ?_⟩
    · simp only [loadConstants, hk, hrest, Array.toList_push, List.append_assoc,
        List.singleton_append]
    · have hsplit : Obj.handlesOf (v :: vs) = Obj.handlesOf [v] ++ Obj.handlesOf vs :=
        List.filterMap_append (l := [v])
      rw [hsplit]
      exact hp.trans hp'
    · simpa only [Array.toList_push, List.append_assoc, List.singleton_append] using hall

theorem exists_loadFunction (hs : env.heap.Slotted) (source module : Handle) (index : Nat)
    (p : Prototype) :
    ∃ h f env', env.loadFunction source module index p = (h, env') ∧
      env'.heap.function? h = some f ∧
      env.Places env' (Obj.handlesOf f.constants.toList ++ f.name.toList ++ [h]) ∧
      env'.heap.Compiled source module
        (Container.functionTitle env.tokens index p.nameHash) p f := by
  obtain ⟨vs, env₁, hload, hp₁, hstands⟩ :=
    exists_loadConstants p.chunk.constants.toList #[] hs .nil
  have htokens := hp₁.tokens
  obtain ⟨name, env₂, hname, hp₂, hstring⟩ : ∃ name env₂,
      env₁.newString (Container.functionTitle env.tokens index p.nameHash) = (name, env₂) ∧
        env₁.Places env₂ [name] ∧
        env₂.heap.string? name = some (Container.functionTitle env.tokens index p.nameHash) :=
    ⟨_, _, rfl, places_alloc hp₁.slotted _,
      Heap.string?_eq_some.2 (Heap.get?_alloc_self hp₁.slotted _)⟩
  let f : FunctionObject :=
    { FunctionObject.ofCode p.arity p.nameHash p.chunk.code with
      name := some name, sourceFilename := some source, module := some module
      lines := p.chunk.lines, constants := vs.toArray }
  obtain ⟨h, env₃, hplaced, hp₃, hf⟩ : ∃ h env₃, env₂.alloc (.function f) = (h, env₃) ∧
      env₂.Places env₃ [h] ∧ env₃.heap.function? h = some f :=
    ⟨_, _, rfl, places_alloc hp₂.slotted _,
      Heap.function?_eq_some.2 (Heap.get?_alloc_self hp₂.slotted _)⟩
  refine ⟨h, f, env₃, ?_, hf, (hp₁.trans hp₂).trans hp₃, ?_⟩
  · simp only [loadFunction, hload, htokens, hname]
    exact hplaced
  · refine ⟨rfl, rfl, rfl, rfl, rfl, rfl, rfl, rfl, hp₃.heap.keepsContents.string? hstring, ?_⟩
    exact hstands.imp fun _ _ hv => (hv.mono hp₂.heap.keepsContents).mono hp₃.heap.keepsContents

/-- Functions are placed in their order, each with its parts. -/
theorem exists_loadFunctions (source module : Handle) (index : Nat) (ps : List Prototype)
    (loaded : Array Handle) (hs : env.heap.Slotted) :
    ∃ fs env', loadFunctions source module index ps loaded env =
      ((loaded.toList ++ fs).toArray, env') ∧
      env.Places env' (fs.flatMap env'.heap.partsOf) ∧ fs.length = ps.length ∧
      ∀ i p, ps[i]? = some p → ∃ h f, fs[i]? = some h ∧ env'.heap.function? h = some f ∧
        env'.heap.Compiled source module
          (Container.functionTitle env.tokens (index + i) p.nameHash) p f := by
  induction ps generalizing index loaded env with
  | nil => exact ⟨[], env, by simp [loadFunctions], .refl hs, rfl, nofun⟩
  | cons p rest ih =>
    obtain ⟨h, f, env₁, hfirst, hf, hp, hcompiled⟩ := exists_loadFunction hs source module index p
    obtain ⟨fs, env₂, hrest, hp', hlength, hall⟩ := ih (index + 1) (loaded.push h) hp.slotted
    have hf' : env₂.heap.function? h = some f :=
      hp'.heap.keepsContents.function? hf
    refine ⟨h :: fs, env₂, ?_, ?_, congrArg Nat.succ hlength, fun i q hq => ?_⟩
    · simp only [loadFunctions, hfirst, hrest, Array.toList_push, List.append_assoc,
        List.singleton_append]
    · rw [List.flatMap_cons, Heap.partsOf_eq hf']
      exact hp.trans hp'
    · cases i with
      | zero =>
        cases hq
        exact ⟨h, f, rfl, hf', hcompiled.mono hp'.heap.keepsContents⟩
      | succ i =>
        obtain ⟨k, g, hk, hg, hsame⟩ := hall i q hq
        rw [hp.tokens, Nat.add_right_comm, Nat.add_assoc] at hsame
        exact ⟨k, g, hk, hg, hsame⟩

/-! ### Modules -/

/-- The container `c` of a file was loaded into `env`: its module has a function object for each of
its functions, with a name for each. -/
structure Loaded (env env' : Environment) (c : Container) (file : UInt32) (module source : Handle)
    (functions : Array Handle) : Prop where
  modules_eq : env'.modules = env.modules.push module
  functions_eq : env'.functions = env.functions ++ functions
  module_eq : env'.heap.module? module = some ⟨functions, #[], some source⟩
  source_eq : env'.heap.string? source = some (c.sourceFilename.getD (Text.hexWord file))
  size_eq : functions.size = c.functions.length
  compiled : ∀ i p, c.functions[i]? = some p →
    ∃ h f, functions[i]? = some h ∧ env'.heap.function? h = some f ∧
      env'.heap.Compiled source module
        ((env.firstName? c.tokens p.nameHash).getD (if i = 0 then "main" else "<anonymous-fn>")) p f
  tokens : ∀ hash, env'.token? hash = env.firstName? c.tokens hash
  placed : env.heap.Places env'.heap
    (source :: module :: functions.toList.flatMap env'.heap.partsOf)
  others : env' =
    { env with
      memory := { env.memory with heap := env'.heap }
      modules := env'.modules, functions := env'.functions, tokens := env'.tokens
      log := env.log.add .trace fun _ =>
        "Loaded module " ++ Text.hexWord file ++ s!" with {c.functions.length} functions" }

theorem functionTitle_eq (names : Table String) (index : Nat) (hash : UInt32) :
    Container.functionTitle names index hash =
      (names.get? hash).getD (if index = 0 then "main" else "<anonymous-fn>") := by
  unfold Container.functionTitle
  cases names.get? hash <;> rfl

theorem exists_loadModule (hs : env.heap.Slotted) (c : Container) (file : UInt32) :
    ∃ module source functions env', env.loadModule c file = (module, env') ∧
      env.Loaded env' c file module source functions := by
  obtain ⟨tokens, hnamed, htokens⟩ := env.exists_addTokens c.tokens
  let env₀ : Environment := { env with tokens }
  obtain ⟨source, env₁, hsource, hp₁, hstring⟩ : ∃ source env₁,
      env₀.newString (c.sourceFilename.getD (Text.hexWord file)) = (source, env₁) ∧
        env₀.Places env₁ [source] ∧
        env₁.heap.string? source = some (c.sourceFilename.getD (Text.hexWord file)) :=
    ⟨_, _, rfl, @places_alloc env₀ hs _,
      Heap.string?_eq_some.2 (Heap.get?_alloc_self hs _)⟩
  obtain ⟨module, env₂, hmodule, hp₂, hm⟩ : ∃ module env₂,
      env₁.alloc (.module ⟨#[], #[], some source⟩) = (module, env₂) ∧ env₁.Places env₂ [module] ∧
        env₂.heap.module? module = some ⟨#[], #[], some source⟩ :=
    ⟨_, _, rfl, places_alloc hp₁.slotted _,
      Heap.module?_eq_some.2 (Heap.get?_alloc_self hp₁.slotted _)⟩
  obtain ⟨fs, env₃, hfunctions, hp₃, hlength, hall⟩ :=
    exists_loadFunctions source module 0 c.functions #[] hp₂.slotted
  have hplaced := (hp₁.trans hp₂).trans hp₃
  have hm₃ : env₃.heap.module? module = some ⟨#[], #[], some source⟩ :=
    Heap.module?_eq_some.2 (hp₃.heap.kept module _ (Heap.module?_eq_some.1 hm))
  -- the module gets its functions last; all that they hold stays
  obtain ⟨heap, hheap⟩ : ∃ heap, heap = env₃.heap.modifyModule module fun m =>
      { m with functions := fs.toArray } := ⟨_, rfl⟩
  have hkeeps : env₃.heap.KeepsContents heap :=
    hheap ▸ env₃.heap.keepsContents_modifyModule module _
  have hparts : fs.flatMap heap.partsOf = fs.flatMap env₃.heap.partsOf := by
    refine List.flatMap_congr fun h hh => ?_
    obtain ⟨i, hi⟩ := List.getElem?_of_mem hh
    have hlt : i < c.functions.length := hlength ▸ (List.getElem?_eq_some_iff.1 hi).1
    obtain ⟨k, f, hk, hf, -⟩ := hall i _ (List.getElem?_eq_getElem hlt)
    rw [hi] at hk
    cases hk
    rw [Heap.partsOf_eq hf, Heap.partsOf_eq (hkeeps.function? hf)]
  have htitle (index : Nat) (hash : UInt32) : Container.functionTitle env₂.tokens index hash =
      (env.firstName? c.tokens hash).getD (if index = 0 then "main" else "<anonymous-fn>") := by
    rw [functionTitle_eq, hp₂.tokens, hp₁.tokens, ← htokens hash]
  let env' : Environment :=
    { env with
      memory := { env.memory with heap }
      modules := env.modules.push module, functions := env.functions ++ fs.toArray, tokens
      log := env.log.add .trace fun _ =>
        "Loaded module " ++ Text.hexWord file ++ s!" with {c.functions.length} functions" }
  refine ⟨module, source, fs.toArray, env', ?_, ?_⟩
  · simp only [loadModule, hnamed]
    rw [hsource]
    dsimp only
    rw [hmodule]
    dsimp only
    rw [hfunctions, hplaced.others, List.nil_append]
    simp only [env', hheap]
    rfl
  · refine ⟨rfl, rfl, ?_, ?_, hlength, fun i p hi => ?_, htokens, ?_, rfl⟩
    · exact (congrArg (·.module? module) hheap).trans (Heap.module?_modifyModule hm₃ _)
    · exact hkeeps.string? ((hp₂.trans hp₃).heap.keepsContents.string? hstring)
    · obtain ⟨h, f, hh, hf, hcompiled⟩ := hall i p hi
      rw [Nat.zero_add, htitle] at hcompiled
      exact ⟨h, f, by rwa [List.getElem?_toArray], hkeeps.function? hf, hcompiled.mono hkeeps⟩
    · have hplaces : env.heap.Places heap ([source] ++ [module] ++ fs.flatMap env₃.heap.partsOf) :=
        hheap ▸ hplaced.heap.modify (by simp) _
      rw [← hparts] at hplaces
      exact hplaces

end Environment

open Environment

/-- **Reading the bytes of a container adds its module, with its functions in their order, and runs
nothing; bytes that are refused change nothing at all.** -/
theorem readModule_encode (m : Machine) (c : Container) (file : UInt32) (hs : m.env.heap.Slotted)
    (hversion : c.version = 0) (hfunctions : c.functions ≠ []) (hfits : c.Fits) :
    (∃ module source functions env',
      Load.readModule c.encode file m = .ok module { m with env := env' } ∧
        m.env.Loaded env' c.normal file module source functions) ∧
    ∀ bytes e, Container.decode bytes = .error e →
      Load.readModule bytes file m = .error (.error (.container e)) m := by
  constructor
  · have hread : Container.decode c.encode = .ok c.normal :=
      Container.decode_eq_ok_iff.2 ⟨Container.isRead_normal hversion hfunctions hfits,
        Container.encode_normal c ▸ Container.begins_encode c.normal⟩
    obtain ⟨module, source, functions, env', hload, hloaded⟩ := exists_loadModule hs c.normal file
    refine ⟨module, source, functions, env', ?_, hloaded⟩
    simp only [Load.readModule, Environment.readModule, hread, Except.map, hload]
  · intro bytes e hrefused
    simp only [Load.readModule, Environment.readModule, hrefused, Except.map]

/-- A script of two functions. The second has a name, a text among its constants, and a line for one
of its two bytes of code. -/
def bellScript : Container where
  version := 0
  debugInfo := true
  functions := [⟨0, 7, ⟨#[0x20], none, #[], 0⟩⟩,
    ⟨1, hashName "Ring", ⟨#[0x1F, 0x20], some #[5], #[.integer 3, .string "ding"], 9⟩⟩]
  tokens := ["Ring"]
  sourceFilename := none

/-- The script is read into a heap that holds a string. Its module is named by the file, its second
function by the registered name. -/
theorem readModule_encode_bell :
    let env := (Environment.new .empty Native.standard none .off).newString "old"
    let m : Machine := ⟨env.2, .new 0⟩
    bellScript.Fits ∧ ∃ module source functions env',
      Load.readModule bellScript.encode 10 m = .ok module { m with env := env' } ∧
        m.env.Loaded env' bellScript.normal 10 module source functions ∧
        env'.heap.string? env.1 = some "old" ∧ env'.heap.string? source = some "0000000A" ∧
        ∃ h f, functions[1]? = some h ∧ env'.heap.function? h = some f ∧
          f.lines = some #[5, 0] ∧ f.name.bind env'.heap.string? = some "Ring" := by
  intro env m
  have hs : m.env.heap.Slotted := Heap.slotted_alloc (Heap.slotted_withThreshold _ _) _
  have hfits : bellScript.Fits := by
    refine ⟨by decide, List.forall_mem_cons.2 ⟨⟨by decide, by decide, by decide⟩,
      List.forall_mem_singleton.2 ⟨by decide, by decide, by decide⟩⟩, by decide, by decide, nofun⟩
  obtain ⟨module, source, functions, env', hread, hloaded⟩ :=
    (readModule_encode m bellScript 10 hs rfl nofun hfits).1
  refine ⟨hfits, module, source, functions, env', hread, hloaded, ?_,
    hloaded.source_eq.trans ?_, ?_⟩
  · exact hloaded.placed.keepsContents.string? rfl
  · decide
  · obtain ⟨h, f, hh, hf, hcompiled⟩ := hloaded.compiled 1 _ rfl
    exact ⟨h, f, hh, hf, hcompiled.lines, hcompiled.name.trans (by decide)⟩

end ScriptVm
