import ScriptVm.Proofs.Machine.ClassFiles
import ScriptVm.Proofs.Machine.ImportOrder

/-!
# Projects of class files

Classes that are each defined by one class file, and what loading one of them comes to. A file runs
when its class is first asked for, and runs the files of the classes that it imports from within;
how far this goes, and whether it goes well, is decided by the order of the imports.

* `Project` is a set of classes with their files, `LiesIn` says that a source has them, and `graph`
  is what they import.
* `Tracks` says that an environment shows the progress made: what is fetched, defined and bound.
* `Machine.Matches` and `Load.Matches` say that an execution, or the loading of a class, goes as far
  as a computation that may fail. `Simulates.imports` and `Simulates.script` are the imports of a
  file and the whole file, and `LiesIn.simulates` is the result: loading a class follows its visit
  in the graph.
-/

namespace ScriptVm

/-- Classes by hash, each with its file and what the file does. -/
structure Project where
  classes : Finset UInt32
  file : UInt32 → UInt32
  script : UInt32 → ClassScript

/-- The names of all classes that a class file imports. -/
def ClassScript.imports (s : ClassScript) : List String := s.before ++ (s.between ++ s.after)

namespace Project

/-- What the files import before they define their class and after that. -/
def graph (P : Project) : ImportGraph UInt32 where
  classes := P.classes
  early x := ((P.script x).before ++ (P.script x).between).map hashName
  late x := (P.script x).after.map hashName

/-- The kind of a class. -/
def kind (P : Project) (x : UInt32) : ClassKind := .ofOperand (P.script x).kind

/-- A source has a file for each class of a project, which does what it should. Files import classes
of the project only. -/
structure LiesIn (P : Project) (source : Source) : Prop where
  files : ∀ x ∈ P.classes, source.classMap.files? x = some [P.file x]
  scripts : ∀ x ∈ P.classes, ∃ bytes c p rest, source.Gives (P.file x) bytes ∧
    Container.decode bytes = .ok c ∧ c.functions = p :: rest ∧ p.Scripts x (P.script x)
  imports : ∀ x ∈ P.classes, ∀ name ∈ (P.script x).imports, name ≠ "" ∧ hashName name ∈ P.classes

variable {P : Project} {source : Source} {x y : UInt32}

/-- Different classes have different files. -/
theorem LiesIn.file_injective (hP : P.LiesIn source) (hx : x ∈ P.classes) (hy : y ∈ P.classes)
    (hfile : P.file x = P.file y) : x = y := by
  obtain ⟨bytes, c, p, rest, hbytes, hd, hc, -, before, _, _, _, hbefore, -, -, -, hspells⟩ :=
    hP.scripts x hx
  obtain ⟨bytes', c', p', rest', hbytes', hd', hc', -, before', _, _, _, hbefore', -, -, -,
      hspells'⟩ :=
    hP.scripts y hy
  cases hbytes.unique (hfile ▸ hbytes')
  cases hd.symm.trans hd'
  cases hc.symm.trans hc'
  exact Code.Spells.newClass_unique hbefore hbefore' hspells hspells'

theorem LiesIn.closed (hP : P.LiesIn source) : P.graph.Closed := by
  intro x hx y hy
  have hmem : y ∈ (P.script x).imports.map hashName := by
    unfold ClassScript.imports
    rcases hy with hy | hy
    · obtain ⟨name, hname, rfl⟩ := List.mem_map.1 hy
      refine List.mem_map_of_mem ?_
      rcases List.mem_append.1 hname with hname | hname
      · exact List.mem_append_left _ hname
      · exact List.mem_append_right _ (List.mem_append_left _ hname)
    · obtain ⟨name, hname, rfl⟩ := List.mem_map.1 hy
      exact List.mem_map_of_mem (List.mem_append_right _ (List.mem_append_right _ hname))
  obtain ⟨name, hname, rfl⟩ := List.mem_map.1 hmem
  exact (hP.imports x hx name hname).2

/-! ### What environments show of the progress -/

/-- The records of a loader are those of the progress, and its source is another with some questions
asked. -/
structure Recorded (P : Project) (source : Source) (s : Progress UInt32) (l : Loader) : Prop where
  classMap : l.source.classMap = source.classMap
  gives : ∀ file bytes, source.Gives file bytes → l.source.Gives file bytes
  fetched : ∀ x ∈ P.classes, P.file x ∈ l.fetched ↔ x ∈ s.fetched
  bound : ∀ x, x ∈ l.boundClasses ↔ x ∈ s.bound
  asked : ∀ b, l.binder = some b → ∀ x ∈ s.bound, P.kind x ≠ .extended →
    ∃ name ∈ b.bound.toList, hashName name = x

/-- An environment shows the progress: the classes defined are globals, those bound are listed, and
there are no other globals. -/
structure Tracks (P : Project) (source : Source) (s : Progress UInt32) (env : Environment) :
    Prop where
  order : s.defined ⊆ s.fetched
  slotted : env.heap.Slotted
  constants : env.constants = ∅
  records : ∃ l, env.loader = some l ∧ P.Recorded source s l
  undefined : ∀ x, x ∉ s.defined → env.globals.get? x = none
  defined : ∀ x ∈ s.defined, ∃ c k, env.globals.get? x = some (.object c) ∧
    env.heap.class? c = some k ∧ k.kind = P.kind x
  bound : ∀ x ∈ s.bound, ∃ c ∈ env.classes, env.globals.get? x = some (.object c)

variable {s s' : Progress UInt32} {env env' : Environment}

theorem Tracks.retains (ht : P.Tracks source s env) (hr : env.Retains env') :
    P.Tracks source s env' where
  order := ht.order
  slotted := hr.heap.slotted ht.slotted
  constants := hr.constants.trans ht.constants
  records := by
    rw [hr.loads.loader]
    exact ht.records
  undefined x hx := by
    rw [hr.globals]
    exact ht.undefined x hx
  defined x hx := by
    obtain ⟨c, k, hc, hk, hkind⟩ := ht.defined x hx
    obtain ⟨k', hk', hsame⟩ := hr.heap.class? ht.slotted hk
    exact ⟨c, k', hr.globals ▸ hc, hk', hsame.trans hkind⟩
  bound x hx := by
    rw [hr.globals, hr.loads.classes]
    exact ht.bound x hx

/-- A file is fetched. -/
theorem Tracks.fetch (ht : P.Tracks source s env) (hP : P.LiesIn source) (hx : x ∈ P.classes)
    {l : Loader} (hl : env.loader = some l) (log : Log) :
    P.Tracks source (s.fetch x)
      { env with loader := some { l.asked with fetched := P.file x :: l.fetched }, log } where
  order := List.Subset.trans ht.order (List.subset_cons_self x _)
  slotted := ht.slotted
  constants := ht.constants
  records := by
    obtain ⟨_, hl', hrecorded⟩ := ht.records
    cases hl.symm.trans hl'
    refine ⟨_, rfl, hrecorded.classMap, fun file bytes h => (hrecorded.gives file bytes h).later,
      fun y hy => ?_, hrecorded.bound, hrecorded.asked⟩
    show P.file y ∈ P.file x :: l.fetched ↔ y ∈ x :: s.fetched
    rw [List.mem_cons, List.mem_cons, hrecorded.fetched y hy]
    exact or_congr_left ⟨hP.file_injective hy hx, congrArg _⟩
  undefined := ht.undefined
  defined := ht.defined
  bound := ht.bound

theorem Tracks.not_bound (ht : P.Tracks source s env) (hx : x ∉ s.defined) : x ∉ s.bound := by
  intro hbound
  obtain ⟨c, -, hc⟩ := ht.bound x hbound
  rw [ht.undefined x hx] at hc
  cases hc

/-- A class becomes a global. -/
theorem Tracks.define (ht : P.Tracks source s env) (hx : s.Pending x) {c : Handle}
    {k : ClassObject} (hk : env.heap.class? c = some k) (hkind : k.kind = P.kind x) :
    P.Tracks source (s.define x) { env with globals := env.globals.insert x (.object c) } where
  order := List.cons_subset.2 ⟨hx.1, ht.order⟩
  slotted := ht.slotted
  constants := ht.constants
  records := by
    obtain ⟨l, hl, hrecorded⟩ := ht.records
    exact ⟨l, hl, { hrecorded with }⟩
  undefined y hy := by
    have hne : y ≠ x := fun h => hy (h ▸ List.mem_cons_self)
    rw [Table.get?_insert_of_ne _ hne]
    exact ht.undefined y fun h => hy (List.mem_cons_of_mem x h)
  defined y hy := by
    by_cases hne : y = x
    · subst hne
      exact ⟨c, k, Table.get?_insert_self _ y _, hk, hkind⟩
    · rw [Table.get?_insert_of_ne _ hne]
      exact ht.defined y ((List.mem_cons.1 hy).resolve_left hne)
  bound y hy := by
    have hne : y ≠ x := fun h => ht.not_bound hx.2 (h ▸ hy)
    rw [Table.get?_insert_of_ne _ hne]
    exact ht.bound y hy

theorem Tracks.classByHash? (ht : P.Tracks source s env) (hx : x ∈ s.defined) :
    ∃ c k, env.classByHash? x = some c ∧ env.heap.class? c = some k ∧ k.kind = P.kind x ∧
      env.globals.get? x = some (.object c) := by
  obtain ⟨c, k, hc, hk, hkind⟩ := ht.defined x hx
  refine ⟨c, k, ?_, hk, hkind, hc⟩
  unfold Environment.classByHash?
  rw [hc]
  exact Option.filter_eq_some_iff.2 ⟨rfl, Option.isSome_iff_exists.2 ⟨k, hk⟩⟩

/-- A class is put on record, and the binder, if any, is asked unless the class is an extension. -/
theorem Recorded.bind {l : Loader} (hl : P.Recorded source s l) {name : String} {k : ClassObject}
    (hkind : k.kind = P.kind (hashName name)) :
    P.Recorded source (s.bind (hashName name)) { l with
      boundClasses := hashName name :: l.boundClasses
      binder := if k.kind = .extended then l.binder
        else l.binder.map fun b => { b with bound := b.bound.push name } } where
  classMap := hl.classMap
  gives := hl.gives
  fetched := hl.fetched
  bound y := List.mem_cons.trans ((or_congr_right (hl.bound y)).trans List.mem_cons.symm)
  asked b hb y hy hnormal := by
    dsimp only at hb
    split at hb
    · rename_i hextended
      rcases List.mem_cons.1 hy with rfl | hy
      · exact absurd (hkind.symm.trans hextended) hnormal
      · exact hl.asked b hb y hy hnormal
    · obtain ⟨b₀, hb₀, rfl⟩ := Option.map_eq_some_iff.1 hb
      dsimp only
      rw [Array.toList_push]
      rcases List.mem_cons.1 hy with rfl | hy
      · exact ⟨name, List.mem_append_right _ List.mem_cons_self, rfl⟩
      · obtain ⟨other, hother, hhash⟩ := hl.asked b₀ hb₀ y hy hnormal
        exact ⟨other, List.mem_append_left _ hother, hhash⟩

/-- A class that is on record already stays so. -/
theorem Tracks.rebind (ht : P.Tracks source s env) (hx : x ∈ s.bound) :
    P.Tracks source (s.bind x) env := by
  have hmem : ∀ y, y ∈ (s.bind x).bound ↔ y ∈ s.bound := fun y =>
    ⟨fun h => (List.mem_cons.1 h).elim (fun h => h ▸ hx) id, List.mem_cons_of_mem x⟩
  obtain ⟨l, hl, hrecorded⟩ := ht.records
  have hrecorded' : P.Recorded source (s.bind x) l :=
    { hrecorded with
      bound := fun y => (hrecorded.bound y).trans (hmem y).symm
      asked := fun b hb y hy => hrecorded.asked b hb y ((hmem y).1 hy) }
  exact ⟨ht.order, ht.slotted, ht.constants, ⟨l, hl, hrecorded'⟩, ht.undefined, ht.defined,
    fun y hy => ht.bound y ((hmem y).1 hy)⟩

/-- Binding a class that is defined. -/
theorem Tracks.bindClass (ht : P.Tracks source s env) {name : String}
    (hx : hashName name ∈ s.defined) (t : Thread) :
    ∃ env', Load.bindClass name (hashName name) ⟨env, t⟩ = .ok true ⟨env', t⟩ ∧
      P.Tracks source (s.bind (hashName name)) env' ∧ env.heap.Retains env'.heap := by
  obtain ⟨l, hl, hrecorded⟩ := ht.records
  obtain ⟨c, k, hclass, hk, hkind, hc⟩ := ht.classByHash? hx
  by_cases hbound : hashName name ∈ l.boundClasses
  · exact ⟨env, Load.bindClass_of_mem (m := ⟨env, t⟩) hl hbound,
      ht.rebind ((hrecorded.bound _).1 hbound), .refl _⟩
  · have hstandard : env.isStandardClass name = false := by
      unfold Environment.isStandardClass Environment.constant?
      rw [ht.constants]
      rfl
    obtain ⟨env', hrun, hr, hglobals, hconstants, hclasses, hloader⟩ :=
      Load.bindClass_of_class (m := ⟨env, t⟩) hl hbound hclass hk hstandard
    have hglobal : ∀ y, env'.globals.get? y = env.globals.get? y := fun y =>
      congrArg (·.get? y) hglobals
    refine ⟨env', hrun, ⟨ht.order, hr.slotted ht.slotted, hconstants.trans ht.constants,
      ⟨_, hloader, hrecorded.bind hkind⟩,
      fun y hy => (hglobal y).trans (ht.undefined y hy), ?_, ?_⟩,
      hr⟩
    · intro y hy
      obtain ⟨c, k, hc, hk, hkind⟩ := ht.defined y hy
      obtain ⟨k', hk', hsame⟩ := hr.class? ht.slotted hk
      exact ⟨c, k', (hglobal y).trans hc, hk', hsame.trans hkind⟩
    · intro y hy
      rw [hclasses, hglobal]
      rcases List.mem_cons.1 hy with rfl | hy
      · exact ⟨c, Array.mem_push_self, hc⟩
      · obtain ⟨d, hd, hglobal⟩ := ht.bound y hy
        exact ⟨d, Array.mem_push_of_mem c hd, hglobal⟩

/-- Binding a class that is not. -/
theorem Tracks.bindClass_of_undefined (ht : P.Tracks source s env) {name : String}
    (hx : hashName name ∉ s.defined) (t : Thread) :
    ∃ m', Load.bindClass name (hashName name) ⟨env, t⟩ = .ok false m' := by
  obtain ⟨l, hl, hrecorded⟩ := ht.records
  have hnew : hashName name ∉ l.boundClasses := fun h => ht.not_bound hx ((hrecorded.bound _).1 h)
  have hnone : env.classByHash? (hashName name) = none := by
    unfold Environment.classByHash?
    rw [ht.undefined _ hx]
    rfl
  exact ⟨_, Load.bindClass_of_none (m := ⟨env, t⟩) hl hnew hnone⟩

end Project

/-! ### Following the order of imports -/

/-- An execution matches a computation that may fail: it comes to a machine as the result says, or
it fails. -/
def Machine.Matches {σ : Type} (m : Machine) (o : Option σ) (Q : σ → Machine → Prop) : Prop :=
  match o with
  | some s => ∃ m', m.Proceeds m' ∧ Q s m'
  | none => ∃ f m', EndsIn Exec.execute m (.error (.error f) m')

/-- The loading of a class matches such a computation: it succeeds, with the thread as it was, or it
does not. -/
def Load.Matches {σ : Type} (x : Nat → Load Bool) (m : Machine) (o : Option σ)
    (Q : σ → Environment → Prop) : Prop :=
  match o with
  | some s => ∃ env state, EndsIn x m (.ok true ⟨env, { m.thread with state }⟩) ∧ Q s env
  | none => ∃ r, EndsIn x m r ∧ Load.Refused r

namespace Machine

variable {σ τ : Type} {m m' : Machine} {o : Option σ} {k : σ → Option τ} {Q : σ → Machine → Prop}
  {R : τ → Machine → Prop}

theorem matches_some {s : σ} (h : Q s m) : m.Matches (some s) Q := ⟨m, .refl m, h⟩

theorem Proceeds.matches (h : m.Proceeds m') (h' : m'.Matches o Q) : m.Matches o Q := by
  cases o with
  | some s =>
    obtain ⟨m'', hgoes, hq⟩ := h'
    exact ⟨m'', h.trans hgoes, hq⟩
  | none =>
    obtain ⟨f, m'', hend⟩ := h'
    exact ⟨f, m'', h.endsIn hend⟩

theorem Matches.bind (h : m.Matches o Q) (hk : ∀ s m', o = some s → Q s m' → m'.Matches (k s) R) :
    m.Matches (o.bind k) R := by
  cases o with
  | some s =>
    obtain ⟨m', hgoes, hq⟩ := h
    exact hgoes.matches (hk s m' rfl hq)
  | none => exact h

theorem Matches.mono {R : σ → Machine → Prop} (h : m.Matches o Q) (hr : ∀ s m', Q s m' → R s m') :
    m.Matches o R := by
  cases o with
  | some s =>
    obtain ⟨m', hgoes, hq⟩ := h
    exact ⟨m', hgoes, hr s m' hq⟩
  | none => exact h

end Machine

namespace Project

open Machine Exec

variable {P : Project} {source : Source} {s s' : Progress UInt32} {t : Thread} {n : Nat}

/-- There is room for the files that are yet to be fetched above some more calls and values, and no
debugger. -/
structure Roomy (P : Project) (s : Progress UInt32) (t : Thread) (calls values : Nat) : Prop where
  frames : t.frames.size + calls + (P.graph.unfetched s).card ≤ Thread.maxFrames
  stack : t.stack.size + values + 2 * (P.graph.unfetched s).card ≤ Thread.maxStack
  debugger : t.debug.debugger = none

theorem Roomy.mono {calls values : Nat} (hroom : P.Roomy s t calls values) (h : s.Grows s') :
    P.Roomy s' t calls values := by
  have hcard := ImportGraph.card_unfetched_mono (g := P.graph) h
  obtain ⟨hframes, hstack, hdebug⟩ := hroom
  exact ⟨by omega, by omega, hdebug⟩

/-- With enough fuel, loading a class does what visiting it with `n` files does. -/
def Simulates (P : Project) (source : Source) (n : Nat) : Prop :=
  ∀ s name env t, name ≠ "" → hashName name ∈ P.classes → P.Tracks source s env →
    P.Roomy s t 0 0 → (P.graph.unfetched s).card < n →
      Load.Matches (fun fuel => Load.loadClass (execute fuel) name) ⟨env, t⟩
        (P.graph.visit n s (hashName name))
        fun s' env' => P.Tracks source s' env' ∧ env.heap.Retains env'.heap

/-- A machine performs the rest of a class file, and its environment shows the progress. -/
structure At (P : Project) (source : Source) (t : Thread) (p : Prototype) (values : Array Value)
    (left : List Instruction) (s : Progress UInt32) (m : Machine) : Prop where
  performing : m.Performing t p values left
  tracks : P.Tracks source s m.env

theorem Roomy.within {p : Prototype} {values : Array Value} {left : List Instruction} {m : Machine}
    (hroom : P.Roomy s t 1 values.size) (hm : m.Performing t p values left) :
    P.Roomy s m.thread 0 0 := by
  obtain ⟨f, state, hf, -⟩ := hm
  rw [hf]
  refine ⟨?_, ?_, hroom.debugger⟩
  · show (t.frames.push f).size + 0 + _ ≤ _
    rw [Array.size_push]
    exact hroom.frames
  · show (t.stack ++ values).size + 0 + _ ≤ _
    rw [Array.size_append]
    exact hroom.stack

/-- Imports are carried out as the classes are visited. -/
theorem Simulates.imports (hsim : P.Simulates source n) {p : Prototype} {values : Array Value}
    {left is : List Instruction} {names : List String} (himports : List.Forall₂ p.Imports is names)
    (hnames : ∀ name ∈ names, name ≠ "" ∧ hashName name ∈ P.classes)
    (hcode : p.chunk.code.size ≤ Code.maxSize) {m : Machine}
    (hm : P.At source t p values (is ++ left) s m) (hroom : P.Roomy s t 1 values.size)
    (hn : (P.graph.unfetched s).card < n) :
    m.Matches (P.graph.visitAll n s (names.map hashName)) fun s' m' =>
      P.At source t p values left s' m' ∧ m.env.heap.Retains m'.env.heap := by
  induction himports generalizing m s with
  | nil => exact matches_some ⟨hm, .refl _⟩
  | @cons i name is names hi _ ih =>
    obtain ⟨m₁, hm₁, hr₁, hstep⟩ := hm.performing.next hcode hroom.debugger
    obtain ⟨hne, hmem⟩ := hnames name List.mem_cons_self
    have hload := hsim s name m₁.env m₁.thread hne hmem (hm.tracks.retains hr₁)
      (hroom.within hm₁) hn
    rw [List.map_cons, ImportGraph.visitAll_cons]
    cases hvisit : P.graph.visit n s (hashName name) with
    | none =>
      rw [hvisit] at hload
      obtain ⟨r, hend, hrefused⟩ := hload
      obtain ⟨f, m', hfails⟩ := endsIn_import_of_refused hm₁ hi hend hrefused
      exact ⟨f, m', endsIn_of_perform hstep hfails⟩
    | some s₁ =>
      rw [hvisit] at hload
      obtain ⟨env, state, hend, ht, hr⟩ := hload
      have hs₁ := hr₁.heap.slotted hm.tracks.slotted
      have hgrows := (ImportGraph.extends_of_visit hvisit).1.toGrows
      have hcard := ImportGraph.card_unfetched_mono (g := P.graph) hgrows
      refine (proceeds_of_perform hstep (endsIn_import hm₁ hi hend)).matches ?_
      refine (ih (m := ⟨env, { m₁.thread with state }⟩)
        (fun other hother => hnames other (List.mem_cons_of_mem name hother))
        ⟨hm₁.mono rfl hs₁ hr, ht⟩ (hroom.mono hgrows) (by omega)).mono fun s' m' h => ⟨h.1, ?_⟩
      exact (hr₁.heap.trans hr).trans h.2

theorem Roomy.less {calls values values' : Nat} (hroom : P.Roomy s t calls values)
    (h : values' ≤ values) : P.Roomy s t calls values' :=
  ⟨hroom.frames, by have := hroom.stack; omega, hroom.debugger⟩

/-- A class file is performed as the class is visited: its imports, the class and its definition. -/
theorem Simulates.script (hsim : P.Simulates source n) (hP : P.LiesIn source) {x : UInt32}
    (hx : x ∈ P.classes) {p : Prototype} {callee : Value}
    {before between after ending : List Instruction}
    (hbefore : List.Forall₂ p.Imports before (P.script x).before)
    (hbetween : List.Forall₂ p.Imports between (P.script x).between)
    (hafter : List.Forall₂ p.Imports after (P.script x).after)
    (hcode : p.chunk.code.size ≤ Code.maxSize) {m : Machine}
    (hm : P.At source t p #[callee] (before ++ .newClass x (P.script x).kind ::
      (between ++ .defineGlobal x :: (after ++ ending))) s m)
    (hpending : s.Pending x) (hroom : P.Roomy s t 1 2) (hn : (P.graph.unfetched s).card < n) :
    m.Matches ((P.graph.visitAll n s (P.graph.early x)).bind fun s₁ =>
        P.graph.visitAll n (s₁.define x) (P.graph.late x))
      fun s' m' => P.At source t p #[callee] ending s' m' ∧ m.env.heap.Retains m'.env.heap := by
  have hearly : P.graph.early x =
      (P.script x).before.map hashName ++ (P.script x).between.map hashName := List.map_append
  have hnames := hP.imports x hx
  unfold ClassScript.imports at hnames
  rw [hearly, ImportGraph.visitAll_append, Option.bind_assoc]
  refine (hsim.imports hbefore (fun name h => hnames name (by simp [h])) hcode hm
    (hroom.less (by simp)) hn).bind fun s₁ m₁ hs₁ ⟨hm₁, hr₁⟩ => ?_
  have hextends₁ := ImportGraph.extends_of_visitAll hs₁
  -- the class is made
  obtain ⟨m₂, hm₂, hr₂, hstep₁⟩ := hm₁.performing.next hcode hroom.debugger
  have ht₂ := hm₁.tracks.retains hr₂
  obtain ⟨m₃, c, k, hnew, hm₃, hr₃, hk, hkind⟩ := hm₂.newClass ht₂.slotted
    (by have := hroom.stack; simp; omega) x (P.script x).kind
  have ht₃ := ht₂.retains hr₃
  have hcard₁ := ImportGraph.card_unfetched_mono (g := P.graph) hextends₁.toGrows
  refine (proceeds_of_perform hstep₁ (endsIn_of_eq fun _ => hnew _)).matches ?_
  refine (hsim.imports hbetween (fun name h => hnames name (by simp [h])) hcode ⟨hm₃, ht₃⟩
    (hroom.mono hextends₁.toGrows) (by omega)).bind fun s₂ m₄ hs₂ ⟨hm₄, hr₄⟩ => ?_
  have hextends₂ := hextends₁.trans (ImportGraph.extends_of_visitAll hs₂)
  -- it becomes a global
  obtain ⟨m₅, hm₅, hr₅, hstep₂⟩ := hm₄.performing.next hcode hroom.debugger
  have ht₅ := hm₄.tracks.retains hr₅
  have hpending₂ := hextends₂.pending x hpending
  obtain ⟨m₆, hdefine, hm₆, henv⟩ := hm₅.defineGlobal ht₅.slotted (ht₅.undefined x hpending₂.2)
    (by rw [ht₅.constants]; rfl)
  obtain ⟨k', hk', hkind'⟩ := (hr₄.trans hr₅.heap).class? ht₃.slotted hk
  have ht₆ := ht₅.define hpending₂ hk' (hkind'.trans hkind)
  rw [← henv] at ht₆
  have hgrows₂ := hextends₂.toGrows.trans (s₂.grows_define x)
  have hcard₂ := ImportGraph.card_unfetched_mono (g := P.graph) hgrows₂
  refine (proceeds_of_perform hstep₂ (endsIn_of_eq fun _ => hdefine _)).matches ?_
  refine (hsim.imports hafter (fun name h => hnames name (by simp [h])) hcode ⟨hm₆, ht₆⟩
    ((hroom.less (by simp)).mono hgrows₂) (by omega)).mono fun s' m' ⟨hm', hr'⟩ => ⟨hm', ?_⟩
  have hr₆ : m₅.env.heap.Retains m₆.env.heap := by
    rw [henv]
    exact .refl _
  exact (((((hr₁.trans hr₂.heap).trans hr₃.heap).trans hr₄).trans hr₅.heap).trans hr₆).trans hr'

/-- Loading a class follows its visit in the graph and ends as that does, for any number of files
that may run within each other. The induction is on that number. -/
theorem LiesIn.simulates (hP : P.LiesIn source) (n : Nat) : P.Simulates source n := by
  induction n with
  | zero => exact fun _ _ _ _ _ _ _ _ hn => absurd hn (Nat.not_lt_zero _)
  | succ n ih =>
    intro s name env t hne hx ht hroom hn
    obtain ⟨l, hl, hrecorded⟩ := ht.records
    have hfiles : l.source.classMap.files? (hashName name) = some [P.file (hashName name)] := by
      rw [hrecorded.classMap]
      exact hP.files _ hx
    have hmem := hrecorded.fetched (hashName name) hx
    by_cases hfetched : hashName name ∈ s.fetched
    · have hload := Load.loadClass_of_fetched (m := ⟨env, t⟩) hne hl hfiles (hmem.2 hfetched)
      by_cases hdefined : hashName name ∈ s.defined
      · obtain ⟨env', hbind, ht', hr⟩ := ht.bindClass hdefined t
        rw [ImportGraph.visit_of_defined hfetched hdefined]
        exact ⟨env', t.state, endsIn_of_eq fun fuel => (hload _).trans hbind, ht', hr⟩
      · obtain ⟨m', hbind⟩ := ht.bindClass_of_undefined hdefined t
        rw [ImportGraph.visit_of_pending ⟨hfetched, hdefined⟩]
        exact ⟨_, endsIn_of_eq fun fuel => (hload _).trans hbind, .denied m'⟩
    · obtain ⟨bytes, c, p, rest, hbytes, hd, hc, harity, before, between, after, ending, hbefore,
        hbetween, hafter, hending, hspells⟩ := hP.scripts _ hx
      obtain ⟨log, hload⟩ := Load.loadClass_of_new (m := ⟨env, t⟩) hne hl hfiles
        (fun h => hfetched (hmem.1 h)) (hrecorded.gives _ _ hbytes)
      have ht₁ := ht.fetch hP hx hl log
      have hcard := ImportGraph.card_unfetched_fetch (g := P.graph) hx hfetched
      have hframes := hroom.frames
      have hstack := hroom.stack
      have hcode : p.chunk.code.size ≤ Code.maxSize :=
        Container.size_code_le hd (by rw [hc]; exact List.mem_cons_self)
      obtain ⟨m₁, callee, hm₁, hr₁, hends, hfails⟩ := Load.runFile_begins
        (t := t) hd hc harity hspells ht₁.slotted (by omega) (by omega) (P.file (hashName name))
      have hpending : (s.fetch (hashName name)).Pending (hashName name) :=
        ⟨List.mem_cons_self, fun h => hfetched (ht.order h)⟩
      have hmatches := ih.script hP hx hbefore hbetween hafter hcode ⟨hm₁, ht₁.retains hr₁⟩ hpending
        ⟨by omega, by omega, hroom.debugger⟩ (by omega)
      rw [ImportGraph.visit_of_fresh hfetched, ← Option.bind_assoc]
      cases hvisit :
          (P.graph.visitAll n (s.fetch (hashName name)) (P.graph.early (hashName name))).bind
          fun s₁ =>
            P.graph.visitAll n (s₁.define (hashName name)) (P.graph.late (hashName name)) with
      | none =>
        rw [hvisit] at hmatches
        obtain ⟨f, m', hend⟩ := hmatches
        obtain ⟨e, m'', n, hfile⟩ := hfails f m' hend
        exact ⟨_, ⟨n, fun fuel hfuel => (hload _).trans (bind_of_error (hfile fuel hfuel))⟩,
          .failed e m''⟩
      | some s₂ =>
        rw [hvisit] at hmatches
        obtain ⟨m₂, hgoes, ⟨hm₂, ht₂⟩, hr₂⟩ := hmatches
        obtain ⟨env₃, v, state, hr₃, hend⟩ :=
          hm₂.ends hending ht₂.slotted hcode hroom.debugger (by omega)
        obtain ⟨state', n, hfile⟩ := hends env₃ v state (hgoes.endsIn hend)
        obtain ⟨s₁, -, hlate⟩ := Option.bind_eq_some_iff.1 hvisit
        have hdefined := (ImportGraph.extends_of_visitAll hlate).defined List.mem_cons_self
        obtain ⟨env', hbind, ht', hr'⟩ :=
          (ht₂.retains hr₃).bindClass hdefined { t with state := state' }
        refine ⟨env', state', ⟨n, fun fuel hfuel => (hload _).trans ?_⟩, ht', ?_⟩
        · exact (bind_of_ok (hfile fuel hfuel)).trans hbind
        · exact ((hr₁.heap.trans hr₂).trans hr₃.heap).trans hr'

end Project

end ScriptVm
