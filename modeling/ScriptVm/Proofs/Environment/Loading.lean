import ScriptVm.Machine.Entity
import ScriptVm.Machine.Load
import ScriptVm.Proofs.Environment.Evolution

/-!
# Loading and entities

The operations that bring scripts and native objects into an environment keep it good.

* `Yields` says what all results of a decoder have in common; the code of a function read from a
  container is shorter than 2³¹ bytes.
* `evolves_loadModule` is the loading of a container, `evolves_bindMembers` the binding of a class.
* `evolves_newEntity`, `evolves_unlink`, `evolves_callable` are about entities.
-/

namespace ScriptVm

namespace Decoder

variable {α β : Type} {P : α → Prop} {Q : β → Prop}

/-- All that a decoder gives satisfies `P`. -/
def Yields (d : Decoder α) (P : α → Prop) : Prop := ∀ c a c', d c = .ok (a, c') → P a

theorem yields_any (d : Decoder α) : d.Yields fun _ => True := fun _ _ _ _ => trivial

theorem yields_pure {a : α} (ha : P a) : Yields (pure a) P := by
  intro c b c' hb
  cases hb
  exact ha

theorem yields_fail (e : FormatError) : Yields (fail e) P := by
  intro c a c' ha
  cases ha

theorem yields_bind {d : Decoder α} {f : α → Decoder β} (hd : d.Yields P)
    (hf : ∀ a, P a → (f a).Yields Q) : (d >>= f).Yields Q := by
  intro c b c' hb
  cases hrun : d c with
  | error e =>
    simp only [bind, StateT.bind, hrun, Except.bind] at hb
    cases hb
  | ok r =>
    simp only [bind, StateT.bind, hrun, Except.bind] at hb
    exact hf r.1 (hd c r.1 r.2 hrun) r.2 b c' hb

theorem length_split {n : Nat} {taken rest bytes rest' : List UInt8}
    (hs : split n taken rest = some (bytes, rest')) : bytes.length = taken.length + n := by
  induction n generalizing taken rest with
  | zero =>
    simp only [split, Option.some.injEq, Prod.mk.injEq] at hs
    rw [← hs.1, List.length_reverse]
    rfl
  | succ n ih =>
    cases rest with
    | nil => cases hs
    | cons b rest =>
      rw [ih hs, List.length_cons]
      omega

theorem yields_take (n : Nat) : (take n).Yields fun bytes => bytes.length = n := by
  intro c bytes c' hb
  unfold take at hb
  split at hb
  · rename_i taken rest hs
    cases hb
    simpa using length_split hs
  · cases hb

theorem yields_count (what : Counted) : (count what).Yields fun n => n < 2147483648 := by
  refine yields_bind (yields_any signedWord) fun n _ => ?_
  split
  · exact yields_fail _
  · refine yields_pure ?_
    have := n.toInt_lt
    omega

theorem yields_times {d : Decoder α} (hd : d.Yields P) (n : Nat) :
    (times n d).Yields fun found => ∀ a ∈ found.toList, P a := by
  have hfrom : ∀ (found : Array α), (∀ a ∈ found.toList, P a) →
      (timesFrom d n found).Yields fun found => ∀ a ∈ found.toList, P a := by
    induction n with
    | zero => exact fun found hf => yields_pure hf
    | succ n ih =>
      intro found hf c result c' hr
      cases hrun : d c with
      | error e =>
        simp only [timesFrom, hrun] at hr
        cases hr
      | ok r =>
        simp only [timesFrom, hrun] at hr
        exact ih (found.push r.1) (forall_mem_push hf (hd c _ _ hrun)) r.2 result c' hr
  exact hfrom #[] (by simp)

end Decoder

namespace Container

open Decoder

theorem yields_decodeFunction (debugInfo : Bool) :
    (decodeFunction debugInfo).Yields fun p => p.chunk.code.size < 2147483648 := by
  refine yields_bind (yields_count .instructions) fun length hlength => ?_
  refine yields_bind (yields_any _) fun arity _ => ?_
  refine yields_bind (yields_any _) fun nameHash _ => ?_
  refine yields_bind (yields_take length) fun code hcode => ?_
  have hsize : code.toArray.size < 2147483648 := by
    rw [List.size_toArray, hcode]
    exact hlength
  dsimp only
  split
  all_goals
    refine yields_bind (yields_any _) fun lines _ => ?_
    refine yields_bind (yields_any _) fun constantCount _ => ?_
    exact yields_bind (yields_any _) fun constants _ => yields_pure hsize

theorem yields_decoder :
    decoder.Yields fun c => ∀ p ∈ c.functions, p.chunk.code.size < 2147483648 := by
  refine yields_bind (yields_any _) fun header _ => ?_
  refine yields_bind (yields_any _) fun functionCount _ => ?_
  dsimp only
  split
  · exact yields_bind (yields_fail _) fun _ hfalse => absurd hfalse id
  · refine yields_bind (yields_times (yields_decodeFunction _) functionCount)
      fun functions hfunctions => ?_
    split
    · refine yields_bind (yields_any _) fun tokenCount _ => ?_
      refine yields_bind (yields_any _) fun tokens _ => ?_
      split <;> exact yields_bind (yields_any _) fun sourceFilename _ => yields_pure hfunctions
    · refine yields_bind (yields_any _) fun tokens _ => ?_
      split <;> exact yields_bind (yields_any _) fun sourceFilename _ => yields_pure hfunctions

/-- The code of a function read from a file is shorter than 2³¹ bytes. -/
theorem size_code_of_decode {bytes : List UInt8} {c : Container} (hd : decode bytes = .ok c) :
    ∀ p ∈ c.functions, p.chunk.code.size < 2147483648 := by
  unfold decode Decoder.run at hd
  split at hd
  · rename_i found rest hrun
    cases hd
    exact yields_decoder _ _ _ hrun
  · cases hd

theorem size_code_le {bytes : List UInt8} {c : Container} (hd : decode bytes = .ok c)
    {p : Prototype} (hp : p ∈ c.functions) : p.chunk.code.size ≤ Code.maxSize := by
  have := size_code_of_decode hd p hp
  unfold Code.maxSize
  omega

end Container

namespace Contract
namespace GoodEnvironment

variable {c : Contract} {env env' : Environment} {h source module : Handle}

/-! ### Modules -/

theorem evolves_loadConstant (hg : c.GoodEnvironment env) (k : Constant) :
    ∃ v env', env.loadConstant k = (v, env') ∧ c.Evolves env env' ∧ c.Good env'.heap v := by
  cases k with
  | integer n => exact ⟨_, _, rfl, hg.evolves, good_integer n⟩
  | decimal d => exact ⟨_, _, rfl, hg.evolves, good_of_object?_eq_none rfl⟩
  | string s =>
    obtain ⟨h, env', halloc, hev, hfinds⟩ := hg.evolves_alloc (goodObject_string s)
    exact ⟨.object h, env', by simp only [Environment.loadConstant, Environment.newString, halloc],
      hev, good_object.2 hfinds⟩

theorem evolves_loadConstants (ks : List Constant) (loaded : Array Value)
    (hg : c.GoodEnvironment env) (hl : ∀ v ∈ loaded.toList, c.Good env.heap v) :
    ∃ vs env', Environment.loadConstants ks loaded env = (vs, env') ∧ c.Evolves env env' ∧
      ∀ v ∈ vs.toList, c.Good env'.heap v := by
  induction ks generalizing loaded env with
  | nil => exact ⟨_, _, rfl, hg.evolves, hl⟩
  | cons k rest ih =>
    obtain ⟨v, env₁, hk, hev, hv⟩ := hg.evolves_loadConstant k
    have hpushed : ∀ w ∈ (loaded.push v).toList, c.Good env₁.heap w :=
      forall_mem_push (fun w hw => (hl w hw).mono hev.grows) hv
    obtain ⟨vs, env', hrest, hev', hvs⟩ := ih (loaded.push v) hev.good hpushed
    exact ⟨vs, env', by simp only [Environment.loadConstants, hk, hrest], hev.trans hev', hvs⟩

theorem evolves_loadFunction (hg : c.GoodEnvironment env) (index : Nat) {p : Prototype}
    (hs : c.Finds env.heap source) (hm : c.Finds env.heap module)
    (hcode : p.chunk.code.size ≤ Code.maxSize) :
    ∃ h env', env.loadFunction source module index p = (h, env') ∧ c.Evolves env env' ∧
      c.Finds env'.heap h := by
  obtain ⟨constants, env₁, hload, hev₁, hvalues⟩ :=
    evolves_loadConstants p.chunk.constants.toList #[] hg (by simp)
  obtain ⟨name, env₂, hname, hev₂, hnfinds⟩ := hev₁.good.evolves_alloc
    (goodObject_string (Container.functionTitle env₁.tokens index p.nameHash))
  have hgrows := hev₁.grows.trans hev₂.grows
  have hfunction : c.GoodObject env₂.heap (.function
      { FunctionObject.ofCode p.arity p.nameHash p.chunk.code with
        name := some name, sourceFilename := some source, module := some module
        lines := p.chunk.lines, constants }) :=
    goodObject_function.2 ⟨by simpa using hnfinds, by simp [FunctionObject.ofCode],
      by simpa using hs.mono hgrows, by simpa using hm.mono hgrows,
      fun v hv => (hvalues v hv).mono hev₂.grows, fun _ => hcode⟩
  obtain ⟨h, env', hplaced, hev', hfound⟩ := hev₂.good.evolves_alloc hfunction
  refine ⟨h, env', ?_, hev₁.trans (hev₂.trans hev'), hfound⟩
  simp only [Environment.loadFunction, Environment.newString, hload, hname, hplaced]

theorem evolves_loadFunctions (index : Nat) (ps : List Prototype) (loaded : Array Handle)
    (hg : c.GoodEnvironment env) (hs : c.Finds env.heap source) (hm : c.Finds env.heap module)
    (hcode : ∀ p ∈ ps, p.chunk.code.size ≤ Code.maxSize)
    (hl : ∀ h ∈ loaded.toList, c.Finds env.heap h) :
    ∃ fs env', Environment.loadFunctions source module index ps loaded env = (fs, env') ∧
      c.Evolves env env' ∧ ∀ h ∈ fs.toList, c.Finds env'.heap h := by
  induction ps generalizing index loaded env with
  | nil => exact ⟨_, _, rfl, hg.evolves, hl⟩
  | cons p rest ih =>
    obtain ⟨f, env₁, hf, hev, hfound⟩ :=
      hg.evolves_loadFunction index hs hm (hcode p List.mem_cons_self)
    have hpushed : ∀ h ∈ (loaded.push f).toList, c.Finds env₁.heap h :=
      forall_mem_push (fun h hh => (hl h hh).mono hev.grows) hfound
    obtain ⟨fs, env', hrest, hev', hfs⟩ := ih (index + 1) (loaded.push f) hev.good
      (hs.mono hev.grows) (hm.mono hev.grows)
      (fun q hq => hcode q (List.mem_cons_of_mem p hq)) hpushed
    exact ⟨fs, env', by simp only [Environment.loadFunctions, hf, hrest], hev.trans hev', hfs⟩

theorem evolves_addTokens (names : List String) (hg : c.GoodEnvironment env) :
    c.Evolves env (names.foldl (fun env name => (env.addToken name).2) env) := by
  induction names generalizing env with
  | nil => exact hg.evolves
  | cons name rest ih =>
    have htoken := hg.evolves_addToken name
    exact htoken.trans (ih htoken.good)

/-- The lists of what is loaded may take in what is found. -/
theorem evolves_loaded (hg : c.GoodEnvironment env) {functions : Array Handle}
    (hf : ∀ h ∈ functions.toList, c.Finds env.heap h) (hm : c.Finds env.heap module) :
    c.Evolves env
      { env with functions := env.functions ++ functions, modules := env.modules.push module } := by
  refine ⟨⟨hg.heap, hg.globals, hg.constants, forall_mem_push hg.modules hm, ?_, hg.classes,
    hg.entityBase, hg.extraRoots, hg.natives⟩, .refl c _⟩
  rw [Array.toList_append]
  exact List.forall_mem_append.2 ⟨hg.functions, hf⟩

theorem evolves_loadModule (hg : c.GoodEnvironment env) {k : Container} (file : UInt32)
    (hcode : ∀ p ∈ k.functions, p.chunk.code.size ≤ Code.maxSize) :
    ∃ h env', env.loadModule k file = (h, env') ∧ c.Evolves env env' ∧ c.Finds env'.heap h := by
  have htokens := evolves_addTokens k.tokens hg
  obtain ⟨source, env₁, hsource, hev₁, hsfinds⟩ := htokens.good.evolves_alloc
    (goodObject_string (k.sourceFilename.getD (Text.hexWord file)))
  obtain ⟨module, env₂, hmodule, hev₂, hmfinds⟩ := hev₁.good.evolves_alloc
    (goodObject_module.2 ⟨by simp, by simp, by simpa using hsfinds⟩ :
      c.GoodObject env₁.heap (.module ⟨#[], #[], some source⟩))
  obtain ⟨functions, env₃, hfunctions, hev₃, hffinds⟩ := evolves_loadFunctions 0 k.functions #[]
    hev₂.good (hsfinds.mono hev₂.grows) hmfinds hcode (by simp)
  -- functions refer to their module, so the module is placed first and gets them afterwards
  have hev₄ : c.Evolves env₃
      (env₃.mapHeap (·.modifyModule module fun m => { m with functions })) := by
    refine hev₃.good.evolves_modifyModule module fun m hm => ?_
    exact goodObject_module.2 ⟨hffinds, (goodObject_module.1 hm).2⟩
  have hev₅ := hev₄.good.evolves_loaded (fun h hh => (hffinds h hh).mono hev₄.grows)
    ((hmfinds.mono hev₃.grows).mono hev₄.grows)
  have hev₆ := hev₅.good.evolves_report .trace fun _ =>
    "Loaded module " ++ Text.hexWord file ++ s!" with {k.functions.length} functions"
  refine ⟨module, _, ?_,
    htokens.trans (hev₁.trans (hev₂.trans (hev₃.trans (hev₄.trans (hev₅.trans hev₆))))),
    (((hmfinds.mono hev₃.grows).mono hev₄.grows).mono hev₅.grows).mono hev₆.grows⟩
  simp only [Environment.loadModule, Environment.newString, hsource, hmodule, hfunctions]

theorem evolves_readModule (hg : c.GoodEnvironment env) {bytes : List UInt8} {file : UInt32}
    (hr : env.readModule bytes file = .ok (h, env')) :
    c.Evolves env env' ∧ c.Finds env'.heap h := by
  unfold Environment.readModule at hr
  cases hd : Container.decode bytes with
  | error e =>
    rw [hd] at hr
    cases hr
  | ok k =>
    rw [hd] at hr
    obtain ⟨m, env₁, hload, hev, hfinds⟩ :=
      hg.evolves_loadModule file fun p hp => Container.size_code_le hd hp
    simp only [Except.map, hload] at hr
    cases hr
    exact ⟨hev, hfinds⟩

theorem finds_entryFunction (hg : c.GoodEnvironment env) (hh : env.entryFunction? module = some h) :
    c.Finds env.heap h := by
  obtain ⟨m, hm, hf⟩ := Option.bind_eq_some_iff.1 hh
  have hobject := hg.heap.objects module _ (Heap.module?_eq_some.1 hm)
  refine (goodObject_module.1 hobject).1 h ?_
  exact Array.mem_toList_iff.2 (Array.mem_of_getElem? hf)

/-! ### Binding -/

theorem evolves_bindAll (members : List Member) (h : Handle) (hg : c.GoodEnvironment env) :
    c.Evolves env (members.foldl (fun env m => env.bindMember h m) env) := by
  induction members generalizing env with
  | nil => exact hg.evolves
  | cons m rest ih =>
    have hm := hg.evolves_bindMember h m
    exact hm.trans (ih hm.good)

theorem evolves_bindMembers (hg : c.GoodEnvironment env) (b : Binder) (h : Handle)
    (name : String) : c.Evolves env (Load.bindMembers env b h name) := by
  have hall := evolves_bindAll (b.members.filter (·.className == name)) h hg
  exact hall.trans (hall.good.evolves_of_eq rfl)

/-! ### Entities -/

theorem evolves_linkFields (h : Handle) (fields : List (String × Link))
    (hg : c.GoodEnvironment env) : c.Evolves env (Environment.linkFields h fields env) := by
  induction fields generalizing env with
  | nil => exact hg.evolves
  | cons f rest ih =>
    obtain ⟨name, link⟩ := f
    have htoken := hg.evolves_addToken name
    have hfield : c.Evolves (env.addToken name).2 ((env.addToken name).2.mapHeap
        (·.modifyInstance h fun i =>
          { i with fields := i.fields.insert (env.addToken name).1 link.value })) := by
      refine htoken.good.evolves_modifyInstance h fun i hi => ?_
      obtain ⟨hclass, hfields⟩ := goodObject_inst.1 hi
      exact goodObject_inst.2 ⟨hclass, good_insert hfields (good_link link)⟩
    exact htoken.trans (hfield.trans (ih hfield.good))

theorem evolves_newEntity (hg : c.GoodEnvironment env) (e : EntityId) {k : Handle}
    (hk : c.Finds env.heap k) :
    ∃ h env', env.newEntity k e = (h, env') ∧ c.Evolves env env' ∧ c.Finds env'.heap h := by
  have hinst : c.GoodObject env.heap
      (.inst { InstanceObject.ofClass k with entity := some e }) :=
    goodObject_inst.2 ⟨hk, fun v hv => absurd hv List.not_mem_nil⟩
  obtain ⟨h, env₁, halloc, hev₁, hfinds⟩ := hg.evolves_alloc hinst
  obtain ⟨env₂, hbound, hev₂⟩ : ∃ env₂, env₁.mapHeap (·.modifyClass k fun k =>
      if k.kind = .extended then k else { k with entityBound := true }) = env₂ ∧
        c.Evolves env₁ env₂ := by
    refine ⟨_, rfl, hev₁.good.evolves_modifyClass k fun k hk => ?_⟩
    split
    · exact hk
    · obtain ⟨hname, hmethods, hfields, hinit, hparent⟩ := goodObject_class.1 hk
      exact goodObject_class.2 ⟨hname, hmethods, hfields, hinit, hparent⟩
  have hev₃ := evolves_linkFields h (env₂.entityFields e) hev₂.good
  refine ⟨h, _, ?_, hev₁.trans (hev₂.trans hev₃), (hfinds.mono hev₂.grows).mono hev₃.grows⟩
  simp only [Environment.newEntity, halloc, hbound]

theorem evolves_addMissingFields (hg : c.GoodEnvironment env) (h : Handle)
    {fields : List (UInt32 × Value)} (hf : ∀ e ∈ fields, c.Good env.heap e.2) :
    c.Evolves env (Environment.addMissingFields h fields env) := by
  refine hg.evolves_modifyInstance h fun i hi => ?_
  obtain ⟨hclass, hown⟩ := goodObject_inst.1 hi
  refine goodObject_inst.2 ⟨hclass, ?_⟩
  -- one field after the other is added to a table of good values
  have hfold : ∀ (l : List (UInt32 × Value)) (t : Table Value), (∀ e ∈ l, c.Good env.heap e.2) →
      (∀ v ∈ t.values, c.Good env.heap v) →
        ∀ v ∈ (l.foldl (fun t e => t.insertNew e.1 e.2) t).values, c.Good env.heap v := by
    intro l
    induction l with
    | nil => exact fun t _ ht => ht
    | cons e rest ih =>
      intro t hl ht
      refine ih _ (fun x hx => hl x (List.mem_cons_of_mem e hx)) fun v hv => ?_
      rcases Table.mem_values_insertNew hv with rfl | hv
      · exact hl e List.mem_cons_self
      · exact ht v hv
  exact hfold fields i.fields hf hown

theorem evolves_unlink (hg : c.GoodEnvironment env) (h : Handle) :
    c.Evolves env (env.unlink h) := by
  refine hg.evolves_modifyInstance h fun i hi => ?_
  obtain ⟨hclass, hfields⟩ := goodObject_inst.1 hi
  refine goodObject_inst.2 ⟨hclass, fun v hv => ?_⟩
  obtain ⟨w, hw, rfl⟩ := Table.mem_values_mapValues hv
  exact (hfields w hw).delink _

theorem evolves_callable (hg : c.GoodEnvironment env) (h : Handle) (hash : UInt32) :
    c.Evolves env (env.callable h hash).2 ∧
      ∀ v, (env.callable h hash).1 = some v →
        c.Good (env.callable h hash).2.heap v ∧ c.Finds (env.callable h hash).2.heap h := by
  unfold Environment.callable
  split
  · exact ⟨hg.evolves, fun v hv => by cases hv⟩
  · rename_i i hi
    have hfound : c.Finds env.heap h := finds_of_get? (Heap.instance?_eq_some.1 hi)
    obtain ⟨hclass, hfields⟩ :=
      goodObject_inst.1 (hg.heap.objects h _ (Heap.instance?_eq_some.1 hi))
    split
    · rename_i field hfield
      refine ⟨hg.evolves, fun v hv => ?_⟩
      cases hv
      exact ⟨(hfields field (Table.mem_values_of_get? hfield)).delink _, hfound⟩
    · obtain ⟨hev, hmember⟩ := hg.evolves_findMember i.classHandle hash
      refine ⟨hev, fun v hv => ?_⟩
      obtain ⟨w, hw, rfl⟩ := Option.map_eq_some_iff.1 hv
      exact ⟨(hmember w hw).delink _, hfound.mono hev.grows⟩

end GoodEnvironment
end Contract
end ScriptVm
