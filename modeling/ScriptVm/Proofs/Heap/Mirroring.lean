import Mathlib.Data.List.Forall2
import ScriptVm.Debugger
import ScriptVm.Proofs.Heap.Generations

/-!
# Heaps that mirror each other

Two heaps may hold the same objects under other handles. A pairing says which handle of one stands
for which handle of the other.

* `Backdrop` is what does not change while scripts run. `Pairing` holds it as well, and pairings are
  ordered: a later one pairs more before the same backdrop.
* `Value.Mirrors`, `Table.Mirrors` and `Obj.Mirrors` say that two things are the same up to a
  pairing. `Obj.Mirrors.imp` weakens the pairing as far as the handles that the objects hold allow.
* `Heap.Mirrors` says that paired handles find objects that mirror each other, and that no handle is
  paired twice. Placing and changing objects on both sides keeps it. `Heap.Mirrors.reaches` says
  that roots reach the same objects on both sides.
* `Heap.Mirrors.collect` says that a collection on one side keeps it too, for the pairs that
  roots reach.
-/

namespace ScriptVm

/-! ### Lists in parallel -/

section Lists

variable {α β : Type} {R : α → β → Prop} {l : List α} {l' : List β}

theorem forall₂_getElem? (h : List.Forall₂ R l l') (i : Nat) : Option.Rel R l[i]? l'[i]? := by
  induction h generalizing i with
  | nil => exact .none
  | cons hab _ ih =>
    cases i with
    | zero => exact .some hab
    | succ i => exact ih i

theorem forall₂_set (h : List.Forall₂ R l l') (i : Nat) {a : α} {b : β} (hab : R a b) :
    List.Forall₂ R (l.set i a) (l'.set i b) := by
  induction h generalizing i with
  | nil => exact .nil
  | cons hhead htail ih =>
    cases i with
    | zero => exact .cons hab htail
    | succ i => exact .cons hhead (ih i)

theorem forall₂_dropLast (h : List.Forall₂ R l l') : List.Forall₂ R l.dropLast l'.dropLast := by
  rw [List.dropLast_eq_take, List.dropLast_eq_take, h.length_eq]
  exact List.forall₂_take _ h

/-- What is known of the elements may be used along the way. -/
theorem forall₂_imp_of_mem {S : α → β → Prop} (h : List.Forall₂ R l l')
    (hs : ∀ a ∈ l, ∀ b ∈ l', R a b → S a b) : List.Forall₂ S l l' := by
  induction h with
  | nil => exact .nil
  | cons hab _ ih =>
    refine .cons (hs _ List.mem_cons_self _ List.mem_cons_self hab) (ih fun a ha b hb => ?_)
    exact hs a (List.mem_cons_of_mem _ ha) b (List.mem_cons_of_mem _ hb)

theorem rel_imp_of_mem {S : α → β → Prop} {o : Option α} {o' : Option β} (h : Option.Rel R o o')
    (hs : ∀ a ∈ o.toList, ∀ b ∈ o'.toList, R a b → S a b) : Option.Rel S o o' := by
  cases h with
  | none => exact .none
  | some hab => exact .some (hs _ List.mem_cons_self _ List.mem_cons_self hab)

theorem rel_flip {S : β → α → Prop} {o : Option α} {o' : Option β} (h : Option.Rel R o o')
    (hs : ∀ a b, R a b → S b a) : Option.Rel S o' o := by
  cases h with
  | none => exact .none
  | some hab => exact .some (hs _ _ hab)

theorem isSome_eq_of_rel {o : Option α} {o' : Option β} (h : Option.Rel R o o') :
    o.isSome = o'.isSome := by
  cases h <;> rfl

theorem rel_bind {γ δ : Type} {S : γ → δ → Prop} {o : Option α} {o' : Option β}
    (h : Option.Rel R o o') {f : α → Option γ} {g : β → Option δ}
    (hfg : ∀ a b, R a b → Option.Rel S (f a) (g b)) : Option.Rel S (o.bind f) (o'.bind g) := by
  cases h with
  | none => exact .none
  | some hab => exact hfg _ _ hab

/-- Where the parts are equal, so is the whole. -/
theorem bind_eq_of_rel {γ : Type} {o : Option α} {o' : Option β} (h : Option.Rel R o o')
    {f : α → Option γ} {g : β → Option γ} (hfg : ∀ a b, R a b → f a = g b) :
    o.bind f = o'.bind g := by
  cases h with
  | none => rfl
  | some hab => exact hfg _ _ hab

theorem map_eq_of_rel {γ : Type} {o : Option α} {o' : Option β} (h : Option.Rel R o o')
    {f : α → γ} {g : β → γ} (hfg : ∀ a b, R a b → f a = g b) : o.map f = o'.map g := by
  cases h with
  | none => rfl
  | some hab => exact congrArg some (hfg _ _ hab)

end Lists

/-! ### Pairings -/

/-- What does not change while scripts run on two machines: which natives may be objects, the
generations of the slots on either side, and the debuggers. -/
structure Backdrop where
  callable : String → Prop
  generation : Nat → UInt32
  generation' : Nat → UInt32
  debug : DebugState
  debug' : DebugState

/-- Which handles of two heaps stand for each other. -/
structure Pairing extends Backdrop where
  pairs : Handle → Handle → Prop

namespace Pairing

instance : Preorder Pairing where
  le p q := (∀ h h', p.pairs h h' → q.pairs h h') ∧ q.toBackdrop = p.toBackdrop
  le_refl p := ⟨fun _ _ => id, rfl⟩
  le_trans p q r hpq hqr := ⟨fun h h' hp => hqr.1 h h' (hpq.1 h h' hp), hqr.2.trans hpq.2⟩

theorem callable_eq {p q : Pairing} (hq : p ≤ q) : q.callable = p.callable :=
  congrArg Backdrop.callable hq.2

/-- The pairing seen from the other side. -/
def swap (p : Pairing) : Pairing :=
  { callable := p.callable, generation := p.generation', generation' := p.generation
    debug := p.debug', debug' := p.debug, pairs := fun h h' => p.pairs h' h }

/-- No pairs. -/
def nothing (backdrop : Backdrop) : Pairing := ⟨backdrop, fun _ _ => False⟩

/-- The pairing with one more pair. -/
def add (p : Pairing) (h h' : Handle) : Pairing :=
  { p with pairs := fun k k' => p.pairs k k' ∨ k = h ∧ k' = h' }

theorem le_add (p : Pairing) (h h' : Handle) : p ≤ p.add h h' := ⟨fun _ _ => .inl, rfl⟩

theorem add_pairs (p : Pairing) (h h' : Handle) : (p.add h h').pairs h h' := .inr ⟨rfl, rfl⟩

end Pairing

variable {p q : Pairing}

/-! ### Values -/

/-- Two values are the same up to handles. -/
inductive Value.Mirrors (p : Pairing) : Value → Value → Prop
  | null : Mirrors p .null .null
  | integer (n : Int32) : Mirrors p (.integer n) (.integer n)
  | decimal (d : Decimal) : Mirrors p (.decimal d) (.decimal d)
  | linkedInteger (l : IntegerLink) : Mirrors p (.linkedInteger l) (.linkedInteger l)
  | linkedDecimal (l : DecimalLink) : Mirrors p (.linkedDecimal l) (.linkedDecimal l)
  | object {h h' : Handle} : p.pairs h h' → Mirrors p (.object h) (.object h')

namespace Value.Mirrors

variable {v v' w w' : Value}

theorem imp (hv : v.Mirrors p v')
    (hq : ∀ h ∈ Obj.handlesOf [v], ∀ h' ∈ Obj.handlesOf [v'], p.pairs h h' → q.pairs h h') :
    v.Mirrors q v' := by
  cases hv with
  | object hp => exact .object (hq _ List.mem_cons_self _ List.mem_cons_self hp)
  | null => exact .null
  | integer n => exact .integer n
  | decimal d => exact .decimal d
  | linkedInteger l => exact .linkedInteger l
  | linkedDecimal l => exact .linkedDecimal l

theorem mono (hv : v.Mirrors p v') (hq : p ≤ q) : v.Mirrors q v' := hv.imp fun _ _ _ _ => hq.1 _ _

theorem swap (hv : v.Mirrors p v') : v'.Mirrors p.swap v := by
  cases hv with
  | object hp => exact .object hp
  | null => exact .null
  | integer n => exact .integer n
  | decimal d => exact .decimal d
  | linkedInteger l => exact .linkedInteger l
  | linkedDecimal l => exact .linkedDecimal l

/-- A value without a handle mirrors itself. -/
theorem refl_of_plain (hv : v.object? = none) : v.Mirrors p v := by
  cases v with
  | object h => cases hv
  | null => exact .null
  | integer n => exact .integer n
  | decimal d => exact .decimal d
  | linkedInteger l => exact .linkedInteger l
  | linkedDecimal l => exact .linkedDecimal l

theorem object? (hv : v.Mirrors p v') : Option.Rel p.pairs v.object? v'.object? := by
  cases hv with
  | object hp => exact .some hp
  | _ => exact .none

theorem delink (hv : v.Mirrors p v') (cells : Cells) :
    (v.delink cells).Mirrors p (v'.delink cells) := by
  cases hv with
  | linkedInteger l => exact .integer _
  | linkedDecimal l => exact .decimal _
  | object hp => exact .object hp
  | null => exact .null
  | integer n => exact .integer n
  | decimal d => exact .decimal d

theorem integer? (hv : v.Mirrors p v') (cells : Cells) : v.integer? cells = v'.integer? cells := by
  cases hv <;> rfl

theorem decimal? (hv : v.Mirrors p v') (cells : Cells) : v.decimal? cells = v'.decimal? cells := by
  cases hv <;> rfl

theorem castInteger? (hv : v.Mirrors p v') (cells : Cells) :
    v.castInteger? cells = v'.castInteger? cells := by
  cases hv <;> rfl

theorem castDecimal? (hv : v.Mirrors p v') (cells : Cells) :
    v.castDecimal? cells = v'.castDecimal? cells := by
  cases hv <;> rfl

theorem isFalsey (hv : v.Mirrors p v') (cells : Cells) : v.isFalsey cells = v'.isFalsey cells := by
  cases hv <;> rfl

theorem isNull (hv : v.Mirrors p v') : v.isNull = v'.isNull := by cases hv <;> rfl

theorem isNumber (hv : v.Mirrors p v') : v.isNumber = v'.isNumber := by cases hv <;> rfl

theorem isDecimal (hv : v.Mirrors p v') : v.isDecimal = v'.isDecimal := by cases hv <;> rfl

theorem kindName (hv : v.Mirrors p v') : v.kindName = v'.kindName := by cases hv <;> rfl

end Value.Mirrors

theorem mem_handlesOf_of_mem {v : Value} {vs : List Value} {h : Handle} (hv : v ∈ vs)
    (hh : h ∈ Obj.handlesOf [v]) : h ∈ Obj.handlesOf vs := by
  obtain ⟨w, hw, hwh⟩ := List.mem_filterMap.1 hh
  exact List.mem_filterMap.2 ⟨w, List.mem_singleton.1 hw ▸ hv, hwh⟩

/-- Lists of values in parallel, weakened to the handles in them. -/
theorem mirrors_imp_of_handlesOf {vs vs' : List Value} (h : List.Forall₂ (Value.Mirrors p) vs vs')
    (hq : ∀ k ∈ Obj.handlesOf vs, ∀ k' ∈ Obj.handlesOf vs', p.pairs k k' → q.pairs k k') :
    List.Forall₂ (Value.Mirrors q) vs vs' :=
  forall₂_imp_of_mem h fun _ hv _ hv' hmirrors => hmirrors.imp fun k hk k' hk' =>
    hq k (mem_handlesOf_of_mem hv hk) k' (mem_handlesOf_of_mem hv' hk')

/-! ### Tables -/

namespace Table

variable {α β : Type} {R S : α → β → Prop} {t u : Table α} {t' u' : Table β} {hash : UInt32}

/-- Two tables have the same hashes in the same order, with values in relation. -/
def Mirrors (R : α → β → Prop) (t : Table α) (t' : Table β) : Prop :=
  List.Forall₂ (fun e e' => e.1 = e'.1 ∧ R e.2 e'.2) t.entries t'.entries

theorem mirrors_empty : Mirrors R (∅ : Table α) (∅ : Table β) := .nil

theorem Mirrors.values (h : Mirrors R t t') : List.Forall₂ R t.values t'.values := by
  refine List.forall₂_map_left_iff.2 (List.forall₂_map_right_iff.2 (h.imp fun _ _ he => ?_))
  exact he.2

theorem Mirrors.imp_of_mem (h : Mirrors R t t')
    (hs : ∀ a ∈ t.values, ∀ b ∈ t'.values, R a b → S a b) : Mirrors S t t' :=
  forall₂_imp_of_mem h fun _ he _ he' hee =>
    ⟨hee.1, hs _ (List.mem_map_of_mem he) _ (List.mem_map_of_mem he') hee.2⟩

theorem Mirrors.imp (h : Mirrors R t t') (hs : ∀ a b, R a b → S a b) : Mirrors S t t' :=
  h.imp_of_mem fun a _ b _ => hs a b

theorem Mirrors.swap (h : Mirrors R t t') : Mirrors (flip R) t' t :=
  List.Forall₂.flip (List.Forall₂.imp (fun _ _ he => ⟨he.1.symm, he.2⟩) h)

theorem rel_find {l : List (UInt32 × α)} {l' : List (UInt32 × β)} (hash : UInt32)
    (h : List.Forall₂ (fun e e' => e.1 = e'.1 ∧ R e.2 e'.2) l l') :
    Option.Rel R (find hash l) (find hash l') := by
  induction h with
  | nil => exact .none
  | cons he _ ih =>
    unfold find
    rw [he.1]
    split
    · exact .some he.2
    · exact ih

theorem forall₂_put {l : List (UInt32 × α)} {l' : List (UInt32 × β)} (hash : UInt32) {a : α} {b : β}
    (hab : R a b) (h : List.Forall₂ (fun e e' => e.1 = e'.1 ∧ R e.2 e'.2) l l') :
    List.Forall₂ (fun e e' => e.1 = e'.1 ∧ R e.2 e'.2) (put hash a l) (put hash b l') := by
  induction h with
  | nil => exact .cons ⟨rfl, hab⟩ .nil
  | cons he htail ih =>
    unfold put
    rw [he.1]
    split
    · exact .cons ⟨rfl, hab⟩ htail
    · exact .cons ⟨rfl, he.2⟩ ih

theorem Mirrors.get? (h : Mirrors R t t') (hash : UInt32) :
    Option.Rel R (t.get? hash) (t'.get? hash) :=
  rel_find hash h

theorem Mirrors.contains (h : Mirrors R t t') (hash : UInt32) :
    t.contains hash = t'.contains hash :=
  isSome_eq_of_rel (h.get? hash)

theorem Mirrors.insert (h : Mirrors R t t') (hash : UInt32) {a : α} {b : β} (hab : R a b) :
    Mirrors R (t.insert hash a) (t'.insert hash b) :=
  forall₂_put hash hab h

theorem Mirrors.merge (h : Mirrors R t t') (hu : Mirrors R u u') :
    Mirrors R (t.merge u) (t'.merge u') :=
  List.rel_foldl (fun _ _ ht _ _ he => he.1 ▸ ht.insert _ he.2) h hu

end Table

/-! ### Objects -/

/-- Two functions are the same up to handles. -/
structure FunctionObject.Mirrors (p : Pairing) (f f' : FunctionObject) : Prop where
  arity : f'.arity = f.arity
  minArity : f'.minArity = f.minArity
  nameHash : f'.nameHash = f.nameHash
  code : f'.code = f.code
  lines : f'.lines = f.lines
  name : Option.Rel p.pairs f.name f'.name
  className : Option.Rel p.pairs f.className f'.className
  sourceFilename : Option.Rel p.pairs f.sourceFilename f'.sourceFilename
  module : Option.Rel p.pairs f.module f'.module
  constants : List.Forall₂ (Value.Mirrors p) f.constants.toList f'.constants.toList

/-- Two classes are the same up to handles. -/
structure ClassObject.Mirrors (p : Pairing) (c c' : ClassObject) : Prop where
  hash : c'.hash = c.hash
  kind : c'.kind = c.kind
  parentHash : c'.parentHash = c.parentHash
  entityBound : c'.entityBound = c.entityBound
  name : Option.Rel p.pairs c.name c'.name
  methods : Table.Mirrors (Value.Mirrors p) c.methods c'.methods
  fields : Table.Mirrors (Value.Mirrors p) c.fields c'.fields
  initializer : Option.Rel (Value.Mirrors p) c.initializer c'.initializer
  parent : Option.Rel p.pairs c.parent c'.parent

/-- Two instances are the same up to handles. -/
structure InstanceObject.Mirrors (p : Pairing) (i i' : InstanceObject) : Prop where
  classHandle : p.pairs i.classHandle i'.classHandle
  fields : Table.Mirrors (Value.Mirrors p) i.fields i'.fields
  entity : i'.entity = i.entity

/-- Two modules are the same up to handles. -/
structure ModuleObject.Mirrors (p : Pairing) (m m' : ModuleObject) : Prop where
  functions : List.Forall₂ p.pairs m.functions.toList m'.functions.toList
  locals : List.Forall₂ (Value.Mirrors p) m.locals.toList m'.locals.toList
  sourceFilename : Option.Rel p.pairs m.sourceFilename m'.sourceFilename

/-- Two entries of maps have the same key. -/
def MapObject.Entry (p : Pairing) (e e' : String × Value) : Prop := e.1 = e'.1 ∧ e.2.Mirrors p e'.2

/-- Two objects are of the same kind, and the same up to handles. -/
inductive Obj.Mirrors (p : Pairing) : Obj → Obj → Prop
  | string (s : String) : Mirrors p (.string s) (.string s)
  | function {f f' : FunctionObject} : f.Mirrors p f' → Mirrors p (.function f) (.function f')
  | scriptClass {c c' : ClassObject} : c.Mirrors p c' → Mirrors p (.scriptClass c) (.scriptClass c')
  | inst {i i' : InstanceObject} : i.Mirrors p i' → Mirrors p (.inst i) (.inst i')
  | module {m m' : ModuleObject} : m.Mirrors p m' → Mirrors p (.module m) (.module m')
  | array {vs vs' : Array Value} : List.Forall₂ (Value.Mirrors p) vs.toList vs'.toList →
    Mirrors p (.array vs) (.array vs')
  | map {m m' : MapObject} : Table.Mirrors (MapObject.Entry p) m.entries m'.entries →
    Mirrors p (.map m) (.map m')
  | native {name : String} : p.callable name → Mirrors p (.native name) (.native name)
  | boundMethod {v v' : Value} {h h' : Handle} : v.Mirrors p v' → p.pairs h h' →
    Mirrors p (.boundMethod v h) (.boundMethod v' h')
  | upvalue {v v' : Value} : v.Mirrors p v' → Mirrors p (.upvalue v) (.upvalue v')

section Handles

variable {o o' : Obj}

theorem rel_swap {o o' : Option Handle} (h : Option.Rel p.pairs o o') :
    Option.Rel p.swap.pairs o' o :=
  rel_flip h fun _ _ => id

theorem forall₂_swap {l l' : List Handle} (h : List.Forall₂ p.pairs l l') :
    List.Forall₂ p.swap.pairs l' l :=
  List.Forall₂.flip h

theorem mirrors_swap {vs vs' : List Value} (h : List.Forall₂ (Value.Mirrors p) vs vs') :
    List.Forall₂ (Value.Mirrors p.swap) vs' vs :=
  List.Forall₂.flip (h.imp fun _ _ hv => hv.swap)

theorem Table.Mirrors.swap_values {t t' : Table Value} (h : Table.Mirrors (Value.Mirrors p) t t') :
    Table.Mirrors (Value.Mirrors p.swap) t' t :=
  h.swap.imp fun _ _ hv => Value.Mirrors.swap hv

theorem Table.Mirrors.imp_of_handlesOf {t t' : Table Value}
    (h : Table.Mirrors (Value.Mirrors p) t t')
    (hq : ∀ k ∈ Obj.handlesOf t.values, ∀ k' ∈ Obj.handlesOf t'.values, p.pairs k k' →
      q.pairs k k') :
    Table.Mirrors (Value.Mirrors q) t t' :=
  h.imp_of_mem fun _ hv _ hv' hmirrors => hmirrors.imp fun k hk k' hk' =>
    hq k (mem_handlesOf_of_mem hv hk) k' (mem_handlesOf_of_mem hv' hk')

theorem Obj.Mirrors.kind (h : o.Mirrors p o') : o.kind = o'.kind := by cases h <;> rfl

theorem rel_imp_of_handlesOf {v v' : Option Value} (h : Option.Rel (Value.Mirrors p) v v')
    (hq : ∀ k ∈ Obj.handlesOf v.toList, ∀ k' ∈ Obj.handlesOf v'.toList, p.pairs k k' →
      q.pairs k k') :
    Option.Rel (Value.Mirrors q) v v' := by
  cases h with
  | none => exact .none
  | some hv => exact .some (hv.imp hq)

/-- The pairing matters for the handles that the objects hold only. -/
theorem Obj.Mirrors.imp (h : o.Mirrors p o') (hc : q.callable = p.callable)
    (hq : ∀ k ∈ o.children, ∀ k' ∈ o'.children, p.pairs k k' → q.pairs k k') : o.Mirrors q o' := by
  cases h with
  | string s => exact .string s
  | function hf =>
    simp only [children, List.mem_append] at hq
    exact .function { hf with
      name := rel_imp_of_mem hf.name fun k hk k' hk' => hq k (by simp [hk]) k' (by simp [hk'])
      className := rel_imp_of_mem hf.className fun k hk k' hk' =>
        hq k (by simp [hk]) k' (by simp [hk'])
      sourceFilename := rel_imp_of_mem hf.sourceFilename fun k hk k' hk' =>
        hq k (by simp [hk]) k' (by simp [hk'])
      module := rel_imp_of_mem hf.module fun k hk k' hk' => hq k (by simp [hk]) k' (by simp [hk'])
      constants := mirrors_imp_of_handlesOf hf.constants fun k hk k' hk' =>
        hq k (by simp [hk]) k' (by simp [hk']) }
  | scriptClass hk =>
    simp only [children, List.mem_append] at hq
    exact .scriptClass { hk with
      name := rel_imp_of_mem hk.name fun k hk k' hk' => hq k (by simp [hk]) k' (by simp [hk'])
      methods := hk.methods.imp_of_handlesOf fun k hk k' hk' =>
        hq k (by simp [hk]) k' (by simp [hk'])
      fields := hk.fields.imp_of_handlesOf fun k hk k' hk' => hq k (by simp [hk]) k' (by simp [hk'])
      initializer := rel_imp_of_handlesOf hk.initializer fun k hk k' hk' =>
        hq k (by simp [hk]) k' (by simp [hk'])
      parent := rel_imp_of_mem hk.parent fun k hk k' hk' => hq k (by simp [hk]) k' (by simp [hk']) }
  | inst hi =>
    refine .inst { hi with
      classHandle := hq _ List.mem_cons_self _ List.mem_cons_self hi.classHandle
      fields := hi.fields.imp_of_handlesOf fun k hk k' hk' => ?_ }
    exact hq k (List.mem_cons_of_mem _ hk) k' (List.mem_cons_of_mem _ hk')
  | module hm =>
    simp only [children, List.mem_append] at hq
    exact .module
      { functions := forall₂_imp_of_mem hm.functions fun k hk k' hk' =>
          hq k (.inl (.inl hk)) k' (.inl (.inl hk'))
        locals := mirrors_imp_of_handlesOf hm.locals fun k hk k' hk' =>
          hq k (.inl (.inr hk)) k' (.inl (.inr hk'))
        sourceFilename := rel_imp_of_mem hm.sourceFilename fun k hk k' hk' =>
          hq k (.inr hk) k' (.inr hk') }
  | array hvs => exact .array (mirrors_imp_of_handlesOf hvs hq)
  | map hm =>
    refine .map (hm.imp_of_mem fun e he e' he' hee => ⟨hee.1, hee.2.imp fun k hk k' hk' => ?_⟩)
    exact hq k (mem_handlesOf_of_mem (List.mem_map_of_mem he) hk) k'
      (mem_handlesOf_of_mem (List.mem_map_of_mem he') hk')
  | native hname => exact .native (hc ▸ hname)
  | boundMethod hv hh =>
    simp only [children, List.mem_append, List.mem_singleton] at hq
    exact .boundMethod (hv.imp fun k hk k' hk' => hq k (.inl hk) k' (.inl hk'))
      (hq _ (.inr rfl) _ (.inr rfl) hh)
  | upvalue hv => exact .upvalue (hv.imp hq)

theorem Obj.Mirrors.mono (h : o.Mirrors p o') (hq : p ≤ q) : o.Mirrors q o' :=
  h.imp (Pairing.callable_eq hq) fun _ _ _ _ => hq.1 _ _

theorem Obj.Mirrors.swap (h : o.Mirrors p o') : o'.Mirrors p.swap o := by
  cases h with
  | string s => exact .string s
  | function hf =>
    exact .function
      { arity := hf.arity.symm, minArity := hf.minArity.symm, nameHash := hf.nameHash.symm
        code := hf.code.symm, lines := hf.lines.symm, name := rel_swap hf.name
        className := rel_swap hf.className, sourceFilename := rel_swap hf.sourceFilename
        module := rel_swap hf.module, constants := mirrors_swap hf.constants }
  | scriptClass hc =>
    exact .scriptClass
      { hash := hc.hash.symm, kind := hc.kind.symm, parentHash := hc.parentHash.symm
        entityBound := hc.entityBound.symm, name := rel_swap hc.name,
          methods := hc.methods.swap_values
        fields := hc.fields.swap_values, initializer := rel_flip hc.initializer fun _ _ => (·.swap)
        parent := rel_swap hc.parent }
  | inst hi => exact .inst ⟨hi.classHandle, hi.fields.swap_values, hi.entity.symm⟩
  | module hm =>
    exact .module ⟨forall₂_swap hm.functions, mirrors_swap hm.locals, rel_swap hm.sourceFilename⟩
  | array hvs => exact .array (mirrors_swap hvs)
  | map hm => exact .map (hm.swap.imp fun _ _ he => ⟨he.1.symm, he.2.swap⟩)
  | native hname => exact .native hname
  | boundMethod hv hh => exact .boundMethod hv.swap hh
  | upvalue hv => exact .upvalue hv.swap

theorem forall₂_handlesOf {vs vs' : List Value} (h : List.Forall₂ (Value.Mirrors p) vs vs') :
    List.Forall₂ p.pairs (Obj.handlesOf vs) (Obj.handlesOf vs') :=
  List.rel_filterMap (fun _ _ hv => Value.Mirrors.object? hv) h

theorem forall₂_toList {α β : Type} {R : α → β → Prop} {a : Option α} {b : Option β}
    (h : Option.Rel R a b) : List.Forall₂ R a.toList b.toList := by
  cases h with
  | none => exact .nil
  | some hab => exact .cons hab .nil

/-- The handles that the objects hold are paired, in order. -/
theorem Obj.Mirrors.children (h : o.Mirrors p o') :
    List.Forall₂ p.pairs o.children o'.children := by
  cases h with
  | string s => exact .nil
  | function hf =>
    refine List.rel_append (List.rel_append (List.rel_append (List.rel_append ?_ ?_) ?_) ?_) ?_
    · exact forall₂_toList hf.name
    · exact forall₂_toList hf.className
    · exact forall₂_toList hf.sourceFilename
    · exact forall₂_toList hf.module
    · exact forall₂_handlesOf hf.constants
  | scriptClass hc =>
    refine List.rel_append (List.rel_append (List.rel_append (List.rel_append ?_ ?_) ?_) ?_) ?_
    · exact forall₂_toList hc.name
    · exact forall₂_handlesOf hc.methods.values
    · exact forall₂_handlesOf hc.fields.values
    · exact forall₂_handlesOf (forall₂_toList hc.initializer)
    · exact forall₂_toList hc.parent
  | inst hi => exact .cons hi.classHandle (forall₂_handlesOf hi.fields.values)
  | module hm =>
    refine List.rel_append (List.rel_append hm.functions ?_) ?_
    · exact forall₂_handlesOf hm.locals
    · exact forall₂_toList hm.sourceFilename
  | array hvs => exact forall₂_handlesOf hvs
  | map hm =>
    refine forall₂_handlesOf (List.forall₂_map_left_iff.2 (List.forall₂_map_right_iff.2 ?_))
    exact hm.values.imp fun _ _ he => he.2
  | native _ => exact .nil
  | boundMethod hv hh => exact List.rel_append (forall₂_handlesOf (.cons hv .nil)) (.cons hh .nil)
  | upvalue hv => exact forall₂_handlesOf (.cons hv .nil)

/-- What is in one of two lists in parallel has its like in the other. -/
theorem exists_of_forall₂ {α β : Type} {R : α → β → Prop} {l : List α} {l' : List β}
    (h : List.Forall₂ R l l') {a : α} (ha : a ∈ l) : ∃ b ∈ l', R a b := by
  induction h with
  | nil => cases ha
  | cons hab _ ih =>
    rcases List.mem_cons.1 ha with rfl | ha
    · exact ⟨_, List.mem_cons_self, hab⟩
    · obtain ⟨b, hb, hab⟩ := ih ha
      exact ⟨b, List.mem_cons_of_mem _ hb, hab⟩

end Handles

/-! ### Heaps -/

namespace Heap

/-- Paired handles find objects that mirror each other, and no handle is paired twice. -/
structure Mirrors (p : Pairing) (heap heap' : Heap) : Prop where
  left : heap.Slotted
  right : heap'.Slotted
  unique : ∀ {h h' k k'}, p.pairs h h' → p.pairs k k' → (h = k ↔ h' = k')
  object : ∀ {h h'}, p.pairs h h' →
    ∃ o o', heap.get? h = some o ∧ heap'.get? h' = some o' ∧ o.Mirrors p o'
  generation : heap.generationAt = p.generation
  generation' : heap'.generationAt = p.generation'

variable {heap heap' : Heap} {h h' : Handle} {o o' : Obj}

theorem Mirrors.swap (hm : Mirrors p heap heap') : Mirrors p.swap heap' heap where
  left := hm.right
  right := hm.left
  unique hp hk := (hm.unique hp hk).symm
  object hp := by
    obtain ⟨o, o', ho, ho', hmirrors⟩ := hm.object hp
    exact ⟨o', o, ho', ho, hmirrors.swap⟩
  generation := hm.generation'
  generation' := hm.generation

/-- Where nothing is paired, nothing is asked. -/
theorem mirrors_nothing {backdrop : Backdrop} (hs : heap.Slotted) (hs' : heap'.Slotted)
    (hg : heap.generationAt = backdrop.generation)
    (hg' : heap'.generationAt = backdrop.generation') : Mirrors (.nothing backdrop) heap heap' :=
  ⟨hs, hs', False.elim, False.elim, hg, hg'⟩

theorem Mirrors.get? (hm : Mirrors p heap heap') (hp : p.pairs h h') :
    Option.Rel (Obj.Mirrors p) (heap.get? h) (heap'.get? h') := by
  obtain ⟨o, o', ho, ho', hmirrors⟩ := hm.object hp
  rw [ho, ho']
  exact .some hmirrors

/-- The object of a value, on both sides. -/
theorem Mirrors.find (hm : Mirrors p heap heap') {v v' : Value} (hv : v.Mirrors p v') :
    Option.Rel (Obj.Mirrors p) (v.object?.bind heap.get?) (v'.object?.bind heap'.get?) :=
  rel_bind hv.object? fun _ _ hp => hm.get? hp

theorem Mirrors.string? (hm : Mirrors p heap heap') (hp : p.pairs h h') :
    heap.string? h = heap'.string? h' := by
  obtain ⟨o, o', ho, ho', hmirrors⟩ := hm.object hp
  unfold Heap.string?
  rw [ho, ho']
  cases hmirrors <;> rfl

theorem Mirrors.function? (hm : Mirrors p heap heap') (hp : p.pairs h h') :
    Option.Rel (FunctionObject.Mirrors p) (heap.function? h) (heap'.function? h') := by
  obtain ⟨o, o', ho, ho', hmirrors⟩ := hm.object hp
  unfold Heap.function?
  rw [ho, ho']
  cases hmirrors with
  | function hf => exact .some hf
  | _ => exact .none

theorem Mirrors.class? (hm : Mirrors p heap heap') (hp : p.pairs h h') :
    Option.Rel (ClassObject.Mirrors p) (heap.class? h) (heap'.class? h') := by
  obtain ⟨o, o', ho, ho', hmirrors⟩ := hm.object hp
  unfold Heap.class?
  rw [ho, ho']
  cases hmirrors with
  | scriptClass hc => exact .some hc
  | _ => exact .none

theorem Mirrors.instance? (hm : Mirrors p heap heap') (hp : p.pairs h h') :
    Option.Rel (InstanceObject.Mirrors p) (heap.instance? h) (heap'.instance? h') := by
  obtain ⟨o, o', ho, ho', hmirrors⟩ := hm.object hp
  unfold Heap.instance?
  rw [ho, ho']
  cases hmirrors with
  | inst hi => exact .some hi
  | _ => exact .none

theorem Mirrors.module? (hm : Mirrors p heap heap') (hp : p.pairs h h') :
    Option.Rel (ModuleObject.Mirrors p) (heap.module? h) (heap'.module? h') := by
  obtain ⟨o, o', ho, ho', hmirrors⟩ := hm.object hp
  unfold Heap.module?
  rw [ho, ho']
  cases hmirrors with
  | module hm => exact .some hm
  | _ => exact .none

theorem Mirrors.isClass (hm : Mirrors p heap heap') (hp : p.pairs h h') :
    heap.isClass h = heap'.isClass h' :=
  isSome_eq_of_rel (hm.class? hp)

theorem Mirrors.kind? (hm : Mirrors p heap heap') {v v' : Value} (hv : v.Mirrors p v') :
    heap.kind? v = heap'.kind? v' :=
  map_eq_of_rel (hm.find hv) fun _ _ ho => ho.kind

theorem Mirrors.text? (hm : Mirrors p heap heap') {v v' : Value} (hv : v.Mirrors p v') :
    heap.text? v = heap'.text? v' :=
  bind_eq_of_rel hv.object? fun _ _ hp => hm.string? hp

/-! ### Change -/

/-- A handle that is paired finds an object. -/
theorem Mirrors.contains (hm : Mirrors p heap heap') (hp : p.pairs h h') :
    heap.contains h = true ∧ heap'.contains h' = true := by
  obtain ⟨o, o', ho, ho', -⟩ := hm.object hp
  exact ⟨contains_of_get? ho, contains_of_get? ho'⟩

/-- The generation of a handle that is paired is the one of its slot. -/
theorem Mirrors.generation_of_pairs (hm : Mirrors p heap heap') (hp : p.pairs h h') :
    p.generation h.index = h.generation ∧ p.generation' h'.index = h'.generation := by
  obtain ⟨hc, hc'⟩ := hm.contains hp
  rw [← hm.generation, ← hm.generation']
  exact ⟨(contains_iff_generationAt.1 hc).2, (contains_iff_generationAt.1 hc').2⟩

theorem generationAt_alloc (hs : heap.Slotted) (o : Obj) :
    (heap.alloc o).2.generationAt = heap.generationAt := by
  funext i
  rcases alloc_cases hs o with ⟨j, slot, -, hj, -, he⟩ | ⟨-, he⟩
  · rw [he]
    obtain ⟨hlt, hslot⟩ := Array.getElem?_eq_some_iff.1 hj
    by_cases hi : j = i
    · subst hi
      simp [Heap.generationAt, hlt, hslot]
    · simp [Heap.generationAt, hi]
  · rw [he]
    by_cases hi : i = heap.slots.size
    · subst hi
      simp [Heap.generationAt]
    · simp [Heap.generationAt, Array.getElem?_push, hi]

theorem generationAt_modify (heap : Heap) (h : Handle) (f : Obj → Obj) :
    (heap.modify h f).generationAt = heap.generationAt := by
  funext i
  unfold Heap.generationAt
  rw [getElem?_modify]
  split
  · cases heap.slots[i]? with
    | none => rfl
    | some slot =>
      simp only [Option.map_some, Option.getD_some]
      split <;> rfl
  · rfl

/-- Objects that mirror each other may be placed on both sides. -/
theorem Mirrors.alloc (hm : Mirrors p heap heap') (ho : o.Mirrors p o') :
    Mirrors (p.add (heap.alloc o).1 (heap'.alloc o').1) (heap.alloc o).2 (heap'.alloc o').2 := by
  have hfresh : ∀ {k k'}, p.pairs k k' → k ≠ (heap.alloc o).1 ∧ k' ≠ (heap'.alloc o').1 := by
    intro k k' hk
    obtain ⟨hc, hc'⟩ := hm.contains hk
    constructor
    · rintro rfl
      exact absurd hc (Bool.eq_false_iff.1 (contains_alloc_fresh hm.left o))
    · rintro rfl
      exact absurd hc' (Bool.eq_false_iff.1 (contains_alloc_fresh hm.right o'))
  have hle := p.le_add (heap.alloc o).1 (heap'.alloc o').1
  refine ⟨slotted_alloc hm.left o, slotted_alloc hm.right o', ?_, ?_,
    (generationAt_alloc hm.left o).trans hm.generation,
    (generationAt_alloc hm.right o').trans hm.generation'⟩
  · rintro h h' k k' (hp | ⟨rfl, rfl⟩) (hk | ⟨rfl, rfl⟩)
    · exact hm.unique hp hk
    · exact iff_of_false (hfresh hp).1 (hfresh hp).2
    · exact iff_of_false (hfresh hk).1.symm (hfresh hk).2.symm
    · exact iff_of_true rfl rfl
  · rintro h h' (hp | ⟨rfl, rfl⟩)
    · obtain ⟨u, u', hu, hu', hmirrors⟩ := hm.object hp
      exact ⟨u, u', get?_alloc_of_get? hm.left o hu, get?_alloc_of_get? hm.right o' hu',
        hmirrors.mono hle⟩
    · exact ⟨o, o', get?_alloc_self hm.left o, get?_alloc_self hm.right o', ho.mono hle⟩

/-- Paired objects may be changed on both sides. -/
theorem Mirrors.modify (hm : Mirrors p heap heap') (hp : p.pairs h h') {f f' : Obj → Obj}
    (hf : ∀ o o', o.Mirrors p o' → (f o).Mirrors p (f' o')) :
    Mirrors p (heap.modify h f) (heap'.modify h' f') := by
  refine ⟨slotted_modify hm.left h f, slotted_modify hm.right h' f', hm.unique, fun {k k'} hk => ?_,
    (generationAt_modify heap h f).trans hm.generation,
    (generationAt_modify heap' h' f').trans hm.generation'⟩
  obtain ⟨o, o', ho, ho', hmirrors⟩ := hm.object hk
  rw [get?_modify, get?_modify]
  by_cases heq : k = h
  · have heq' := (hm.unique hk hp).1 heq
    subst heq heq'
    rw [if_pos rfl, if_pos rfl, ho, ho']
    exact ⟨f o, f' o', rfl, rfl, hf o o' hmirrors⟩
  · rw [if_neg heq, if_neg fun heq' => heq ((hm.unique hk hp).2 heq')]
    exact ⟨o, o', ho, ho', hmirrors⟩

/-- What roots reach has its like on the other side, which the roots there reach. -/
theorem Mirrors.reaches (hm : Mirrors p heap heap') {roots roots' : List Handle}
    (hroots : List.Forall₂ p.pairs roots roots') (hr : heap.Reaches roots h) :
    ∃ h', p.pairs h h' ∧ heap'.Reaches roots' h' := by
  induction hr with
  | root hh _ =>
    obtain ⟨h', hh', hp⟩ := exists_of_forall₂ hroots hh
    exact ⟨h', hp, .root hh' (hm.contains hp).2⟩
  | child _ ho hk _ ih =>
    obtain ⟨h', hp, hr'⟩ := ih
    obtain ⟨o, o', hget, hget', hmirrors⟩ := hm.object hp
    rw [ho] at hget
    cases hget
    obtain ⟨k', hk', hpk⟩ := exists_of_forall₂ hmirrors.children hk
    exact ⟨k', hpk, hr'.child hget' hk' (hm.contains hpk).2⟩

/-! ### Collections -/

/-- The pairs whose first handle some roots reach, after a collection. -/
def reachedPairs (p : Pairing) (heap : Heap) (roots : List Handle) : Pairing :=
  { p with
    pairs := fun h h' => p.pairs h h' ∧ heap.Reaches roots h
    generation := (heap.collect roots).heap.generationAt }

theorem reachedPairs_callable (p : Pairing) (heap : Heap) (roots : List Handle) :
    (reachedPairs p heap roots).callable = p.callable := rfl

theorem reachedPairs_debug (p : Pairing) (heap : Heap) (roots : List Handle) :
    (reachedPairs p heap roots).debug = p.debug := rfl

theorem reachedPairs_generation (p : Pairing) (heap : Heap) (roots : List Handle) :
    (reachedPairs p heap roots).generation = (heap.collect roots).heap.generationAt := rfl

/-- A collection on one side. -/
theorem Mirrors.collect (hm : Mirrors p heap heap') (roots : List Handle) :
    Mirrors (reachedPairs p heap roots) (heap.collect roots).heap heap' := by
  refine ⟨slotted_collect hm.left roots, hm.right, fun hp hk => hm.unique hp.1 hk.1, ?_,
    rfl, hm.generation'⟩
  rintro h h' ⟨hp, hr⟩
  obtain ⟨o, o', ho, ho', hmirrors⟩ := hm.object hp
  refine ⟨o, o', get?_collect_of_reaches hm.left ho hr, ho',
    hmirrors.imp rfl fun k hk k' _ hp => ?_⟩
  exact ⟨hp, hr.child ho hk (hm.contains hp).1⟩

end Heap
end ScriptVm
