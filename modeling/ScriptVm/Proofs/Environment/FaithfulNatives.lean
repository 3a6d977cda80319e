import ScriptVm.Native.Catalog
import ScriptVm.Proofs.Environment.Mirroring

/-!
# Faithful natives

A native that is given the same up to handles answers the same up to handles, if it looks at handles
only to find what they stand for.

* The lemmas about `argument` and `argumentAs` say so of arguments, `ExceptRel.bind` puts
  results together.
* `Native.faithful_standard` says so of the natives of the catalogue.
-/

namespace ScriptVm

theorem ExceptRel.bind {ε α β γ δ : Type} {Q : α → β → Prop} {R : γ → δ → Prop} {x : Except ε α}
    {x' : Except ε β} {g : α → Except ε γ} {g' : β → Except ε δ} (h : ExceptRel Q x x')
    (hg : ∀ a b, Q a b → ExceptRel R (g a) (g' b)) : ExceptRel R (x >>= g) (x' >>= g') := by
  cases h with
  | ok hab => exact hg _ _ hab
  | error e => exact .error e

theorem ExceptRel.of_eq {ε α : Type} {x x' : Except ε α} (h : x = x') : ExceptRel Eq x x' := by
  subst h
  cases x with
  | ok a => exact .ok rfl
  | error e => exact .error e

namespace Native

variable {p : Pairing} {mem mem' : Memory} {args args' : Array Value}

/-- Two lists of arguments are the same up to handles. -/
abbrev ArgumentsMirror (p : Pairing) (args args' : Array Value) : Prop :=
  List.Forall₂ (Value.Mirrors p) args.toList args'.toList

theorem size_eq (ha : ArgumentsMirror p args args') : args.size = args'.size := ha.length_eq

theorem rel_getElem? (ha : ArgumentsMirror p args args') (index : Nat) :
    Option.Rel (Value.Mirrors p) args[index]? args'[index]? := by
  rw [← Array.getElem?_toList, ← Array.getElem?_toList]
  exact forall₂_getElem? ha index

theorem rel_argument (ha : ArgumentsMirror p args args') (index : Nat) :
    ExceptRel (Value.Mirrors p) (argument args index) (argument args' index) := by
  have hvalue := rel_getElem? ha index
  unfold argument
  rw [size_eq ha]
  generalize args[index]? = v, args'[index]? = v' at hvalue
  cases hvalue with
  | none => exact .error _
  | some hv => exact .ok hv

theorem rel_argumentAs {α β : Type} {Q : α → β → Prop} (hm : mem.Mirrors p mem')
    (ha : ArgumentsMirror p args args') (index : Nat) (expected : String) {f : Value → Option α}
    {g : Value → Option β} (hf : ∀ v v', v.Mirrors p v' → Option.Rel Q (f v) (g v')) :
    ExceptRel Q (argumentAs mem args index expected f)
      (argumentAs mem' args' index expected g) := by
  refine (rel_argument ha index).bind fun v v' hv => ?_
  have hread := hf v v' hv
  rw [hm.typeName_eq hv]
  generalize f v = a, g v' = b at hread
  cases hread with
  | none => exact .error _
  | some hab => exact .ok hab

/-- What is read is the same where no handle is in it. -/
theorem rel_argumentAs_same {α : Type} (hm : mem.Mirrors p mem') (ha : ArgumentsMirror p args args')
    (index : Nat) (expected : String) {f g : Value → Option α}
    (hf : ∀ v v', v.Mirrors p v' → f v = g v') :
    ExceptRel Eq (argumentAs mem args index expected f)
      (argumentAs mem' args' index expected g) := by
  refine rel_argumentAs hm ha index expected fun v v' hv => ?_
  rw [hf v v' hv]
  cases g v' with
  | none => exact .none
  | some a => exact .some rfl

theorem rel_integerArgument (hm : mem.Mirrors p mem') (ha : ArgumentsMirror p args args')
    (index : Nat) :
    ExceptRel Eq (integerArgument mem args index) (integerArgument mem' args' index) :=
  rel_argumentAs_same hm ha index _ fun _ _ hv => by rw [hm.cells, hv.integer?]

theorem rel_decimalArgument (hm : mem.Mirrors p mem') (ha : ArgumentsMirror p args args')
    (index : Nat) :
    ExceptRel Eq (decimalArgument mem args index) (decimalArgument mem' args' index) :=
  rel_argumentAs_same hm ha index _ fun _ _ hv => by rw [hm.cells, hv.castDecimal?]

theorem rel_stringArgument (hm : mem.Mirrors p mem') (ha : ArgumentsMirror p args args')
    (index : Nat) :
    ExceptRel Eq (stringArgument mem args index) (stringArgument mem' args' index) :=
  rel_argumentAs_same hm ha index _ fun _ _ hv => hm.heap.text? hv

theorem rel_instanceArgument (hm : mem.Mirrors p mem') (ha : ArgumentsMirror p args args')
    (index : Nat) : ExceptRel (InstanceObject.Mirrors p) (instanceArgument mem args index)
      (instanceArgument mem' args' index) :=
  rel_argumentAs hm ha index _ fun _ _ hv => rel_bind hv.object? fun _ _ hp => hm.heap.instance? hp

/-! ### Natives -/

variable {callable : String → Prop} {f : Memory → Array Value → Except Cause Value}

/-- A native that changes nothing is faithful if its results are the same up to handles. -/
theorem faithful_pureNative (hf : ∀ (p : Pairing) mem mem' args args', mem.Mirrors p mem' →
    ArgumentsMirror p args args' → ExceptRel (Value.Mirrors p) (f mem args) (f mem' args')) :
    NativeFunction.Faithful callable (pureNative f) :=
  fun p mem mem' args args' _ hm ha => ⟨p, le_rfl, hm, hf p mem mem' args args' hm ha⟩

/-- A native that places an object and gives it. -/
theorem faithful_place {g : Memory → Array Value → Obj}
    (hg : ∀ (p : Pairing) mem mem' args args', mem.Mirrors p mem' → ArgumentsMirror p args args' →
      (g mem args).Mirrors p (g mem' args')) :
    NativeFunction.Faithful callable fun mem args =>
      (.ok (.object (mem.alloc (g mem args)).1), (mem.alloc (g mem args)).2) :=
  fun p mem mem' args args' _ hm ha =>
    ⟨_, p.le_add _ _, ⟨hm.heap.alloc (hg p mem mem' args args' hm ha), hm.cells⟩,
      .ok (.object (p.add_pairs _ _))⟩

theorem faithful_argc : NativeFunction.Faithful callable argc :=
  faithful_pureNative fun _ _ _ _ _ _ ha => by
    rw [size_eq ha]
    exact .ok (.integer _)

theorem faithful_add2 : NativeFunction.Faithful callable add2 := by
  refine faithful_pureNative fun p mem mem' args args' hm ha => ?_
  have hcount : requireCount args 2 = requireCount args' 2 := by
    unfold requireCount
    rw [size_eq ha]
  refine (ExceptRel.of_eq hcount).bind fun _ _ _ => ?_
  refine (rel_integerArgument hm ha 0).bind fun a _ hab =>
    (rel_integerArgument hm ha 1).bind fun b _ hcd => ?_
  subst hab hcd
  exact .ok (.integer _)

theorem faithful_scale : NativeFunction.Faithful callable scale := by
  refine faithful_pureNative fun p mem mem' args args' hm ha => ?_
  have hrange : requireRange args 1 2 = requireRange args' 1 2 := by
    unfold requireRange
    rw [size_eq ha]
  have hproduct (factor : Decimal) : ExceptRel (Value.Mirrors p)
      (do let d ← decimalArgument mem args 0; return .decimal (d * factor))
      (do let d ← decimalArgument mem' args' 0; return .decimal (d * factor)) :=
    (rel_decimalArgument hm ha 0).bind fun d _ hd => hd ▸ .ok (.decimal _)
  refine (ExceptRel.of_eq hrange).bind fun _ _ _ => ?_
  dsimp only
  rw [size_eq ha]
  split
  · exact (rel_decimalArgument hm ha 1).bind fun factor _ hfactor => hfactor ▸ hproduct factor
  · exact hproduct _

theorem faithful_len : NativeFunction.Faithful callable len :=
  faithful_pureNative fun _ _ _ _ _ hm ha =>
    (rel_stringArgument hm ha 0).bind fun _ _ hs => hs ▸ .ok (.integer _)

theorem faithful_klass : NativeFunction.Faithful callable klass :=
  faithful_pureNative fun _ _ _ _ _ hm ha =>
    (rel_instanceArgument hm ha 0).bind fun _ _ hi => .ok (.object hi.classHandle)

theorem faithful_fourth : NativeFunction.Faithful callable fourth :=
  faithful_pureNative fun _ _ _ _ _ hm ha =>
    (rel_integerArgument hm ha 3).bind fun _ _ hn => hn ▸ .ok (.integer _)

theorem faithful_first : NativeFunction.Faithful callable first := by
  refine faithful_pureNative fun p mem mem' args args' _ ha => ?_
  have hvalue := rel_getElem? ha 0
  generalize args[0]? = v, args'[0]? = v' at hvalue
  cases hvalue with
  | none => exact .ok .null
  | some hv => exact .ok hv

theorem faithful_pack : NativeFunction.Faithful callable pack :=
  faithful_place fun _ _ _ _ _ _ ha => .array ha

theorem faithful_join : NativeFunction.Faithful callable join :=
  faithful_place fun _ _ _ _ _ hm ha => by
    rw [map_eq_of_forall₂ ha fun _ _ hv => hm.format_eq hv]
    exact .string _

theorem faithful_error (c : Cause) :
    NativeFunction.Faithful callable (pureNative fun _ _ => .error c) :=
  faithful_pureNative fun _ _ _ _ _ _ _ => .error c

/-- The natives of the catalogue are faithful. -/
theorem faithful_standard (name : String) : NativeFunction.Faithful callable (standard name) := by
  have hcatalog : ∀ p ∈ catalog, NativeFunction.Faithful callable p.2 := by
    simp only [catalog, List.forall_mem_cons]
    exact ⟨faithful_argc, faithful_add2, faithful_scale, faithful_len, faithful_klass,
      faithful_fourth, faithful_first, faithful_pack, faithful_join, faithful_error _,
      faithful_error _, faithful_error _, fun _ hp => absurd hp List.not_mem_nil⟩
  unfold standard
  cases hf : catalog.lookup name with
  | none => exact faithful_error _
  | some f =>
    obtain ⟨before, rest, hsplit, -⟩ := List.lookup_eq_some_iff.1 hf
    exact hcatalog (name, f) (by rw [hsplit]; simp)

end Native
end ScriptVm
