import ScriptVm.Environment.Collection
import ScriptVm.Proofs.Heap.ExactCollection
import ScriptVm.Proofs.Machine.Safety

/-!
# What is held is retained

Nothing that a root or an object holds is lost to a collection.

* `Heap.Closed` says that the handles that objects hold find objects, `Environment.Sound` that those
  of an environment and its threads do too.
* `Contract.alive` is the contract about handles; `Sound.goodEnvironment`, `Sound.goodThread` and
  `sound_of_good` say that it asks the same.
* `leaves_collect`, `leaves_force`, `leaves_request`, `leaves_dispose` are the collections: all that
  is held is a root, and what the roots reach stays.
-/

namespace ScriptVm

/-- Whatever the outcome, the state satisfies `P`; with a result it satisfies `Q` too. -/
def Leaves {ε σ α : Type} (s : σ) (x : EStateM ε σ α) (P : σ → Prop) (Q : α → σ → Prop) : Prop :=
  match x s with
  | .ok a s' => P s' ∧ Q a s'
  | .error _ s' => P s'

section Leaves

variable {ε σ α β : Type} {s s' : σ} {x : EStateM ε σ α} {P : σ → Prop} {Q : α → σ → Prop} {a : α}
  {e : ε}

theorem Leaves.bind {f : α → EStateM ε σ β} {R : β → σ → Prop} (hx : Leaves s x P Q)
    (hf : ∀ a s', P s' → Q a s' → Leaves s' (f a) P R) : Leaves s (x >>= f) P R := by
  unfold Leaves at hx
  unfold Leaves
  show match EStateM.bind x f s with | .ok a s' => _ | .error _ s' => _
  unfold EStateM.bind
  split at hx
  · rename_i a s' hrun
    rw [hrun]
    exact hf a s' hx.1 hx.2
  · rename_i hrun
    rw [hrun]
    exact hx

/-- Another form of the result makes no difference to the state. -/
theorem Leaves.map {g : α → β} (hx : Leaves s x P Q) : Leaves s (g <$> x) P fun _ _ => True := by
  unfold Leaves at hx ⊢
  show match EStateM.map g x s with | .ok a s' => _ | .error _ s' => _
  unfold EStateM.map
  split at hx <;> rename_i hrun <;> rw [hrun]
  · exact ⟨hx.1, trivial⟩
  · exact hx

theorem leaves_pure {a : α} (hp : P s) (hq : Q a s) : Leaves s (pure a : EStateM ε σ α) P Q :=
  ⟨hp, hq⟩

theorem leaves_modify {f : σ → σ} (hp : P (f s)) :
    Leaves s (modify f : EStateM ε σ PUnit) P fun _ s' => s' = f s :=
  ⟨hp, rfl⟩

/-- Reading the state. -/
theorem leaves_get_bind {f : σ → EStateM ε σ β} {R : β → σ → Prop} :
    Leaves s (get >>= f) P R ↔ Leaves s (f s) P R := Iff.rfl

theorem leaves_of_ok (hrun : x s = .ok a s') (hp : P s') (hq : Q a s') : Leaves s x P Q := by
  unfold Leaves
  rw [hrun]
  exact ⟨hp, hq⟩

theorem leaves_of_error (hrun : x s = .error e s') (hp : P s') : Leaves s x P Q := by
  unfold Leaves
  rw [hrun]
  exact hp

theorem Leaves.ok (hx : Leaves s x P Q) (hrun : x s = .ok a s') : P s' ∧ Q a s' := by
  unfold Leaves at hx
  rwa [hrun] at hx

theorem Leaves.error (hx : Leaves s x P Q) (hrun : x s = .error e s') : P s' := by
  unfold Leaves at hx
  rwa [hrun] at hx

end Leaves

/-! ### Heaps -/

namespace Heap

variable {heap : Heap} {h : Handle}

/-- The handles that objects hold find objects. -/
def Closed (heap : Heap) : Prop :=
  ∀ h o, heap.get? h = some o → ∀ k ∈ o.children, heap.contains k = true

/-- A root that finds an object still does so after a collection. -/
theorem contains_collect {roots : List Handle} (hs : heap.Slotted) (hh : heap.contains h = true)
    (hr : h ∈ roots) : (heap.collect roots).heap.contains h = true := by
  obtain ⟨o, ho⟩ := contains_iff.1 hh
  exact contains_of_get? (get?_collect_of_reaches hs ho (.root hr hh))

/-- What survives a collection holds only what survives it. -/
theorem closed_collect (hs : heap.Slotted) (hc : heap.Closed) (roots : List Handle) :
    (heap.collect roots).heap.Closed := by
  intro h o ho k hk
  obtain ⟨hold, hr⟩ := get?_collect_cases hs ho
  have hlive := hc h o hold k hk
  obtain ⟨p, hp⟩ := contains_iff.1 hlive
  exact contains_of_get? (get?_collect_of_reaches hs hp (hr.child hold hk hlive))

end Heap

/-! ### Environments -/

namespace Contract

/-- The contract about handles. -/
def alive : Contract := .unbounded True False

theorem finds_alive {heap : Heap} {h : Handle} : alive.Finds heap h ↔ heap.contains h = true :=
  ⟨fun hf => hf trivial, fun hc _ => hc⟩

theorem goodHeap_alive {heap : Heap} : alive.GoodHeap heap ↔ heap.Slotted ∧ heap.Closed := by
  constructor
  · intro hh
    exact ⟨hh.slotted trivial, fun h o ho k hk => (hh.objects h o ho).children k hk trivial⟩
  · rintro ⟨hs, hc⟩
    exact ⟨fun _ => hs, fun h o ho => ⟨fun k hk _ => hc h o ho k hk, False.elim⟩⟩

end Contract

namespace Environment

open Contract

variable {env env' : Environment} {threads : List Thread} {h : Handle} {v : Value}

/-- Every handle that a root or an object holds finds an object, and natives leave it so. -/
structure Sound (env : Environment) (threads : List Thread) : Prop where
  slotted : env.heap.Slotted
  closed : env.heap.Closed
  held : ∀ h ∈ env.roots threads, env.heap.contains h = true
  natives : alive.Respects env.natives

theorem mem_roots : h ∈ env.roots threads ↔
    (∃ t ∈ threads, h ∈ t.roots) ∨ h ∈ Obj.handlesOf env.globals.values ∨
      h ∈ Obj.handlesOf env.constants.values ∨ h ∈ env.modules.toList ∨ h ∈ env.functions.toList ∨
        h ∈ env.classes.toList ∨ h ∈ env.entityBase.toList ∨
          h ∈ Obj.handlesOf env.extraRoots.toList := by
  simp only [roots, List.mem_append, List.mem_flatMap, or_assoc]

theorem mem_thread_roots {t : Thread} : h ∈ t.roots ↔
    h ∈ Obj.handlesOf t.stack.toList ∨ (∃ f ∈ t.frames.toList, f.function = h) ∨
      t.register.object? = some h := by
  simp only [Thread.roots, List.mem_append, List.mem_map, or_assoc]
  simp [Obj.handlesOf]

theorem Sound.goodEnvironment (hs : env.Sound threads) : alive.GoodEnvironment env where
  heap := goodHeap_alive.2 ⟨hs.slotted, hs.closed⟩
  globals := forall_handlesOf.1 fun h hh _ => hs.held h (mem_roots.2 (by simp [hh]))
  constants := forall_handlesOf.1 fun h hh _ => hs.held h (mem_roots.2 (by simp [hh]))
  modules := fun h hh _ => hs.held h (mem_roots.2 (by simp only [hh, true_or, or_true]))
  functions := fun h hh _ => hs.held h (mem_roots.2 (by simp only [hh, true_or, or_true]))
  classes := fun h hh _ => hs.held h (mem_roots.2 (by simp only [hh, true_or, or_true]))
  entityBase := fun h hh _ => hs.held h (mem_roots.2 (by simp only [hh, true_or, or_true]))
  extraRoots := forall_handlesOf.1 fun h hh _ => hs.held h (mem_roots.2 (by simp [hh]))
  natives := hs.natives

theorem Sound.goodThread (hs : env.Sound threads) {t : Thread} (ht : t ∈ threads) :
    alive.GoodThread env.heap t where
  stack := forall_handlesOf.1 fun h hh _ =>
    hs.held h (mem_roots.2 (.inl ⟨t, ht, mem_thread_roots.2 (.inl hh)⟩))
  stack_le := False.elim
  floor_le := Nat.zero_le _
  frames := fun f hf =>
    { function := fun _ => hs.held _
        (mem_roots.2 (.inl ⟨t, ht, mem_thread_roots.2 (.inr (.inl ⟨f, hf, rfl⟩))⟩))
      ip_le := False.elim
      slots_le := False.elim
      code_le := False.elim }
  frames_le := False.elim
  calls_le := Nat.zero_le _
  above := fun _ _ _ _ => Nat.zero_le _
  register := fun h hh _ =>
    hs.held h (mem_roots.2 (.inl ⟨t, ht, mem_thread_roots.2 (.inr (.inr hh))⟩))

theorem sound_of_good (hg : alive.GoodEnvironment env)
    (ht : ∀ t ∈ threads, alive.GoodThread env.heap t) : env.Sound threads where
  slotted := (goodHeap_alive.1 hg.heap).1
  closed := (goodHeap_alive.1 hg.heap).2
  held := by
    intro h hh
    rw [← finds_alive]
    rcases mem_roots.1 hh with ⟨t, hmem, hh⟩ | hh | hh | hh | hh | hh | hh | hh
    · rcases mem_thread_roots.1 hh with hh | ⟨f, hf, rfl⟩ | hh
      · exact forall_handlesOf.2 (ht t hmem).stack h hh
      · exact ((ht t hmem).frames f hf).function
      · exact (ht t hmem).register h hh
    · exact forall_handlesOf.2 hg.globals h hh
    · exact forall_handlesOf.2 hg.constants h hh
    · exact hg.modules h hh
    · exact hg.functions h hh
    · exact hg.classes h hh
    · exact hg.entityBase h hh
    · exact forall_handlesOf.2 hg.extraRoots h hh
  natives := hg.natives

/-- Fewer handles in each table are fewer roots. -/
theorem roots_subset
    (hglobals : Obj.handlesOf env'.globals.values ⊆ Obj.handlesOf env.globals.values)
    (hconstants : Obj.handlesOf env'.constants.values ⊆ Obj.handlesOf env.constants.values)
    (hmodules : env'.modules.toList ⊆ env.modules.toList)
    (hfunctions : env'.functions.toList ⊆ env.functions.toList)
    (hclasses : env'.classes.toList ⊆ env.classes.toList)
    (hbase : env'.entityBase.toList ⊆ env.entityBase.toList)
    (hextra : Obj.handlesOf env'.extraRoots.toList ⊆ Obj.handlesOf env.extraRoots.toList) :
    ∀ h ∈ env'.roots threads, h ∈ env.roots threads := by
  intro h hh
  rw [mem_roots] at hh ⊢
  exact hh.imp_right <| .imp (@hglobals h) <| .imp (@hconstants h) <| .imp (@hmodules h) <|
    .imp (@hfunctions h) <| .imp (@hclasses h) <| .imp (@hbase h) (@hextra h)

/-- Letting go of roots does no harm. -/
theorem Sound.of_subset (hs : env.Sound threads) (hheap : env'.heap = env.heap)
    (hnatives : env'.natives = env.natives)
    (hroots : ∀ h ∈ env'.roots threads, h ∈ env.roots threads) : env'.Sound threads :=
  ⟨hheap ▸ hs.slotted, hheap ▸ hs.closed, fun h hh => hheap ▸ hs.held h (hroots h hh),
    hnatives ▸ hs.natives⟩

theorem Sound.report (hs : env.Sound threads) (level : Level) (text : Unit → String) :
    (env.report level text).Sound threads :=
  hs.of_subset rfl rfl fun _ hh => hh

/-! ### Collections -/

/-- What is held is held after the heap is collected, whatever else of the memory changes. -/
theorem Sound.collected (hs : env.Sound threads) {rs : List Handle} {mem : Memory}
    (hroots : ∀ h ∈ env.roots threads, h ∈ rs) (hheap : mem.heap = (env.heap.collect rs).heap) :
    { env with memory := mem }.Sound threads := by
  obtain ⟨heap, cells, entities⟩ := mem
  dsimp only at hheap
  subst hheap
  exact
    { slotted := Heap.slotted_collect hs.slotted rs
      closed := Heap.closed_collect hs.slotted hs.closed rs
      held := fun h hh => Heap.contains_collect hs.slotted (hs.held h hh) (hroots h hh)
      natives := hs.natives }

/-- The log is of no concern. -/
theorem Sound.reportAll (lines : List String) (hs : env.Sound threads) :
    let env' := lines.foldl (fun env line => env.report .debug fun _ => line) env
    env'.Sound threads ∧ env'.classes = env.classes := by
  induction lines generalizing env with
  | nil => exact ⟨hs, rfl⟩
  | cons line rest ih => exact ih (hs.report .debug fun _ => line)

/-- A collection from roots that include all that is held. -/
theorem leaves_collect (hs : env.Sound threads) {rs : List Handle}
    (hroots : ∀ h ∈ env.roots threads, h ∈ rs) :
    Leaves env (collect rs) (fun env' => env'.Sound threads ∧ env'.classes = env.classes)
      fun _ _ => True := by
  have hcollected := hs.collected hroots (Memory.foldl_reclaim (env.heap.collect rs).reclaimed
    { env.memory with heap := (env.heap.collect rs).heap }).1
  have hleft := hcollected.reportAll (env.heap.collect rs).lines
  unfold Leaves collect
  dsimp only
  split
  · rename_i heq
    split at heq <;> cases heq
    exact ⟨hleft, trivial⟩
  · rename_i heq
    split at heq <;> cases heq
    exact hleft

theorem leaves_force (hs : env.Sound threads) :
    Leaves env (force threads) (fun env' => env'.Sound threads ∧ env'.classes = env.classes)
      fun _ _ => True := by
  have hcollect := leaves_collect hs fun _ hh => hh
  unfold Leaves force
  by_cases hseveral : 1 < env.activeThreads
  · rw [if_pos hseveral]
    exact ⟨⟨hs.report _ _, rfl⟩, trivial⟩
  · rw [if_neg hseveral]
    exact hcollect.map

theorem leaves_request (hs : env.Sound threads) :
    Leaves env (request threads) (fun env' => env'.Sound threads ∧ env'.classes = env.classes)
      fun _ _ => True := by
  have hforce := leaves_force hs
  unfold Leaves at hforce ⊢
  unfold request
  by_cases hfull : env.heap.shouldCollect = true
  · rw [if_pos hfull]
    dsimp only
    cases hrun : force threads env with
    | error e env₁ =>
      rw [hrun] at hforce
      exact hforce
    | ok r env₁ =>
      rw [hrun] at hforce
      obtain ⟨⟨hsound, hclasses⟩, -⟩ := hforce
      cases r with
      | none => exact ⟨⟨hsound, hclasses⟩, trivial⟩
      | some report => exact ⟨⟨hsound.report _ _, hclasses⟩, trivial⟩
  · rw [if_neg hfull]
    exact ⟨⟨hs, rfl⟩, trivial⟩

/-! ### Disposal -/

theorem mem_handlesOf_filter {t : Table Value} {p : Value → Bool}
    (hh : h ∈ Obj.handlesOf (t.filter p).values) : h ∈ Obj.handlesOf t.values := by
  obtain ⟨v, hv, hvh⟩ := List.mem_filterMap.1 hh
  exact List.mem_filterMap.2 ⟨v, Table.mem_values_filter hv, hvh⟩

theorem Sound.keepDefinitions (hs : env.Sound threads) : env.keepDefinitions.Sound threads :=
  hs.of_subset rfl rfl (roots_subset (fun _ => mem_handlesOf_filter) (fun _ => mem_handlesOf_filter)
    (.refl _) (.refl _) (List.nil_subset _) (.refl _) (.refl _))

/-- After everything is forgotten, only threads and classes hold anything. -/
theorem mem_roots_forget :
    h ∈ env.forget.roots threads ↔ (∃ t ∈ threads, h ∈ t.roots) ∨ h ∈ env.classes.toList := by
  rw [mem_roots]
  show _ ∨ h ∈ Obj.handlesOf [] ∨ h ∈ Obj.handlesOf [] ∨ h ∈ [] ∨ h ∈ [] ∨ _ ∨ h ∈ [] ∨
    h ∈ Obj.handlesOf [] ↔ _
  simp [Obj.handlesOf, forget]

theorem Sound.forget (hs : env.Sound threads) : env.forget.Sound threads :=
  hs.of_subset rfl rfl (roots_subset (List.nil_subset _) (List.nil_subset _) (List.nil_subset _)
    (List.nil_subset _) (.refl _) (List.nil_subset _) (List.nil_subset _))

/-- The last collection has no roots, and nothing is held by then. -/
theorem leaves_dispose (hs : env.Sound threads) (hthreads : ∀ t ∈ threads, t.roots = []) :
    Leaves env (dispose threads) (fun env' => env'.Sound threads ∧ env'.classes = #[])
      fun _ _ => True := by
  refine (leaves_modify ⟨hs.keepDefinitions, rfl⟩).bind fun _ env₁ h₁ _ => ?_
  have hforce : Leaves env₁ (force threads)
      (fun env' => env'.Sound threads ∧ env'.classes = #[]) fun _ _ => True := by
    rw [← h₁.2]
    exact leaves_force h₁.1
  refine hforce.bind fun _ env₂ h₂ _ => ?_
  refine (leaves_modify ⟨h₂.1.report _ _, h₂.2⟩).bind fun _ env₃ h₃ _ => ?_
  refine (leaves_modify ⟨h₃.1.forget, h₃.2⟩).bind fun _ env₄ h₄ hq => ?_
  subst hq
  -- the classes went first, so that forgetting the rest leaves no root at all
  have hnothing : ∀ h ∈ env₃.forget.roots threads, h ∈ [] := by
    intro h hh
    rcases mem_roots_forget.1 hh with ⟨t, ht, hh⟩ | hh
    · rwa [hthreads t ht] at hh
    · rwa [h₃.2] at hh
  have hlast := leaves_collect h₄.1 hnothing
  rw [h₄.2] at hlast
  exact hlast.bind fun _ env₅ h₅ _ => leaves_pure h₅ trivial

end Environment
end ScriptVm
