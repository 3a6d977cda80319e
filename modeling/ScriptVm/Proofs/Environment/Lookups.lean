import ScriptVm.Proofs.Environment.Resolution

/-!
# Lookups do not disturb each other

Every lookup may write parents into the classes that it passes, and a line into the log.
Environments that differ in nothing else answer every lookup alike, so it does not show which
lookups were made before.

* `Lookup` is a question about classes, `lookUp` answers it, and `lookUpAll` answers
  several in turn.
* `recalling` is an environment in which some classes remember their parents and another
  log is kept.
* `AnswersAlike` says that an action gives one answer on all of these and passes the same classes;
  `answersAlike_walk` is the search for a member, `lookUpAll_recalling` a sequence of lookups.
* `lookups_undisturbed` is the result.
-/

namespace ScriptVm
namespace Environment

/-- A question that the classes of an environment answer. -/
inductive Lookup where
  | member (c : Handle) (hash : UInt32)
  | hasMember (c : Handle) (hash : UInt32)
  | parent (c : Handle)
deriving DecidableEq

/-- What is answered. -/
inductive Lookup.Answer where
  | member (v : Option Value)
  | hasMember (found : Bool)
  | parent (p : Option Handle)
deriving DecidableEq

/-- Answers a lookup. -/
def lookUp (env : Environment) : Lookup → Lookup.Answer × Environment
  | .member c hash => (env.findMember c hash).map .member id
  | .hasMember c hash => (env.hasMember c hash).map .hasMember id
  | .parent c => (env.resolveParent c).map .parent id

/-- Answers several lookups, one after the other. -/
def lookUpAll (env : Environment) : List Lookup → List Lookup.Answer × Environment
  | [] => ([], env)
  | l :: rest =>
    let (answer, env) := env.lookUp l
    let (answers, env) := env.lookUpAll rest
    (answer :: answers, env)

/-- The environment in which some classes remember their parents, with another log. -/
def recalling (env : Environment) (passed : List Handle) (log : Log) : Environment :=
  { env.remembering passed with log }

/-- An action gives one answer, passes the same classes and reports the same lines, whichever
parents are remembered before and whatever is in the log. -/
def AnswersAlike {α : Type} (env : Environment) (f : Environment → α × Environment) (a : α)
    (more : List Handle) (noted : Log → Log) : Prop :=
  ∀ passed log, f (env.recalling passed log) = (a, env.recalling (passed ++ more) (noted log))

variable {α β : Type} {env : Environment} {f : Environment → α × Environment} {a : α}
  {more passed : List Handle} {noted : Log → Log} {c first : Handle} {hash : UInt32}

/-! ### Environments that differ in what is remembered -/

theorem recalling_nil (env : Environment) (log : Log) :
    env.recalling [] log = { env with log } := by
  unfold recalling
  rw [remembering_nil]

theorem remembering_congr {others : List Handle} (h : ∀ c, c ∈ passed ↔ c ∈ others) :
    env.remembering passed = env.remembering others := by
  unfold remembering
  simp only [h]

/-- A class that names a parent which is no global class keeps waiting for it. -/
theorem class?_remembering_of_pending {k : ClassObject} (hk : env.heap.class? c = some k)
    (hparent : k.parentHash.bind env.classByHash? = none) (passed : List Handle) :
    (env.remembering passed).heap.class? c = some k := by
  have hsame : env.parentFor? k = k.parent := by
    unfold parentFor?
    rw [hparent, Option.or_none]
  rw [class?_remembering, hk, Option.map_some, hsame]
  split <;> rfl

theorem answersAlike_resolveParent (env : Environment) (c : Handle) :
    AnswersAlike env (·.resolveParent c) (env.parent? c) [c] id := by
  intro passed log
  have hone := env.resolveParent_remembering passed c
  rw [resolveParent_eq] at hone
  refine ((env.recalling passed log).resolveParent_eq c).trans ?_
  exact congrArg (fun r : Option Handle × Environment => (r.1, { r.2 with log })) hone

/-! ### Actions that answer alike -/

/-- The answer is the one given when nothing was done before. -/
theorem AnswersAlike.answer_eq (h : AnswersAlike env f a more noted) : (f env).1 = a := by
  have hnow := h [] env.log
  rw [recalling_nil] at hnow
  exact congrArg Prod.fst hnow

/-- The lines reported are those reported when nothing was done before. -/
theorem AnswersAlike.noted_eq (h : AnswersAlike env f a more noted) (log : Log) :
    (f { env with log }).2.log = noted log := by
  have hnow := h [] log
  rw [recalling_nil] at hnow
  exact congrArg (fun r => r.2.log) hnow

theorem AnswersAlike.map (h : AnswersAlike env f a more noted) (g : α → β) :
    AnswersAlike env (fun env => (f env).map g id) (g a) more noted :=
  fun passed log => congrArg (Prod.map g id) (h passed log)

/-- A search for a member does the same on all of these environments: what it looks at in a class is
not written by a lookup, and the parent that it goes on to is the same, remembered or not. -/
theorem answersAlike_walk (env : Environment) (first : Handle) (hash : UInt32) (left : Nat)
    (current : Option Handle) (bound : Bool) :
    ∃ v more noted, AnswersAlike env (walk first hash left current bound) v more noted := by
  have hend (bound : Bool) (passed : List Handle) (log : Log) :
      (if bound then (env.recalling passed log).baseMember? hash else none) =
        if bound then env.baseMember? hash else none := by
    rw [← env.baseMember?_remembering passed hash]
    rfl
  induction left generalizing current bound with
  | zero =>
    cases current with
    | none =>
      refine ⟨_, [], id, fun passed log => Prod.ext (hend bound passed log) ?_⟩
      rw [List.append_nil]
      rfl
    | some h =>
      refine ⟨none, [], fun log => log.add .warn fun _ =>
        s!"Inheritance chain of {env.className first} is too deep", fun passed log => ?_⟩
      rw [List.append_nil, ← env.className_remembering passed]
      rfl
  | succ left ih =>
    cases current with
    | none =>
      refine ⟨if bound then env.baseMember? hash else none, [], id, fun passed log => ?_⟩
      rw [Contract.GoodEnvironment.walk_none, List.append_nil, hend]
      rfl
    | some h =>
      cases hk : env.heap.class? h with
      | none =>
        refine ⟨none, [], id, fun passed log => ?_⟩
        have hlost : (env.recalling passed log).heap.class? h = none := by
          refine (env.class?_remembering passed h).trans ?_
          rw [hk]
          rfl
        unfold walk
        rw [hlost, List.append_nil]
        rfl
      | some k =>
        cases hv : ownMember? k hash with
        | some v =>
          refine ⟨some v, [], id, fun passed log => ?_⟩
          obtain ⟨k', hk', hown, -⟩ := class?_remembering_of_some hk passed hash
          unfold walk
          rw [show (env.recalling passed log).heap.class? h = some k' from hk', List.append_nil]
          dsimp only
          rw [hown, hv]
          rfl
        | none =>
          obtain ⟨v, more, noted, hrest⟩ := ih (env.parent? h) (bound || k.entityBound)
          refine ⟨v, h :: more, noted, fun passed log => ?_⟩
          obtain ⟨k', hk', hown, hentity⟩ := class?_remembering_of_some hk passed hash
          unfold walk
          rw [show (env.recalling passed log).heap.class? h = some k' from hk']
          dsimp only
          rw [hown, hv, hentity]
          dsimp only
          rw [show (env.recalling passed log).resolveParent h = _ from
            env.answersAlike_resolveParent h passed log]
          exact (hrest (passed ++ [h]) log).trans (by rw [List.append_assoc]; rfl)

/-- Every lookup answers alike. -/
theorem answersAlike_lookUp (env : Environment) (l : Lookup) :
    ∃ answer more noted, AnswersAlike env (·.lookUp l) answer more noted := by
  cases l with
  | member c hash =>
    obtain ⟨v, more, noted, hwalk⟩ := env.answersAlike_walk c hash maxChain (some c) false
    exact ⟨_, more, noted, hwalk.map Lookup.Answer.member⟩
  | hasMember c hash =>
    obtain ⟨v, more, noted, hwalk⟩ := env.answersAlike_walk c hash maxChain (some c) false
    exact ⟨_, more, noted, hwalk.map fun v => Lookup.Answer.hasMember v.isSome⟩
  | parent c => exact ⟨_, [c], id, (env.answersAlike_resolveParent c).map Lookup.Answer.parent⟩

/-! ### Sequences -/

/-- The log after several lookups if each reports what it reports when nothing was done before. -/
def notedBy (env : Environment) (lookups : List Lookup) (log : Log) : Log :=
  lookups.foldl (fun log l => ({ env with log }.lookUp l).2.log) log

/-- Several lookups, after any others: the answers, and the environment left. -/
theorem lookUpAll_recalling (env : Environment) : ∃ more : Lookup → List Handle,
    ∀ lookups passed log, (env.recalling passed log).lookUpAll lookups =
      (lookups.map fun l => (env.lookUp l).1,
        env.recalling (passed ++ lookups.flatMap more) (env.notedBy lookups log)) := by
  choose answer more noted halike using env.answersAlike_lookUp
  refine ⟨more, fun lookups => ?_⟩
  induction lookups with
  | nil =>
    intro passed log
    rw [List.flatMap_nil, List.append_nil]
    rfl
  | cons l rest ih =>
    intro passed log
    unfold lookUpAll
    rw [show (env.recalling passed log).lookUp l = _ from halike l passed log]
    dsimp only
    rw [ih, ← (halike l).answer_eq, ← (halike l).noted_eq log, List.append_assoc]
    rfl

/-- **Lookups do not disturb lookups.** Each of several lookups is answered, and reports, as if it
had been made first, and only remembered parents are left of them. -/
theorem lookups_undisturbed (env : Environment) (lookups : List Lookup) :
    (env.lookUpAll lookups).1 = lookups.map (fun l => (env.lookUp l).1) ∧
    (∃ passed, (env.lookUpAll lookups).2 =
      { env.remembering passed with log := env.notedBy lookups env.log }) ∧
    (∀ others : List Lookup, (∀ l, l ∈ others ↔ l ∈ lookups) →
      { (env.lookUpAll others).2 with log := env.log } =
        { (env.lookUpAll lookups).2 with log := env.log }) ∧
    ∀ c k, env.heap.class? c = some k → k.parentHash.bind env.classByHash? = none →
      (env.lookUpAll lookups).2.heap.class? c = some k := by
  obtain ⟨more, hall⟩ := env.lookUpAll_recalling
  have hrun (ls : List Lookup) : env.lookUpAll ls = (ls.map fun l => (env.lookUp l).1,
      env.recalling (ls.flatMap more) (env.notedBy ls env.log)) := by
    have hfirst := hall ls [] env.log
    rwa [recalling_nil, List.nil_append] at hfirst
  rw [hrun lookups]
  refine ⟨rfl, ⟨_, rfl⟩, fun others hsame => ?_, fun c k hk hparent => ?_⟩
  · have hpassed : ∀ c, c ∈ others.flatMap more ↔ c ∈ lookups.flatMap more := by
      intro c
      simp only [List.mem_flatMap, hsame]
    rw [hrun others]
    show { env.remembering (others.flatMap more) with log := env.log } = _
    rw [remembering_congr hpassed]
    rfl
  · exact class?_remembering_of_pending hk hparent _

/-- Three classes: the first is global, the second names it as its parent, and the third names a
parent that is not there. -/
def heirs : Environment :=
  let named (hash : UInt32) (parent : Option UInt32) : Obj :=
    .scriptClass { ClassObject.ofHash hash with parentHash := parent }
  let (first, heap) := Heap.empty.alloc (named 7 none)
  let (_, heap) := heap.alloc (named 8 (some 7))
  let (_, heap) := heap.alloc (named 9 (some 6))
  let env := Environment.new heap (fun _ mem _ => (.ok .null, mem)) none default
  { env with globals := env.globals.insert 7 (.object first) }

/-- Asking for the parents of an heir and of an orphan in either order: the heir then remembers its
parent, and the orphan goes on waiting. -/
theorem lookups_undisturbed_heirs :
    let asked : List Lookup := [.parent ⟨1, 0⟩, .member ⟨1, 0⟩ 5, .parent ⟨2, 0⟩]
    let turned : List Lookup := [.parent ⟨2, 0⟩, .member ⟨1, 0⟩ 5, .parent ⟨1, 0⟩, .parent ⟨2, 0⟩]
    { (heirs.lookUpAll turned).2 with log := heirs.log } =
        { (heirs.lookUpAll asked).2 with log := heirs.log } ∧
      ∃ k, heirs.heap.class? ⟨2, 0⟩ = some k ∧ k.isParentPending ∧
        k.parentHash.bind heirs.classByHash? = none ∧
          (heirs.lookUpAll asked).2.heap.class? ⟨2, 0⟩ = some k := by
  intro asked turned
  obtain ⟨-, -, horder, hpending⟩ := lookups_undisturbed heirs asked
  refine ⟨horder turned fun l => ?_, _, rfl, rfl, rfl, hpending ⟨2, 0⟩ _ rfl rfl⟩
  simp only [asked, turned, List.mem_cons, List.not_mem_nil, or_false]
  tauto

end Environment
end ScriptVm
