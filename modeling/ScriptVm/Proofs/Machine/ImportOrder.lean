import Mathlib.Data.Finset.Card
import Mathlib.Data.Finset.Filter
import Mathlib.Logic.Relation

/-!
# The order of imports

Classes whose files import other classes, some before they define their own class and some after. A
file counts as fetched as soon as it is asked for, so an import of a class whose file is still
running finds the file fetched and goes on; it succeeds if the class is defined by then.

* `ImportGraph` says what the files import, `Leads` is what follows from it.
* `visit` goes through the imports in the order in which they are carried out and fails at a class
  that is pending: fetched and not yet defined.
* `Extends` is what every visit keeps, and `Settled` what it leaves behind: `done_of_visit` says
  that all that a class leads to is defined and bound after it was visited.
* `visit_of_noEarlyCycle` and `visit_of_earlyCycle` say which visits succeed: all, if no class is
  led back to from an import before its definition; and not that of a class that is.
-/

namespace ScriptVm

/-- Classes, with what the file of each imports before it defines the class and after that. -/
structure ImportGraph (α : Type) where
  classes : Finset α
  early : α → List α
  late : α → List α

/-- What has happened to classes: their files were fetched, they were defined, they were bound. -/
structure Progress (α : Type) where
  fetched : List α
  defined : List α
  bound : List α

namespace Progress

variable {α : Type}

/-- Nothing has happened. -/
def start : Progress α := ⟨[], [], []⟩

/-- The file of a class is fetched. -/
def fetch (s : Progress α) (x : α) : Progress α := { s with fetched := x :: s.fetched }

/-- A class is defined. -/
def define (s : Progress α) (x : α) : Progress α := { s with defined := x :: s.defined }

/-- A class is bound. -/
def bind (s : Progress α) (x : α) : Progress α := { s with bound := x :: s.bound }

/-- The file of a class is fetched and has not defined it yet. -/
def Pending (s : Progress α) (x : α) : Prop := x ∈ s.fetched ∧ x ∉ s.defined

/-- A class is fetched, defined and bound. -/
structure Done (s : Progress α) (x : α) : Prop where
  fetched : x ∈ s.fetched
  defined : x ∈ s.defined
  bound : x ∈ s.bound

/-- What has happened stays. -/
structure Grows (s s' : Progress α) : Prop where
  fetched : s.fetched ⊆ s'.fetched
  defined : s.defined ⊆ s'.defined
  bound : s.bound ⊆ s'.bound

/-- Moreover no class is defined but by a file that is fetched anew. -/
structure Extends (s s' : Progress α) : Prop extends s.Grows s' where
  pending : ∀ x, s.Pending x → s'.Pending x

variable {s s' s'' : Progress α} {x : α}

theorem Grows.trans (h : s.Grows s') (h' : s'.Grows s'') : s.Grows s'' :=
  ⟨List.Subset.trans h.fetched h'.fetched, List.Subset.trans h.defined h'.defined,
    List.Subset.trans h.bound h'.bound⟩

theorem Extends.refl (s : Progress α) : s.Extends s :=
  ⟨⟨List.Subset.refl _, List.Subset.refl _, List.Subset.refl _⟩, fun _ h => h⟩

theorem Extends.trans (h : s.Extends s') (h' : s'.Extends s'') : s.Extends s'' :=
  ⟨h.toGrows.trans h'.toGrows, fun x hx => h'.pending x (h.pending x hx)⟩

theorem extends_fetch (s : Progress α) (x : α) : s.Extends (s.fetch x) :=
  ⟨⟨List.subset_cons_self _ _, List.Subset.refl _, List.Subset.refl _⟩,
    fun _ h => ⟨List.mem_cons_of_mem x h.1, h.2⟩⟩

theorem grows_define (s : Progress α) (x : α) : s.Grows (s.define x) :=
  ⟨List.Subset.refl _, List.subset_cons_self _ _, List.Subset.refl _⟩

theorem extends_bind (s : Progress α) (x : α) : s.Extends (s.bind x) :=
  ⟨⟨List.Subset.refl _, List.Subset.refl _, List.subset_cons_self _ _⟩, fun _ h => h⟩

theorem Done.mono (h : s.Done x) (hgrows : s.Grows s') : s'.Done x :=
  ⟨hgrows.fetched h.fetched, hgrows.defined h.defined, hgrows.bound h.bound⟩

theorem not_pending_start (x : α) : ¬ (start : Progress α).Pending x :=
  fun h => absurd h.1 List.not_mem_nil

end Progress

namespace ImportGraph

open Progress

variable {α : Type}

section Paths

variable (g : ImportGraph α)

/-- The file of one class imports another. -/
def Imports (x y : α) : Prop := y ∈ g.early x ∨ y ∈ g.late x

/-- One class leads to another through imports. -/
abbrev Leads : α → α → Prop := Relation.ReflTransGen g.Imports

/-- Files import classes of the graph only. -/
def Closed : Prop := ∀ x ∈ g.classes, ∀ y, g.Imports x y → y ∈ g.classes

/-- No class that `x` leads to is led back to from one of its early imports. -/
def NoEarlyCycle (x : α) : Prop := ∀ y, g.Leads x y → ∀ z ∈ g.early y, ¬ g.Leads z y

/-- A class is led back to from one of its early imports. -/
def EarlyCycle (x : α) : Prop := ∃ z ∈ g.early x, g.Leads z x

/-- All that is fetched is still running or done, with all its imports. -/
def Settled (run : List α) (s : Progress α) : Prop :=
  ∀ x ∈ s.fetched, x ∈ run ∨ s.Done x ∧ ∀ y, g.Imports x y → s.Done y

end Paths

variable {g : ImportGraph α} {s s' : Progress α} {x y z : α} {n : Nat} {l run : List α}

theorem NoEarlyCycle.of_leads (hx : g.NoEarlyCycle x) (hy : g.Leads x y) : g.NoEarlyCycle y :=
  fun z hz => hx z (hy.trans hz)

theorem Settled.mono (hs : g.Settled run s) (hgrows : s.Grows s') (hsame : s'.fetched = s.fetched) :
    g.Settled run s' := by
  intro x hx
  rw [hsame] at hx
  rcases hs x hx with hrun | ⟨hdone, himports⟩
  · exact .inl hrun
  · exact .inr ⟨hdone.mono hgrows, fun y hy => (himports y hy).mono hgrows⟩

/-- A class that is fetched counts as running. -/
theorem Settled.fetch (hs : g.Settled run s) (x : α) : g.Settled (x :: run) (s.fetch x) := by
  intro y hy
  rcases List.mem_cons.1 hy with rfl | hy
  · exact .inl List.mem_cons_self
  · have hgrows := (s.extends_fetch x).toGrows
    rcases hs y hy with hrun | ⟨hdone, himports⟩
    · exact .inl (List.mem_cons_of_mem _ hrun)
    · exact .inr ⟨hdone.mono hgrows, fun z hz => (himports z hz).mono hgrows⟩

theorem settled_start (g : ImportGraph α) : g.Settled [] .start :=
  fun _ hx => absurd hx List.not_mem_nil

/-- What is settled is done, with all that it leads to. -/
theorem Settled.done (hs : g.Settled [] s) (hx : x ∈ s.fetched) (hy : g.Leads x y) : s.Done y := by
  have hall : ∀ {z}, z ∈ s.fetched → s.Done z ∧ ∀ w, g.Imports z w → s.Done w := fun hz =>
    (hs _ hz).resolve_left List.not_mem_nil
  induction hy with
  | refl => exact (hall hx).1
  | tail _ himports ih => exact (hall ih.fetched).2 _ himports

/-! ### Visits -/

variable [DecidableEq α]

/-- Visits a class, with at most `n` files running: fails if its file is fetched and it is not
defined, binds it if it is, and otherwise runs its file. -/
def visit (g : ImportGraph α) : Nat → Progress α → α → Option (Progress α)
  | 0, _, _ => none
  | n + 1, s, x =>
    if x ∈ s.fetched then
      if x ∈ s.defined then some (s.bind x) else none
    else do
      let s₁ ← (g.early x).foldlM (g.visit n) (s.fetch x)
      let s₂ ← (g.late x).foldlM (g.visit n) (s₁.define x)
      return s₂.bind x

/-- Visits classes in order. -/
abbrev visitAll (g : ImportGraph α) (n : Nat) (s : Progress α) (l : List α) : Option (Progress α) :=
  l.foldlM (g.visit n) s

/-- Whether all goes well when a class is visited first. -/
def loads (g : ImportGraph α) (x : α) : Bool := (g.visit (g.classes.card + 1) .start x).isSome

/-- The classes whose files are yet to be fetched. -/
def unfetched (g : ImportGraph α) (s : Progress α) : Finset α := g.classes.filter (· ∉ s.fetched)

theorem visit_of_defined (hfetched : x ∈ s.fetched) (hdefined : x ∈ s.defined) (n : Nat) :
    g.visit (n + 1) s x = some (s.bind x) := by
  unfold visit
  rw [if_pos hfetched, if_pos hdefined]

theorem visit_of_pending (hx : s.Pending x) (n : Nat) : g.visit (n + 1) s x = none := by
  unfold visit
  rw [if_pos hx.1, if_neg hx.2]

theorem visit_of_fresh (hfresh : x ∉ s.fetched) (n : Nat) :
    g.visit (n + 1) s x = (g.visitAll n (s.fetch x) (g.early x)).bind fun s₁ =>
      (g.visitAll n (s₁.define x) (g.late x)).bind fun s₂ => some (s₂.bind x) := by
  unfold visit
  rw [if_neg hfresh]
  rfl

/-- How a visit succeeds. -/
theorem visit_eq_some (h : g.visit (n + 1) s x = some s') :
    (x ∈ s.fetched ∧ x ∈ s.defined ∧ s' = s.bind x) ∨
    ∃ s₁ s₂, x ∉ s.fetched ∧ g.visitAll n (s.fetch x) (g.early x) = some s₁ ∧
      g.visitAll n (s₁.define x) (g.late x) = some s₂ ∧ s' = s₂.bind x := by
  by_cases hfetched : x ∈ s.fetched
  · by_cases hdefined : x ∈ s.defined
    · rw [visit_of_defined hfetched hdefined] at h
      exact .inl ⟨hfetched, hdefined, (Option.some.inj h).symm⟩
    · rw [visit_of_pending ⟨hfetched, hdefined⟩] at h
      cases h
  · rw [visit_of_fresh hfetched] at h
    obtain ⟨s₁, hearly, h⟩ := Option.bind_eq_some_iff.1 h
    obtain ⟨s₂, hlate, h⟩ := Option.bind_eq_some_iff.1 h
    exact .inr ⟨s₁, s₂, hfetched, hearly, hlate, (Option.some.inj h).symm⟩

theorem visitAll_cons (g : ImportGraph α) (n : Nat) (s : Progress α) (x : α) (l : List α) :
    g.visitAll n s (x :: l) = (g.visit n s x).bind fun s₁ => g.visitAll n s₁ l := rfl

theorem visitAll_append (g : ImportGraph α) (n : Nat) (s : Progress α) (l l' : List α) :
    g.visitAll n s (l ++ l') = (g.visitAll n s l).bind fun s₁ => g.visitAll n s₁ l' :=
  List.foldlM_append

/-- What single visits do to the progress, several do. -/
theorem visitAll_induction {R : Progress α → Progress α → Prop} (hrefl : ∀ s, R s s)
    (htrans : ∀ s s' s'', R s s' → R s' s'' → R s s'')
    (hvisit : ∀ s x s', g.visit n s x = some s' → R s s') (h : g.visitAll n s l = some s') :
    R s s' := by
  induction l generalizing s with
  | nil =>
    cases h
    exact hrefl _
  | cons x l ih =>
    rw [visitAll_cons] at h
    obtain ⟨s₁, hfirst, hrest⟩ := Option.bind_eq_some_iff.1 h
    exact htrans _ _ _ (hvisit s x s₁ hfirst) (ih hrest)

/-! ### What a visit keeps -/

theorem extends_of_visit (h : g.visit n s x = some s') : s.Extends s' ∧ s'.Done x := by
  induction n generalizing s x s' with
  | zero => cases h
  | succ n ih =>
    have hall : ∀ (s : Progress α) l s', g.visitAll n s l = some s' → s.Extends s' :=
      fun s l s' h => visitAll_induction .refl (fun _ _ _ => .trans) (fun _ _ _ h => (ih h).1) h
    rcases visit_eq_some h with ⟨hfetched, hdefined, rfl⟩ | ⟨s₁, s₂, hfresh, hearly, hlate, rfl⟩
    · exact ⟨s.extends_bind x, hfetched, hdefined, List.mem_cons_self⟩
    · have h₁ := hall _ _ _ hearly
      have h₂ := (hall _ _ _ hlate).trans (s₂.extends_bind x)
      have hbegin := (s.extends_fetch x).trans h₁
      refine ⟨⟨(hbegin.toGrows.trans (s₁.grows_define x)).trans h₂.toGrows, fun y hy => ?_⟩, ?_⟩
      · refine h₂.pending y ⟨(hbegin.pending y hy).1, fun hdefined => ?_⟩
        rcases List.mem_cons.1 hdefined with rfl | hdefined
        · exact hfresh hy.1
        · exact (hbegin.pending y hy).2 hdefined
      · exact ⟨h₂.fetched (h₁.fetched List.mem_cons_self), h₂.defined List.mem_cons_self,
          List.mem_cons_self⟩

theorem extends_of_visitAll (h : g.visitAll n s l = some s') : s.Extends s' :=
  visitAll_induction .refl (fun _ _ _ => .trans) (fun _ _ _ h => (extends_of_visit h).1) h

theorem done_of_visitAll (h : g.visitAll n s l = some s') : ∀ x ∈ l, s'.Done x := by
  induction l generalizing s with
  | nil => exact fun x hx => absurd hx List.not_mem_nil
  | cons y l ih =>
    rw [visitAll_cons] at h
    obtain ⟨s₁, hfirst, hrest⟩ := Option.bind_eq_some_iff.1 h
    intro x hx
    rcases List.mem_cons.1 hx with rfl | hx
    · exact (extends_of_visit hfirst).2.mono (extends_of_visitAll hrest).toGrows
    · exact ih hrest x hx

theorem unfetched_mono (h : s.Grows s') : g.unfetched s' ⊆ g.unfetched s := by
  intro x hx
  obtain ⟨hx, hnew⟩ := Finset.mem_filter.1 hx
  exact Finset.mem_filter.2 ⟨hx, fun hmem => hnew (h.fetched hmem)⟩

theorem card_unfetched_mono (h : s.Grows s') : (g.unfetched s').card ≤ (g.unfetched s).card :=
  Finset.card_le_card (unfetched_mono h)

theorem card_unfetched_fetch (hx : x ∈ g.classes) (hfresh : x ∉ s.fetched) :
    (g.unfetched (s.fetch x)).card < (g.unfetched s).card := by
  refine Finset.card_lt_card ((Finset.ssubset_iff_of_subset
    (unfetched_mono (s.extends_fetch x).toGrows)).2 ⟨x, Finset.mem_filter.2 ⟨hx, hfresh⟩, ?_⟩)
  exact fun h => (Finset.mem_filter.1 h).2 List.mem_cons_self

/-! ### What a visit leaves behind -/

theorem settled_visit (hs : g.Settled run s) (h : g.visit n s x = some s') : g.Settled run s' := by
  induction n generalizing run s x s' with
  | zero => cases h
  | succ n ih =>
    have hall : ∀ {run l s s'}, g.Settled run s → g.visitAll n s l = some s' →
        g.Settled run s' := by
      intro run l s s' hs h
      exact visitAll_induction (R := fun s s' => g.Settled run s → g.Settled run s') (fun _ h => h)
        (fun _ _ _ h h' hs => h' (h hs)) (fun _ _ _ h hs => ih hs h) h hs
    rcases visit_eq_some h with ⟨-, -, rfl⟩ | ⟨s₁, s₂, hfresh, hearly, hlate, rfl⟩
    · exact hs.mono (s.extends_bind x).toGrows rfl
    · have h₁ := hall (hs.fetch x) hearly
      have h₂ := hall (h₁.mono (s₁.grows_define x) rfl) hlate
      have hx := (extends_of_visit h).2
      have hgrows := (s₁.grows_define x).trans (extends_of_visitAll hlate).toGrows
      intro y hy
      rcases h₂.mono (s₂.extends_bind x).toGrows rfl y hy with hrun | hdone
      · rcases List.mem_cons.1 hrun with rfl | hrun
        · -- the file has run to its end
          refine .inr ⟨hx, fun z hz => ?_⟩
          have hz : s₂.Done z := by
            rcases hz with hz | hz
            · exact (done_of_visitAll hearly z hz).mono hgrows
            · exact done_of_visitAll hlate z hz
          exact hz.mono (s₂.extends_bind y).toGrows
        · exact .inl hrun
      · exact .inr hdone

theorem settled_visitAll (hs : g.Settled run s) (h : g.visitAll n s l = some s') :
    g.Settled run s' :=
  visitAll_induction (R := fun s s' => g.Settled run s → g.Settled run s') (fun _ h => h)
    (fun _ _ _ h h' hs => h' (h hs)) (fun _ _ _ h hs => settled_visit hs h) h hs

theorem done_of_visit (h : g.visit n .start x = some s) (hy : g.Leads x y) : s.Done y :=
  (settled_visit g.settled_start h).done (extends_of_visit h).2.fetched hy

/-! ### Which visits succeed -/

/-- A class that is led back to from one of its early imports is not defined in time. -/
theorem visit_of_earlyCycle (hx : g.EarlyCycle x) (n : Nat) : g.visit n .start x = none := by
  obtain ⟨z, hz, hback⟩ := hx
  cases n with
  | zero => rfl
  | succ n =>
    by_contra hsome
    obtain ⟨s', h⟩ := Option.ne_none_iff_exists'.1 hsome
    rcases visit_eq_some h with ⟨hfetched, -, -⟩ | ⟨s₁, s₂, -, hearly, -, -⟩
    · exact absurd hfetched List.not_mem_nil
    -- when the early imports are done, the class itself is not defined
    have hpending : s₁.Pending x :=
      (extends_of_visitAll hearly).pending x ⟨List.mem_cons_self, List.not_mem_nil⟩
    have hsettled := settled_visitAll (g.settled_start.fetch x) hearly
    have hall : ∀ {y}, g.Leads z y → s₁.Done y := by
      intro y hy
      induction hy with
      | refl => exact done_of_visitAll hearly z hz
      | @tail y w _ himports ih =>
        rcases hsettled y ih.fetched with hrun | ⟨-, hdone⟩
        · rw [List.mem_singleton.1 hrun] at ih
          exact absurd ih.defined hpending.2
        · exact hdone w himports
    exact hpending.2 (hall hback).defined

/-- Visits of classes that lead to nothing pending, where each succeeds and adds nothing pending. -/
theorem visitAll_of_unblocked
    (hvisit : ∀ s x, x ∈ l → (g.unfetched s).card < n → (∀ y, s.Pending y → ¬ g.Leads x y) →
      ∃ s', g.visit n s x = some s' ∧ ∀ y, s'.Pending y → s.Pending y)
    (hn : (g.unfetched s).card < n) (hfree : ∀ x ∈ l, ∀ y, s.Pending y → ¬ g.Leads x y) :
    ∃ s', g.visitAll n s l = some s' ∧ ∀ y, s'.Pending y → s.Pending y := by
  induction l generalizing s with
  | nil => exact ⟨s, rfl, fun _ h => h⟩
  | cons x l ih =>
    obtain ⟨s₁, hfirst, hpending₁⟩ := hvisit s x List.mem_cons_self hn (hfree x List.mem_cons_self)
    have hn₁ := Nat.lt_of_le_of_lt (card_unfetched_mono (extends_of_visit hfirst).1.toGrows) hn
    obtain ⟨s₂, hrest, hpending₂⟩ := ih
      (fun s y hy => hvisit s y (List.mem_cons_of_mem x hy)) hn₁
      (fun z hz y hy => hfree z (List.mem_cons_of_mem x hz) y (hpending₁ y hy))
    refine ⟨s₂, ?_, fun y hy => hpending₁ y (hpending₂ y hy)⟩
    rw [visitAll_cons, hfirst]
    exact hrest

/-- Without such cycles nothing pending is visited. -/
theorem visit_of_unblocked (hclosed : g.Closed) (hx : x ∈ g.classes) (hcycle : g.NoEarlyCycle x)
    (hn : (g.unfetched s).card < n) (hfree : ∀ y, s.Pending y → ¬ g.Leads x y) :
    ∃ s', g.visit n s x = some s' ∧ ∀ y, s'.Pending y → s.Pending y := by
  induction n generalizing s x with
  | zero => exact absurd hn (Nat.not_lt_zero _)
  | succ n ih =>
    by_cases hfetched : x ∈ s.fetched
    · have hdefined : x ∈ s.defined := by
        by_contra hdefined
        exact hfree x ⟨hfetched, hdefined⟩ .refl
      exact ⟨s.bind x, visit_of_defined hfetched hdefined n, fun _ h => h⟩
    have hall : ∀ y, g.Imports x y → ∀ s, (g.unfetched s).card < n →
        (∀ z, s.Pending z → ¬ g.Leads y z) →
        ∃ s', g.visit n s y = some s' ∧ ∀ z, s'.Pending z → s.Pending z := fun y hy s =>
      ih (hclosed x hx y hy) (hcycle.of_leads (.single hy))
    -- while the early imports are carried out the class itself is pending
    have hn₁ : (g.unfetched (s.fetch x)).card < n :=
      Nat.lt_of_lt_of_le (card_unfetched_fetch hx hfetched) (Nat.le_of_lt_succ hn)
    have hpending : ∀ y, (s.fetch x).Pending y → y = x ∨ s.Pending y := fun y hy =>
      (List.mem_cons.1 hy.1).imp_right fun h => ⟨h, hy.2⟩
    obtain ⟨s₁, hearly, hpending₁⟩ := visitAll_of_unblocked
      (fun s y hy => hall y (.inl hy) s) hn₁ fun z hz y hy hleads => by
        rcases hpending y hy with rfl | hy
        · exact hcycle y .refl z hz hleads
        · exact hfree y hy (.head (.inl hz) hleads)
    -- from its definition on it is not
    have hn₂ : (g.unfetched (s₁.define x)).card < n :=
      Nat.lt_of_le_of_lt
        (card_unfetched_mono ((extends_of_visitAll hearly).toGrows.trans (s₁.grows_define x))) hn₁
    have hpending₂ : ∀ y, (s₁.define x).Pending y → s.Pending y := fun y hy => by
      have hne : y ≠ x := fun h => hy.2 (h ▸ List.mem_cons_self)
      exact (hpending y (hpending₁ y ⟨hy.1, fun h => hy.2 (List.mem_cons_of_mem x h)⟩)).resolve_left
        hne
    obtain ⟨s₂, hlate, hpending₃⟩ := visitAll_of_unblocked
      (fun s y hy => hall y (.inr hy) s) hn₂ fun z hz y hy hleads =>
        hfree y (hpending₂ y hy) (.head (.inr hz) hleads)
    refine ⟨s₂.bind x, ?_, fun y hy => hpending₂ y (hpending₃ y hy)⟩
    rw [visit_of_fresh hfetched, hearly, Option.bind_some, hlate, Option.bind_some]

theorem loads_of_noEarlyCycle (hclosed : g.Closed) (hx : x ∈ g.classes)
    (hcycle : g.NoEarlyCycle x) : g.loads x = true := by
  obtain ⟨s, hs, -⟩ := visit_of_unblocked (n := g.classes.card + 1) hclosed hx hcycle
    (Nat.lt_succ_of_le (Finset.card_filter_le _ _))
    fun y hy => absurd hy (not_pending_start y)
  exact Option.isSome_iff_exists.2 ⟨s, hs⟩

theorem not_loads_of_earlyCycle (hx : g.EarlyCycle x) : g.loads x = false := by
  unfold loads
  rw [visit_of_earlyCycle hx]
  rfl

end ImportGraph
end ScriptVm
