import ScriptVm.Proofs.Heap.Accounts

/-!
# Marking marks what the roots reach

* `Reaches` is reachability: from the root handles that find an object, through the handles that
  objects hold; handles that find nothing are passed over.
* `withMarks` is a heap with given marks. Marking only ever goes from one such heap to another,
  so the walk is followed on the set of marks and on the work that is left.
* `mark_eq` says that marking an unmarked heap marks exactly the slots that are reached.
-/

namespace ScriptVm
namespace Heap

/-- The handles that some roots reach. -/
inductive Reaches (heap : Heap) (roots : List Handle) : Handle → Prop
  | root {h : Handle} : h ∈ roots → heap.contains h = true → Reaches heap roots h
  | child {h k : Handle} {o : Obj} :
    Reaches heap roots h → heap.get? h = some o → k ∈ o.children → heap.contains k = true →
      Reaches heap roots k

variable {heap : Heap} {roots : List Handle} {h k : Handle} {p : Nat → Bool} {work : List Handle}

theorem Reaches.contains (hr : heap.Reaches roots h) : heap.contains h = true := by
  cases hr with
  | root _ hc => exact hc
  | child _ _ _ hc => exact hc

/-- Reachability depends only on which roots find an object, not on their order or number. -/
theorem Reaches.of_roots {roots' : List Handle}
    (hsub : ∀ h ∈ roots, heap.contains h = true → h ∈ roots') (hr : heap.Reaches roots h) :
    heap.Reaches roots' h := by
  induction hr with
  | root hm hc => exact .root (hsub _ hm hc) hc
  | child _ ho hk hc ih => exact .child ih ho hk hc

theorem mem_childrenOf : k ∈ heap.childrenOf h ↔ ∃ o, heap.get? h = some o ∧ k ∈ o.children := by
  unfold childrenOf
  cases heap.get? h <;> simp

/-! ### Heaps with given marks -/

/-- The heap with the marks given by `p`. -/
def withMarks (heap : Heap) (p : Nat → Bool) : Heap :=
  { heap with slots := heap.slots.mapIdx fun i slot => { slot with marked := p i } }

theorem getElem?_withMarks (heap : Heap) (p : Nat → Bool) (i : Nat) :
    (heap.withMarks p).slots[i]? = heap.slots[i]?.map fun slot => { slot with marked := p i } := by
  simp [withMarks]

theorem size_withMarks (heap : Heap) (p : Nat → Bool) :
    (heap.withMarks p).slots.size = heap.slots.size := by
  simp [withMarks]

theorem get?_withMarks (heap : Heap) (p : Nat → Bool) (h : Handle) :
    (heap.withMarks p).get? h = heap.get? h := by
  simp only [get?, getElem?_withMarks]
  cases heap.slots[h.index]? <;> rfl

theorem contains_withMarks (heap : Heap) (p : Nat → Bool) (h : Handle) :
    (heap.withMarks p).contains h = heap.contains h := by
  simp only [contains, get?_withMarks]

theorem childrenOf_withMarks (heap : Heap) (p : Nat → Bool) (h : Handle) :
    (heap.withMarks p).childrenOf h = heap.childrenOf h := by
  simp only [childrenOf, get?_withMarks]

theorem isMarked_withMarks {i : Nat} (hi : i < heap.slots.size) (p : Nat → Bool) :
    (heap.withMarks p).isMarked i = p i := by
  simp [isMarked, getElem?_withMarks, hi]

/-- The marks `p` and that of slot `i`. -/
def addMark (p : Nat → Bool) (i : Nat) : Nat → Bool := fun j => j == i || p j

theorem setMark_withMarks (heap : Heap) (p : Nat → Bool) (i : Nat) :
    (heap.withMarks p).setMark i true = heap.withMarks (addMark p i) := by
  have hslots : ((heap.withMarks p).setMark i true).slots =
      (heap.withMarks (addMark p i)).slots := by
    apply Array.ext_getElem?
    intro j
    simp only [setMark, Array.getElem?_modify, getElem?_withMarks]
    by_cases hj : i = j
    · subst hj
      cases heap.slots[i]? <;> simp [addMark]
    · have hne : (j == i) = false := by simpa using Ne.symm hj
      simp [hj, addMark, hne]
  simp only [withMarks, setMark] at hslots ⊢
  rw [hslots]

/-- A heap without marks is the heap with no marks. -/
theorem withMarks_false (hs : heap.Slotted) : heap.withMarks (fun _ => false) = heap := by
  have hslots : (heap.withMarks fun _ => false).slots = heap.slots := by
    apply Array.ext_getElem?
    intro i
    rw [getElem?_withMarks]
    cases hi : heap.slots[i]? with
    | none => rfl
    | some slot => simp [← hs.unmarked i slot hi]
  simp only [withMarks] at hslots ⊢
  rw [hslots]

/-! ### The measure of the walk -/

/-- The number of slots below `n` without a mark. -/
def unmarkedBelow (p : Nat → Bool) (n : Nat) : Nat := ((List.range n).filter fun i => !p i).length

theorem unmarkedBelow_addMark {i n : Nat} (hi : i < n) (hp : p i = false) :
    unmarkedBelow (addMark p i) n + 1 = unmarkedBelow p n := by
  unfold unmarkedBelow
  induction n with
  | zero => omega
  | succ n ih =>
    rw [List.range_succ, List.filter_append, List.filter_append, List.length_append,
      List.length_append]
    by_cases hn : i = n
    · subst hn
      have hsame : (List.range i).filter (fun j => !addMark p i j) =
          (List.range i).filter fun j => !p j := by
        apply List.filter_congr
        intro j hj
        have : (j == i) = false := by simpa using Nat.ne_of_lt (List.mem_range.1 hj)
        simp [addMark, this]
      rw [hsame]
      simp [addMark, hp]
    · have hlast : addMark p i n = p n := by
        have : (n == i) = false := by simpa using Ne.symm hn
        simp [addMark, this]
      have := ih (by omega)
      simp only [List.filter_singleton, hlast]
      omega

/-! ### Graying -/

/-- What graying a list of handles does to the marks `p` and the work. -/
structure Grayed (heap : Heap) (l : List Handle) (p : Nat → Bool) (work : List Handle)
    (p' : Nat → Bool) (work' : List Handle) : Prop where
  marks : ∀ i, p i = true → p' i = true
  keeps : ∀ h ∈ work, h ∈ work'
  adds : ∀ h ∈ work', h ∈ work ∨ h ∈ l ∧ heap.contains h = true ∧ p' h.index = true
  fresh : ∀ i, p' i = true → p i = true ∨ ∃ h ∈ work', h ∈ l ∧ heap.contains h = true ∧ h.index = i
  covers : ∀ h ∈ l, heap.contains h = true → p' h.index = true
  measure : unmarkedBelow p' heap.slots.size + work'.length =
    unmarkedBelow p heap.slots.size + work.length

/-- Graying one handle, on the marks. -/
theorem gray_withMarks (heap : Heap) (p : Nat → Bool) (work : List Handle) (h : Handle) :
    gray (heap.withMarks p, work) h =
      if heap.contains h = true ∧ p h.index = false then
        (heap.withMarks (addMark p h.index), h :: work)
      else (heap.withMarks p, work) := by
  simp only [gray, contains_withMarks, setMark_withMarks]
  cases hc : heap.contains h with
  | false => simp
  | true =>
    rw [isMarked_withMarks (index_lt_of_contains hc)]
    cases p h.index <;> simp

section Graying

variable {l : List Handle} {a : Handle} {p' : Nat → Bool} {work' : List Handle}

/-- Nothing to gray. -/
theorem Grayed.nil (heap : Heap) (p : Nat → Bool) (work : List Handle) :
    Grayed heap [] p work p work where
  marks _ hi := hi
  keeps _ hh := hh
  adds _ hh := .inl hh
  fresh _ hi := .inl hi
  covers := nofun
  measure := rfl

/-- A handle that is grayed, and then the others. -/
theorem Grayed.gray (hc : heap.contains a = true) (hp : p a.index = false)
    (hg : Grayed heap l (addMark p a.index) (a :: work) p' work') :
    Grayed heap (a :: l) p work p' work' := by
  have hnew : p' a.index = true := hg.marks _ (by simp [addMark])
  constructor
  case marks => exact fun i hi => hg.marks i (by simp [addMark, hi])
  case keeps => exact fun x hx => hg.keeps x (List.mem_cons_of_mem a hx)
  case adds =>
    intro x hx
    rcases hg.adds x hx with hw | ⟨hl, hcx, hm⟩
    · rcases List.mem_cons.1 hw with rfl | hw
      · exact .inr ⟨List.mem_cons_self, hc, hnew⟩
      · exact .inl hw
    · exact .inr ⟨List.mem_cons_of_mem a hl, hcx, hm⟩
  case fresh =>
    intro i hi
    rcases hg.fresh i hi with hpi | ⟨x, hx, hl, hcx, hi⟩
    · simp only [addMark, Bool.or_eq_true, beq_iff_eq] at hpi
      rcases hpi with rfl | hpi
      · exact .inr ⟨a, hg.keeps a List.mem_cons_self, List.mem_cons_self, hc, rfl⟩
      · exact .inl hpi
    · exact .inr ⟨x, hx, List.mem_cons_of_mem a hl, hcx, hi⟩
  case covers =>
    intro x hx hcx
    rcases List.mem_cons.1 hx with rfl | hx
    · exact hnew
    · exact hg.covers x hx hcx
  case measure =>
    rw [hg.measure, List.length_cons, ← unmarkedBelow_addMark (index_lt_of_contains hc) hp]
    omega

/-- A handle that finds nothing or something marked is passed over. -/
theorem Grayed.pass (ha : heap.contains a = true → p a.index = true)
    (hg : Grayed heap l p work p' work') : Grayed heap (a :: l) p work p' work' where
  marks := hg.marks
  keeps := hg.keeps
  adds x hx := by
    rcases hg.adds x hx with hw | ⟨hl, hc, hm⟩
    · exact .inl hw
    · exact .inr ⟨List.mem_cons_of_mem a hl, hc, hm⟩
  fresh i hi := by
    rcases hg.fresh i hi with hp | ⟨x, hx, hl, hc, hi⟩
    · exact .inl hp
    · exact .inr ⟨x, hx, List.mem_cons_of_mem a hl, hc, hi⟩
  covers x hx hc := by
    rcases List.mem_cons.1 hx with rfl | hx
    · exact hg.marks _ (ha hc)
    · exact hg.covers x hx hc
  measure := hg.measure

end Graying

theorem grayed_foldl (heap : Heap) (l : List Handle) (p : Nat → Bool) (work : List Handle) :
    ∃ p' work', l.foldl gray (heap.withMarks p, work) = (heap.withMarks p', work') ∧
      Grayed heap l p work p' work' := by
  induction l generalizing p work with
  | nil => exact ⟨p, work, rfl, .nil heap p work⟩
  | cons a l ih =>
    rw [List.foldl_cons, gray_withMarks]
    split
    · rename_i ha
      obtain ⟨p', work', he, hg⟩ := ih (addMark p a.index) (a :: work)
      exact ⟨p', work', he, hg.gray ha.1 ha.2⟩
    · rename_i ha
      obtain ⟨p', work', he, hg⟩ := ih p work
      exact ⟨p', work', he, hg.pass fun hc => by simpa [hc] using ha⟩

/-! ### The walk -/

/-- The invariant of the walk: what is marked is reached, the work is marked, roots are marked, and
whatever is marked and no longer work has marked children. -/
structure Marking (heap : Heap) (roots : List Handle) (p : Nat → Bool) (work : List Handle) :
    Prop where
  sound : ∀ i, p i = true → ∃ h, h.index = i ∧ heap.Reaches roots h
  pending : ∀ h ∈ work, heap.contains h = true ∧ p h.index = true
  rooted : ∀ h ∈ roots, heap.contains h = true → p h.index = true
  closed : ∀ h, heap.contains h = true → p h.index = true → h ∉ work →
    ∀ k ∈ heap.childrenOf h, heap.contains k = true → p k.index = true

/-- A marked slot that holds an object is reached through its handle. -/
theorem Marking.reaches (hm : Marking heap roots p work) (hc : heap.contains h = true)
    (hp : p h.index = true) : heap.Reaches roots h := by
  obtain ⟨x, hx, hr⟩ := hm.sound _ hp
  rwa [eq_of_index_eq hr.contains hc hx] at hr

theorem marking_roots {p' : Nat → Bool} {work' : List Handle}
    (hg : Grayed heap roots (fun _ => false) [] p' work') : Marking heap roots p' work' := by
  refine ⟨?_, ?_, hg.covers, ?_⟩
  · intro i hi
    rcases hg.fresh i hi with hf | ⟨x, -, hl, hc, hi⟩
    · cases hf
    · exact ⟨x, hi, .root hl hc⟩
  · intro x hx
    rcases hg.adds x hx with hn | ⟨-, hc, hm⟩
    · cases hn
    · exact ⟨hc, hm⟩
  · intro x hc hp hx
    rcases hg.fresh _ hp with hf | ⟨y, hy, -, hcy, hi⟩
    · cases hf
    · rw [eq_of_index_eq hcy hc hi] at hy
      exact absurd hy hx

/-- Looking into one object keeps the invariant. -/
theorem marking_step {p' : Nat → Bool} {work' : List Handle} (hm : Marking heap roots p (h :: work))
    (hg : Grayed heap (heap.childrenOf h) p work p' work') : Marking heap roots p' work' := by
  obtain ⟨hc, hp⟩ := hm.pending h List.mem_cons_self
  have hr : heap.Reaches roots h := hm.reaches hc hp
  have hchild : ∀ k ∈ heap.childrenOf h, heap.contains k = true → heap.Reaches roots k := by
    intro k hk hck
    obtain ⟨o, ho, hko⟩ := mem_childrenOf.1 hk
    exact .child hr ho hko hck
  refine ⟨?_, ?_, fun x hx hcx => hg.marks _ (hm.rooted x hx hcx), ?_⟩
  · intro i hi
    rcases hg.fresh i hi with hold | ⟨x, -, hl, hcx, hi⟩
    · exact hm.sound i hold
    · exact ⟨x, hi, hchild x hl hcx⟩
  · intro x hx
    rcases hg.adds x hx with hold | ⟨-, hcx, hmx⟩
    · obtain ⟨hcx, hpx⟩ := hm.pending x (List.mem_cons_of_mem h hold)
      exact ⟨hcx, hg.marks _ hpx⟩
    · exact ⟨hcx, hmx⟩
  · intro x hcx hpx hx k hk hck
    by_cases hxh : x = h
    · subst hxh
      exact hg.covers k hk hck
    · -- `x` is no longer work, so its mark is an old one
      have hold : p x.index = true := by
        rcases hg.fresh _ hpx with hold | ⟨y, hy, -, hcy, hi⟩
        · exact hold
        · rw [eq_of_index_eq hcy hcx hi] at hy
          exact absurd hy hx
      have hout : x ∉ h :: work := by
        intro hin
        rcases List.mem_cons.1 hin with he | hin
        · exact hxh he
        · exact hx (hg.keeps x hin)
      exact hg.marks _ (hm.closed x hcx hold hout k hk hck)

/-- With as many steps as there are slots to mark and objects to look into, the work gets done. -/
theorem marking_blacken (n : Nat) (hm : Marking heap roots p work)
    (hn : unmarkedBelow p heap.slots.size + work.length ≤ n) :
    ∃ p', blacken n (heap.withMarks p, work) = heap.withMarks p' ∧ Marking heap roots p' [] := by
  induction n generalizing p work with
  | zero =>
    have : work = [] := List.length_eq_zero_iff.1 (by omega)
    subst this
    exact ⟨p, rfl, hm⟩
  | succ n ih =>
    cases work with
    | nil => exact ⟨p, rfl, hm⟩
    | cons h rest =>
      obtain ⟨p', work', he, hg⟩ := grayed_foldl heap (heap.childrenOf h) p rest
      have hlen := hg.measure
      rw [List.length_cons] at hn
      rw [blacken, childrenOf_withMarks, he]
      exact ih (marking_step hm hg) (by omega)

theorem unmarkedBelow_le (p : Nat → Bool) (n : Nat) : unmarkedBelow p n ≤ n := by
  have := List.length_filter_le (fun i => !p i) (List.range n)
  rwa [List.length_range] at this

/-- **Marking an unmarked heap marks exactly the slots that the roots reach.** -/
theorem mark_eq (hs : heap.Slotted) (roots : List Handle) :
    ∃ p, heap.mark roots = heap.withMarks p ∧
      ∀ i, p i = true ↔ ∃ h, h.index = i ∧ heap.Reaches roots h := by
  obtain ⟨p, work, he, hg⟩ := grayed_foldl heap roots (fun _ => false) []
  have hlen := hg.measure
  have hle := unmarkedBelow_le (fun _ => false) heap.slots.size
  simp only [List.length_nil, Nat.add_zero] at hlen
  obtain ⟨p', hb, hm⟩ := marking_blacken heap.slots.size (marking_roots hg) (by omega)
  rw [withMarks_false hs] at he
  refine ⟨p', by rw [mark, he, hb], fun i => ⟨hm.sound i, ?_⟩⟩
  rintro ⟨h, rfl, hr⟩
  induction hr with
  | root hroot hcr => exact hm.rooted _ hroot hcr
  | child hr ho hk hck ih =>
    exact hm.closed _ hr.contains ih List.not_mem_nil _ (mem_childrenOf.2 ⟨_, ho, hk⟩) hck

end Heap
end ScriptVm
