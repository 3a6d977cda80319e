import Mathlib.Data.String.Basic
import ScriptVm.Proofs.Machine.ScriptMaps

/-!
# Printed values

A container is printed as a list of what it holds, and that is printed in the same way one container
deeper. Containers may hold each other in a circle, so those inside 32 others are left out.

* `InKeyOrder` is the order in which a map is listed. `InKeyOrder.unique` says that there is only
  one such list, and `inKeyOrder_sortedEntries` that it is the one printed.
* `Memory.Shows` is what a value looks like inside a number of containers, where the containers at
  some depths are left out. `Memory.Nests` is a chain of containers, each inside the one before.
* `Memory.shows_container` takes one container apart. `Memory.shows_iff` is the induction on the
  levels that are left: it follows the depth, and with it whether strings are quoted.
* `Memory.printed_values` is the result.
-/

namespace ScriptVm

/-! ### The order of keys -/

theorem Text.charsLe_iff {cs ds : List Char} : charsLe cs ds = true ↔ ¬ds < cs := by
  fun_induction charsLe cs ds with
  | case1 ds => exact iff_of_true rfl (List.not_lt_nil ds)
  | case2 c cs => exact iff_of_false Bool.false_ne_true (not_not_intro (List.nil_lt_cons c cs))
  | case3 c cs ds ih =>
    rw [ih, List.cons_lt_cons_iff]
    simp
  | case4 c cs d ds hne =>
    rw [decide_eq_true_iff, List.cons_lt_cons_iff, not_or]
    constructor
    · intro hlt
      exact ⟨not_lt_of_gt hlt, fun heq => hne heq.1.symm⟩
    · rintro ⟨hle, -⟩
      exact show c < d from lt_of_le_of_ne (not_lt.1 hle) hne

/-- Keys are listed by code points. -/
theorem Text.le_iff {s t : String} : le s t = true ↔ s ≤ t := charsLe_iff

/-- The list has the given entries by increasing keys, those with one key in their old order. -/
structure InKeyOrder (entries listed : List (String × Value)) : Prop where
  ordered : listed.Pairwise fun a b => a.1 ≤ b.1
  same : ∀ key, listed.filter (·.1 == key) = entries.filter (·.1 == key)

theorem InKeyOrder.mem_iff {entries listed : List (String × Value)} {e : String × Value}
    (h : InKeyOrder entries listed) : e ∈ listed ↔ e ∈ entries := by
  have hsame : e ∈ listed.filter (·.1 == e.1) ↔ e ∈ entries.filter (·.1 == e.1) := by
    rw [h.same]
  simpa using hsame

/-- There is one list in the order of the keys. -/
theorem InKeyOrder.unique {entries listed listed' : List (String × Value)}
    (h : InKeyOrder entries listed) (h' : InKeyOrder entries listed') : listed = listed' := by
  induction listed generalizing entries listed' with
  | nil =>
    refine (List.eq_nil_iff_forall_not_mem.2 fun e he => ?_).symm
    exact List.not_mem_nil (h.mem_iff.2 (h'.mem_iff.1 he))
  | cons a rest ih =>
    cases listed' with
    | nil => exact absurd (h'.mem_iff.2 (h.mem_iff.1 List.mem_cons_self)) List.not_mem_nil
    | cons b rest' =>
      obtain ⟨hfirst, hrest⟩ := List.pairwise_cons.1 h.ordered
      obtain ⟨hfirst', hrest'⟩ := List.pairwise_cons.1 h'.ordered
      -- each of the two keys in front is at most the other
      have hkey : a.1 = b.1 := by
        rcases List.mem_cons.1 (h.mem_iff.2 (h'.mem_iff.1 List.mem_cons_self)) with rfl | hb
        · rfl
        rcases List.mem_cons.1 (h'.mem_iff.2 (h.mem_iff.1 List.mem_cons_self)) with rfl | ha
        · rfl
        exact le_antisymm (hfirst b hb) (hfirst' a ha)
      have hsame (key : String) :
          (a :: rest).filter (·.1 == key) = (b :: rest').filter (·.1 == key) :=
        (h.same key).trans (h'.same key).symm
      obtain rfl : a = b := by
        have hfront := hsame a.1
        rw [List.filter_cons, List.filter_cons, if_pos (beq_self_eq_true a.1),
          if_pos (beq_iff_eq.2 hkey.symm)] at hfront
        exact (List.cons.inj hfront).1
      have hbehind : InKeyOrder rest' rest := by
        refine ⟨hrest, fun key => ?_⟩
        have hsame := hsame key
        rw [List.filter_cons, List.filter_cons] at hsame
        split at hsame
        · exact (List.cons.inj hsame).2
        · exact hsame
      exact congrArg (a :: ·) (ih hbehind ⟨hrest', fun _ => rfl⟩)

/-- Sorting puts entries in the order of their keys. -/
theorem inKeyOrder_sortedEntries (m : MapObject) :
    InKeyOrder m.entries.values (Memory.sortedEntries m) := by
  have htrans : ∀ a b c : String × Value,
      Text.le a.1 b.1 = true → Text.le b.1 c.1 = true → Text.le a.1 c.1 = true := by
    intro a b c hab hbc
    exact Text.le_iff.2 (le_trans (Text.le_iff.1 hab) (Text.le_iff.1 hbc))
  have htotal : ∀ a b : String × Value, (Text.le a.1 b.1 || Text.le b.1 a.1) = true := by
    intro a b
    rw [Bool.or_eq_true, Text.le_iff, Text.le_iff]
    exact le_total a.1 b.1
  refine ⟨(List.pairwise_mergeSort htrans htotal _).imp Text.le_iff.1, fun key => ?_⟩
  -- sorting is stable, so the entries with this key stay in the order that they had
  have hequal : (m.entries.values.filter (·.1 == key)).Pairwise fun a b =>
      Text.le a.1 b.1 = true := by
    refine List.pairwise_of_forall_mem_list fun a ha b hb => Text.le_iff.2 (le_of_eq ?_)
    exact (beq_iff_eq.1 (List.mem_filter.1 ha).2).trans (beq_iff_eq.1 (List.mem_filter.1 hb).2).symm
  have hsub := (List.sublist_mergeSort htrans htotal hequal List.filter_sublist).filter (·.1 == key)
  rw [List.filter_filter, List.filter_congr fun _ _ => Bool.and_self _] at hsub
  have hperm :=
    (List.mergeSort_perm m.entries.values fun a b => Text.le a.1 b.1).filter (·.1 == key)
  exact (hsub.eq_of_length hperm.length_eq.symm).symm

namespace MapObject

variable {m m' : MapObject}

theorem Keyed.nodup_values (hm : m.Keyed) : m.entries.values.Nodup := by
  refine List.Nodup.of_map (fun e => hashName e.1) ?_
  rw [hm.map_values]
  exact hm.distinct

/-- Maps with the same entries are listed alike. -/
theorem Keyed.sortedEntries_congr (hm : m.Keyed) (hm' : m'.Keyed)
    (hsame : ∀ e, e ∈ m.entries.values ↔ e ∈ m'.entries.values) :
    Memory.sortedEntries m = Memory.sortedEntries m' := by
  have hlisted := inKeyOrder_sortedEntries m
  have hlisted' := inKeyOrder_sortedEntries m'
  have hperm : (Memory.sortedEntries m).Perm (Memory.sortedEntries m') :=
    (List.mergeSort_perm ..).trans <|
      ((List.perm_ext_iff_of_nodup hm.nodup_values hm'.nodup_values).2 hsame).trans
        (List.mergeSort_perm ..).symm
  refine hperm.eq_of_pairwise (fun a b ha hb hab hba => ?_) hlisted.ordered hlisted'.ordered
  -- entries with the same key stand under the same hash
  have ha := hm.mem_values.1 (hlisted.mem_iff.1 ha)
  have hb := hm.mem_values.1 ((hsame b).2 (hlisted'.mem_iff.1 hb))
  rw [le_antisymm hab hba] at ha
  exact Option.some.inj (ha.symm.trans hb)

end MapObject

/-! ### What values look like -/

/-- Arrays and maps. -/
def Obj.IsContainer : Obj → Prop
  | .array _ | .map _ => True
  | _ => False

/-- The values that an array or a map holds. -/
def Obj.held : Obj → List Value
  | .array values => values.toList
  | .map m => m.entries.values.map (·.2)
  | _ => []

namespace Memory

/-- A text shows a value inside of so many containers, where the containers at the depths of `cut`
are left out. Strings are bare outside of all containers and quoted in them. -/
inductive Shows (mem : Memory) (cut : Nat → Prop) : Nat → Value → String → Prop
  | plain {depth : Nat} {v : Value} (hv : v.object? = none) :
      Shows mem cut depth v (v.text mem.cells)
  | freed {depth : Nat} {h : Handle} (hh : mem.heap.get? h = none) :
      Shows mem cut depth (.object h) "<freed object>"
  | bare {h : Handle} {s : String} (hh : mem.heap.get? h = some (.string s)) :
      Shows mem cut 0 (.object h) s
  | quoted {depth : Nat} {h : Handle} {s : String} (hh : mem.heap.get? h = some (.string s)) :
      Shows mem cut (depth + 1) (.object h) ("\"" ++ s ++ "\"")
  | titled {depth : Nat} {h : Handle} {o : Obj} (hh : mem.heap.get? h = some o)
      (hstring : ∀ s, o ≠ .string s) (ho : ¬o.IsContainer) :
      Shows mem cut depth (.object h) (renderObject mem.heap (fun _ => "") false h o)
  | leftOut {depth : Nat} {h : Handle} {o : Obj} (hh : mem.heap.get? h = some o)
      (ho : o.IsContainer) (hcut : cut depth) : Shows mem cut depth (.object h) "..."
  | array {depth : Nat} {h : Handle} {values : Array Value} {inner : Value → String}
      (hh : mem.heap.get? h = some (.array values)) (hcut : ¬cut depth)
      (hinner : ∀ v ∈ values.toList, Shows mem cut (depth + 1) v (inner v)) :
      Shows mem cut depth (.object h)
        ("[" ++ String.intercalate ", " (values.toList.map inner) ++ "]")
  | map {depth : Nat} {h : Handle} {m : MapObject} {listed : List (String × Value)}
      {inner : Value → String} (hh : mem.heap.get? h = some (.map m)) (hcut : ¬cut depth)
      (hlisted : InKeyOrder m.entries.values listed)
      (hinner : ∀ e ∈ listed, Shows mem cut (depth + 1) e.2 (inner e.2)) :
      Shows mem cut depth (.object h)
        ("\x7b" ++ String.intercalate ", "
          (listed.map fun e => "\"" ++ e.1 ++ "\": " ++ inner e.2) ++ "\x7d")

/-- A chain of so many containers starts at a value: each of them is inside the one before. -/
inductive Nests (mem : Memory) : Nat → Value → Prop
  | last {h : Handle} {o : Obj} (hh : mem.heap.get? h = some o) (ho : o.IsContainer) :
      Nests mem 1 (.object h)
  | around {length : Nat} {h : Handle} {o : Obj} {w : Value} (hh : mem.heap.get? h = some o)
      (hw : w ∈ o.held) (hrest : Nests mem length w) : Nests mem (length + 1) (.object h)

variable {mem : Memory} {cut : Nat → Prop} {depth : Nat} {v : Value} {h : Handle} {o : Obj}
  {t : String}

/-! ### Chains -/

theorem Nests.exists_container {length : Nat} (hnests : Nests mem length v) :
    ∃ h o, v = .object h ∧ mem.heap.get? h = some o ∧ o.IsContainer := by
  cases hnests with
  | last hh ho => exact ⟨_, _, rfl, hh, ho⟩
  | @around _ h o w hh hw =>
    refine ⟨h, o, rfl, hh, ?_⟩
    cases o with
    | array values => trivial
    | map m => trivial
    | _ => cases hw

/-- The chains that start at a container are longer by one than those inside. -/
theorem Nests.le_succ {bound length : Nat} (hnests : Nests mem length (.object h))
    (hh : mem.heap.get? h = some o)
    (hinside : ∀ w ∈ o.held, ∀ length, Nests mem length w → length ≤ bound) :
    length ≤ bound + 1 := by
  cases hnests with
  | last => exact Nat.le_add_left 1 bound
  | around hh' hw hrest =>
    cases hh.symm.trans hh'
    exact Nat.succ_le_succ (hinside _ hw _ hrest)

/-! ### Depths -/

theorem renderObject_of_isContainer {container : Obj → String} {nested : Bool}
    (ho : o.IsContainer) : renderObject mem.heap container nested h o = container o := by
  cases o with
  | array values => rfl
  | map m => rfl
  | _ => exact ho.elim

/-- Neither the way to print containers nor the place matters for other objects, strings apart. -/
theorem renderObject_of_titled {container container' : Obj → String} {nested nested' : Bool}
    (hstring : ∀ s, o ≠ .string s) (ho : ¬o.IsContainer) :
    renderObject mem.heap container nested h o = renderObject mem.heap container' nested' h o := by
  cases o with
  | string s => exact absurd rfl (hstring s)
  | array values => exact absurd trivial ho
  | map m => exact absurd trivial ho
  | _ => rfl

/-- What a map holds are the values of the entries that are listed. -/
theorem mem_held_map {m : MapObject} {w : Value} :
    w ∈ (Obj.map m).held ↔ ∃ e ∈ sortedEntries m, e.2 = w := by
  refine List.mem_map.trans (exists_congr fun e => and_congr_left fun _ => ?_)
  exact (inKeyOrder_sortedEntries m).mem_iff.symm

/-- How a container is printed depends on how the values are printed that it holds. -/
theorem renderContainer_congr {inner inner' : Value → String}
    (h : ∀ w ∈ o.held, inner w = inner' w) :
    renderContainer inner o = renderContainer inner' o := by
  cases o with
  | array values =>
    have htexts : values.toList.map inner = values.toList.map inner' := List.map_congr_left h
    exact congrArg (fun texts => "[" ++ String.intercalate ", " texts ++ "]") htexts
  | map m =>
    have htexts : (sortedEntries m).map (fun e => "\"" ++ e.1 ++ "\": " ++ inner e.2) =
        (sortedEntries m).map fun e => "\"" ++ e.1 ++ "\": " ++ inner' e.2 :=
      List.map_congr_left fun e he => by rw [h e.2 (mem_held_map.2 ⟨e, he, rfl⟩)]
    exact congrArg (fun texts => "\x7b" ++ String.intercalate ", " texts ++ "\x7d") htexts
  | _ => rfl

/-- A container is left out, or printed by way of what it holds. -/
theorem shows_container (hh : mem.heap.get? h = some o) (ho : o.IsContainer) :
    Shows mem cut depth (.object h) t ↔
      cut depth ∧ t = "..." ∨
        ¬cut depth ∧ ∃ inner : Value → String,
          (∀ w ∈ o.held, Shows mem cut (depth + 1) w (inner w)) ∧ t = renderContainer inner o := by
  constructor
  · intro hshows
    -- only the last three rules are about containers
    cases hshows with
    | plain hv => cases hv
    | freed hh' => cases hh.symm.trans hh'
    | bare hh' => cases hh.symm.trans hh'; exact ho.elim
    | quoted hh' => cases hh.symm.trans hh'; exact ho.elim
    | titled hh' _ ho' => cases hh.symm.trans hh'; exact absurd ho ho'
    | leftOut _ _ hcut => exact .inl ⟨hcut, rfl⟩
    | array hh' hcut hinner =>
      cases hh.symm.trans hh'
      exact .inr ⟨hcut, _, hinner, rfl⟩
    | map hh' hcut hlisted hinner =>
      cases hh.symm.trans hh'
      cases hlisted.unique (inKeyOrder_sortedEntries _)
      refine .inr ⟨hcut, _, fun w hw => ?_, rfl⟩
      obtain ⟨e, he, rfl⟩ := mem_held_map.1 hw
      exact hinner e he
  · rintro (⟨hcut, rfl⟩ | ⟨hcut, inner, hinner, rfl⟩)
    · exact .leftOut hh ho hcut
    · cases o with
      | array values => exact .array hh hcut hinner
      | map m =>
        refine .map hh hcut (inKeyOrder_sortedEntries m) fun e he => ?_
        exact hinner e.2 (mem_held_map.2 ⟨e, he, rfl⟩)
      | _ => exact ho.elim

/-- A container is printed in one way, if what it holds is. -/
theorem shows_container_iff {inner : Value → String} (hh : mem.heap.get? h = some o)
    (ho : o.IsContainer) (hcut : ¬cut depth)
    (hinner : ∀ w ∈ o.held, ∀ t, Shows mem cut (depth + 1) w t ↔ t = inner w) :
    Shows mem cut depth (.object h) t ↔ t = renderContainer inner o := by
  rw [shows_container hh ho]
  constructor
  · rintro (⟨hcut', -⟩ | ⟨-, inner', hinner', rfl⟩)
    · exact absurd hcut' hcut
    · exact renderContainer_congr fun w hw => (hinner w hw _).1 (hinner' w hw)
  · intro ht
    exact .inr ⟨hcut, inner, fun w hw => (hinner w hw _).2 rfl, ht⟩

/-- An object that is no container is printed in one way. -/
theorem shows_iff_of_not_isContainer {container : Obj → String} (hh : mem.heap.get? h = some o)
    (ho : ¬o.IsContainer) :
    Shows mem cut depth (.object h) t ↔ t = renderObject mem.heap container (0 < depth) h o := by
  constructor
  · intro hshows
    cases hshows with
    | plain hv => cases hv
    | freed hh' => cases hh.symm.trans hh'
    | bare hh' => cases hh.symm.trans hh'; rfl
    | quoted hh' => cases hh.symm.trans hh'; rfl
    | titled hh' hstring => cases hh.symm.trans hh'; exact renderObject_of_titled hstring ho
    | leftOut hh' ho' => cases hh.symm.trans hh'; exact absurd ho' ho
    | array hh' => cases hh.symm.trans hh'; exact absurd trivial ho
    | map hh' => cases hh.symm.trans hh'; exact absurd trivial ho
  · rintro rfl
    by_cases hstring : ∀ s, o ≠ .string s
    · have htitle : renderObject mem.heap container (0 < depth) h o =
          renderObject mem.heap (fun _ => "") false h o := renderObject_of_titled hstring ho
      rw [htitle]
      exact .titled hh hstring ho
    · obtain ⟨s, rfl⟩ := not_forall_not.1 hstring
      cases depth with
      | zero => exact .bare hh
      | succ depth => exact .quoted hh

theorem shows_iff_of_freed (hh : mem.heap.get? h = none) :
    Shows mem cut depth (.object h) t ↔ t = "<freed object>" := by
  constructor
  · intro hshows
    cases hshows with
    | plain hv => cases hv
    | freed => rfl
    | bare hh' | quoted hh' | titled hh' | leftOut hh' | array hh' | map hh' =>
      cases hh.symm.trans hh'
  · rintro rfl
    exact .freed hh

theorem shows_iff_of_object?_eq_none (hv : v.object? = none) :
    Shows mem cut depth v t ↔ t = v.text mem.cells := by
  constructor
  · intro hshows
    cases hshows with
    | plain => rfl
    | _ => cases hv
  · rintro rfl
    exact .plain hv

/-- A value is printed in one way, if containers are. -/
theorem shows_iff_renderValue {container : Obj → String}
    (hcontainer : ∀ h o, v = .object h → mem.heap.get? h = some o → o.IsContainer →
      (Shows mem cut depth v t ↔ t = container o)) :
    Shows mem cut depth v t ↔ t = mem.renderValue container (0 < depth) v := by
  cases v with
  | object h =>
    unfold renderValue
    dsimp only
    cases hh : mem.heap.get? h with
    | none => exact shows_iff_of_freed hh
    | some o =>
      dsimp only
      by_cases ho : o.IsContainer
      · rw [renderObject_of_isContainer ho]
        exact hcontainer h o rfl hh ho
      · exact shows_iff_of_not_isContainer hh ho
  | _ => exact shows_iff_of_object?_eq_none rfl

/-- Printing with some levels left gives the one text that shows a value, if no container is left
out on these levels, and behind them all are left out or there are none. -/
theorem shows_iff {levels : Nat} (hshown : ∀ i < levels, ¬cut (depth + i))
    (hend : cut (depth + levels) ∨ ∀ length, Nests mem length v → length ≤ levels) :
    Shows mem cut depth v t ↔ t = mem.render levels (0 < depth) v := by
  induction levels generalizing depth v t with
  | zero =>
    refine shows_iff_renderValue fun h o hv hh ho => ?_
    subst hv
    rcases hend with hcut | hchain
    · have hcut : cut depth := hcut
      simp [shows_container hh ho, hcut]
    · exact absurd (hchain 1 (.last hh ho)) (by decide)
  | succ levels ih =>
    refine shows_iff_renderValue fun h o hv hh ho => ?_
    subst hv
    refine shows_container_iff hh ho (hshown 0 (Nat.succ_pos levels)) fun w hw t => ?_
    -- one container deeper a level less is left, and strings are quoted
    have hinside : Shows mem cut (depth + 1) w t ↔ t = mem.render levels (0 < depth + 1) w := by
      refine ih (fun i hi => ?_) (hend.imp (fun hcut => ?_) fun hchain length hnests => ?_)
      · rw [Nat.add_right_comm]
        exact hshown (i + 1) (Nat.succ_lt_succ hi)
      · rwa [Nat.add_right_comm]
      · exact Nat.le_of_succ_le_succ (hchain (length + 1) (.around hh hw hnests))
    rwa [decide_eq_true (Nat.succ_pos depth)] at hinside

/-- Maps with the same listing are printed alike, on any level. -/
theorem render_map_congr {g : Handle} {m m' : MapObject} (hh : mem.heap.get? h = some (.map m))
    (hg : mem.heap.get? g = some (.map m')) (hlisted : sortedEntries m = sortedEntries m')
    (levels : Nat) (nested : Bool) :
    mem.render levels nested (.object h) = mem.render levels nested (.object g) := by
  have hcontainer (inner : Value → String) :
      renderContainer inner (.map m) = renderContainer inner (.map m') := by
    show _ ++ String.intercalate ", " ((sortedEntries m).map _) ++ _ = _
    rw [hlisted]
    rfl
  cases levels with
  | zero => simp [render, renderValue, hh, hg, renderObject]
  | succ levels => simp [render, renderValue, hh, hg, renderObject, hcontainer]

/-- **Printed values.** A value is printed as the one text that shows it with containers inside 32
or more others left out, in whatever order maps were filled. -/
theorem printed_values (mem : Memory) (v : Value) :
    (∀ t, Shows mem (printDepth ≤ ·) 0 v t ↔ t = mem.format v) ∧
    ((∀ length, Nests mem length v → length ≤ printDepth) →
      ∀ t, Shows mem (fun _ => False) 0 v t ↔ t = mem.format v) ∧
    ∀ (h g : Handle) (stores stores' : List (String × Value)),
      mem.heap.get? h = some (.map (MapObject.empty.storing stores)) →
      mem.heap.get? g = some (.map (MapObject.empty.storing stores')) →
      (∀ e, e ∈ (MapObject.empty.storing stores).entries.values ↔
        e ∈ (MapObject.empty.storing stores').entries.values) →
      ∀ levels nested, mem.render levels nested (.object h) =
        mem.render levels nested (.object g) := by
  refine ⟨fun t => ?_, fun hchain t => ?_, fun h g stores stores' hh hg hsame => ?_⟩
  · refine shows_iff (fun i hi => ?_) (.inl ?_)
    · rw [Nat.zero_add]
      exact Nat.not_le.2 hi
    · rw [Nat.zero_add]
  · exact shows_iff (fun _ _ => not_false) (.inr hchain)
  · have hkeyed := MapObject.keyed_empty.storing stores
    exact render_map_congr hh hg
      (hkeyed.sortedEntries_congr (MapObject.keyed_empty.storing stores') hsame)

/-- An array with a string and a freed object, two maps with that array and a number that were
stored in different orders, and an array that holds itself. -/
def printedContainers : Memory :=
  .ofHeap <| List.foldl (fun heap o => (heap.alloc o).2) .empty
    [.string "a", .array #[.integer 1, .object ⟨0, 0⟩, .object ⟨0, 1⟩],
      .map (MapObject.empty.storing [("y", .integer 2), ("x", .object ⟨1, 0⟩)]),
      .map (MapObject.empty.storing [("x", .object ⟨1, 0⟩), ("y", .integer 2)]),
      .array #[.object ⟨4, 0⟩]]

/-- No chain that starts at the first map leads further than to the array in it. -/
theorem length_le_of_nests_printedContainers {length : Nat}
    (hnests : Nests printedContainers length (.object ⟨2, 0⟩)) : length ≤ 2 := by
  refine hnests.le_succ rfl fun w hw length hnests => ?_
  rcases List.mem_pair.1 hw with rfl | rfl
  · cases hnests
  refine hnests.le_succ rfl fun w hw length hnests => ?_
  obtain ⟨h, o, rfl, hh, ho⟩ := hnests.exists_container
  have hw : h = ⟨0, 0⟩ ∨ h = ⟨0, 1⟩ := by simpa [Obj.held] using hw
  rcases hw with rfl | rfl
  · cases (show some (Obj.string "a") = some o from hh)
    exact ho.elim
  · cases (show none = some o from hh)

/-- The maps are printed alike and in full, and the array that holds itself is cut off. -/
theorem printed_values_containers :
    let text := "\x7b\"x\": [1, \"a\", <freed object>], \"y\": 2\x7d"
    printedContainers.format (.object ⟨2, 0⟩) = text ∧
      printedContainers.format (.object ⟨3, 0⟩) = text ∧
      Shows printedContainers (fun _ => False) 0 (.object ⟨2, 0⟩) text ∧
      Shows printedContainers (printDepth ≤ ·) 0 (.object ⟨4, 0⟩)
        (String.join (List.replicate 32 "[") ++ "..." ++ String.join (List.replicate 32 "]")) := by
  intro text
  obtain ⟨-, hunlimited, hsame⟩ := printed_values printedContainers (.object ⟨2, 0⟩)
  have hordered :
    sortedEntries (MapObject.empty.storing [("x", .object ⟨1, 0⟩), ("y", .integer 2)]) =
      [("x", .object ⟨1, 0⟩), ("y", .integer 2)] := List.mergeSort_of_pairwise (by decide)
  have hsecond : printedContainers.format (.object ⟨3, 0⟩) = text := by
    rw [format_map (m := .storing .empty [("x", .object ⟨1, 0⟩), ("y", .integer 2)]) rfl, hordered]
    decide +kernel
  have hfirst : printedContainers.format (.object ⟨2, 0⟩) = text := by
    rw [← hsecond]
    exact hsame ⟨2, 0⟩ ⟨3, 0⟩ [("y", .integer 2), ("x", .object ⟨1, 0⟩)]
      [("x", .object ⟨1, 0⟩), ("y", .integer 2)] rfl rfl
      (fun e => (List.Perm.swap _ _ []).mem_iff) printDepth false
  refine ⟨hfirst, hsecond, (hunlimited (fun length hnests => ?_) text).2 hfirst.symm, ?_⟩
  · exact Nat.le_trans (length_le_of_nests_printedContainers hnests) (by decide)
  · refine ((printed_values printedContainers (.object ⟨4, 0⟩)).1 _).2 ?_
    decide +kernel

end Memory
end ScriptVm
