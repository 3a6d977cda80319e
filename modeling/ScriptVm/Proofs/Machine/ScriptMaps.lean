import Mathlib.Data.List.Dedup
import Mathlib.Data.List.Find
import ScriptVm.Proofs.Machine.Properties

/-!
# Script maps

A map keeps an entry for every hash of a key. What it answers is what was stored last under the hash
of the key that is asked for, by the instruction that made the map or by one that stored an element.

* `lastUnder` is the last of several stores under a hash, `lastFor` the last under a key; they are
  the same store where no other key has the hash.
* `MapObject.get?_storing` is what a map of several stores finds,
  `MapObject.mem_sortedEntries_storing` what is listed of it.
* `Machine.Stored` is the history of a map, and `Stored.get?` the map that it leads to;
  `Machine.Yields` is what a machine answers for a key.
* `script_maps` is the result.
-/

namespace ScriptVm

/-! ### Stores -/

/-- The last of several stores under a hash. -/
def lastUnder (stores : List (String × Value)) (hash : UInt32) : Option (String × Value) :=
  stores.reverse.find? fun e => hashName e.1 == hash

/-- The last of several stores under a key. -/
def lastFor (stores : List (String × Value)) (key : String) : Option (String × Value) :=
  stores.reverse.find? fun e => e.1 == key

variable {stores : List (String × Value)} {e : String × Value} {hash : UInt32} {key : String}

theorem lastUnder_cons (e : String × Value) (stores : List (String × Value)) (hash : UInt32) :
    lastUnder (e :: stores) hash =
      (lastUnder stores hash).or (if hashName e.1 = hash then some e else none) := by
  unfold lastUnder
  rw [List.reverse_cons, List.find?_append]
  by_cases he : hashName e.1 = hash <;> simp [he]

theorem lastUnder_append (stores : List (String × Value)) (e : String × Value) (hash : UInt32) :
    lastUnder (stores ++ [e]) hash =
      if hashName e.1 = hash then some e else lastUnder stores hash := by
  unfold lastUnder
  rw [List.reverse_append]
  by_cases he : hashName e.1 = hash <;> simp [he]

theorem hashName_of_lastUnder (he : lastUnder stores hash = some e) : hashName e.1 = hash := by
  simpa using List.find?_some he

theorem mem_of_lastUnder (he : lastUnder stores hash = some e) : e ∈ stores :=
  List.mem_reverse.1 (List.mem_of_find?_eq_some he)

/-- A hash that something was stored under has a last store. -/
theorem exists_lastUnder (he : e ∈ stores) : ∃ d, lastUnder stores (hashName e.1) = some d := by
  cases hlast : lastUnder stores (hashName e.1) with
  | some d => exact ⟨d, rfl⟩
  | none => exact absurd (beq_self_eq_true _) (List.find?_eq_none.1 hlast e (List.mem_reverse.2 he))

/-- Where no other key has its hash, a key has what was stored under it last. -/
theorem lastUnder_eq_lastFor (h : ∀ e ∈ stores, hashName e.1 = hashName key → e.1 = key) :
    lastUnder stores (hashName key) = lastFor stores key := by
  refine List.find?_congr fun e he => Bool.eq_iff_iff.2 ?_
  rw [beq_iff_eq, beq_iff_eq]
  exact ⟨h e (List.mem_reverse.1 he), congrArg hashName⟩

namespace Table

variable {α : Type} {t : Table α} {hash : UInt32} {v : α} {x : UInt32 × α}

theorem mem_entries_insert (hx : x ∈ (t.insert hash v).entries) :
    x = (hash, v) ∨ x ∈ t.entries := by
  obtain ⟨entries⟩ := t
  simp only [insert] at hx ⊢
  induction entries with
  | nil => exact .inl (List.mem_singleton.1 hx)
  | cons e rest ih =>
    unfold put at hx
    split at hx
    · rename_i he
      rcases List.mem_cons.1 hx with rfl | hx
      · exact .inl (congrArg (·, v) he)
      · exact .inr (List.mem_cons_of_mem _ hx)
    · rcases List.mem_cons.1 hx with rfl | hx
      · exact .inr List.mem_cons_self
      · exact (ih hx).imp_right (List.mem_cons_of_mem _)

/-- An entry is found under its hash, where no hash has two. -/
theorem Distinct.get?_of_mem (ht : t.Distinct) (hx : x ∈ t.entries) : t.get? x.1 = some x.2 := by
  obtain ⟨entries⟩ := t
  simp only [Distinct, keys, get?] at ht hx ⊢
  induction entries with
  | nil => cases hx
  | cons e rest ih =>
    obtain ⟨hnew, hrest⟩ := List.nodup_cons.1 ht
    rcases List.mem_cons.1 hx with rfl | hx
    · exact if_pos rfl
    · have hne : e.1 ≠ x.1 := fun heq => hnew (List.mem_map.2 ⟨x, hx, heq.symm⟩)
      exact (if_neg hne).trans (ih hrest hx)

end Table

namespace MapObject

variable {m : MapObject}

/-- A map after several stores. -/
def storing (m : MapObject) (stores : List (String × Value)) : MapObject :=
  stores.foldl (fun m e => m.put e.1 e.2) m

theorem storing_append (m : MapObject) (stores : List (String × Value)) (e : String × Value) :
    m.storing (stores ++ [e]) = (m.storing stores).put e.1 e.2 := by
  unfold storing
  rw [List.foldl_append]
  rfl

/-- A hash has the last store under it. -/
theorem get?_storing (m : MapObject) (stores : List (String × Value)) (hash : UInt32) :
    (m.storing stores).entries.get? hash = (lastUnder stores hash).or (m.entries.get? hash) := by
  induction stores generalizing m with
  | nil => rfl
  | cons e rest ih =>
    refine (ih (m.put e.1 e.2)).trans ?_
    rw [lastUnder_cons, Option.or_assoc]
    congr 1
    by_cases he : hashName e.1 = hash
    · subst he
      rw [if_pos rfl]
      exact Table.get?_insert_self ..
    · rw [if_neg he]
      exact Table.get?_insert_of_ne _ (Ne.symm he) _

theorem get?_storing_empty (stores : List (String × Value)) (hash : UInt32) :
    (empty.storing stores).entries.get? hash = lastUnder stores hash :=
  (get?_storing empty stores hash).trans (Option.or_none ..)

/-- Every entry stands under the hash of its key, and under every hash there is one at most. -/
structure Keyed (m : MapObject) : Prop where
  distinct : m.entries.Distinct
  hashed : ∀ x ∈ m.entries.entries, x.1 = hashName x.2.1

theorem keyed_empty : empty.Keyed := ⟨Table.distinct_empty, nofun⟩

theorem Keyed.put (hm : m.Keyed) (key : String) (v : Value) : (m.put key v).Keyed := by
  refine ⟨hm.distinct.insert _ _, fun x hx => ?_⟩
  rcases Table.mem_entries_insert hx with rfl | hx
  · rfl
  · exact hm.hashed x hx

theorem Keyed.storing (hm : m.Keyed) (stores : List (String × Value)) :
    (m.storing stores).Keyed := by
  induction stores generalizing m with
  | nil => exact hm
  | cons e rest ih => exact ih (hm.put e.1 e.2)

theorem Keyed.map_values (hm : m.Keyed) :
    m.entries.values.map (fun e => hashName e.1) = m.entries.keys := by
  unfold Table.values Table.keys
  rw [List.map_map]
  exact List.map_congr_left fun x hx => (hm.hashed x hx).symm

/-- The entries are what the hashes of their keys have. -/
theorem Keyed.mem_values (hm : m.Keyed) :
    e ∈ m.entries.values ↔ m.entries.get? (hashName e.1) = some e := by
  refine ⟨fun he => ?_, Table.mem_values_of_get?⟩
  obtain ⟨x, hx, rfl⟩ := List.mem_map.1 he
  rw [← hm.hashed x hx]
  exact hm.distinct.get?_of_mem hx

/-- What is listed of a map is what was stored last under each hash. -/
theorem mem_sortedEntries_storing :
    e ∈ Memory.sortedEntries (empty.storing stores) ↔ lastUnder stores (hashName e.1) = some e := by
  have hsorted : (Memory.sortedEntries (empty.storing stores)).Perm
      (empty.storing stores).entries.values := List.mergeSort_perm ..
  rw [hsorted.mem_iff, (keyed_empty.storing stores).mem_values, get?_storing_empty]

/-- No two listed keys have the same hash. -/
theorem nodup_sortedEntries_storing (stores : List (String × Value)) :
    ((Memory.sortedEntries (empty.storing stores)).map fun e => hashName e.1).Nodup := by
  have hkeyed := keyed_empty.storing stores
  have hsorted : (Memory.sortedEntries (empty.storing stores)).Perm
      (empty.storing stores).entries.values := List.mergeSort_perm ..
  rw [(hsorted.map _).nodup_iff, hkeyed.map_values]
  exact hkeyed.distinct

/-- Every key is listed once, where no two keys that were stored have the same hash. -/
theorem keys_sortedEntries_storing
    (hdistinct : ∀ d ∈ stores, ∀ e ∈ stores, hashName d.1 = hashName e.1 → d.1 = e.1) :
    ((Memory.sortedEntries (empty.storing stores)).map (·.1)).Perm (stores.map (·.1)).dedup := by
  have hnodup : ((Memory.sortedEntries (empty.storing stores)).map (·.1)).Nodup := by
    refine List.Nodup.of_map hashName ?_
    rw [List.map_map]
    exact nodup_sortedEntries_storing stores
  refine (List.perm_ext_iff_of_nodup hnodup (List.nodup_dedup _)).2 fun key => ?_
  rw [List.mem_dedup, List.mem_map, List.mem_map]
  constructor
  · rintro ⟨e, he, rfl⟩
    exact ⟨e, mem_of_lastUnder (mem_sortedEntries_storing.1 he), rfl⟩
  · rintro ⟨d, hd, rfl⟩
    obtain ⟨e, he⟩ := exists_lastUnder hd
    have hhash := hashName_of_lastUnder he
    refine ⟨e, mem_sortedEntries_storing.2 ((congrArg (lastUnder stores) hhash).trans he), ?_⟩
    exact hdistinct e (mem_of_lastUnder he) d hd hhash

end MapObject

/-- The printed form of a map. -/
theorem Memory.format_map {mem : Memory} {h : Handle} {m : MapObject}
    (hm : mem.heap.get? h = some (.map m)) :
    mem.format (.object h) = "\x7b" ++ String.intercalate ", "
      ((sortedEntries m).map fun e => "\"" ++ e.1 ++ "\": " ++ mem.render 31 true e.2) ++
      "\x7d" := by
  show mem.renderValue (renderContainer (mem.render 31 true)) false (.object h) = _
  unfold renderValue
  dsimp only
  rw [hm]
  rfl

/-! ### The history of a map -/

namespace Machine

/-- What a map is made of: from each of several pairs the text of the key, and the value cut off
from any cell. -/
def pairsOf (mem : Memory) : List Value → List (String × Value)
  | key :: v :: rest => ((mem.heap.text? key).getD "", v.delink mem.cells) :: pairsOf mem rest
  | _ => []

/-- The topmost pairs of key and value on the operand stack, from below. -/
def pairs (m : Machine) (count : Nat) : List (String × Value) :=
  pairsOf m.env.memory
    (m.thread.stack.extract (m.thread.stack.size - count * 2) m.thread.stack.size).toList

/-- A call stores a value in the object under a handle, as the element of a key. -/
structure Puts (m : Machine) (h : Handle) (key : String) (v : Value) : Prop where
  value : m.fromTop? 0 = some v
  position : ∃ position, m.fromTop? 1 = some position ∧ m.env.heap.text? position = some key
  object : m.fromTop? 2 = some (.object h)

/-- A value, cut off from any cell, is stored in the object under a handle, if that is a map. -/
def putting (m : Machine) (h : Handle) (key : String) (v : Value) : Machine :=
  { m with
    env := m.env.mapHeap (·.modify h (Exec.storeKey key (v.delink m.env.memory.cells))) }

/-- The stores to the map under a handle, the first one first: it is made of pairs, elements are
stored in it, and whatever else is done in between leaves the map alone. -/
inductive Stored (h : Handle) : List (String × Value) → Machine → Prop
  | made {executor : Exec Unit} {m m' : Machine} {count : UInt32} (hheap : m.env.heap.Slotted)
      (hrun : Exec.perform executor (.newMap count) m = .ok () m')
      (hh : m'.fromTop? 0 = some (.object h)) : Stored h (m.pairs count.toNat) m'
  | put {executor : Exec Unit} {m m' : Machine} {stores : List (String × Value)} {key : String}
      {v : Value} (hstored : Stored h stores m) (hputs : m.Puts h key v)
      (hrun : Exec.perform executor .setElement m = .ok () m') :
      Stored h (stores ++ [(key, v.delink m.env.memory.cells)]) m'
  | aside {m m' : Machine} {stores : List (String × Value)} (hstored : Stored h stores m)
      (hsame : m'.env.heap.get? h = m.env.heap.get? h) : Stored h stores m'

/-- A call asks the object under a handle for the element of a key. -/
structure Asks (m : Machine) (h : Handle) (key : String) : Prop where
  position : ∃ position, m.fromTop? 0 = some position ∧ m.env.heap.text? position = some key
  object : m.fromTop? 1 = some (.object h)
  room : m.thread.stack.size ≤ Thread.maxStack

/-- As long as the object under a handle is as it is now, asking it for the element of a key gives a
value. -/
def Yields (m : Machine) (h : Handle) (key : String) (v : Value) : Prop :=
  ∀ (executor : Exec Unit) (m' : Machine), m'.env.heap.get? h = m.env.heap.get? h → m'.Asks h key →
    Exec.perform executor .getElement m' = .ok () (m'.mapStack fun s => s.pop.pop.push v)

end Machine

namespace Exec

open Machine

variable {m m' : Machine} {h : Handle} {executor : Exec Unit} {map filled : MapObject}

/-- Filling a map stores the pairs in order. -/
theorem fillMap_eq_ok {mem : Memory} {values : List Value}
    (hfill : fillMap mem values map = .ok filled) : filled = map.storing (pairsOf mem values) := by
  fun_induction fillMap mem values map with
  | case1 key v rest map text htext ih =>
    have hpair : pairsOf mem (key :: v :: rest) = (text, v.delink mem.cells) ::
        pairsOf mem rest := by
      rw [pairsOf, htext, Option.getD_some]
    rw [ih hfill, hpair]
    rfl
  | case2 => cases hfill
  | case3 values map hvalues =>
    cases hfill
    rw [pairsOf.eq_def]
    split
    · exact absurd rfl (hvalues _ _ _)
    · rfl

theorem heightBelow_eq_ok {count height : Nat} (hrun : heightBelow count m = .ok height m') :
    height = m.thread.stack.size - count ∧ m' = m := by
  unfold heightBelow at hrun
  split at hrun
  · cases hrun
    exact ⟨rfl, rfl⟩
  · cases hrun

theorem valuesFrom_eq_ok {start : Nat} {values : Array Value}
    (hrun : valuesFrom start m = .ok values m') :
    values = m.thread.stack.extract start m.thread.stack.size ∧ m' = m := by
  unfold valuesFrom at hrun
  split at hrun
  · cases hrun
    exact ⟨rfl, rfl⟩
  · cases hrun

theorem push_eq_ok {v : Value} (hrun : push v m = .ok () m') : m' = m.mapStack (·.push v) := by
  unfold push at hrun
  split at hrun
  · cases hrun
    rfl
  · cases hrun

theorem get?_of_alloc {o : Obj} (hheap : m.env.heap.Slotted) (hrun : alloc o m = .ok h m') :
    m'.env.heap.get? h = some o := by
  cases hrun
  exact Heap.get?_alloc_self hheap o

/-- The map that an instruction has made. -/
theorem newMap_eq_ok {count : UInt32} (hheap : m.env.heap.Slotted)
    (hrun : perform executor (.newMap count) m = .ok () m')
    (hh : m'.fromTop? 0 = some (.object h)) :
    m'.env.heap.get? h = some (.map (MapObject.empty.storing (m.pairs count.toNat))) := by
  obtain ⟨n, m₁, hsize, hrun₁⟩ := bind_eq_ok.1 hrun
  obtain ⟨-, rfl, rfl⟩ := size_eq_ok hsize
  obtain ⟨start, m₂, hheight, hrun₂⟩ := bind_eq_ok.1 hrun₁
  obtain ⟨rfl, rfl⟩ := heightBelow_eq_ok hheight
  obtain ⟨values, m₃, hvalues, hrun₃⟩ := bind_eq_ok.1 hrun₂
  obtain ⟨rfl, rfl⟩ := valuesFrom_eq_ok hvalues
  obtain ⟨mem, m₄, hmem, hrun₄⟩ := bind_eq_ok.1 hrun₃
  cases hmem
  obtain ⟨map, m₅, hmap, hrun₅⟩ := bind_eq_ok.1 hrun₄
  obtain ⟨hfill, rfl⟩ := ofExcept_eq_ok hmap
  obtain ⟨_, m₆, htruncate, hrun₆⟩ := bind_eq_ok.1 hrun₅
  cases htruncate
  obtain ⟨made, m₇, halloc, hrun₇⟩ := bind_eq_ok.1 hrun₆
  obtain rfl := push_eq_ok hrun₇
  have hmade : some (.object made) = some (Value.object h) :=
    (fromTop?_push m₇ m₇.thread.stack (.object made)).symm.trans hh
  cases hmade
  have hnew : m₇.env.heap.get? h = some (.map map) := by
    refine get?_of_alloc ?_ halloc
    exact hheap
  rw [fillMap_eq_ok hfill] at hnew
  exact hnew

theorem elementKey_of_text? {access : Access} {position : Value} {key : String}
    (hkey : m.env.heap.text? position = some key) :
    elementKey access m.env.heap position = if key = "" then .error .emptyKey else .ok key := by
  unfold elementKey
  rw [hkey]
  simp only [String.isEmpty_iff]

theorem setElement_of_map {position : Value} {key : String}
    (hmap : m.env.heap.get? h = some (.map map)) (hkey : m.env.heap.text? position = some key)
    (v : Value) :
    setElement (.object h) position v m =
      if key = "" then .error (.error (.ofCause .emptyKey)) m
      else .ok () { m with env := m.env.mapHeap (·.modify h (storeKey key v)) } := by
  have hfound : (Value.object h).object?.bind m.env.memory.heap.get? = some (.map map) := hmap
  have hstore : elementStore m.env.memory (.object h) position v =
      (elementKey .write m.env.heap position).map fun key => storeKey key v := by
    unfold elementStore
    rw [hfound]
  unfold setElement
  refine (bind_of_ok rfl).trans ?_
  rw [hstore, elementKey_of_text? hkey]
  by_cases hempty : key = ""
  · rw [if_pos hempty, if_pos hempty]
    rfl
  · rw [if_neg hempty, if_neg hempty]
    rfl

/-- Storing an element in a map. -/
theorem perform_setElement (executor : Exec Unit) {v : Value} {key : String}
    (hputs : m.Puts h key v) (hmap : m.env.heap.get? h = some (.map map)) :
    perform executor .setElement m =
      if key = "" then .error (.error (.ofCause .emptyKey)) m
      else .ok () ((m.putting h key v).mapStack fun s =>
        s.pop.pop.setIfInBounds (s.pop.pop.size - 1) v) := by
  obtain ⟨hv, ⟨position, hposition, hkey⟩, hobject⟩ := hputs
  have hset := setElement_of_map hmap hkey (v.delink m.env.memory.cells)
  have hpeeks : perform executor .setElement m =
      (setElement (.object h) position (v.delink m.env.memory.cells) >>= fun _ => do
        popMany 2
        setPeek 0 v) m :=
    (bind_of_ok (peek_of_fromTop? (by decide) hv)).trans <|
      (bind_of_ok (peek_of_fromTop? (by decide) hposition)).trans <|
        (bind_of_ok (peek_of_fromTop? (by decide) hobject)).trans (bind_of_ok rfl)
  rw [hpeeks]
  by_cases hempty : key = ""
  · rw [if_pos hempty] at hset ⊢
    exact bind_of_error hset
  · rw [if_neg hempty] at hset ⊢
    have hposition₁ : ((m.putting h key v).mapStack (·.pop)).fromTop? 0 = some position :=
      (fromTop?_pop (m.putting h key v) 0).trans hposition
    have hobject₁ : (((m.putting h key v).mapStack (·.pop)).mapStack (·.pop)).fromTop? 0 =
        some (.object h) :=
      (fromTop?_pop _ 0).trans ((fromTop?_pop (m.putting h key v) 1).trans hobject)
    have hpops : popMany 2 (m.putting h key v) =
        .ok () (((m.putting h key v).mapStack (·.pop)).mapStack (·.pop)) :=
      (bind_of_ok (pop_of_fromTop? (m := m.putting h key v) hv)).trans
        (bind_of_ok (pop_of_fromTop? hposition₁))
    refine (bind_of_ok hset).trans ((bind_of_ok hpops).trans ?_)
    exact setPeek_of_fromTop? (by decide) hobject₁ v

/-- The map that an element has been stored in. -/
theorem setElement_eq_ok {v : Value} {key : String} (hputs : m.Puts h key v)
    (hmap : m.env.heap.get? h = some (.map map))
    (hrun : perform executor .setElement m = .ok () m') :
    m'.env.heap.get? h = some (.map (map.put key (v.delink m.env.memory.cells))) := by
  rw [perform_setElement executor hputs hmap] at hrun
  split at hrun
  · cases hrun
  · cases hrun
    show (m.env.heap.modify h _).get? h = _
    rw [Heap.get?_modify, if_pos rfl, hmap]
    rfl

theorem getElement_of_map (hmap : m.env.heap.get? h = some (.map map)) (position : Value) :
    getElement (.object h) position m = (do
      let key ← ofExcept (elementKey .read m.env.heap position)
      return (map.get? key).getD .null) m := by
  have hfound : (Value.object h).object?.bind m.env.memory.heap.get? = some (.map map) := hmap
  unfold getElement
  refine (bind_of_ok rfl).trans ?_
  rw [hfound]

/-- Asking a map for the element of a key. -/
theorem perform_getElement {key : String} (hasks : m.Asks h key)
    (hmap : m.env.heap.get? h = some (.map map)) :
    perform executor .getElement m =
      if key = "" then .error (.error (.ofCause .emptyKey)) ((m.mapStack (·.pop)).mapStack (·.pop))
      else .ok () (m.mapStack fun s => s.pop.pop.push ((map.get? key).getD .null)) := by
  obtain ⟨⟨position, hposition, hkey⟩, hobject, hroom⟩ := hasks
  have hobject₁ := (fromTop?_pop m 0).trans hobject
  have hsize := (fromTop?_eq_some.1 hobject).1
  have hpops : perform executor .getElement m =
      (getElement (.object h) position >>= push) ((m.mapStack (·.pop)).mapStack (·.pop)) :=
    (bind_of_ok (pop_of_fromTop? hposition)).trans (bind_of_ok (pop_of_fromTop? hobject₁))
  have hget := getElement_of_map (m := (m.mapStack (·.pop)).mapStack (·.pop)) hmap position
  have hread : elementKey .read ((m.mapStack (·.pop)).mapStack (·.pop)).env.heap position = _ :=
    elementKey_of_text? hkey
  rw [hread] at hget
  rw [hpops]
  by_cases hempty : key = ""
  · rw [if_pos hempty] at hget ⊢
    exact bind_of_error hget
  · rw [if_neg hempty] at hget ⊢
    refine (bind_of_ok hget).trans (if_pos ?_)
    show m.thread.stack.pop.pop.size < Thread.maxStack
    rw [Array.size_pop, Array.size_pop]
    omega

end Exec

namespace Machine

open Exec

variable {m : Machine} {h : Handle} {stores : List (String × Value)}

/-- A map is what its history makes it. -/
theorem Stored.get? (hstored : Stored h stores m) :
    m.env.heap.get? h = some (.map (MapObject.empty.storing stores)) := by
  induction hstored with
  | made hheap hrun hh => exact newMap_eq_ok hheap hrun hh
  | put hstored hputs hrun ih =>
    rw [MapObject.storing_append]
    exact setElement_eq_ok hputs ih hrun
  | aside hstored hsame ih => exact hsame.trans ih

theorem Stored.yields (hstored : Stored h stores m) {key : String} (hkey : key ≠ "") :
    m.Yields h key (((lastUnder stores (hashName key)).map (·.2)).getD .null) := by
  intro executor m' hsame hasks
  rw [perform_getElement hasks (hsame.trans hstored.get?), if_neg hkey]
  unfold MapObject.get?
  rw [MapObject.get?_storing_empty]

/-- **Script maps.** A key gives what was stored last under its hash, and a printed map lists that
once for each hash. The empty key is refused. -/
theorem script_maps (hstored : Stored h stores m) :
    (∀ key, key ≠ "" →
      m.Yields h key (((lastUnder stores (hashName key)).map (·.2)).getD .null) ∧
        ((∀ e ∈ stores, hashName e.1 = hashName key → e.1 = key) →
          m.Yields h key (((lastFor stores key).map (·.2)).getD .null))) ∧
    (∀ (executor : Exec Unit) (m' : Machine) (key other : String) (v : Value), m.Puts h key v →
      perform executor .setElement m = .ok () m' → other ≠ "" → hashName other ≠ hashName key →
        ∃ w, m.Yields h other w ∧ m'.Yields h other w) ∧
    (∃ entries : List (String × Value),
      m.env.memory.format (.object h) = "\x7b" ++ String.intercalate ", "
        (entries.map fun e => "\"" ++ e.1 ++ "\": " ++ m.env.memory.render 31 true e.2) ++ "\x7d" ∧
      (∀ e, e ∈ entries ↔ lastUnder stores (hashName e.1) = some e) ∧
      (entries.map fun e => hashName e.1).Nodup ∧
      ((∀ d ∈ stores, ∀ e ∈ stores, hashName d.1 = hashName e.1 → d.1 = e.1) →
        (entries.map (·.1)).Perm (stores.map (·.1)).dedup)) ∧
    ∀ (executor : Exec Unit) (m' : Machine), m'.env.heap.get? h = m.env.heap.get? h → m'.Asks h "" →
      ∃ m'', perform executor .getElement m' = .error (.error (.ofCause .emptyKey)) m'' := by
  refine ⟨fun key hkey => ⟨hstored.yields hkey, fun hown => ?_⟩,
    fun executor m' key other v hputs hrun hother hne => ?_, ?_, fun executor m' hsame hasks => ?_⟩
  · rw [← lastUnder_eq_lastFor hown]
    exact hstored.yields hkey
  · refine ⟨_, hstored.yields hother, ?_⟩
    have hlater := (hstored.put hputs hrun).yields hother
    rwa [lastUnder_append, if_neg hne.symm] at hlater
  · exact ⟨_, Memory.format_map hstored.get?, fun e => MapObject.mem_sortedEntries_storing,
      MapObject.nodup_sortedEntries_storing stores, MapObject.keys_sortedEntries_storing⟩
  · rw [perform_getElement hasks (hsame.trans hstored.get?), if_pos rfl]
    exact ⟨_, rfl⟩

/-- A machine with pairs of a key and a number on its operand stack. -/
def withPairs (pairs : List (String × Int32)) : Machine :=
  let heap := pairs.foldl (fun heap e => (heap.alloc (.string e.1)).2) Heap.empty
  ⟨.new heap (fun _ => Native.first) none default,
    { Thread.new 0 with
      stack := (pairs.mapIdx fun i e => [Value.object ⟨i, 0⟩, .integer e.2]).flatten.toArray }⟩

theorem slotted_withPairs (pairs : List (String × Int32)) : (withPairs pairs).env.heap.Slotted := by
  show (pairs.foldl (fun heap e => (heap.alloc (.string e.1)).2) Heap.empty).Slotted
  have hempty : Heap.empty.Slotted := Heap.slotted_withThreshold _ _
  generalize Heap.empty = heap at hempty ⊢
  induction pairs generalizing heap with
  | nil => exact hempty
  | cons e rest ih => exact ih _ (Heap.slotted_alloc hempty _)

/-- Makes a map of two pairs, stores 5 under the key of the first, and asks for both and another. -/
theorem script_maps_replaced :
    ∃ stored : Machine,
      Stored ⟨2, 0⟩ [("Red", .integer 1), ("Blue", .integer 2), ("Red", .integer 5)] stored ∧
      stored.Yields ⟨2, 0⟩ "Red" (.integer 5) ∧ stored.Yields ⟨2, 0⟩ "Blue" (.integer 2) ∧
      stored.Yields ⟨2, 0⟩ "Green" .null ∧
      (stored.mapStack fun _ => #[.object ⟨2, 0⟩, .object ⟨0, 0⟩]).Asks ⟨2, 0⟩ "Red" := by
  obtain ⟨made, hrun, htop, hred⟩ : ∃ made,
      perform (execute 0) (.newMap 2) (withPairs [("Red", 1), ("Blue", 2)]) = .ok () made ∧
        made.fromTop? 0 = some (.object ⟨2, 0⟩) ∧
        made.env.heap.text? (.object ⟨0, 0⟩) = some "Red" := ⟨_, rfl, rfl, rfl⟩
  let ready := made.mapStack fun _ => #[.object ⟨2, 0⟩, .object ⟨0, 0⟩, .integer 5]
  have hready : Stored ⟨2, 0⟩ [("Red", .integer 1), ("Blue", .integer 2)] ready :=
    .aside (.made (slotted_withPairs _) hrun htop) rfl
  have hputs : ready.Puts ⟨2, 0⟩ "Red" (.integer 5) := ⟨rfl, ⟨_, rfl, hred⟩, rfl⟩
  have hset := perform_setElement (execute 0) hputs hready.get?
  rw [if_neg (by decide)] at hset
  have hstored : Stored ⟨2, 0⟩
      [("Red", .integer 1), ("Blue", .integer 2), ("Red", .integer 5)] _ := hready.put hputs hset
  obtain ⟨hyields, -⟩ := script_maps hstored
  have hanswer (key : String) (last : Option (String × Value)) (hkey : key ≠ "") (hlast : lastUnder
      [("Red", .integer 1), ("Blue", .integer 2), ("Red", .integer 5)] (hashName key) = last) :=
    hlast ▸ (hyields key hkey).1
  refine ⟨_, hstored, hanswer "Red" (some ("Red", .integer 5)) (by decide) (by decide +kernel),
    hanswer "Blue" (some ("Blue", .integer 2)) (by decide) (by decide +kernel),
    hanswer "Green" none (by decide) (by decide +kernel), ⟨_, rfl, ?_⟩, rfl,
    show 2 ≤ Thread.maxStack by decide⟩
  -- storing an element leaves the string of the key alone
  refine Eq.trans ?_ hred
  show (made.env.heap.modify ⟨2, 0⟩ _).string? ⟨0, 0⟩ = made.env.heap.string? ⟨0, 0⟩
  unfold Heap.string?
  rw [Heap.get?_modify, if_neg (by decide)]

/-- Makes a map of the pairs on the stack and asks for the first key. -/
def askFirst (count : UInt32) : Exec Unit := do
  perform (execute 0) (.newMap count)
  perform (execute 0) (.push (.object ⟨0, 0⟩))
  perform (execute 0) .getElement

/-- Two keys with the same hash share an entry, where the later one replaces the other; the empty
key can be stored when a map is made, and is refused when it is asked for. -/
theorem script_maps_shared_hash :
    let shared := withPairs [("air7", 1), ("Perf7", 2)]
    let nameless := withPairs [("", 1)]
    lastFor (shared.pairs 2) "air7" = some ("air7", .integer 1) ∧
      (∃ m, askFirst 2 shared = .ok () m ∧ m.fromTop? 0 = some (.integer 2)) ∧
      (∃ m, perform (execute 0) (.newMap 2) shared = .ok () m ∧
        m.fromTop? 0 = some (.object ⟨2, 0⟩) ∧
        m.env.memory.format (.object ⟨2, 0⟩) = "\x7b\"Perf7\": 2\x7d") ∧
      lastFor (nameless.pairs 1) "" = some ("", .integer 1) ∧
      ∃ m, askFirst 1 nameless = .error (.error (.ofCause .emptyKey)) m := by
  refine ⟨rfl, ⟨_, rfl, rfl⟩, ?_, rfl, _, rfl⟩
  obtain ⟨m, hrun, htop, hmap⟩ : ∃ m, perform (execute 0) (.newMap 2)
      (withPairs [("air7", 1), ("Perf7", 2)]) = .ok () m ∧ m.fromTop? 0 = some (.object ⟨2, 0⟩) ∧
      m.env.heap.get? ⟨2, 0⟩ =
        some (.map ⟨⟨[(hashName "air7", ("Perf7", .integer 2))]⟩⟩) := ⟨_, rfl, rfl, rfl⟩
  refine ⟨m, hrun, htop, (Memory.format_map hmap).trans ?_⟩
  unfold Memory.sortedEntries Table.values
  rw [List.map_singleton, List.mergeSort_singleton]
  rfl

end Machine
end ScriptVm
