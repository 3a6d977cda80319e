import ScriptVm.Proofs.Machine.Landing

/-!
# Switch tables

A switch goes through its table from the front. Where it stops depends on the entries, but where it
leads is counted from the end of the table, so it does not matter how far it has read.

* `Machine.AcceptsEntry` and `Machine.MissesConstant` are the two kinds of entries that a
  search stops at.
* `searchTable_append` passes over other entries and keeps the last default among them;
  `searchTable_of_stop` and `searchTable_of_passed` are the ends of a search.
* `follow_some` counts from the end of the table, wherever the search has stopped;
  `step_switchTable` is a step at a switch, and `leadsTo_of_found` where it leads.
* `switch_tables` is the result.
-/

namespace ScriptVm

namespace Frame

/-- A call stands before a switch whose table of `count` entries is complete. -/
structure AtSwitch (f : Frame) (count : UInt16) : Prop where
  opcode : Code.opcode? f.code f.ip = some .switchTable
  counted : Code.half? f.code (f.ip + 1) = some count
  fits : f.ip + 3 + 3 * count.toNat ≤ f.code.size
  code : f.code.size ≤ Code.maxSize

/-- The entries of the switch that a call stands before. -/
def entries (f : Frame) (count : UInt16) : List (UInt8 × UInt16) :=
  Code.table f.code count.toNat (f.ip + 3)

/-- The offset just past the table. -/
def tableEnd (f : Frame) (count : UInt16) : Nat := f.ip + 3 + 3 * count.toNat

end Frame

namespace Machine

/-- An entry of a switch table that a value follows: no default, and its constant is there and equal
to the value. -/
def AcceptsEntry (m : Machine) (f : Frame) (v : Value) (e : UInt8 × UInt16) : Prop :=
  e.1 ≠ 0xFF ∧ ∃ k, m.constantOf? f e.1.toNat = some k ∧ m.env.memory.looselyEqual v k = true

/-- An entry of a switch table that is no default and has no constant. -/
def MissesConstant (m : Machine) (f : Frame) (e : UInt8 × UInt16) : Prop :=
  e.1 ≠ 0xFF ∧ m.constantOf? f e.1.toNat = none

/-- A search passes over an entry: it is a default, or its constant is there and another value. -/
def PassesEntry (m : Machine) (f : Frame) (v : Value) (e : UInt8 × UInt16) : Prop :=
  ¬ m.AcceptsEntry f v e ∧ ¬ m.MissesConstant f e

/-- A step pops the value on top of the stack and ends in a fatal fault. -/
def Refuses (m : Machine) (executor : Exec Unit) (c : Cause) : Prop :=
  c.severity = .fatal ∧
    ∃ m', Exec.step executor m = .error (.error (.ofCause c)) m' ∧
      m'.thread.stack = m.thread.stack.pop

/-- A step at a switch pops the value on top of the stack and goes to an offset, which it refuses
with a fatal fault if it is outside the code. -/
structure LeadsTo (m : Machine) (executor : Exec Unit) (f : Frame) (target : Nat) : Prop where
  inside : target ≤ f.code.size →
    Exec.step executor m = .ok () ((m.advanced f .switchTable target).mapStack (·.pop))
  outside : f.code.size < target → m.Refuses executor (.jumpOutside target)

variable {m : Machine} {f : Frame} {v : Value} {e : UInt8 × UInt16}

theorem AcceptsEntry.test (h : m.AcceptsEntry f v e) : m.test f v e.1.toNat = .ok true := by
  obtain ⟨-, k, hk, hequal⟩ := h
  unfold Machine.test
  rw [hk]
  exact congrArg Except.ok hequal

theorem MissesConstant.test (h : m.MissesConstant f e) :
    m.test f v e.1.toNat = .error (.constantRange e.1.toNat) := by
  unfold Machine.test
  rw [h.2]

theorem PassesEntry.test (h : m.PassesEntry f v e) (he : e.1 ≠ 0xFF) :
    m.test f v e.1.toNat = .ok false := by
  unfold Machine.test
  cases hk : m.constantOf? f e.1.toNat with
  | none => exact absurd ⟨he, hk⟩ h.2
  | some k =>
    have hother : m.env.memory.looselyEqual v k = false :=
      Bool.eq_false_iff.2 fun hequal => h.1 ⟨he, k, hk, hequal⟩
    exact congrArg Except.ok hother

/-! ### Moving the current call twice -/

theorem mapFrame_mapFrame (m : Machine) (u w : Frame → Frame) :
    (m.mapFrame u).mapFrame w = m.mapFrame (w ∘ u) := by
  have hframes : (m.thread.frames.modify (m.thread.frames.size - 1) u).modify
      (m.thread.frames.size - 1) w = m.thread.frames.modify (m.thread.frames.size - 1) (w ∘ u) := by
    refine Array.ext_getElem? fun i => ?_
    simp only [Array.getElem?_modify]
    split
    · exact Option.map_map ..
    · rfl
  unfold mapFrame mapFrames
  dsimp only
  rw [Array.size_modify, hframes]

theorem mapFrame_congr (hf : m.thread.frames.back? = some f) {u w : Frame → Frame} (h : u f = w f) :
    m.mapFrame u = m.mapFrame w := by
  have hframes : m.thread.frames.modify (m.thread.frames.size - 1) u =
      m.thread.frames.modify (m.thread.frames.size - 1) w := by
    refine Array.ext_getElem? fun i => ?_
    simp only [Array.getElem?_modify]
    split
    · rename_i hi
      rw [← hi, Contract.back?_eq_some hf]
      exact congrArg some h
    · rfl
  unfold mapFrame mapFrames
  dsimp only
  rw [hframes]

/-- A call that has moved past its operands and then elsewhere has just moved elsewhere. -/
theorem advanced_moved (hf : m.thread.frames.back? = some f) (op : Opcode) (next target : Nat) :
    (m.advanced f op next).mapFrame (fun _ => { f with ip := target, ipLast := f.ip }) =
      m.advanced f op target := by
  have hnoted : (m.traced f op).thread.frames.back? = some { f with ipLast := f.ip } :=
    back?_mapFrame hf _
  refine (mapFrame_mapFrame _ _ _).trans ?_
  exact mapFrame_congr hnoted rfl

end Machine

namespace Exec

open Machine Code

variable {m m' : Machine} {f : Frame} {v : Value} {code : Array UInt8} {left offset : Nat}
  {before after entries : List (UInt8 × UInt16)} {e : UInt8 × UInt16} {count : UInt16}
  {executor : Exec Unit}

/-! ### Searching -/

theorem table_cons {entry : UInt8 × UInt16}
    (hentries : table code left offset = entry :: entries) :
    ∃ left', left = left' + 1 ∧ byte? code offset = some entry.1 ∧
      half? code (offset + 1) = some entry.2 ∧ table code left' (offset + 3) = entries := by
  cases left with
  | zero => cases hentries
  | succ left' =>
    unfold table at hentries
    split at hentries
    · rename_i hbyte hhalf
      cases hentries
      exact ⟨left', rfl, hbyte, hhalf, rfl⟩
    · cases hentries

/-- All entries of a complete table are there. -/
theorem length_table (hfits : offset + 3 * left ≤ code.size) :
    (table code left offset).length = left := by
  induction left generalizing offset with
  | zero => rfl
  | succ left ih =>
    obtain ⟨index, hbyte⟩ := exists_byte? (show offset + 1 ≤ code.size by omega)
    obtain ⟨distance, hhalf⟩ := exists_half? (show offset + 1 + 2 ≤ code.size by omega)
    unfold table
    rw [hbyte, hhalf]
    exact congrArg (· + 1) (ih (by omega))

/-- A search goes on behind entries that it passes over, with the last default among them. -/
theorem searchTable_append (hentries : table code left offset = before ++ after)
    (hpassed : ∀ d ∈ before, m.PassesEntry f v d) (default : Option Nat) :
    ∃ left', left = before.length + left' ∧
      table code left' (offset + 3 * before.length) = after ∧
      searchTable code (m.test f v) left offset default =
        searchTable code (m.test f v) left' (offset + 3 * before.length)
          ((lastDefault before).or default) := by
  induction before generalizing left offset default with
  | nil => exact ⟨left, (Nat.zero_add left).symm, hentries, rfl⟩
  | cons d before ih =>
    obtain ⟨left₁, rfl, hbyte, hhalf, hrest⟩ := table_cons hentries
    obtain ⟨hd, hbefore⟩ := List.forall_mem_cons.1 hpassed
    obtain ⟨left', rfl, htable, hsearch⟩ :=
      ih hrest hbefore (if d.1 = 0xFF then some d.2.toNat else default)
    have hoffset : offset + 3 + 3 * before.length = offset + 3 * (d :: before).length := by
      rw [List.length_cons]
      omega
    have hdefault : (lastDefault before).or (if d.1 = 0xFF then some d.2.toNat else default) =
        (lastDefault (d :: before)).or default := by
      rw [lastDefault_cons, Option.or_assoc]
      split <;> rfl
    rw [hoffset] at htable hsearch
    rw [hdefault] at hsearch
    refine ⟨left', by rw [List.length_cons]; omega, htable, hsearch ▸ ?_⟩
    conv_lhs => unfold searchTable
    rw [hbyte, hhalf]
    dsimp only
    by_cases hindex : d.1 = 0xFF
    · rw [if_pos hindex, if_pos hindex]
    · rw [if_neg hindex, if_neg hindex, hd.test hindex]

/-- A search ends at the first entry that it does not pass over. -/
theorem searchTable_of_stop (hentries : table code left offset = before ++ e :: after)
    (hpassed : ∀ d ∈ before, m.PassesEntry f v d) (he : e.1 ≠ 0xFF)
    (hstop : m.test f v e.1.toNat ≠ .ok false) :
    searchTable code (m.test f v) left offset none =
      (m.test f v e.1.toNat).map fun _ => (some e.2.toNat, offset + 3 * (before.length + 1)) := by
  obtain ⟨left', -, htable, hsearch⟩ := searchTable_append hentries hpassed none
  obtain ⟨left₁, rfl, hbyte, hhalf, -⟩ := table_cons htable
  rw [hsearch]
  unfold searchTable
  rw [hbyte, hhalf]
  dsimp only
  rw [if_neg he]
  cases htest : m.test f v e.1.toNat with
  | error c => rfl
  | ok accepted =>
    cases accepted with
    | true => rfl
    | false => exact absurd htest hstop

theorem searchTable_of_accepted (hentries : table code left offset = before ++ e :: after)
    (hpassed : ∀ d ∈ before, m.PassesEntry f v d) (he : m.AcceptsEntry f v e) :
    searchTable code (m.test f v) left offset none =
      .ok (some e.2.toNat, offset + 3 * (before.length + 1)) := by
  rw [searchTable_of_stop hentries hpassed he.1 (by rw [he.test]; nofun), he.test]
  rfl

theorem searchTable_of_missing (hentries : table code left offset = before ++ e :: after)
    (hpassed : ∀ d ∈ before, m.PassesEntry f v d) (he : m.MissesConstant f e) :
    searchTable code (m.test f v) left offset none = .error (.constantRange e.1.toNat) := by
  rw [searchTable_of_stop hentries hpassed he.1 (by rw [he.test]; nofun), he.test]
  rfl

/-- A search that passes over all entries ends behind the table, with the last default. -/
theorem searchTable_of_passed (hfits : offset + 3 * left ≤ code.size)
    (hpassed : ∀ d ∈ table code left offset, m.PassesEntry f v d) :
    searchTable code (m.test f v) left offset none =
      .ok (lastDefault (table code left offset), offset + 3 * left) := by
  have hentries : table code left offset = table code left offset ++ [] := (List.append_nil _).symm
  obtain ⟨left', hleft, -, hsearch⟩ := searchTable_append hentries hpassed none
  rw [length_table hfits] at hleft hsearch
  obtain rfl : left' = 0 := by omega
  rw [hsearch, Option.or_none]
  rfl

/-! ### Following what was found -/

/-- A distance is followed from the end of the table, wherever the search has stopped. -/
theorem follow_some {stop d position : Nat} (hf : m.thread.frames.back? = some f)
    (hcode : f.code.size ≤ Code.maxSize) (hposition : position ≤ f.code.size)
    (hbound : stop + d ≤ 9223372036854775807) :
    follow stop (some d, position) m =
      moveTo (stop + d : Nat) (m.mapFrame fun _ => { f with ip := position }) := by
  have hf₁ := back?_mapFrame hf fun _ => { f with ip := position }
  have hsize : size (stop + d) (m.mapFrame fun _ => { f with ip := position }) = .ok _ _ :=
    size_of_lt (by unfold Heap.sizeRange; omega)
  have hnear : -9223372036854775808 ≤ ((stop + d : Nat) - position : Int) ∧
      ((stop + d : Nat) - position : Int) ≤ 9223372036854775807 := by
    unfold Code.maxSize at hcode
    omega
  have hoffset : offset ((stop + d : Nat) - position)
      (m.mapFrame fun _ => { f with ip := position })
      = .ok _ _ := offset_of_bounds hnear
  refine (bind_of_ok (moveTo_of_le hf hposition)).trans ?_
  refine (bind_of_ok hsize).trans ((bind_of_ok hoffset).trans ?_)
  refine (jump_eq_moveTo hf₁ ?_).trans (congrArg (moveTo · _) ?_)
  · dsimp only
    omega
  · dsimp only
    omega

/-- A step at a switch searches the table with the value on top and follows what it finds. -/
theorem step_switchTable (executor : Exec Unit) (hf : m.thread.frames.back? = some f)
    (h : f.AtSwitch count) (hv : m.thread.stack.back? = some v) :
    step executor m = (do
      let found ← ofExcept (searchTable f.code (m.test f v) count.toNat (f.ip + 3) none)
      follow (f.tableEnd count + 3) found)
        ((m.advanced f .switchTable (f.ip + 3)).mapStack (·.pop)) := by
  have hcode := h.code
  have hfits := h.fits
  have hcount := count.toNat_lt
  have hdecode : Instruction.decode? f.code (f.ip + 1) .switchTable =
      some (.switchTable count, f.ip + 3) := by
    refine (congrArg (Option.map _) h.counted).trans ?_
    rfl
  have hadvance := advance_eq hf h.code h.opcode
  rw [hdecode] at hadvance
  have hsize : size (f.ip + 3 + 3 * count.toNat + 3)
      ((m.advanced f .switchTable (f.ip + 3)).mapStack (·.pop)) = .ok _ _ :=
    size_of_lt (by unfold Code.maxSize at hcode; unfold Heap.sizeRange; omega)
  rw [step_eq, bind_of_ok hadvance]
  refine (switchTable_eq (back?_advanced hf .switchTable (f.ip + 3)) hv count).trans ?_
  exact bind_of_ok hsize

theorem leadsTo_of_moveTo (position : Nat) {target : Nat} (hf : m.thread.frames.back? = some f)
    (hstep : step executor m =
      moveTo target ((m.advanced f .switchTable position).mapStack (·.pop))) :
    m.LeadsTo executor f target := by
  have hf₁ : ((m.advanced f .switchTable position).mapStack (·.pop)).thread.frames.back? =
      some { f with ip := position, ipLast := f.ip } := back?_advanced hf .switchTable position
  refine ⟨fun hle => ?_, fun hlt => ⟨rfl, _, hstep.trans (moveTo_of_outside hf₁ ?_), rfl⟩⟩
  · rw [← advanced_moved hf .switchTable position target]
    exact hstep.trans (moveTo_of_le hf₁ hle)
  · dsimp only
    omega

/-- What a search has found is where the step leads. -/
theorem leadsTo_of_found {chosen : Option Nat} {position : Nat}
    (hf : m.thread.frames.back? = some f) (h : f.AtSwitch count)
    (hv : m.thread.stack.back? = some v)
    (hfound : searchTable f.code (m.test f v) count.toNat (f.ip + 3) none = .ok (chosen, position))
    (hposition : position ≤ f.code.size) (hnone : chosen = none → position = f.tableEnd count)
    (hd : ∀ d, chosen = some d → d < 65536) :
    m.LeadsTo executor f (chosen.elim (f.tableEnd count) (f.tableEnd count + 3 + ·)) := by
  have hf₁ : ((m.advanced f .switchTable (f.ip + 3)).mapStack (·.pop)).thread.frames.back? =
      some { f with ip := f.ip + 3, ipLast := f.ip } := back?_advanced hf .switchTable (f.ip + 3)
  have hstep := step_switchTable executor hf h hv
  rw [hfound] at hstep
  cases chosen with
  | none =>
    obtain rfl := hnone rfl
    refine leadsTo_of_moveTo (f.ip + 3) hf (hstep.trans ?_)
    exact congrFun (bind_pure_unit (x := moveTo _)) _
  | some d =>
    have hfits := h.fits
    have hcode := h.code
    have hbound : f.tableEnd count + 3 + d ≤ 9223372036854775807 := by
      have hlt := hd d rfl
      unfold Code.maxSize at hcode
      unfold Frame.tableEnd
      omega
    refine leadsTo_of_moveTo position hf (hstep.trans ?_)
    refine (follow_some hf₁ h.code hposition hbound).trans (congrArg (moveTo _) ?_)
    exact congrArg (·.mapStack (·.pop)) (advanced_moved hf .switchTable (f.ip + 3) position)

/-- A search that fails is where the step fails. -/
theorem refuses_of_missing {c : Cause} (hf : m.thread.frames.back? = some f) (h : f.AtSwitch count)
    (hv : m.thread.stack.back? = some v)
    (hfound : searchTable f.code (m.test f v) count.toNat (f.ip + 3) none = .error c) :
    m.Refuses executor c := by
  have hstep := step_switchTable executor hf h hv
  rw [hfound] at hstep
  exact ⟨searchTable_eq_error hfound, _, hstep, rfl⟩

end Exec

namespace Code

variable {entries before after : List (UInt8 × UInt16)} {e : UInt8 × UInt16}

theorem lastDefault_of_last (he : e.1 = 0xFF) (hrest : ∀ d ∈ after, d.1 ≠ 0xFF) :
    lastDefault (before ++ e :: after) = some e.2.toNat := by
  have hnone : after.reverse.find? (fun d => d.1 == 0xFF) = none := by
    refine List.find?_eq_none.2 fun d hd => ?_
    simpa using hrest d (List.mem_reverse.1 hd)
  unfold lastDefault
  rw [List.reverse_append, List.reverse_cons, List.append_assoc, List.find?_append, hnone]
  simp [he]

theorem lastDefault_of_none (hnone : ∀ e ∈ entries, e.1 ≠ 0xFF) : lastDefault entries = none := by
  refine Option.map_eq_none_iff.2 (List.find?_eq_none.2 fun d hd => ?_)
  simpa using hnone d (List.mem_reverse.1 hd)

end Code

namespace Machine

open Exec Code

variable {m : Machine} {f : Frame} {v : Value} {e : UInt8 × UInt16} {count : UInt16}
  {before after : List (UInt8 × UInt16)} {executor : Exec Unit}

/-- An entry with a property is behind a first one. -/
theorem exists_first {entries : List (UInt8 × UInt16)} {p : UInt8 × UInt16 → Prop}
    (hmem : e ∈ entries) (he : p e) :
    ∃ before d after, entries = before ++ d :: after ∧ p d ∧ ∀ d' ∈ before, ¬ p d' := by
  classical
  cases hfound : entries.find? (fun d => decide (p d)) with
  | none => exact absurd (decide_eq_true he) (List.find?_eq_none.1 hfound e hmem)
  | some d =>
    obtain ⟨hd, before, after, hentries, hfirst⟩ := List.find?_eq_some_iff_append.1 hfound
    exact ⟨before, d, after, hentries, of_decide_eq_true hd, fun d' hd' hp => by
      simpa [hp] using hfirst d' hd'⟩

/-- The end of a prefix of a table is in the code. -/
theorem entries_le (h : f.AtSwitch count) (hentries : f.entries count = before ++ e :: after) :
    f.ip + 3 + 3 * (before.length + 1) ≤ f.tableEnd count := by
  have hlength : (f.entries count).length = count.toNat := length_table h.fits
  rw [hentries, List.length_append, List.length_cons] at hlength
  unfold Frame.tableEnd
  omega

theorem leadsTo_of_accepted (hf : m.thread.frames.back? = some f) (h : f.AtSwitch count)
    (hv : m.thread.stack.back? = some v) (hentries : f.entries count = before ++ e :: after)
    (hpassed : ∀ d ∈ before, m.PassesEntry f v d) (he : m.AcceptsEntry f v e) :
    m.LeadsTo executor f (f.tableEnd count + 3 + e.2.toNat) := by
  have hend := entries_le h hentries
  refine leadsTo_of_found hf h hv (searchTable_of_accepted hentries hpassed he)
    (Nat.le_trans hend h.fits) nofun fun d hd => ?_
  cases hd
  exact e.2.toNat_lt

theorem leadsTo_of_passed (executor : Exec Unit) (hf : m.thread.frames.back? = some f)
    (h : f.AtSwitch count) (hv : m.thread.stack.back? = some v)
    (hpassed : ∀ d ∈ f.entries count, m.PassesEntry f v d) : m.LeadsTo executor f
      ((lastDefault (f.entries count)).elim (f.tableEnd count) (f.tableEnd count + 3 + ·)) := by
  refine leadsTo_of_found hf h hv (searchTable_of_passed h.fits hpassed) h.fits (fun _ => rfl)
    fun d hd => ?_
  obtain ⟨e, -, rfl⟩ := Option.map_eq_some_iff.1 hd
  exact e.2.toNat_lt

/-- If every entry that is accepted has one without a constant before it, entries with none before
them are passed over. -/
theorem passes_of_late (hlate : ∀ before e after, f.entries count = before ++ e :: after →
      m.AcceptsEntry f v e → ∃ d ∈ before, m.MissesConstant f d)
    (hentries : f.entries count = before ++ after)
    (hmisses : ∀ d ∈ before, ¬ m.MissesConstant f d) :
    ∀ d ∈ before, m.PassesEntry f v d := by
  intro d hd
  refine ⟨fun haccepts => ?_, hmisses d hd⟩
  obtain ⟨front, back, rfl⟩ := List.append_of_mem hd
  rw [List.append_assoc] at hentries
  obtain ⟨d', hd', hmissing⟩ := hlate front d _ hentries haccepts
  exact hmisses d' (List.mem_append_left _ hd') hmissing

/-- **Switch tables.** The first entry that accepts the value is followed, else the last default,
else the call goes on behind; an entry met before that misses its constant is fatal. -/
theorem switch_tables (executor : Exec Unit) (hf : m.thread.frames.back? = some f)
    (h : f.AtSwitch count) (hv : m.thread.stack.back? = some v) :
    (∀ before e after, f.entries count = before ++ e :: after → m.AcceptsEntry f v e →
      (∀ d ∈ before, ¬ m.AcceptsEntry f v d) → (∀ d ∈ before, ¬ m.MissesConstant f d) →
        m.LeadsTo executor f (f.tableEnd count + 3 + e.2.toNat)) ∧
    ((∀ before e after, f.entries count = before ++ e :: after → m.AcceptsEntry f v e →
        ∃ d ∈ before, m.MissesConstant f d) →
      ((∃ e ∈ f.entries count, m.MissesConstant f e) →
        ∃ e ∈ f.entries count, m.MissesConstant f e ∧
          m.Refuses executor (.constantRange e.1.toNat)) ∧
      ((∀ e ∈ f.entries count, ¬ m.MissesConstant f e) →
        (∀ before e after, f.entries count = before ++ e :: after → e.1 = 0xFF →
          (∀ d ∈ after, d.1 ≠ 0xFF) →
            m.LeadsTo executor f (f.tableEnd count + 3 + e.2.toNat)) ∧
        ((∀ e ∈ f.entries count, e.1 ≠ 0xFF) → m.LeadsTo executor f (f.tableEnd count)))) := by
  refine ⟨fun before e after hentries he haccepts hmisses => ?_, fun hlate =>
    ⟨?_, fun hmisses => ?_⟩⟩
  · exact leadsTo_of_accepted hf h hv hentries (fun d hd => ⟨haccepts d hd, hmisses d hd⟩) he
  · rintro ⟨e, he, hmissing⟩
    obtain ⟨before, e, after, hentries, hmissing, hfirst⟩ := exists_first he hmissing
    have hfound := searchTable_of_missing hentries (passes_of_late hlate hentries hfirst) hmissing
    refine ⟨e, ?_, hmissing, refuses_of_missing hf h hv hfound⟩
    rw [hentries]
    exact List.mem_append_right _ List.mem_cons_self
  · have hpassed := passes_of_late hlate (List.append_nil _).symm hmisses
    have hleads := leadsTo_of_passed executor hf h hv hpassed
    refine ⟨fun before e after hentries he hrest => ?_, fun hnone => ?_⟩
    · rwa [hentries, lastDefault_of_last he hrest] at hleads
    · rwa [lastDefault_of_none hnone] at hleads

/-- A machine at the start of a function with the constants 3 and 7, and with 7 on its stack. -/
def switching (code : Array UInt8) : Machine :=
  let function := { FunctionObject.ofCode 0 1 code with constants := #[.integer 3, .integer 7] }
  let heap := (Heap.empty.alloc (.function function)).2
  ⟨.new heap (fun _ => Native.first) none default,
    { Thread.new 0 with stack := #[.integer 7], frames := #[.enter ⟨0, 0⟩ code 0 none] }⟩

/-- The entry of the value is followed past a default and before an entry without a constant, which
is fatal where it comes first; a default is followed where there is no other entry. -/
theorem switch_tables_seven :
    let found : Array UInt8 := #[57, 3, 0, 255, 1, 0, 1, 2, 0, 9, 0, 0, 32, 32, 32, 32, 32, 11]
    let missing : Array UInt8 := #[57, 2, 0, 9, 0, 0, 1, 0, 0]
    let passed : Array UInt8 := #[57, 2, 0, 0, 5, 0, 255, 0, 0]
    (switching found).LeadsTo (execute 0) (.enter ⟨0, 0⟩ found 0 none) 17 ∧
      (switching missing).Refuses (execute 0) (.constantRange 9) ∧
      (switching passed).LeadsTo (execute 0) (.enter ⟨0, 0⟩ passed 0 none) 12 := by
  intro found missing passed
  have hresult (code : Array UInt8) (count : UInt16)
      (h : (Frame.enter ⟨0, 0⟩ code 0 none).AtSwitch count) :=
    switch_tables (execute 0) (m := switching code) (f := .enter ⟨0, 0⟩ code 0 none)
      (v := .integer 7) rfl h rfl
  obtain ⟨hfound, -⟩ := hresult found 3 ⟨by decide, by decide, by decide, by decide⟩
  obtain ⟨-, hmissing⟩ := hresult missing 2 ⟨by decide, by decide, by decide, by decide⟩
  obtain ⟨-, hpassed⟩ := hresult passed 2 ⟨by decide, by decide, by decide, by decide⟩
  refine ⟨?_, ?_, ?_⟩
  · refine hfound [(255, 1)] (1, 2) [(9, 0)] (by decide) ⟨by decide, .integer 7, rfl, rfl⟩ ?_ ?_
    · simp [AcceptsEntry]
    · simp [MissesConstant]
  · have hentries : (Frame.enter ⟨0, 0⟩ missing 0 none).entries 2 = [(9, 0), (1, 0)] := by decide
    have hnine : (switching missing).MissesConstant (.enter ⟨0, 0⟩ missing 0 none) (9, 0) :=
      ⟨by decide, rfl⟩
    rw [hentries] at hmissing
    have hrefused := hmissing fun before e after hsplit haccepts => by
      rcases before with _ | ⟨d, before⟩
      · cases hsplit
        obtain ⟨-, k, hk, -⟩ := haccepts
        cases hk
      · obtain ⟨rfl, -⟩ := List.cons.inj hsplit
        exact ⟨(9, 0), List.mem_cons_self, hnine⟩
    obtain ⟨e, he, hmisses, hrefuses⟩ := hrefused.1 ⟨(9, 0), List.mem_cons_self, hnine⟩
    simp only [List.mem_cons, List.not_mem_nil, or_false] at he
    rcases he with rfl | rfl
    · exact hrefuses
    · cases hmisses.2
  · have hentries : (Frame.enter ⟨0, 0⟩ passed 0 none).entries 2 = [(0, 5), (255, 0)] := by decide
    rw [hentries] at hpassed
    have hnone : ∀ e ∈ [((0 : UInt8), (5 : UInt16)), (255, 0)],
        (switching passed).PassesEntry (.enter ⟨0, 0⟩ passed 0 none) (.integer 7) e := by
      simp only [List.mem_cons, List.not_mem_nil, or_false]
      rintro e (rfl | rfl)
      · refine ⟨?_, nofun⟩
        rintro ⟨-, k, hk, hequal⟩
        cases hk
        cases hequal
      · exact ⟨fun h => h.1 rfl, fun h => h.1 rfl⟩
    refine ((hpassed ?_).2 fun e he => (hnone e he).2).1 [(0, 5)] (255, 0) [] rfl rfl nofun
    intro before e after hsplit haccepts
    refine absurd haccepts (hnone e ?_).1
    rw [hsplit]
    exact List.mem_append_right _ List.mem_cons_self

end Machine
end ScriptVm
