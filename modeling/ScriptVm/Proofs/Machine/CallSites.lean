import ScriptVm.Proofs.Machine.Landing
import ScriptVm.Proofs.Machine.OrdinarySteps

/-!
# Call sites

A call that is not the topmost waits for what one of its instructions led to. It has noted where
that instruction is.

* `Machine.Leads` is a machine about to execute such an instruction, `Frame.Waits` says of a call
  that it waits for one that is in a history of executed instructions, and `Machine.Waits n` that
  all but the `n` topmost calls do.
* `Machine.Waits.sites` and `Machine.Waits.append` keep this, and `Machine.Waits.led` is the
  fetching of an instruction that leads to a call.
-/

namespace ScriptVm

/-- The instructions that lead to calls. -/
def Instruction.Leads : Instruction → Prop
  | .call _ | .invoke _ _ _ | .newInstance _ | .importClass _ => True
  | _ => False

theorem Instruction.leads_of_adds {i : Instruction} (hi : i.adds ≠ 0) : i.Leads := by
  cases i <;> first | exact trivial | exact absurd rfl hi

/-- A machine about to execute the instruction at which the call `f` of an index is, which leads
to a call. -/
structure Machine.Leads (m : Machine) (index : Nat) (f : Frame) : Prop where
  size : m.thread.frames.size = index + 1
  caller : ∃ g, m.thread.frames.back? = some g ∧ g.function = f.function ∧ g.code = f.code ∧
    g.ip = f.ipLast
  instruction : ∃ i, m.next? = some i ∧ i.Leads

/-- The call of an index waits: the instruction at which it is was executed, it leads to a call, and
what has been executed since was above it. -/
def Frame.Waits (history : List Machine) (index : Nat) (f : Frame) : Prop :=
  ∃ earlier m later, history = earlier ++ m :: later ∧ m.Leads index f ∧
    ∀ m' ∈ later, index + 1 < m'.thread.frames.size

/-- All but the `n` topmost calls wait. -/
def Machine.Waits (n : Nat) (history : List Machine) (m : Machine) : Prop :=
  ∀ index f, index + n < m.thread.frames.size → m.thread.frames[index]? = some f →
  f.Waits history index

namespace Frame.Waits

variable {history later : List Machine} {index : Nat} {f f' : Frame}

theorem site (h : f.Waits history index) (hsite : f.SameSite f') : f'.Waits history index := by
  obtain ⟨earlier, m, later, rfl, ⟨hsize, ⟨g, hg, hfunction, hcode, hip⟩, hleads⟩, hlater⟩ := h
  refine ⟨earlier, m, later, rfl, ⟨hsize, ⟨g, hg, ?_, ?_, ?_⟩, hleads⟩, hlater⟩
  · rw [hfunction, hsite.function]
  · rw [hcode, hsite.code]
  · rw [hip, hsite.ipLast]

theorem append (h : f.Waits history index)
    (habove : ∀ m ∈ later, index + 1 < m.thread.frames.size) :
    f.Waits (history ++ later) index := by
  obtain ⟨earlier, m, between, rfl, hleads, hbetween⟩ := h
  refine ⟨earlier, m, between ++ later, by rw [List.append_assoc, List.cons_append], hleads, ?_⟩
  exact List.forall_mem_append.2 ⟨hbetween, habove⟩

end Frame.Waits

namespace Machine

/-- The same number of calls. -/
def SameDepth (m m' : Machine) : Prop := m'.thread.frames.size = m.thread.frames.size

instance : IsTrans Machine SameDepth := ⟨fun _ _ _ h h' => h'.trans h⟩

instance : AdmitsCurrent SameDepth where
  refl _ := rfl
  stack _ _ := rfl
  search _ _ _ := rfl
  current _ _ _ := Array.size_modify

namespace Waits

variable {m m' : Machine} {history later : List Machine} {j n : Nat} {i : Instruction}

theorem mono (h : m.Waits j history) (hle : j ≤ n) : m.Waits n history :=
  fun index f hindex hf => h index f (by omega) hf

theorem sites (h : m.Waits j history) (hsites : m.SameSites n m') : m'.Waits (j + n) history := by
  intro index f' hindex hf'
  have hsize := hsites.size_le
  obtain ⟨f, f'', hf, hf'', hsite⟩ := hsites index (by omega)
  cases hf'.symm.trans hf''
  exact (h index f (by omega) hf).site hsite

/-- What is executed above the calls that wait. -/
theorem append (h : m.Waits n history)
    (habove : ∀ m' ∈ later, m.thread.frames.size < m'.thread.frames.size + n) :
    m.Waits n (history ++ later) := by
  refine fun index f hindex hf => (h index f hindex hf).append fun m' hm' => ?_
  have hlt := habove m' hm'
  omega

/-- The current call moves, and the others wait. -/
theorem advance (h : m.Waits 1 history) : (Exec.after Exec.advance m).Waits 1 (history ++ [m]) := by
  intro index f' hindex hf'
  have hsize : (Exec.after Exec.advance m).thread.frames.size = m.thread.frames.size :=
    Exec.keeps_advance (R := SameDepth) m
  obtain ⟨f, f'', hf, hf'', hsite⟩ := Exec.ordinary_advance.sites m index hindex
  cases hf'.symm.trans hf''
  refine ((h index f (by omega) hf).site hsite).append fun m' hm' => ?_
  cases List.mem_singleton.1 hm'
  omega

/-- The current call comes to an instruction that leads to a call, and waits. -/
theorem led (h : m.Waits 1 history) (hrun : Exec.advance m = .ok i m') (hi : i.Leads) :
    m'.Waits 0 (history ++ [m]) := by
  intro index f' hindex hf'
  have hothers := h.advance
  rw [Exec.after_of_ok hrun] at hothers
  by_cases hlt : index + 1 < m'.thread.frames.size
  · exact hothers index f' hlt hf'
  obtain ⟨f, hf⟩ : ∃ f, m.thread.frames.back? = some f := by
    cases hf : m.thread.frames.back? with
    | none =>
      cases (Exec.bind_of_error (Exec.bind_of_error (Exec.frame_of_none hf))).symm.trans hrun
    | some f => exact ⟨f, rfl⟩
  -- the topmost call is the one that the instruction was fetched for
  have hnext := Exec.next?_of_advance hrun
  obtain ⟨op, next, -, -, rfl⟩ := Exec.advance_eq_ok hf hrun
  have hsize : (m.advanced f op next).thread.frames.size = m.thread.frames.size :=
    size_advanced m f op next
  have hlast : index = (m.advanced f op next).thread.frames.size - 1 := by omega
  have hback : (m.advanced f op next).thread.frames.back? = some f' := by
    rw [Array.back?_eq_getElem?, ← hlast, hf']
  cases hback.symm.trans (back?_advanced hf op next)
  refine ⟨history, m, [], rfl, ⟨?_, ⟨f, hf, rfl, rfl, rfl⟩, i, hnext, hi⟩, fun _ h =>
    absurd h List.not_mem_nil⟩
  omega

end Waits
end Machine
end ScriptVm
