import ScriptVm.Environment.Collection
import ScriptVm.Machine.Entity
import ScriptVm.Machine.Execute

/-!
# Virtual machines

An environment and all its threads. Actions run on one thread at a time; collections look at the
roots of all of them.
-/

namespace ScriptVm

/-- An environment and its threads. -/
structure Vm where
  env : Environment
  threads : Array Thread
deriving Inhabited

namespace Vm

variable {α ε : Type}

/-- A machine with `count` threads. -/
def new (env : Environment) (count : Nat) : Vm := ⟨env, (Array.range count).map Thread.new⟩

/-- Runs an action on a thread; a thread that is not there is a new one for the time. -/
def onThread (id : Nat) (x : EStateM ε Machine α) : EStateM ε Vm α := fun ⟨env, threads⟩ =>
  match x ⟨env, threads[id]?.getD (.new id)⟩ with
  | .ok a ⟨env, thread⟩ => .ok a ⟨env, threads.setIfInBounds id thread⟩
  | .error e ⟨env, thread⟩ => .error e ⟨env, threads.setIfInBounds id thread⟩

/-- Runs a collection with the threads at hand. -/
def collecting (x : List Thread → Environment.Collect α) : EStateM SizeOverflow Vm α :=
  fun ⟨env, threads⟩ =>
    match x threads.toList env with
    | .ok a env => .ok a ⟨env, threads⟩
    | .error e env => .error e ⟨env, threads⟩

/-- Collects unless several threads are active. -/
def forceCollection : EStateM SizeOverflow Vm (Option CollectionReport) :=
  collecting Environment.force

/-- Collects if the accounted size is above the threshold. -/
def requestCollection : EStateM SizeOverflow Vm (Option CollectionReport) :=
  collecting Environment.request

/-- Resets every thread. -/
def resetThreads (vm : Vm) : Vm := { vm with threads := vm.threads.map Thread.reset }

/-- Takes everything down. -/
def dispose : EStateM SizeOverflow Vm Unit := do
  modify resetThreads
  collecting Environment.dispose

end Vm
end ScriptVm
