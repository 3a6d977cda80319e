import ScriptVm.Environment

/-!
# Collecting an environment

* `roots` are the handles that keep objects alive: those of the threads, the tables, the lists of
  what is loaded, and the extra roots of the host.
* `force` collects unless several threads are active; `request` collects when the accounted size
  is above the threshold.
* `dispose` takes everything down in two collections.

A collection whose next threshold leaves the range of sizes fails with `SizeOverflow`; the objects
are gone by then.
-/

namespace ScriptVm

/-- The next threshold is not a size. -/
inductive SizeOverflow where
  | mk
deriving DecidableEq, Inhabited

namespace Environment

/-- An action on an environment that may leave the range of sizes. -/
abbrev Collect := EStateM SizeOverflow Environment

/-- The handles that keep objects alive. -/
def roots (env : Environment) (threads : List Thread) : List Handle :=
  threads.flatMap Thread.roots ++ Obj.handlesOf env.globals.values ++
    Obj.handlesOf env.constants.values ++ env.modules.toList ++ env.functions.toList ++
    env.classes.toList ++ env.entityBase.toList ++ Obj.handlesOf env.extraRoots.toList

/-- Removes what some roots do not reach and reports the counts. -/
def collect (roots : List Handle) : Collect CollectionReport := fun env =>
  let (c, memory) := env.memory.collect roots
  let env := c.lines.foldl (fun env line => env.report .debug fun _ => line) { env with memory }
  if c.overflow then .error .mk env else .ok c.report env

/-- Collects unless several threads are active. -/
def force (threads : List Thread) : Collect (Option CollectionReport) := fun env =>
  if 1 < env.activeThreads then
    .ok none (env.report .debug fun _ =>
      s!"Skipping collection with {env.activeThreads} active threads")
  else (some <$> collect (env.roots threads)) env

/-- Collects if the accounted size is above the threshold. -/
def request (threads : List Thread) : Collect (Option CollectionReport) := fun env =>
  if env.heap.shouldCollect then
    let before := env.heap.accounted
    match force threads env with
    | .ok (some report) after =>
      .ok (some report) (after.report .debug fun _ =>
        s!"Freed garbage from {before} to {after.heap.accounted} ({report.freedBytes}), " ++
          s!"next GC at {after.heap.threshold}")
    | other => other
  else .ok none env

/-- Whether a value is a class, function, native or module. -/
def isDefinition (heap : Heap) (v : Value) : Bool :=
  match heap.kind? v with
  | some .scriptClass | some .function | some .native | some .module => true
  | _ => false

/-- Keeps only the definitions among globals and constants. -/
def keepDefinitions (env : Environment) : Environment :=
  { env with
    globals := env.globals.filter (isDefinition env.heap)
    constants := env.constants.filter (isDefinition env.heap)
    classes := #[] }

/-- Forgets every name and every root. -/
def forget (env : Environment) : Environment :=
  { env with
    modules := #[], functions := #[], globals := ∅, constants := ∅, tokens := ∅
    entityBase := none, extraRoots := #[] }

/-- Takes everything down; the threads have been reset. -/
def dispose (threads : List Thread) : Collect Unit := do
  modify keepDefinitions
  let _ ← force threads
  modify fun env => env.report .debug fun _ => s!"Freeing {env.modules.size} modules..."
  modify forget
  let _ ← collect []

end Environment
end ScriptVm
