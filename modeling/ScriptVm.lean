import ScriptVm.Assembly
import ScriptVm.Host.Literal
import ScriptVm.Main
import ScriptVm.Proofs.Heap.Accounts
import ScriptVm.Proofs.Heap.Marking
import ScriptVm.Proofs.Heap.Sweeping
import ScriptVm.Proofs.Heap.ExactCollection
import ScriptVm.Proofs.Heap.Representation
import ScriptVm.Proofs.Heap.Generations
import ScriptVm.Proofs.Heap.SizeRange
import ScriptVm.Proofs.Heap.Bonds
import ScriptVm.Proofs.Contract
import ScriptVm.Proofs.Environment.Evolution
import ScriptVm.Proofs.Environment.Loading
import ScriptVm.Proofs.Environment.Storage
import ScriptVm.Proofs.Environment.Resolution
import ScriptVm.Proofs.Machine.Safety
import ScriptVm.Proofs.Machine.Primitives
import ScriptVm.Proofs.Machine.Calls
import ScriptVm.Proofs.Machine.Names
import ScriptVm.Proofs.Machine.Steps
import ScriptVm.Proofs.Machine.Runs
import ScriptVm.Proofs.Machine.Dispatch
import ScriptVm.Proofs.Machine.Execution
import ScriptVm.Proofs.Machine.Watching
import ScriptVm.Proofs.Environment.Retention
import ScriptVm.Proofs.Registry.Soundness
import ScriptVm.Proofs.Registry.NoDangling
import ScriptVm.Proofs.Machine.InBounds
import ScriptVm.Proofs.Machine.CallerStack
import ScriptVm.Proofs.Bytes.Reading
import ScriptVm.Proofs.Container.RoundTrip
import ScriptVm.Proofs.Bytes.Delimiting
import ScriptVm.Proofs.Container.Delimiting
import ScriptVm.Proofs.Machine.Reading
import ScriptVm.Proofs.Machine.Advance
import ScriptVm.Proofs.Machine.Landing
import ScriptVm.Proofs.Machine.SuperCalls
import ScriptVm.Proofs.Environment.Links
import ScriptVm.Proofs.Machine.Aliasing
import ScriptVm.Proofs.Machine.LinkConfinement
import ScriptVm.Proofs.Machine.ClassMembers
import ScriptVm.Proofs.Machine.Bookkeeping
import ScriptVm.Proofs.Machine.CleanLoads
import ScriptVm.Proofs.Registry.Histories
import ScriptVm.Proofs.Registry.LoadOnce
import ScriptVm.Proofs.Registry.Success
import ScriptVm.Proofs.Registry.FrameProtection
import ScriptVm.Proofs.Machine.FailedSteps
import ScriptVm.Proofs.Environment.MethodTables
import ScriptVm.Proofs.Machine.Initializers
import ScriptVm.Proofs.Machine.ModuleContents
import ScriptVm.Proofs.Machine.ModuleLoading
import ScriptVm.Proofs.Machine.ClassFiles
import ScriptVm.Proofs.Machine.ImportOrder
import ScriptVm.Proofs.Machine.ImportingFiles
import ScriptVm.Proofs.Registry.ImportCycles
import ScriptVm.Proofs.Environment.Tidying
import ScriptVm.Proofs.Machine.Steadiness
import ScriptVm.Proofs.Machine.Constants
import ScriptVm.Proofs.Machine.Events
import ScriptVm.Proofs.Environment.Shedding
import ScriptVm.Proofs.Registry.Workings
import ScriptVm.Proofs.Registry.EntityLifetime
import ScriptVm.Proofs.Heap.Mirroring
import ScriptVm.Proofs.Environment.Mirroring
import ScriptVm.Proofs.Environment.FaithfulNatives
import ScriptVm.Proofs.Machine.Parallel
import ScriptVm.Proofs.Machine.ParallelCalls
import ScriptVm.Proofs.Machine.ParallelLoads
import ScriptVm.Proofs.Machine.ParallelSteps
import ScriptVm.Proofs.Registry.Mirroring
import ScriptVm.Proofs.Registry.InvisibleCollection
import ScriptVm.Proofs.Registry.Upkeep
import ScriptVm.Proofs.Registry.Disposal
import ScriptVm.Proofs.Machine.Operating
import ScriptVm.Proofs.Registry.CollectorRange
import ScriptVm.Proofs.Machine.Properties
import ScriptVm.Proofs.Machine.MethodValues
import ScriptVm.Proofs.Machine.LibraryClasses
import ScriptVm.Proofs.Machine.ClassExtensions
import ScriptVm.Proofs.Heap.Stripping
import ScriptVm.Proofs.Environment.Stripping
import ScriptVm.Proofs.Machine.Blindness
import ScriptVm.Proofs.Machine.BlindCalls
import ScriptVm.Proofs.Machine.BlindRuns
import ScriptVm.Proofs.Machine.BlindSteps
import ScriptVm.Proofs.Machine.LineTables
import ScriptVm.Proofs.Machine.Ordinary
import ScriptVm.Proofs.Machine.OrdinarySteps
import ScriptVm.Proofs.Machine.Moments
import ScriptVm.Proofs.Machine.Breakpoints
import ScriptVm.Proofs.Machine.DefaultEvents
import ScriptVm.Proofs.Machine.CallSites
import ScriptVm.Proofs.Machine.ErrorTraces
import ScriptVm.Proofs.Machine.EntityFields
import ScriptVm.Proofs.Machine.HostCells
import ScriptVm.Proofs.Machine.Unlinking
import ScriptVm.Proofs.Environment.Lookups
import ScriptVm.Proofs.Machine.AssembledJumps
import ScriptVm.Proofs.Machine.SwitchTables
import ScriptVm.Proofs.Machine.ScriptMaps
import ScriptVm.Proofs.ClassMap.Format
import ScriptVm.Proofs.Registry.ListedFiles
import ScriptVm.Proofs.Arithmetic.Operations
import ScriptVm.Proofs.Machine.StackEffects
import ScriptVm.Proofs.NameHash.Blocks
import ScriptVm.Proofs.NameHash.Extensions
import ScriptVm.Proofs.Disassembly.Coverage
import ScriptVm.Proofs.Chunk.AssembledCode
import ScriptVm.Proofs.Memory.Printing
