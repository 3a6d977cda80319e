import ScriptVm.Text

/-!
# Faults

Why an instruction, a native or a call fails. A fault is a cause together with the calls that
were active when it was first noticed.

* `Cause` lists the causes; `Cause.severity` and `Cause.message` are its class and wording.
* `StackFrame` is one line of a call trace.
* `Fault` is a cause with its trace.
-/

namespace ScriptVm

/-- How far a fault reaches. -/
inductive Severity where
  | loadAbsent | runtime | fatal
deriving DecidableEq, Inhabited

/-- Whether an element is read or written. -/
inductive Access where
  | read | write
deriving DecidableEq

/-- The words for reading from and writing to a container. -/
def Access.phrase : Access → String
  | .read => "get value from"
  | .write => "set value in"

/-- Why something fails. -/
inductive Cause where
  | unknownVariable (name : String)
  | unknownGlobal (name : String)
  | constantRedefined (name : String)
  | mapKeyKind (kind : String)
  | inheritNonClass
  | methodOnNonClass
  | noParent
  | notInInstance (name : String)
  | notInClass (name : String)
  | noProperties
  | arrayIndexKind (access : Access)
  | indexOutOfBounds (index : Int) (size : Nat)
  | mapIndexKind (access : Access)
  | emptyKey
  | notIndexable (access : Access)
  | notContainer (access : Access)
  | notCallable
  | wrongArity (expected : Int) (given : Nat)
  | noMethods
  | noParentMethod
  | noEvent (name className : String)
  | notInvocable (name : String)
  | instantiateNonClass
  | initializerArguments (given : Nat)
  | importKind (kind : String)
  | notImported (name : String)
  | notNumber (operation kind : String)
  | integerDivisionByZero
  | decimalDivisionByZero
  | wrongKind (expected actual : String)
  | notAnInstance
  | initializerParameters
  | cloneNonInstance
  | argumentRange (least most given : Nat)
  | argumentMissing (position given : Nat)
  | argumentKind (position : Nat) (expected actual : String)
  | notBinary (opcode : String)
  | notUnary (opcode : String)
  | endOfCode
  | jumpOutside (target : Int)
  | stackUnderflow
  | stackOverflow (count : Nat)
  | frameOverflow (count most : Nat)
  | noFrame
  | constantRange (index : Nat)
  | localRange (slot : Nat)
  | noModule
  | moduleLocalRange (slot : Nat)
  | methodRange (index : Nat)
  | unknownOpcode (byte : Nat)
  | invalidOpcode (name : String)
  | unsupportedOpcode (name : String)
  | aborted
  | loadFailed (reason : String)
  | host (severity : Severity) (text : String)
deriving DecidableEq

namespace Cause

/-- The class of a cause. -/
def severity : Cause → Severity
  | .notBinary _ | .notUnary _ | .endOfCode | .jumpOutside _ | .stackUnderflow | .stackOverflow _
  | .frameOverflow _ _ | .noFrame | .constantRange _ | .localRange _ | .noModule
  | .moduleLocalRange _ | .methodRange _ | .unknownOpcode _ | .invalidOpcode _
  | .unsupportedOpcode _ | .aborted | .loadFailed _ => .fatal
  | .host severity _ => severity
  | _ => .runtime

/-- The wording of a cause. -/
def message : Cause → String
  | .unknownVariable name => s!"Variable {name} does not exist."
  | .unknownGlobal name => s!"Global variable {name} does not exist."
  | .constantRedefined name => s!"Cannot redefine constant {name}!"
  | .mapKeyKind kind => s!"Cannot use a {kind} as a map key."
  | .inheritNonClass => "Only classes can inherit."
  | .methodOnNonClass => "Cannot define a method on a non-class."
  | .noParent => "Class does not have a parent."
  | .notInInstance name => s!"Could not find {name} in instance!"
  | .notInClass name => s!"Could not find {name} in class!"
  | .noProperties => "Only instances and classes have properties."
  | .arrayIndexKind access =>
    s!"Cannot {access.phrase} array using non-Integer value as an index."
  | .indexOutOfBounds index size => s!"Index {index} is out of bounds of array of size {size}."
  | .mapIndexKind access => s!"Cannot {access.phrase} map using non-String value as an index."
  | .emptyKey => "Cannot find value at empty key."
  | .notIndexable access => s!"Cannot {access.phrase} object that's non-Array or non-Map."
  | .notContainer access => s!"Cannot {access.phrase} non-Array or non-Map."
  | .notCallable => "Could not call value!"
  | .wrongArity expected given =>
    s!"Expected {expected} arguments to function call, got {given}."
  | .noMethods => "Only instances and classes have methods."
  | .noParentMethod => "Instance's class does not have a parent to call method from."
  | .noEvent name className => s!"Event {name} does not exist in class {className}."
  | .notInvocable name => s!"Could not invoke {name}!"
  | .instantiateNonClass => "Cannot instantiate non-class."
  | .initializerArguments given => s!"Expected no arguments to initializer, got {given}."
  | .importKind kind => s!"Cannot import from a {kind}."
  | .notImported name => s!"Could not import \"{name}\"!"
  | .notNumber operation kind =>
    s!"Cannot perform {operation} operation on non-number value of type {kind}."
  | .integerDivisionByZero => "Cannot divide integer by zero."
  | .decimalDivisionByZero => "Cannot divide decimal by zero."
  | .wrongKind expected actual =>
    s!"Expected value to be of type {expected} instead of {actual}."
  | .notAnInstance => "Cannot initialize non-instance."
  | .initializerParameters => "Initializer must have no parameters."
  | .cloneNonInstance => "Cannot clone non-instance."
  | .argumentRange least most given =>
    s!"Expected between {least} and {most} arguments to function call, got {given}."
  | .argumentMissing position given => s!"Argument {position} is missing ({given} given)."
  | .argumentKind position expected actual =>
    s!"Expected argument {position} to be of type {expected} instead of {actual}."
  | .notBinary opcode => s!"{opcode} is not a binary operation."
  | .notUnary opcode => s!"{opcode} is not a unary operation."
  | .endOfCode => "Unexpected end of bytecode."
  | .jumpOutside target => s!"Jump target {target} is outside the function."
  | .stackUnderflow => "Stack underflow!"
  | .stackOverflow count => s!"Stack overflow! Count: {count}"
  | .frameOverflow count most => s!"Frame overflow. (Count {count} / {most})"
  | .noFrame => "No active call frame."
  | .constantRange index => s!"Constant index {index} is out of range."
  | .localRange slot => s!"Local slot {slot} is out of range."
  | .noModule => "Function has no module for module locals."
  | .moduleLocalRange slot => s!"Module local {slot} is out of range."
  | .methodRange index => s!"Method index {index} is out of range."
  | .unknownOpcode byte => "Unknown opcode 0x" ++ Text.hexColumn 2 byte ++ "."
  | .invalidOpcode name => s!"Invalid opcode {name}."
  | .unsupportedOpcode name => s!"Unsupported opcode {name}."
  | .aborted => "Execution aborted by the debugger."
  | .loadFailed reason => reason
  | .host _ text => text

end Cause

/-- One call of a trace: the function called, its source file and the line of the call. -/
structure StackFrame where
  functionName : String
  sourceFilename : String
  line : Option UInt32
deriving DecidableEq, Inhabited

/-- A line of a call trace. -/
def StackFrame.text (f : StackFrame) : String :=
  s!"called {f.functionName} of {f.sourceFilename}" ++
    match f.line with
    | some line => if 0 < line then s!" on Line {line.toNat}" else ""
    | none => ""

/-- A cause and the calls active when it was noticed, the outermost first. -/
structure Fault where
  cause : Cause
  stack : List StackFrame
deriving DecidableEq

namespace Fault

/-- A fault without a trace. -/
def ofCause (c : Cause) : Fault := ⟨c, []⟩

/-- The class of a fault. -/
def severity (f : Fault) : Severity := f.cause.severity

/-- The wording of a fault. -/
def message (f : Fault) : String := f.cause.message

/-- Whether a fault ends the caller too. -/
def isFatal (f : Fault) : Bool := f.severity == .fatal

end Fault
end ScriptVm
