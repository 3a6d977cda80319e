import ScriptVm.Bytes.Decoder
import ScriptVm.Fault

/-!
# Errors of a registry

* `FileError` is why a file of the host cannot be read.
* `RegistryError` is why loading or calling fails, with its wording; `RegistryError.toFault` is the
  fault that an import fails with.
-/

namespace ScriptVm

/-- Why a file of the host cannot be read. -/
inductive FileError where
  | notFound | isDirectory | notDirectory | nameTooLong | nulInName | notText | denied
  | other (text : String)
deriving DecidableEq

/-- The wording of a file error. -/
def FileError.message : FileError → String
  | .notFound => "No such file or directory (os error 2)"
  | .isDirectory => "Is a directory (os error 21)"
  | .notDirectory => "Not a directory (os error 20)"
  | .nameTooLong => "File name too long (os error 36)"
  | .nulInName => "file name contained an unexpected NUL byte"
  | .notText => "stream did not contain valid UTF-8"
  | .denied => "Permission denied (os error 13)"
  | .other text => text

/-- Why loading or calling fails. -/
inductive RegistryError where
  | container (e : FormatError)
  | vm (f : Fault)
  | io (path : String) (reason : FileError)
  | config
  | unknownClass (name : String)
deriving DecidableEq

namespace RegistryError

/-- The wording of an error. -/
def message : RegistryError → String
  | .container e => "Malformed bytecode: " ++ e.message
  | .vm f => f.message
  | .io path reason => "Could not read " ++ path ++ ": " ++ reason.message
  | .config => "Invalid configuration"
  | .unknownClass name => "No class! Can't find: " ++ name

/-- Whether an error ends the caller too. -/
def isFatal : RegistryError → Bool
  | .container _ => true
  | .vm f => f.isFatal
  | _ => false

/-- The fault that an import fails with. -/
def toFault : RegistryError → Fault
  | .vm f => f
  | e => .ofCause (.loadFailed e.message)

end RegistryError

end ScriptVm
