import ScriptVm.Code
import ScriptVm.Decimal
import ScriptVm.Fault
import ScriptVm.Value

/-!
# Call frames

One active call: its function and code, the offset of the next instruction and of the current
one, and where its slots start on the operand stack.

* The `take` functions read an operand and move on; past the end of the code they fail and stay.
* `jump` moves to another offset, at most the end of the code.
-/

namespace ScriptVm

/-- An active call. -/
structure Frame where
  function : Handle
  code : Array UInt8
  ip : Nat
  ipLast : Nat
  slots : Nat
  module : Option Handle
  failsafe : Option Nat
deriving DecidableEq, Inhabited

namespace Frame

/-- A call about to execute its first instruction. -/
def enter (function : Handle) (code : Array UInt8) (slots : Nat) (module : Option Handle) :
    Frame :=
  { function, code, ip := 0, ipLast := 0, slots, module, failsafe := none }

/-- Moves past an operand of `width` bytes that was found. -/
def taken {α : Type} (f : Frame) (width : Nat) : Option α → Except Cause (α × Frame)
  | some a => .ok (a, { f with ip := f.ip + width })
  | none => .error .endOfCode

/-- Takes a byte. -/
def takeByte (f : Frame) : Except Cause (UInt8 × Frame) := f.taken 1 (Code.byte? f.code f.ip)

/-- Takes a 16-bit word. -/
def takeHalf (f : Frame) : Except Cause (UInt16 × Frame) := f.taken 2 (Code.half? f.code f.ip)

/-- Takes a 32-bit word. -/
def takeWord (f : Frame) : Except Cause (UInt32 × Frame) := f.taken 4 (Code.word? f.code f.ip)

/-- Moves to an offset of the code or to its end. -/
def moveTo (f : Frame) (target : Int) : Except Cause Frame :=
  if 0 ≤ target ∧ target ≤ f.code.size then .ok { f with ip := target.toNat }
  else .error (.jumpOutside target)

/-- Moves by a distance from the next instruction. -/
def jump (f : Frame) (distance : Int) : Except Cause Frame := f.moveTo (f.ip + distance)

/-- Whether the target of a jump is a 64-bit offset at all. -/
def isReachable (f : Frame) (distance : Int) : Bool :=
  decide (f.ip + distance ≤ 9223372036854775807)

end Frame
end ScriptVm
