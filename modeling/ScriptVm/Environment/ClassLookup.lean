import ScriptVm.Environment

/-!
# Class lookup

Members are looked for in a class, then in its parents. A parent is known by its hash and found
among the globals on first use; the class then remembers it.

* `resolveParent` finds the parent of a class.
* `findMember` walks up the chain, at most 256 classes far. A field hides the method of the same
  name. If some class of the chain stands for native objects, the entity base comes last.
* `defineMethod` and `extendClass` give a class methods.
-/

namespace ScriptVm
namespace Environment

/-- How many classes a lookup goes through. -/
def maxChain : Nat := 256

/-- The parent of a class, remembered once found. -/
def resolveParent (env : Environment) (c : Handle) : Option Handle × Environment :=
  match env.heap.class? c with
  | none => (none, env)
  | some k =>
    match k.parent with
    | some p => (some p, env)
    | none =>
      match k.parentHash.bind env.classByHash? with
      | none => (none, env)
      | some p => (some p, env.mapHeap (·.modifyClass c fun k => { k with parent := some p }))

/-- The member of a class itself: a field, or else a method. -/
def ownMember? (k : ClassObject) (hash : UInt32) : Option Value :=
  match k.fields.get? hash with
  | some v => some v
  | none => k.methods.get? hash

/-- The member of the entity base. -/
def baseMember? (env : Environment) (hash : UInt32) : Option Value :=
  (env.entityBase.bind env.heap.class?).bind (ownMember? · hash)

/-- Walks up from `current` through at most `left` classes; `first` is where the walk began, and
`bound` whether a class passed so far stands for native objects. -/
def walk (first : Handle) (hash : UInt32) :
    Nat → Option Handle → Bool → Environment → Option Value × Environment
  | _, none, bound, env => (if bound then env.baseMember? hash else none, env)
  | 0, some _, _, env =>
    (none, env.report .warn fun _ => s!"Inheritance chain of {env.className first} is too deep")
  | left + 1, some c, bound, env =>
    match env.heap.class? c with
    | none => (none, env)
    | some k =>
      match ownMember? k hash with
      | some v => (some v, env)
      | none =>
        let (parent, env) := env.resolveParent c
        walk first hash left parent (bound || k.entityBound) env

/-- The member of a class or of its parents. -/
def findMember (env : Environment) (c : Handle) (hash : UInt32) : Option Value × Environment :=
  walk c hash maxChain (some c) false env

/-- Whether a class or one of its parents has a member. -/
def hasMember (env : Environment) (c : Handle) (hash : UInt32) : Bool × Environment :=
  let (v, env) := env.findMember c hash
  (v.isSome, env)

/-- Gives a class a method, which becomes its initializer if it has the name of the class. -/
def defineMethod (env : Environment) (c function : Handle) (hash : UInt32) : Environment :=
  match env.heap.class? c with
  | none => env
  | some k =>
    let env := env.mapHeap (·.modifyClass c fun k =>
      { k with
        methods := k.methods.insert hash (.object function)
        initializer := if hash = k.hash then some (.object function) else k.initializer })
    env.mapHeap (·.modifyFunction function fun f => { f with className := k.name })

/-- Moves the methods of one class to another. -/
def extendClass (env : Environment) (extension target : Handle) : Environment :=
  if extension = target then env
  else
    match env.heap.class? extension with
    | none => env
    | some k =>
      let env := env.mapHeap (·.modifyClass extension fun k => { k with methods := ∅ })
      env.mapHeap (·.modifyClass target fun t => { t with methods := t.methods.merge k.methods })

/-- The class that a value is, or is an instance of. -/
def classOf? (env : Environment) (v : Value) : Option Handle :=
  match v.object? with
  | none => none
  | some h =>
    match env.heap.get? h with
    | some (.scriptClass _) => some h
    | some (.inst i) => some i.classHandle
    | _ => none

end Environment
end ScriptVm
