/-!
# Reading JSON

Scanners for the parts of JSON that a configuration needs. A scanner takes characters from the
front and gives the rest, or nothing if they are not what it looks for.

* `natural?`, `boolean?`, `string?` read a value; `string?` decodes escapes.
* `skipValue?` passes over a value of any kind, checking its form only: strings are not decoded
  and numbers may have any size. It goes through nested values with an explicit stack of the
  containers that are open, so they may be nested to any depth.
-/

namespace ScriptVm
namespace Json

/-- Whether a character may stand between tokens. -/
def isBlank (c : Char) : Bool := c == ' ' || c == '\n' || c == '\t' || c == '\r'

/-- Passes over blanks. -/
def skipBlanks (cs : List Char) : List Char := cs.dropWhile isBlank

/-- Passes over given characters. -/
def literal? : List Char → List Char → Option (List Char)
  | [], cs => some cs
  | c :: word, d :: cs => if c = d then literal? word cs else none
  | _ :: _, [] => none

/-- Passes over blanks and one given character. -/
def symbol? (c : Char) (cs : List Char) : Option (List Char) := literal? [c] (skipBlanks cs)

/-! ### Numbers -/

/-- The value of decimal digits. -/
def digitsValue (cs : List Char) : Nat := cs.foldl (fun n c => 10 * n + (c.toNat - 48)) 0

/-- The digits of a whole number, which has no needless zero in front. -/
def digits? (cs : List Char) : Option (List Char × List Char) :=
  match cs.takeWhile Char.isDigit with
  | [] => none
  | '0' :: _ :: _ => none
  | ds => some (ds, cs.dropWhile Char.isDigit)

/-- A natural number below `bound`, written without fraction and exponent. -/
def natural? (bound : Nat) (cs : List Char) : Option (Nat × List Char) := do
  let (ds, rest) ← digits? (skipBlanks cs)
  let n := digitsValue ds
  match rest with
  | '.' :: _ | 'e' :: _ | 'E' :: _ => none
  | _ => if n < bound then some (n, rest) else none

/-- Passes over one digit or more. -/
def someDigits? (cs : List Char) : Option (List Char) :=
  match cs with
  | c :: rest => if c.isDigit then some (rest.dropWhile Char.isDigit) else none
  | [] => none

/-- Passes over an exponent, if there is one. -/
def exponent? : List Char → Option (List Char)
  | 'e' :: '+' :: rest | 'e' :: '-' :: rest | 'E' :: '+' :: rest | 'E' :: '-' :: rest =>
    someDigits? rest
  | 'e' :: rest | 'E' :: rest => someDigits? rest
  | cs => some cs

/-- Passes over a number without its sign. -/
def number? (cs : List Char) : Option (List Char) := do
  let (_, rest) ← digits? cs
  match rest with
  | '.' :: rest => exponent? (← someDigits? rest)
  | rest => exponent? rest

/-! ### Words and texts -/

/-- A truth value. -/
def boolean? (cs : List Char) : Option (Bool × List Char) :=
  match skipBlanks cs with
  | 't' :: rest => (literal? ['r', 'u', 'e'] rest).map fun rest => (true, rest)
  | 'f' :: rest => (literal? ['a', 'l', 's', 'e'] rest).map fun rest => (false, rest)
  | _ => none

/-- The value of a hexadecimal digit. -/
def hexDigit? (c : Char) : Option Nat :=
  if '0' ≤ c ∧ c ≤ '9' then some (c.toNat - 48)
  else if 'a' ≤ c ∧ c ≤ 'f' then some (c.toNat - 87)
  else if 'A' ≤ c ∧ c ≤ 'F' then some (c.toNat - 55)
  else none

/-- The code unit of four hexadecimal digits. -/
def codeUnit? : List Char → Option (Nat × List Char)
  | a :: b :: c :: d :: rest => do
    let a ← hexDigit? a
    let b ← hexDigit? b
    let c ← hexDigit? c
    let d ← hexDigit? d
    some (((a * 16 + b) * 16 + c) * 16 + d, rest)
  | _ => none

/-- The character that a single letter stands for after a backslash. -/
def shortEscape? : Char → Option Char
  | '"' => some '"'
  | '\\' => some '\\'
  | '/' => some '/'
  | 'b' => some (Char.ofNat 8)
  | 'f' => some (Char.ofNat 12)
  | 'n' => some '\n'
  | 'r' => some '\r'
  | 't' => some '\t'
  | _ => none

/-- The character of an escape by code units, after `\u`; a high surrogate needs a low one. -/
def longEscape? (cs : List Char) : Option (Char × List Char) := do
  let (unit, rest) ← codeUnit? cs
  if 0xDC00 ≤ unit ∧ unit ≤ 0xDFFF then none
  else if 0xD800 ≤ unit ∧ unit ≤ 0xDBFF then
    match rest with
    | '\\' :: 'u' :: rest =>
      let (low, rest) ← codeUnit? rest
      if 0xDC00 ≤ low ∧ low ≤ 0xDFFF then
        some (Char.ofNat (0x10000 + (unit - 0xD800) * 0x400 + (low - 0xDC00)), rest)
      else none
    | _ => none
  else some (Char.ofNat unit, rest)

/-- The characters of a text up to its closing quote; each step takes a character, so `fuel`
characters are enough. -/
def stringBody? : Nat → List Char → List Char → Option (String × List Char)
  | 0, _, _ => none
  | _ + 1, _, [] => none
  | _ + 1, found, '"' :: rest => some (String.ofList found.reverse, rest)
  | fuel + 1, found, '\\' :: 'u' :: rest =>
    match longEscape? rest with
    | some (c, rest) => stringBody? fuel (c :: found) rest
    | none => none
  | fuel + 1, found, '\\' :: c :: rest =>
    match shortEscape? c with
    | some c => stringBody? fuel (c :: found) rest
    | none => none
  | fuel + 1, found, c :: rest =>
    if c.toNat < 32 ∨ c = '\\' then none else stringBody? fuel (c :: found) rest

/-- A text with its escapes decoded. -/
def string? (cs : List Char) : Option (String × List Char) := do
  let rest ← symbol? '"' cs
  stringBody? (rest.length + 1) [] rest

/-- Passes over a text up to its closing quote without decoding it. -/
def skipStringBody? : Nat → List Char → Option (List Char)
  | 0, _ => none
  | _ + 1, [] => none
  | _ + 1, '"' :: rest => some rest
  | fuel + 1, '\\' :: 'u' :: rest =>
    match codeUnit? rest with
    | some (_, rest) => skipStringBody? fuel rest
    | none => none
  | fuel + 1, '\\' :: c :: rest =>
    if (shortEscape? c).isSome then skipStringBody? fuel rest else none
  | fuel + 1, c :: rest => if c.toNat < 32 ∨ c = '\\' then none else skipStringBody? fuel rest

/-- Passes over a text. -/
def skipString? (cs : List Char) : Option (List Char) := do
  let rest ← symbol? '"' cs
  skipStringBody? (rest.length + 1) rest

/-! ### Whole values -/

/-- A container that is open. -/
inductive Open where
  | array | object

/-- Passes over a value that is not a container. -/
def skipScalar? (cs : List Char) : Option (List Char) :=
  match cs with
  | 'n' :: rest => literal? ['u', 'l', 'l'] rest
  | 't' :: rest => literal? ['r', 'u', 'e'] rest
  | 'f' :: rest => literal? ['a', 'l', 's', 'e'] rest
  | '-' :: rest => number? rest
  | '"' :: _ => skipString? cs
  | _ => number? cs

/-- Passes over the key of a member and its colon. -/
def skipKey? (cs : List Char) : Option (List Char) := do
  symbol? ':' (← skipString? cs)

/-- Where a scan through nested values is. -/
inductive Place where
  | beforeValue | afterValue

/-- Goes through nested values. Every other step takes a character, so twice as many steps as
characters are enough. -/
def skipNested? : Nat → Place → List Open → List Char → Option (List Char)
  | 0, _, _, _ => none
  | _ + 1, .afterValue, [], cs => some cs
  | fuel + 1, .afterValue, .array :: outer, cs =>
    match skipBlanks cs with
    | ',' :: rest => skipNested? fuel .beforeValue (.array :: outer) rest
    | ']' :: rest => skipNested? fuel .afterValue outer rest
    | _ => none
  | fuel + 1, .afterValue, .object :: outer, cs =>
    match skipBlanks cs with
    | ',' :: rest =>
      match skipKey? rest with
      | some rest => skipNested? fuel .beforeValue (.object :: outer) rest
      | none => none
    | '\x7d' :: rest => skipNested? fuel .afterValue outer rest
    | _ => none
  | fuel + 1, .beforeValue, outer, cs =>
    match skipBlanks cs with
    | '[' :: rest =>
      match skipBlanks rest with
      | ']' :: rest => skipNested? fuel .afterValue outer rest
      | rest => skipNested? fuel .beforeValue (.array :: outer) rest
    | '\x7b' :: rest =>
      match skipBlanks rest with
      | '\x7d' :: rest => skipNested? fuel .afterValue outer rest
      | rest =>
        match skipKey? rest with
        | some rest => skipNested? fuel .beforeValue (.object :: outer) rest
        | none => none
    | cs =>
      match skipScalar? cs with
      | some rest => skipNested? fuel .afterValue outer rest
      | none => none

/-- Passes over any value. -/
def skipValue? (cs : List Char) : Option (List Char) :=
  skipNested? (2 * cs.length + 2) .beforeValue [] cs

end Json
end ScriptVm
