/-!
# Tables keyed by hash

A finite map from 32-bit hashes. Entries keep the order of their first insertion; an insertion
under a known hash replaces the value in place.

* `get?`, `contains` look up; `insert`, `insertNew`, `filter`, `mapValues` change.
* `get?_insert_self` and `get?_insert_of_ne` are the law of `insert`.
-/

namespace ScriptVm

/-- A finite map from hashes, as entries in the order of insertion. -/
structure Table (α : Type) where
  entries : List (UInt32 × α)

namespace Table

variable {α β : Type}

/-- No entries. -/
def empty : Table α := ⟨[]⟩

instance : Inhabited (Table α) := ⟨empty⟩
instance : EmptyCollection (Table α) := ⟨empty⟩

/-- The value of the first entry under a hash. -/
def find (hash : UInt32) : List (UInt32 × α) → Option α
  | [] => none
  | (k, v) :: rest => if k = hash then some v else find hash rest

/-- Replaces the value of the first entry under a hash, or appends an entry. -/
def put (hash : UInt32) (value : α) : List (UInt32 × α) → List (UInt32 × α)
  | [] => [(hash, value)]
  | (k, v) :: rest => if k = hash then (k, value) :: rest else (k, v) :: put hash value rest

/-- The value under a hash. -/
def get? (t : Table α) (hash : UInt32) : Option α := find hash t.entries

/-- Whether a hash has a value. -/
def contains (t : Table α) (hash : UInt32) : Bool := (t.get? hash).isSome

/-- Gives a hash a value. -/
def insert (t : Table α) (hash : UInt32) (value : α) : Table α := ⟨put hash value t.entries⟩

/-- Gives a hash a value unless it has one. -/
def insertNew (t : Table α) (hash : UInt32) (value : α) : Table α :=
  if t.contains hash then t else t.insert hash value

/-- The number of entries. -/
def size (t : Table α) : Nat := t.entries.length

/-- The hashes in order. -/
def keys (t : Table α) : List UInt32 := t.entries.map (·.1)

/-- The values in order. -/
def values (t : Table α) : List α := t.entries.map (·.2)

/-- Keeps the entries whose value passes a test. -/
def filter (t : Table α) (p : α → Bool) : Table α := ⟨t.entries.filter fun e => p e.2⟩

/-- Changes every value. -/
def mapValues (t : Table α) (f : α → β) : Table β := ⟨t.entries.map fun e => (e.1, f e.2)⟩

/-- Inserts every entry of `u` into `t`, in order. -/
def merge (t u : Table α) : Table α :=
  u.entries.foldl (fun t e => t.insert e.1 e.2) t

theorem find_put_self (hash : UInt32) (value : α) (l : List (UInt32 × α)) :
    find hash (put hash value l) = some value := by
  induction l with
  | nil => simp [put, find]
  | cons e rest ih =>
    by_cases h : e.1 = hash
    · simp [put, find, h]
    · simp [put, find, h, ih]

theorem find_put_of_ne {hash other : UInt32} (h : other ≠ hash) (value : α)
    (l : List (UInt32 × α)) : find other (put hash value l) = find other l := by
  induction l with
  | nil => simp [put, find, h.symm]
  | cons e rest ih =>
    by_cases he : e.1 = hash
    · simp [put, find, he, h.symm]
    · simp [put, find, he, ih]

/-- A hash has the value inserted under it last. -/
@[simp] theorem get?_insert_self (t : Table α) (hash : UInt32) (value : α) :
    (t.insert hash value).get? hash = some value :=
  find_put_self hash value t.entries

/-- An insertion leaves the values of all other hashes. -/
theorem get?_insert_of_ne (t : Table α) {hash other : UInt32} (h : other ≠ hash) (value : α) :
    (t.insert hash value).get? other = t.get? other :=
  find_put_of_ne h value t.entries

end Table
end ScriptVm
