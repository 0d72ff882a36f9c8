import SkinCompiler.Text.Basic

/-!
# Tables

A table maps keys to values and keeps its keys in the order in which they first came.  Setting a
key anew changes its value and leaves its place.
-/

namespace SkinCompiler

/-- Keys with their values, in order; no key stands twice in a table built by `set`. -/
abbrev Table (α : Type) := List (Text × α)

namespace Table

variable {α : Type}

/-- The value of a key. -/
def get? (key : Text) : Table α → Option α
  | [] => none
  | (k, v) :: t => if k = key then some v else get? key t

/-- The key has a value. -/
def has (t : Table α) (key : Text) : Bool := (get? key t).isSome

/-- Give a key a value. -/
def set (key : Text) (value : α) : Table α → Table α
  | [] => [(key, value)]
  | (k, v) :: t => if k = key then (k, value) :: t else (k, v) :: set key value t

/-- Set all entries one after the other. -/
def setAll (t : Table α) (entries : List (Text × α)) : Table α :=
  entries.foldl (fun t (k, v) => set k v t) t

/-- The table of a list of entries. -/
def ofList (entries : List (Text × α)) : Table α := setAll [] entries

/-- The keys in order. -/
def keys (t : Table α) : List Text := t.map (·.1)

end Table

end SkinCompiler
