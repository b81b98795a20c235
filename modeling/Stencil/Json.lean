import Stencil.NameMap
import Stencil.Number

/-!
JSON documents, and reading records and tagged unions out of them. An integer is kept as one if 64
bits hold it, with or without a sign; every other number is a double. The entries of an object are
in increasing order of their names.
-/
namespace Stencil

inductive Json where
  | null
  | bool (value : Bool)
  | int (value : Int)
  | float (value : Float)
  | string (value : String)
  | array (items : List Json)
  | object (entries : List (String × Json))
  deriving Inhabited

namespace Json

/-- The object of a list of pairs in any order. -/
def ofPairs (pairs : List (String × Json)) : Json := .object (Entries.ofList pairs)

def asString? : Json → Option String
  | .string s => some s
  | _ => none

/-- A natural number; one beyond 64 bits is no integer. -/
def asNat? : Json → Option Nat
  | .int n => if 0 ≤ n then some n.toNat else none
  | _ => none

/-- The entry of a name in an object. -/
def at? (j : Json) (name : String) : Option Json :=
  match j with
  | .object entries => entries.lookup name
  | _ => none

def stringAt? (j : Json) (name : String) : Option String := (j.at? name).bind asString?

def natAt? (j : Json) (name : String) : Option Nat := (j.at? name).bind asNat?

/-- The fields of a record with the given names, each where it is present. A record is an object,
whose other entries do not count, or an array of at most as many items, which are its fields in
order. -/
def fields? (j : Json) (names : List String) : Option (List (Option Json)) :=
  match j with
  | .object entries => some (names.map fun name => entries.lookup name)
  | .array items =>
    if items.length ≤ names.length then
      some (items.map some ++ List.replicate (names.length - items.length) none)
    else none
  | _ => none

/-- The fields of a record that has all of them. -/
def record? (j : Json) (names : List String) : Option (List Json) := do
  (← j.fields? names).mapM id

/-- A tagged union: an object with one entry, whose name is the tag. -/
def tagged? : Json → Option (String × Json)
  | .object [entry] => some entry
  | _ => none

@[simp] theorem asString?_string (s : String) : (string s).asString? = some s := rfl

@[simp] theorem asNat?_natCast (n : Nat) : (int n).asNat? = some n := by simp [asNat?]

@[simp] theorem at?_object (entries : List (String × Json)) (name : String) :
    (object entries).at? name = entries.lookup name := rfl

@[simp] theorem fields?_object (entries : List (String × Json)) (names : List String) :
    (object entries).fields? names = some (names.map fun name => entries.lookup name) := rfl

@[simp] theorem tagged?_object (tag : String) (content : Json) :
    (object [(tag, content)]).tagged? = some (tag, content) := rfl

end Json
end Stencil
