import Stencil.NameMap
import Stencil.Number

/-!
Values that templates are rendered against: the values of a data format, and host objects, which an
application shows to templates through the capabilities it chooses. Every question a template can
put to a value is one function here: its text, its truth, its integer, its elements, its entries.
-/
namespace Stencil

/-- A host object that failed while a template read one of its fields. -/
structure HostAccessError where
  typeName : String
  key : String
  message : String
  deriving DecidableEq, Repr, Inhabited

/-- A host object over values of type `α`. `validKeys`, where present, are the only fields that
templates may read; otherwise they may read `fieldNames`. Two objects are the same when their
identities are. -/
structure Host (α : Type) where
  identity : Nat
  typeName : String
  validKeys : Option (List String) := none
  fieldNames : List String := []
  readField : String → Except HostAccessError (Option α) := fun _ => .ok none
  sequence : Option (List α) := none
  mapping : Option (List (String × α)) := none
  display : Option String := none

/-- The keys of the fields that templates may read. -/
def Host.allowedKeys {α : Type} (host : Host α) : List String :=
  host.validKeys.getD host.fieldNames

/-- Data of a template. The entries of an object are in increasing order of their keys. -/
inductive Value where
  | null
  | bool (value : Bool)
  | number (value : Number)
  | string (value : String)
  | array (items : List Value)
  | object (entries : List (String × Value))
  | host (object : Host Value)
  deriving Inhabited

namespace Value

/-- The object of a list of pairs, a later pair replacing an earlier one of its key. -/
def ofPairs (pairs : List (String × Value)) : Value := .object (Entries.ofList pairs)

/-- The number `n`, which is a double beyond 64 bits. -/
def ofInt (n : Int) : Value := .number (.ofInt n)

def isNull : Value → Bool
  | .null => true
  | _ => false

def asString? : Value → Option String
  | .string s => some s
  | _ => none

/-- The elements of a value that is a sequence. -/
def elements? : Value → Option (List Value)
  | .array items => some items
  | .host h => h.sequence
  | _ => none

/-- The entries of a value that is a mapping. -/
def entries? : Value → Option (List (String × Value))
  | .object entries => some entries
  | .host h => h.mapping
  | _ => none

/-- Truth of a value: numbers when positive, strings and sequences when not empty; null, objects and
hosts that are no sequence are never true. -/
def isTruthy : Value → Bool
  | .bool b => b
  | .number n => n.isPositive
  | .string s => !s.isEmpty
  | .array items => !items.isEmpty
  | .host h => h.sequence.any fun items => !items.isEmpty
  | .null | .object _ => false

/-- The largest integer of 64 bits, or `n` if it is smaller. -/
def count (n : Nat) : Int64 := if Number.intRange n then Int64.ofNat n else Int64.maxValue

/-- Integer of a value: numbers by value, strings by their characters, sequences by their elements,
and zero for all else. -/
def toInteger : Value → Int64
  | .bool b => if b then 1 else 0
  | .number n => n.truncate
  | .string s => count s.length
  | .array items => count items.length
  | .host h => h.sequence.elim 0 fun items => count items.length
  | .null | .object _ => 0

/-- The texts with a comma between any two. -/
def joinTexts (texts : List String) : String := ",".intercalate texts

mutual
/-- The text a value is shown as. -/
def text : Value → String
  | .null => ""
  | .bool b => if b then "true" else "false"
  | .number n => n.text
  | .string s => s
  | .array items => joinTexts (texts items)
  | .object _ => ""
  | .host h => hostText h

/-- A host object is shown as it chooses, else as the sequence it is. -/
def hostText : Host Value → String
  | ⟨_, _, _, _, _, sequence, _, display⟩ =>
    match display with
    | some shown => shown
    | none => sequenceText sequence

def sequenceText : Option (List Value) → String
  | none => ""
  | some items => joinTexts (texts items)

def texts : List Value → List String
  | [] => []
  | v :: rest => text v :: texts rest
end

theorem texts_eq_map (items : List Value) : texts items = items.map text := by
  induction items with
  | nil => rfl
  | cons v rest ih => simp [texts, ih]

mutual
/-- Equality of values: by content, a double that is not a number differing from itself, and host
objects by identity. -/
def equal : Value → Value → Bool
  | .null, .null => true
  | .bool a, .bool b => a == b
  | .number a, .number b => a == b
  | .string a, .string b => a == b
  | .array as, .array bs => equalItems as bs
  | .object as, .object bs => equalEntries as bs
  | .host a, .host b => a.identity == b.identity
  | _, _ => false

def equalItems : List Value → List Value → Bool
  | [], [] => true
  | a :: as, b :: bs => equal a b && equalItems as bs
  | _, _ => false

/-- Entries are equal when they have the same keys in the same order with equal values. -/
def equalEntries : List (String × Value) → List (String × Value) → Bool
  | [], [] => true
  | (m, a) :: as, (n, b) :: bs => m == n && equal a b && equalEntries as bs
  | _, _ => false
end

instance : BEq Value := ⟨equal⟩

end Value
end Stencil
