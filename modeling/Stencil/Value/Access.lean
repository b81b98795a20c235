import Stencil.Value

/-!
Reading a key off a value. Sequences answer positions, mappings answer names, and host objects
besides answer the fields they allow. Only the last calls the application: a `Reading` keeps these
calls in order, and the first that fails ends it.
-/
namespace Stencil

/-- A call that reads the field `key` of `host`. -/
structure FieldRead where
  host : Host Value
  key : String

/-- A computation that reads fields of host objects: the reads it made, and how it ended. -/
structure Reading (α : Type) where
  reads : List FieldRead
  result : Except HostAccessError α

namespace Reading

variable {α β : Type}

/-- A reading that makes no call. -/
protected def pure (a : α) : Reading α := ⟨[], .ok a⟩

/-- One reading after another; the second is not begun when the first fails. -/
protected def bind (m : Reading α) (f : α → Reading β) : Reading β :=
  match m.result with
  | .ok a => ⟨m.reads ++ (f a).reads, (f a).result⟩
  | .error e => ⟨m.reads, .error e⟩

instance : Monad Reading where
  pure := Reading.pure
  bind := Reading.bind

@[simp] theorem reads_pure (a : α) : (pure a : Reading α).reads = [] := rfl

@[simp] theorem result_pure (a : α) : (pure a : Reading α).result = .ok a := rfl

protected theorem id_map (m : Reading α) : id <$> m = m := by
  obtain ⟨reads, result⟩ := m
  cases result <;> simp [Functor.map, Reading.bind, Reading.pure]

protected theorem pure_bind (a : α) (f : α → Reading β) : pure a >>= f = f a := by
  simp [Bind.bind, Reading.bind, Pure.pure, Reading.pure]

protected theorem bind_assoc {γ : Type} (m : Reading α) (f : α → Reading β) (g : β → Reading γ) :
    m >>= f >>= g = m >>= fun a => f a >>= g := by
  obtain ⟨reads, result⟩ := m
  cases result with
  | error e => rfl
  | ok a =>
    simp only [Bind.bind, Reading.bind]
    cases (f a).result <;> simp

instance : LawfulMonad Reading :=
  LawfulMonad.mk' _ Reading.id_map Reading.pure_bind Reading.bind_assoc

/-- The reading of one field. -/
def field (host : Host Value) (key : String) : Reading (Option Value) :=
  ⟨[⟨host, key⟩], host.readField key⟩

end Reading

namespace Value

/-- The position that a key spells: ASCII digits, for a number of 64 bits. -/
def position? (key : String) : Option Nat :=
  let digits := key.toList
  if !digits.isEmpty && digits.all Char.isDigit && Decimal.valueOf digits < UInt64.size then
    some (Decimal.valueOf digits)
  else none

/-- How a key is answered: by the value itself, or by reading a field of a host object. -/
inductive KeyAnswer where
  | known (found : Option Value)
  | field (host : Host Value)

/-- A host object that is a sequence answers every position, one that is a mapping the keys it has,
and of the rest only allowed fields are read. -/
def hostAnswer (h : Host Value) (key : String) : KeyAnswer :=
  match position? key, h.sequence with
  | some i, some items => .known items[i]?
  | _, _ =>
    match h.mapping.bind (·.lookup key) with
    | some found => .known (some found)
    | none => if h.allowedKeys.contains key then .field h else .known none

/-- How `key` is answered. -/
def answer (v : Value) (key : String) : KeyAnswer :=
  match v with
  | .array items => .known ((position? key).bind (items[·]?))
  | .object entries => .known (entries.lookup key)
  | .host h => hostAnswer h key
  | .null | .bool _ | .number _ | .string _ => .known none

/-- What `key` stands for in a value, if anything. -/
def access (v : Value) (key : String) : Reading (Option Value) :=
  match v.answer key with
  | .known found => pure found
  | .field h => Reading.field h key

end Value
end Stencil
