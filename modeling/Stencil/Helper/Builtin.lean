import Stencil.Helper

/-!
The helpers that every template can call: `if`, `unless`, `each`, `with`, `lookup`, `log` and
`localize`.
-/
namespace Stencil
namespace Builtin

/-- The main section if the first parameter is true, else the inverse one. -/
def ifHelper : Helper := fun call =>
  .branch call (if (call.param? 0).any Value.isTruthy then .main else .inverse)

/-- The inverse of `if`. -/
def unlessHelper : Helper := fun call =>
  .branch call (if (call.param? 0).any Value.isTruthy then .inverse else .main)

/-- The private data of the element of number `i` out of `n`, after the data `extra`. -/
def elementData (data : PrivateData) (extra : List (String × Value)) (i n : Nat) : PrivateData :=
  data.insertAll (extra ++ [("index", .ofInt i), ("first", .bool (i == 0)),
    ("last", .bool (i + 1 == n))])

/-- The scopes of the elements of a sequence. -/
def elementScopes (data : PrivateData) (items : List Value) : List (Value × PrivateData) :=
  items.zipIdx.map fun (item, i) => (item, elementData data [] i items.length)

/-- The scopes of the entries of a mapping. -/
def entryScopes (data : PrivateData) (entries : List (String × Value)) :
    List (Value × PrivateData) :=
  entries.zipIdx.map fun ((key, item), i) =>
    (item, elementData data [("key", .string key)] i entries.length)

/-- The main section for every element of the first parameter if it is a sequence with any, else for
every entry if it is a mapping with any, else the inverse section. -/
def eachHelper : Helper := fun call =>
  let target := (call.param? 0).getD .null
  match target.elements?.filter (!·.isEmpty) with
  | some items => .renderEach .main (elementScopes call.data items) ""
  | none =>
    match target.entries?.filter (!·.isEmpty) with
    | some entries => .renderEach .main (entryScopes call.data entries) ""
    | none => .branch call .inverse

/-- The main section for the first parameter unless it is null or missing, else the inverse one. -/
def withHelper : Helper := fun call =>
  match (call.param? 0).filter (!·.isNull) with
  | some value => .renderThen .main value call.data .text
  | none => .branch call .inverse

/-- The text of what the second parameter is a key for in the first. -/
def lookupHelper : Helper := fun call =>
  match call.param? 0, call.param? 1 with
  | some target, some key =>
    .access target key.text fun
      | .ok found => .text (found.elim "" Value.text)
      | .error e => .fail (.hostAccess e)
  | _, _ => .fail (call.error "expects a value and a key")

/-- The level of a log line by its name or number; the usual one is `info`. -/
def logLevel : Option String → LogLevel
  | some "trace" => .trace
  | some "debug" | some "0" => .debug
  | some "warn" | some "2" => .warn
  | some "error" | some "3" => .error
  | _ => .info

/-- Logs the parameters at the level of the parameter `level`, and shows nothing. -/
def logHelper : Helper := fun call =>
  .note (.logged (logLevel ((call.named? "level").map Value.text))
    (" ".intercalate (call.params.map Value.text))) (.text "")

/-- The translation of the text of the first parameter. -/
def localizeHelper : Helper := fun call => .localize (call.paramText 0) .text

/-- The helpers of every template, in increasing order of their names. -/
def all : List (String × Helper) :=
  [("each", eachHelper), ("if", ifHelper), ("localize", localizeHelper), ("log", logHelper),
    ("lookup", lookupHelper), ("unless", unlessHelper), ("with", withHelper)]

end Builtin

/-- The helper of a name that every template can call. -/
def builtin? (name : String) : Option Helper := Builtin.all.lookup name

end Stencil
