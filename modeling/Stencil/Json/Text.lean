import Stencil.Json

/-!
JSON texts: reading a document and writing one. A number is an integer if it has neither a fraction
nor an exponent, 64 bits hold it, and it is not a negative zero.
-/
namespace Stencil

/-- A decimal with an optional fraction and exponent. -/
structure DecimalText where
  value : Decimal
  /-- Whether there is neither a fraction nor an exponent. -/
  plain : Bool
  rest : List Char

namespace DecimalText

/-- The exponent that a text starts with, and what follows it. -/
def exponent? : List Char → Option (Int × List Char)
  | mark :: text =>
    if mark == 'e' || mark == 'E' then
      let down := text.head? == some '-'
      let digits := if down || text.head? == some '+' then text.drop 1 else text
      let power := digits.takeWhile Char.isDigit
      let n : Int := Decimal.valueOf power
      some (if down then -n else n, digits.drop power.length)
    else none
  | [] => none

/-- The fraction that a text starts with, if it starts with a point. -/
def fraction? : List Char → Option (List Char)
  | '.' :: text => some (text.takeWhile Char.isDigit)
  | _ => none

/-- The decimal that a text starts with. -/
def read? (text : List Char) : Option DecimalText :=
  let negative := text.head? == some '-'
  let unsigned := text.drop negative.toNat
  let whole := unsigned.takeWhile Char.isDigit
  let text := unsigned.drop whole.length
  let fraction := fraction? text
  let digits := fraction.getD []
  if whole.isEmpty && digits.isEmpty then none
  else
    let text := text.drop (digits.length + fraction.isSome.toNat)
    let exponent := exponent? text
    some {
      value := ⟨negative, Decimal.valueOf (whole ++ digits),
        (exponent.elim 0 Prod.fst) - digits.length⟩
      plain := fraction.isNone && exponent.isNone
      rest := exponent.elim text Prod.snd }

/-- The number that a decimal is in a document. -/
def toJson (d : DecimalText) : Json :=
  let n : Int := if d.value.negative then -d.value.digits else d.value.digits
  let negativeZero := d.value.negative && d.value.digits == 0
  if d.plain ∧ ¬ negativeZero ∧ Int64.minValue.toInt ≤ n ∧ n < UInt64.size then .int n
  else .float d.value.toFloat

end DecimalText

namespace Json

/-- The value of a digit in base sixteen. -/
def hexValue? (c : Char) : Option Nat :=
  if c.isDigit then some (c.toNat - '0'.toNat)
  else if 'a' ≤ c ∧ c ≤ 'f' then some (c.toNat - 'a'.toNat + 10)
  else if 'A' ≤ c ∧ c ≤ 'F' then some (c.toNat - 'A'.toNat + 10)
  else none

/-- The value of four digits in base sixteen. -/
def hex4? (a b c d : Char) : Option Nat :=
  return (((← hexValue? a) * 16 + (← hexValue? b)) * 16 + (← hexValue? c)) * 16 + (← hexValue? d)

/-- The character of a backslash with one character after it. -/
def escaped (c : Char) : Char :=
  match c with
  | 'n' => '\n'
  | 'r' => '\r'
  | 't' => '\t'
  | 'b' => '\x08'
  | 'f' => '\x0c'
  | c => c

/-- The rest of a string up to its closing quote, and what follows it. Two units of a pair stand for
one character. -/
def stringRest? : List Char → Option (List Char × List Char)
  | [] => none
  | '"' :: text => some ([], text)
  | '\\' :: 'u' :: a :: b :: c :: d :: text => do
    let high ← hex4? a b c d
    if 0xd800 ≤ high ∧ high < 0xdc00 then
      match text with
      | '\\' :: 'u' :: e :: f :: g :: h :: text =>
        let low ← hex4? e f g h
        let r ← stringRest? text
        return (Char.ofNat (0x10000 + (high - 0xd800) * 0x400 + (low - 0xdc00)) :: r.1, r.2)
      | _ => none
    else
      let r ← stringRest? text
      return (Char.ofNat high :: r.1, r.2)
  | '\\' :: c :: text => (stringRest? text).map fun r => (escaped c :: r.1, r.2)
  | c :: text => (stringRest? text).map fun r => (c :: r.1, r.2)

def skipBlanks (text : List Char) : List Char := text.dropWhile Char.isWhitespace

mutual
/-- The document that a text starts with, and what follows it; `depth` bounds its nesting and the
number of its items. -/
def readValue? : Nat → List Char → Option (Json × List Char)
  | 0, _ => none
  | depth + 1, text =>
    match skipBlanks text with
    | 'n' :: 'u' :: 'l' :: 'l' :: rest => some (.null, rest)
    | 't' :: 'r' :: 'u' :: 'e' :: rest => some (.bool true, rest)
    | 'f' :: 'a' :: 'l' :: 's' :: 'e' :: rest => some (.bool false, rest)
    | '"' :: rest => (stringRest? rest).map fun r => (.string (String.ofList r.1), r.2)
    | '[' :: rest =>
      match skipBlanks rest with
      | ']' :: rest => some (.array [], rest)
      | rest => (readItems? depth rest).map fun r => (.array r.1, r.2)
    | '{' :: rest =>
      match skipBlanks rest with
      | '}' :: rest => some (.object [], rest)
      | rest => (readEntries? depth rest).map fun r => (.ofPairs r.1, r.2)
    | rest => (DecimalText.read? rest).map fun d => (d.toJson, d.rest)

/-- The rest of an array with at least one item. -/
def readItems? : Nat → List Char → Option (List Json × List Char)
  | 0, _ => none
  | depth + 1, text => do
    let (item, rest) ← readValue? depth text
    match skipBlanks rest with
    | ',' :: rest => (readItems? depth rest).map fun r => (item :: r.1, r.2)
    | ']' :: rest => some ([item], rest)
    | _ => none

/-- The rest of an object with at least one entry. -/
def readEntries? : Nat → List Char → Option (List (String × Json) × List Char)
  | 0, _ => none
  | depth + 1, text =>
    match skipBlanks text with
    | '"' :: rest => do
      let (name, rest) ← stringRest? rest
      match skipBlanks rest with
      | ':' :: rest =>
        let (value, rest) ← readValue? depth rest
        let entry := (String.ofList name, value)
        match skipBlanks rest with
        | ',' :: rest => (readEntries? depth rest).map fun r => (entry :: r.1, r.2)
        | '}' :: rest => some ([entry], rest)
        | _ => none
      | _ => none
    | _ => none
end

/-- The document of a text. -/
def read? (text : String) : Option Json :=
  match readValue? (text.length + 1) text.toList with
  | some (j, rest) => if (skipBlanks rest).isEmpty then some j else none
  | none => none

/-- How a character is written inside a string. -/
def writtenChar (c : Char) : List Char :=
  match c with
  | '"' => ['\\', '"']
  | '\\' => ['\\', '\\']
  | '\n' => ['\\', 'n']
  | c =>
    if c.toNat < 0x20 then
      let digits := Nat.toDigits 16 c.toNat
      '\\' :: 'u' :: List.replicate (4 - digits.length) '0' ++ digits
    else [c]

def writeString (s : String) : String :=
  "\"" ++ String.ofList (s.toList.flatMap writtenChar) ++ "\""

mutual
/-- The text of a document. -/
def write : Json → String
  | .null => "null"
  | .bool b => if b then "true" else "false"
  | .int n => Number.intText n
  | .float x => floatText x
  | .string s => writeString s
  | .array items => "[" ++ ",".intercalate (writeItems items) ++ "]"
  | .object entries => "\x7b" ++ ",".intercalate (writeEntries entries) ++ "\x7d"

def writeItems : List Json → List String
  | [] => []
  | j :: rest => write j :: writeItems rest

def writeEntries : List (String × Json) → List String
  | [] => []
  | (name, j) :: rest => (writeString name ++ ":" ++ write j) :: writeEntries rest
end

end Json
end Stencil
