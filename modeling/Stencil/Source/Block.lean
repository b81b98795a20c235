import Stencil.Source.Piece

/-!
Blocks: how the pieces of a template nest. The blocks that are open form a stack; each piece is one
step, and a text is a program when the last step leaves no block open.
-/
namespace Stencil

/-- How deep blocks may nest, each link of an else chain counting as one. -/
def maxBlockDepth : Nat := 64

/-- An open block. `name` is the text its closing tag must have, `before` what stands before it in
the section around it, and `first` its first section once its else has come. A block is chained if
it continues the one around it, which then ends with it. -/
structure OpenBlock where
  head : BlockHead
  name : String
  inverted : Bool
  chained : Bool
  before : Program
  first : Option Program
  deriving Inhabited

/-- The statement of a block that ends after `present`, its last section. -/
def OpenBlock.close (block : OpenBlock) (present : Program) : Statement :=
  let first := block.first.getD present
  let second := if block.first.isSome then present else []
  if block.inverted then .block block.head.path block.head.arguments second first
  else .block block.head.path block.head.arguments first second

/-- The open blocks, the innermost first, and the present section of the innermost. -/
structure Nesting where
  blocks : List OpenBlock := []
  present : Program := []
  deriving Inhabited

/-- Ends the innermost block, with those that it continues: a chained block is the inverse section
of the block around it. -/
def endBlock : List OpenBlock → Program → Nesting
  | [], present => ⟨[], present⟩
  | block :: outer, present =>
    if block.chained then endBlock outer [block.close present]
    else ⟨outer, block.before ++ [block.close present]⟩

namespace Nesting

/-- The nesting with one more statement in the present section. -/
def push (n : Nesting) (s : Statement) : Nesting := { n with present := n.present ++ [s] }

/-- The nesting with one more block open, if blocks may nest that deep. -/
def openBlock (n : Nesting) (block : OpenBlock) (stop : Mark) : Except Fault Nesting :=
  if maxBlockDepth ≤ n.blocks.length then .error ⟨.here stop, .nestingTooDeep maxBlockDepth⟩
  else .ok ⟨block :: n.blocks, []⟩

/-- Begins the second section of the innermost block, or the block that continues it. -/
def beginElse (n : Nesting) (tag : Tag) (chain : Option BlockHead) : Except Fault Nesting :=
  match n.blocks with
  | [] => .error ⟨.earlier tag.start, .message "'else' outside of a block"⟩
  | block :: outer =>
    if block.first.isSome then
      .error ⟨.earlier tag.start,
        .message ("'" ++ block.name ++ "' already has an inverse section")⟩
    else
      let divided : Nesting := ⟨{ block with first := some n.present } :: outer, []⟩
      match chain with
      | none => .ok divided
      | some head => divided.openBlock ⟨head, block.name, false, true, [], none⟩ tag.stop

/-- Ends the innermost block, whose name the closing tag must repeat. -/
def closeBlock (n : Nesting) (tag : Tag) (path : Path) : Except Fault Nesting :=
  match n.blocks with
  | [] =>
    .error ⟨.earlier tag.start,
      .message ("'\x7b\x7b/" ++ path.source ++ "\x7d\x7d' does not close any block")⟩
  | block :: _ =>
    if path.source = block.name then .ok (endBlock n.blocks n.present)
    else .error ⟨.earlier tag.start, .mismatchedClose block.name path.source⟩

/-- The nesting after one more piece. -/
def step (n : Nesting) : Piece → Except Fault Nesting
  | .raw text => .ok (n.push (.raw (String.ofList text)))
  | .tag t =>
    match t.body with
    | .statement s => .ok (n.push s)
    | .opening inverted head =>
      n.openBlock ⟨head, head.path.source, inverted, false, n.present, none⟩ t.stop
    | .otherwise chain => n.beginElse t chain
    | .closing path => n.closeBlock t path

/-- The program that is complete where the text ends. -/
def finish (n : Nesting) (stop : Mark) : Except Fault Program :=
  match n.blocks with
  | [] => .ok n.present
  | block :: _ =>
    .error ⟨.here stop, .endOfText (some ("\x7b\x7b/" ++ block.name ++ "\x7d\x7d"))⟩

end Nesting

/-- The program of a list of pieces. A fault in how they nest comes before one at their end. -/
def nest (pieces : List Piece) (ending : Ending) : Except Fault Program := do
  let n ← pieces.foldlM Nesting.step {}
  let stop ← ending
  n.finish stop

/-- The program of a template text, or its first fault. -/
def readProgram (text : List Char) : Except Fault Program :=
  let r := (Cursor.start text).pieces
  nest (trimPieces false r.1) r.2

/-- The program of a template, or why it does not parse. -/
def parse (source : String) : Except ParseError Program :=
  (readProgram source.toList).mapError (Fault.error source.toList)

end Stencil
