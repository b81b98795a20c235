import Stencil.Text.Space
import Stencil.Text.Alphanumeric
import Stencil.Text.Html
import Stencil.Text.Quoted
import Stencil.Number.Decimal
import Stencil.Number.Shortest
import Stencil.Number
import Stencil.NameMap
import Stencil.Value
import Stencil.Value.Access
import Stencil.Error
import Stencil.Program
import Stencil.Source.Cursor
import Stencil.Source.Lexeme
import Stencil.Source.Tag
import Stencil.Source.Piece
import Stencil.Source.Block
import Stencil.Scope
import Stencil.Options
import Stencil.Helper
import Stencil.Helper.Builtin
import Stencil.Context
import Stencil.Render
import Stencil.Template
import Stencil.Template.Render
import Stencil.Json
import Stencil.Json.Text
import Stencil.Value.Json
import Stencil.Error.Json
import Stencil.Template.Json
import Stencil.Session
import Stencil.Proofs.Written
import Stencil.Proofs.Written.Word
import Stencil.Proofs.Written.Path
import Stencil.Proofs.Written.Parameter
import Stencil.Proofs.Written.Raw
import Stencil.Proofs.Written.Tag
import Stencil.Proofs.Written.Tree
import Stencil.Proofs.Occurs
import Stencil.Proofs.Resolution
import Stencil.Proofs.Alike
import Stencil.Proofs.Alike.Scope
import Stencil.Proofs.Alike.Builtin
import Stencil.Proofs.Alike.Program
import Stencil.Proofs.Locality
import Stencil.Proofs.AllowList
import Stencil.Proofs.HtmlEntities
import Stencil.Proofs.HtmlSafety
import Stencil.Proofs.Spelling
import Stencil.Proofs.ErrorLocation
import Stencil.Proofs.Lookahead
import Stencil.Proofs.Lookahead.Tag
import Stencil.Proofs.Numerals.Token
import Stencil.Proofs.Nesting
import Stencil.Proofs.PathSource
import Stencil.Proofs.NormalForm.Tag
import Stencil.Proofs.NormalForm
import Stencil.Proofs.BlockTags
import Stencil.Proofs.Concatenation.Behind
import Stencil.Proofs.Concatenation.Seam
import Stencil.Proofs.Trimming.Edges
import Stencil.Proofs.BlockComposition
import Stencil.Proofs.Trimming
import Stencil.Proofs.Concatenation
import Stencil.Proofs.PartialLimit
import Stencil.Proofs.Inlining
import Stencil.Proofs.Frames
import Stencil.Proofs.Failures
import Stencil.Proofs.PartialDepth
import Stencil.Proofs.Renaming
import Stencil.Proofs.Session.Changes
import Stencil.Proofs.Session.Runs
import Stencil.Proofs.Session.Observers
import Stencil.Proofs.Session
import Stencil.Proofs.Registration
import Stencil.Proofs.Parameters
import Stencil.Proofs.Aborts
import Stencil.Proofs.Frames.Unrolling
import Stencil.Proofs.ScopeBound
import Stencil.Proofs.ReadOrder
import Stencil.Proofs.Iteration
import Stencil.Proofs.Positions
import Stencil.Proofs.Words
import Stencil.Proofs.ElementLookup
import Stencil.Proofs.StringLiterals
import Stencil.Proofs.ClosingTags
import Stencil.Proofs.PathText
import Stencil.Proofs.PathResolution
import Stencil.Proofs.PathLookup
import Stencil.Proofs.JsonForms
import Stencil.Proofs.Numerals
import Stencil.Proofs.Scan
import Stencil.Proofs.Scan.Run
import Stencil.Proofs.Scan.Cursor
import Stencil.Proofs.Progress
