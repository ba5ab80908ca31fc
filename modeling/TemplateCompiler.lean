import TemplateCompiler.CommandLine.Arguments
import TemplateCompiler.CommandLine.Run
import TemplateCompiler.Config.Json
import TemplateCompiler.Config.Template
import TemplateCompiler.Decimal.Layout
import TemplateCompiler.Decimal.Power
import TemplateCompiler.Decimal.Remainder
import TemplateCompiler.Decimal.Shortest
import TemplateCompiler.Error
import TemplateCompiler.Expr.Basic
import TemplateCompiler.Expr.Bounds
import TemplateCompiler.Expr.Fault
import TemplateCompiler.Expr.Inner
import TemplateCompiler.Expr.Read
import TemplateCompiler.Files.Disk
import TemplateCompiler.Files.Path
import TemplateCompiler.Files.Tree
import TemplateCompiler.Proofs.Decimal.Layout
import TemplateCompiler.Proofs.Decimal.Sign
import TemplateCompiler.Proofs.Expr.Phrase
import TemplateCompiler.Proofs.Expr.PhraseOperand
import TemplateCompiler.Proofs.Expr.PhraseRead
import TemplateCompiler.Proofs.Expr.PhraseText
import TemplateCompiler.Proofs.Expr.Shape
import TemplateCompiler.Proofs.Expr.Translation
import TemplateCompiler.Proofs.Outcome
import TemplateCompiler.Proofs.Target.CodeText
import TemplateCompiler.Proofs.Target.Containment
import TemplateCompiler.Proofs.Target.Execution
import TemplateCompiler.Proofs.Target.Fragments
import TemplateCompiler.Proofs.Target.Lexeme
import TemplateCompiler.Proofs.Target.Print
import TemplateCompiler.Proofs.Target.References
import TemplateCompiler.Proofs.Target.Scoping
import TemplateCompiler.Proofs.Target.Term
import TemplateCompiler.Proofs.Target.TermReading
import TemplateCompiler.Proofs.Target.WellTyped
import TemplateCompiler.Proofs.Template.Automaton
import TemplateCompiler.Proofs.Template.Cursor
import TemplateCompiler.Proofs.Template.Decomposition
import TemplateCompiler.Proofs.Template.Placement
import TemplateCompiler.Proofs.Template.Printing
import TemplateCompiler.Proofs.Template.RoundTrip
import TemplateCompiler.Proofs.Template.WellFormed
import TemplateCompiler.Proofs.Text.Balanced
import TemplateCompiler.Proofs.Text.Trim
import TemplateCompiler.Proofs.Text.Word
import TemplateCompiler.Source
import TemplateCompiler.Target.Body
import TemplateCompiler.Target.Code
import TemplateCompiler.Target.Fields
import TemplateCompiler.Target.Ident
import TemplateCompiler.Target.Lower
import TemplateCompiler.Target.Prelude
import TemplateCompiler.Target.Quoted
import TemplateCompiler.Target.Renderer
import TemplateCompiler.Target.Stmt
import TemplateCompiler.Template.Keyword
import TemplateCompiler.Template.Node
import TemplateCompiler.Template.Parse
import TemplateCompiler.Template.Segment
import TemplateCompiler.Template.Tag
import TemplateCompiler.Template.Token
import TemplateCompiler.Text.Blank
import TemplateCompiler.Text.Hidden
import TemplateCompiler.Text.Identifier
import TemplateCompiler.Text.Outline
import TemplateCompiler.Text.Position
import TemplateCompiler.Value.Access
import TemplateCompiler.Value.Arithmetic
import TemplateCompiler.Value.Basic
import TemplateCompiler.Value.Compare
import TemplateCompiler.Value.Json
import TemplateCompiler.Value.Print
import TemplateCompiler.Main
import TemplateCompiler.Proofs.Target.FirstRefusal
import TemplateCompiler.Proofs.Target.Blame
import TemplateCompiler.Proofs.Target.Brackets
import TemplateCompiler.Proofs.Target.Indentation
import TemplateCompiler.Proofs.Config.Grammar
import TemplateCompiler.Proofs.Value.Decoding
import TemplateCompiler.Proofs.Config.StoredTemplate
import TemplateCompiler.Proofs.CommandLine.Loading
import TemplateCompiler.Proofs.Target.Naming
import TemplateCompiler.Proofs.Expr.Escapes
import TemplateCompiler.Proofs.Text.Pairing
import TemplateCompiler.Proofs.Expr.Accepted
import TemplateCompiler.Proofs.Expr.Extent
import TemplateCompiler.Proofs.Expr.Comparisons
import TemplateCompiler.Proofs.Expr.Bracketed
import TemplateCompiler.Proofs.Target.LoopScope
import TemplateCompiler.Proofs.Target.TypeName
import TemplateCompiler.Proofs.Value.Remainder
import TemplateCompiler.Proofs.Value.WholeNumbers
import TemplateCompiler.Proofs.Value.TextOrder
import TemplateCompiler.Proofs.Value.Canonical
import TemplateCompiler.Proofs.Text.Spacing
import TemplateCompiler.Proofs.Expr.Spacing
import TemplateCompiler.Proofs.Text.Outline
import TemplateCompiler.Proofs.Text.Position
import TemplateCompiler.Proofs.Text.Splitting
import TemplateCompiler.Proofs.Value.Quoted
import TemplateCompiler.Proofs.Value.ReadBack
import TemplateCompiler.Proofs.Expr.PrintedText
