import SkinCompiler.Text.Basic
import SkinCompiler.Text.CharClassTable
import SkinCompiler.Text.CharClass
import SkinCompiler.Text.Line
import SkinCompiler.Text.LetterCaseTable
import SkinCompiler.Text.Digest
import SkinCompiler.Text.LetterCase
import SkinCompiler.Text.Quoted
import SkinCompiler.Grammar.Basic
import SkinCompiler.Grammar.Chart
import SkinCompiler.Grammar.Derivation
import SkinCompiler.Number.Binary64
import SkinCompiler.Number.Shortest
import SkinCompiler.Source.Form
import SkinCompiler.Source.Productions
import SkinCompiler.Source.Escape
import SkinCompiler.Source.Node
import SkinCompiler.Source.Position
import SkinCompiler.Source.Phrase
import SkinCompiler.Source.ClassText
import SkinCompiler.Source.Outline
import SkinCompiler.Json.Basic
import SkinCompiler.Json.Reader
import SkinCompiler.Candidate.Arbitrary
import SkinCompiler.Candidate.DesignSystem
import SkinCompiler.Candidate.Basic
import SkinCompiler.Candidate.Printer
import SkinCompiler.Candidate.Reader
import SkinCompiler.Markup.Name
import SkinCompiler.Stylesheet.Basic
import SkinCompiler.Stylesheet.ClassSelector
import SkinCompiler.Style.Theme
import SkinCompiler.Style.StaticUtility
import SkinCompiler.Style.FunctionalUtility
import SkinCompiler.Style.Declarations
import SkinCompiler.Style.Selector
import SkinCompiler.Diagnostic
import SkinCompiler.Log
import SkinCompiler.Style.Compiled
import SkinCompiler.Markup.AttributeRule
import SkinCompiler.Markup.Component
import SkinCompiler.Markup.Template
import SkinCompiler.Skin.ElementModule
import SkinCompiler.Text.Splice
import SkinCompiler.Skin.Config
import SkinCompiler.Skin.Basic
import SkinCompiler.Skin.Pipeline
import SkinCompiler.Skin.Registry
import SkinCompiler.CommandLine.Arguments
import SkinCompiler.CommandLine.Command
import SkinCompiler.CommandLine.FileAccess
import SkinCompiler.CommandLine.Run
import SkinCompiler.Main
import SkinCompiler.Proofs.Text.Basic
import SkinCompiler.Proofs.Text.Blank
import SkinCompiler.Proofs.Table
import SkinCompiler.Proofs.Candidate.Segment
import SkinCompiler.Proofs.Candidate.Balance
import SkinCompiler.Proofs.Candidate.RoundTrip
import SkinCompiler.Proofs.Candidate.WellFormed
import SkinCompiler.Proofs.Style.Compiled
import SkinCompiler.Proofs.Stylesheet.RoundTrip
import SkinCompiler.Proofs.Style.Rewritten
import SkinCompiler.Proofs.Markup.StyleReference
import SkinCompiler.Proofs.Stylesheet.WellFormed
import SkinCompiler.Proofs.Grammar.Derivation
import SkinCompiler.Proofs.Source.Grammar
import SkinCompiler.Proofs.Source.Phrase
import SkinCompiler.Proofs.Source.Placeholder
import SkinCompiler.Proofs.Source.Ending
import SkinCompiler.Proofs.Source.Placement
import SkinCompiler.Proofs.Skin.StylesEdit
import SkinCompiler.Proofs.Source.Outline
import SkinCompiler.Proofs.Text.Splice
import SkinCompiler.Proofs.Skin.Reference
import SkinCompiler.Proofs.Skin.Removal
import SkinCompiler.Proofs.Stylesheet.Unterminated
import SkinCompiler.Proofs.Skin.Failure
import SkinCompiler.Proofs.Source.Leaf
import SkinCompiler.Proofs.Skin.Frame
import SkinCompiler.Proofs.Skin.Use
import SkinCompiler.Proofs.Style.Anchor
import SkinCompiler.Proofs.Source.SourceOrder
import SkinCompiler.Proofs.Skin.TemplateLiteral
import SkinCompiler.Proofs.Skin.ElementModule
import SkinCompiler.Proofs.Text.Line
import SkinCompiler.Proofs.Source.Spelling
import SkinCompiler.Proofs.Markup.Reader
import SkinCompiler.Proofs.Markup.TagName
import SkinCompiler.Proofs.Markup.Template
import SkinCompiler.Proofs.Skin.Strategy
import SkinCompiler.Proofs.Guarded.Basic
import SkinCompiler.Proofs.Guarded.Compiled
import SkinCompiler.Proofs.Guarded.Declarations
import SkinCompiler.Proofs.Guarded.Reader
import SkinCompiler.Proofs.Candidate.Mark
import SkinCompiler.Proofs.Candidate.HyphenCut
import SkinCompiler.Proofs.Candidate.LongestRoot
import SkinCompiler.Proofs.Style.SelectorTemplate
import SkinCompiler.Proofs.Text.SpliceOrder
import SkinCompiler.Proofs.Text.Words
import SkinCompiler.Proofs.Source.ClassText
import SkinCompiler.Proofs.Stylesheet.QuotedString
import SkinCompiler.Proofs.Skin.AttributeValue
import SkinCompiler.Proofs.Skin.InlinedClasses
import SkinCompiler.Proofs.Stylesheet.FixedPoint
import SkinCompiler.Proofs.Stylesheet.ClassSelector
import SkinCompiler.Proofs.Style.TokenReport
import SkinCompiler.Proofs.Source.FaultPlace
import SkinCompiler.Proofs.Skin.ImportMapping
import SkinCompiler.Proofs.Style.AddedColor
import SkinCompiler.Proofs.Style.Declarations
import SkinCompiler.Proofs.Style.Sign
import SkinCompiler.Proofs.Candidate.BracketedValue
import SkinCompiler.Proofs.Style.ReplacedToken
import SkinCompiler.Proofs.Style.TypeHint
import SkinCompiler.Proofs.Markup.KebabCase
import SkinCompiler.Proofs.Skin.EditRange
import SkinCompiler.Proofs.Path
import SkinCompiler.Proofs.Skin.OutputFile
import SkinCompiler.Proofs.Skin.KeptBinding
import SkinCompiler.Proofs.CommandLine.Written
