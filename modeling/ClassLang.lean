import ClassLang.Checking.Analysis
import ClassLang.Checking.Calls
import ClassLang.Checking.Check
import ClassLang.Checking.Declaration
import ClassLang.Checking.Event
import ClassLang.Checking.Exprs
import ClassLang.Checking.Fault
import ClassLang.Checking.Findings
import ClassLang.Checking.Inheritance
import ClassLang.Checking.Literals
import ClassLang.Checking.Members
import ClassLang.Checking.Operators
import ClassLang.Checking.Overloads
import ClassLang.Checking.Statements
import ClassLang.Checking.Storing
import ClassLang.Checking.Unused
import ClassLang.Checking.WrittenTypes
import ClassLang.CommandLine.Log
import ClassLang.CommandLine.Options
import ClassLang.CommandLine.Run
import ClassLang.Compile
import ClassLang.Handler
import ClassLang.Lexing.Fault
import ClassLang.Lexing.Gap
import ClassLang.Lexing.Scan
import ClassLang.Lexing.Tokens
import ClassLang.Main
import ClassLang.Number.Binary64
import ClassLang.Number.Shortest
import ClassLang.Parsing.Context
import ClassLang.Parsing.Cursor
import ClassLang.Parsing.Exprs
import ClassLang.Parsing.Fault
import ClassLang.Parsing.Parser
import ClassLang.Parsing.Programs
import ClassLang.Parsing.Statements
import ClassLang.Parsing.Types
import ClassLang.Proofs.Checking.ClassOrder
import ClassLang.Proofs.Checking.CollectionLiterals
import ClassLang.Proofs.Checking.Constness
import ClassLang.Proofs.Checking.Cycles
import ClassLang.Proofs.Checking.Decoration
import ClassLang.Proofs.Checking.Encapsulation
import ClassLang.Proofs.Checking.Examinations
import ClassLang.Proofs.Checking.InheritedFields
import ClassLang.Proofs.Checking.InheritedTypes
import ClassLang.Proofs.Checking.Instances
import ClassLang.Proofs.Checking.LayoutIndependence
import ClassLang.Proofs.Checking.Memoization
import ClassLang.Proofs.Checking.Misplacement
import ClassLang.Proofs.Checking.NestedBlocks
import ClassLang.Proofs.Checking.OperatorInstances
import ClassLang.Proofs.Checking.OperatorResolution
import ClassLang.Proofs.Checking.OverloadReports
import ClassLang.Proofs.Checking.PartReports
import ClassLang.Proofs.Checking.Returns
import ClassLang.Proofs.Checking.SpanNesting
import ClassLang.Proofs.Checking.TypeMeanings
import ClassLang.Proofs.Checking.TypeParameters
import ClassLang.Proofs.Checking.Unreachable
import ClassLang.Proofs.Checking.Usage
import ClassLang.Proofs.Checking.Verdict
import ClassLang.Proofs.Checking.VirtualSlots
import ClassLang.Proofs.Lexing.Joining
import ClassLang.Proofs.Lexing.Lossless
import ClassLang.Proofs.Lexing.Respacing
import ClassLang.Proofs.Parsing.Assignments
import ClassLang.Proofs.Parsing.Branches
import ClassLang.Proofs.Parsing.Chains
import ClassLang.Proofs.Parsing.CursorRuns
import ClassLang.Proofs.Parsing.Numbering
import ClassLang.Proofs.Parsing.Precedence
import ClassLang.Proofs.Parsing.Reports
import ClassLang.Proofs.Parsing.RoundTrip
import ClassLang.Proofs.Parsing.Termination
import ClassLang.Proofs.Text.Positions
import ClassLang.Proofs.Types.Aliases
import ClassLang.Proofs.Types.Assignability
import ClassLang.Proofs.Types.Inference
import ClassLang.Region
import ClassLang.Source
import ClassLang.Syntax.Expr
import ClassLang.Syntax.Ink
import ClassLang.Syntax.Keyword
import ClassLang.Syntax.Literal
import ClassLang.Syntax.Modifiers
import ClassLang.Syntax.Node
import ClassLang.Syntax.Operator
import ClassLang.Syntax.Outline
import ClassLang.Syntax.Primitive
import ClassLang.Syntax.Program
import ClassLang.Syntax.Punct
import ClassLang.Syntax.Statement
import ClassLang.Syntax.Token
import ClassLang.Syntax.TypeRef
import ClassLang.Table
import ClassLang.Text.Blank
import ClassLang.Text.Document
import ClassLang.Text.Identifier
import ClassLang.Text.Position
import ClassLang.Types.Assign
import ClassLang.Types.Environment
import ClassLang.Types.Promotion
import ClassLang.Types.Substitution
import ClassLang.Types.Ty
