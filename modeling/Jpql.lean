import Jpql.Binder
import Jpql.Binding
import Jpql.Binding.Identifier
import Jpql.Binding.Operand
import Jpql.Binding.Pattern
import Jpql.Binding.Similarity
import Jpql.Calendar
import Jpql.Declared
import Jpql.Declared.Extraction
import Jpql.Declared.Markers
import Jpql.Declared.NativeText
import Jpql.Declared.ParsedText
import Jpql.Declared.QueryText
import Jpql.Derived
import Jpql.Derived.Cache
import Jpql.Derived.Condition
import Jpql.Derived.Creation
import Jpql.Derived.JoinPath
import Jpql.Derived.Keyset
import Jpql.Derived.Operands
import Jpql.Derived.SelectQuery
import Jpql.Dialect
import Jpql.Error
import Jpql.Grammar
import Jpql.Grammar.Clause
import Jpql.Grammar.Expression
import Jpql.Grammar.Parser
import Jpql.Json
import Jpql.Json.Codec
import Jpql.Json.Reader
import Jpql.Metamodel
import Jpql.MethodName
import Jpql.MethodName.Operator
import Jpql.MethodName.Part
import Jpql.Number.FloatText
import Jpql.Number.Shortest
import Jpql.Paging
import Jpql.Parameters
import Jpql.Proofs.Binder
import Jpql.Proofs.Binder.Leniency
import Jpql.Proofs.Declared.CarriedOver
import Jpql.Proofs.Declared.ExpressionBindings
import Jpql.Proofs.Declared.ExpressionMarks
import Jpql.Proofs.Declared.Expressions
import Jpql.Proofs.Declared.Labels
import Jpql.Proofs.Declared.Literals
import Jpql.Proofs.Declared.NativeSort
import Jpql.Proofs.Declared.Parameters
import Jpql.Proofs.Declared.Pieces
import Jpql.Proofs.Declared.Run
import Jpql.Proofs.Declared.Sharing
import Jpql.Proofs.Declared.Signs
import Jpql.Proofs.Declared.Unnumbered
import Jpql.Proofs.Declared.Wildcards
import Jpql.Proofs.Derived.Acceptance
import Jpql.Proofs.Derived.Agreement
import Jpql.Proofs.Derived.Backward
import Jpql.Proofs.Derived.Bound
import Jpql.Proofs.Derived.Cache
import Jpql.Proofs.Derived.Clauses
import Jpql.Proofs.Derived.Condition
import Jpql.Proofs.Derived.Creation
import Jpql.Proofs.Derived.CursorTruth
import Jpql.Proofs.Derived.Database
import Jpql.Proofs.Derived.FoldedLists
import Jpql.Proofs.Derived.JoinChain
import Jpql.Proofs.Derived.JoinGraph
import Jpql.Proofs.Derived.Keyset
import Jpql.Proofs.Derived.LiteralPatterns
import Jpql.Proofs.Derived.Markers
import Jpql.Proofs.Derived.Numbering
import Jpql.Proofs.Derived.Offsets
import Jpql.Proofs.Derived.OwnAttributes
import Jpql.Proofs.Derived.Parsing
import Jpql.Proofs.Derived.PlainCalls
import Jpql.Proofs.Derived.Prepared
import Jpql.Proofs.Derived.Readback
import Jpql.Proofs.Derived.Rejoining
import Jpql.Proofs.Derived.ResultVariables
import Jpql.Proofs.Derived.Reversal
import Jpql.Proofs.Derived.RowLimits
import Jpql.Proofs.Derived.RowOrder
import Jpql.Proofs.Derived.Scrolling
import Jpql.Proofs.Derived.Settings
import Jpql.Proofs.Derived.SortedExpressions
import Jpql.Proofs.Derived.Syntax
import Jpql.Proofs.Derived.Unmarked
import Jpql.Proofs.Grammar.Carrying
import Jpql.Proofs.Grammar.CarryingClauses
import Jpql.Proofs.Grammar.Clauses
import Jpql.Proofs.Grammar.Dialects
import Jpql.Proofs.Grammar.Expressions
import Jpql.Proofs.Grammar.Insertion
import Jpql.Proofs.Grammar.LastBranch
import Jpql.Proofs.Grammar.Modes
import Jpql.Proofs.Grammar.Nested
import Jpql.Proofs.Grammar.Precedence
import Jpql.Proofs.Grammar.Seam
import Jpql.Proofs.Grammar.Spelling
import Jpql.Proofs.Grammar.Taking
import Jpql.Proofs.Grammar.Transcribing
import Jpql.Proofs.Grammar.TranscribingClauses
import Jpql.Proofs.Grammar.TranscribingExpressions
import Jpql.Proofs.MethodName
import Jpql.Proofs.MethodName.Capitals
import Jpql.Proofs.MethodName.Conditions
import Jpql.Proofs.MethodName.Description
import Jpql.Proofs.MethodName.Predicate
import Jpql.Proofs.MethodName.Roundtrip
import Jpql.Proofs.MethodName.Words
import Jpql.Proofs.PropertyPath.Cuts
import Jpql.Proofs.PropertyPath.Names
import Jpql.Proofs.Rendering.Conveying
import Jpql.Proofs.Rendering.Lexemes
import Jpql.Proofs.Rendering.Spacing
import Jpql.Proofs.Statement.CountedVariable
import Jpql.Proofs.Statement.Counting
import Jpql.Proofs.Statement.SafeSort
import Jpql.Proofs.Statement.SortedText
import Jpql.Proofs.Statement.Surroundings
import Jpql.Proofs.Text.LowerCase
import Jpql.Proofs.Text.Search
import Jpql.Proofs.Token.Lexing
import Jpql.Proofs.Token.Names
import Jpql.Proofs.Token.Parameters
import Jpql.Proofs.Token.Tiling
import Jpql.Proofs.Token.Whole
import Jpql.PropertyPath
import Jpql.Provider
import Jpql.Provider.Memory
import Jpql.Rendering
import Jpql.ReturnedType
import Jpql.Scroll
import Jpql.Sorting
import Jpql.Statement
import Jpql.Statement.Counting
import Jpql.Statement.Outline
import Jpql.Statement.Printer
import Jpql.Statement.Sorted
import Jpql.Text.Blank
import Jpql.Text.Case
import Jpql.Text.CaseMapping
import Jpql.Text.CodeRange
import Jpql.Text.Letter
import Jpql.Text.Numeral
import Jpql.Text.Printable
import Jpql.Text.Search
import Jpql.Text.Separator
import Jpql.Text.Word
import Jpql.Token
import Jpql.Token.Lexer
import Jpql.Uuid
import Jpql.Value
import Jpql.Value.Description
