import CodeOutline.Declaration
import CodeOutline.Declaration.OfNode
import CodeOutline.Document
import CodeOutline.Json.Basic
import CodeOutline.Json.Reader
import CodeOutline.Literal.Basic
import CodeOutline.Literal.OfNode
import CodeOutline.Number.Double
import CodeOutline.Number.Numeral
import CodeOutline.Outline
import CodeOutline.Proofs.Declaration.Isolation
import CodeOutline.Proofs.Declaration.Methods
import CodeOutline.Proofs.Declaration.Origin
import CodeOutline.Proofs.Declaration.Statement
import CodeOutline.Proofs.Document.Lines
import CodeOutline.Proofs.Document.Ranges
import CodeOutline.Proofs.Document.RoundTrip
import CodeOutline.Proofs.Document.Scan
import CodeOutline.Proofs.Json.Compact
import CodeOutline.Proofs.Json.Indented
import CodeOutline.Proofs.Json.Parts
import CodeOutline.Proofs.Json.RecordReader
import CodeOutline.Proofs.Json.Strings
import CodeOutline.Proofs.Json.Written
import CodeOutline.Proofs.LineEndings
import CodeOutline.Proofs.Literal.ArrayText
import CodeOutline.Proofs.Literal.Containers
import CodeOutline.Proofs.Literal.Failures
import CodeOutline.Proofs.Literal.Integers
import CodeOutline.Proofs.Literal.Kept
import CodeOutline.Proofs.Literal.LastWrite
import CodeOutline.Proofs.Literal.RoundTrip
import CodeOutline.Proofs.Literal.Spelling
import CodeOutline.Proofs.Literal.Writable
import CodeOutline.Proofs.Navigation
import CodeOutline.Proofs.Notes
import CodeOutline.Proofs.Number.Digits
import CodeOutline.Proofs.Outline.Conservation
import CodeOutline.Proofs.Outline.Pushes
import CodeOutline.Proofs.Outline.Record
import CodeOutline.Proofs.Outline.WellFormed
import CodeOutline.Proofs.Provider.LatestWins
import CodeOutline.Proofs.Provider.OwnRequest
import CodeOutline.Proofs.Provider.StaleLog
import CodeOutline.Proofs.Provider.Steps
import CodeOutline.Proofs.Provider.WaitIsolation
import CodeOutline.Proofs.Skeleton.Constants
import CodeOutline.Proofs.Skeleton.HiddenMembers
import CodeOutline.Proofs.Skeleton.Modes
import CodeOutline.Proofs.Skeleton.Tiling
import CodeOutline.Proofs.SourceOrder
import CodeOutline.Proofs.SourceText
import CodeOutline.Proofs.Success
import CodeOutline.Proofs.Text.Basic
import CodeOutline.Proofs.Tool.Answers
import CodeOutline.Proofs.Tool.Loading
import CodeOutline.Provider
import CodeOutline.Skeleton
import CodeOutline.SourceText
import CodeOutline.Text.Basic
import CodeOutline.Text.Quoted
import CodeOutline.Text.Utf8
import CodeOutline.Token
import CodeOutline.Token.OfDeclaration
import CodeOutline.Tool
import CodeOutline.Traced
import CodeOutline.Workspace
