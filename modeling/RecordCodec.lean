import RecordCodec.Assoc
import RecordCodec.Binary64.Basic
import RecordCodec.Binary64.Decimal
import RecordCodec.Binary64.Scaling
import RecordCodec.Cache
import RecordCodec.Calendar.Date
import RecordCodec.Calendar.Reader
import RecordCodec.Calendar.Time
import RecordCodec.Casing
import RecordCodec.Codec
import RecordCodec.Command.Arguments
import RecordCodec.Command.Directory
import RecordCodec.Command.Report
import RecordCodec.Command.Run
import RecordCodec.Compile.Compilation
import RecordCodec.Compile.Decoder
import RecordCodec.Compile.Encoder
import RecordCodec.Compile.Names
import RecordCodec.Compile.Session
import RecordCodec.Compile.Types
import RecordCodec.Config
import RecordCodec.Converter.Basic
import RecordCodec.Converter.Decode
import RecordCodec.Converter.Encode
import RecordCodec.Converter.Scalar
import RecordCodec.Document.Basic
import RecordCodec.Document.Printer
import RecordCodec.Document.Reader
import RecordCodec.Failure
import RecordCodec.FlatText
import RecordCodec.Inference
import RecordCodec.Instance
import RecordCodec.Json.Basic
import RecordCodec.Json.Printer
import RecordCodec.Json.Reader
import RecordCodec.Main
import RecordCodec.Registry
import RecordCodec.Routine.Block
import RecordCodec.Routine.Draft
import RecordCodec.Routine.Linked
import RecordCodec.Routine.Locals
import RecordCodec.Routine.Run
import RecordCodec.Schema
import RecordCodec.Table
import RecordCodec.Text.Alphanumeric
import RecordCodec.Text.Base64
import RecordCodec.Text.Blank
import RecordCodec.Text.Case
import RecordCodec.Text.CaseTable
import RecordCodec.Text.Integer
import RecordCodec.Text.Printable
import RecordCodec.Text.Quoted
import RecordCodec.Text.Split
import RecordCodec.TypeExpr.Basic
import RecordCodec.TypeExpr.Lexer
import RecordCodec.TypeExpr.Parser
import RecordCodec.TypeExpr.Printer
import RecordCodec.TypeExpr.Union
import RecordCodec.Proofs.Execution
import RecordCodec.Proofs.Lowering
import RecordCodec.Proofs.Direct
import RecordCodec.Proofs.Documents
import RecordCodec.Proofs.Encodable
import RecordCodec.Proofs.Handling
import RecordCodec.Proofs.Compiles
import RecordCodec.Proofs.Actions
import RecordCodec.Proofs.Naming
import RecordCodec.Proofs.Entries
import RecordCodec.Proofs.Sessions
import RecordCodec.Proofs.SessionSteps
import RecordCodec.Proofs.SessionMoves
import RecordCodec.Proofs.Linking
import RecordCodec.Proofs.Interleaving
import RecordCodec.Proofs.DecoderRuns
import RecordCodec.Proofs.EncoderRuns
import RecordCodec.Proofs.Declarations
import RecordCodec.Proofs.Interpretation
import RecordCodec.Proofs.Fuel
import RecordCodec.Proofs.Measures
import RecordCodec.Proofs.Locality
import RecordCodec.Proofs.CallBound
import RecordCodec.Proofs.Correctness
import RecordCodec.Proofs.Results
import RecordCodec.Proofs.Inhabitants
import RecordCodec.Proofs.Soundness
import RecordCodec.Proofs.Codecs
import RecordCodec.Proofs.Places
import RecordCodec.Proofs.Reversible
import RecordCodec.Proofs.Equality
import RecordCodec.Proofs.Scalars
import RecordCodec.Proofs.Variants
import RecordCodec.Proofs.Containers
import RecordCodec.Proofs.Fields
import RecordCodec.Proofs.RoundTrip
import RecordCodec.Proofs.Keys
import RecordCodec.Proofs.Budget
import RecordCodec.Proofs.Termination
import RecordCodec.Proofs.Drafts
import RecordCodec.Proofs.Progress
import RecordCodec.Proofs.CodecRoundTrip
import RecordCodec.Proofs.Agreement
import RecordCodec.Proofs.Checking
import RecordCodec.Proofs.Linkable
import RecordCodec.Proofs.Following
import RecordCodec.Proofs.Outcomes
import RecordCodec.Proofs.Caches
import RecordCodec.Proofs.Transparency
import RecordCodec.Proofs.Compositional
import RecordCodec.Proofs.Origins
import RecordCodec.Proofs.SessionFailures
import RecordCodec.Proofs.ExactLinking
import RecordCodec.Proofs.FailurePaths
import RecordCodec.Proofs.Unions
import RecordCodec.Proofs.Alike
import RecordCodec.Proofs.Matching
import RecordCodec.Proofs.Restoring
import RecordCodec.Proofs.EqualInputs
import RecordCodec.Proofs.Elision
import RecordCodec.Proofs.ElidedRoundTrip
import RecordCodec.Proofs.CodecElision
import RecordCodec.Proofs.Rounding
import RecordCodec.Proofs.Decimals
import RecordCodec.Proofs.NumberTexts
import RecordCodec.Proofs.Tokens
import RecordCodec.Proofs.Lexing
import RecordCodec.Proofs.Rereading
import RecordCodec.Proofs.UnionKeys
import RecordCodec.Proofs.Overwriting
import RecordCodec.Proofs.UnionTags
import RecordCodec.Proofs.SampleTypes
import RecordCodec.Proofs.UnionForms
import RecordCodec.Proofs.DocumentRoundTrip
import RecordCodec.Proofs.Grammar
import RecordCodec.Proofs.Derivations
import RecordCodec.Proofs.Offsets
import RecordCodec.Proofs.SampleDrafts
import RecordCodec.Proofs.SampleSchemas
import RecordCodec.Proofs.SampleChecks
import RecordCodec.Proofs.SampleDecoding
import RecordCodec.Proofs.UnionChoice
import RecordCodec.Proofs.NamedHandlers
import RecordCodec.Proofs.Reach
import RecordCodec.Proofs.DecoderEnds
import RecordCodec.Proofs.Shuffling
import RecordCodec.Proofs.ShuffledInputs
import RecordCodec.Proofs.KeyOrder
import RecordCodec.Proofs.FieldPlaces
import RecordCodec.Proofs.UnknownKeys
import RecordCodec.Proofs.MappingKeys
import RecordCodec.Proofs.OmittedDefaults
import RecordCodec.Proofs.DrawnNames
import RecordCodec.Proofs.Shadowing
import RecordCodec.Proofs.MissingFields
import RecordCodec.Proofs.CatchAlls
import RecordCodec.Proofs.Nesting
import RecordCodec.Proofs.StructuredRuns
import RecordCodec.Proofs.WriteOrders
import RecordCodec.Proofs.FirstKeys
import RecordCodec.Proofs.PositionalForms
import RecordCodec.Proofs.LoneRecords
import RecordCodec.Proofs.JoinedTexts
import RecordCodec.Proofs.FlatForms
import RecordCodec.Proofs.FlatDecoding
import RecordCodec.Proofs.Merging
import RecordCodec.Proofs.Inheritance
import RecordCodec.Proofs.Recasing
import RecordCodec.Proofs.FlatLines
import RecordCodec.Proofs.DeclarationOrder
import RecordCodec.Proofs.Ancestry
import RecordCodec.Proofs.FieldOrder
import RecordCodec.Proofs.OrderlessEncoding
import RecordCodec.Proofs.SampleGroups
import RecordCodec.Proofs.ReferencedNames
import RecordCodec.Proofs.SampleReferences
import RecordCodec.Proofs.PathTexts
import RecordCodec.Proofs.Integers
import RecordCodec.Proofs.Equivalence
import RecordCodec.Proofs.NullValues
import RecordCodec.Proofs.Attribution
import RecordCodec.Proofs.SavedContexts
import RecordCodec.Proofs.KeyScopes
