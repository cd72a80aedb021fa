import Assay.Calendar.Date
import Assay.Calendar.Iso
import Assay.Calendar.Moment
import Assay.Document.Json
import Assay.Document.Load
import Assay.Evaluate.Check
import Assay.Evaluate.Form
import Assay.Evaluate.Items
import Assay.Evaluate.Lazy
import Assay.Evaluate.Merge
import Assay.Evaluate.Parse
import Assay.Evaluate.Scalar
import Assay.Evaluate.Structure
import Assay.Format.Basic
import Assay.Format.Recognizer
import Assay.Function.Class
import Assay.Function.Host
import Assay.Function.Sink
import Assay.Function.Stock
import Assay.KindTable
import Assay.Message.English
import Assay.Message.Field
import Assay.Message.Json
import Assay.Message.Path
import Assay.Message.Report
import Assay.Message.Resolution
import Assay.Net.Address
import Assay.Net.Url
import Assay.Number.Binary64
import Assay.Number.Numeral
import Assay.Number.Remainder
import Assay.Number.Shortest
import Assay.Pattern.Basic
import Assay.Pattern.Matcher
import Assay.Pattern.Parser
import Assay.Proofs.AbortEarly
import Assay.Proofs.Abreast
import Assay.Proofs.Abridging
import Assay.Proofs.Absence
import Assay.Proofs.Acceptance
import Assay.Proofs.Accord
import Assay.Proofs.Adequacy
import Assay.Proofs.Alignment
import Assay.Proofs.Ample
import Assay.Proofs.Answering
import Assay.Proofs.Assembling
import Assay.Proofs.AsyncParity
import Assay.Proofs.AttachedFormats
import Assay.Proofs.Base64Texts
import Assay.Proofs.Building
import Assay.Proofs.BuiltChecks
import Assay.Proofs.Calls
import Assay.Proofs.Checks
import Assay.Proofs.ClockTexts
import Assay.Proofs.Conformance
import Assay.Proofs.Containers
import Assay.Proofs.Correspondence
import Assay.Proofs.Creating
import Assay.Proofs.DateBounds
import Assay.Proofs.Describing
import Assay.Proofs.Discrimination
import Assay.Proofs.Displaying
import Assay.Proofs.Divisibility
import Assay.Proofs.Elements
import Assay.Proofs.Equality
import Assay.Proofs.Equivalence
import Assay.Proofs.Finalizing
import Assay.Proofs.FormatTexts
import Assay.Proofs.Guarded
import Assay.Proofs.HostnameTexts
import Assay.Proofs.Idempotence
import Assay.Proofs.Identifiers
import Assay.Proofs.Immediate
import Assay.Proofs.Inlining
import Assay.Proofs.IntegerTexts
import Assay.Proofs.Intersecting
import Assay.Proofs.IssuePaths
import Assay.Proofs.Joining
import Assay.Proofs.Judgment
import Assay.Proofs.Keeping
import Assay.Proofs.Keyed
import Assay.Proofs.Lengths
import Assay.Proofs.LenientBuilds
import Assay.Proofs.LenientParses
import Assay.Proofs.Levels
import Assay.Proofs.Likeness
import Assay.Proofs.ListedKeys
import Assay.Proofs.ListedValues
import Assay.Proofs.Location
import Assay.Proofs.Lockstep
import Assay.Proofs.Malformed
import Assay.Proofs.Masks
import Assay.Proofs.Matching
import Assay.Proofs.Meaning
import Assay.Proofs.MemberTags
import Assay.Proofs.Memory
import Assay.Proofs.MessageTrees
import Assay.Proofs.Mirroring
import Assay.Proofs.Narrowing
import Assay.Proofs.Numerals
import Assay.Proofs.Outline
import Assay.Proofs.Overlooking
import Assay.Proofs.Parts
import Assay.Proofs.PathTexts
import Assay.Proofs.Places
import Assay.Proofs.Positions
import Assay.Proofs.Pruning
import Assay.Proofs.Purity
import Assay.Proofs.QuotedTexts
import Assay.Proofs.Rebuilding
import Assay.Proofs.Refusals
import Assay.Proofs.Rereading
import Assay.Proofs.Reshaping
import Assay.Proofs.RoundTrip
import Assay.Proofs.Rounding
import Assay.Proofs.Scoped
import Assay.Proofs.Settled
import Assay.Proofs.ShortestDecimals
import Assay.Proofs.Showing
import Assay.Proofs.SideBySide
import Assay.Proofs.Soundness
import Assay.Proofs.Sources
import Assay.Proofs.Specializing
import Assay.Proofs.StockFunctions
import Assay.Proofs.Suspends
import Assay.Proofs.Suspension
import Assay.Proofs.Transparency
import Assay.Proofs.Triple
import Assay.Proofs.Twins
import Assay.Proofs.Twofold
import Assay.Proofs.UnknownKeys
import Assay.Proofs.Warnings
import Assay.Proofs.Wording
import Assay.Proofs.WrittenDays
import Assay.Proofs.WrittenNumbers
import Assay.Registry
import Assay.Schema.Construct
import Assay.Schema.Definition
import Assay.Schema.Fault
import Assay.Schema.OfDefinition
import Assay.Session.Basic
import Assay.Session.Kinds
import Assay.Session.Names
import Assay.Session.Reach
import Assay.Session.Registering
import Assay.Session.Settings
import Assay.Text.Alphanumeric
import Assay.Text.Blank
import Assay.Text.CharRange
import Assay.Text.Digit
import Assay.Text.LetterCase
import Assay.Text.Printable
import Assay.Value.Basic
import Assay.Value.Depth
import Assay.Value.Equality
import Assay.Value.Naming
import Assay.Value.Order
import Assay.Value.Text
import Assay.Vocabulary.Attributes
import Assay.Vocabulary.Constructors
import Assay.Vocabulary.Methods
import Assay.Vocabulary.Signature
import Assay.Yaml.Cursor
import Assay.Yaml.Lexer
import Assay.Yaml.Meaning
import Assay.Yaml.Node
import Assay.Yaml.Plain
import Assay.Yaml.Scalar
import Assay.Yaml.Token
