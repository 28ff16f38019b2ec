import Phrasebook.Catalog.Basic
import Phrasebook.Catalog.Entry
import Phrasebook.Catalog.Escape
import Phrasebook.Catalog.File
import Phrasebook.Catalog.Printer
import Phrasebook.Catalog.Reader
import Phrasebook.CommandLine.Arguments
import Phrasebook.CommandLine.Help
import Phrasebook.CommandLine.Refusal
import Phrasebook.CommandLine.Run
import Phrasebook.CommandLine.Style
import Phrasebook.CommandLine.Summary
import Phrasebook.Extraction
import Phrasebook.Files.Change
import Phrasebook.Files.Fault
import Phrasebook.Files.Glob
import Phrasebook.Files.Path
import Phrasebook.Files.Selection
import Phrasebook.Files.Settled
import Phrasebook.Files.Tree
import Phrasebook.Json.Error
import Phrasebook.Json.Magnitude
import Phrasebook.Json.Reader
import Phrasebook.Locale
import Phrasebook.Localization.Ambient
import Phrasebook.Localization.Localized
import Phrasebook.Localization.Localizer
import Phrasebook.Localization.Registry
import Phrasebook.Localization.Request
import Phrasebook.Localization.Tasks
import Phrasebook.Localization.Texts
import Phrasebook.Log
import Phrasebook.Log.Filter
import Phrasebook.Main
import Phrasebook.Pairs
import Phrasebook.Script.Comments
import Phrasebook.Script.Grammar.Basic
import Phrasebook.Script.Grammar.Calls
import Phrasebook.Script.Grammar.Classes
import Phrasebook.Script.Grammar.Elements
import Phrasebook.Script.Grammar.Expressions
import Phrasebook.Script.Grammar.Functions
import Phrasebook.Script.Grammar.Modules
import Phrasebook.Script.Grammar.Patterns
import Phrasebook.Script.Grammar.Statements
import Phrasebook.Script.Grammar.Types
import Phrasebook.Script.Lexer
import Phrasebook.Script.Messages
import Phrasebook.Script.Node
import Phrasebook.Script.Source
import Phrasebook.Script.Token
import Phrasebook.Settings.Basic
import Phrasebook.Settings.Discovery
import Phrasebook.Settings.Printer
import Phrasebook.Settings.Reader
import Phrasebook.Text.Blank
import Phrasebook.Text.Category
import Phrasebook.Text.Dedent
import Phrasebook.Text.Digit
import Phrasebook.Text.DocComment
import Phrasebook.Text.Placeholder
import Phrasebook.Text.Quoted
import Phrasebook.Text.Similarity
import Phrasebook.Text.Template
import Phrasebook.Proofs.Text.Blank
import Phrasebook.Proofs.Text.Dedent
import Phrasebook.Proofs.Text.Margin
import Phrasebook.Proofs.Text.DocComment
import Phrasebook.Proofs.Text.Template
import Phrasebook.Proofs.Text.Placeholder
import Phrasebook.Proofs.Text.Layout
import Phrasebook.Proofs.Catalog.Entry
import Phrasebook.Proofs.Catalog.Order
import Phrasebook.Proofs.Catalog.Quoting
import Phrasebook.Proofs.Catalog.Escape
import Phrasebook.Proofs.Catalog.References
import Phrasebook.Proofs.Catalog.Store
import Phrasebook.Proofs.Catalog.Reading
import Phrasebook.Proofs.Catalog.RoundTrip
import Phrasebook.Proofs.Catalog.NormalForm
import Phrasebook.Proofs.Catalog.Places
import Phrasebook.Proofs.Catalog.Layout
import Phrasebook.Proofs.Catalog.Accumulation
import Phrasebook.Proofs.Catalog.Ends
import Phrasebook.Proofs.Catalog.Appending
import Phrasebook.Proofs.Catalog.Unsupported
import Phrasebook.Proofs.Catalog.Uses
import Phrasebook.Proofs.Catalog.Refresh
import Phrasebook.Proofs.Files.Walk
import Phrasebook.Proofs.Files.Change
import Phrasebook.Proofs.Files.Path
import Phrasebook.Proofs.Catalog.Beside
import Phrasebook.Proofs.Catalog.File
import Phrasebook.Proofs.Extraction.Run
import Phrasebook.Proofs.Extraction.Writing
import Phrasebook.Proofs.Script.Visits
import Phrasebook.Proofs.Script.Comments
import Phrasebook.Proofs.Script.Index
import Phrasebook.Proofs.Script.Messages
import Phrasebook.Proofs.Script.Calls
import Phrasebook.Proofs.Script.Classes
import Phrasebook.Proofs.Extraction.Routing
import Phrasebook.Proofs.Files.Order
import Phrasebook.Proofs.Files.Parent
import Phrasebook.Proofs.Extraction.Sharing
import Phrasebook.Proofs.Extraction.Kept
import Phrasebook.Proofs.Files.Directory
import Phrasebook.Proofs.Extraction.Ready
import Phrasebook.Proofs.Files.Alike
import Phrasebook.Proofs.Extraction.Schedule
import Phrasebook.Proofs.Files.Way
import Phrasebook.Proofs.Files.Join
import Phrasebook.Proofs.Files.Outline
import Phrasebook.Proofs.Files.Again
import Phrasebook.Proofs.Extraction.Saving
import Phrasebook.Proofs.Extraction.Storing
import Phrasebook.Proofs.Files.Fallible
import Phrasebook.Proofs.Extraction.Sparing
import Phrasebook.Proofs.Extraction.Replacing
import Phrasebook.Proofs.Extraction.Searched
import Phrasebook.Proofs.Extraction.Accounts
import Phrasebook.Proofs.Extraction.Rerun
import Phrasebook.Proofs.Extraction.Lasting
import Phrasebook.Proofs.Extraction.Settled
import Phrasebook.Proofs.Extraction.Report
import Phrasebook.Proofs.Files.Place
import Phrasebook.Proofs.Json.Bytes
import Phrasebook.Proofs.Json.Reading
import Phrasebook.Proofs.Settings.Printed
import Phrasebook.Proofs.Settings.Discovery
import Phrasebook.Proofs.CommandLine.Run
import Phrasebook.Proofs.Files.Selection
import Phrasebook.Proofs.Files.Collected
import Phrasebook.Proofs.CommandLine.Place
import Phrasebook.Proofs.Pairs
import Phrasebook.Proofs.Catalog.Keyed
import Phrasebook.Proofs.Catalog.Built
import Phrasebook.Proofs.Extraction.Found
import Phrasebook.Proofs.Localization.Registry
import Phrasebook.Proofs.Localization.Lookups
import Phrasebook.Proofs.Localization.Loading
import Phrasebook.Proofs.Files.Absolute
import Phrasebook.Proofs.Files.Made
import Phrasebook.Proofs.Files.Settled
import Phrasebook.Proofs.Localization.Creation
import Phrasebook.Proofs.Localization.Scopes
import Phrasebook.Proofs.CommandLine.Summary
import Phrasebook.Proofs.Settings.Nearest
import Phrasebook.Proofs.Settings.Targets
