import ProjectHub.Api.Answer
import ProjectHub.Api.Request
import ProjectHub.Crypto.Aes
import ProjectHub.Crypto.Gcm
import ProjectHub.Crypto.Sha256
import ProjectHub.Decimal.Double
import ProjectHub.Document.Error
import ProjectHub.Document.Lexer
import ProjectHub.Document.Schema
import ProjectHub.Document.Syntax
import ProjectHub.Document.Token
import ProjectHub.Edge.Folder
import ProjectHub.Edge.Propagation
import ProjectHub.Edge.Remote
import ProjectHub.Edge.Sink
import ProjectHub.Encoding.Base64
import ProjectHub.ErrorKind
import ProjectHub.Files
import ProjectHub.Http.Exchange
import ProjectHub.Http.Script
import ProjectHub.Hub.Basic
import ProjectHub.Hub.Error
import ProjectHub.Hub.Log
import ProjectHub.Hub.Opening
import ProjectHub.Hub.Session
import ProjectHub.Json.Basic
import ProjectHub.Json.Decode
import ProjectHub.Json.Number
import ProjectHub.Json.Printer
import ProjectHub.Json.Source
import ProjectHub.Manifest.Basic
import ProjectHub.Manifest.Registry
import ProjectHub.Manifest.Store
import ProjectHub.NameMap.Basic
import ProjectHub.NameMap.Lemmas
import ProjectHub.Plan.Documents
import ProjectHub.Plan.Engine
import ProjectHub.Plan.Error
import ProjectHub.Plan.Ledger
import ProjectHub.Plan.Migration
import ProjectHub.Plan.Planner
import ProjectHub.Reading
import ProjectHub.Realm.Basic
import ProjectHub.Realm.Decode
import ProjectHub.Realm.Diff
import ProjectHub.Realm.View
import ProjectHub.Secret
import ProjectHub.Settings.Basic
import ProjectHub.Settings.Decode
import ProjectHub.Settings.Environment
import ProjectHub.Settings.Error
import ProjectHub.Settings.File
import ProjectHub.Settings.Layer
import ProjectHub.Settings.Source
import ProjectHub.Settings.View
import ProjectHub.Sql.Constant
import ProjectHub.Sql.Quote
import ProjectHub.Sql.Statement
import ProjectHub.Sqlite.Clock
import ProjectHub.Sqlite.Command.Basic
import ProjectHub.Sqlite.Command.Syntax
import ProjectHub.Sqlite.Database.Alteration
import ProjectHub.Sqlite.Database.Basic
import ProjectHub.Sqlite.Database.Execution
import ProjectHub.Sqlite.Database.Insertion
import ProjectHub.Sqlite.Database.Reference
import ProjectHub.Sqlite.Definition.Basic
import ProjectHub.Sqlite.Definition.Plain
import ProjectHub.Sqlite.Definition.Syntax
import ProjectHub.Sqlite.Expression.Basic
import ProjectHub.Sqlite.Expression.Syntax
import ProjectHub.Sqlite.Expression.Value
import ProjectHub.Sqlite.Format
import ProjectHub.Sqlite.Function
import ProjectHub.Sqlite.Host
import ProjectHub.Sqlite.Inspect
import ProjectHub.Sqlite.JsonText.Basic
import ProjectHub.Sqlite.JsonText.Binary
import ProjectHub.Sqlite.JsonText.Function
import ProjectHub.Sqlite.JsonText.Path
import ProjectHub.Sqlite.Token
import ProjectHub.Sqlite.Location
import ProjectHub.Sqlite.Pattern
import ProjectHub.Sqlite.Table.Basic
import ProjectHub.Sqlite.Table.Creation
import ProjectHub.Sqlite.Value
import ProjectHub.Storage.Error
import ProjectHub.Text.Blank
import ProjectHub.Text.Letter
import ProjectHub.Text.Hex
import ProjectHub.Text.Numeral
import ProjectHub.Text.Printable
import ProjectHub.Text.Utf8
import ProjectHub.Time.Instant
import ProjectHub.Time.Lenient
import ProjectHub.Toml.Basic
import ProjectHub.Toml.Document
import ProjectHub.Toml.Scalar
import ProjectHub.Toml.Text
import ProjectHub.Url.Basic
import ProjectHub.Url.Host
import ProjectHub.Url.Parse
import ProjectHub.Url.Punycode
import ProjectHub.Vault.Basic
import ProjectHub.Vault.Error
import ProjectHub.Vault.Sealing
import ProjectHub.Vault.Store
import ProjectHub.Proofs.NameMap
import ProjectHub.Proofs.Run
import ProjectHub.Proofs.Realm.Agreement
import ProjectHub.Proofs.Realm.Difference
import ProjectHub.Proofs.Realm.CarryOut
import ProjectHub.Proofs.Realm.Dropping
import ProjectHub.Proofs.Json.Text
import ProjectHub.Proofs.Json.Object
import ProjectHub.Proofs.Json.Numeral
import ProjectHub.Proofs.Json.Value
import ProjectHub.Proofs.Time.Calendar
import ProjectHub.Proofs.Time.Timestamp
import ProjectHub.Proofs.Plan.Ledger
import ProjectHub.Proofs.Plan.Run
import ProjectHub.Proofs.Plan.Tokens
import ProjectHub.Proofs.Plan.Recording
import ProjectHub.Proofs.Plan.Review
import ProjectHub.Proofs.Text.Words
import ProjectHub.Proofs.Text.Utf8
import ProjectHub.Proofs.Document.Schema
import ProjectHub.Proofs.Document.Spelling
import ProjectHub.Proofs.Document.Grammar
import ProjectHub.Proofs.Document.Tree
import ProjectHub.Proofs.Document.Lines
import ProjectHub.Proofs.Document.Canonical
import ProjectHub.Proofs.Document.Braces
import ProjectHub.Proofs.Document.Lexing
import ProjectHub.Proofs.Document.Joining
import ProjectHub.Proofs.Document.Passage
import ProjectHub.Proofs.Sqlite.Default
import ProjectHub.Proofs.Sqlite.Declaration
import ProjectHub.Proofs.Sqlite.Rows
import ProjectHub.Proofs.Sqlite.Soundness
import ProjectHub.Proofs.Sqlite.Alteration
import ProjectHub.Proofs.Sqlite.Migration
import ProjectHub.Proofs.Sqlite.Convergence
import ProjectHub.Proofs.Sqlite.Holding
import ProjectHub.Proofs.Sqlite.Taking
import ProjectHub.Proofs.Sqlite.Clearing
import ProjectHub.Proofs.Sqlite.Dropping
import ProjectHub.Proofs.Plan.Convergence
import ProjectHub.Proofs.Plan.Happening
import ProjectHub.Proofs.Plan.Content
import ProjectHub.Proofs.Plan.Standing
import ProjectHub.Proofs.Sqlite.Connecting
import ProjectHub.Proofs.Plan.Failure
import ProjectHub.Proofs.Plan.Combination
import ProjectHub.Proofs.Encoding.Base64
import ProjectHub.Proofs.Crypto.Gcm
import ProjectHub.Proofs.Vault.Sealing
import ProjectHub.Proofs.Vault.Keeping
import ProjectHub.Proofs.Plan.Fallback
import ProjectHub.Proofs.Plan.Agreement
import ProjectHub.Proofs.Manifest.Bundle
import ProjectHub.Proofs.Manifest.History
import ProjectHub.Proofs.Edge.Keys
import ProjectHub.Proofs.Edge.Delivery
import ProjectHub.Proofs.Sqlite.Likeness
import ProjectHub.Proofs.Plan.Likeness
import ProjectHub.Proofs.Plan.PlainUrl
import ProjectHub.Proofs.Vault.Likeness
import ProjectHub.Proofs.Manifest.Likeness
import ProjectHub.Proofs.Edge.Folder
import ProjectHub.Proofs.Hub.Sinks
import ProjectHub.Proofs.Hub.Steps
import ProjectHub.Proofs.Hub.Likeness
import ProjectHub.Proofs.Hub.Secrecy
import ProjectHub.Proofs.Hub.Isolation
import ProjectHub.Proofs.Hub.Opening
import ProjectHub.Proofs.Settings.Layering
import ProjectHub.Proofs.Json.Double
import ProjectHub.Proofs.Stored
import ProjectHub.Proofs.Edge.Record
import ProjectHub.Proofs.Sqlite.Indexing
import ProjectHub.Proofs.Edge.Reporting
import ProjectHub.Proofs.Sqlite.Creation
import ProjectHub.Proofs.Sqlite.Rebuilding
import ProjectHub.Proofs.Realm.Blocks
import ProjectHub.Proofs.Document.Derivation
import ProjectHub.Proofs.Document.Repetition
import ProjectHub.Proofs.Sqlite.Naming
import ProjectHub.Proofs.Sql.Literal
import ProjectHub.Proofs.Sql.Statement
import ProjectHub.Proofs.Realm.Addition
import ProjectHub.Proofs.Edge.Remote
import ProjectHub.Proofs.Edge.Filing
import ProjectHub.Proofs.Settings.Variables
