import SoleRoot.Component.Literal
import SoleRoot.Component.Registry
import SoleRoot.Component.Source
import SoleRoot.Consolidation
import SoleRoot.Directives
import SoleRoot.Faithful.Attributes
import SoleRoot.Faithful.Printer
import SoleRoot.Faithful.Reference
import SoleRoot.Faithful.Spelling
import SoleRoot.Faithful.Token
import SoleRoot.Faithful.Tree
import SoleRoot.Host.Batch
import SoleRoot.Host.Session
import SoleRoot.Host.Workers
import SoleRoot.Html.Builder
import SoleRoot.Html.Foreign
import SoleRoot.Html.Formatting
import SoleRoot.Html.Name
import SoleRoot.Html.Printer
import SoleRoot.Html.Reader
import SoleRoot.Html.Reference
import SoleRoot.Html.Reference.LowerNames
import SoleRoot.Html.Reference.UpperNames
import SoleRoot.Html.Rules.Body
import SoleRoot.Html.Rules.Foreign
import SoleRoot.Html.Rules.Head
import SoleRoot.Html.Rules.Select
import SoleRoot.Html.Rules.Table
import SoleRoot.Html.Rules.Template
import SoleRoot.Html.Token
import SoleRoot.Html.Tree
import SoleRoot.Json.Content
import SoleRoot.Json.Cursor
import SoleRoot.Json.Decimal
import SoleRoot.Json.Fault
import SoleRoot.Json.Numeral
import SoleRoot.Json.Printer
import SoleRoot.Json.Reader
import SoleRoot.Json.Record
import SoleRoot.Json.Skip
import SoleRoot.Json.Text
import SoleRoot.Json.Value
import SoleRoot.Markup.Document
import SoleRoot.Markup.Edit
import SoleRoot.Markup.Location
import SoleRoot.Markup.Node
import SoleRoot.Options
import SoleRoot.Pipeline
import SoleRoot.Proofs.Attributes
import SoleRoot.Proofs.ByteOrderMark
import SoleRoot.Proofs.Component.EndTag
import SoleRoot.Proofs.Component.History
import SoleRoot.Proofs.Component.Literal
import SoleRoot.Proofs.Component.Script
import SoleRoot.Proofs.Concatenation
import SoleRoot.Proofs.Directives
import SoleRoot.Proofs.Discards
import SoleRoot.Proofs.Drawings
import SoleRoot.Proofs.Faithful.Acceptance
import SoleRoot.Proofs.Faithful.Appending
import SoleRoot.Proofs.Faithful.Blame
import SoleRoot.Proofs.Faithful.Clause
import SoleRoot.Proofs.Faithful.Cutting
import SoleRoot.Proofs.Faithful.Decoding
import SoleRoot.Proofs.Faithful.Event
import SoleRoot.Proofs.Faithful.FirstFault
import SoleRoot.Proofs.Faithful.Joining
import SoleRoot.Proofs.Faithful.KeptParts
import SoleRoot.Proofs.Faithful.Piece
import SoleRoot.Proofs.Faithful.Rereading
import SoleRoot.Proofs.Faithful.RoundTrip
import SoleRoot.Proofs.Faithful.Spelled
import SoleRoot.Proofs.FixedPoint
import SoleRoot.Proofs.Host.Agreement
import SoleRoot.Proofs.Host.Batches
import SoleRoot.Proofs.Html.Admission
import SoleRoot.Proofs.Html.Descent
import SoleRoot.Proofs.Html.Drawing
import SoleRoot.Proofs.Html.Escaping
import SoleRoot.Proofs.Html.Hollow
import SoleRoot.Proofs.Html.Items
import SoleRoot.Proofs.Html.Manner
import SoleRoot.Proofs.Html.Modes
import SoleRoot.Proofs.Html.Multiplicity
import SoleRoot.Proofs.Html.Nesting
import SoleRoot.Proofs.Html.Numbering
import SoleRoot.Proofs.Html.Origin
import SoleRoot.Proofs.Html.Parts
import SoleRoot.Proofs.Html.Pieces
import SoleRoot.Proofs.Html.Ready
import SoleRoot.Proofs.Html.Reordering
import SoleRoot.Proofs.Html.Rereading
import SoleRoot.Proofs.Html.Spelled
import SoleRoot.Proofs.Html.StartTags
import SoleRoot.Proofs.Html.TextElements
import SoleRoot.Proofs.Html.Unescaped
import SoleRoot.Proofs.Html.UniqueReading
import SoleRoot.Proofs.Insertion
import SoleRoot.Proofs.Json.Objects
import SoleRoot.Proofs.Json.Records
import SoleRoot.Proofs.Json.Strings
import SoleRoot.Proofs.Json.Written
import SoleRoot.Proofs.Outcome
import SoleRoot.Proofs.PlainTrees
import SoleRoot.Proofs.Settings.Codecs
import SoleRoot.Proofs.SingleRoot
import SoleRoot.Proofs.Surroundings
import SoleRoot.Proofs.Templates
import SoleRoot.Proofs.Text.Locations
import SoleRoot.Proofs.Text.Offsets
import SoleRoot.Proofs.Text.Runs
import SoleRoot.Settings
import SoleRoot.Settings.Printer
import SoleRoot.Settings.Reader
import SoleRoot.Text.Bytes
import SoleRoot.Text.Hidden
import SoleRoot.Text.Quoted
import SoleRoot.Text.Search
import SoleRoot.Text.Space
