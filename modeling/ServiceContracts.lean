import ServiceContracts.Entries
import ServiceContracts.Text.Blank
import ServiceContracts.Binary64.Rounding
import ServiceContracts.Binary64.Text
import ServiceContracts.Json.Reader
import ServiceContracts.Json.Printer
import ServiceContracts.Schema.Build
import ServiceContracts.Service.Dispatch
import ServiceContracts.Definition.Files
import ServiceContracts.Main
import ServiceContracts.Text.Bytes
import ServiceContracts.JsonSchema
import ServiceContracts.Definition.Fields
import ServiceContracts.Definition.Grammar
import ServiceContracts.Proofs.Binary64.Integers
import ServiceContracts.Proofs.Schema.Built
import ServiceContracts.Proofs.Schema.Conforms
import ServiceContracts.Proofs.Schema.Reading
import ServiceContracts.Proofs.Schema.Likeness
import ServiceContracts.Proofs.Schema.RoundTrip
import ServiceContracts.Proofs.Schema.Reports
import ServiceContracts.Proofs.Service.Indexes
import ServiceContracts.Proofs.Service.Serving
import ServiceContracts.Proofs.Definition.Expansion
import ServiceContracts.Proofs.Definition.Resolving
import ServiceContracts.Proofs.Definition.WellFormed
import ServiceContracts.Proofs.Definition.Loading
import ServiceContracts.Proofs.Binary64.Nearest
import ServiceContracts.Proofs.Service.Registering
import ServiceContracts.Proofs.Schema.Validated
import ServiceContracts.Proofs.Schema.NormalForm
import ServiceContracts.Proofs.Definition.Meaning
import ServiceContracts.Proofs.Definition.Loaded
import ServiceContracts.Proofs.Service.Sealing
import ServiceContracts.Proofs.Service.Conforming
import ServiceContracts.Proofs.Definition.Cycles
import ServiceContracts.Proofs.Definition.Failures
import ServiceContracts.Proofs.Definition.Format
import ServiceContracts.Proofs.Definition.Matching
import ServiceContracts.Proofs.Definition.Arrangement
import ServiceContracts.Proofs.Definition.Optionality
import ServiceContracts.Proofs.Service.Faults
import ServiceContracts.Proofs.Definition.Accepted
import ServiceContracts.Proofs.Schema.Lenient
import ServiceContracts.Proofs.Schema.Sameness
import ServiceContracts.Proofs.Schema.FixedPoint
import ServiceContracts.Proofs.Definition.Findings
import ServiceContracts.Proofs.Command.Loads
import ServiceContracts.Proofs.Command.Normalizing
import ServiceContracts.Proofs.Command.Listing
import ServiceContracts.Proofs.Command.ExitCodes
import ServiceContracts.Proofs.Schema.Compact
import ServiceContracts.Proofs.Schema.Integers
import ServiceContracts.Proofs.Definition.Defaults
import ServiceContracts.Proofs.Schema.Offenses
import ServiceContracts.Proofs.Schema.Building
import ServiceContracts.Proofs.Json.Sameness
import ServiceContracts.Proofs.Schema.Twins
import ServiceContracts.Proofs.Schema.Interchange
import ServiceContracts.Proofs.Text.ByteOrder
import ServiceContracts.Proofs.Definition.Directories
import ServiceContracts.Proofs.Definition.References
import ServiceContracts.Proofs.Schema.WriteReports
import ServiceContracts.Proofs.Schema.Reordering
import ServiceContracts.Proofs.Schema.Canonical
import ServiceContracts.Proofs.Schema.Extension
import ServiceContracts.Proofs.Schema.Comparable
import ServiceContracts.Proofs.Binary64.Zeros
import ServiceContracts.Proofs.Json.Unsigned
import ServiceContracts.Proofs.Schema.Restoring
import ServiceContracts.Proofs.Schema.Located
import ServiceContracts.Proofs.Definition.Tracking
import ServiceContracts.Proofs.Definition.Visiting
import ServiceContracts.Proofs.Schema.Edits
import ServiceContracts.Proofs.Text.Lossy
import ServiceContracts.Proofs.JsonSchema.Pattern
import ServiceContracts.Proofs.JsonSchema.Validity
import ServiceContracts.Proofs.Definition.Fields
import ServiceContracts.Proofs.Definition.Grammar
import ServiceContracts.Proofs.Definition.MetaSchema
import ServiceContracts.Proofs.Binary64.Intervals
import ServiceContracts.Proofs.Binary64.Literals
import ServiceContracts.Proofs.Json.Printed
import ServiceContracts.Proofs.Command.Texts
import ServiceContracts.Proofs.Definition.Relating
import ServiceContracts.Proofs.Definition.Recording
