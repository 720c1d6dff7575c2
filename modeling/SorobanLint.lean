import SorobanLint.Json.Read
import SorobanLint.Rule.ConfigFile
import SorobanLint.Rule.Supplied
import SorobanLint.Service.Http
import SorobanLint.Service.Session
import SorobanLint.Validation
import SorobanLint.Yaml.Load
import SorobanLint.Proofs.Lines
import SorobanLint.Proofs.Reading
import SorobanLint.Proofs.Layout
import SorobanLint.Proofs.Scan
import SorobanLint.Proofs.Shift.Outline
import SorobanLint.Proofs.Pattern
import SorobanLint.Proofs.Shift.Contract
import SorobanLint.Proofs.Shift.Findings
import SorobanLint.Proofs.Shift.Engine
import SorobanLint.Proofs.Render.Type
import SorobanLint.Proofs.Crossing
import SorobanLint.Proofs.Brackets.Real
import SorobanLint.Proofs.Brackets.Group
import SorobanLint.Proofs.Brackets.Split
import SorobanLint.Proofs.Brackets.Open
import SorobanLint.Proofs.Brackets.Strict
import SorobanLint.Proofs.Brackets.Onward
import SorobanLint.Proofs.Render.Balance
import SorobanLint.Proofs.Brackets.Angles
import SorobanLint.Proofs.Matching
import SorobanLint.Proofs.Nesting
import SorobanLint.Proofs.Render.Header
import SorobanLint.Proofs.Render.Source
import SorobanLint.Proofs.Render.Struct
import SorobanLint.Proofs.Render.Signature
import SorobanLint.Proofs.Render.Block
import SorobanLint.Proofs.Masked.Outline
import SorobanLint.Proofs.Masked.Contract
import SorobanLint.Proofs.Masked.State
import SorobanLint.Proofs.Masked.Blanked
import SorobanLint.Proofs.Origin
import SorobanLint.Proofs.Alone
import SorobanLint.Proofs.LastLine
import SorobanLint.Proofs.Masked.Function
import SorobanLint.Proofs.Listing.Block
import SorobanLint.Proofs.OpenBraces
import SorobanLint.Proofs.Dedupe
import SorobanLint.Proofs.Engine
import SorobanLint.Proofs.Catalog
import SorobanLint.Proofs.Findings
import SorobanLint.Proofs.Placed
import SorobanLint.Proofs.SameLines
import SorobanLint.Proofs.OnDisk
import SorobanLint.Proofs.Blanks
import SorobanLint.Proofs.Attributes
import SorobanLint.Proofs.Leading
import SorobanLint.Proofs.Reads
import SorobanLint.Proofs.Render.Target
import SorobanLint.Proofs.Marked
import SorobanLint.Proofs.Masked.Plain
import SorobanLint.Proofs.Marking
import SorobanLint.Proofs.Declared.Field
import SorobanLint.Proofs.Ending
import SorobanLint.Proofs.Declared.Param
import SorobanLint.Proofs.Unbroken.Text
import SorobanLint.Proofs.Unbroken.Header
import SorobanLint.Proofs.Unbroken.Function
import SorobanLint.Proofs.TextualMarker
import SorobanLint.Proofs.Detection
import SorobanLint.Proofs.Indexed.Position
import SorobanLint.Proofs.Indexed.Sweep
import SorobanLint.Proofs.Indexed.Attribute
import SorobanLint.Proofs.Indexed.Signature
import SorobanLint.Proofs.Indexed.Function
import SorobanLint.Proofs.Indexed.Block
import SorobanLint.Proofs.Indexed.Parse
import SorobanLint.Proofs.Below
import SorobanLint.Proofs.OneMore
import SorobanLint.Proofs.Directory
import SorobanLint.Proofs.Validators
import SorobanLint.Proofs.Requests
import SorobanLint.Proofs.Session
import SorobanLint.Proofs.Handlers
import SorobanLint.Proofs.Ordered.Findings
import SorobanLint.Proofs.Ordered.Types
import SorobanLint.Proofs.Repeated.Lookup
import SorobanLint.Proofs.Repeated.Report
import SorobanLint.Proofs.Repeated.Bound
import SorobanLint.Proofs.Capped
import SorobanLint.Proofs.Shorthand
import SorobanLint.Proofs.Loading
import SorobanLint.Proofs.Configured
