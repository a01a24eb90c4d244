import Pagewright.Document.Store
import Pagewright.Host.World
import Pagewright.Json.Write
import Pagewright.Main
import Pagewright.Proofs.Fidelity
import Pagewright.Proofs.Nesting
import Pagewright.Proofs.Substitution
import Pagewright.Proofs.Cycles
import Pagewright.Proofs.Report
import Pagewright.Proofs.Refusal
import Pagewright.Proofs.ScriptTypes
import Pagewright.Proofs.Effects
import Pagewright.Proofs.Histories
import Pagewright.Proofs.Indentation
import Pagewright.Proofs.Repetition
import Pagewright.Proofs.ClassesInUse
import Pagewright.Proofs.Rereading
import Pagewright.Proofs.Delivery
import Pagewright.Proofs.Number.Decimals
import Pagewright.Proofs.Number.Rounding
import Pagewright.Proofs.Number.Shortest
import Pagewright.Proofs.Json.Reading
import Pagewright.Proofs.Json.Numbers
import Pagewright.Proofs.Json.Values
import Pagewright.Proofs.Schema.Decoding
import Pagewright.Proofs.Schema.Edits
import Pagewright.Proofs.Schema.Reading
import Pagewright.Proofs.Loading
import Pagewright.Proofs.Soundness
import Pagewright.Proofs.SelfUses
import Pagewright.Proofs.Stylesheet.Sources
import Pagewright.Proofs.Stylesheet.Gaps
import Pagewright.Proofs.Stylesheet.Faults
import Pagewright.Proofs.Stylesheet.Lookup
import Pagewright.Proofs.Stylesheet.Selectors
import Pagewright.Proofs.Script.Numerals
import Pagewright.Proofs.Script.Terms
import Pagewright.Proofs.Html.References
import Pagewright.Proofs.Constants
import Pagewright.Proofs.Navigation
import Pagewright.Proofs.Script.Calls
import Pagewright.Proofs.Watch
import Pagewright.Proofs.Termination
import Pagewright.Proofs.Names
import Pagewright.Proofs.Binding
import Pagewright.Proofs.Script.Blocks
import Pagewright.Proofs.PathTexts
import Pagewright.Proofs.Nodes
import Pagewright.Proofs.Addresses
import Pagewright.Proofs.Number.Fewest
import Pagewright.Proofs.Number.Layout
