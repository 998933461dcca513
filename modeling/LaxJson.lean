import LaxJson.Text
import LaxJson.Unicode.Printable
import LaxJson.Unicode.Category
import LaxJson.Value
import LaxJson.Source
import LaxJson.Rule
import LaxJson.Failure
import LaxJson.Scan.Step
import LaxJson.Scan.Blank
import LaxJson.Scan.CharClass
import LaxJson.Scan.Token
import LaxJson.Scan.Choice
import LaxJson.Numeral
import LaxJson.Decimal.Shortest
import LaxJson.Decimal.Layout
import LaxJson.Grammar.Number
import LaxJson.Grammar.Quoted
import LaxJson.Grammar.Document
import LaxJson.Pretty.Number
import LaxJson.Grammar.Table
import LaxJson.Session
import LaxJson.Pretty.Quote
import LaxJson.Pretty.Layout
import LaxJson.Cli
import LaxJson.Workload
import LaxJson.Main
import LaxJson.Proofs.Cursor
import LaxJson.Proofs.Language
import LaxJson.Proofs.Blanks
import LaxJson.Proofs.Tokens
import LaxJson.Proofs.Numbers
import LaxJson.Proofs.Strings
import LaxJson.Proofs.Primitives
import LaxJson.Proofs.Values
import LaxJson.Proofs.Soundness
import LaxJson.Proofs.Acceptance
import LaxJson.Proofs.Encoding
import LaxJson.Proofs.Failures
import LaxJson.Proofs.Composition
import LaxJson.Proofs.Bounds
import LaxJson.Proofs.Spacing
import LaxJson.Proofs.Reuse
import LaxJson.Proofs.Furthest
import LaxJson.Proofs.Literals
import LaxJson.Proofs.Termination
import LaxJson.Proofs.Classes
import LaxJson.Proofs.Skipping
