import DomainColoring.Session.Command
import DomainColoring.Session.Renderer
import DomainColoring.Proofs.Session.History
import DomainColoring.Proofs.Session.Coherence
import DomainColoring.Proofs.Grammar
import DomainColoring.Proofs.Grammar.Soundness
import DomainColoring.Proofs.Grammar.Completeness
import DomainColoring.Proofs.Session.Validity
import DomainColoring.Proofs.Session.Budget
import DomainColoring.Proofs.Session.Rebuilds
import DomainColoring.Proofs.Session.Frames
import DomainColoring.Proofs.Decimal.Literal
import DomainColoring.Proofs.Decimal.Reading
import DomainColoring.Proofs.Decimal.Unsigned
import DomainColoring.Proofs.Token.Cutting
import DomainColoring.Proofs.Expr.Printed
import DomainColoring.Proofs.Expr.Recompiled
import DomainColoring.Proofs.Edit
import DomainColoring.Proofs.Grid
import DomainColoring.Proofs.Mesh
import DomainColoring.Proofs.Scalar.Exact
import DomainColoring.Proofs.View.Zoom
import DomainColoring.Proofs.Expr.Levels
import DomainColoring.Proofs.Session.Independence
import DomainColoring.Proofs.Grammar.Lookahead
import DomainColoring.Proofs.Grammar.Refusals
import DomainColoring.Proofs.Json.Numbers
import DomainColoring.Proofs.Json.Strings
import DomainColoring.Proofs.Json.Values
import DomainColoring.Proofs.Event.Decoding
import DomainColoring.Proofs.Session.Dispatch
import DomainColoring.Proofs.Grammar.Limits
import DomainColoring.Proofs.Expr.InOrder
import DomainColoring.Decimal.Reader
import DomainColoring.Token.Scanner
import DomainColoring.Proofs.Token.Literals
import DomainColoring.Proofs.Token.Offsets
import DomainColoring.Proofs.Token.Partition
import DomainColoring.Proofs.Token.Scanning
import DomainColoring.Proofs.Token.Blanking
import DomainColoring.Proofs.Grammar.Offsets
import DomainColoring.Proofs.Grammar.Plain
import DomainColoring.Proofs.Token.Spacing
import DomainColoring.Proofs.Triangle
import DomainColoring.Proofs.Mesh.Tiling
import DomainColoring.Proofs.Scalar.Rounding
import DomainColoring.Proofs.Scalar.Values
import DomainColoring.Proofs.Scalar.Arithmetic
import DomainColoring.Proofs.Grid.Lines
import DomainColoring.Proofs.Grid.Monotone
import DomainColoring.Proofs.Session.Acceptance
import DomainColoring.Proofs.Mesh.Outline
import DomainColoring.Proofs.Session.Outline
import DomainColoring.Proofs.Scalar.Sums
import DomainColoring.Proofs.Scalar.UnitInterval
import DomainColoring.Proofs.Scalar.Narrowing
import DomainColoring.Proofs.Scalar.Reals
import DomainColoring.Proofs.Color.Sectors
import DomainColoring.Proofs.Color.UnitCube
import DomainColoring.Proofs.Color.Brightness
import DomainColoring.Complex.Power
import DomainColoring.Proofs.Color.HueCircle
import DomainColoring.Proofs.Complex.Exact
import DomainColoring.Proofs.Complex.Powers
import DomainColoring.Proofs.Scalar.Signed
import DomainColoring.Proofs.Scalar.Squares
import DomainColoring.Proofs.Complex.Division
import DomainColoring.Proofs.Scalar.Roots
import DomainColoring.Proofs.Scalar.Platform
import DomainColoring.Proofs.Complex.Branch
import DomainColoring.Proofs.Complex.Identities
import DomainColoring.Expr.Descent
import DomainColoring.Proofs.Descent.Counters
import DomainColoring.Proofs.Descent.Agreement
import DomainColoring.Proofs.Descent.Balance
