import Identicon.Avatar
import Identicon.Canvas.Document
import Identicon.Command.Run
import Identicon.Expr.Document
import Identicon.Main
import Identicon.Options.Document
import Identicon.Proofs.Symmetry
import Identicon.Seeds.Document
import Identicon.Proofs.Factors
import Identicon.Proofs.Resolution
import Identicon.Proofs.SquareProducts
import Identicon.Proofs.Schedules
import Identicon.Proofs.Levels
import Identicon.Proofs.Quantizing
import Identicon.Proofs.ReadBack
import Identicon.Proofs.Reflection
import Identicon.Proofs.FileTree
import Identicon.Proofs.Batch
import Identicon.Proofs.BatchFiles
import Identicon.Proofs.RenderedFiles
import Identicon.Proofs.Isolation
import Identicon.Proofs.Brightness
import Identicon.Proofs.Thirds
import Identicon.Proofs.Description
import Identicon.Proofs.OptionsReadBack
import Identicon.Proofs.SeedsReadBack
import Identicon.Proofs.Wrapping
import Identicon.Proofs.HandedOn
import Identicon.Proofs.CaseFolding
import Identicon.Proofs.SeedBounds
import Identicon.Proofs.PartialOptions
import Identicon.Proofs.MemberOrder
import Identicon.Proofs.Json.Conversions
import Identicon.Proofs.Decimal.Scaled
