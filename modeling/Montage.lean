import Montage.Text.Blank
import Montage.Text.DecimalDigit
import Montage.Text.Uppercase
import Montage.Text.Quoted
import Montage.Buffer
import Montage.Number.Numeral
import Montage.Expression.Rejection
import Montage.Expression.Compile
import Montage.Number.Decimal
import Montage.Expression.Decode
import Montage.Expression.Render
import Montage.Expression.Chain
import Montage.Evaluation.Evaluate
import Montage.Evaluation.Meaning
import Montage.Raster.Resize
import Montage.Raster.Blur
import Montage.Raster.Overlay
import Montage.Studio
import Montage.Compose
import Montage.CommandLine.Run
import Montage.Picture.Pixmap
import Montage.Main
import Montage.Proofs.Expression.Malformed
import Montage.Proofs.Expression.Language
import Montage.Proofs.Expression.RoundTrip
import Montage.Proofs.Evaluation.Preservation
import Montage.Proofs.Expression.Session
import Montage.Proofs.Expression.Refusal
import Montage.Proofs.Expression.Tally
import Montage.Proofs.Expression.Appending
import Montage.Proofs.Number.Nearness
import Montage.Proofs.Raster.Extent
import Montage.Proofs.Evaluation.Safety
import Montage.Proofs.Evaluation.Direct
import Montage.Proofs.Evaluation.Agreement
import Montage.Evaluation.Watch
import Montage.Proofs.Evaluation.Contract
import Montage.Proofs.Evaluation.Watching
import Montage.Proofs.Evaluation.Privacy
import Montage.Proofs.Evaluation.Shapes
import Montage.Proofs.Picture.Tree
import Montage.Proofs.CommandLine.Atomic
import Montage.Proofs.Evaluation.Interference
import Montage.Proofs.Expression.ViablePrefix
import Montage.Proofs.Expression.Room
import Montage.Proofs.Expression.Canonical
import Montage.Proofs.Expression.Longest
import Montage.Proofs.Raster.Compositing
import Montage.Proofs.Number.Comparison
import Montage.Proofs.Evaluation.Operations
import Montage.Proofs.Raster.Box
import Montage.Proofs.Evaluation.Framing
import Montage.Bench
import Montage.Proofs.Evaluation.Sharing
import Montage.Proofs.Text.Lines
import Montage.Proofs.CommandLine.Taken
import Montage.Proofs.CommandLine.Silence
import Montage.Proofs.CommandLine.Wording
import Montage.Proofs.CommandLine.Diagnostic
import Montage.Proofs.Text.Numerals
import Montage.Proofs.Buffer.History
import Montage.Proofs.Buffer.Replay
import Montage.Expression.Requests
import Montage.Proofs.Expression.Journal
import Montage.Proofs.Expression.Drawing
import Montage.Proofs.Picture.Lossless
import Montage.Proofs.Expression.Conversion
