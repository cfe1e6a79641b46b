import ParseKit.Feed
import ParseKit.Grammar
import ParseKit.Input.Slice
import ParseKit.Input.Text
import ParseKit.Input.Window
import ParseKit.Proofs.Confinement
import ParseKit.Proofs.Streaming.Extension
import ParseKit.Proofs.Streaming.Marker
import ParseKit.Proofs.Streaming.Modes
import ParseKit.Proofs.Choice
import ParseKit.Proofs.ErrorTypes
import ParseKit.Proofs.Correspondence.Views
import ParseKit.Proofs.Interchange
import ParseKit.Proofs.Parser.Applications
import ParseKit.Proofs.Surfacing
import ParseKit.Proofs.Sequence
import ParseKit.Proofs.Recursion
import ParseKit.Proofs.Inward
import ParseKit.Proofs.Ascii
import ParseKit.Proofs.Tracing
import ParseKit.Proofs.Streaming.Openness
import ParseKit.Proofs.Repetition
import ParseKit.Proofs.Requests
import ParseKit.Proofs.BoundedRepetition
import ParseKit.Proofs.SeparatedLists
import ParseKit.Proofs.RepetitionUntil
import ParseKit.Proofs.Termination
import ParseKit.Proofs.Scan.LongestRun
import ParseKit.Proofs.LiteralPatterns
import ParseKit.Proofs.Parser.Successes
import ParseKit.Proofs.Tiling
import ParseKit.Proofs.OnePass
import ParseKit.Proofs.Scan.CarriedOut
import ParseKit.Proofs.Input.Written
import ParseKit.Proofs.Joining
import ParseKit.Proofs.Input.Laws
