import Polyphony.Binary64.Basic
import Polyphony.Binary64.Shortest
import Polyphony.Binary64.Rounded
import Polyphony.Binary64.Text
import Polyphony.Scalar
import Polyphony.Text.Blank
import Polyphony.Text.Digit
import Polyphony.Text.Letter
import Polyphony.Text.Lower
import Polyphony.Text.Printable
import Polyphony.Text.Quoted
import Polyphony.Given
import Polyphony.Fault
import Polyphony.Room
import Polyphony.Journal
import Polyphony.Run
import Polyphony.Signal.Ugen
import Polyphony.Signal.Basic
import Polyphony.Signal.Wiring
import Polyphony.Signal.Describe
import Polyphony.Signal.Integral
import Polyphony.Signal.Clone
import Polyphony.Signal.Outline
import Polyphony.Envelope
import Polyphony.Instrument
import Polyphony.Score.Pitch
import Polyphony.Score.Token
import Polyphony.Score.Sequencer
import Polyphony.Score.Songbook
import Polyphony.Score.Track
import Polyphony.Score.Piece
import Polyphony.Spectrum
import Polyphony.Convolution
import Polyphony.Sound.Pcm
import Polyphony.Sound.Wave
import Polyphony.Recording
import Polyphony.Kernel
import Polyphony.Folder
import Polyphony.Message
import Polyphony.Studio
import Polyphony.Text.Numeral
import Polyphony.Options
import Polyphony.Console.Format
import Polyphony.Console.Fill
import Polyphony.Console
import Polyphony.Program
import Polyphony.Main
import Polyphony.Proofs.Score.Sequencer
import Polyphony.Proofs.Score.Token
import Polyphony.Proofs.Score.Modes
import Polyphony.Proofs.Score.Course
import Polyphony.Proofs.Score.Grammar
import Polyphony.Proofs.Score.Range
import Polyphony.Proofs.Exact
import Polyphony.Proofs.Spectrum
import Polyphony.Proofs.Convolution
import Polyphony.Proofs.Studio
import Polyphony.Proofs.Filtering
import Polyphony.Proofs.StoredSpectra
import Polyphony.Proofs.Blocks
import Polyphony.Proofs.Signal.Integral
import Polyphony.Proofs.Underflow
import Polyphony.Proofs.Signal.Integrable
import Polyphony.Proofs.Signal.Antiderivative
import Polyphony.Proofs.Signal.Origin
import Polyphony.Proofs.Signal.Stages
import Polyphony.Proofs.Envelope
import Polyphony.Proofs.Recording
import Polyphony.Proofs.Score.Piece
import Polyphony.Proofs.Score.Warnings
import Polyphony.Proofs.Folder
import Polyphony.Proofs.Shelf
import Polyphony.Proofs.Signal.Ownership
import Polyphony.Proofs.Score.Ownership
import Polyphony.Proofs.Signal.Paths
import Polyphony.Proofs.Signal.Describe
import Polyphony.Proofs.Signal.Tour
import Polyphony.Proofs.Signal.Outline
import Polyphony.Proofs.Signal.Clone
import Polyphony.Proofs.Isolation
import Polyphony.Proofs.Curve
import Polyphony.Proofs.Instrument
import Polyphony.Proofs.Score.Performance
import Polyphony.Proofs.Tail
import Polyphony.Proofs.Onset
import Polyphony.Proofs.Score.Row
import Polyphony.Proofs.Score.Accidental
import Polyphony.Proofs.Score.Insertion
import Polyphony.Proofs.Score.Voices
import Polyphony.Proofs.Score.Duration
import Polyphony.Proofs.Score.StandingMode
import Polyphony.Proofs.Loudness
import Polyphony.Proofs.Nearest
import Polyphony.Proofs.Binary64.Rounding
import Polyphony.Proofs.Binary64.Unpacked
import Polyphony.Proofs.Binary64.Value
import Polyphony.Proofs.Binary64.Sums
import Polyphony.Proofs.Binary64.Floor
import Polyphony.Proofs.Binary64.Fraction
import Polyphony.Proofs.Binary64.Back
import Polyphony.Proofs.Shape
import Polyphony.Proofs.Sound.Words
import Polyphony.Proofs.Sound.Quantization
import Polyphony.Proofs.Sound.Reencoding
import Polyphony.Proofs.Sound.Wave
import Polyphony.Proofs.Oscillator
import Polyphony.Proofs.Playback
import Polyphony.Proofs.Rerecording
import Polyphony.Proofs.Signal.Gates
import Polyphony.Proofs.Session
import Polyphony.Proofs.Program
