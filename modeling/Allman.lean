import Allman.Bracket
import Allman.Bytes
import Allman.Cache.Record
import Allman.Cache.Store
import Allman.CommandLine.Flag
import Allman.CommandLine.Help
import Allman.CommandLine.Program
import Allman.Decimal.Double
import Allman.Diagnostic.Bag
import Allman.Diagnostic.Basic
import Allman.Diagnostic.Document
import Allman.Diagnostic.Listing
import Allman.Digest
import Allman.FileSystem
import Allman.Layout
import Allman.Main
import Allman.Mask
import Allman.MessagePack
import Allman.Path
import Allman.Preserved
import Allman.Profile
import Allman.Proofs.Lines
import Allman.Reader
import Allman.Reformat
import Allman.Release
import Allman.Run
import Allman.Settings
import Allman.Sink
import Allman.SourceText
import Allman.Style
import Allman.Text.Json
import Allman.Text.Numeral
import Allman.Text.Quoted
import Allman.Timing
import Allman.Toml.Document
import Allman.Toml.Draft
import Allman.Toml.Number
import Allman.Toml.Parser
import Allman.Toml.Syntax
import Allman.Toml.Text
import Allman.Unicode.Printable
import Allman.Unicode.Rune
import Allman.Unicode.Space
import Allman.Unicode.Width
import Allman.World
import Allman.Proofs.Moves
import Allman.Proofs.Preservation
import Allman.Proofs.Masking
import Allman.Proofs.Pairing
import Allman.Proofs.Statements
import Allman.Proofs.Scan
import Allman.Proofs.Placement
import Allman.Proofs.Alike
import Allman.Proofs.Trimming
import Allman.Proofs.Settling
import Allman.Proofs.Opacity
import Allman.Proofs.Findings
import Allman.Proofs.Rereading
import Allman.Proofs.LineEnds
import Allman.Proofs.Paths
import Allman.Proofs.Files
import Allman.Proofs.Acts
import Allman.Proofs.Replay
import Allman.Proofs.CacheHistory
import Allman.Proofs.Cleaning
import Allman.Proofs.Directories
import Allman.Proofs.CachePlaces
import Allman.Proofs.CacheMap
import Allman.Proofs.Shells
import Allman.Proofs.Frames
import Allman.Proofs.Stages
import Allman.Proofs.Modes
import Allman.Proofs.Untouched
import Allman.Proofs.Balance
import Allman.Proofs.Accounting
import Allman.Proofs.Repetition
import Allman.Proofs.Embedding
import Allman.Proofs.Extension
import Allman.Proofs.UnreadRows
import Allman.Proofs.Showing
import Allman.Proofs.Decoding
import Allman.Proofs.Fitting
import Allman.Proofs.Remasking
import Allman.Proofs.Changes
import Allman.Proofs.Ancestors
import Allman.Proofs.Bounds
import Allman.Proofs.Runes
import Allman.Proofs.Splitting
import Allman.Proofs.Verdicts
import Allman.Proofs.Caret
