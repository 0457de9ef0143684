import TikzPress.Main
import TikzPress.StyleName
import TikzPress.Proofs.Document.Tiling
import TikzPress.Proofs.Manager.Run
import TikzPress.Proofs.Manager.InFlight
import TikzPress.Proofs.FileTree
import TikzPress.Proofs.FileTree.Directories
import TikzPress.Proofs.FileTree.Local
import TikzPress.Proofs.Compilation.Stages
import TikzPress.Proofs.Compilation.Freshness
import TikzPress.Proofs.Compilation.Publication
import TikzPress.Proofs.Json.Quoted
import TikzPress.Proofs.CacheKey
import TikzPress.Proofs.Manager.Consistency
import TikzPress.Proofs.Graph.Identity
import TikzPress.Proofs.Bracket
import TikzPress.Proofs.Statement
import TikzPress.Proofs.Lexeme
import TikzPress.Proofs.Picture.Written
import TikzPress.Proofs.Picture.Reading
import TikzPress.Proofs.Picture.Layers
import TikzPress.Proofs.Picture.Recovery
import TikzPress.Proofs.Text.Occurrence
import TikzPress.Proofs.Environment
import TikzPress.Proofs.Document.Unclosed
import TikzPress.Proofs.Document.Append
import TikzPress.Proofs.Graph.Trails
import TikzPress.Proofs.Statement.Slices
import TikzPress.Proofs.Drawing
import TikzPress.Proofs.Reader
import TikzPress.Proofs.Circuit
import TikzPress.Proofs.Picture.Layered
import TikzPress.Proofs.Picture.Offsets
import TikzPress.Proofs.Document.Offsets
import TikzPress.Proofs.Graph.Declarations
import TikzPress.Proofs.Manager.Waiting
import TikzPress.Proofs.Config.Precedence
import TikzPress.Proofs.OptionList
import TikzPress.Proofs.Token
import TikzPress.Proofs.Circuit.Written
import TikzPress.Proofs.Circuit.Reading
import TikzPress.Proofs.Circuit.Recovery
import TikzPress.Proofs.Graph.Payloads
import TikzPress.Proofs.Manager.Settled
import TikzPress.Proofs.Manager.Session
import TikzPress.Proofs.Compilation.Ending
import TikzPress.Proofs.Manager.InTime
import TikzPress.Proofs.CommandLine.Preview
import TikzPress.Proofs.Refresh
import TikzPress.Proofs.Manager.Delivery
import TikzPress.Proofs.Manager.Origin
import TikzPress.Proofs.CommandLine.Again
import TikzPress.Proofs.Bytewise.Faultless
import TikzPress.Proofs.Environment.Matching
import TikzPress.Proofs.Statement.Splitting
import TikzPress.Proofs.Picture.Extraction
import TikzPress.Proofs.Compilation.Sequence
import TikzPress.Proofs.Compilation.Local
import TikzPress.Proofs.Compilation.Independent
import TikzPress.Proofs.Drawing.Common
import TikzPress.Proofs.Expansion
import TikzPress.Proofs.Standalone
import TikzPress.Proofs.Markup
import TikzPress.Proofs.StyleName
import TikzPress.Proofs.OptionList.Nested
import TikzPress.Proofs.Graph.Snapshots
import TikzPress.Proofs.Config.Discovery
import TikzPress.Proofs.Bytewise.Construct
import TikzPress.Proofs.Bytewise.Header
import TikzPress.Proofs.Reference
