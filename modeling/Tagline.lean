import Tagline.Json.Tag
import Tagline.Language
import Tagline.Scanner.Source
import Tagline.Scanner.Stream
import Tagline.Proofs.Headings
import Tagline.Proofs.Reporting
import Tagline.Proofs.Nesting
import Tagline.Proofs.LineForms
import Tagline.Proofs.Forest
import Tagline.Proofs.Placed
import Tagline.Proofs.Padding
import Tagline.Proofs.LineEnds
import Tagline.Proofs.PaddedLines
import Tagline.Proofs.Deliveries
import Tagline.Proofs.LossyLines
import Tagline.Proofs.SourceScan
import Tagline.Proofs.Enclosed
import Tagline.Proofs.Comments
import Tagline.Proofs.Positions
import Tagline.Proofs.Failures
import Tagline.Proofs.BlockPositions
import Tagline.Proofs.NameGrammar
import Tagline.Proofs.NamelessDefinitions
import Tagline.Proofs.EncodedTexts
import Tagline.Proofs.Json.Reading
import Tagline.Proofs.Json.Numbers
import Tagline.Proofs.Json.Strings
import Tagline.Proofs.Json.Records
import Tagline.Proofs.Json.TagTexts
import Tagline.Proofs.TagStreams
import Tagline.Proofs.WordOrder
import Tagline.Proofs.LogEntries
import Tagline.Proofs.Transcript
import Tagline.Proofs.Edits
import Tagline.Proofs.Json.Truncation
import Tagline.Proofs.Json.Sources
import Tagline.Proofs.SplitPaths
import Tagline.Proofs.SlicedLines
