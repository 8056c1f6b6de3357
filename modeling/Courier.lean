import Courier.Binary64
import Courier.Binary64.Shortest
import Courier.Bytes
import Courier.Calculator.CallError
import Courier.Calculator.Client
import Courier.Calculator.Operation
import Courier.Calculator.Server
import Courier.Cipher.ChaCha20
import Courier.Cipher.Poly1305
import Courier.Cipher.Sealed
import Courier.Codec
import Courier.Codec.Values
import Courier.Columnar.Column
import Courier.Columnar.Small
import Courier.Columnar.Texts
import Courier.Columnar.Words
import Courier.Connection
import Courier.Crc32
import Courier.Deflate.Allowance
import Courier.Deflate.Bits
import Courier.Deflate.Block
import Courier.Deflate.Code
import Courier.Deflate.Compress
import Courier.Deflate.Inflate
import Courier.Deflate.LengthSymbol
import Courier.Deflate.Search
import Courier.Deflate.Stretch
import Courier.Deflate.Token
import Courier.Deflate.WordLengths
import Courier.Failure
import Courier.Framing
import Courier.Gzip
import Courier.Header
import Courier.Header.Code
import Courier.Intake
import Courier.Json
import Courier.Json.Fault
import Courier.Json.Mismatch
import Courier.Json.Number
import Courier.Json.Parser
import Courier.Json.Printer
import Courier.Log
import Courier.Message
import Courier.MessageIds
import Courier.Metadata
import Courier.Proofs.Basics
import Courier.Proofs.BitReaders
import Courier.Proofs.BitWriting
import Courier.Proofs.Calls
import Courier.Proofs.Checksums
import Courier.Proofs.ClearParts
import Courier.Proofs.CodedLengths
import Courier.Proofs.Columns
import Courier.Proofs.Compression
import Courier.Proofs.Consistency
import Courier.Proofs.Consumption
import Courier.Proofs.Correlation
import Courier.Proofs.Envelopes
import Courier.Proofs.Exchange
import Courier.Proofs.ExtraEntries
import Courier.Proofs.FailingSources
import Courier.Proofs.FailureNames
import Courier.Proofs.Frames
import Courier.Proofs.Framings
import Courier.Proofs.FullCodes
import Courier.Proofs.HeaderBuffers
import Courier.Proofs.HeaderFields
import Courier.Proofs.Inflate
import Courier.Proofs.JsonTexts
import Courier.Proofs.Layers
import Courier.Proofs.Layout
import Courier.Proofs.Limits
import Courier.Proofs.Lossless
import Courier.Proofs.Members
import Courier.Proofs.MetadataForms
import Courier.Proofs.Opening
import Courier.Proofs.PackedValues
import Courier.Proofs.Passes
import Courier.Proofs.Precedence
import Courier.Proofs.PrefixCodes
import Courier.Proofs.Queue
import Courier.Proofs.Reencoding
import Courier.Proofs.Registrations
import Courier.Proofs.Reports
import Courier.Proofs.RoundTrip
import Courier.Proofs.Sealing
import Courier.Proofs.Serving
import Courier.Proofs.ShortData
import Courier.Proofs.Sinks
import Courier.Proofs.Sources
import Courier.Proofs.SpelledTrees
import Courier.Proofs.Stacks
import Courier.Proofs.Tallies
import Courier.Proofs.TokenBits
import Courier.Proofs.TolerantMetadata
import Courier.Proofs.Truncation
import Courier.Proofs.VarintLanguage
import Courier.Proofs.Varints
import Courier.Proofs.Writing
import Courier.Registry
import Courier.Settings
import Courier.Shape
import Courier.SortedMap
import Courier.Stack
import Courier.Text
import Courier.Text.Hidden
import Courier.Text.Quoted
import Courier.Transport.Sink
import Courier.Transport.Source
import Courier.Transport.Stream
import Courier.Varint
