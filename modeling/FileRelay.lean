import FileRelay.Bytes
import FileRelay.Calendar.Date
import FileRelay.Calendar.Instant
import FileRelay.Calendar.Rfc3339
import FileRelay.Codec
import FileRelay.Config
import FileRelay.Digest.Algorithm
import FileRelay.Digest.Digester
import FileRelay.Digest.Entry
import FileRelay.Digest.OfFile
import FileRelay.Digest.Sha2
import FileRelay.Encoding
import FileRelay.Failure
import FileRelay.Fault
import FileRelay.Json.Fields
import FileRelay.Json.Literal
import FileRelay.Json.Value
import FileRelay.KeyMap
import FileRelay.Log.Basic
import FileRelay.Log.Message
import FileRelay.Log.Subscription
import FileRelay.Log.Timeline
import FileRelay.Loopback
import FileRelay.Main
import FileRelay.Malformed
import FileRelay.Meter
import FileRelay.Part.Headers
import FileRelay.Part.Label
import FileRelay.Path.Components
import FileRelay.Path.FileTree
import FileRelay.Path.OutputName
import FileRelay.Proofs.Calendar.Date
import FileRelay.Proofs.Calendar.Rfc3339
import FileRelay.Proofs.Codec
import FileRelay.Proofs.Config
import FileRelay.Proofs.Digest.Entry
import FileRelay.Proofs.Digest.Streaming
import FileRelay.Proofs.Json.Fields
import FileRelay.Proofs.Json.Literal
import FileRelay.Proofs.Json.Value
import FileRelay.Proofs.Log.Faultless
import FileRelay.Proofs.Log.Polling
import FileRelay.Proofs.Log.Row
import FileRelay.Proofs.Log.Waiting
import FileRelay.Proofs.Part.Label
import FileRelay.Proofs.Part.Transport
import FileRelay.Proofs.Record.Text
import FileRelay.Proofs.Record.Tiling
import FileRelay.Proofs.Source.ChunkReader
import FileRelay.Proofs.Text.Decimal
import FileRelay.Proofs.Transfer.Acceptance
import FileRelay.Proofs.Transfer.Accepted
import FileRelay.Proofs.Transfer.Calls
import FileRelay.Proofs.Transfer.CalmTurn
import FileRelay.Proofs.Transfer.Counting
import FileRelay.Proofs.Transfer.Ending
import FileRelay.Proofs.Transfer.Entries
import FileRelay.Proofs.Transfer.FaultyDownload
import FileRelay.Proofs.Transfer.Following
import FileRelay.Proofs.Transfer.History
import FileRelay.Proofs.Transfer.Integrity
import FileRelay.Proofs.Transfer.Issued
import FileRelay.Proofs.Transfer.Labelling
import FileRelay.Proofs.Transfer.Listening
import FileRelay.Proofs.Transfer.Masking
import FileRelay.Proofs.Transfer.OneTurn
import FileRelay.Proofs.Transfer.Plain
import FileRelay.Proofs.Transfer.PlainDownload
import FileRelay.Proofs.Transfer.Publication
import FileRelay.Proofs.Transfer.Publishing
import FileRelay.Proofs.Transfer.Reading
import FileRelay.Proofs.Transfer.Stored
import FileRelay.Proofs.Transfer.Striking
import FileRelay.Proofs.Transfer.Turns
import FileRelay.Proofs.Transfer.Writing
import FileRelay.Proofs.Zstd.RoundTrip
import FileRelay.Record.FileRecord
import FileRelay.Record.Layout
import FileRelay.Record.Text
import FileRelay.Source.ChunkReader
import FileRelay.Source.Inspect
import FileRelay.Store
import FileRelay.Text.Blank
import FileRelay.Text.Decimal
import FileRelay.Text.Letters
import FileRelay.Text.Printable
import FileRelay.Text.Quoted
import FileRelay.Transfer.Anomaly
import FileRelay.Transfer.Catalogue
import FileRelay.Transfer.Download
import FileRelay.Transfer.Event
import FileRelay.Transfer.Exchange
import FileRelay.Transfer.Interference
import FileRelay.Transfer.PartCheck
import FileRelay.Transfer.Session
import FileRelay.Transfer.Sink
import FileRelay.Transfer.Turn
import FileRelay.Transfer.Upload
import FileRelay.Word
import FileRelay.Zstd.Bits
import FileRelay.Zstd.Checksum
import FileRelay.Zstd.Frame
import FileRelay.Zstd.Literals
import FileRelay.Zstd.PrefixTree
import FileRelay.Zstd.Sequences
import FileRelay.Zstd.StateTable
import FileRelay.Zstd.Writer
import FileRelay.Proofs.Transfer.AllOrNothing
import FileRelay.Proofs.Transfer.Bounds
import FileRelay.Proofs.Log.Firing
import FileRelay.Proofs.Log.Traffic
import FileRelay.Proofs.Log.DeliveryLaw
import FileRelay.Proofs.Log.Timetable
import FileRelay.Proofs.Transfer.Schedule
import FileRelay.Proofs.Transfer.Timing
import FileRelay.Proofs.Transfer.Tidiness
import FileRelay.Proofs.Transfer.Abreast
import FileRelay.Proofs.Transfer.LastRecord
import FileRelay.Proofs.Transfer.SessionCourse
import FileRelay.Proofs.Record.Parts
import FileRelay.Proofs.Source.ChangingFile
import FileRelay.Proofs.Log.Relabelling
import FileRelay.Proofs.Transfer.Relabelling
import FileRelay.Proofs.Transfer.Spelling
import FileRelay.Proofs.Transfer.ReadingBack
import FileRelay.Proofs.Transfer.Chronicle
import FileRelay.Proofs.Log.Silence
import FileRelay.Proofs.Transfer.IdleClock
import FileRelay.Proofs.Log.Requests
import FileRelay.Proofs.Log.Spacing
import FileRelay.Proofs.Transfer.FlowControl
import FileRelay.Proofs.Zstd.Capacity
import FileRelay.Proofs.Transfer.Decoding
import FileRelay.Proofs.Digest.History
import FileRelay.Proofs.Text.Octets
import FileRelay.Proofs.Transfer.Catalogue
import FileRelay.Proofs.Text.Lossy
import FileRelay.Proofs.Path.Components
import FileRelay.Proofs.Path.OutputName
import FileRelay.Proofs.Path.FileTree
import FileRelay.Proofs.Transfer.OutputDirectory
import FileRelay.Proofs.Record.Naming
import FileRelay.Proofs.Transfer.Naming
import FileRelay.Proofs.Meter
import FileRelay.Proofs.ConfigFile
