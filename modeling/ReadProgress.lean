import ReadProgress.Config
import ReadProgress.Database
import ReadProgress.Date
import ReadProgress.Decimal.Shortest
import ReadProgress.Decimal.Written
import ReadProgress.Disk
import ReadProgress.Draft
import ReadProgress.Error
import ReadProgress.Event
import ReadProgress.FileError
import ReadProgress.FileTree
import ReadProgress.Housekeeper
import ReadProgress.Housekeeper.Run
import ReadProgress.Housekeeper.Schedule
import ReadProgress.Json
import ReadProgress.Json.Cursor
import ReadProgress.Json.Decoder
import ReadProgress.Json.Reader
import ReadProgress.Json.Reader.Number
import ReadProgress.Json.Reader.Quoted
import ReadProgress.Json.Refusal
import ReadProgress.Json.Writer
import ReadProgress.Log
import ReadProgress.Log.Filter
import ReadProgress.LogFormat
import ReadProgress.Members
import ReadProgress.Options
import ReadProgress.Options.CommandLine
import ReadProgress.Path
import ReadProgress.Pattern
import ReadProgress.Pattern.Atom
import ReadProgress.Pattern.CharSet
import ReadProgress.Pattern.Reader
import ReadProgress.Record
import ReadProgress.Registry
import ReadProgress.Registry.Cleanup
import ReadProgress.Snapshot
import ReadProgress.Snapshot.Form
import ReadProgress.Store
import ReadProgress.Table
import ReadProgress.Text.Alphanumeric
import ReadProgress.Text.Blank
import ReadProgress.Text.Bytes
import ReadProgress.Text.CharRange
import ReadProgress.Text.Cut
import ReadProgress.Text.Mended
import ReadProgress.Text.Numeral
import ReadProgress.Text.Quoted
import ReadProgress.Text.Split
import ReadProgress.Text.Terminal
import ReadProgress.Text.Unshown
import ReadProgress.Timespan
import ReadProgress.Timespan.Reading
import ReadProgress.Timespan.Written
import ReadProgress.Timestamp
import ReadProgress.Timestamp.Reading
import ReadProgress.Timestamp.Written
import ReadProgress.Ttl
import ReadProgress.Proofs.Registry.Index
import ReadProgress.Proofs.Registry.Sweep
import ReadProgress.Proofs.Registry.Refinement
import ReadProgress.Proofs.Registry.Coverage
import ReadProgress.Proofs.Registry.Refusal
import ReadProgress.Proofs.Registry.Agreement
import ReadProgress.Proofs.Registry.Account
import ReadProgress.Proofs.Registry.Request
import ReadProgress.Proofs.Registry.Harvest
import ReadProgress.Proofs.Json.Nesting
import ReadProgress.Proofs.Database
import ReadProgress.Proofs.Reopening
import ReadProgress.Proofs.Date
import ReadProgress.Proofs.Snapshot
import ReadProgress.Proofs.Snapshot.Form
import ReadProgress.Proofs.Store
import ReadProgress.Proofs.Restoration
import ReadProgress.Proofs.Restart
import ReadProgress.Proofs.Path
import ReadProgress.Proofs.FileTree
import ReadProgress.Proofs.FileTree.Steady
import ReadProgress.Proofs.FileTree.Growth
import ReadProgress.Proofs.Disk
import ReadProgress.Proofs.Replacement
import ReadProgress.Proofs.House
import ReadProgress.Proofs.Durability
import ReadProgress.Proofs.Office
import ReadProgress.Proofs.Registry.Soundness
import ReadProgress.Proofs.Staleness
import ReadProgress.Proofs.Neighbours
import ReadProgress.Proofs.Schedule
import ReadProgress.Proofs.Shutdown
import ReadProgress.Proofs.Timetable
import ReadProgress.Proofs.Timetable.Clocks
import ReadProgress.Proofs.Punctuality
import ReadProgress.Proofs.Ttl.Form
import ReadProgress.Proofs.Expiry
import ReadProgress.Proofs.Text.Bytes
import ReadProgress.Proofs.Registry.Passes
import ReadProgress.Proofs.Snapshot.Records
import ReadProgress.Proofs.Timespan.Span
import ReadProgress.Proofs.Timespan.Overflow
