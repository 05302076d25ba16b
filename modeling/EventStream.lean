import EventStream.Lib.Json
import EventStream.Lib.Base64
import EventStream.Event
import EventStream.Encode
import EventStream.Client.Decode
import EventStream.Client.RoundTrip
import EventStream.Lib.Totals
import EventStream.Server
import EventStream.Stats
import EventStream.Cluster
import EventStream.Capture
import EventStream.Accounting
import EventStream.Steps
import EventStream.Lifecycle
import EventStream.Streams
import EventStream.Notify
import EventStream.Registry
import EventStream.Lib.Ascending
import EventStream.Lib.Lanes
import EventStream.Lib.Boundaries
import EventStream.Queue
import EventStream.Node
import EventStream.WellFormed
import EventStream.Refine
import EventStream.Books
import EventStream.Order
import EventStream.Fences
import EventStream.Envelope
import EventStream.Client.Formats
import EventStream.Lib.Crc
import EventStream.Slots
import EventStream.Client.Naming
import EventStream.Client.Reader
import EventStream.Client.Merged
import EventStream.Deeds
import EventStream.Turns
import EventStream.Tallies
import EventStream.Pins
import EventStream.Origins
import EventStream.Confined
import EventStream.Exclusions
import EventStream.Settings
import EventStream.Reload
import EventStream.Globs
import EventStream.Client.Masters
import EventStream.FailureLog
import EventStream.Client.Control
import EventStream.Client.MarkerOrder
import EventStream.Client.Tailing
import EventStream.Lib.Stride
import EventStream.Selection
import EventStream.Threads
import EventStream.Atomic
import EventStream.Prune
import EventStream.Gauges
import EventStream.Panics
import EventStream.Checksum
import EventStream.Lib.Tokens
import EventStream.Grammars
import EventStream.NumberLists
import EventStream.Client.Decoded
import EventStream.LiveSettings
import EventStream.Conservation
import EventStream.Client.ControlEntries
import EventStream.Status
import EventStream.ControlLog
import EventStream.Restart
import EventStream.Waiting
import EventStream.Client.Consume
import EventStream.Delivery
import EventStream.Client.Discovery
import EventStream.Audit
import EventStream.Locks
import EventStream.Costs
import EventStream.Feedback
