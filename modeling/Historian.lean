import Historian.Tag
import Historian.Object
import Historian.Time.Stamp
import Historian.Value.Integer
import Historian.Value.Single
import Historian.Refusal
import Historian.Value.Field
import Historian.Record
import Historian.Message.Network
import Historian.Message.Header
import Historian.Message.ReadRange
import Historian.Message.ReadProperty
import Historian.Time.Clock
import Historian.Log.Page
import Historian.Log.Archive
import Historian.Log.Export
import Historian.Reply
import Historian.Json.Reader
import Historian.Json.Records
import Historian.Log.Documents
import Historian.Device.Point
import Historian.Link.Address
import Historian.Link.Frame
import Historian.Link.Transport
import Historian.Device.Config
import Historian.Device.State
import Historian.Device.Command
import Historian.Device.Session
import Historian.Device.Sampler
import Historian.Device.Responder
import Historian.Client.Reply
import Historian.Client.Argument
import Historian.Proofs.Wire.Reader
import Historian.Proofs.Wire.Writer
import Historian.Proofs.Wire.Tag
import Historian.Proofs.Wire.Integer
import Historian.Proofs.Wire.Flags
import Historian.Proofs.Wire.Field
import Historian.Proofs.Value.Double
import Historian.Proofs.Wire.Ack
import Historian.Proofs.Wire.Survival
import Historian.Proofs.Wire.Extent
import Historian.Proofs.Wire.Header
import Historian.Proofs.Wire.Request
import Historian.Proofs.Wire.Property
import Historian.Proofs.Wire.Network
import Historian.Proofs.Wire.Firm
import Historian.Proofs.Wire.Form
import Historian.Proofs.Wire.Numeral
import Historian.Proofs.Wire.Truncation
import Historian.Proofs.Wire.Nesting
import Historian.Proofs.Wire.Delivery
import Historian.Proofs.Wire.Kind
import Historian.Proofs.Wire.Rewind
import Historian.Proofs.Time.Calendar
import Historian.Proofs.Time.Instant
import Historian.Proofs.Time.Stamp
import Historian.Proofs.Time.Naming
import Historian.Proofs.Log.Sequence
import Historian.Proofs.Log.Cycle
import Historian.Proofs.Log.Selection
import Historian.Proofs.Log.Page
import Historian.Proofs.Log.History
import Historian.Proofs.Log.Answer
import Historian.Proofs.Log.Paging
import Historian.Proofs.Log.Archive
import Historian.Proofs.Log.Limit
import Historian.Proofs.Log.Reckoning
import Historian.Proofs.Log.Addressing
import Historian.Proofs.Log.ByTime
import Historian.Proofs.Log.Precedence
import Historian.Proofs.Log.Room
import Historian.Proofs.Log.Roster
import Historian.Proofs.Log.Loading
import Historian.Proofs.Log.Life
import Historian.Proofs.Log.Offers
import Historian.Proofs.Log.Retention
import Historian.Proofs.Log.Follower
import Historian.Proofs.Log.DeadBand
import Historian.Proofs.Log.Grid
import Historian.Proofs.Log.Schedule
import Historian.Proofs.Log.Switching
import Historian.Proofs.Log.Chronology
import Historian.Proofs.Link.Transport
import Historian.Proofs.Device.Effect
import Historian.Proofs.Device.Newest
import Historian.Proofs.Device.Property
import Historian.Proofs.Reply
import Historian.Proofs.Device.Responder
import Historian.Proofs.Device.Serving
import Historian.Proofs.Device.Writers
import Historian.Proofs.Client.Exchange
