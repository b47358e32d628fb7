import Arrivals.Activity
import Arrivals.Arrival
import Arrivals.Board
import Arrivals.Broker
import Arrivals.Bytes
import Arrivals.Command.Grammar
import Arrivals.Command.Help
import Arrivals.Command.Number
import Arrivals.Command.Run
import Arrivals.Command.Serve
import Arrivals.Dissemination
import Arrivals.Endpoint
import Arrivals.Estimate
import Arrivals.Expiring
import Arrivals.Forecast
import Arrivals.Gateway
import Arrivals.Hash.Sha256
import Arrivals.Hash.Xxh64
import Arrivals.Http.MediaType
import Arrivals.Http.Respond
import Arrivals.Http.Route
import Arrivals.Json.Basic
import Arrivals.Json.Decoder
import Arrivals.Json.Draft
import Arrivals.Json.Number
import Arrivals.Main
import Arrivals.Memo
import Arrivals.Mqtt.Decode
import Arrivals.Mqtt.Encode
import Arrivals.Mqtt.Packet
import Arrivals.Mqtt.Topic
import Arrivals.Network.Edge
import Arrivals.Network.Line
import Arrivals.Network.Snapshot
import Arrivals.Network.Stops
import Arrivals.Network.Trip
import Arrivals.Number.Binary
import Arrivals.Number.Single
import Arrivals.Position
import Arrivals.Prediction.Basic
import Arrivals.Prediction.Search
import Arrivals.Presence
import Arrivals.Proofs.Access
import Arrivals.Proofs.Activity.Markers
import Arrivals.Proofs.Activity.Riders
import Arrivals.Proofs.Activity.Tracking
import Arrivals.Proofs.Board.Leases
import Arrivals.Proofs.Board.Positions
import Arrivals.Proofs.Board.Runs
import Arrivals.Proofs.Broker.Entries
import Arrivals.Proofs.Broker.Fanout
import Arrivals.Proofs.Clock
import Arrivals.Proofs.Expiring
import Arrivals.Proofs.Forecast.Current
import Arrivals.Proofs.Forecast.Pass
import Arrivals.Proofs.Forecast.Vehicles
import Arrivals.Proofs.Forecast.Walk
import Arrivals.Proofs.Memo.Coherence
import Arrivals.Proofs.Memo.Race
import Arrivals.Proofs.Mqtt.Format
import Arrivals.Proofs.Mqtt.Framing
import Arrivals.Proofs.Mqtt.Readers
import Arrivals.Proofs.Mqtt.RoundTrip
import Arrivals.Proofs.Mqtt.Stream
import Arrivals.Proofs.Network.Mirror
import Arrivals.Proofs.Number.Nearest
import Arrivals.Proofs.Position.Placing
import Arrivals.Proofs.Prediction.Costs
import Arrivals.Proofs.Prediction.Faithful
import Arrivals.Proofs.Prediction.Growth
import Arrivals.Proofs.Prediction.Located
import Arrivals.Proofs.Prediction.Mirrored
import Arrivals.Proofs.Prediction.Related
import Arrivals.Proofs.Prediction.Rides
import Arrivals.Proofs.Prediction.Views
import Arrivals.Proofs.Secret
import Arrivals.Proofs.Session.Admission
import Arrivals.Proofs.Session.Filters
import Arrivals.Proofs.Session.Sharing
import Arrivals.Proofs.Session.Turn
import Arrivals.Proofs.Signal.Intake
import Arrivals.Proofs.Store.Listing
import Arrivals.Proofs.Store.Overlap
import Arrivals.Proofs.Timing.Bounds
import Arrivals.Proofs.Timing.Commit
import Arrivals.Proofs.Timing.Learning
import Arrivals.Proofs.Timing.Means
import Arrivals.Proofs.Timing.Order
import Arrivals.Proofs.Timing.Repeat
import Arrivals.Proofs.Timing.Report
import Arrivals.Proofs.Timing.Samples
import Arrivals.Proofs.Timing.Staging
import Arrivals.Proofs.Wire.Meaning
import Arrivals.Proofs.Wire.Names
import Arrivals.Proofs.Wire.Positions
import Arrivals.Schedule
import Arrivals.Secret
import Arrivals.Service
import Arrivals.Session
import Arrivals.Signal
import Arrivals.Store.Access
import Arrivals.Store.Basic
import Arrivals.Store.Transaction
import Arrivals.Table
import Arrivals.Text.Blank
import Arrivals.Text.Digits
import Arrivals.Text.Front
import Arrivals.Text.Joined
import Arrivals.Time.Calendar
import Arrivals.Time.Instant
import Arrivals.Time.Stamp
import Arrivals.Timing.Batch
import Arrivals.Timing.Mean
import Arrivals.Wire.Binary
import Arrivals.Wire.Field
import Arrivals.Wire.Message
import Arrivals.Wire.Payload
import Arrivals.Wire.Text
import Arrivals.Proofs.Mqtt.Normal
import Arrivals.Proofs.Dissemination.Publication
import Arrivals.Proofs.Session.Replies
import Arrivals.Proofs.Dissemination.Agreement
import Arrivals.Proofs.Http.Unverified
import Arrivals.Proofs.Store.Log
import Arrivals.Proofs.Prediction.Scans
import Arrivals.Proofs.Time.Calendar
import Arrivals.Proofs.Time.Stamp
import Arrivals.Proofs.Json.Omission
import Arrivals.Proofs.Network.Snapshot
import Arrivals.Proofs.Mqtt.Topics
import Arrivals.Proofs.Mqtt.Overlong
import Arrivals.Proofs.Signal.Atomic
import Arrivals.Proofs.Prediction.Faults
import Arrivals.Proofs.Secret.Spelling
import Arrivals.Proofs.Activity.Repetition
import Arrivals.Proofs.Wire.Ageing
import Arrivals.Proofs.Prediction.Shared
import Arrivals.Proofs.Presence.History
import Arrivals.Proofs.Wire.Minutes
import Arrivals.Proofs.Position.Percent
import Arrivals.Proofs.Dissemination.Remaining
import Arrivals.Proofs.Prediction.Gaps
