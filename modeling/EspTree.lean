import EspTree.Lib.Bytes
import EspTree.Lib.Digits
import EspTree.Lib.System
import EspTree.Lib.Pointers
import EspTree.Types
import EspTree.Crypto
import EspTree.Frame
import EspTree.Message
import EspTree.Fragment
import EspTree.File.Geometry
import EspTree.File.Receiver
import EspTree.File.Runs
import EspTree.File.Completion
import EspTree.File.Buffer
import EspTree.File.Answer
import EspTree.File.Manager
import EspTree.File.Transfer
import EspTree.File.Delivery
import EspTree.File.Moves
import EspTree.File.Replies
import EspTree.File.Outcome
import EspTree.File.Lockstep
import EspTree.Remote.State
import EspTree.Remote.Send
import EspTree.Remote.Discovery
import EspTree.Remote.Handlers
import EspTree.Remote.Loop
import EspTree.Remote.Moves
import EspTree.Remote.Requests
import EspTree.Bridge.State
import EspTree.Bridge.Send
import EspTree.Bridge.Handlers
import EspTree.Bridge.Loop
import EspTree.Bridge.Moves
import EspTree.Agreement
import EspTree.Relay
import EspTree.Topology
import EspTree.StateSync
import EspTree.Mode
import EspTree.Link
import EspTree.KeyAgreement
import EspTree.Keystream
import EspTree.Publication
import EspTree.TreeBridge
import EspTree.Assembly
import EspTree.Limits
import EspTree.Reflection
import EspTree.Commands
import EspTree.Online
import EspTree.Rejected
import EspTree.Deauth
import EspTree.File.Jobs
import EspTree.File.Served
import EspTree.AddOn.Absorbing
import EspTree.AddOn.Cancel
import EspTree.AddOn.Queue
import EspTree.AddOn.Interrupted
import EspTree.Accounts
import EspTree.RoundTrip
import EspTree.File.Increments
import EspTree.File.Partition
import EspTree.File.Retry
import EspTree.Routes
import EspTree.Heartbeats
import EspTree.Contact
import EspTree.SchemaRetry
import EspTree.LinkQuality
import EspTree.ChildCount
import EspTree.ParentChoice
import EspTree.SchemaHash
import EspTree.SchemaCache
import EspTree.HopLimit
import EspTree.RetryRoutes
import EspTree.Runtime.Codec
import EspTree.Runtime.Writer
import EspTree.Runtime.Messages
import EspTree.Runtime.Readers
import EspTree.Runtime.Arguments
import EspTree.Runtime.SessionHost
import EspTree.Eviction
import EspTree.CounterMode
import EspTree.AddOn.Rename
import EspTree.CommandPayload
import EspTree.EntityIds
import EspTree.EntityValues
import EspTree.Mqtt.Receipts
import EspTree.Mqtt.Routing
import EspTree.Mqtt.Clears
import EspTree.Radio.Peers82xx
import EspTree.Integration.Hub
import EspTree.Integration.HubRuns
import EspTree.Integration.Served
import EspTree.Integration.Forwarding
