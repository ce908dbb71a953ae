import DeskHop.Core.Bytes
import DeskHop.Lib.Codec
import DeskHop.Lib.Blocks
import DeskHop.Core.Fields
import DeskHop.Core.Msg
import DeskHop.Core.Types
import DeskHop.Election.Uhrp
import DeskHop.Lib.Reach
import DeskHop.Lib.Slots
import DeskHop.Election.Step
import DeskHop.Election.Handover
import DeskHop.Election.Table
import DeskHop.Election.Vacancy
import DeskHop.Wire.Frame
import DeskHop.Wire.Link
import DeskHop.Routing.Hid
import DeskHop.Routing.Pointer
import DeskHop.Routing.Router
import DeskHop.Routing.Release
import DeskHop.Wire.Replay
import DeskHop.Wire.Course
import DeskHop.Core.Reads
import DeskHop.Trust.Pair
import DeskHop.Trust.Reads
import DeskHop.Trust.ThirdParty
import DeskHop.Trust.MainLoop
import DeskHop.Trust.Revoke
import DeskHop.Bulk.Data
import DeskHop.Bulk.Reads
import DeskHop.Lib.History
import DeskHop.Trust.Unpaired
import DeskHop.Bulk.Transfer
import DeskHop.Bulk.Receiver
import DeskHop.Bulk.Sender
import DeskHop.Bulk.GoBackN
import DeskHop.Lib.Lane
import DeskHop.Lib.Load
import DeskHop.Wire.Hop
import DeskHop.Routing.Announce
import DeskHop.Wire.RoundTrip
import DeskHop.Election.Field
import DeskHop.Election.Standing
import DeskHop.Election.Promotion
import DeskHop.Election.Settled
import DeskHop.Election.Roles
import DeskHop.Election.Backup
import DeskHop.Trust.Inert
import DeskHop.Trust.Transcript
import DeskHop.Trust.Evidence
import DeskHop.Trust.Agreement
import DeskHop.Trust.Joining
import DeskHop.Wire.Row
import DeskHop.Wire.Journal
import DeskHop.Wire.Line
import DeskHop.Client.Blind
import DeskHop.Client.Frames
import DeskHop.Lib.Twin
import DeskHop.Client.Firmware
import DeskHop.Client.Proxy
import DeskHop.Client.Usb
import DeskHop.Routing.Effect
import DeskHop.Chain.Config
import DeskHop.Chain.Coordinator
import DeskHop.Chain.DueNow
import DeskHop.Chain.Network
import DeskHop.Chain.Takeover
import DeskHop.Chain.Typing
import DeskHop.Wire.Batch
import DeskHop.Lib.Shift
import DeskHop.Wire.Damage
import DeskHop.Wire.Relay
import DeskHop.Wire.Mesh
import DeskHop.Wire.Forged
import DeskHop.Bulk.Directions
import DeskHop.Bulk.Moves
import DeskHop.Bulk.Speaking
import DeskHop.Bulk.Hearing
import DeskHop.Bulk.Phases
import DeskHop.Bulk.Ledger
import DeskHop.Bulk.LostAccept
import DeskHop.Bulk.LostDone
import DeskHop.Bulk.Tiling
import DeskHop.Bulk.Endpoint
import DeskHop.Lib.Keyed
import DeskHop.Bulk.Table
import DeskHop.Bulk.Sending
import DeskHop.Bulk.Terminal
import DeskHop.Bulk.Identity
import DeskHop.Client.Inbound
import DeskHop.Client.Status
import DeskHop.Wire.Cut
import DeskHop.Client.Reports
import DeskHop.Lib.Fair
import DeskHop.Lib.Window
import DeskHop.Bulk.Alone
import DeskHop.Bulk.Checksum
import DeskHop.Bulk.Outgoing
import DeskHop.Bulk.Incoming
import DeskHop.Bulk.Running
import DeskHop.Bulk.Lossless
import DeskHop.Bulk.Carried
import DeskHop.Bulk.Trailing
import DeskHop.Lib.Select
import DeskHop.Routing.Screens
import DeskHop.Routing.Axis
import DeskHop.Routing.Crossing
import DeskHop.Routing.Gesture
import DeskHop.Routing.Held
import DeskHop.Routing.Rule1
import DeskHop.Routing.LetGo
import DeskHop.Routing.Live
import DeskHop.Routing.Hooks
import DeskHop.Election.Pace
import DeskHop.Chain.Mistimed
import DeskHop.Chain.Positions
import DeskHop.Core.Later
import DeskHop.Lib.Alike
import DeskHop.Lib.Outputs
import DeskHop.Routing.PointerLater
import DeskHop.Wire.LinkLater
import DeskHop.Trust.PairLater
import DeskHop.Election.Later
import DeskHop.Bulk.Later
import DeskHop.Chain.Later
import DeskHop.Chain.Integrator
import DeskHop.Client.Naming
import DeskHop.Chain.Saved
import DeskHop.Client.Clipboard
import DeskHop.Wire.SipHash
import DeskHop.Trust.Payloads
import DeskHop.Client.Payloads
import DeskHop.Lib.RingBuffer
import DeskHop.Device.Uart
import DeskHop.Device.Cable
import DeskHop.Client.TxRing
import DeskHop.Device.Buttons
import DeskHop.Device.KeyRecord
import DeskHop.Device.Loop
import DeskHop.Lib.Drain
import DeskHop.Chain.Serial
import DeskHop.Client.BoardLink
import DeskHop.Client.Outbox
import DeskHop.Device.Indicator
import DeskHop.Chain.Display
import DeskHop.Chain.Screen
import DeskHop.Chain.InOrder
import DeskHop.Routing.Alone
import DeskHop.Device.Capture
import DeskHop.Election.Offers
import DeskHop.Routing.Levels
