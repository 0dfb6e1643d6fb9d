import Rumsh.Schemes.Overwrite
import Rumsh.Schemes.Chunks
import Rumsh.Schemes.Format
import Rumsh.Schemes.Bitmask
import Rumsh.Schemes.Window
import Rumsh.Schemes.Run
import Rumsh.Schemes.Pacing
import Rumsh.Schemes.Purge
import Rumsh.Schemes.Recent
import Rumsh.Schemes.Utf8
import Rumsh.Schemes.Radix
import Rumsh.Protocol.Basic
import Rumsh.Protocol.Grid
import Rumsh.Protocol.Grapheme
import Rumsh.Protocol.Delta
import Rumsh.Protocol.Patch
import Rumsh.Protocol.Payload
import Rumsh.Protocol.Bincode
import Rumsh.Protocol.Codec
import Rumsh.Protocol.Reassembly
import Rumsh.Protocol.Bounds
import Rumsh.Protocol.RoundTrip
import Rumsh.Protocol.Completion
import Rumsh.Protocol.Finished
import Rumsh.Protocol.Integrity
import Rumsh.Protocol.Forgery
import Rumsh.Client.Escape
import Rumsh.Client.Terminal
import Rumsh.Client.Session
import Rumsh.Client.Network
import Rumsh.Client.Inversion
import Rumsh.Client.Steps
import Rumsh.Client.Echo
import Rumsh.Client.Mirror
import Rumsh.Client.Painting
import Rumsh.Client.Staleness
import Rumsh.Client.Predictions
import Rumsh.Client.Rollback
import Rumsh.Client.Sealing
import Rumsh.Client.Timers
import Rumsh.Client.Heartbeat
import Rumsh.Client.LossWindow
import Rumsh.Client.Nacks
import Rumsh.Client.Stdin
import Rumsh.Client.Arq
import Rumsh.Client.Cadence
import Rumsh.Client.Display
import Rumsh.Client.Reception
import Rumsh.Client.Panics
import Rumsh.Client.Typing
import Rumsh.Client.Lifecycle
import Rumsh.Client.Bootstrap
import Rumsh.Client.KeyText
import Rumsh.Client.Renderer
import Rumsh.Client.Indexing
import Rumsh.Client.Host
import Rumsh.Client.Console
import Rumsh.Client.Repaint
import Rumsh.Client.Graphemes
import Rumsh.Client.Shown
import Rumsh.Client.MainLoop
import Rumsh.Client.Keystrokes
import Rumsh.Server.Session
import Rumsh.Server.Network
import Rumsh.Server.Steps
import Rumsh.Server.Emits
import Rumsh.Server.TextTerminal
import Rumsh.Server.Pty
import Rumsh.Server.State
import Rumsh.Server.CellText
import Rumsh.Server.Compilation
import Rumsh.Server.OwedAcks
import Rumsh.Server.Panics
import Rumsh.Server.Delivery
import Rumsh.Server.Replay
import Rumsh.Server.Freshness
import Rumsh.Server.Intake
import Rumsh.Server.Updates
import Rumsh.Server.Due
import Rumsh.Server.Backlog
import Rumsh.Server.Resending
import Rumsh.Server.FrameRate
import Rumsh.System.Handshake
import Rumsh.System.Retransmission
import Rumsh.System.Link
import Rumsh.System.Screens
import Rumsh.System.Agreement
import Rumsh.System.Recovery
import Rumsh.System.FrameAcks
import Rumsh.System.World
import Rumsh.System.Inputs
import Rumsh.System.Catchup
import Rumsh.System.Farewell
import Rumsh.System.Progress
import Rumsh.System.Shown
import Rumsh.System.Connecting
import Rumsh.System.Programs
import Rumsh.System.Keystrokes
import Rumsh.System.Nonces
import Rumsh.Client.OnScreen
