import LocalSend.Http.Proof.Segments
import LocalSend.Lib.Ordered
import LocalSend.Lib.Sieve
import LocalSend.Lib.Run
import LocalSend.Lib.Crash
import LocalSend.Lib.Cooldown
import LocalSend.Qt.Ascii
import LocalSend.Qt.Arg
import LocalSend.Qt.Url
import LocalSend.Qt.Surrogates
import LocalSend.Core.DeviceInfo
import LocalSend.Core.RateLimiter
import LocalSend.Core.Proof.RateLimiter
import LocalSend.Core.Proof.Backoff
import LocalSend.Core.Settings
import LocalSend.Core.Proof.SettingsPage
import LocalSend.Core.Proof.Sanitize
import LocalSend.Core.Proof.Payload
import LocalSend.Models.Transfer
import LocalSend.Models.Devices
import LocalSend.Models.Proof.Devices
import LocalSend.Models.Proof.Progress
import LocalSend.Lib.Coalesce
import LocalSend.Models.Proof.Repaint
import LocalSend.Models.Proof.Addressable
import LocalSend.Models.History
import LocalSend.Http.Server
import LocalSend.Receive.World
import LocalSend.Receive.Service
import LocalSend.Http.Proof.Moves
import LocalSend.Http.Proof.Rule
import LocalSend.Receive.Log
import LocalSend.Receive.Run
import LocalSend.Receive.Proof.Steps
import LocalSend.Receive.Proof.Explained
import LocalSend.Receive.Proof.Authority
import LocalSend.Receive.Proof.Names
import LocalSend.Receive.Proof.Rows
import LocalSend.Receive.Proof.Listening
import LocalSend.Receive.Proof.Answered
import LocalSend.Receive.Proof.Alone
import LocalSend.Receive.Proof.Strangers
import LocalSend.Receive.Proof.Lifecycle
import LocalSend.Receive.Proof.Buffers
import LocalSend.Receive.Proof.Disk
import LocalSend.Receive.Proof.Folder
import LocalSend.Receive.Proof.Totals
import LocalSend.Receive.Proof.Accept
import LocalSend.Receive.Proof.Routed
import LocalSend.Receive.Proof.Barred
import LocalSend.Receive.Proof.Underway
import LocalSend.Receive.Proof.Agreed
import LocalSend.Receive.Proof.Files
import LocalSend.Store.Launches
import LocalSend.Store.Proof.Aside
import LocalSend.Store.Proof.Known
import LocalSend.Store.Proof.Trust
import LocalSend.Store.Proof.Vault
import LocalSend.Store.Proof.Identity
import LocalSend.Store.Proof.Crashes
import LocalSend.Store.Proof.Hidden
import LocalSend.Send.Run
import LocalSend.Send.Proof.Emits
import LocalSend.Send.Proof.Endpoints
import LocalSend.Send.Proof.Frames
import LocalSend.Send.Proof.Blocked
import LocalSend.Send.Proof.Pinned
import LocalSend.Send.Proof.Uploads
import LocalSend.Send.Proof.Phases
import LocalSend.Send.Proof.March
import LocalSend.Send.Proof.Turns
import LocalSend.Send.Proof.Closed
import LocalSend.Send.Proof.InTurn
import LocalSend.Send.Proof.Unswept
import LocalSend.Send.Proof.Sweep
import LocalSend.Send.Proof.Listed
import LocalSend.Send.Proof.Spelled
import LocalSend.Send.Proof.Vouched
import LocalSend.Send.Proof.Reflect
import LocalSend.Send.TlsClient
import LocalSend.App.Run
import LocalSend.App.Proof.Owner
import LocalSend.Http.Proof.Sockets
import LocalSend.Http.Proof.Exchange
import LocalSend.Http.Proof.Once
import LocalSend.Http.Proof.Timers
import LocalSend.Http.Proof.HeadLimit
import LocalSend.Http.Framing
import LocalSend.Http.Proof.Framing
import LocalSend.Http.Proof.Tracked
import LocalSend.Http.Proof.Framed
import LocalSend.Send.Proof.Stopped
import LocalSend.Lib.Gather
import LocalSend.Http.Proof.Headers
import LocalSend.Http.Proof.Response
import LocalSend.Receive.Proof.Stored
import LocalSend.Receive.Proof.Titles
import LocalSend.Receive.Proof.Filed
import LocalSend.Receive.Proof.Sessions
import LocalSend.Send.Proof.Shipments
import LocalSend.Send.Proof.Books
import LocalSend.Link.Request
import LocalSend.Link.Pair
import LocalSend.Link.Proof.Hearing
import LocalSend.Link.Proof.Agreement
import LocalSend.Link.Proof.Done
import LocalSend.Send.Proof.Afresh
import LocalSend.Receive.Proof.Brought
import LocalSend.Link.Proof.Once
import LocalSend.Link.Lan
import LocalSend.Send.Proof.Search
import LocalSend.Link.Proof.Traffic
import LocalSend.Link.Proof.Settling
import LocalSend.Link.Proof.Genuine
import LocalSend.Link.Proof.Newcomer
import LocalSend.Receive.Proof.Preserved
import LocalSend.Receive.Proof.Steady
import LocalSend.Receive.Proof.Timed
import LocalSend.Core.Proof.Guessing
import LocalSend.Receive.Proof.Pin
import LocalSend.Lib.Backed
import LocalSend.Store.History
import LocalSend.Store.Proof.History
