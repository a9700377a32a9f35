import Streamer.Lib.Machine
import Streamer.Client
import Streamer.Proofs.Sandbox
import Streamer.Proofs.Catalogue
import Streamer.Proofs.CutReplies
import Streamer.Proofs.CutRequests
import Streamer.Proofs.Shutdown
import Streamer.Proofs.SignalTarget
import Streamer.Proofs.OneClose
import Streamer.Proofs.Escapes
import Streamer.Proofs.SelfDeadlock
import Streamer.Proofs.Listing
import Streamer.Proofs.Containment
import Streamer.Proofs.Overrun
import Streamer.Proofs.FailedDownload
import Streamer.Proofs.RoundTrip
import Streamer.Proofs.NumericOptions
import Streamer.Proofs.DescriptorOwnership
import Streamer.Proofs.SocketLoops
import Streamer.Proofs.Fragmentation
import Streamer.Proofs.ServedClients
import Streamer.Proofs.LiveService
import Streamer.Proofs.StopProgress
import Streamer.Proofs.ReplyFraming
import Streamer.Proofs.CanonicalRequests
import Streamer.Proofs.ThreadLife
import Streamer.Proofs.LogFile
import Streamer.Proofs.ClientRequests
