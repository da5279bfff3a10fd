import Overlay.Reports
import Overlay.OwnPackets
import Overlay.OwnPath
import Overlay.Acceptance
import Overlay.Network
import Overlay.Requesters
import Overlay.SendTimes
import Overlay.Transport
import Overlay.LatestRequest
import Overlay.Duplicates
import Overlay.Losses
import Overlay.Counters
import Overlay.Framing
import Overlay.Merging
import Overlay.Names
import Overlay.FrameReads
import Overlay.UdpChecksums
import Overlay.Narrowing
import Overlay.Elapsed
import Overlay.RunLoop
import Overlay.PingChecksums
import Overlay.Arguments
import Overlay.Requests
import Overlay.Closing
import Overlay.Synchronization
import Overlay.Relays
import Overlay.CriticalSections
import Overlay.Negotiations
import Overlay.Transfers
import Overlay.Announcements
import Overlay.Sending
import Overlay.Startup
import Overlay.BestRoutes
import Overlay.AdvertisePasses
import Overlay.Answers
import Overlay.Texts
import Overlay.Streams
