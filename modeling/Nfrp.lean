import Nfrp.Kcp.SendWindow
import Nfrp.Kcp.Held
import Nfrp.Kcp.Limits
import Nfrp.Kcp.Delivery
import Nfrp.Kcp.Listener
import Nfrp.Ws.Pipe
import Nfrp.Vnet.Isolation
import Nfrp.Server.NatHoleAnswers
import Nfrp.Server.DataPlane
import Nfrp.Client.Restart
import Nfrp.Server.Rotation
import Nfrp.Client.SourceAddress
import Nfrp.Proxy.Faithful
import Nfrp.Server.Preauth
import Nfrp.Server.PluginGates
import Nfrp.P2p.Agreement
import Nfrp.P2p.Codec
import Nfrp.Udp.SudpRelay
import Nfrp.Udp.Session
import Nfrp.Server.Knock
import Nfrp.Wire.Segments
import Nfrp.Client.Login
import Nfrp.Client.HttpProxy
import Nfrp.Wire.Take
import Nfrp.Wire.CipherStream
import Nfrp.Wire.Records
import Nfrp.Server.Panel
import Nfrp.Server.HttpForward
import Nfrp.Server.HttpRelay
import Nfrp.Client.Bridge
import Nfrp.Nlink.OneTime
import Nfrp.Server.Resumable
import Nfrp.Server.Listeners
import Nfrp.Server.Gauge
import Nfrp.Server.Signature
import Nfrp.Server.Reconcile
import Nfrp.Server.Pairing
import Nfrp.Server.Wakeup
import Nfrp.Server.Permits
import Nfrp.Server.Accepted
import Nfrp.Server.Kinds
import Nfrp.Udp.Codec
import Nfrp.Server.Audit
import Nfrp.Udp.Visitors
import Nfrp.Kcp.FastAck
import Nfrp.Kcp.Atomic
import Nfrp.Kcp.Timing
import Nfrp.Vnet.Addresses
import Nfrp.Vnet.Echo
import Nfrp.Client.Glob
import Nfrp.Server.WireNames
import Nfrp.Nlink.RateLimit
import Nfrp.Client.Throttle
import Nfrp.Server.Watchdog
import Nfrp.Server.Balance
import Nfrp.Udp.Keys
import Nfrp.Server.ClientHello
import Nfrp.Client.Dns
import Nfrp.Client.ProxySniff
import Nfrp.Server.FoldedLog
import Nfrp.Proxy.Chunks
import Nfrp.Server.Listing
import Nfrp.Client.NetProxy
import Nfrp.Server.Acl
import Nfrp.Server.Reported
import Nfrp.Client.Health
import Nfrp.Server.LogFile
