import SplitDNS.Anscache.Lifetime
import SplitDNS.Anscache.Linked
import SplitDNS.CFAPI.Client
import SplitDNS.DDNS.Allowlist
import SplitDNS.DDNS.Audit
import SplitDNS.DDNS.Propagation
import SplitDNS.DDNS.Queue
import SplitDNS.DDNS.Simulate
import SplitDNS.Diag.Guesses
import SplitDNS.Diag.ReverseOrder
import SplitDNS.Diag.Shown
import SplitDNS.Encrypted.Reloader
import SplitDNS.Forwarder.FailOpen
import SplitDNS.Forwarder.Health
import SplitDNS.Forwarder.Window
import SplitDNS.Hostinfo
import SplitDNS.Loglimit.Tree
import SplitDNS.MDNS.Bounds
import SplitDNS.MDNS.Goodbye
import SplitDNS.MDNS.Publishing
import SplitDNS.MDNS.Replay
import SplitDNS.MDNS.Shown
import SplitDNS.MDNS.SingleFlight
import SplitDNS.Mirror.Current
import SplitDNS.Mirror.Fidelity
import SplitDNS.Mirror.Interior
import SplitDNS.Mirror.Publication
import SplitDNS.Mirror.Saves
import SplitDNS.Mirror.Serials
import SplitDNS.Mirror.Spelling
import SplitDNS.Netmatch.Cidrs
import SplitDNS.Notify
import SplitDNS.RateLimits
import SplitDNS.Resolver.Browse
import SplitDNS.Resolver.Confirmed
import SplitDNS.Resolver.Descendants
import SplitDNS.Resolver.Negative
import SplitDNS.Resolver.NilRecords
import SplitDNS.Resolver.ReverseZones
import SplitDNS.Server.Overlap
import SplitDNS.Server.Refinement
import SplitDNS.Server.Served
import SplitDNS.Server.Slots
import SplitDNS.Supervisor.Restarts
import SplitDNS.Supervisor.Stalls
import SplitDNS.Supervisor.Watchdog
import SplitDNS.Vhost
