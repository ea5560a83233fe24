import LanMouse.Service.Delivery
import LanMouse.Transport.Session
import LanMouse.Listen.Disconnects
import LanMouse.Listen.Registry
import LanMouse.Connect.Dedup
import LanMouse.Connect.Forwarder
import LanMouse.Connect.Ownership
import LanMouse.Connect.Sessions
import LanMouse.Capture.HeldKeys
import LanMouse.Transport.BodyLength
import LanMouse.Config.Saved
import LanMouse.Sync.Reinject
import LanMouse.Sync.Repeats
import LanMouse.Transport.Memory
import LanMouse.Connect.Backoff
import LanMouse.Connect.DialAny
import LanMouse.Connect.Watchdog
import LanMouse.Capture.GivenBack
import LanMouse.Clipboard.Account
import LanMouse.Clipboard.Superseded
import LanMouse.Files.Verified
import LanMouse.Emulation.Lifetime
import LanMouse.Service.Resolver
import LanMouse.Service.Incoming
import LanMouse.Ipc.Broadcast
import LanMouse.Capture.Windows
import LanMouse.Capture.MacOS
import LanMouse.Proto.Entries
import LanMouse.Capture.Barriers
import LanMouse.Clipboard.Collect
import LanMouse.Transport.Recovery
import LanMouse.Transport.Hello
import LanMouse.Transport.Fetch
