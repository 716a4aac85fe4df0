import Iris.Cpu.Tlb.RoundTrip
import Iris.Cpu.Timer.Ticket
import Iris.Cpu.Exec.Fusion.Invisible
import Iris.Cpu.Exec.Restart
import Iris.Cpu.Exec.Random
import Iris.Net.Telnet
import Iris.Net.Portmap
import Iris.Net.NatUdp
import Iris.Net.Xdmcp
import Iris.Net.Checksum
import Iris.Net.Tcp.Probe
import Iris.Block.Crash
import Iris.Block.Restore
import Iris.Block.Discard
import Iris.Block.Lengths
import Iris.Gfifo.Broadcast
import Iris.Cpu.Cache.Linked
import Iris.Cpu.Cache.RoundTrip
import Iris.Scsi.Survives
import Iris.Hostcall.Completes
import Iris.Hostcall.Isolation
import Iris.Serial.Irq
import Iris.Cpu.Smp.Live
import Iris.Jit.Sealing
import Iris.Hptimer.Sleep
import Iris.Heart.Reach
import Iris.Nfs.Codec
import Iris.Nfs.Handles
import Iris.Scc.Line
import Iris.Ioc.Saved
import Iris.Rtc.Ds1x86
import Iris.Vnc.Session
