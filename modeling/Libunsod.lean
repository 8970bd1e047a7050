import Libunsod.Udsock.UdSocket
import Libunsod.Netinet.TcpReassTimer
import Libunsod.Uinet.CalloutFire
import Libunsod.Udsock.Readiness
import Libunsod.Uinet.TxFrames
import Libunsod.Uinet.RxBatch
import Libunsod.Uinet.RxHandshake
import Libunsod.Libev.Pending
import Libunsod.Libev.Sts
import Libunsod.Vm.UmaDrain
import Libunsod.Uinet.IntrSched
import Libunsod.Net.VnetSts
import Libunsod.Uinet.Sleep
import Libunsod.Uinet.SleepEntries
import Libunsod.Netinet.PassiveOrder
import Libunsod.Netinet.TcpUsrSend
import Libunsod.Kern.PassiveRefs
import Libunsod.Netinet.Syncache
import Libunsod.Uinet.UioFill
import Libunsod.Netinet.InCopyFlow
import Libunsod.Netinet.SynFilter
import Libunsod.Uinet.ShutdownFair
import Libunsod.Kern.SbStream
import Libunsod.Kern.SoreceiveGeneric
import Libunsod.Netinet.TcpReassFin
import Libunsod.Uinet.PdInject
import Libunsod.Netinet.SynEntry
import Libunsod.Uinet.DpdkTransmit
import Libunsod.Uinet.IfCreate
import Libunsod.Uinet.TimerIntr
import Libunsod.Udsock.UdSockopt
import Libunsod.Uinet.ThreadHooks
import Libunsod.Uinet.KthreadAdd
import Libunsod.Netinet.SynLookup
import Libunsod.Uinet.RoundUp
import Libunsod.Uinet.MacAton
import Libunsod.Netinet.CopyQueue
