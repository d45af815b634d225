import Microps.Wire
import Microps.Ip.Addr
import Microps.Ip.Input
import Microps.Ip.Pton
import Microps.Tcp.Segment
import Microps.Tcp.Pcb
import Microps.Tcp.Arrives
import Microps.Tcp.SeqSpace
import Microps.Tcp.Stack
import Microps.Tcp.ReceiveBuffer
import Microps.Tcp.Steps
import Microps.Tcp.Window
import Microps.Tcp.Demux
import Microps.Tcp.Sleep
import Microps.Tcp.Sending
import Microps.Tcp.Progress
import Microps.Tcp.Opener
import Microps.Tcp.Handshake
import Microps.Tcp.Peer
import Microps.Tcp.Calls
import Microps.Tcp.Pair
import Microps.Tcp.Receiving
import Microps.Tcp.Interrupt
