import Usb3FpgaCard.Clocked.Machine
import Usb3FpgaCard.Clocked.Wave
import Usb3FpgaCard.Clocked.Counting
import Usb3FpgaCard.Channels.ManyToOne
import Usb3FpgaCard.Channels.Exchange
import Usb3FpgaCard.Channels.Bounded
import Usb3FpgaCard.Channels.Records
import Usb3FpgaCard.Allocation.Blocks
import Usb3FpgaCard.Allocation.Links
import Usb3FpgaCard.Allocation.Copying
import Usb3FpgaCard.History.Past
import Usb3FpgaCard.History.Turns
import Usb3FpgaCard.History.Custody
import Usb3FpgaCard.Qt.Text
import Usb3FpgaCard.Qt.ComboBox
import Usb3FpgaCard.Fpga.Main
import Usb3FpgaCard.Fpga.Trace
import Usb3FpgaCard.Fpga.Phases
import Usb3FpgaCard.Fpga.Parser
import Usb3FpgaCard.Fpga.Fields
import Usb3FpgaCard.Fpga.Transmit
import Usb3FpgaCard.Fpga.Command
import Usb3FpgaCard.Fpga.Validity
import Usb3FpgaCard.Fpga.Bus
import Usb3FpgaCard.Host.Window
import Usb3FpgaCard.Fpga.Capture
import Usb3FpgaCard.Fpga.Strobes
import Usb3FpgaCard.Fpga.Answer
import Usb3FpgaCard.Fpga.Counters
import Usb3FpgaCard.Fpga.Ledger
import Usb3FpgaCard.Fpga.Server
import Usb3FpgaCard.Fpga.Sequence
import Usb3FpgaCard.Nios.Polling
import Usb3FpgaCard.Nios.JtagUart
import Usb3FpgaCard.Nios.Console
import Usb3FpgaCard.Nios.Terminal
import Usb3FpgaCard.Fx3.Channel
import Usb3FpgaCard.Fx3.Delivery
import Usb3FpgaCard.Fx3.Sockets
import Usb3FpgaCard.Fx3.Board
import Usb3FpgaCard.Fx3.Stuck
import Usb3FpgaCard.Fx3.Lifecycle
import Usb3FpgaCard.Fx3.Halt
import Usb3FpgaCard.Fx3.Restart
import Usb3FpgaCard.Fx3.Status
import Usb3FpgaCard.Fx3.MemBlocks
import Usb3FpgaCard.Fx3.Buffers
import Usb3FpgaCard.Fx3.BufferCalls
import Usb3FpgaCard.Fx3.BufferChecks
import Usb3FpgaCard.Fx3.BufferUsers
import Usb3FpgaCard.Fx3.DriverHeap
import Usb3FpgaCard.Fx3.MemOps
import Usb3FpgaCard.Host.TimeLabel
import Usb3FpgaCard.Host.Queue
import Usb3FpgaCard.Host.Report
import Usb3FpgaCard.Host.Schedule
import Usb3FpgaCard.Host.Command
import Usb3FpgaCard.Host.Plot
import Usb3FpgaCard.Host.Devices
import Usb3FpgaCard.Host.Endpoints
import Usb3FpgaCard.Host.Gui
import Usb3FpgaCard.Host.Boxes
import Usb3FpgaCard.Host.Pattern
import Usb3FpgaCard.Host.Link
import Usb3FpgaCard.Host.Memory
import Usb3FpgaCard.Host.RoundTrip
