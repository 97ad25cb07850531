import GlobalComponents.BPMPServer.Call
import GlobalComponents.BPMPServer.Clients
import GlobalComponents.BenchUtiliz.Cycles
import GlobalComponents.BenchUtiliz.Handler
import GlobalComponents.ClockServer.Access
import GlobalComponents.ClockServer.Clock
import GlobalComponents.Ethdriver.Conservation
import GlobalComponents.Ethdriver.Delivery
import GlobalComponents.Ethdriver.Driver
import GlobalComponents.Ethdriver.Filter
import GlobalComponents.Ethdriver.Integrity
import GlobalComponents.Ethdriver.Receive
import GlobalComponents.Ethdriver.Transmit
import GlobalComponents.Ethdriver.Wakeup
import GlobalComponents.EthernetAsync.Link
import GlobalComponents.EthernetAsync.Mapper
import GlobalComponents.EthernetAsync.Receive
import GlobalComponents.EthernetAsync.Refill
import GlobalComponents.EthernetAsync.Stranded
import GlobalComponents.EthernetAsync.Transmit
import GlobalComponents.FileServer.Client
import GlobalComponents.FileServer.Errors
import GlobalComponents.FileServer.Interleaving
import GlobalComponents.FileServer.Isolation
import GlobalComponents.FileServer.Reads
import GlobalComponents.FileServer.Server
import GlobalComponents.GPIOMUXServer.Directions
import GlobalComponents.GPIOMUXServer.Gpio
import GlobalComponents.GPIOMUXServer.Owners
import GlobalComponents.GPIOMUXServer.Reservations
import GlobalComponents.Library.Chain
import GlobalComponents.Library.Dictionary
import GlobalComponents.Library.Except
import GlobalComponents.Library.FirstCome
import GlobalComponents.Library.Loop
import GlobalComponents.Library.Offers
import GlobalComponents.Library.Probing
import GlobalComponents.Library.Program
import GlobalComponents.Library.Projection
import GlobalComponents.Library.Refinement
import GlobalComponents.Library.Ring
import GlobalComponents.Library.Run
import GlobalComponents.Library.Serving
import GlobalComponents.Library.Slots
import GlobalComponents.Library.Unwinding
import GlobalComponents.Library.Window
import GlobalComponents.PCIConfigIO.Config
import GlobalComponents.PicoServer.Agreement
import GlobalComponents.PicoServer.Aside
import GlobalComponents.PicoServer.Books
import GlobalComponents.PicoServer.Calls
import GlobalComponents.PicoServer.Client
import GlobalComponents.PicoServer.Completion
import GlobalComponents.PicoServer.Crowding
import GlobalComponents.PicoServer.Custody
import GlobalComponents.PicoServer.Deliveries
import GlobalComponents.PicoServer.Dictionary
import GlobalComponents.PicoServer.Effects
import GlobalComponents.PicoServer.EventPoll
import GlobalComponents.PicoServer.Faults
import GlobalComponents.PicoServer.Frame
import GlobalComponents.PicoServer.Growth
import GlobalComponents.PicoServer.Identity
import GlobalComponents.PicoServer.Ids
import GlobalComponents.PicoServer.Interference
import GlobalComponents.PicoServer.Khash
import GlobalComponents.PicoServer.Lengths
import GlobalComponents.PicoServer.Loops
import GlobalComponents.PicoServer.Messages
import GlobalComponents.PicoServer.Ordered
import GlobalComponents.PicoServer.Ownership
import GlobalComponents.PicoServer.Paths
import GlobalComponents.PicoServer.Pending
import GlobalComponents.PicoServer.Progress
import GlobalComponents.PicoServer.Rehash
import GlobalComponents.PicoServer.Reuse
import GlobalComponents.PicoServer.Search
import GlobalComponents.PicoServer.Server
import GlobalComponents.PicoServer.Signals
import GlobalComponents.PicoServer.Stalled
import GlobalComponents.PicoServer.Steps
import GlobalComponents.PicoServer.Table
import GlobalComponents.PicoServer.Tables
import GlobalComponents.PicoServer.Turns
import GlobalComponents.PicoServer.Windows
import GlobalComponents.PicoServer.Wire
import GlobalComponents.SerialServer.Batches
import GlobalComponents.SerialServer.Bitmask
import GlobalComponents.SerialServer.Colours
import GlobalComponents.SerialServer.Display
import GlobalComponents.SerialServer.Fifo
import GlobalComponents.SerialServer.Getchar
import GlobalComponents.SerialServer.Heartbeat
import GlobalComponents.SerialServer.History
import GlobalComponents.SerialServer.Levels
import GlobalComponents.SerialServer.Overflow
import GlobalComponents.SerialServer.Requests
import GlobalComponents.SerialServer.Routing
import GlobalComponents.SerialServer.Server
import GlobalComponents.SerialServer.SharedRing
import GlobalComponents.SerialServer.Streams
import GlobalComponents.SerialServer.TypedInput
import GlobalComponents.SerialServer.Virtqueue
import GlobalComponents.SingleThreadedComponent.Dispatch
import GlobalComponents.SingleThreadedComponent.Run
import GlobalComponents.TimeServer.Isolation
import GlobalComponents.TimeServer.Reports
import GlobalComponents.TimeServer.Server
