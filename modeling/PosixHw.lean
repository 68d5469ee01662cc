import PosixHw.Base.Run
import PosixHw.Base.Lists
import PosixHw.Base.Ring
import PosixHw.Base.Monitor
import PosixHw.Base.Socket
import PosixHw.Base.FileSystem
import PosixHw.Base.CString
import PosixHw.Base.Scanf
import PosixHw.Base.Descriptors
import PosixHw.QueueServer.Basic
import PosixHw.QueueServer.Fifo
import PosixHw.QueueServer.Wakeup
import PosixHw.PoolServer.Basic
import PosixHw.PoolServer.Slots
import PosixHw.PoolServer.Exclusive
import PosixHw.PoolServer.Progress
import PosixHw.FileManager.Basic
import PosixHw.FileManager.Listing
import PosixHw.FileManager.Panels
import PosixHw.Base.Strtok
import PosixHw.Shell.Parse
import PosixHw.Shell.Grammar
import PosixHw.Shell.Process
import PosixHw.Shell.Protocol
import PosixHw.AddressBook.Menu
import PosixHw.AddressBook.Array
import PosixHw.AddressBook.Directory
import PosixHw.AddressBook.Refinement
import PosixHw.AddressBook.Heap
import PosixHw.AddressBook.Bag
import PosixHw.AddressBook.HeapRefinement
import PosixHw.AddressBook.Agreement
import PosixHw.AddressBook.Overrun
import PosixHw.Base.MessageQueue
import PosixHw.MessageQueue.Posix
import PosixHw.Base.Mutex
import PosixHw.MessageQueue.SystemV
import PosixHw.StoreSim.Basic
import PosixHw.StoreSim.Conservation
import PosixHw.StoreSim.Loader
import PosixHw.Multiproto.Abandoned
import PosixHw.Multiproto.Silent
import PosixHw.Base.Packet
import PosixHw.RawClients.Basic
import PosixHw.RawClients.Uninitialised
import PosixHw.RawClients.Verify
import PosixHw.Base.Heap
import PosixHw.ThreadServer.Basic
import PosixHw.ThreadServer.Owners
import PosixHw.ThreadServer.Dead
import PosixHw.Receivers.Loops
import PosixHw.Base.Lines
import PosixHw.SimpleShell.Parse
import PosixHw.SimpleShell.Commands
import PosixHw.Shell.Defined
import PosixHw.SimpleShell.Reading
import PosixHw.SimpleShell.Process
import PosixHw.Base.Progress
import PosixHw.Calculator.Basic
import PosixHw.AddressBook.Progress
import PosixHw.Calculator.Progress
import PosixHw.FileManager.Cursor
import PosixHw.Base.Flat
import PosixHw.FileManager.Capacity
import PosixHw.FileManager.Represents
import PosixHw.Base.Trace
import PosixHw.RawClients.ByteOrder
import PosixHw.Sniffer.Basic
import PosixHw.Sniffer.Bounds
import PosixHw.Sniffer.Payload
import PosixHw.EditServers.Basic
import PosixHw.FileManager.Columns
import PosixHw.FileManager.Records
import PosixHw.Receivers.Echo
import PosixHw.Shell.Stages
import PosixHw.Shell.Whole
import PosixHw.Shell.Traced
import PosixHw.Shell.Arguments
import PosixHw.SimpleShell.Traced
import PosixHw.SimpleShell.Arguments
import PosixHw.Shell.Blank
import PosixHw.SimpleShell.Blank
import PosixHw.Base.Occurrence
import PosixHw.Substring.Search
import PosixHw.Substring.Program
import PosixHw.Counter.Basic
import PosixHw.Counter.Progress
import PosixHw.Base.Numeral
import PosixHw.ByteOps.Binary
import PosixHw.Base.Storage
import PosixHw.ByteOps.ThirdByte
import PosixHw.Base.Rings
import PosixHw.Spiral.Basic
import PosixHw.Base.Fork
import PosixHw.Base.Notifier
import PosixHw.Processes.Basic
import PosixHw.Signal.Basic
import PosixHw.Signal.Blocked
import PosixHw.Signal.Notified
import PosixHw.RawClients.Sniffed
import PosixHw.Base.Crowd
import PosixHw.Base.Decimal
import PosixHw.Base.Leads
import PosixHw.Calculator.Sessions
import PosixHw.EditServers.Exchange
import PosixHw.Multiproto.Answers
import PosixHw.Receivers.Clients
import PosixHw.StoreSim.Probing
import PosixHw.StoreSim.Progress
import PosixHw.Base.Exits
import PosixHw.Base.Pipe
import PosixHw.Hello.Basic
import PosixHw.Pipes.Child
import PosixHw.Pipes.Fifo
import PosixHw.QueueServer.Drain
import PosixHw.PoolServer.Drain
import PosixHw.ThreadServer.Drain
import PosixHw.Multiproto.Clients
import PosixHw.Receivers.Senders
import PosixHw.Arrays.Fill
import PosixHw.Arrays.Numbers
import PosixHw.Password.Basic
import PosixHw.PrintIndex.Basic
