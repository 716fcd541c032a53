import LinuxProgram.Machine.Reach
import LinuxProgram.Machine.Loop
import LinuxProgram.Machine.Threads
import LinuxProgram.Machine.Outline
import LinuxProgram.Machine.Tally
import LinuxProgram.Machine.Teardown
import LinuxProgram.Machine.Broadcasts
import LinuxProgram.Machine.Wakeups
import LinuxProgram.Machine.Solo
import LinuxProgram.Machine.Trylock
import LinuxProgram.Machine.Connections
import LinuxProgram.Machine.Ownership
import LinuxProgram.Data.Ring
import LinuxProgram.Data.Word
import LinuxProgram.Data.CStr
import LinuxProgram.Data.Memory
import LinuxProgram.Data.Text
import LinuxProgram.Data.Newlines
import LinuxProgram.Data.Percent
import LinuxProgram.Data.Scan
import LinuxProgram.Data.SlotTable
import LinuxProgram.Data.Chain
import LinuxProgram.Data.Descent
import LinuxProgram.Data.Fields
import LinuxProgram.Data.Varint
import LinuxProgram.Io.Stream
import LinuxProgram.Io.Syscall
import LinuxProgram.Io.Inbox
import LinuxProgram.Http.Message
import LinuxProgram.Tcp.Socket
import LinuxProgram.Tcp.Writen
import LinuxProgram.Tcp.Framing
import LinuxProgram.Tcp.Sending
import LinuxProgram.Tcp.Receiving
import LinuxProgram.Tcp.Block
import LinuxProgram.Tcp.Connect
import LinuxProgram.Threadpool.Code
import LinuxProgram.Threadpool.Locks
import LinuxProgram.Threadpool.Queue
import LinuxProgram.Threadpool.Books
import LinuxProgram.Threadpool.Account
import LinuxProgram.Threadpool.Wakeup
import LinuxProgram.Threadpool.Counters
import LinuxProgram.Threadpool.Slots
import LinuxProgram.Threadpool.Shutdown
import LinuxProgram.Threadpool.Teardown
import LinuxProgram.Threadpool.Result
import LinuxProgram.Threadpool.Growth
import LinuxProgram.Threadpool.Adjust
import LinuxProgram.Threadpool.Producers
import LinuxProgram.Simple.Code
import LinuxProgram.Simple.Locks
import LinuxProgram.Simple.Teardown
import LinuxProgram.Simple.Server
import LinuxProgram.Simple.Jobs
import LinuxProgram.Simple.Dispatch
import LinuxProgram.Simple.Astray
import LinuxProgram.Simple.Ring
import LinuxProgram.Simple.Execution
import LinuxProgram.Simple.Queue
import LinuxProgram.Simple.Wakeup
import LinuxProgram.ThreadSync.ProducerCustomer
import LinuxProgram.ThreadSync.Integrity
import LinuxProgram.ThreadSync.CondCustomer
import LinuxProgram.ThreadSync.Philosopher
import LinuxProgram.Reactor.Code
import LinuxProgram.Reactor.Slots
import LinuxProgram.Reactor.Capacity
import LinuxProgram.Reactor.Echo
import LinuxProgram.Libevent.Table
import LinuxProgram.EpollEt.Code
import LinuxProgram.EpollEt.Edges
import LinuxProgram.EpollEt.Progress
import LinuxProgram.Epoll.Loop
import LinuxProgram.Echo.Connection
import LinuxProgram.Echo.Level
import LinuxProgram.Echo.Threads
import LinuxProgram.Echo.Owners
import LinuxProgram.Echo.Serving
import LinuxProgram.Echo.Forgotten
import LinuxProgram.Bufferevent.Echo
import LinuxProgram.Poll.Code
import LinuxProgram.Poll.Table
import LinuxProgram.Poll.Reported
import LinuxProgram.Select.Server
import LinuxProgram.Shm.SecKeyShm
import LinuxProgram.Shm.Writers
import LinuxProgram.Shm.Attach
import LinuxProgram.Web.Pub
import LinuxProgram.Web.Libevent
import LinuxProgram.Web.Delimited
import LinuxProgram.Web.Epoll
import LinuxProgram.Web.Links
import LinuxProgram.Web.Segments
import LinuxProgram.Web.Decode
import LinuxProgram.Web.Encode
import LinuxProgram.Web.Root
import LinuxProgram.Web.GetLine
import LinuxProgram.Web.SendFile
import LinuxProgram.Web.RequestLine
import LinuxProgram.Web.Resolve
import LinuxProgram.Web.Serve
import LinuxProgram.Wrap.Readline
import LinuxProgram.Wrap.Lines
import LinuxProgram.Wrap.Transfer
import LinuxProgram.Wrap.Retry
import LinuxProgram.Protobuf.Runtime
import LinuxProgram.Protobuf.Reading
import LinuxProgram.Protobuf.Student
import LinuxProgram.Protobuf.AddressBook
import LinuxProgram.Protobuf.Reread
import LinuxProgram.Protobuf.Wire
import LinuxProgram.Protobuf.AddPerson
