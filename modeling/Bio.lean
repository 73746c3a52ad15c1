import Bio.Lib.Machine
import Bio.Lib.Registry
import Bio.Lib.Ring
import Bio.Lib.Handoff
import Bio.Lib.Heap
import Bio.Lib.Progress
import Bio.Handle
import Bio.HandleRefinement
import Bio.Scheduler
import Bio.SchedulerInvariant
import Bio.SchedulerHistory
import Bio.SchedulerSignals
import Bio.SchedulerWait
import Bio.SchedulerMonitor
import Bio.SchedulerLoop
import Bio.SchedulerLocal
import Bio.Join
import Bio.Spscq
import Bio.SpscqInvariant
import Bio.Mailbox
import Bio.MailboxInvariant
import Bio.MailboxReceive
import Bio.Service
import Bio.ServiceCall
import Bio.ServiceInvariant
import Bio.ServiceStart
import Bio.ServiceStartInvariant
import Bio.Logging
import Bio.LoggingService
import Bio.LoggingInvariant
import Bio.LoggingDelivery
import Bio.LoggingRemoval
import Bio.LoggingShutdown
import Bio.ThreadPool
import Bio.Async
import Bio.AsyncInvariant
import Bio.ThreadPoolShutdown
import Bio.ThreadPoolShutdownInvariant
import Bio.ThreadPoolRelease
import Bio.LoopRound
import Bio.LinuxNotify
import Bio.LinuxNotifyInvariant
import Bio.LinuxRing
import Bio.LinuxIo
import Bio.LinuxIoInvariant
import Bio.LinuxStorage
import Bio.TimerHeap
import Bio.Timer
import Bio.TimerInvariant
import Bio.TimerLifecycle
import Bio.TimerArmed
import Bio.Buffer
import Bio.BufferFlush
import Bio.SharedBuffer
import Bio.BufferRead
import Bio.Lib.Cursor
import Bio.File
import Bio.FileMode
import Bio.FreebsdNet
import Bio.FreebsdNetInvariant
import Bio.FreebsdNetClose
import Bio.FreebsdNetDescriptor
import Bio.FreebsdFile
import Bio.FreebsdFileOwnership
import Bio.FreebsdFilePosition
import Bio.Exit
import Bio.ExitInvariant
import Bio.Lib.Table
import Bio.Wrap
import Bio.LogPath
import Bio.Lib.Least
import Bio.AsyncStall
import Bio.FreebsdNetEvents
import Bio.Lib.Links
import Bio.WindowsPipe
import Bio.WindowsPipeInvariant
import Bio.Cls
import Bio.ClsInvariant
import Bio.HandleFreeList
import Bio.GrowArray
import Bio.IntrusiveList
import Bio.Lib.Ownership
import Bio.Lib.Wakeup
import Bio.Notify
import Bio.NotifyInvariant
import Bio.BufferStream
import Bio.NetAddress
import Bio.LinuxNet
import Bio.LinuxNetInvariant
import Bio.ServiceWait
import Bio.LoopSleep
import Bio.SchedulerPass
import Bio.FreebsdKqueue
import Bio.WindowsIo
import Bio.WindowsIoInvariant
import Bio.WindowsIoPosition
import Bio.Winsock
import Bio.WinsockInvariant
