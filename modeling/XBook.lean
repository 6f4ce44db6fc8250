import XBook.Kernel.BlockBufferRuns
import XBook.Kernel.BlockErrors
import XBook.Kernel.IdeTransfer
import XBook.Kernel.IdeExact
import XBook.Kernel.ExitWait
import XBook.Kernel.Ioqueue
import XBook.Kernel.MutexExclusion
import XBook.Kernel.MutexProgress
import XBook.Kernel.ScheduleInvariant
import XBook.Kernel.SemaphoreSafety
import XBook.Mm.ForkFaithful
import XBook.Mm.ForkFailure
import XBook.Mm.MemcacheInvariant
import XBook.Mm.PhymemDisjoint
import XBook.Mm.VmspaceInvariant
import XBook.Kernel.ExitWaitInvariant
import XBook.Kernel.Preempt
import XBook.Kernel.PreemptInvariant
import XBook.Kernel.RequestServed
import XBook.Kernel.IoqueueProgress
import XBook.Fs.Pipe
import XBook.Fs.PipeEof
import XBook.Fs.PipeRead
import XBook.Kernel.SignalTasks
import XBook.Kernel.SignalInvariant
import XBook.Kernel.SignalSafe
import XBook.Kernel.Signal
import XBook.Kernel.SignalMask
import XBook.Kernel.SignalPause
import XBook.Kernel.SignalDisposition
import XBook.Kernel.SignalFrame
import XBook.Mm.PageOwners
import XBook.Mm.UnmapSafe
import XBook.Mm.ProcessMemory
import XBook.Mm.PagesAdded
import XBook.Mm.PagesReleased
import XBook.Mm.SpacesKept
import XBook.Mm.ImageLoaded
import XBook.Mm.NoStrayPages
import XBook.Mm.ExecFailure
import XBook.Mm.Vmarea
import XBook.Mm.VmareaRegions
import XBook.Mm.DirectMap
import XBook.Mm.Layout
import XBook.Fs.Layout
import XBook.Fs.Format
import XBook.Fs.DataArea
import XBook.Fs.BitmapLoad
import XBook.Fs.BitmapSync
import XBook.Fs.Descriptor
import XBook.Fs.DescriptorCounts
import XBook.Fs.DescriptorRuns
import XBook.Fs.DeviceFiles
import XBook.Fs.Fifo
import XBook.Fs.FifoEnds
import XBook.Fs.FifoInode
import XBook.Fs.FifoLifetime
import XBook.Kernel.SleepTimer
import XBook.Kernel.SleepTimerInvariant
import XBook.Kernel.TaskAssist
import XBook.Kernel.TaskAssistInvariant
import XBook.Kernel.TaskAssistServed
import XBook.Kernel.SystemClock
import XBook.Kernel.SystemClockInvariant
import XBook.Kernel.SystemClockRuns
import XBook.Kernel.Alarm
import XBook.Kernel.Timers
import XBook.Kernel.WorkQueue
import XBook.Kernel.WorkQueueInvariant
import XBook.Kernel.WorkQueueRuns
import XBook.Mm.MmapPlacement
import XBook.Mm.MunmapFrame
import XBook.Mm.TranslationFrame
import XBook.Kernel.Interrupt
import XBook.Kernel.InterruptLists
import XBook.Kernel.ElevatorOrder
import XBook.Fs.DirEntry
import XBook.Lib.CString
import XBook.Mm.ExecArguments
import XBook.Kernel.BitmapScan
import XBook.Mm.PageProtection
import XBook.Mm.HeapBreak
import XBook.Fs.DirInsert
import XBook.Fs.Rename
import XBook.Fs.FileCalls
import XBook.Fs.RemoveOpen
import XBook.Fs.DirReach
import XBook.Fs.RemoveDir
import XBook.Fs.DirCreate
import XBook.Fs.OpenCreate
import XBook.Fs.MakeNode
import XBook.Fs.PathHeap
import XBook.Fs.OpenFailure
import XBook.Fs.WashPath
import XBook.Fs.AbsPath
import XBook.Fs.InodeData
import XBook.Fs.BlockMap
import XBook.Fs.FileRead
import XBook.Fs.FileWrite
import XBook.Fs.FileContent
import XBook.Fs.InodeTable
import XBook.Fs.WriteGrowth
import XBook.Fs.OpenCopies
import XBook.Fs.PutBlock
import XBook.Fs.ReleaseData
import XBook.Fs.ReadStores
import XBook.Mm.KmallocFailure
import XBook.User.Malloc
import XBook.User.MallocFailure
import XBook.Drivers.Clock
import XBook.Drivers.Console
import XBook.Drivers.Keyboard
import XBook.Drivers.Rtl8139
import XBook.Fs.PathToName
import XBook.Net.Receive
import XBook.User.CmdParse
import XBook.User.ReadLine
import XBook.Fs.PipeStream
import XBook.Fs.DirectoryRuns
import XBook.Fs.DirStream
import XBook.Kernel.ScheduleOrder
import XBook.Drivers.Tty
import XBook.Drivers.TtyInvariant
import XBook.Net.Lan
import XBook.Mm.Isolation
import XBook.Fs.FileStoreRuns
