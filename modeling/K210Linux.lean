import K210Linux.Headers
import K210Linux.Mm.Tables
import K210Linux.Lib.RefCount
import K210Linux.Mm.References
import K210Linux.Mm.Ledger
import K210Linux.Mm.Frames
import K210Linux.Mm.FreeTables
import K210Linux.Mm.CopyTables
import K210Linux.Mm.Mapping
import K210Linux.Mm.Allocation
import K210Linux.Mm.Runs
import K210Linux.Mm.WriteFault
import K210Linux.Kernel.Fork
import K210Linux.Kernel.ForkContract
import K210Linux.Kernel.UserAccess
import K210Linux.Kernel.Exit
import K210Linux.Kernel.UserFault
import K210Linux.Kernel.UserStore
import K210Linux.Kernel.UserCalls
import K210Linux.Kernel.UserContract
import K210Linux.Kernel.ExitContract
import K210Linux.Kernel.ExitRun
import K210Linux.Fs.Inode
import K210Linux.Fs.Pipe
import K210Linux.Lib.Chain
import K210Linux.Sched.Timer
import K210Linux.Sched.TimerList
import K210Linux.Sched.TimerRun
import K210Linux.Sched.Schedule
import K210Linux.Sched.WaitQueue
import K210Linux.Sched.Interruptible
import K210Linux.Sched.SleepOn
import K210Linux.Fs.FileCounts
import K210Linux.Fs.Bitmap
import K210Linux.Fs.InodeNumbers
import K210Linux.Fs.Zones
import K210Linux.Fs.BlockMap
import K210Linux.Fs.FileData
import K210Linux.Exec.Image
import K210Linux.Exec.PageLoad
import K210Linux.Exec.DemandLoad
import K210Linux.Exec.Packer
import K210Linux.Exec.Reach
import K210Linux.Fs.Directory
import K210Linux.Fs.DirectoryMap
import K210Linux.Fs.DirectoryRun
import K210Linux.Fs.Links
import K210Linux.Fs.LinkCounts
import K210Linux.Fs.LinkEntries
import K210Linux.Fs.LinkRun
import K210Linux.Fs.LinkCalls
import K210Linux.Blk.RequestQueue
import K210Linux.Fs.LinkHistory
import K210Linux.Kernel.Pids
import K210Linux.Lib.Run
import K210Linux.Chr.Cooked
import K210Linux.Chr.Line
import K210Linux.Chr.ReceiveRing
import K210Linux.Chr.Output
import K210Linux.Chr.OutputSteps
import K210Linux.Chr.LineCount
import K210Linux.Buffer.Cache
import K210Linux.Buffer.Queues
import K210Linux.Buffer.Tasks
import K210Linux.Buffer.Ramdisk
import K210Linux.Buffer.FlatDisk
import K210Linux.Buffer.Blocks
import K210Linux.Buffer.Session
import K210Linux.Buffer.Contents
import K210Linux.Buffer.Intact
import K210Linux.Buffer.ZoneMap
import K210Linux.Buffer.ZoneRun
import K210Linux.Kernel.Identity
import K210Linux.Kernel.SignalSets
import K210Linux.Kernel.SignalMasks
import K210Linux.Fs.Release
import K210Linux.Buffer.BlockDev
import K210Linux.Buffer.System
import K210Linux.Buffer.InodeRoom
import K210Linux.Buffer.GetblkReturns
import K210Linux.Buffer.Durability
import K210Linux.Buffer.Delivery
import K210Linux.Buffer.ReadBack
import K210Linux.Buffer.CalmCalls
import K210Linux.Buffer.BlockReturns
import K210Linux.Buffer.Confined
import K210Linux.Fs.OpenMode
import K210Linux.Fs.ReadWrite
import K210Linux.Kernel.UserReach
import K210Linux.Fs.DescriptorCalls
import K210Linux.Fs.Space
import K210Linux.Fs.AddEntry
import K210Linux.Buffer.InodeRecord
import K210Linux.Fs.PipeCall
import K210Linux.Fs.RemoveDir
import K210Linux.Fs.InodeCache
import K210Linux.Fs.ReadSuper
import K210Linux.Fs.PathWalk
import K210Linux.Fs.MountCall
import K210Linux.Kernel.ForkExit
import K210Linux.Exec.Segments
import K210Linux.Kernel.SharedPage
import K210Linux.Kernel.UserWindow
import K210Linux.Mm.PageRuns
import K210Linux.Kernel.VerifyRange
import K210Linux.Kernel.BulkCopy
import K210Linux.Mm.CopyExact
import K210Linux.Exec.Arguments
import K210Linux.Exec.Tables
import K210Linux.Exec.Execve
import K210Linux.Exec.NewProgram
import K210Linux.Fs.ZoneRoom
import K210Linux.Fs.FileLimits
import K210Linux.Kernel.KillCall
import K210Linux.Kernel.WaitSignals
import K210Linux.Sched.PickTask
import K210Linux.Sched.Alarm
import K210Linux.Kernel.SystemCall
import K210Linux.Kernel.SignalReturn
import K210Linux.Kernel.Dispatch
import K210Linux.Kernel.ForkCall
import K210Linux.Kernel.SignalFrame
import K210Linux.Fs.Volume
import K210Linux.Fs.VolumeCounts
import K210Linux.Exec.FlaggedCopy
import K210Linux.Exec.ExecCall
import K210Linux.Exec.FailedExec
import K210Linux.Blk.MakeRequest
import K210Linux.Blk.ReadsFirst
import K210Linux.Chr.LineEditor
import K210Linux.Chr.WriteSplits
import K210Linux.Kernel.Mktime
import K210Linux.Fs.Access
import K210Linux.Buffer.PoolLayout
import K210Linux.Fs.InodeTasks
import K210Linux.Fs.InodeUnique
import K210Linux.Buffer.Counts
import K210Linux.Fs.VolumeCalls
import K210Linux.Fs.VolumeReferences
import K210Linux.Fs.PathBalance
import K210Linux.Calls.System
import K210Linux.Calls.FileUsers
import K210Linux.Calls.Ledger
import K210Linux.Calls.ExecLedger
import K210Linux.Calls.SystemRun
import K210Linux.Kernel.Family
import K210Linux.Kernel.FamilyRun
import K210Linux.Lib.Trace
import K210Linux.Sched.Fairness
import K210Linux.Kernel.SwitchCode
import K210Linux.Kernel.ContextSwitch
import K210Linux.Kernel.SwitchThreads
import K210Linux.Kernel.SwitchRun
import K210Linux.Tools.SyscallTable
