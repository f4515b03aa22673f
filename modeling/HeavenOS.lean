import HeavenOS.Arch.Tables
import HeavenOS.Drivers.Apic
import HeavenOS.Drivers.FbClip
import HeavenOS.Kernel.ConsoleRun
import HeavenOS.Kernel.Memmap
import HeavenOS.Kernel.PrintkNumerals
import HeavenOS.Kernel.PrintkOutput
import HeavenOS.Kernel.Report
import HeavenOS.Mm.AreaLists
import HeavenOS.Mm.FrameAllocChecks
import HeavenOS.Mm.FramesAlloc
import HeavenOS.Mm.FramesRefine
import HeavenOS.Mm.ObjNull
import HeavenOS.Mm.PageFault
import HeavenOS.Mm.VmemDestroy
import HeavenOS.Mm.ZoneBitmaps
import HeavenOS.Sched.Children
import HeavenOS.Sched.Contexts
import HeavenOS.Sched.Idle
import HeavenOS.Sched.SetupVmem
import HeavenOS.Sched.Wakeup
import HeavenOS.Sched.Fork
import HeavenOS.Sched.ForkCall
import HeavenOS.Sched.FrameLedger
import HeavenOS.Sched.TimeSlice
import HeavenOS.Sched.Isolation
import HeavenOS.Sched.RoundRobin
import HeavenOS.Sched.WaitStatus
import HeavenOS.Utils.ListFamily
