import TermOS.Lib.Trace
import TermOS.Lib.PackedBits
import TermOS.Lib.Ring
import TermOS.Lib.WordStack
import TermOS.Lib.Records
import TermOS.Lib.SlotGraph
import TermOS.Lib.BoundedQueue
import TermOS.Lib.TextGrid
import TermOS.Lib.TextScreen
import TermOS.Lib.CString
import TermOS.Lib.ByteMemory
import TermOS.Lib.PageWalk
import TermOS.Lib.BlockStores
import TermOS.Lib.LinkedBlocks
import TermOS.Lib.Numeral
import TermOS.Lib.Delimited
import TermOS.Lib.Prefixes
import TermOS.Ref.Pmm
import TermOS.Ref.Task
import TermOS.Ref.TaskSteps
import TermOS.Ref.Cpu
import TermOS.Ref.Stubs
import TermOS.Ref.Idt
import TermOS.Ref.Syscall
import TermOS.Ref.Gdt
import TermOS.Ref.Paging
import TermOS.Ref.BootInfo
import TermOS.Ref.E820
import TermOS.Ref.Framebuffer
import TermOS.Ref.Kboot
import TermOS.Ref.Board
import TermOS.Ref.Disk
import TermOS.Ref.Fat32
import TermOS.Ref.Iostream
import TermOS.Ref.PrintUint
import TermOS.Ref.Keyboard
import TermOS.Ref.Terminal
import TermOS.Ref.TerminalAccess
import TermOS.Ref.Scrollback
import TermOS.Ref.LineInput
import TermOS.Ref.KeyInput
import TermOS.Ref.LineStores
import TermOS.Ref.Editor
import TermOS.Ref.Fat32Text
import TermOS.Ref.Fat32Access
import TermOS.Ref.Fat32Writes
import TermOS.Ref.Fat32Path
import TermOS.Ref.Fat32Cd
import TermOS.Ref.Fat32Buffers
import TermOS.Ref.Ata
import TermOS.Ref.AtaBus
import TermOS.Ref.Pic
import TermOS.Ref.Shell
import TermOS.Ref.ShellHistory
import TermOS.Ref.ShellCalls
import TermOS.Ref.LiveShell
import TermOS.Ref.Startup
import TermOS.Proofs.PmmRefine
import TermOS.Proofs.PmmAccount
import TermOS.Proofs.PmmHandout
import TermOS.Proofs.PmmLocks
import TermOS.Proofs.TaskRing
import TermOS.Proofs.TaskRunning
import TermOS.Proofs.TaskExhaustion
import TermOS.Proofs.RoundRobin
import TermOS.Proofs.TaskMachine
import TermOS.Proofs.TaskZombie
import TermOS.Proofs.TaskWaiting
import TermOS.Proofs.SavedContext
import TermOS.Proofs.ContextSwitch
import TermOS.Proofs.FirstSwitch
import TermOS.Proofs.Transparency
import TermOS.Proofs.Syscall
import TermOS.Proofs.GenericFrame
import TermOS.Proofs.Acknowledge
import TermOS.Proofs.Sectors
import TermOS.Proofs.Names
import TermOS.Proofs.Volume
import TermOS.Proofs.DiskVolume
import TermOS.Proofs.FatOps
import TermOS.Proofs.Paths
import TermOS.Proofs.FatTree
import TermOS.Proofs.Lookup
import TermOS.Proofs.Mkdir
import TermOS.Proofs.FatPath
import TermOS.Proofs.FatLeak
import TermOS.Proofs.RootCluster
import TermOS.Proofs.Directory
import TermOS.Proofs.DirectoryRuns
import TermOS.Proofs.FatCopies
import TermOS.Proofs.PowerLoss
import TermOS.Proofs.PrintUint
import TermOS.Proofs.PrintInt
import TermOS.Proofs.KeyboardFifo
import TermOS.Proofs.ShiftKeys
import TermOS.Proofs.Screen
import TermOS.Proofs.Colors
import TermOS.Proofs.CursorBounds
import TermOS.Proofs.Scrollback
import TermOS.Proofs.LineEditing
import TermOS.Proofs.KeyInput
import TermOS.Proofs.LiveShell
import TermOS.Proofs.LineBounds
import TermOS.Proofs.EditorBounds
import TermOS.Proofs.EditorScreen
import TermOS.Proofs.Startup
import TermOS.Proofs.Recall
import TermOS.Proofs.HistoryLists
import TermOS.Proofs.NullArgument
import TermOS.Proofs.Session
import TermOS.Proofs.ShellHistory
import TermOS.Proofs.ShortNames
import TermOS.Proofs.Chains
import TermOS.Proofs.Drive
import TermOS.Proofs.FreeCluster
import TermOS.Proofs.FatLayout
import TermOS.Proofs.Paging
import TermOS.Proofs.BootSector
import TermOS.Proofs.E820
import TermOS.Proofs.FramebufferBounds
import TermOS.Proofs.FramebufferScroll
import TermOS.Proofs.FramebufferText
import TermOS.Proofs.Kboot
import TermOS.Proofs.KbootReport
import TermOS.Proofs.PathBuffers
import TermOS.Proofs.PathLength
import TermOS.Proofs.CdLoop
import TermOS.Proofs.CdCompose
import TermOS.Proofs.FailedReads
import TermOS.Proofs.Lba28
import TermOS.Proofs.AtaBus
import TermOS.Proofs.AtaDiscovery
import TermOS.Proofs.AtaVolumes
import TermOS.Proofs.Pic
