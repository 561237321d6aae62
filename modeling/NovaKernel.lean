import NovaKernel.Lib.Transition
import NovaKernel.Lib.FirstFit
import NovaKernel.Lib.Loops
import NovaKernel.Lib.Checked
import NovaKernel.Lib.Linked
import NovaKernel.Lib.Arena
import NovaKernel.Mm
import NovaKernel.Mmu
import NovaKernel.Paging
import NovaKernel.PagingSpec
import NovaKernel.PagingEffect
import NovaKernel.PagingPages
import NovaKernel.AddrSpaces
import NovaKernel.AddrSpacesSteps
import NovaKernel.AddrSpacesPages
import NovaKernel.AddrSpacesOps
import NovaKernel.FirstFrames
import NovaKernel.AddrSpacesSystem
import NovaKernel.Observations
import NovaKernel.Isolation
import NovaKernel.LowFrames
import NovaKernel.FrameAccounting
import NovaKernel.IdentityAccess
import NovaKernel.CopyOnWrite
import NovaKernel.User
import NovaKernel.UserLoad
import NovaKernel.LoaderSafety
import NovaKernel.Kheap
import NovaKernel.KheapPartition
import NovaKernel.Lib.RoundRobin
import NovaKernel.KernelMemory
import NovaKernel.Sched
import NovaKernel.Isr
import NovaKernel.KernelSystem
import NovaKernel.SchedSpec
import NovaKernel.IsrSpec
import NovaKernel.SchedTable
import NovaKernel.Boot
import NovaKernel.TaskMemory
import NovaKernel.TaskMemorySteps
import NovaKernel.Dispatching
import NovaKernel.Ticks
import NovaKernel.Overtaking
import NovaKernel.ProcessRuns
import NovaKernel.SavedFrames
import NovaKernel.Lib.Custody
import NovaKernel.TaskSpaces
import NovaKernel.SpaceRuns
import NovaKernel.RunningProcess
import NovaKernel.ProcessFrames
import NovaKernel.UserFaults
import NovaKernel.TimeSlices
import NovaKernel.SpaceSwitches
import NovaKernel.Ata
import NovaKernel.Fat
import NovaKernel.FatEntry
import NovaKernel.FatTable
import NovaKernel.FatAccess
import NovaKernel.FatView
import NovaKernel.FatSpec
import NovaKernel.FatAlloc
import NovaKernel.FatChains
import NovaKernel.FatStream
import NovaKernel.FatContents
import NovaKernel.FatDir
import NovaKernel.FatSlots
import NovaKernel.FatLayout
import NovaKernel.FatStored
import NovaKernel.FatStore
import NovaKernel.FatWrite
import NovaKernel.FatDelete
import NovaKernel.FatSpace
import NovaKernel.Floppy
import NovaKernel.FatMap
import NovaKernel.FatFull
import NovaKernel.OpenFiles
import NovaKernel.OpenFileSpec
import NovaKernel.ByteFile
import NovaKernel.Session
import NovaKernel.SessionFile
import NovaKernel.SessionClose
import NovaKernel.Vga
import NovaKernel.Terminal
import NovaKernel.Gfx
import NovaKernel.Mouse
import NovaKernel.Gui
import NovaKernel.GuiWindows
import NovaKernel.GuiFrame
import NovaKernel.GuiFocus
import NovaKernel.FatPacking
import NovaKernel.FatErase
import NovaKernel.FatContained
import NovaKernel.FatReading
import NovaKernel.FatComplete
import NovaKernel.GuiTop
import NovaKernel.GuiDrag
import NovaKernel.FatList
import NovaKernel.FatScans
import NovaKernel.Mkdata
import NovaKernel.FatNames
import NovaKernel.KheapReuse
import NovaKernel.UserImage
import NovaKernel.Lib.Circular
import NovaKernel.Keyboard
import NovaKernel.KeyboardQueue
import NovaKernel.Pic
import NovaKernel.BootSector
import NovaKernel.Printf
import NovaKernel.PrintfBounds
import NovaKernel.PrintfFields
import NovaKernel.KheapFit
import NovaKernel.TaskList
import NovaKernel.RestoredSpaces
import NovaKernel.ReadyTasks
import NovaKernel.Lib.Words
import NovaKernel.Strings
import NovaKernel.Shell
import NovaKernel.ShellWords
import NovaKernel.PrintfTexts
import NovaKernel.ShellBuffers
import NovaKernel.ShellLine
import NovaKernel.ShellHistory
import NovaKernel.ShellArrows
import NovaKernel.Departures
import NovaKernel.DescriptorTable
import NovaKernel.DescriptorOwners
import NovaKernel.HeapReferences
import NovaKernel.ForkResults
import NovaKernel.LoadedBytes
import NovaKernel.SpawnedMemory
import NovaKernel.MkdataImage
import NovaKernel.MkdataFormat
import NovaKernel.MkdataVolume
import NovaKernel.UserPointers
import NovaKernel.SyscallFaults
import NovaKernel.AtaPio
import NovaKernel.AtaSession
import NovaKernel.IsrStubs
import NovaKernel.Resumption
import NovaKernel.PicService
import NovaKernel.Descriptors
import NovaKernel.FatCapacity
import NovaKernel.PowerLoss
import NovaKernel.CatFile
import NovaKernel.Writer
