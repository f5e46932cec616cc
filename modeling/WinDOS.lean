import WinDOS.Lib.WordStack
import WinDOS.Lib.Loop
import WinDOS.Lib.Layers
import WinDOS.Lib.Overwrite
import WinDOS.Lib.Drawing
import WinDOS.Lib.Bytes
import WinDOS.Lib.Media
import WinDOS.Lib.Trace
import WinDOS.Lib.Bitmap
import WinDOS.Lib.Blob
import WinDOS.Lib.PhaseRing
import WinDOS.Lib.BoundedQueue
import WinDOS.Lib.FreeList
import WinDOS.Cpu.Machine
import WinDOS.Cpu.IsrStub
import WinDOS.Cpu.SyscallEntry
import WinDOS.User.Dispatch
import WinDOS.User.Paging
import WinDOS.Draw.Clipped
import WinDOS.Draw.Filled
import WinDOS.Draw.Blit
import WinDOS.Draw.Texts
import WinDOS.Window.Sheet
import WinDOS.Window.AtPixel
import WinDOS.Window.Strokes
import WinDOS.Window.Stack
import WinDOS.Window.Owner
import WinDOS.Window.Pinned
import WinDOS.Window.Attributes
import WinDOS.Window.Runs
import WinDOS.Window.Compose
import WinDOS.Window.Painter
import WinDOS.Window.Refresh
import WinDOS.Window.Checked
import WinDOS.Window.Accesses
import WinDOS.Window.Wrapping
import WinDOS.Window.Updown
import WinDOS.Window.InBounds
import WinDOS.Window.IntRuns
import WinDOS.Gui.Handlers
import WinDOS.Gui.Invariant
import WinDOS.Gui.Events
import WinDOS.Gui.Acts
import WinDOS.Gui.Pointers
import WinDOS.Gui.Press
import WinDOS.Gui.PointerMove
import WinDOS.Gui.HitTest
import WinDOS.Gui.WinShadow
import WinDOS.Gui.Mouse
import WinDOS.Gui.Fifo
import WinDOS.Gui.MainLoop
import WinDOS.Gui.Login
import WinDOS.Gui.Keyboard
import WinDOS.Fs.Block
import WinDOS.Fs.Ata
import WinDOS.Fs.AtaStatus
import WinDOS.Fs.AtaAddress
import WinDOS.Fs.Exfat
import WinDOS.Fs.Reads
import WinDOS.Fs.Mount
import WinDOS.Fs.Geometry
import WinDOS.Fs.Transport
import WinDOS.Fs.Effects
import WinDOS.Fs.Writes
import WinDOS.Fs.Allocate
import WinDOS.Fs.Atomic
import WinDOS.Fs.Directory
import WinDOS.Fs.RoundTrip
import WinDOS.Fs.Bounds
import WinDOS.Fs.ReadFile
import WinDOS.Fs.Accepted
import WinDOS.Fs.Outcome
import WinDOS.Fs.NoFatChain
import WinDOS.Fs.Overwrites
import WinDOS.Fs.Layout
import WinDOS.Fs.Listing
import WinDOS.Fs.Find
import WinDOS.Fs.EntrySets
import WinDOS.Fs.ListSafe
import WinDOS.Fs.Names
import WinDOS.Fs.Requests
import WinDOS.Fs.Uses
import WinDOS.Fs.InVolume
import WinDOS.Fs.BackEnds
import WinDOS.Fs.Nvme
import WinDOS.Fs.NvmeQueue
import WinDOS.Fs.NvmeRuns
import WinDOS.Fs.NvmeIds
import WinDOS.Boot.LogDisk
import WinDOS.Boot.LogStream
import WinDOS.Boot.LogArea
import WinDOS.Boot.Start
import WinDOS.Boot.Pitch
import WinDOS.Boot.Ksprintf
import WinDOS.Boot.Formats
import WinDOS.Boot.BootFiles
import WinDOS.Boot.ExitBoot
import WinDOS.Desk.Page
import WinDOS.Desk.PageFree
import WinDOS.Desk.Memory
import WinDOS.Desk.Slabs
import WinDOS.Desk.TaskSwitch
import WinDOS.Desk.Task
import WinDOS.Boot.FindKern
import WinDOS.Boot.DevicePath
import WinDOS.Tools.Memdisk
import WinDOS.Tools.DriverView
import WinDOS.Gui.MapRuns
import WinDOS.Gui.PressRuns
import WinDOS.Fs.Store
import WinDOS.Fs.Clusters
import WinDOS.Gui.LoginFile
import WinDOS.Fs.NvmeWire
import WinDOS.Lib.Polling
import WinDOS.Fs.NvmeInit
import WinDOS.Desk.PageTest
import WinDOS.Draw.Cells
import WinDOS.Gui.LoginPicture
import WinDOS.Gui.TaskbarRuns
import WinDOS.Cpu.Pic
import WinDOS.Gui.Input
import WinDOS.Gui.InputRuns
import WinDOS.Cpu.Idt
import WinDOS.Cpu.Exceptions
import WinDOS.Cpu.DeadScreen
import WinDOS.Boot.Gop
