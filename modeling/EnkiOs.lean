import EnkiOs.Lib.DoublyLinked
import EnkiOs.Lib.Extents
import EnkiOs.Lib.FirstFit
import EnkiOs.Lib.Int32
import EnkiOs.Lib.PointerWalk
import EnkiOs.Lib.Ring
import EnkiOs.Lib.Segments
import EnkiOs.Lib.Memory
import EnkiOs.Lib.Cpu
import EnkiOs.Lib.Calls
import EnkiOs.Lib.Gate
import EnkiOs.Lib.Page
import EnkiOs.Lib.Half
import EnkiOs.Lib.Ata
import EnkiOs.Lib.Reads
import EnkiOs.Lib.Descriptor
import EnkiOs.Lib.Decimal
import EnkiOs.Lib.Format
import EnkiOs.Lib.Fuel
import EnkiOs.Lib.FirstDiff
import EnkiOs.Status
import EnkiOs.Heap.Basic
import EnkiOs.Heap.Lemmas.Mark
import EnkiOs.Heap.Lemmas.Scan
import EnkiOs.Heap.Lemmas.Packed
import EnkiOs.Heap.Run
import EnkiOs.Heap.Lemmas.Kernel
import EnkiOs.Heap.Theorems
import EnkiOs.Heap.FitTheorems
import EnkiOs.Heap.Lemmas.Live
import EnkiOs.Heap.Frees
import EnkiOs.Heap.Grown
import EnkiOs.Heap.Blocks
import EnkiOs.Heap.Shield
import EnkiOs.Heap.Keeps
import EnkiOs.Gdt.Basic
import EnkiOs.Gdt.Theorems
import EnkiOs.Disk.Basic
import EnkiOs.Disk.Lemmas
import EnkiOs.Disk.Stream
import EnkiOs.Disk.Theorems
import EnkiOs.Disk.Ata
import EnkiOs.Disk.Driver
import EnkiOs.Disk.Boot
import EnkiOs.Fat.Basic
import EnkiOs.Fat.Volume
import EnkiOs.Fat.Lemmas.Call
import EnkiOs.Fat.Lemmas.Chain
import EnkiOs.Fat.Lemmas.Directory
import EnkiOs.Fat.Lemmas.Lookup
import EnkiOs.Fat.Lemmas.Read
import EnkiOs.Fat.Lemmas.Stream
import EnkiOs.Fat.NameBuffer
import EnkiOs.Fat.Theorems
import EnkiOs.Fat.CallTheorems
import EnkiOs.Fat.LayoutTheorems
import EnkiOs.Fat.LookupTheorems
import EnkiOs.Fat.PathTheorems
import EnkiOs.Fat.RootTheorems
import EnkiOs.Fs.Basic
import EnkiOs.Fs.Kept
import EnkiOs.Fs.Lemmas
import EnkiOs.Fs.Stray
import EnkiOs.Fs.Descriptors
import EnkiOs.Fs.Packed
import EnkiOs.Fs.PathMemory
import EnkiOs.Fs.ParseTheorems
import EnkiOs.Fs.NameTheorems
import EnkiOs.Fs.SeekTheorems
import EnkiOs.Fs.StreamTheorems
import EnkiOs.Fs.Keeps
import EnkiOs.Fs.Theorems
import EnkiOs.Fs.Life
import EnkiOs.Fs.OpenTheorems
import EnkiOs.Fs.LifeTheorems
import EnkiOs.Fs.CloseTheorems
import EnkiOs.Paging.Basic
import EnkiOs.Paging.Table
import EnkiOs.Paging.Packed
import EnkiOs.Paging.New
import EnkiOs.Paging.Free
import EnkiOs.Paging.Translate
import EnkiOs.Paging.FreeTheorems
import EnkiOs.Paging.Fresh
import EnkiOs.Paging.Theorems
import EnkiOs.Kernel
import EnkiOs.Elf.Basic
import EnkiOs.Elf.Lemmas
import EnkiOs.Elf.BoundsTheorems
import EnkiOs.Elf.Packed
import EnkiOs.Elf.Reads
import EnkiOs.Elf.ReadsTheorems
import EnkiOs.Task.Basic
import EnkiOs.Task.Context
import EnkiOs.Task.CopyStr
import EnkiOs.Task.Run
import EnkiOs.Task.Theorems
import EnkiOs.Task.RoundRobin
import EnkiOs.Task.ContextTheorems
import EnkiOs.Task.OneMemory
import EnkiOs.Task.CopyStrTheorems
import EnkiOs.Task.OneMemoryTheorems
import EnkiOs.Task.Interrupt
import EnkiOs.Process.Basic
import EnkiOs.Process.Args
import EnkiOs.Process.Loads
import EnkiOs.Process.Malloc
import EnkiOs.Process.Map
import EnkiOs.Process.ArgsTheorems
import EnkiOs.Process.Lemmas
import EnkiOs.Process.Owned
import EnkiOs.Process.Theorems
import EnkiOs.Process.Agree
import EnkiOs.Process.Frees
import EnkiOs.Process.Kept
import EnkiOs.Process.OwnedTheorems
import EnkiOs.Process.Packed
import EnkiOs.Process.AgreeTheorems
import EnkiOs.Process.Registry
import EnkiOs.Process.Atomic
import EnkiOs.Process.FreesTheorems
import EnkiOs.Process.LoaderTheorems
import EnkiOs.Process.Pages
import EnkiOs.Process.Release
import EnkiOs.Process.ArgvTheorems
import EnkiOs.Process.PageTheorems
import EnkiOs.Process.Leak
import EnkiOs.Process.PlacedTheorems
import EnkiOs.Process.Shelter
import EnkiOs.Process.Territory
import EnkiOs.Process.TableTheorems
import EnkiOs.Keyboard.Basic
import EnkiOs.Keyboard.Theorems
import EnkiOs.Tty.Basic
import EnkiOs.Tty.Theorems
import EnkiOs.Tty.EraseTheorems
import EnkiOs.Libc.String
import EnkiOs.Libc.Text
import EnkiOs.Libc.Strtok
import EnkiOs.Libc.StrtokTheorems
import EnkiOs.Libc.StrtokFresh
import EnkiOs.Libc.Readline
import EnkiOs.Libc.Stdio
import EnkiOs.Libc.Copy
import EnkiOs.Libc.Stdlib
import EnkiOs.Libc.Span
import EnkiOs.Libc.Compare
import EnkiOs.Libc.CompareTheorems
import EnkiOs.Libc.Enki
import EnkiOs.Libc.Memmove
import EnkiOs.Libc.CmdList
import EnkiOs.Libc.EnkiTheorems
import EnkiOs.Syscall.Basic
import EnkiOs.Syscall.Path
import EnkiOs.Syscall.PrintTheorems
import EnkiOs.Syscall.ArgsTheorems
import EnkiOs.Syscall.SystemTheorems
import EnkiOs.Keyboard.Ps2
import EnkiOs.Idt.Basic
import EnkiOs.Idt.Theorems
import EnkiOs.Idt.ZeroTheorems
import EnkiOs.Syscall.Table
import EnkiOs.Idt.Handler
import EnkiOs.Idt.Dispatch
import EnkiOs.Syscall.Abi
import EnkiOs.Idt.DispatchTheorems
import EnkiOs.Keyboard.TypingTheorems
import EnkiOs.Tty.Screen
import EnkiOs.Tty.EchoTheorems
import EnkiOs.Programs.Shell
import EnkiOs.Programs.ShellTheorems
import EnkiOs.Process.Estate
import EnkiOs.Process.Acts
import EnkiOs.Process.IsolationTheorems
import EnkiOs.Process.Halves
import EnkiOs.Process.Fence
import EnkiOs.Process.ConfinementTheorems
import EnkiOs.Lib.Simulation
import EnkiOs.Fs.Views
import EnkiOs.Fs.RefineTheorems
