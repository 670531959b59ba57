import UniBPF.Lib.Heap
import UniBPF.Lib.RwLock
import UniBPF.Lib.Steps
import UniBPF.Lib.Handles
import UniBPF.Lib.LittleEndian
import UniBPF.Lib.CellStore
import UniBPF.Lib.FirstSeen
import UniBPF.Lib.OnesComplement
import UniBPF.Lib.Panics
import UniBPF.Lib.PrintfFormat
import UniBPF.Lib.Relocations
import UniBPF.Lib.ResetMatcher
import UniBPF.Lib.TokenBucket
import UniBPF.Core.Inst
import UniBPF.Core.Vm
import UniBPF.Core.Exec
import UniBPF.Core.Jit
import UniBPF.Core.X86
import UniBPF.Core.JitX86
import UniBPF.Core.Maps
import UniBPF.Core.LiveMap
import UniBPF.Core.Elf
import UniBPF.Core.Loader
import UniBPF.Core.Verifier
import UniBPF.Core.Element
import UniBPF.Core.Control
import UniBPF.Core.Router
import UniBPF.Core.Packet
import UniBPF.Core.Ipv4
import UniBPF.Core.NatProgram
import UniBPF.Core.Filters
import UniBPF.Core.RateLimiter
import UniBPF.Core.Migration
import UniBPF.Core.Rewriter
import UniBPF.Core.PacketPush
import UniBPF.Core.Programs
import UniBPF.Core.ToDevice
import UniBPF.Core.TracePrintk
import UniBPF.Theory.ControlRoundTrip
import UniBPF.Theory.Validation
import UniBPF.Theory.Machine
import UniBPF.Theory.Link
import UniBPF.Theory.Entries
import UniBPF.Theory.Configure
import UniBPF.Theory.Atomic
import UniBPF.Theory.Lock
import UniBPF.Theory.Gate
import UniBPF.Theory.Interleave
import UniBPF.Theory.JitWindow
import UniBPF.Theory.JitPages
import UniBPF.Theory.Loads
import UniBPF.Theory.Retention
import UniBPF.Theory.Rodata
import UniBPF.Theory.MapRefs
import UniBPF.Theory.MapReads
import UniBPF.Theory.Attribution
import UniBPF.Theory.Reconfigure
import UniBPF.Theory.VerifierMaps
import UniBPF.Theory.EntryPoint
import UniBPF.Theory.HashCells
import UniBPF.Theory.HashCapacity
import UniBPF.Theory.ArraySlots
import UniBPF.Theory.MapContents
import UniBPF.Theory.StackFrames
import UniBPF.Theory.ConfigString
import UniBPF.Theory.ControlConfig
import UniBPF.Theory.NatTable
import UniBPF.Theory.NatKeys
import UniBPF.Theory.HeaderChecksum
import UniBPF.Theory.TransportChecksum
import UniBPF.Theory.RealPorts
import UniBPF.Theory.NatWrites
import UniBPF.Theory.NatReplies
import UniBPF.Theory.NatPorts
import UniBPF.Theory.PortAllocator
import UniBPF.Theory.RateLimit
import UniBPF.Theory.Migration
import UniBPF.Theory.PacketView
import UniBPF.Theory.StringMatch
import UniBPF.Theory.DnsData
import UniBPF.Theory.NoPanic
import UniBPF.Theory.HandOver
import UniBPF.Theory.Transmit
import UniBPF.Theory.TraceArguments
import UniBPF.Theory.ControlBounds
import UniBPF.Theory.X86Decode
import UniBPF.Theory.Encodings
import UniBPF.Theory.Emission
import UniBPF.Theory.Listing
import UniBPF.Theory.Translation
import UniBPF.Theory.Image
import UniBPF.Theory.Patching
import UniBPF.Theory.NativeMemory
import UniBPF.Theory.Blocks
import UniBPF.Theory.NativeAlu
import UniBPF.Theory.NativeInsts
import UniBPF.Theory.Validated
import UniBPF.Theory.ValidRuns
import UniBPF.Theory.NativeProgram
import UniBPF.Theory.NativeSteps
import UniBPF.Theory.Disassembly
import UniBPF.Theory.NativeCalls
import UniBPF.Theory.NativeHelpers
import UniBPF.Theory.NativeRun
import UniBPF.Theory.NativeFrame
import UniBPF.Theory.NativeEntry
import UniBPF.Theory.NativeElement
