import CS2200.VirtualMemory.Isolation
import CS2200.VirtualMemory.DirtyBit
import CS2200.VirtualMemory.SwapMap
import CS2200.VirtualMemory.CleanEviction
import CS2200.VirtualMemory.Installation
import CS2200.VirtualMemory.FreeFrames
import CS2200.VirtualMemory.Circulation
import CS2200.VirtualMemory.SecondChance
import CS2200.VirtualMemory.References
import CS2200.Cache.Inclusion
import CS2200.Cache.Independence
import CS2200.Cache.Writes
import CS2200.Cache.Conservation
import CS2200.Scheduling.Accounts
import CS2200.Scheduling.Priority
import CS2200.Scheduling.Concurrency
import CS2200.Scheduling.StudentLock
import CS2200.Scheduling.ExtractMax
import CS2200.Scheduling.Idle
import CS2200.Scheduling.Startup
import CS2200.Scheduling.ReadyQueue
import CS2200.Transport.Delivery
import CS2200.Transport.Checksum
import CS2200.Transport.Framing
import CS2200.Transport.Receive
import CS2200.Transport.Send
import CS2200.Interrupts.LiveStack
import CS2200.Interrupts.Clock
import CS2200.Interrupts.Factorial
import CS2200.Library.Nesting
import CS2200.Processor16.Refinement
import CS2200.Processor32.Runs
import CS2200.Pipeline.Hazards
import CS2200.Cache.Competitive
import CS2200.Scheduling.Chart
import CS2200.Transport.Session
import CS2200.VirtualMemory.Rendering
import CS2200.VirtualMemory.Statistics
