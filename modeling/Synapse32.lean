import Synapse32.Core.Squash
import Synapse32.Core.Arithmetic
import Synapse32.Core.Accepted
import Synapse32.Core.Interrupts
import Synapse32.Core.Progress
import Synapse32.Core.Alignment
import Synapse32.Core.Nesting
import Synapse32.Core.Operands
import Synapse32.Core.FetchPath
import Synapse32.Core.Atomics
import Synapse32.Core.Cycles
import Synapse32.Plic.Isolation
import Synapse32.Data.Order
import Synapse32.Data.Adapter
import Synapse32.Data.Progress
import Synapse32.Data.Unaligned
import Synapse32.Cache.Fetch
import Synapse32.Cache.Representation
import Synapse32.Cache.Cleaning
import Synapse32.Cache.FetchProgress
import Synapse32.Cache.Progress
import Synapse32.Mmu.Translation
import Synapse32.Mmu.Contents
import Synapse32.Mmu.Progress
import Synapse32.Soc.Freshness
import Synapse32.Soc.FenceI
import Synapse32.Soc.Devices
import Synapse32.Soc.Interrupts
import Synapse32.Soc.PowerOn
import Synapse32.Soc.Printing
import Synapse32.Soc.Program
import Synapse32.Uart.Loopback
import Synapse32.Uart.Reception
import Synapse32.Uart.ThreIrq
import Synapse32.Timer.Programming
