import MenableDriver.Transition.Run
import MenableDriver.Data.Counter
import MenableDriver.Data.Shelves
import MenableDriver.Data.Ring
import MenableDriver.Data.Fifo
import MenableDriver.Uiq.Base
import MenableDriver.Uiq.Ring
import MenableDriver.Dma.State
import MenableDriver.Dma.StopPending
import MenableDriver.Dma.Locks
import MenableDriver.Dma.Wakeup
import MenableDriver.Dma.QueueState
import MenableDriver.Dma.Links
import MenableDriver.Dma.Filing
import MenableDriver.Dma.FailedStart
import MenableDriver.Dma.Groups
import MenableDriver.Uiq.Dataloss
import MenableDriver.Helpers.Crc32
import MenableDriver.Messaging.UiqData
import MenableDriver.Messaging.Chunks
import MenableDriver.Messaging.Transmission
import MenableDriver.Data.BitField
import MenableDriver.Sgl.Block
import MenableDriver.Sgl.Entry
import MenableDriver.Sgl.GroupSize
import MenableDriver.Sgl.Chain
import MenableDriver.Sgl.Userbuf
import MenableDriver.Sgl.UserRange
import MenableDriver.Sgl.Descriptors
import MenableDriver.Dma.Account
import MenableDriver.Dma.Acquisition
import MenableDriver.Dma.BufferLists
import MenableDriver.Dma.UnlockAll
import MenableDriver.Dma.Registrations
import MenableDriver.Dma.TimerLocks
import MenableDriver.Dma.UserIndex
import MenableDriver.Uiq.Readers
import MenableDriver.Uiq.Writers
import MenableDriver.Irq.Alarms
import MenableDriver.Irq.Notifications
import MenableDriver.Irq.Listeners
import MenableDriver.Uiq.VaEvents
import MenableDriver.Uiq.CxpPackets
import MenableDriver.Camera.CxpFrontend
import MenableDriver.Camera.PortInvariant
import MenableDriver.Camera.PortMapping
import MenableDriver.Camera.PortReset
import MenableDriver.Jtag.Calls
import MenableDriver.Jtag.Runs
import MenableDriver.Acquisition.Deques
import MenableDriver.Dma.Flight
import MenableDriver.Core.DeviceNumbers
import MenableDriver.Dma.FrameOrder
import MenableDriver.Uiq.Drain
import MenableDriver.Uiq.Framing
import MenableDriver.Dma.Allocation
import MenableDriver.Dma.FrameWindow
import MenableDriver.Messaging.PacketLength
import MenableDriver.Messaging.Interrupts
import MenableDriver.Uiq.Bursts
import MenableDriver.Data.Ledger
import MenableDriver.Dma.Addition
import MenableDriver.Dma.GroupCounts
import MenableDriver.Sgl.SizeLimits
import MenableDriver.Sgl.PageGroupSize
import MenableDriver.Sgl.Layouts
import MenableDriver.Sgl.Streaming
import MenableDriver.Sgl.DummyBuffer
import MenableDriver.Sgl.Release
import MenableDriver.Dma.UserbufSteps
import MenableDriver.Data.Pieces
import MenableDriver.Data.Pipeline
import MenableDriver.Data.Credit
import MenableDriver.Controllers.Base
import MenableDriver.Controllers.ReadBurst
import MenableDriver.Controllers.WriteBurst
import MenableDriver.Controllers.I2cCore
import MenableDriver.Controllers.Transaction
import MenableDriver.Data.Replay
import MenableDriver.Controllers.Machine
import MenableDriver.Controllers.Spi
import MenableDriver.Controllers.Bpi
import MenableDriver.Controllers.BpiBurst
import MenableDriver.Data.Walk
import MenableDriver.Pci.Capabilities
import MenableDriver.Irq.UiqDispatch
import MenableDriver.Jtag.Serial
import MenableDriver.Data.History
import MenableDriver.Camera.Calls
import MenableDriver.Camera.Session
import MenableDriver.Camera.Downscale
import MenableDriver.Camera.SpeedChange
import MenableDriver.Messaging.DmaMemory
import MenableDriver.Messaging.Engine
import MenableDriver.Data.Crc
import MenableDriver.Sgl.EntryFields
import MenableDriver.Data.Linked
import MenableDriver.Helpers.LinkedList
import MenableDriver.Controllers.Rules
import MenableDriver.Controllers.Bursts
import MenableDriver.Data.Frames
import MenableDriver.Controllers.SpiSingle
import MenableDriver.Controllers.SpiDual
import MenableDriver.Controllers.SpiFifo
import MenableDriver.Controllers.I2cBursts
import MenableDriver.Controllers.I2cBanks
import MenableDriver.Controllers.BpiProgram
import MenableDriver.Fpga.Mcap
import MenableDriver.Fpga.Configuration
