import KvmHost.Lib.Bytes
import KvmHost.Lib.Lap
import KvmHost.Lib.PackedRing
import KvmHost.Memory
import KvmHost.Virtq
import KvmHost.RingProtocol
import KvmHost.DiskImg
import KvmHost.VirtioBlk
import KvmHost.BlkRequest
import KvmHost.BlkBatch
import KvmHost.BufferLoss
import KvmHost.BlkSync
import KvmHost.BlkArray
import KvmHost.Bus
import KvmHost.Pci
import KvmHost.PciBars
import KvmHost.PciRuns
import KvmHost.VirtioPci
import KvmHost.Lib.Turns
import KvmHost.VirtioRuns
import KvmHost.BarAccess
import KvmHost.QueueEnable
import KvmHost.BusDispatch
import KvmHost.PciAddress
import KvmHost.PciSizing
import KvmHost.Lib.Banks
import KvmHost.QueueBanks
import KvmHost.BlkOutside
import KvmHost.Fifo
import KvmHost.Serial
import KvmHost.SerialRuns
import KvmHost.NetFrames
import KvmHost.DmaRanges
import KvmHost.Lib.Cells
import KvmHost.SerialRegs
import KvmHost.GuestFeatures
import KvmHost.EventSuppression
import KvmHost.PortIo
import KvmHost.BlkHostile
import KvmHost.NetBuffers
import KvmHost.BlkUsed
import KvmHost.NotifyAddress
import KvmHost.X86Boot
import KvmHost.RingDrain
import KvmHost.X86Image
import KvmHost.Arm64Boot
import KvmHost.BlkThread
import KvmHost.NetThreads
import KvmHost.Machine
import KvmHost.AddressMap
import KvmHost.ConfigSpace
import KvmHost.DeviceTree
import KvmHost.IsrStatus
import KvmHost.Devices
import KvmHost.GuestMemory
import KvmHost.DmaInRam
