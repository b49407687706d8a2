import KittyOs.Lib.ByteMemory
import KittyOs.Lib.SpanPartition
import KittyOs.Lib.RadixForest
import KittyOs.Lib.BoundedLoop
import KittyOs.Lib.ByteBitmap
import KittyOs.Lib.BitFields
import KittyOs.Lib.WordStack
import KittyOs.Lib.CallRuns
import KittyOs.Lib.LittleEndian
import KittyOs.Lib.ByteRuns
import KittyOs.Lib.DigitRuns
import KittyOs.MachineWord
import KittyOs.PageTable
import KittyOs.PhysicalModel
import KittyOs.PhysicalFreelist
import KittyOs.PhysicalOwnership
import KittyOs.AllocationOrder
import KittyOs.VirtualModel
import KittyOs.AddressDigits
import KittyOs.PageForest
import KittyOs.VirtualMapping
import KittyOs.EffectiveRights
import KittyOs.KernelHole
import KittyOs.KernelModel
import KittyOs.ProcessModel
import KittyOs.Reservation
import KittyOs.FreeRuns
import KittyOs.AccessGuards
import KittyOs.RangeChecks
import KittyOs.IrqModel
import KittyOs.RedirectionEntries
import KittyOs.IrqVectors
import KittyOs.VectorLeaks
import KittyOs.IrqRouting
import KittyOs.GsiRouting
import KittyOs.AcpiInterrupts
import KittyOs.IsrModel
import KittyOs.IsrFrame
import KittyOs.InterruptFlag
import KittyOs.LargePages
import KittyOs.MapEffect
import KittyOs.MapGuards
import KittyOs.Translation
import KittyOs.UacpiMap
import KittyOs.HeapBounds
import KittyOs.AddressSpaces
import KittyOs.KernelCalls
import KittyOs.SharedHalf
import KittyOs.ProcessCalls
import KittyOs.FramePlaces
import KittyOs.BootState
import KittyOs.MemoryRuns
import KittyOs.FrameRoles
import KittyOs.ProcessViews
import KittyOs.UserPages
import KittyOs.ProcessIsolation
import KittyOs.HigherHalf
import KittyOs.VmemRecords
import KittyOs.ProcessGrowth
import KittyOs.ProcessCreation
import KittyOs.RuntimeBlob
import KittyOs.NumberParsing
import KittyOs.IsoNumbers
import KittyOs.FilesystemRegistry
import KittyOs.StorageLocks
import KittyOs.Lib.Interleavings
import KittyOs.RuntimeMutex
import KittyOs.Lib.AccessPrograms
import KittyOs.CmosPorts
import KittyOs.IoapicWindows
import KittyOs.VkfsModel
import KittyOs.VkfsHandles
import KittyOs.VkfsRead
import KittyOs.VirtualDisk
import KittyOs.RtcModel
import KittyOs.RtcSnapshot
import KittyOs.RtcModes
import KittyOs.AcpiModel
import KittyOs.MadtRecords
import KittyOs.PcieModel
import KittyOs.TableBounds
import KittyOs.MadtBounds
import KittyOs.RootTables
import KittyOs.EcamPaths
import KittyOs.UacpiGlue
import KittyOs.PciReads
import KittyOs.MutexHistory
import KittyOs.DiskSignatures
import KittyOs.FramebufferModel
import KittyOs.PixelCodec
import KittyOs.RectangleClip
import KittyOs.BitmapReads
import KittyOs.ClockModel
import KittyOs.ClockTimers
import KittyOs.PrintfModel
import KittyOs.PrintfBuffers
import KittyOs.DescriptorTables
import KittyOs.InterruptEntry
import KittyOs.InterruptService
import KittyOs.KernelWindows
import KittyOs.StableTranslations
import KittyOs.Lib.EventRuns
import KittyOs.DataBytes
import KittyOs.ProcessStores
import KittyOs.StoreRuns
import KittyOs.NewProcess
