import XeBuild.Lib.ListRange
import XeBuild.Lib.ListChunks
import XeBuild.Lib.DigestTree
import XeBuild.Lib.CheckedBuffer
import XeBuild.Lib.SearchLoop
import XeBuild.Bytes
import XeBuild.Iso2svod.IsoIo
import XeBuild.Iso2svod.SvodLayout
import XeBuild.Iso2svod.SegmentStore
import XeBuild.Iso2svod.CopyLoop
import XeBuild.Iso2svod.FileAddress
import XeBuild.Iso2svod.Conversion
import XeBuild.Iso2svod.HeaderChain
import XeBuild.Iso2svod.ContainerVerifies
import XeBuild.Iso2svod.SectorAddress
import XeBuild.Iso2svod.DescriptorSizes
import XeBuild.SuCheck.ConCheck
import XeBuild.SuCheck.StfsLayout
import XeBuild.SuCheck.ContainerWalk
import XeBuild.Iso2svod.ContainerBinding
import XeBuild.Iso2svod.FailureFlow
import XeBuild.Iso2svod.ConversionResult
import XeBuild.Iso2svod.LoopBounds
import XeBuild.SuCheck.BlockMap
import XeBuild.SuCheck.ContainerReads
import XeBuild.Lib.WordMemory
import XeBuild.RebootCore.PatchDelivery
import XeBuild.RebootCore.CacheRoutines
import XeBuild.Patches.CopyRuns
import XeBuild.Iso2svod.ScanFailures
import XeBuild.Iso2svod.XexStream
import XeBuild.Iso2svod.HeaderLookups
import XeBuild.Iso2svod.XexUnpack
import XeBuild.Iso2svod.SpaAccess
import XeBuild.Iso2svod.TableAccess
import XeBuild.Iso2svod.StringRelease
import XeBuild.Iso2svod.DiskRange
import XeBuild.Iso2svod.SmcSearch
import XeBuild.SuCheck.ManifestRegion
import XeBuild.SuCheck.ItemIndependence
import XeBuild.SuCheck.FileCheck
import XeBuild.OptIdx.Regenerate
import XeBuild.OptIdx.LoaderBounds
import XeBuild.DlPatches.BundleDecode
import XeBuild.IniCreator.InputsListed
import XeBuild.IniCreator.BufferAccess
import XeBuild.HexText
import XeBuild.WordAccessors
import XeBuild.Mspack.LzxdCalls
import XeBuild.Mspack.TableRoom
import XeBuild.Mspack.WrittenBlocks
import XeBuild.Mspack.StreamRoundTrip
import XeBuild.Mspack.InputBuffer
import XeBuild.Mspack.SplitCalls
import XeBuild.Iso2svod.XexDecompress
