import VcuCodec.DpbBuffers
import VcuCodec.AvcOrderCounts
import VcuCodec.AvcFrameNumOffsets
import VcuCodec.HevcOrderCounts
import VcuCodec.FrmBufOwners
import VcuCodec.PatchworkerBytes
import VcuCodec.EncoderRuns
import VcuCodec.StreamOffsets
import VcuCodec.BufferSizes
import VcuCodec.SchedulerRequests
import VcuCodec.StatusHandOver
import VcuCodec.ChannelRouting
import VcuCodec.SkippedPictSizes
import VcuCodec.ArithmeticSettings
import VcuCodec.LookAheadFifo
import VcuCodec.QpTables
import VcuCodec.InputChunks
import VcuCodec.OmxRuns
import VcuCodec.HevcRefPicSetChains
import VcuCodec.HevcRefLists
import VcuCodec.AvcRefListBuild
import VcuCodec.AvcFrameNumGaps
import VcuCodec.Md5Updates
import VcuCodec.EncCmdMngr
import VcuCodec.StreamHandOver
import VcuCodec.SectionRuns
import VcuCodec.ParamSetTables
import VcuCodec.RoiTables
import VcuCodec.AspectRatios
import VcuCodec.MailQueues
import VcuCodec.MailboxDrops
import VcuCodec.BufferPoolRuns
import VcuCodec.CfgTokenRuns
import VcuCodec.HevcPpsRoundTrip
import VcuCodec.SourceBuffers
import VcuCodec.DepthReduction
import VcuCodec.ConfigSlot
import VcuCodec.StartCodeCapacity
import VcuCodec.RoiFileFormat
import VcuCodec.ModuleStarts
import VcuCodec.SplitFeederRuns
import VcuCodec.MvBufPool
import VcuCodec.BitSequences
import VcuCodec.AppFifo
import VcuCodec.WrittenStreams
