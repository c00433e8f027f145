import BootXf.SecImgAuth.SessionHistory
import BootXf.Smem.AllocFind
import BootXf.Smem.BootedPartition
import BootXf.Sahara.DumpConfinement
import BootXf.Smem.LegacyHistory
import BootXf.Npa.LimitMax
import BootXf.Npa.AggregationLaw
import BootXf.Npa.TransactionLaw
import BootXf.Npa.TransactionDiscipline
import BootXf.Npa.ShortCircuit
import BootXf.GLink.Negotiation
import BootXf.GLink.RpmRoundTrip
import BootXf.GLink.SmemWakeup
import BootXf.Rpmh.ActiveRequests
import BootXf.Rpmh.ResourceTable
import BootXf.Rpmh.Inq
import BootXf.RamDump.Minidump
import BootXf.RamDump.RawPartitionFaithful
import BootXf.DevPrg.TrustedWrites
import BootXf.XBLConfig.ItemTable
import BootXf.SecImgAuth.ZeroSegments
import BootXf.Smem.Confinement
import BootXf.XBLLoader.ElfLoaderExact
import BootXf.XBLLoader.HashWalk
import BootXf.XBLLoader.RamPartition
import BootXf.CoreUtils.PrsmList
import BootXf.Efs.ShortName
import BootXf.Efs.Calendar
import BootXf.Sahara.ReceiveData
import BootXf.GLink.ChannelIds
import BootXf.Rpmh.FinishedAmc
import BootXf.Rpmh.Handles
import BootXf.Npa.ResourceList
import BootXf.Npa.DependencyRequest
import BootXf.Npa.EventNotifications
import BootXf.Npa.EventLifetime
import BootXf.GLink.SmemRobust
import BootXf.RpmClient.QueueDiscipline
import BootXf.RpmClient.Acknowledgement
import BootXf.RpmClient.RequestSize
import BootXf.DevPrg.Patch
import BootXf.DevPrg.XmlDocuments
import BootXf.Smem.LinkList
import BootXf.RpmClient.InmapHistory
import BootXf.ULog.TeeHistory
import BootXf.CoreUtils.CorePoolHistory
