import Blackadder.ClientWire
import Blackadder.CmcGroups
import Blackadder.DomainMerge
import Blackadder.HttpSessions
import Blackadder.LtpAddressing
import Blackadder.LtpCompletion
import Blackadder.LtpFreshness
import Blackadder.LtpNackGroups
import Blackadder.LtpRounds
import Blackadder.MetaCache
import Blackadder.NapIp
import Blackadder.NbThreads
import Blackadder.NodeAgreement
import Blackadder.NodePublications
import Blackadder.NormalBasis
import Blackadder.ProxyNodes
import Blackadder.ProxyPublishers
import Blackadder.QosBytes
import Blackadder.ResourceManager
import Blackadder.RmFailures
import Blackadder.Rtt
import Blackadder.RvInvariants
import Blackadder.RvNotify
import Blackadder.RvOneShot
import Blackadder.RvOutcomes
import Blackadder.SdnRules
import Blackadder.SparseLids
import Blackadder.TauMultiply
import Blackadder.TcpClient
import Blackadder.TePaths
import Blackadder.TmQos
import Blackadder.TmRendezvous
import Blackadder.TmReports
import Blackadder.TmTables
