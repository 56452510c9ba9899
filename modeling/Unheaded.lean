import Unheaded.Ascend.Descriptors
import Unheaded.Ascend.Isolation
import Unheaded.Ascend.OpenPath
import Unheaded.Ascend.ReadFile
import Unheaded.Ascend.TrapReturn
import Unheaded.Audit.Query
import Unheaded.Auth.Rbac
import Unheaded.Balancer.Distribution
import Unheaded.Cart.Loader
import Unheaded.Cart.LockstepAgrees
import Unheaded.Cart.Ratelimit
import Unheaded.Cart.Sampler
import Unheaded.Cart.Scorer
import Unheaded.Cask.Extraction
import Unheaded.Compliance.Journal
import Unheaded.Compute.CacheMiss
import Unheaded.Compute.Writeback
import Unheaded.Deploy.Canary
import Unheaded.Deploy.RollingRepair
import Unheaded.Gateway.Circuit
import Unheaded.Gateway.ClientIp
import Unheaded.Mbc.BpfBlock
import Unheaded.Mbc.Disasm
import Unheaded.Mbc.HostPanics
import Unheaded.Mbc.HostVfork
import Unheaded.Mbc.IndirectAgreement
import Unheaded.Mbc.Interrupts
import Unheaded.Mbc.Labels
import Unheaded.Mbc.TranslatorJalr
import Unheaded.Mbc.TranslatorSingle
import Unheaded.Net.Anomaly
import Unheaded.Net.Corruption
import Unheaded.Net.Failover
import Unheaded.Net.FirewallTimeout
import Unheaded.Net.FlowTracker
import Unheaded.Net.HeaderChain
import Unheaded.Net.HopVerdicts
import Unheaded.Net.Sequence
import Unheaded.Qos.Codel
import Unheaded.Sophia.Sync
import Unheaded.Storage.Checkpoint
import Unheaded.Storage.Repair
import Unheaded.Storage.WalCrash
import Unheaded.Upc.FlatLoad
import Unheaded.Upc.SliceGate
import Unheaded.Upc.UnfsRuns
import Unheaded.Wotan.BudgetTraffic
import Unheaded.Wotan.FollowRuns
import Unheaded.Wotan.KeySeparation
import Unheaded.Wotan.Member
import Unheaded.Wotan.OrderingRuns
import Unheaded.Wotan.Replication
import Unheaded.Wotan.StreamRuns
import Unheaded.Wotan.WalStoreDeletes
import Unheaded.Wotan.WalStoreTiers
import Unheaded.Zhen.Admission
import Unheaded.Zhen.StoreRuns
import Unheaded.Zhen.WantBatch
