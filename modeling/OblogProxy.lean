import OblogProxy.Cluster.CachedReport
import OblogProxy.Cluster.ConnectionPool
import OblogProxy.Cluster.MasterElection
import OblogProxy.Cluster.PrimaryInstance
import OblogProxy.Cluster.RunningProcess
import OblogProxy.Cluster.SelectionStrategy
import OblogProxy.Cluster.TaskTimeout
import OblogProxy.Cluster.TenantOptions
import OblogProxy.Convert.ReplicaDecoder
import OblogProxy.Convert.TableCache
import OblogProxy.DataType.JsonRoundTrip
import OblogProxy.Gtid.GtidSubtract
import OblogProxy.Protocol.Session
import OblogProxy.Recovery.ChecksumOption
import OblogProxy.Recovery.SavedSequence
import OblogProxy.Recovery.TornIndex
import OblogProxy.Sender.SenderRoutine
import OblogProxy.Storage.PurgeIndex
import OblogProxy.System.Delivery
