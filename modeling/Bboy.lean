import Bboy.Core.Machine
import Bboy.Core.OrdMap
import Bboy.Security.TokenReplication
import Bboy.Security.TokenSigner
import Bboy.Security.SignerMaintenance
import Bboy.Security.TokenLifetime
import Bboy.Security.KeyPropagation
import Bboy.Security.RemoteVerification
import Bboy.Security.ConcurrentMaintenance
import Bboy.Base.ThreadPool
import Bboy.Base.ThreadPoolEffects
import Bboy.Base.ThreadPoolAccounting
import Bboy.Base.ThreadPoolTasks
import Bboy.Base.ThreadPoolProgress
import Bboy.Base.EnvPosix
import Bboy.Base.WritableFile
import Bboy.Base.RWFile
import Bboy.Base.MemTracker
import Bboy.Base.MemTrackerAccounting
import Bboy.Base.MemTrackerLimits
import Bboy.Base.TrackerRegistry
import Bboy.Base.TrackerLocks
import Bboy.Base.TrackerPublication
import Bboy.Base.TrackerReferences
import Bboy.Base.TrackerGlobals
import Bboy.Core.Waiters
import Bboy.Sync.BlockingQueue
import Bboy.Sync.BlockingQueueContracts
import Bboy.Sync.BlockingQueueWakeups
import Bboy.Sync.RwSemaphore
import Bboy.Sync.PercpuRwlock
import Bboy.Sync.RWCLock
import Bboy.Base.DebugUtil
import Bboy.Base.HighWaterMark
import Bboy.Sync.Barrier
import Bboy.Base.Thread
import Bboy.Rpc.AcceptorPool
import Bboy.Core.MachineInt
import Bboy.Security.TlsSocket
import Bboy.Base.Socket
import Bboy.Base.RWFileRead
import Bboy.Base.WritableContent
import Bboy.Security.TlsContext
import Bboy.Core.Json
import Bboy.Base.JsonWriter
import Bboy.Base.Random
import Bboy.Base.Slice
import Bboy.Sync.TimedWait
import Bboy.Base.FastString
import Bboy.Core.Heap
import Bboy.Base.StatusState
import Bboy.Base.OsUtil
import Bboy.Core.JsonParser
import Bboy.Base.JsonReader
import Bboy.Base.NetUtil
import Bboy.Base.PathUtil
import Bboy.Base.ObjectPool
import Bboy.Base.TrackerTree
import Bboy.Base.ListTrackers
import Bboy.Base.EnvWalk
import Bboy.Base.Subprocess
import Bboy.Security.CertManagement
import Bboy.Base.MemTrackerRange
import Bboy.Security.RenewInterval
import Bboy.Base.ThreadJoiner
import Bboy.Base.Monotime
import Bboy.Sync.Semaphore
import Bboy.Core.Atomic
import Bboy.Gbase.SpinLock
import Bboy.Gbase.Once
import Bboy.Security.X509Wildcard
import Bboy.Security.X509CheckHost
import Bboy.Sync.CountDownLatch
import Bboy.Sync.Promise
import Bboy.Base.FileToString
import Bboy.Security.TlsHandshake
import Bboy.Base.FileLock
import Bboy.Security.TicketRenewal
import Bboy.Base.SubprocessCall
import Bboy.Gbase.ThreadCollisionWarner
import Bboy.Base.SizeOnDisk
import Bboy.Core.Base64
import Bboy.Gbase.Base64
import Bboy.Gbase.FastToBuffer
import Bboy.Gbase.Substitute
