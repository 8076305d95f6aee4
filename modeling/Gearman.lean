import Gearman.Bytes
import Gearman.Bufio
import Gearman.Wire
import Gearman.Decimal
import Gearman.Transition
import Gearman.ClientPacket
import Gearman.WorkerPacket
import Gearman.Framing
import Gearman.WorkerExec
import Gearman.CodecAgreement
import Gearman.WorkerCalls
import Gearman.WorkerAbilities
import Gearman.HandlerSlot
import Gearman.ClientMachine
import Gearman.ClientMoves
import Gearman.ClientLifecycle
import Gearman.ClientQueues
import Gearman.ClientCorrelation
import Gearman.WorkerMachine
import Gearman.WorkerMoves
import Gearman.WorkerShutdown
import Gearman.Tally
import Gearman.WorkerTasks
import Gearman.WorkerLimit
import Gearman.WorkerReaction
import Gearman.WorkerConns
import Gearman.WorkerWrites
import Gearman.WorkerReannounce
import Gearman.WorkerGrabs
import Gearman.ClientHistory
import Gearman.Subscription
import Gearman.ClientRouting
import Gearman.ClientReuse
import Gearman.ClientHandshake
import Gearman.ClientStatus
import Gearman.Custody
import Gearman.WorkerReaders
import Gearman.WorkerFencing
import Gearman.WorkerConnect
import Gearman.WorkerGhosts
import Gearman.ClientDrops
import Gearman.ClientFailures
import Gearman.PoolMachine
import Gearman.PoolClients
import Gearman.JobFields
import Gearman.StatusGrammar
import Gearman.ProgressNumbers
import Gearman.ClientReadLoop
import Gearman.Draws
import Gearman.HandlerQueue
import Gearman.PacketLimits
import Gearman.PoolSelect
import Gearman.WorkerBuffers
import Gearman.WorkerStream
import Gearman.PoolUsable
import Gearman.Mailbox
import Gearman.WorkerDrain
import Gearman.ClientProgress
import Gearman.ClientSettling
import Gearman.WorkerLocks
import Gearman.WorkerResults
import Gearman.BufioWriter
import Gearman.ClientFlow
import Gearman.ClientRequests
import Gearman.ExecRefinement
import Gearman.ClientWires
import Gearman.WorkerForward
import Gearman.IdGen
import Gearman.JobStream
import Gearman.JobTrip
import Gearman.PoolCalls
import Gearman.PoolProgress
import Gearman.GoTimer
import Gearman.ResponseTimer
import Gearman.PoolHandlers
import Gearman.SlicePool
import Gearman.WorkerWires
