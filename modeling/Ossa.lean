import Ossa.Loop
import Ossa.Collections
import Ossa.Dag
import Ossa.Multiplexer
import Ossa.Ecg
import Ossa.EcgInv
import Ossa.EcgHistory
import Ossa.EcgSync
import Ossa.EcgSyncSpec
import Ossa.EcgSyncLoops
import Ossa.EcgMarking
import Ossa.EcgRound
import Ossa.EcgBeliefs
import Ossa.EcgProposals
import Ossa.EcgSendOrder
import Ossa.EcgForest
import Ossa.EcgExchange
import Ossa.EcgQuiescence
import Ossa.EcgProgress
import Ossa.Hash
import Ossa.Radix
import Ossa.HashText
import Ossa.MerkleTree
import Ossa.MerkleLayout
import Ossa.MerkleChunks
import Ossa.MerklePartial
import Ossa.MerkleRounds
import Ossa.MerkleHonest
import Ossa.Ranges
import Ossa.Metadata
import Ossa.Linearize
import Ossa.Tournament
import Ossa.EcgAncestor
import Ossa.Crdt
import Ossa.Causal
import Ossa.CausalOrder
import Ossa.CausalTree
import Ossa.Lww
import Ossa.CausalTreeOrder
import Ossa.CausalTreeOvertake
import Ossa.CausalTreeInsert
import Ossa.TwoPMap
import Ossa.EcgBody
import Ossa.Advertise
import Ossa.Store
import Ossa.StoreHandler
import Ossa.StoreHandle
import Ossa.StoreApply
import Ossa.StorePeers
import Ossa.StoreChange
import Ossa.StoreConverge
import Ossa.StoreDownload
import Ossa.StoreServe
import Ossa.StoreSystem
import Ossa.StoreTasks
import Ossa.StoreReplay
import Ossa.StoreRequests
import Ossa.StoreSyncing
import Ossa.StoreWakeup
import Ossa.StorePhases
import Ossa.StoreInFlight
import Ossa.StoreReceivers
import Ossa.StoreStopped
import Ossa.StoreAnswers
import Ossa.StoreWaiting
import Ossa.StoreNotices
import Ossa.StoreReplies
import Ossa.ManagerStreams
import Ossa.StoreForward
import Ossa.StoreWants
import Ossa.StoreServed
import Ossa.StoreCompletes
import Ossa.StoreAsked
import Ossa.EcgCalls
import Ossa.PrefixFree
import Ossa.Typeable
import Ossa.StorePeer
import Ossa.StorePeerRuns
import Ossa.ConnectionRuns
import Ossa.StoreRecord
import Ossa.MultiplexerRuns
