import Htnd.Lib.KeyedFold
import Htnd.Utxo.Collection
import Htnd.Utxo.DiffAlgebra
import Htnd.Utxo.DiffSemantics
import Htnd.Utxo.IteratorWithDiff
import Htnd.ConsensusStateStore.Utxo
import Htnd.Lib.GoSemantics
import Htnd.PruningProofManager.ValidatePruningPointProof
import Htnd.SyncManager.BlockLocator
import Htnd.GhostdagManager.Ghostdag
import Htnd.Protocol.BlockVersion
import Htnd.Lib.Dag
import Htnd.GhostdagManager.Spec
import Htnd.Lib.IntervalTree
import Htnd.ReachabilityManager.Tree
import Htnd.GhostdagManager.MergeSet
import Htnd.GhostdagManager.Coloring
import Htnd.GhostdagManager.Scores
import Htnd.GhostdagManager.KCluster
import Htnd.Utxo.Transaction
import Htnd.TransactionValidator.InContext
import Htnd.TransactionValidator.Amounts
import Htnd.UtxoIndex.Store
import Htnd.Lib.StateInvariant
import Htnd.Lib.Binary64
import Htnd.Mempool.Model
import Htnd.Mempool.OrphanPool
import Htnd.Mempool.Mempool
import Htnd.Mempool.OrphanIndex
import Htnd.Mempool.FeeRateOrder
import Htnd.Mempool.CompoundTxRateLimiter
import Htnd.Ghostdag2.GhostdagImpl
import Htnd.Ghostdag2.TestHarness
import Htnd.Ghostdag2.Walks
import Htnd.Ghostdag2.Agreement
import Htnd.Wallet.Transactions
import Htnd.Wallet.Spending
import Htnd.SyncManager.AntiPast
import Htnd.SyncManager.AntiPastSpec
import Htnd.SyncManager.ChainOracles
import Htnd.SyncManager.AntiPastExact
import Htnd.Lib.RefHeap
import Htnd.Utxo.DiffRefs
import Htnd.Utxo.AddTransaction
import Htnd.ConsensusStateManager.RestorePastUTXO
import Htnd.ConsensusStateManager.ReverseUTXODiffs
import Htnd.CoinbaseManager.Subsidy
import Htnd.Lib.Bytes
import Htnd.Util.Difficulty
import Htnd.DifficultyManager.RequiredDifficulty
import Htnd.ConsensusHashing.SignatureHash
import Htnd.Lib.GreedyMatch
import Htnd.Txscript.Stack
import Htnd.Txscript.CheckMultiSig
import Htnd.Lib.LittleEndian
import Htnd.CoinbaseManager.Payload
import Htnd.Lib.PrefixCode
import Htnd.ConsensusHashing.Transaction
import Htnd.SyncManager.LocatorShape
import Htnd.SyncManager.SortedMergeSet
import Htnd.FinalityManager.FinalityPoint
import Htnd.FinalityManager.Staging
import Htnd.PruningManager.PruningPoint
import Htnd.DagTopologyManager.SelectedParentChain
import Htnd.Txscript.Script
import Htnd.Txscript.Conditional
import Htnd.Txscript.ScriptNum
import Htnd.Txscript.Push
import Htnd.Txscript.ScriptBuilder
import Htnd.Merkle.MerkleRoot
import Htnd.Lib.TopK
import Htnd.DagTraversalManager.Window
import Htnd.Util.Bech32
import Htnd.Util.Address
import Htnd.Txscript.Standard
import Htnd.Lib.ByteReader
import Htnd.Utxo.Serialization
import Htnd.Lib.Recency
import Htnd.Lrucache.LRUCache
import Htnd.Bip32.Base58
import Htnd.Bip32.ExtendedKey
import Htnd.Bip32.Path
import Htnd.Addressmanager.AddressManager
import Htnd.Lib.BinarySearch
import Htnd.ReachabilityManager.OrderedTreeNodeSet
import Htnd.ReachabilityManager.Interval
import Htnd.ReachabilityManager.ReindexContext
import Htnd.Lib.Forest
import Htnd.ReachabilityManager.Stage
import Htnd.ReachabilityManager.Propagate
import Htnd.ReachabilityManager.Reindex
import Htnd.ReachabilityManager.ReindexIntervals
import Htnd.ReachabilityManager.AddChild
import Htnd.ReachabilityManager.Concentrate
