import CdkValidium.Go.Basic
import CdkValidium.Go.Sort
import CdkValidium.Go.Map
import CdkValidium.Rlp.Basic
import CdkValidium.State.Transaction
import CdkValidium.State.Helper
import CdkValidium.State.BatchData
import CdkValidium.Sequencer.TxSortedList
import CdkValidium.Sequencer.AddrQueue
import CdkValidium.Sequencer.Worker
import CdkValidium.Sequencer.WorkerInvariant
import CdkValidium.Sequencer.CurrentNonce
import CdkValidium.Sequencer.Finalizer
import CdkValidium.Lib.Runs
import CdkValidium.Synchronizer.DataCommittee
import CdkValidium.SequenceSender.DataCommittee
import CdkValidium.Etherman.Events
import CdkValidium.Sequencer.Interleaving
import CdkValidium.Go.Hex
import CdkValidium.Rlp.RoundTrip
import CdkValidium.State.Codec
import CdkValidium.Synchronizer.TrustedBatch
import CdkValidium.Sequencer.EffectiveGasPrice
import CdkValidium.Sequencer.TxSortedRun
import CdkValidium.Sequencer.ForcedBatches
import CdkValidium.Sequencer.BestFitting
import CdkValidium.Synchronizer.Reorg
import CdkValidium.EthTxManager.Monitor
import CdkValidium.State.EstimateGas
import CdkValidium.Lib.Limbs
import CdkValidium.Go.Big
import CdkValidium.Merkletree.Split
import CdkValidium.Merkletree.Bytecode
import CdkValidium.State.ForkId
import CdkValidium.State.ClosedBatch
import CdkValidium.Go.Text
import CdkValidium.Jsonrpc.Codec
import CdkValidium.Jsonrpc.Types
import CdkValidium.Lib.FloatingPoint
import CdkValidium.Go.BigFloat
import CdkValidium.Gasprice.Follower
import CdkValidium.Lib.Ranges
import CdkValidium.State.Proof
import CdkValidium.Aggregator.Aggregator
import CdkValidium.Aggregator.Safety
import CdkValidium.Lib.PackedBits
import CdkValidium.FakeVm.Analysis
import CdkValidium.FakeVm.Contract
import CdkValidium.Lib.OrderStatistic
import CdkValidium.Gasprice.LastNBatches
import CdkValidium.State.BatchTable
import CdkValidium.SequenceSender.Sequences
