import Rkb.Celestia.FinalityHistory
import Rkb.Celestia.Retry
import Rkb.Celestia.Store
import Rkb.Consensus.Agreement
import Rkb.Consensus.ClusterAgreement
import Rkb.Consensus.FinalizedDelivery
import Rkb.Consensus.OwnProposals
import Rkb.Consensus.PendingMaps
import Rkb.Consensus.ReferenceFold
import Rkb.Consensus.Resubmission
import Rkb.Execution.InitForkchoice
import Rkb.Execution.Jwt
import Rkb.Node.ExecutedFinality
import Rkb.Node.FirmInclusion
import Rkb.Node.KnownBlocks
import Rkb.Node.Pipeline
import Rkb.Node.Recovery
import Rkb.Node.TornLines
import Rkb.Node.Transport
import Rkb.Node.Validators
import Rkb.Sequencer.BatchExit
import Rkb.Sequencer.BatchSize
import Rkb.Sequencer.ConsensusStart
import Rkb.Sequencer.FirmFinality
import Rkb.Sequencer.ForeignBlobs
import Rkb.Sequencer.ForkchoiceRace
import Rkb.Sequencer.HeadOrder
import Rkb.Sequencer.LeaderQueue
import Rkb.Sequencer.LeaderUniqueness
import Rkb.Sequencer.NetworkInput
import Rkb.Sequencer.Replay
import Rkb.Sequencer.SyncBooks
import Rkb.Sequencer.SyncResume
