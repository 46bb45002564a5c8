import ConsensusRs.Framework.Run
import ConsensusRs.Framework.Except
import ConsensusRs.Types.Basic
import ConsensusRs.Types.Crypto
import ConsensusRs.Types.Merkle
import ConsensusRs.Store.Index
import ConsensusRs.Chain.Ledger
import ConsensusRs.Chain.Invariant
import ConsensusRs.Chain.Insert
import ConsensusRs.Chain.Restart
import ConsensusRs.Consensus.RoundState
import ConsensusRs.Consensus.Backend
import ConsensusRs.Consensus.Core
import ConsensusRs.Consensus.Handlers
import ConsensusRs.Consensus.Consistency
import ConsensusRs.Consensus.Rounds
import ConsensusRs.Consensus.Advance
import ConsensusRs.Consensus.Quorum
import ConsensusRs.Consensus.Network
import ConsensusRs.Consensus.RoundChange
import ConsensusRs.Consensus.Signatures
import ConsensusRs.Consensus.Preprepare
import ConsensusRs.P2P.Protocol
import ConsensusRs.P2P.Codec
import ConsensusRs.P2P.Session
import ConsensusRs.Framework.Loop
import ConsensusRs.P2P.Middle
import ConsensusRs.Chain.TxPool
import ConsensusRs.Framework.Lex
import ConsensusRs.Framework.OrdMap
import ConsensusRs.Store.Database
import ConsensusRs.Store.Base
import ConsensusRs.Store.Map
import ConsensusRs.Store.Schema
import ConsensusRs.Chain.Persist
