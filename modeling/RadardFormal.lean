import RadardFormal.Protocol.Basics
import RadardFormal.Protocol.STAmount
import RadardFormal.Protocol.STTx
import RadardFormal.Support.Overlay
import RadardFormal.Ledger.Entries
import RadardFormal.Ledger.ApplyView
import RadardFormal.Ledger.View
import RadardFormal.Tx.Transactor
import RadardFormal.Tx.ActiveAccount
import RadardFormal.Support.MergeWalk
import RadardFormal.Tx.SignerList
import RadardFormal.Tx.SetAccount
import RadardFormal.Tx.SetRegularKey
import RadardFormal.Support.Triple
import RadardFormal.Ledger.Frame
import RadardFormal.Tx.ApplySteps
import RadardFormal.Tx.TransactorFrame
import RadardFormal.Tx.Sequence
import RadardFormal.Tx.FeeClaim
import RadardFormal.Support.Digits
import RadardFormal.Shamap.Node
import RadardFormal.Shamap.Operations
import RadardFormal.Support.Concat
import RadardFormal.Shamap.Paths
import RadardFormal.Shamap.Invariant
import RadardFormal.Shamap.Map
import RadardFormal.Support.Bytes
import RadardFormal.Support.Bits
import RadardFormal.Protocol.Serializer
import RadardFormal.Protocol.STAmountWire
import RadardFormal.Protocol.STAmountArith
import RadardFormal.Protocol.IOUAmount
import RadardFormal.Ledger.RippleCredit
import RadardFormal.Support.SortedMap
import RadardFormal.Ledger.RawStateTable
import RadardFormal.Ledger.Directory
import RadardFormal.Ledger.DirectoryOps
import RadardFormal.Ledger.RippleAccounting
import RadardFormal.Ledger.ApplyStateTable
import RadardFormal.Support.Budgeted
import RadardFormal.Shamap.Delta
import RadardFormal.Overlay.ProtocolMessage
import RadardFormal.Nodestore.Codec
import RadardFormal.Nodestore.Blob
import RadardFormal.Support.Scientific
import RadardFormal.Protocol.STAmountCanonical
import RadardFormal.Protocol.STAmountSum
import RadardFormal.Protocol.Quality
import RadardFormal.Protocol.STAmountInteger
import RadardFormal.Support.DecimalText
import RadardFormal.Protocol.STAmountText
import RadardFormal.Protocol.STPathSet
import RadardFormal.Protocol.UintTypes
import RadardFormal.Support.Radix
import RadardFormal.Protocol.Tokens
import RadardFormal.Ledger.SkipList
import RadardFormal.Support.Walk
import RadardFormal.Ledger.QualityIndex
import RadardFormal.Tx.Proposal
import RadardFormal.Shamap.Iteration
import RadardFormal.Shamap.Canonical
import RadardFormal.Shamap.History
import RadardFormal.Shamap.Wire
import RadardFormal.Tx.Dividend
import RadardFormal.Tx.Ring
import RadardFormal.Tx.RingCustody
import RadardFormal.Tx.RingInvariant
import RadardFormal.Tx.RingClosed
import RadardFormal.Support.Fold
import RadardFormal.Support.Tally
import RadardFormal.Tx.Change
import RadardFormal.Tx.AmendmentTable
import RadardFormal.Tx.FeeVote
import RadardFormal.Tx.TxQ
import RadardFormal.Tx.TxQInvariant
import RadardFormal.Tx.TxQLimit
import RadardFormal.Tx.TxQRefinement
import RadardFormal.Tx.ApplyTransactions
