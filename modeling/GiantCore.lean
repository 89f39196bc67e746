import GiantCore.Foundation.TrimmedArray
import GiantCore.Foundation.RunningMax
import GiantCore.Foundation.Run
import GiantCore.Foundation.Watermark
import GiantCore.Foundation.WriteBack
import GiantCore.Foundation.Checks
import GiantCore.Foundation.Program
import GiantCore.Foundation.RetryQueue
import GiantCore.Foundation.Decimal
import GiantCore.Foundation.ParentTree
import GiantCore.Foundation.Counting
import GiantCore.Primitives.Transaction
import GiantCore.Primitives.Block
import GiantCore.Script.Script
import GiantCore.Script.Interpreter
import GiantCore.Script.Restriction
import GiantCore.Script.Bounds
import GiantCore.Coins.Coins
import GiantCore.Coins.Connect
import GiantCore.Coins.Undo
import GiantCore.Coins.Origins
import GiantCore.Coins.Supply
import GiantCore.Coins.Mirror
import GiantCore.Coins.Cache
import GiantCore.Coins.CacheRefinement
import GiantCore.Chain.Params
import GiantCore.Chain.Node
import GiantCore.Stake.Modifier
import GiantCore.Masternode.Masternode
import GiantCore.Masternode.Votes
import GiantCore.Masternode.Gossip
import GiantCore.Masternode.VoteOrder
import GiantCore.Masternode.VoterRank
import GiantCore.Masternode.VoteAuthenticity
import GiantCore.Masternode.BlockPayee
import GiantCore.Masternode.Broadcast
import GiantCore.SwiftTx.SwiftTx
import GiantCore.SwiftTx.Locks
import GiantCore.Budget.Budget
import GiantCore.Budget.VoteGossip
import GiantCore.Gossip.SeenMaps
import GiantCore.Zerocoin.Coins
import GiantCore.Zerocoin.Accumulators
import GiantCore.Zerocoin.AccumulatedMints
import GiantCore.Zerocoin.Witness
import GiantCore.Zerocoin.ResumedWitness
import GiantCore.Validation.BlockPayments
import GiantCore.Validation.CheckBlock
import GiantCore.Validation.Mint
import GiantCore.Validation.CheckTransaction
import GiantCore.Validation.BlockTransactions
import GiantCore.Validation.Headers
import GiantCore.Validation.Mempool
import GiantCore.Validation.AcceptBlock
import GiantCore.Validation.ForkStake
import GiantCore.Stake.Kernel
import GiantCore.Validation.ChainState
import GiantCore.Validation.BlockSupply
import GiantCore.Validation.ConnectBlock
import GiantCore.Validation.ChainRun
import GiantCore.Validation.Overwrites
import GiantCore.Validation.DryRun
import GiantCore.Validation.ZerocoinRecords
import GiantCore.Validation.MintOnce
import GiantCore.Validation.ZerocoinSupply
import GiantCore.Validation.SupplyRecalculation
import GiantCore.Validation.MoneySupply
import GiantCore.Spork.Spork
import GiantCore.Spork.Persistence
import GiantCore.Spork.Authenticity
import GiantCore.Mempool.Pool
import GiantCore.Mempool.Index
import GiantCore.Mempool.Removal
import GiantCore.Mempool.Backing
import GiantCore.Mempool.Check
import GiantCore.Mempool.ChainCoins
import GiantCore.Mempool.Accept
import GiantCore.Mempool.DoubleSpend
import GiantCore.Validation.VerifyDB
import GiantCore.Validation.AccumulatorErasure
import GiantCore.Validation.Reindex
import GiantCore.Mining.Selection
import GiantCore.Mining.Template
import GiantCore.BlockIndex.Tree
import GiantCore.BlockIndex.Selection
import GiantCore.BlockIndex.Activation
import GiantCore.BlockIndex.BestChain
import GiantCore.BlockIndex.Checked
import GiantCore.Foundation.MerkleTree
import GiantCore.Validation.MerkleRoot
import GiantCore.MerkleBlock.PartialTree
import GiantCore.MerkleBlock.Soundness
import GiantCore.Budget.VoteConvergence
import GiantCore.Budget.VoteCount
import GiantCore.Budget.Payout
import GiantCore.SwiftTx.LockHeight
import GiantCore.Masternode.BlockHashCache
import GiantCore.Network.BlocksInFlight
import GiantCore.Network.AddrMan
import GiantCore.Network.AddrTables
import GiantCore.Network.AddrConsistency
import GiantCore.Network.AddrCalls
import GiantCore.Storage.BlockFiles
import GiantCore.BlockIndex.ActiveChain
import GiantCore.Chain.Retarget
import GiantCore.Chain.Work
import GiantCore.Coins.Codec
import GiantCore.Coins.Compressor
import GiantCore.Foundation.VarInt
import GiantCore.Mining.CoinStake
import GiantCore.Mining.Rewards
import GiantCore.Stake.TargetHit
import GiantCore.Zerocoin.SpendScript
import GiantCore.Foundation.Loop
import GiantCore.Zerocoin.MintScript
import GiantCore.Zerocoin.ChecksumHeight
import GiantCore.Zerocoin.WitnessLoops
import GiantCore.Zerocoin.WitnessTruth
import GiantCore.Zerocoin.LightWitness
import GiantCore.Mempool.RecursiveRemoval
import GiantCore.Mempool.CoinbaseEviction
import GiantCore.Script.Standard
import GiantCore.Network.BloomFilter
import GiantCore.Network.ScriptReaders
import GiantCore.Mempool.Orphans
import GiantCore.Script.SignatureHash
import GiantCore.Masternode.RankOrder
import GiantCore.Masternode.RandomPick
import GiantCore.Masternode.ListCleaning
import GiantCore.Foundation.Greedy
import GiantCore.Budget.ProposalCycles
import GiantCore.Budget.Allocation
import GiantCore.Wallet.CoinSelection
import GiantCore.Coins.StackRuns
import GiantCore.Masternode.PaymentQueue
import GiantCore.Script.Pushes
import GiantCore.Script.NormalPayment
import GiantCore.Script.ScriptNumbers
import GiantCore.Foundation.Positional
import GiantCore.Primitives.Base58
import GiantCore.Coins.Amounts
import GiantCore.Coins.UndoCodec
import GiantCore.Storage.WireIntegers
import GiantCore.Validation.MerkleBranch
import GiantCore.Foundation.Limbs
import GiantCore.Primitives.BaseUint
import GiantCore.Chain.CompactForm
import GiantCore.Foundation.Tally
import GiantCore.Validation.CheckQueue
import GiantCore.Foundation.Framing
import GiantCore.Network.Messages
import GiantCore.Network.Connection
import GiantCore.Foundation.Buffers
import GiantCore.Foundation.BlockStream
import GiantCore.Network.Alerts
import GiantCore.Crypto.Hashers
import GiantCore.Runtime.Scheduler
import GiantCore.Wallet.KeyPool
