import DigiWage.Primitives
import DigiWage.Serialize
import DigiWage.Lib.Trim
import DigiWage.Lib.Measure
import DigiWage.Lib.Run
import DigiWage.Lib.Ledger
import DigiWage.Lib.LastWriter
import DigiWage.Coins.Basic
import DigiWage.Coins.View
import DigiWage.Coins.Undo
import DigiWage.Coins.Burned
import DigiWage.Coins.Value
import DigiWage.Lib.WriteBack
import DigiWage.Coins.Cache
import DigiWage.Coins.Compressor
import DigiWage.Coins.Serialize
import DigiWage.Lib.Forest
import DigiWage.Chain.Compact
import DigiWage.Chain.Index
import DigiWage.Chain.State
import DigiWage.Chain.Active
import DigiWage.Chain.Link
import DigiWage.Chain.Arrivals
import DigiWage.Chain.Failure
import DigiWage.Chain.Candidates
import DigiWage.Chain.MostWork
import DigiWage.Chain.Reorg
import DigiWage.Chain.Activate
import DigiWage.Chain.BestChain
import DigiWage.Chain.Node
import DigiWage.Chain.Selection
import DigiWage.Chain.Pow
import DigiWage.Chain.Accept
import DigiWage.Chain.Difficulty
import DigiWage.Chain.Miner
import DigiWage.Stake.ColdStake
import DigiWage.Masternode.Payments
import DigiWage.Masternode.Votes
import DigiWage.Masternode.Budget
import DigiWage.Masternode.Superblock
import DigiWage.Masternode.Manager
import DigiWage.Masternode.Converge
import DigiWage.Chain.CheckBlock
import DigiWage.Supply.Connect
import DigiWage.Supply.Conservation
import DigiWage.Supply.Mint
import DigiWage.Supply.Recalculate
import DigiWage.Chain.Process
import DigiWage.Chain.ReorgDepth
import DigiWage.Stake.ForkStake
import DigiWage.Swift.Locks
import DigiWage.Swift.Release
import DigiWage.Swift.Order
import DigiWage.Swift.Count
import DigiWage.Spork
import DigiWage.Masternode.Announce
import DigiWage.Masternode.Resend
import DigiWage.Masternode.Collateral
import DigiWage.Masternode.Listing
import DigiWage.Masternode.Scores
import DigiWage.Lib.Election
import DigiWage.Masternode.Election
import DigiWage.Masternode.Winners
import DigiWage.Masternode.Forged
import DigiWage.Lib.Ballot
import DigiWage.Masternode.Elected
import DigiWage.Masternode.Sync
import DigiWage.Pool.Basic
import DigiWage.Pool.Node
import DigiWage.Pool.Known
import DigiWage.Pool.Invariant
import DigiWage.Pool.Check
import DigiWage.Pool.Final
import DigiWage.Lib.Blocks
import DigiWage.Hash
import DigiWage.Stake.Modifier
import DigiWage.Stake.Kernel
import DigiWage.Stake.Staker
import DigiWage.Lib.Fallible
import DigiWage.Script.Basic
import DigiWage.Script.Interpreter
import DigiWage.Script.Delegation
import DigiWage.Script.Flags
import DigiWage.Script.Solver
import DigiWage.Lib.Worklist
import DigiWage.Lib.Merkle
import DigiWage.Merkle.Computation
import DigiWage.Merkle.Root
import DigiWage.Pool.Remove
import DigiWage.Pool.Accept
import DigiWage.Lib.Samples
import DigiWage.Pool.Fees
import DigiWage.Masternode.Refused
import DigiWage.Merkle.Partial
import DigiWage.Merkle.Branch
import DigiWage.Net.Address
import DigiWage.Lib.Places
import DigiWage.Net.AddrCheck
import DigiWage.Net.AddrInv
import DigiWage.Net.AddrMoves
import DigiWage.Net.AddrFile
import DigiWage.Net.AddrReload
import DigiWage.Net.AddrRestore
import DigiWage.Net.AddrSafe
import DigiWage.Net.AddrRuns
import DigiWage.Coins.Size
import DigiWage.Masternode.Payout
import DigiWage.Lib.Greedy
import DigiWage.Masternode.Finalize
import DigiWage.Chain.Retarget
import DigiWage.Lib.Wrap
import DigiWage.Masternode.Expire
import DigiWage.Stake.Weight
import DigiWage.Masternode.Tally
import DigiWage.Net.AddrText
import DigiWage.Masternode.Replay
import DigiWage.Masternode.AutoVote
import DigiWage.Chain.SkipList
import DigiWage.Lib.InverseIndex
import DigiWage.Net.Orphans
import DigiWage.Lib.MapTotal
import DigiWage.Net.InFlight
import DigiWage.Coins.Exact
import DigiWage.Pool.Tip
import DigiWage.Lib.Extent
import DigiWage.Chain.BlockFiles
import DigiWage.Chain.Headers
import DigiWage.Stake.NullParent
import DigiWage.Script.Payment
import DigiWage.Script.SigOps
import DigiWage.Script.Limits
import DigiWage.Script.SignatureHash
import DigiWage.Lib.Bloom
import DigiWage.Net.Bloom
import DigiWage.Lib.Flagged
import DigiWage.Wallet.Coins
import DigiWage.Wallet.Create
import DigiWage.Stake.CoinStake
import DigiWage.Net.Download
import DigiWage.Lib.Limbs
import DigiWage.BaseUint
import DigiWage.Chain.CompactCode
import DigiWage.Chain.Work
import DigiWage.Lib.Multimap
import DigiWage.Net.LimitedMap
import DigiWage.Coins.Amounts
import DigiWage.Money
import DigiWage.Chain.Locator
import DigiWage.Chain.BlockCode
import DigiWage.Lib.Radix
import DigiWage.Base58
import DigiWage.Stake.Selected
import DigiWage.Base64
import DigiWage.Script.Encoding
import DigiWage.Chain.UndoFile
import DigiWage.Lib.Orphans
import DigiWage.BufferedFile
import DigiWage.Chain.Reindex
import DigiWage.Chain.ReindexFiles
import DigiWage.Chain.ReindexOrder
import DigiWage.Script.CheckQueue
import DigiWage.Lib.Frames
import DigiWage.Net.Message
import DigiWage.Net.Connection
import DigiWage.HashWriter
import DigiWage.Net.TimeData
