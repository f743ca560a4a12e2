import ZenonCore.CheckQueueWait
import ZenonCore.ScriptSlicing
import ZenonCore.MessageFraming
import ZenonCore.SporkAgreement
import ZenonCore.CacheTransparency
import ZenonCore.CandidateRuns
import ZenonCore.DisconnectAtomicity
import ZenonCore.BudgetForgery
import ZenonCore.WinnerForgery
import ZenonCore.SupplyRuns
import ZenonCore.SignedTexts
import ZenonCore.LockVoteForgery
import ZenonCore.StakeRetarget
import ZenonCore.StakeKernel
import ZenonCore.MerkleMutation
import ZenonCore.BlockIndexRestart
import ZenonCore.TransactionSoundness
import ZenonCore.ZerocoinValue
import ZenonCore.PreviousOutputs
import ZenonCore.OrphanIndex
import ZenonCore.InFlightAccounting
import ZenonCore.FileRanges
import ZenonCore.DownloadSchedule
import ZenonCore.ImportProgress
import ZenonCore.AssembledMint
import ZenonCore.BlockRemoval
import ZenonCore.PaymentVoteCounts
import ZenonCore.ProposalVotes
import ZenonCore.StakePayment
import ZenonCore.LockRequests
import ZenonCore.LockVoteDistinct
import ZenonCore.RankOrder
import ZenonCore.RankInverse
import ZenonCore.CoinWipe
import ZenonCore.QueueCount
import ZenonCore.RandomMasternode
import ZenonCore.ListCleanup
import ZenonCore.ModifierSelection
import ZenonCore.PingAdvance
import ZenonCore.PillarList
import ZenonCore.MinerSerials
import ZenonCore.ScriptSafety
import ZenonCore.VarInt
import ZenonCore.BloomRuns
import ZenonCore.BlockWork
import ZenonCore.ActiveChain
import ZenonCore.PartialMerkle
import ZenonCore.AddrManCheck
import ZenonCore.AddrManDisk
import ZenonCore.MoneyStrings
import ZenonCore.TimeData
import ZenonCore.KeyPool
import ZenonCore.LimitedMap
import ZenonCore.BlockSigning
import ZenonCore.CoinSelection
import ZenonCore.Addresses
