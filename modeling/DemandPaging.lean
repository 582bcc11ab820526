import DemandPaging.Config
import DemandPaging.Address
import DemandPaging.Table
import DemandPaging.Replies
import DemandPaging.PageBytes
import DemandPaging.Handle
import DemandPaging.Errno
import DemandPaging.Panic
import DemandPaging.Memory.Pool
import DemandPaging.Memory.Buddy
import DemandPaging.Memory
import DemandPaging.Disk
import DemandPaging.Swap
import DemandPaging.File
import DemandPaging.FaultFlags
import DemandPaging.Console
import DemandPaging.Event
import DemandPaging.Page
import DemandPaging.FrameTable
import DemandPaging.Machine
import DemandPaging.Backing
import DemandPaging.Residency
import DemandPaging.Eviction
import DemandPaging.Claim
import DemandPaging.Space
import DemandPaging.Fork
import DemandPaging.Region
import DemandPaging.Fault
import DemandPaging.UserRange
import DemandPaging.UserAccess
import DemandPaging.Operation
import DemandPaging.SpinMutex
import DemandPaging.Startup
import DemandPaging.Proofs.Results
import DemandPaging.Proofs.Core
import DemandPaging.Proofs.Step
import DemandPaging.Proofs.Effects
import DemandPaging.Proofs.Filling
import DemandPaging.Proofs.FreePages
import DemandPaging.Proofs.SwapSlots
import DemandPaging.Proofs.Ownership
import DemandPaging.Proofs.Sound
import DemandPaging.Proofs.Guarded
import DemandPaging.Proofs.Contents
import DemandPaging.Proofs.Tracing
import DemandPaging.Proofs.Faults
import DemandPaging.Proofs.Spaces
import DemandPaging.Proofs.Accesses
import DemandPaging.Proofs.Surroundings
import DemandPaging.Proofs.Requests
import DemandPaging.Proofs.Runs
import DemandPaging.Proofs.MappingSafety
import DemandPaging.Proofs.Histories
import DemandPaging.Proofs.PrivateMemory
import DemandPaging.Proofs.Looks
import DemandPaging.Proofs.Sights
import DemandPaging.Proofs.MappedFiles
import DemandPaging.Proofs.Snapshots
import DemandPaging.Proofs.Handles
import DemandPaging.Proofs.Stock
import DemandPaging.Proofs.Lending
import DemandPaging.Proofs.Endings
import DemandPaging.Proofs.Tidy
import DemandPaging.Proofs.Upkeep
import DemandPaging.Proofs.Panics
import DemandPaging.Proofs.Statistics
import DemandPaging.Proofs.Debts
import DemandPaging.Proofs.Exits
import DemandPaging.Proofs.Charts
import DemandPaging.Proofs.Renewal
import DemandPaging.Proofs.Lifetimes
import DemandPaging.Proofs.Sharers
import DemandPaging.Proofs.Copying
import DemandPaging.Proofs.SpaceCopies
import DemandPaging.Proofs.UserWrites
import DemandPaging.Proofs.Reports
import DemandPaging.Proofs.FailedForks
import DemandPaging.Proofs.PageTypes
import DemandPaging.Proofs.MappedRegions
import DemandPaging.Proofs.ResolvedFaults
import DemandPaging.Proofs.FirstContents
import DemandPaging.Proofs.PageLives
import DemandPaging.Proofs.ShortReads
import DemandPaging.Proofs.Coherence
import DemandPaging.Proofs.Evictions
import DemandPaging.Proofs.FaultVerdicts
import DemandPaging.Proofs.SharedWrites
import DemandPaging.Proofs.InitializedFiles
import DemandPaging.Proofs.CheckedRanges
import DemandPaging.Proofs.MapVerdicts
import DemandPaging.Proofs.ClippedFiles
import DemandPaging.Proofs.WaitingPages
import DemandPaging.Proofs.FailedClaims
import DemandPaging.Proofs.Returns
import DemandPaging.Proofs.FailedCopies
import DemandPaging.Proofs.SlotStore
import DemandPaging.Proofs.AccessTimes
