import HybridCache.Exclusivity
import HybridCache.BigHashFailure
import HybridCache.BlockCacheLookup
import HybridCache.ItemDestructor
import HybridCache.NoResurrection
import HybridCache.EnginePair
import HybridCache.RecordRoundTrip
import HybridCache.DriverDrain
import HybridCache.CompactCacheReads
import HybridCache.AllocationFlag
import HybridCache.MemoryPoolAccounting
import HybridCache.MM2QAgreement
import HybridCache.MMLruInsertionPoint
import HybridCache.CacheMapRefinement
import HybridCache.HashTableIteration
import HybridCache.ValueHistoryTrimming
import HybridCache.Cohort
import HybridCache.FurcHash
import HybridCache.MMTinyLFUQueues
import HybridCache.MultiDListIterator
import HybridCache.VariableLruSet
import HybridCache.NvmItemRoundTrip
import HybridCache.ChainedItemsRefinement
import HybridCache.CacheLibRecordSemantics
import HybridCache.DListRefinement
import HybridCache.PointerCompression
import HybridCache.WrapperPools
