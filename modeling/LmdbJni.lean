import LmdbJni.JavaCore
import LmdbJni.BufferCursorCore
import LmdbJni.DirectBufferPuts
import LmdbJni.DirectBufferScalars
import LmdbJni.BufferCursorRunCore
import LmdbJni.BufferCursorSteps
import LmdbJni.BufferCursorIndex
import LmdbJni.DirectBufferBytes
import LmdbJni.BufferCursorFrame
import LmdbJni.BufferCursorPosition
import LmdbJni.BufferCursorPending
import LmdbJni.BufferCursorFailure
import LmdbJni.Transaction
import LmdbJni.CursorCore
import LmdbJni.CursorCopy
import LmdbJni.EntryIteratorCore
import LmdbJni.EntryIterator
import LmdbJni.BufferCursorCopy
import LmdbJni.Library.OrderCode
import LmdbJni.KeyOrder
import LmdbJni.ValueRecords
import LmdbJni.Library.Reporting
import LmdbJni.Mutation
import LmdbJni.NativeBufferCore
import LmdbJni.NativeBuffer
import LmdbJni.NestedTransaction
import LmdbJni.MdbCursorCore
import LmdbJni.Library.Agreement
import LmdbJni.MdbCursor
import LmdbJni.DuplicateEnds
import LmdbJni.ZeroCopyCore
import LmdbJni.ZeroCopy
import LmdbJni.Lookup
import LmdbJni.AutoTransactionCore
import LmdbJni.AutoTransaction
import LmdbJni.Library.Confinement
import LmdbJni.DirectBufferBounds
import LmdbJni.BufferCursorGrowth
import LmdbJni.ByteBufferCopy
import LmdbJni.NativeBufferCopy
import LmdbJni.Library.Delimited
import LmdbJni.StringFields
import LmdbJni.EntryAccessors
import LmdbJni.Library.Cells
import LmdbJni.Library.Search
import LmdbJni.MidlCore
import LmdbJni.MidlSort
import LmdbJni.MidlLists
import LmdbJni.MidlCapacity
import LmdbJni.PageAllocCore
import LmdbJni.PageAlloc
import LmdbJni.FreelistSaveCore
import LmdbJni.FreelistSave
import LmdbJni.SnapshotCore
import LmdbJni.Snapshot
import LmdbJni.BtreeCore
import LmdbJni.BtreeOrder
import LmdbJni.BtreeSearch
import LmdbJni.BtreeCursor
import LmdbJni.BtreeCalls
import LmdbJni.BtreeWriteCore
import LmdbJni.BtreeSplit
import LmdbJni.BtreePut
import LmdbJni.BtreeDelete
import LmdbJni.BtreeStore
import LmdbJni.BtreeFull
