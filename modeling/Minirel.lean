import Minirel.Basic
import Minirel.Lib.Memory
import Minirel.Lib.Transition
import Minirel.Lib.ChainedTable
import Minirel.Lib.Buckets
import Minirel.Lib.Enumerate
import Minirel.Lib.Program
import Minirel.Lib.Contract
import Minirel.Lib.Listing
import Minirel.Lib.Access
import Minirel.Lib.Pairs
import Minirel.Page
import Minirel.Page.Layout
import Minirel.Page.Refinement
import Minirel.Page.Access
import Minirel.File
import Minirel.File.FreeList
import Minirel.File.Allocation
import Minirel.File.Failure
import Minirel.BufMgr
import Minirel.BufMgr.HashTable
import Minirel.BufMgr.Clock
import Minirel.BufMgr.AllocBuf
import Minirel.BufMgr.FlushFile
import Minirel.BufMgr.Calls
import Minirel.BufMgr.Mapping
import Minirel.BufMgr.Coherence
import Minirel.BufMgr.Failure
import Minirel.BufMgr.Flush
import Minirel.DB
import Minirel.DB.OpenFiles
import Minirel.DB.Close
import Minirel.Filter
import Minirel.Sort
import Minirel.Filter.Order
import Minirel.Storage
import Minirel.HeapFile
import Minirel.Flat
import Minirel.HeapFile.Chain
import Minirel.HeapFile.Object
import Minirel.HeapFile.Scan
import Minirel.HeapFile.Insert
import Minirel.HeapFile.Refinement
import Minirel.HeapFile.Writers
import Minirel.HeapFile.Table
import Minirel.HeapFile.Growth
import Minirel.HeapFile.Contract
import Minirel.HeapFile.Deletion
import Minirel.HeapFile.Mark
import Minirel.HeapFile.Restart
import Minirel.HeapFile.Count
import Minirel.HeapFile.Length
import Minirel.HeapFile.Pins
import Minirel.HeapFile.Creation
import Minirel.Catalog
import Minirel.Catalog.Rows
import Minirel.Catalog.Calls
import Minirel.Catalog.Database
import Minirel.Catalog.Refinement
import Minirel.Catalog.Dbcreate
import Minirel.Catalog.History
import Minirel.Catalog.Layout
import Minirel.Catalog.Consistency
import Minirel.Catalog.RoundTrip
import Minirel.Catalog.Capacity
import Minirel.Query
import Minirel.Interp
import Minirel.Alias
import Minirel.Query.Relation
import Minirel.Query.Populate
import Minirel.Query.Select
import Minirel.Query.Join
import Minirel.Query.Condition
import Minirel.Query.Delete
import Minirel.Query.Endless
import Minirel.Query.Source
import Minirel.Query.Alias
import Minirel.Query.Into
import Minirel.JoinHT
import Minirel.JoinHT.Agreement
import Minirel.JoinHT.Multimap
import Minirel.Query.Lookup
import Minirel.Insert
import Minirel.Query.Text
import Minirel.Query.Insert
import Minirel.Lib.Watch
import Minirel.Query.Scans
import Minirel.SortedFile
import Minirel.Lib.Merge
import Minirel.Lib.Pointwise
import Minirel.SortedFile.Next
import Minirel.SortedFile.Merge
import Minirel.SortedFile.Mark
import Minirel.SortedFile.Runs
import Minirel.Lib.Budget
import Minirel.Utility
import Minirel.Interp.Statements
import Minirel.Interp.Columns
import Minirel.Scanner
import Minirel.Parser
import Minirel.Parser.Nodes
import Minirel.Parser.Literals
import Minirel.Partition
import Minirel.Partition.Split
import Minirel.Lib.Resource
import Minirel.HeapFile.Calls
import Minirel.HeapFile.Holdings
import Minirel.Catalog.Holdings
import Minirel.Catalog.Runs
import Minirel.Query.Effects
import Minirel.Interp.Sound
import Minirel.Interp.Results
import Minirel.Interp.Effects
import Minirel.Interp.Holdings
import Minirel.Interp.Shell
import Minirel.Interp.Temporary
import Minirel.Interp.Release
import Minirel.Lib.Service
import Minirel.Engine
import Minirel.BufMgr.Supply
import Minirel.Engine.Ledger
import Minirel.Engine.Rep
import Minirel.Engine.PageCalls
import Minirel.Engine.FileCalls
import Minirel.Engine.Simulation
import Minirel.Engine.Conduct
import Minirel.Engine.HeapFile
import Minirel.Engine.Start
import Minirel.Engine.Objects
import Minirel.Engine.Sessions
import Minirel.Engine.Shared
