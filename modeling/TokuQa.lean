import TokuQa.Lib.Batches
import TokuQa.Lib.Binary64
import TokuQa.Lib.Blocks
import TokuQa.Lib.ByteBuffer
import TokuQa.Lib.CString
import TokuQa.Lib.Components
import TokuQa.Lib.Connections
import TokuQa.Lib.Crc
import TokuQa.Lib.CrcPolynomial
import TokuQa.Lib.Cumulative
import TokuQa.Lib.Decimal
import TokuQa.Lib.Deck
import TokuQa.Lib.Fallible
import TokuQa.Lib.Gaps
import TokuQa.Lib.JavaDouble
import TokuQa.Lib.JavaInt
import TokuQa.Lib.JavaString
import TokuQa.Lib.KeyedList
import TokuQa.Lib.Moments
import TokuQa.Lib.MysqlLexer
import TokuQa.Lib.OrderStat
import TokuQa.Lib.Paging
import TokuQa.Lib.Phases
import TokuQa.Lib.PositionIndex
import TokuQa.Lib.Qsort
import TokuQa.Lib.RandomRun
import TokuQa.Lib.Recent
import TokuQa.Lib.Rejection
import TokuQa.Lib.Residue
import TokuQa.Lib.Restart
import TokuQa.Lib.Ring
import TokuQa.Lib.RowLocks
import TokuQa.Lib.Rows
import TokuQa.Lib.Run
import TokuQa.Lib.Selection
import TokuQa.Lib.SortedSet
import TokuQa.Lib.Statements
import TokuQa.Lib.Stride
import TokuQa.Lib.Table
import TokuQa.Lib.Tally
import TokuQa.Lib.Threads
import TokuQa.Lib.Throttle
import TokuQa.Lib.Thrown
import TokuQa.Lib.Trace
import TokuQa.Lib.Txn
import TokuQa.Lib.Window
import TokuQa.Lib.WorkQueue
import TokuQa.FractalTree.Image
import TokuQa.FractalTree.Unused
import TokuQa.Iibench.CharFields
import TokuQa.Iibench.InsertThrottle
import TokuQa.Iibench.QueryThread
import TokuQa.Iibench.TableSize
import TokuQa.Jtest.Deleter
import TokuQa.LinkBench.AccessDistributions
import TokuQa.LinkBench.Contract
import TokuQa.LinkBench.ExpectedCount
import TokuQa.LinkBench.HBaseAtomicity
import TokuQa.LinkBench.HBaseLink
import TokuQa.LinkBench.History
import TokuQa.LinkBench.HistoryPaging
import TokuQa.LinkBench.ID2Chooser
import TokuQa.LinkBench.InvertibleShuffler
import TokuQa.LinkBench.LatencyBuckets
import TokuQa.LinkBench.LatencyStats
import TokuQa.LinkBench.LinkCounts
import TokuQa.LinkBench.LinkDistributions
import TokuQa.LinkBench.LinkStore
import TokuQa.LinkBench.Load
import TokuQa.LinkBench.LoadConserve
import TokuQa.LinkBench.LoadMR
import TokuQa.LinkBench.LoadMysql
import TokuQa.LinkBench.LoadRequest
import TokuQa.LinkBench.LoadWork
import TokuQa.LinkBench.LookupCounts
import TokuQa.LinkBench.Memory
import TokuQa.LinkBench.MemoryNodes
import TokuQa.LinkBench.MemoryRefine
import TokuQa.LinkBench.MotifDataGenerator
import TokuQa.LinkBench.Mysql
import TokuQa.LinkBench.MysqlAttempt
import TokuQa.LinkBench.MysqlCounts
import TokuQa.LinkBench.MysqlLiteral
import TokuQa.LinkBench.MysqlMultiget
import TokuQa.LinkBench.MysqlNodes
import TokuQa.LinkBench.MysqlRequesters
import TokuQa.LinkBench.MysqlRetry
import TokuQa.LinkBench.NodeLoader
import TokuQa.LinkBench.NodeStore
import TokuQa.LinkBench.OpChooser
import TokuQa.LinkBench.OpMultiple
import TokuQa.LinkBench.PiecewiseLinear
import TokuQa.LinkBench.Progress
import TokuQa.LinkBench.Quantile
import TokuQa.LinkBench.RequestId
import TokuQa.LinkBench.RightPoints
import TokuQa.LinkBench.RocksDb
import TokuQa.LinkBench.RocksMultiget
import TokuQa.LinkBench.SampledStats
import TokuQa.LinkBench.Shuffler
import TokuQa.LinkBench.UniformDistribution
import TokuQa.MongoIibench.Estimate
import TokuQa.MongoIibench.FinalReport
import TokuQa.MongoIibench.Machine
import TokuQa.MongoIibench.Partitions
import TokuQa.MongoIibench.Shutdown
import TokuQa.MongoSysbench.Backup
import TokuQa.MongoSysbench.DocumentSet
import TokuQa.MongoSysbench.Documents
import TokuQa.MongoSysbench.Load
import TokuQa.MongoSysbench.Transaction
import TokuQa.Scripts.Boxcar
import TokuQa.Scripts.Compare
import TokuQa.Scripts.ExitThruput
import TokuQa.Scripts.Texts
import TokuQa.Sysbench.AsyncIo
import TokuQa.Sysbench.BulkInsert
import TokuQa.Sysbench.Checkpoints
import TokuQa.Sysbench.Crc32
import TokuQa.Sysbench.DamagedBlocks
import TokuQa.Sysbench.EmulatedStatement
import TokuQa.Sysbench.EmulatedValues
import TokuQa.Sysbench.EventRetry
import TokuQa.Sysbench.FileIo
import TokuQa.Sysbench.FsyncSweeps
import TokuQa.Sysbench.LuaParams
import TokuQa.Sysbench.MemoryTest
import TokuQa.Sysbench.OltpEvents
import TokuQa.Sysbench.OperReport
import TokuQa.Sysbench.OptSize
import TokuQa.Sysbench.Options
import TokuQa.Sysbench.OptionsHeap
import TokuQa.Sysbench.ParallelPrepare
import TokuQa.Sysbench.Percentile
import TokuQa.Sysbench.RandDist
import TokuQa.Sysbench.RandUniq
import TokuQa.Sysbench.RateLimit
import TokuQa.Sysbench.ReadConfig
import TokuQa.Sysbench.ReportSchedule
import TokuQa.Sysbench.RndRequests
import TokuQa.Sysbench.RwRatio
import TokuQa.Sysbench.SeqRequests
import TokuQa.Sysbench.Timer
import TokuQa.Sysbench.TimerSplit
import TokuQa.Sysbench.Validate
import TokuQa.Sysbench.WriteConfig
import TokuQa.Tpcc.ByName
import TokuQa.Tpcc.Consistency
import TokuQa.Tpcc.DeliveredOnce
import TokuQa.Tpcc.Delivery
import TokuQa.Tpcc.DeliveryRetry
import TokuQa.Tpcc.Gen
import TokuQa.Tpcc.GenLines
import TokuQa.Tpcc.Ledger
import TokuQa.Tpcc.Load
import TokuQa.Tpcc.LoadConsistency
import TokuQa.Tpcc.LoadRows
import TokuQa.Tpcc.LoadScript
import TokuQa.Tpcc.LoadTables
import TokuQa.Tpcc.LoadedRuns
import TokuQa.Tpcc.LockOrder
import TokuQa.Tpcc.Neword
import TokuQa.Tpcc.OrderNumbers
import TokuQa.Tpcc.OrderStatus
import TokuQa.Tpcc.OriginalItems
import TokuQa.Tpcc.Payment
import TokuQa.Tpcc.PaymentEffect
import TokuQa.Tpcc.Permutation
import TokuQa.Tpcc.RateLimit
import TokuQa.Tpcc.ResponseTimes
import TokuQa.Tpcc.Schema
import TokuQa.Tpcc.Sequence
import TokuQa.Tpcc.Support
import TokuQa.Tpcc.Transactions
import TokuQa.Tpcc.YearToDate
