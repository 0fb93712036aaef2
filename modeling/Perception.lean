import Perception.Lib.Traced
import Perception.Lib.Fifo
import Perception.Lib.Framing
import Perception.Lib.Stuffing
import Perception.Buf.SmartBuffer
import Perception.Net.CalcCrc
import Perception.Net.Convt
import Perception.Net.NetTcpDataPkg
import Perception.Net.Frame
import Perception.Net.Deframer
import Perception.Net.RoundTrip
import Perception.Net.Resync
import Perception.Net.Runs
import Perception.Net.DecodeBound
import Perception.Lib.SortedMap
import Perception.Transfer.TcpTransferMng
import Perception.Cfg.Json
import Perception.Lib.StateExcept
import Perception.Cfg.ParseJson
import Perception.Db.SqliteDbMng
import Perception.Db.SqliteDbSvr
import Perception.Cfg.CfgMng
import Perception.Db.InitTables
import Perception.Cfg.Update
import Perception.Cfg.Rows
import Perception.Cfg.Mirror
import Perception.Cfg.Allocation
import Perception.Cfg.Atomicity
import Perception.Lib.Strtok
import Perception.Cfg.LoadCfg
import Perception.Cfg.Persistence
import Perception.Cfg.Reload
import Perception.Transfer.Dispatch
import Perception.Cfg.IndexUnique
import Perception.Cfg.Query
import Perception.Cfg.SetGet
import Perception.Cfg.Tasks
import Perception.Cfg.Lookup
import Perception.Transfer.Cameras
import Perception.Transfer.VideoModule
import Perception.Alg.Subscription
import Perception.Lib.History
import Perception.RedisDb.FSRedis
import Perception.RedisDb.RedisMng
import Perception.RedisDb.SaveAck
import Perception.RedisDb.Exclusive
import Perception.App.CommSafe
import Perception.App.OnlyConfigured
import Perception.App.AlertHistory
import Perception.Rtsp.FFmpeg
import Perception.Rtsp.RtspCliMng
import Perception.Rtsp.PictureSize
import Perception.Rtsp.Watchdog
import Perception.Rpc.Discipline
import Perception.Http.HttpClient
import Perception.Http.Packets
import Perception.Db.AllOrNothing
import Perception.App.Report
import Perception.App.AlertPaging
import Perception.Alg.FaceAlg
import Perception.App.FaceLibrary
import Perception.Lib.Directive
import Perception.RedisDb.Command
import Perception.RedisDb.SaveRead
import Perception.Lib.LastFound
import Perception.Onvif.OnvifIpc
import Perception.Onvif.Discovery
import Perception.Lib.CondVar
import Perception.Mutex.RWLock
import Perception.Lib.Arena
import Perception.Mem.MmPool
import Perception.Net.PackBounds
import Perception.Net.Rejected
import Perception.App.TaskList
import Perception.Lib.Elimination
import Perception.Alg.Nms
import Perception.Img.Slices
import Perception.App.HelmetAlarm
import Perception.Alg.FaceMapping
import Perception.Alg.FaceNms
import Perception.Lib.Ranking
import Perception.Alg.Priorbox
import Perception.Alg.FaceDetect
import Perception.Alg.ModelMap
import Perception.Db.RowFidelity
import Perception.Db.Query
import Perception.App.BatchBounds
import Perception.App.AlertSource
import Perception.RedisDb.ReplyKept
import Perception.RedisDb.Retry
import Perception.Lib.Undo
import Perception.Comm.Des
import Perception.Comm.DesSchedule
import Perception.Comm.DesInverse
import Perception.Comm.TripleDes
import Perception.Comm.ObjectPool
import Perception.Lib.Calendar
import Perception.Lib.Printed
import Perception.Comm.CommFun
import Perception.EnDecode.Base64
import Perception.EnDecode.RoundTrip
import Perception.EnDecode.DecodeBounds
import Perception.Lib.Cut
import Perception.Lib.Multipart
import Perception.Http.Multipart
import Perception.Onvif.DetectBounds
import Perception.Lib.CBuffer
import Perception.Onvif.AuthUri
import Perception.Lib.Similarity
import Perception.Alg.FaceAlignment
import Perception.Lib.Crc
import Perception.Net.CrcBitwise
import Perception.Net.ConvtCalls
import Perception.Lib.Block
import Perception.Buf.Memory
import Perception.Buf.Refinement
import Perception.Thread.BThreadPool
import Perception.Thread.CThread
import Perception.ParallelTask.TaskGroup
import Perception.Lib.Parallel
import Perception.ParallelTask.ParallelAlg
import Perception.DataStruct.Trie
import Perception.DataStruct.WordCount
import Perception.DataStruct.MaxPrefix
import Perception.Lib.Precedence
import Perception.Lib.Wiring
import Perception.MetaNN.Topology
import Perception.MetaNN.FeedbackOut
import Perception.MetaNN.ComposeKernel
import Perception.MetaNN.Equations
import Perception.MetaNN.Reordering
import Perception.MetaNN.Backward
import Perception.MetaNN.Gradient
import Perception.MetaNN.Lawful
import Perception.MetaNN.Layers
import Perception.MetaNN.Velocity
import Perception.MetaNN.WeightLaws
import Perception.MetaNN.ElementaryLaws
import Perception.MetaNN.Networks
import Perception.MetaNN.Training
import Perception.MetaNN.Composed
import Perception.MetaNN.Recurrent
import Perception.MetaNN.Gru
import Perception.Lib.WriteOnce
import Perception.MetaNN.EvalPlan
import Perception.MetaNN.Evaluate
import Perception.MetaNN.SoftmaxNll
