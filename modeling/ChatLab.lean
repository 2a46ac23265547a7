import ChatLab.Foundation.Machine
import ChatLab.Foundation.Decimal
import ChatLab.Foundation.OrderedMap
import ChatLab.Domain
import ChatLab.Foundation.Pagination
import ChatLab.Storage.Database
import ChatLab.Foundation.PrefetchIterator
import ChatLab.Storage.MessageRepository
import ChatLab.Storage.MessageScan
import ChatLab.Storage.MessagePages
import ChatLab.Storage.AnalysisRepository
import ChatLab.Storage.AnalysisScan
import ChatLab.Storage.AnalysisPages
import ChatLab.Foundation.Log
import ChatLab.Storage.AnalysisHistory
import ChatLab.Storage.AnalysisSearch
import ChatLab.Storage.TaskQueue
import ChatLab.Storage.ServingOrder
import ChatLab.Foundation.WriteBatch
import ChatLab.Storage.RepeatedWrites
import ChatLab.Storage.RecordFormat
import ChatLab.Sink.AnalysisSink
import ChatLab.Services.AnalyzerService
import ChatLab.Grpc.FileAnalyzerServer
import ChatLab.Sink.QueuedTypes
import ChatLab.Sink.Enrichment
import ChatLab.Sink.LostUpdate
import ChatLab.Sink.EnrichmentEffect
import ChatLab.Sink.DirectAnalysis
import ChatLab.Sink.TaskOrder
import ChatLab.Foundation.SliceHeap
import ChatLab.Runtime.Coordinator
import ChatLab.Workers.FileTmpJob
import ChatLab.Runtime.Broadcast
import ChatLab.Workers.JobPipeline
import ChatLab.Workers.ChatPipeline
import ChatLab.Foundation.PatternSearch
import ChatLab.Moderation.Residue
import ChatLab.Moderation.Disguise
import ChatLab.Workers.Telemetry
import ChatLab.Ai.Vectorizer
import ChatLab.Transfer.Scanner
import ChatLab.Transfer.Accumulator
import ChatLab.Transfer.Answer
import ChatLab.Foundation.Filepath
import ChatLab.Transfer.Integrity
import ChatLab.Transfer.SizeBound
import ChatLab.Transfer.Download
import ChatLab.Transfer.Isolation
import ChatLab.Transfer.Cleanup
import ChatLab.Runtime.Registry
import ChatLab.Storage.UserRepository
import ChatLab.Workers.FileTransfer
import ChatLab.Auth.Token
import ChatLab.Grpc.Interceptor
import ChatLab.Grpc.ChatServer
import ChatLab.Foundation.Chunks
import ChatLab.Grpc.SpecialistClient
import ChatLab.Auth.Password
import ChatLab.Auth.StoredHash
import ChatLab.Services.AuthService
import ChatLab.Foundation.Bag
import ChatLab.Sink.Buffer
import ChatLab.Sink.FailedFlush
import ChatLab.Workers.FileScanner
import ChatLab.Workers.ScanDeadlock
import ChatLab.Workers.ScannerSupervision
import ChatLab.Foundation.Relay
import ChatLab.Runtime.Orchestrator
import ChatLab.Runtime.Conservation
import ChatLab.Runtime.Delivery
import ChatLab.Runtime.Shutdown
import ChatLab.Runtime.Exits
import ChatLab.Runtime.Master
import ChatLab.Runtime.Termination
import ChatLab.Workers.Supervisor
import ChatLab.Workers.Restarts
import ChatLab.Foundation.Utf8
import ChatLab.Foundation.Fields
import ChatLab.Inspector
import ChatLab.Search
import ChatLab.Foundation.Interleaving
import ChatLab.Storage.SharedStore
import ChatLab.Workers.FileSender
import ChatLab.Workers.Upload
import ChatLab.Workers.SenderRestarts
import ChatLab.Workers.Poller
import ChatLab.Workers.TmpFiles
import ChatLab.Workers.Draining
import ChatLab.Runtime.ChatHistory
import ChatLab.Grpc.AuthServer
import ChatLab.Grpc.Sessions
import ChatLab.Runtime.LiveRooms
import ChatLab.Grpc.SpecialistServers
import ChatLab.Transfer.SpecialistInput
import ChatLab.Runtime.Loader
import ChatLab.Runtime.Boot
import ChatLab.Runtime.Monitoring
import ChatLab.Workers.ScanStatistics
