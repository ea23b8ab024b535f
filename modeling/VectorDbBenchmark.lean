import VectorDbBenchmark.Kit.BoolTree
import VectorDbBenchmark.Kit.GroupSyntax
import VectorDbBenchmark.Chroma.Faithful
import VectorDbBenchmark.CompoundText.Agreement
import VectorDbBenchmark.EffectiveConfig.Recorder
import VectorDbBenchmark.IndexNaming.Isolation
import VectorDbBenchmark.Kividb.SkippedParts
import VectorDbBenchmark.Hybrid.CheckSound
import VectorDbBenchmark.Hybrid.BuiltFilter
import VectorDbBenchmark.Hybrid.OpenSearchBuilt
import VectorDbBenchmark.HybridRrf.Fusion
import VectorDbBenchmark.HybridRrf.Reply
import VectorDbBenchmark.HybridRrf.Score
import VectorDbBenchmark.HybridRrf.Lattice
import VectorDbBenchmark.Milvus.Faithful
import VectorDbBenchmark.Mixed.Ratio
import VectorDbBenchmark.Mongo.CatchupGate
import VectorDbBenchmark.Mongo.Search
import VectorDbBenchmark.Msmarco.TermChoice
import VectorDbBenchmark.Msmarco.TopK
import VectorDbBenchmark.Msmarco.PublicationRecovery
import VectorDbBenchmark.Msmarco.StreamedCorpus
import VectorDbBenchmark.Qdrant.Faithful
import VectorDbBenchmark.QueryMetrics
import VectorDbBenchmark.Readers.CsrAcceptance
import VectorDbBenchmark.Readers.MultivectorReader
import VectorDbBenchmark.Readers.GroundTruth
import VectorDbBenchmark.Readers.StreamLayout
import VectorDbBenchmark.Redis.Hygiene
import VectorDbBenchmark.Redis.SearchReply
import VectorDbBenchmark.Redis.IndexingWait
import VectorDbBenchmark.Redis.RangeReading
import VectorDbBenchmark.Redis.ReadBack
import VectorDbBenchmark.Redis.QueryFaithful
import VectorDbBenchmark.Results.Recall
import VectorDbBenchmark.Results.DumpCodec
import VectorDbBenchmark.Results.Verdict
import VectorDbBenchmark.Search.Accounting
import VectorDbBenchmark.Search.Calibration
import VectorDbBenchmark.Search.WorkloadPlan
import VectorDbBenchmark.StartGate.Once
import VectorDbBenchmark.UploadStream.Complete
import VectorDbBenchmark.Turbopuffer.Faithful
import VectorDbBenchmark.Pgvector.Placeholders
import VectorDbBenchmark.Vectorsets.Faithful
import VectorDbBenchmark.Valkey.Faithful
import VectorDbBenchmark.Weaviate.Transports
import VectorDbBenchmark.Results.RankAgreement
import VectorDbBenchmark.FilterOnly.SearchParams
import VectorDbBenchmark.FilterOnly.RedisCommand
import VectorDbBenchmark.Parsers.Info
import VectorDbBenchmark.Msmarco.GroundTruth
import VectorDbBenchmark.Msmarco.Counting
import VectorDbBenchmark.Msmarco.DerivedRow
import VectorDbBenchmark.Msmarco.DerivedCorpus
import VectorDbBenchmark.Msmarco.DocidExtract
import VectorDbBenchmark.Msmarco.Histogram
import VectorDbBenchmark.Msmarco.ShippedCheck
import VectorDbBenchmark.Search.OpenLoopPlan
import VectorDbBenchmark.RedisTransport.ScanPrefix
import VectorDbBenchmark.Fulltext.RankedPage
import VectorDbBenchmark.Fulltext.IndexProfile
import VectorDbBenchmark.Fulltext.FilteredFields
import VectorDbBenchmark.Fulltext.Requests
import VectorDbBenchmark.CompoundText.SuiteWitnesses
import VectorDbBenchmark.FilterOnly.IndexLayout
import VectorDbBenchmark.Msmarco.PassagePayload
import VectorDbBenchmark.Msmarco.ShardRecovery
import VectorDbBenchmark.Msmarco.RemappedHits
import VectorDbBenchmark.OpenSearch.BulkUpload
import VectorDbBenchmark.Redis.HashUpload
