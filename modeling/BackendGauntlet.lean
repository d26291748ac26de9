import BackendGauntlet.Arn
import BackendGauntlet.BrokerTopics
import BackendGauntlet.JobQueueDlq
import BackendGauntlet.JobQueueMetrics
import BackendGauntlet.JobQueuePoison
import BackendGauntlet.JobQueueRows
import BackendGauntlet.JobQueueWakeup
import BackendGauntlet.LiveIngestRegistry
import BackendGauntlet.LsmEngine
import BackendGauntlet.LsmServer
import BackendGauntlet.ObjectStoreCdcFraming
import BackendGauntlet.ObjectStoreFreshness
import BackendGauntlet.ObjectStoreGate
import BackendGauntlet.ObjectStoreGet
import BackendGauntlet.ObjectStoreHaystackCrashSafety
import BackendGauntlet.ObjectStoreHaystackRebootSafety
import BackendGauntlet.ObjectStoreHaystackScan
import BackendGauntlet.ObjectStoreIndexLock
import BackendGauntlet.ObjectStoreIndexPaths
import BackendGauntlet.ObjectStoreLocatorSafety
import BackendGauntlet.ObjectStoreLrc
import BackendGauntlet.ObjectStoreMatrixInverse
import BackendGauntlet.ObjectStoreNoncurrent
import BackendGauntlet.ObjectStorePresign
import BackendGauntlet.ObjectStoreRefinement
import BackendGauntlet.ObjectStoreRemoteIndexSafety
import BackendGauntlet.ObjectStoreS3XmlRoundTrip
import BackendGauntlet.ObjectStoreSplitSafety
import BackendGauntlet.ObjectStoreStreaming
import BackendGauntlet.ObjectStoreTieringReads
import BackendGauntlet.PubsubRosters
import BackendGauntlet.QueryParams
import BackendGauntlet.RaftLog
import BackendGauntlet.SearchIndex
import BackendGauntlet.UrlShortenerBase62
import BackendGauntlet.UrlShortenerIngest
import BackendGauntlet.UrlShortenerRateLimit
import BackendGauntlet.UrlShortenerStampede
import BackendGauntlet.UrlShortenerUrls
