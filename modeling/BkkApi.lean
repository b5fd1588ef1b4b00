import BkkApi.Verified.Run
import BkkApi.Verified.Answers
import BkkApi.Verified.Tally
import BkkApi.Verified.Potential
import BkkApi.Verified.Outputs
import BkkApi.Verified.Lockstep
import BkkApi.Verified.Critical
import BkkApi.Verified.CData
import BkkApi.Verified.KeyStore
import BkkApi.Verified.Query
import BkkApi.Verified.Rounding
import BkkApi.Verified.FloatFormat
import BkkApi.Verified.Utf8
import BkkApi.Verified.Strtol
import BkkApi.Verified.Getopt
import BkkApi.Verified.Buffer
import BkkApi.Verified.Strings
import BkkApi.Server.Protocol
import BkkApi.Server.Cache
import BkkApi.Server.ArgParser
import BkkApi.Server.CommandLine
import BkkApi.Server.CacheReference
import BkkApi.Server.CacheCapacity
import BkkApi.Server.CacheSections
import BkkApi.Server.CacheProgress
import BkkApi.Server.ResponseParser
import BkkApi.Server.ResponseSchema
import BkkApi.Server.StopTimes
import BkkApi.Server.Departures
import BkkApi.Server.TimeArithmetic
import BkkApi.Server.TripAttribution
import BkkApi.Server.StoredTexts
import BkkApi.Server.Api
import BkkApi.Server.ApiQuery
import BkkApi.Server.ConcurrentParses
import BkkApi.Server.Workers
import BkkApi.Server.Wakeups
import BkkApi.Server.Conservation
import BkkApi.Server.Fetching
import BkkApi.Server.FetchOrder
import BkkApi.Server.HandleClient
import BkkApi.Server.Serving
import BkkApi.Server.Deliveries
import BkkApi.Server.Spellings
import BkkApi.Server.Transcript
import BkkApi.Server.UpstreamRequests
import BkkApi.Server.KeySecrecy
import BkkApi.Server.InFlight
import BkkApi.Server.Provenance
import BkkApi.Server.Contents
import BkkApi.Server.Failures
import BkkApi.Server.Connections
import BkkApi.Server.Packets
import BkkApi.Server.Shutdown
import BkkApi.Server.Workload
import BkkApi.Server.Progress
import BkkApi.Client.StopSearch
import BkkApi.Client.StopNames
import BkkApi.Client.ApiKeyFile
import BkkApi.Client.UdsClient
import BkkApi.Client.TestClient
import BkkApi.System.Exchange
import BkkApi.System.Courses
import BkkApi.System.Completion
import BkkApi.System.Display
import BkkApi.System.Screen
import BkkApi.System.Startup
