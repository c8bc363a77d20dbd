import ParseEmbedded.Json.Syntax
import ParseEmbedded.Json.Nesting
import ParseEmbedded.SimpleJson.Messages
import ParseEmbedded.SimpleJson.Splitting
import ParseEmbedded.SimpleJson.Processor
import ParseEmbedded.SimpleJson.KeyScan
import ParseEmbedded.SimpleJson.ExactKey
import ParseEmbedded.Library.Block
import ParseEmbedded.Library.Runs
import ParseEmbedded.Push.Buffer
import ParseEmbedded.Unix.Push
import ParseEmbedded.Unix.PushStep
import ParseEmbedded.Unix.PushBuffer
import ParseEmbedded.Push.Stream
import ParseEmbedded.Unix.PushDelivery
import ParseEmbedded.Rtos.Push
import ParseEmbedded.Rtos.PushStep
import ParseEmbedded.Rtos.PushBuffer
import ParseEmbedded.Library.Origin
import ParseEmbedded.Push.Service
import ParseEmbedded.Isolation
import ParseEmbedded.Unix.Request
import ParseEmbedded.Library.FileTree
import ParseEmbedded.Unix.KeyStore
import ParseEmbedded.Unix.Session
import ParseEmbedded.Unix.Durability
import ParseEmbedded.SimpleJson.Destination
import ParseEmbedded.Rtos.Client
import ParseEmbedded.Rtos.ClientState
import ParseEmbedded.Rtos.Http
import ParseEmbedded.Rtos.Request
import ParseEmbedded.Rtos.Exchange
import ParseEmbedded.Rtos.Installation
import ParseEmbedded.Rtos.Session
import ParseEmbedded.Rtos.Arrays
import ParseEmbedded.Rtos.Identity
import ParseEmbedded.Rtos.Durability
import ParseEmbedded.SimpleJson.CutText
import ParseEmbedded.SimpleJson.Values
import ParseEmbedded.Unix.CrashSafety
import ParseEmbedded.Library.Handles
import ParseEmbedded.Rtos.RequestSockets
import ParseEmbedded.Rtos.PushSockets
import ParseEmbedded.Rtos.NestedRequests
import ParseEmbedded.Unix.CurlHandles
import ParseEmbedded.Yun.Client
import ParseEmbedded.Yun.Provisioning
import ParseEmbedded.Json.Spots
import ParseEmbedded.SimpleJson.Surroundings
import ParseEmbedded.Push.Rescans
import ParseEmbedded.SimpleJson.FailedLookup
import ParseEmbedded.SimpleJson.Reads
import ParseEmbedded.SimpleJson.StoredText
import ParseEmbedded.Rtos.QueryResult
import ParseEmbedded.Rtos.PingTime
import ParseEmbedded.Rtos.Pings
import ParseEmbedded.Unix.PushLoop
import ParseEmbedded.Library.Looping
import ParseEmbedded.Rtos.SocketRead
import ParseEmbedded.Rtos.PeerClose
import ParseEmbedded.Rtos.SessionToken
import ParseEmbedded.Library.Balance
import ParseEmbedded.Rtos.CertificateFile
import ParseEmbedded.Yun.ArraySlices
import ParseEmbedded.Yun.JsonArrays
import ParseEmbedded.Library.LinkedList
import ParseEmbedded.Yun.PushQueue
import ParseEmbedded.Unix.Assembly
import ParseEmbedded.Library.InPlace
import ParseEmbedded.Yun.HeaderStrip
import ParseEmbedded.Library.Percent
import ParseEmbedded.Yun.UrlEncode
import ParseEmbedded.Library.Segments
import ParseEmbedded.Yun.EmptyJson
import ParseEmbedded.SimpleJson.SeveralObjects
import ParseEmbedded.Yun.CollectedValues
import ParseEmbedded.Unix.PushCallbacks
import ParseEmbedded.Unix.PushFragments
import ParseEmbedded.Yun.PushDaemon
import ParseEmbedded.Library.HttpText
import ParseEmbedded.Rtos.RequestReading
import ParseEmbedded.Library.Pacing
import ParseEmbedded.Unix.Heartbeats
import ParseEmbedded.Unix.Resume
import ParseEmbedded.Push.CutObjects
import ParseEmbedded.Unix.Blink
import ParseEmbedded.Unix.BlinkPanel
import ParseEmbedded.Unix.Listening
import ParseEmbedded.Unix.BlinkSchedule
import ParseEmbedded.Yun.QueryAnswers
import ParseEmbedded.Rtos.PushDelivery
import ParseEmbedded.Library.Fields
import ParseEmbedded.Rtos.BlinkConfig
import ParseEmbedded.Library.Resuming
import ParseEmbedded.Rtos.PushHistory
import ParseEmbedded.Unix.PushHistory
import ParseEmbedded.Library.Simulation
import ParseEmbedded.Yun.RequestCommand
import ParseEmbedded.ErrorCodes
import ParseEmbedded.Receivers
import ParseEmbedded.Rtos.BlinkQuery
