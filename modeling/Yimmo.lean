import Yimmo.Core.Base64
import Yimmo.Core.BlockAlignment
import Yimmo.Core.CaseConversion
import Yimmo.Core.ConnClose
import Yimmo.Core.Connections
import Yimmo.Core.Deques
import Yimmo.Core.NetTls
import Yimmo.Core.Trie
import Yimmo.Core.TrieCapacity
import Yimmo.Core.TrieFlattening
import Yimmo.Core.TrieVisits
import Yimmo.Core.Utf8
import Yimmo.Core.Utf8Calls
import Yimmo.Core.Yaml
import Yimmo.Core.YamlBuffer
import Yimmo.Core.YamlDocuments
import Yimmo.Core.YamlPrint
import Yimmo.Http.BodyBounds
import Yimmo.Http.BodyBuffer
import Yimmo.Http.ChunkedRoundTrip
import Yimmo.Http.HeadSpace
import Yimmo.Http.HeaderBuffers
import Yimmo.Http.HeaderHash
import Yimmo.Http.HeaderMap
import Yimmo.Http.HeaderNodes
import Yimmo.Http.HeaderOrder
import Yimmo.Http.KeepAlive
import Yimmo.Http.ObjectRuns
import Yimmo.Http.ReadEffects
import Yimmo.Http.ReceiveSpace
import Yimmo.Http.RequestDelivery
import Yimmo.Http.RequestLines
import Yimmo.Http.ResponseLife
import Yimmo.Http.ResponseOrder
import Yimmo.Http.Session
import Yimmo.Http.SetCookies
import Yimmo.Http.StatusString
import Yimmo.Lib.Threads
import Yimmo.Lib.Utf8
import Yimmo.Mqtt.Malformed
import Yimmo.Ws.Buffered
import Yimmo.Ws.ChunkIndependence
import Yimmo.Ws.Closing
import Yimmo.Ws.Congruence
import Yimmo.Ws.Delivery
import Yimmo.Ws.Encode
import Yimmo.Ws.Fragmentation
import Yimmo.Ws.FrameBuffer
import Yimmo.Ws.Frames
import Yimmo.Ws.Parse
import Yimmo.Ws.ReadLoop
import Yimmo.Ws.SendQueue
import Yimmo.Ws.Session
import Yimmo.Ws.Text
import Yimmo.Ws.Unrolled
import Yimmo.Ws.UpgradeRequest
import Yimmo.Wsgi.Accounting
import Yimmo.Wsgi.Actions
import Yimmo.Wsgi.Balance
import Yimmo.Wsgi.EnvironNames
import Yimmo.Wsgi.HandOver
import Yimmo.Wsgi.Input
import Yimmo.Wsgi.Progress
import Yimmo.Wsgi.Release
import Yimmo.Wsgi.Runs
import Yimmo.Wsgi.Steps
import Yimmo.Wsgi.Supervisor
import Yimmo.Wsgi.Worker
import Yimmo.Lib.Monitors
