import ApiServer.Lib.Base64Url
import ApiServer.Lib.Sha256
import ApiServer.Lib.Utf8
import ApiServer.Validation.IntField
import ApiServer.Validation.TextField
import ApiServer.Jwt.Soundness
import ApiServer.Jwt.Injection
import ApiServer.TaskPool.DoubleFree
import ApiServer.Pipeline.ExactlyOnce
import ApiServer.Pipeline.Wakeup
import ApiServer.Admission
import ApiServer.ClientAddress
import ApiServer.Handlers.CleanReply
import ApiServer.Isolation
import ApiServer.Login
import ApiServer.Customer.TokenCache
import ApiServer.Dbapi.HandleSafety
import ApiServer.Dbapi.Faithful
import ApiServer.Lib.Calendar
import ApiServer.Validation.Sales
import ApiServer.Worker.ErrorReply
import ApiServer.Dbapi.NativeJson
import ApiServer.Lib.JsonContext
import ApiServer.Dbapi.ColumnKey
import ApiServer.Dbapi.MultiResult
import ApiServer.Dbapi.Truncation
import ApiServer.Logger.Record
import ApiServer.Lib.Pieces
import ApiServer.Lib.Ring
import ApiServer.Logger
import ApiServer.Logger.Pool
import ApiServer.Logger.Shutdown
import ApiServer.JsonUtil.Encoding
import ApiServer.Dbapi.Staging
import ApiServer.Numeric.Integer
import ApiServer.Lib.Decimal
import ApiServer.Numeric.Decimal
import ApiServer.Worker.Payload
import ApiServer.Dbapi.Arena
import ApiServer.Config.Load
import ApiServer.Config.Cors
import ApiServer.Config.EnvFile
import ApiServer.Config.Reload
import ApiServer.Handlers.Upload
import ApiServer.Lib.WriteLoop
import ApiServer.Logger.Write
import ApiServer.HttpClient.Response
import ApiServer.Pipeline.Capacity
import ApiServer.Pipeline.Monitor.Fair
import ApiServer.Server.Stats
import ApiServer.Startup
import ApiServer.HttpClient.Request
