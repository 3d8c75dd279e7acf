import ApiServer.Lib.CBuf

/-!
# The thread-local variables of a worker (`lib/context.c`, `lib/thread_error.c`)

With them go the request id of `lib/logger.c` and the last native error of `lib/dbapi.c`.
-/

namespace ApiServer

inductive ThreadErrorLevel where
  | none | warn | error
  deriving DecidableEq

structure ThreadLocals where
  user : CBuf 33 := .empty
  session : CBuf 37 := .empty
  clientIp : CBuf 64 := .empty
  uri : CBuf 1024 := .empty
  contentType : CBuf 128 := .empty
  errLevel : ThreadErrorLevel := .none
  errMsg : CBuf 1024 := .empty
  requestId : CBuf 128 := .empty
  lastNativeError : Int := 0
  lastErrorMsg : CBuf 512 := .empty
  deriving DecidableEq

/-- Copy a nullable string; a null pointer empties the array. -/
def copyOrClear (n : Nat) : Option Bytes → CBuf n
  | some s => .strlcpy n s
  | none => .empty

section
variable (tls : ThreadLocals)

def contextSet (user session clientIp uri : Option Bytes) : ThreadLocals :=
  { tls with
    user := copyOrClear 33 user
    session := copyOrClear 37 session
    clientIp := copyOrClear 64 clientIp
    uri := copyOrClear 1024 uri }

def contextClear : ThreadLocals :=
  { tls with user := .empty, session := .empty, clientIp := .empty, uri := .empty,
             contentType := .empty }

def contextGetUser : Option Bytes := tls.user.get

def contextGetSessionId : Option Bytes := tls.session.get

def contextGetContentType : Option Bytes := tls.contentType.get

/-- `set_thread_error` of a formatted message. -/
def setThreadError (level : ThreadErrorLevel) (msg : Bytes) : ThreadLocals :=
  { tls with errLevel := level, errMsg := .strlcpy 1024 msg }

def clearThreadError : ThreadLocals := { tls with errLevel := .none, errMsg := .empty }

def loggerSetRequestId (reqId : Option Bytes) : ThreadLocals :=
  { tls with requestId := copyOrClear 128 reqId }

def loggerClearRequestId : ThreadLocals := { tls with requestId := .empty }

end
end ApiServer
