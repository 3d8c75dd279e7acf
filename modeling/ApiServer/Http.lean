import ApiServer.Lib.CBuf

/-!
# Requests and replies of libevent

Header values and the URI are C strings. The body of a request is the list of extents of its input
buffer.
-/

namespace ApiServer
open Bytes

/-- `enum evhttp_cmd_type`. -/
inductive Command where
  | get | post | head | put | delete | options | trace | connect | patch
  deriving DecidableEq

abbrev Headers := List (Bytes × Bytes)

/-- `evhttp_find_header`: the first match, whatever the case of its name. -/
def evhttpFindHeader (headers : Headers) (key : Bytes) : Option Bytes :=
  (headers.find? (eqNoCase ·.1 key)).map (cstr ·.2)

/-- `evhttp_add_header`. -/
def evhttpAddHeader (headers : Headers) (key value : Bytes) : Headers := headers ++ [(key, value)]

structure Request where
  /-- `evhttp_request_get_connection` is not null. -/
  connected : Bool := true
  /-- The address `evhttp_connection_get_peer` stores. -/
  peer : Option Bytes := none
  command : Command
  uri : Bytes
  inputHeaders : Headers := []
  inputBuffer : List Bytes := []

/-- What `evhttp_send_reply` sends; `page` is the error page libevent writes by itself. -/
structure Reply where
  code : Int
  reason : Bytes
  body : Bytes := []
  page : Bool := false
  deriving DecidableEq

/-- `evhttp_send_error` clears the headers that a reply has got and adds those of its page. -/
def evhttpSendError (code : Int) (reason : Bytes) : Headers × Reply :=
  ([(bytes "Content-Type", bytes "text/html"), (bytes "Connection", bytes "close")],
    { code, reason, page := true })

structure Timespec where
  sec : Int
  nsec : Int
  deriving DecidableEq

end ApiServer
