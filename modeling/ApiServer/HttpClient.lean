import ApiServer.JsonC

/-!
# Requests to other servers (`lib/http_client.c`)

The remote side is what it answers.
-/

namespace ApiServer

/-- The arguments of `http_client_post_json`. -/
structure PostJson where
  baseUrl : Bytes
  uri : Bytes
  body : Bytes
  headers : List Bytes

/-- What `http_client_post_json` returns, and the status it stores if it comes that far. -/
structure HttpAnswer where
  json : Option Json := none
  code : Option Int := none

end ApiServer
