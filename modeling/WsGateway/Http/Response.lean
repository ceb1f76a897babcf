import WsGateway.Lib.HeaderText

/-!
# `buildResponseStringBuffer`

The text of a backend's response, as it goes back to the client.
-/

namespace WsGateway.Http

open Lib Lib.Http

/-- `http::response<http::string_body>`; the fields are in order, and may repeat. -/
structure Response where
  version : Nat
  result : Nat
  reason : Bytes
  fields : List Field
  body : Bytes

def versionText : Nat → Bytes
  | 10 => ascii "HTTP/1.0"
  | 11 => ascii "HTTP/1.1"
  | version => ascii "HTTP/" ++ decimal (version / 10) ++ ascii "." ++ decimal (version % 10)

def buildResponseStringBuffer (res : Response) : Bytes :=
  versionText res.version ++ sp :: (decimal res.result ++ sp :: (res.reason ++ (crlf ++
    (renderFields res.fields ++ res.body))))

theorem buildResponseStringBuffer_ne_nil (res : Response) : buildResponseStringBuffer res ≠ [] := by
  simp [buildResponseStringBuffer]

end WsGateway.Http
