import Rko.HttpParse

namespace Rko

open CallProgram

def HttpError.statusText : HttpError → UInt16 × Bytes
  | .badRequest => (400, ascii "400 Bad Request\n")
  | .headerTooLarge => (431, ascii "431 Request Header Fields Too Large\n")
  | .payloadTooLarge => (413, ascii "413 Payload Too Large\n")
  | .connectionClosed => (500, ascii "500 Internal Server Error\n")
  | .internal => (500, ascii "500 Internal Server Error\n")

/-- Allocation failures leave out the body or a header. -/
def HttpError.toResponse (e : HttpError) : HttpProgram Response := do
  let body := if ← Program.ask .alloc then e.statusText.2 else []
  let headers := (← Headers.insert [] CONTENT_TYPE (ascii "text/plain")).getD []
  let headers := (← Headers.insert headers CONNECTION (ascii "close")).getD headers
  return ⟨e.statusText.1, .http11, headers, body⟩

def Request.keepalive (request : Request) : Bool :=
  match request.version with
  | .http11 => !request.headers.isConnectionClose
  | .http10 => request.headers.isConnectionKeepalive

/-- The loop of `handle_connection`, for `fuel` requests at most. -/
def serveLoop (httparse : Httparse) (config : ServerConfig) : Nat → BufReader → HttpProgram Unit
  | 0, _ => Program.abort
  | fuel + 1, reader => do
    match ← (parseRequest httparse config reader).attempt with
    | .error .connectionClosed => return ()
    | .error e => do
      let response ← e.toResponse
      let _ ← Program.ask (.writeResponse response)
      return ()
    | .ok (request, reader) => do
      let response : HttpCall.Reply (.handle request) ← Program.ask _
      if !(← Program.ask (.writeResponse response)) then return ()
      else if !request.keepalive then return ()
      else serveLoop httparse config fuel reader.reset

def handleConnection (httparse : Httparse) (config : ServerConfig) (fuel : Nat) :
    HttpProgram Unit := do
  match ← BufReader.new config.maxHeaderSize with
  | none => return ()
  | some reader => serveLoop httparse config fuel reader

end Rko
