import Rko.Dialogue
import Rko.HttpHost
import Rko.HttpServer
import Rko.Interpretation

namespace Rko

open CallProgram Dialogue

/-- What either side of a connection asks for that does not concern the stream. -/
inductive HttpOwn
  | alloc
  | handle (request : Request)

@[reducible] def HttpOwn.Reply : HttpOwn → Type
  | alloc => Bool
  | handle _ => Response

/-- Code that works on a `TcpStream`. -/
abbrev StreamProgram := Party UInt8 HttpOwn Error HttpOwn.Reply Error

namespace TcpStream

/-- The loop of `write_all` on the bytes from `offset` on. -/
def writeRest : Nat → Bytes → StreamProgram (Except Error Unit)
  | _, [] => return .ok ()
  | 0, _ :: _ => Program.abort
  | fuel + 1, b :: rest => do
    let reply : Call.Reply Error HttpOwn.Reply (.write (b :: rest)) ← Program.ask _
    match reply with
    | .error e => return .error e
    | .ok ⟨n, _⟩ =>
      if n = 0 then return .error Error.ECONNRESET else writeRest fuel ((b :: rest).drop n)

/-- Every write takes a byte at least, so as many rounds as bytes are enough. -/
def writeAll (bytes : Bytes) : StreamProgram (Except Error Unit) := writeRest bytes.length bytes

end TcpStream

def wireCalls : (op : WireCall) → StreamProgram op.Reply
  | .alloc => Program.ask (Call.own HttpOwn.alloc)
  | .writeAll bytes => TcpStream.writeAll bytes

/-- The loop of the server only looks whether the response could be written. -/
def httpCalls : (op : HttpCall) → StreamProgram op.Reply
  | .read room => Program.ask (Call.read room)
  | .alloc => Program.ask (Call.own HttpOwn.alloc)
  | .handle request => Program.ask (Call.own (HttpOwn.handle request))
  | .writeResponse response => do
    match ← (writeResponse response).interp wireCalls with
    | .ok () => return true
    | .error _ => return false

def serveStream (httparse : Httparse) (config : ServerConfig) (fuel : Nat) :
    StreamProgram (Except HttpError Unit) :=
  (handleConnection httparse config fuel).interp httpCalls

def HttpError.toError : HttpError → Error
  | .badRequest => Error.EINVAL
  | .headerTooLarge => Error.EINVAL
  | .payloadTooLarge => Error.E2BIG
  | .connectionClosed => Error.ECONNRESET
  | .internal => Error.ENOMEM

namespace HttpClient

/-- The value of the Host field: the address, or what the request says, or nothing. -/
def hostValue (addr : Option SocketAddr) (request : Request) : WireProgram Bytes :=
  match addr with
  | some addr => do Wire.formatHost addr (← Wire.withCapacity)
  | none =>
    match request.headers.get HOST with
    | some host => Wire.extend [] host
    | none => return []

/-- A result of the inner calls, with the error that the caller gets instead of theirs. -/
def mapErr {ε α : Type} (f : ε → Error) : Except ε α → StreamProgram α
  | .ok a => return a
  | .error e => Program.fail (f e)

/-- `BufReader::new` gave no reader when it could not allocate one. -/
def readResponse (httparse : HttparseResponse) : Option BufReader → StreamProgram Response
  | none => Program.fail Error.ENOMEM
  | some reader => do
    let (response, _) ← mapErr HttpError.toError
      (← (parseResponse httparse 8192 (1024 * 1024) reader).interp httpCalls)
    return response

def sendOnInner (httparse : HttparseResponse) (addr : Option SocketAddr) (request : Request) :
    StreamProgram Response := do
  let host ← mapErr id (← (hostValue addr request).interp wireCalls)
  mapErr (fun _ => Error.EIO) (← (writeRequest request host).interp wireCalls)
  let reader ← mapErr HttpError.toError (← (BufReader.new 8192).interp httpCalls)
  readResponse httparse reader

/-- One request after the other over one stream, up to the first that fails. -/
def sendAll (httparse : HttparseResponse) (addr : Option SocketAddr) :
    List Request → StreamProgram (List Response)
  | [] => return []
  | request :: requests => do
    let response ← sendOnInner httparse addr request
    return response :: (← sendAll httparse addr requests)

end HttpClient

end Rko
