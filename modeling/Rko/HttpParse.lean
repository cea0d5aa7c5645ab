import Rko.BufReader
import Rko.IncrementalParser

namespace Rko

open CallProgram IncrementalParser

structure RawRequest where
  method : Option Bytes
  path : Option Bytes
  version : Option UInt8
  headers : Headers
deriving DecidableEq, Repr

/-- `httparse::Request::parse` with room for 64 headers. -/
abbrev Httparse := IncrementalParser UInt8 RawRequest

/-- The reason phrase is not read. -/
structure RawResponse where
  version : Option UInt8
  code : Option UInt16
  headers : Headers
deriving DecidableEq, Repr

/-- `httparse::Response::parse` with room for 64 headers. -/
abbrev HttparseResponse := IncrementalParser UInt8 RawResponse

/-- Name, value and entry are allocated in turn. -/
def Headers.insert (headers : Headers) (name value : Bytes) : HttpProgram (Option Headers) := do
  if !(← Program.ask .alloc) then return none
  if !(← Program.ask .alloc) then return none
  if !(← Program.ask .alloc) then return none
  return some (headers ++ [(name, value)])

def Headers.insertAll (headers : Headers) : List (Bytes × Bytes) → HttpProgram Headers
  | [] => return headers
  | h :: hs => do
    match ← headers.insert h.1 h.2 with
    | none => Program.fail .internal
    | some headers => Headers.insertAll headers hs

/-- The loop of `read_body`, which reads behind the buffer of the reader. Every read makes
`remaining` smaller, so that many rounds are enough. -/
def readRest : Nat → Nat → Bytes → HttpProgram Bytes
  | _, 0, body => return body
  | 0, _ + 1, _ => Program.abort
  | fuel + 1, remaining + 1, body => do
    HttpProgram.allocate
    let reply : HttpCall.Reply (.read (remaining + 1)) ← Program.ask _
    match reply with
    | .error _ => Program.fail .connectionClosed
    | .ok ⟨bytes, _⟩ =>
      if bytes = [] then Program.fail .connectionClosed
      else do
        HttpProgram.allocate
        readRest fuel (remaining + 1 - bytes.length) (body ++ bytes)

def readBody (reader : BufReader) (contentLength maxBodySize : Nat) :
    HttpProgram (Bytes × BufReader) :=
  if contentLength = 0 then return ([], reader)
  else if maxBodySize < contentLength then Program.fail .payloadTooLarge
  else do
    HttpProgram.allocate
    let fromBuf := min reader.data.length contentLength
    HttpProgram.allocate
    let remaining := contentLength - fromBuf
    let body ← readRest remaining remaining (reader.data.take fromBuf)
    return (body, reader.consume fromBuf (Nat.min_le_left _ _))

def acceptRequest (config : ServerConfig) (reader : BufReader) (bodyOffset : Nat)
    (raw : RawRequest) : HttpProgram (Request × BufReader) :=
  match Method.parse (raw.method.getD []) with
  | none => Program.fail .badRequest
  | some method => do
    HttpProgram.allocate
    let headers ← Headers.insertAll [] raw.headers
    let contentLength := headers.contentLength.getD 0
    if config.maxBodySize < contentLength then Program.fail .payloadTooLarge
    else if h : bodyOffset ≤ reader.data.length then do
      let (body, reader) ←
        readBody (reader.consume bodyOffset h) contentLength config.maxBodySize
      let version := Version.fromHttparse (raw.version.getD 1)
      return (⟨method, raw.path.getD (ascii "/"), version, headers, body⟩, reader)
    else Program.abort

/-- Unlike `acceptRequest` this leaves the check of the limit to `read_body`. -/
def acceptResponse (maxBodySize : Nat) (reader : BufReader) (bodyOffset : Nat)
    (raw : RawResponse) : HttpProgram (Response × BufReader) := do
  let status := raw.code.getD 0
  let version := Version.fromHttparse (raw.version.getD 1)
  let headers ← Headers.insertAll [] raw.headers
  let contentLength := headers.contentLength.getD 0
  if h : bodyOffset ≤ reader.data.length then do
    let (body, reader) ← readBody (reader.consume bodyOffset h) contentLength maxBodySize
    return (⟨status, version, headers, body⟩, reader)
  else Program.abort

/-- What a round of the loop below does with the verdict on the `size` bytes of its buffer. -/
def onVerdict {ρ γ : Type} (maxHeaderSize size : Nat) (accept : Nat → ρ → HttpProgram γ)
    (continue_ : HttpProgram γ) : Verdict ρ → HttpProgram γ
  | .complete bodyOffset raw => accept bodyOffset raw
  | .needMore =>
    if maxHeaderSize ≤ size then Program.fail .headerTooLarge else continue_
  | .invalid => Program.fail .badRequest

/-- The loop of `parse_request` and `parse_response`, with any function in the place of `httparse`:
they differ in the parser and in what they do with a complete head. Every round but the last adds a
byte to the buffer. -/
def parseLoopWith {ρ γ : Type} (parse : Bytes → Verdict ρ) (maxHeaderSize : Nat)
    (accept : BufReader → Nat → ρ → HttpProgram γ) : Nat → BufReader → HttpProgram γ
  | 0, _ => Program.abort
  | fuel + 1, reader => do
    let (filled, reader) ← reader.fill
    match filled with
    | .error _ => Program.fail .connectionClosed
    | .ok _ =>
      onVerdict maxHeaderSize reader.data.length (accept reader)
        (parseLoopWith parse maxHeaderSize accept fuel reader) (parse reader.data)

def parseLoop {ρ γ : Type} (parser : IncrementalParser UInt8 ρ) (maxHeaderSize : Nat)
    (accept : BufReader → Nat → ρ → HttpProgram γ) : Nat → BufReader → HttpProgram γ :=
  parseLoopWith parser.parse maxHeaderSize accept

theorem parseLoop_succ {ρ γ : Type} (parser : IncrementalParser UInt8 ρ) (maxHeaderSize : Nat)
    (accept : BufReader → Nat → ρ → HttpProgram γ) (fuel : Nat) (reader : BufReader) :
    parseLoop parser maxHeaderSize accept (fuel + 1) reader = (do
      let (filled, reader) ← reader.fill
      match filled with
      | .error _ => Program.fail .connectionClosed
      | .ok _ =>
        onVerdict maxHeaderSize reader.data.length (accept reader)
          (parseLoop parser maxHeaderSize accept fuel reader) (parser.parse reader.data)) := rfl

def parseRequest (httparse : Httparse) (config : ServerConfig) (reader : BufReader) :
    HttpProgram (Request × BufReader) :=
  parseLoop httparse config.maxHeaderSize (acceptRequest config) (reader.capacity + 1) reader

def parseResponse (httparse : HttparseResponse) (maxHeaderSize maxBodySize : Nat)
    (reader : BufReader) : HttpProgram (Response × BufReader) :=
  parseLoop httparse maxHeaderSize (acceptResponse maxBodySize) (reader.capacity + 1) reader

end Rko
