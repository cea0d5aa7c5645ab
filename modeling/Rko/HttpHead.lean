import Rko.HttpParse

namespace Rko

def cutAt (c : UInt8) : Bytes → Option (Bytes × Bytes)
  | [] => none
  | b :: bs => if b = c then some ([], bs) else (cutAt c bs).map fun cut => (b :: cut.1, cut.2)

def cutLine (b : Bytes) : Option (Bytes × Bytes) :=
  match cutAt 13 b with
  | some (line, 10 :: rest) => some (line, rest)
  | _ => none

def trimBlanks (v : Bytes) : Bytes :=
  let blank : UInt8 → Bool := fun b => b == 32 || b == 9
  ((v.dropWhile blank).reverse.dropWhile blank).reverse

def decodeHeaders : Nat → Bytes → Option Headers
  | 0, _ => none
  | fuel + 1, b => do
    let (line, b) ← cutLine b
    if line = [] then return []
    let (name, value) ← cutAt 58 line
    if name = [] then failure
    return (name, trimBlanks value) :: (← decodeHeaders fuel b)

def decodeVersion (v : Bytes) : Option UInt8 :=
  if v = ascii "HTTP/1.0" then some 0 else if v = ascii "HTTP/1.1" then some 1 else none

def decodeHead (b : Bytes) : Option RawRequest := do
  let (line, b) ← cutLine b
  let (method, line) ← cutAt 32 line
  let (path, version) ← cutAt 32 line
  let version ← decodeVersion version
  let headers ← decodeHeaders b.length b
  if method = [] ∨ path = [] ∨ 64 < headers.length then failure
  return ⟨some method, some path, some version, headers⟩

/-- A parser for heads of the form the standard gives them. `httparse` also takes a bare LF for the
end of a line and refuses some heads before it has seen their end; on a head with CRLF line ends and
no illegal byte the two agree. -/
def headParser : Httparse :=
  IncrementalParser.ofTerminator (ascii "\r\n\r\n") (by decide) decodeHead

example : headParser.parse (ascii "GET /a HTTP/1.1\r\nHost: x\r\n\r\nGET") =
    .complete 28 ⟨some (ascii "GET"), some (ascii "/a"), some 1, [(ascii "Host", ascii "x")]⟩ := by
  decide +kernel

end Rko
