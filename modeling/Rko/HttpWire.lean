import Rko.HttpMessage
import Rko.Responder

namespace Rko

open CallProgram

inductive WireCall
  | alloc
  | writeAll (bytes : Bytes)

@[reducible] def WireCall.Reply : WireCall → Type
  | alloc => Bool
  | writeAll _ => Except Error Unit

abbrev WireProgram := Program WireCall WireCall.Reply Error

def HOST : Bytes := ascii "Host"

def Version.asStr : Version → Bytes
  | .http10 => ascii "HTTP/1.0"
  | .http11 => ascii "HTTP/1.1"

/-- `StatusCode::reason`. -/
def reason (status : UInt16) : Bytes :=
  match status.toNat with
  | 200 => ascii "OK"
  | 201 => ascii "Created"
  | 204 => ascii "No Content"
  | 301 => ascii "Moved Permanently"
  | 302 => ascii "Found"
  | 304 => ascii "Not Modified"
  | 400 => ascii "Bad Request"
  | 401 => ascii "Unauthorized"
  | 403 => ascii "Forbidden"
  | 404 => ascii "Not Found"
  | 405 => ascii "Method Not Allowed"
  | 413 => ascii "Payload Too Large"
  | 431 => ascii "Request Header Fields Too Large"
  | 500 => ascii "Internal Server Error"
  | 502 => ascii "Bad Gateway"
  | 503 => ascii "Service Unavailable"
  | _ => ascii "Unknown"

/-- The loop of `format_usize`, which fills its buffer from the end: `pos` bytes are still free
and `written` stand behind them. -/
def formatLoop : Nat → Nat → Bytes → Bytes
  | 0, _, written => written
  | pos + 1, val, written =>
    if val = 0 then written
    else formatLoop pos (val / 10) ((48 + (val % 10).toUInt8) :: written)

/-- `format_usize` with a buffer of `size` bytes. -/
def formatUsize (val size : Nat) : Bytes := if val = 0 then [48] else formatLoop size val []

@[simp] theorem digit_add (d : Nat) (h : d < 10) : digit (48 + d.toUInt8) = some d := by
  have hall : ∀ k : Fin 10, digit (48 + k.val.toUInt8) = some k.val := by decide
  exact hall ⟨d, h⟩

theorem decimalFrom_formatLoop {pos val : Nat} (h : val < 10 ^ pos) (written : Bytes) :
    decimalFrom 0 (formatLoop pos val written) = decimalFrom val written := by
  induction pos generalizing val written with
  | zero =>
    have hval : val = 0 := by simpa using h
    rw [hval, formatLoop]
  | succ pos ih =>
    rw [formatLoop]
    split
    next hval => rw [hval]
    next =>
      have hdiv : val / 10 < 10 ^ pos := by
        rw [Nat.pow_succ] at h
        omega
      have hcons : decimalFrom (val / 10) ((48 + (val % 10).toUInt8) :: written) =
          decimalFrom (val / 10 * 10 + val % 10) written := by
        simp only [decimalFrom, List.foldl_cons, digit_add _ (Nat.mod_lt val (by decide : 0 < 10)),
          Option.getD_some]
      rw [ih hdiv, hcons, Nat.div_add_mod']

theorem digits_formatLoop (pos val : Nat) {written : Bytes}
    (h : ∀ b ∈ written, (digit b).isSome) : ∀ b ∈ formatLoop pos val written, (digit b).isSome := by
  induction pos generalizing val written with
  | zero => exact h
  | succ pos ih =>
    rw [formatLoop]
    split
    next => exact h
    next =>
      apply ih
      intro b hb
      rcases List.mem_cons.mp hb with rfl | hmem
      · rw [digit_add _ (Nat.mod_lt val (by decide)), Option.isSome_some]
      · exact h b hmem

/-- The number of digits: one for every power of ten up to the number. -/
theorem length_formatLoop {pos k val : Nat} (hk : k < pos) (hlow : 10 ^ k ≤ val)
    (hhigh : val < 10 ^ (k + 1)) (written : Bytes) :
    (formatLoop pos val written).length = written.length + (k + 1) := by
  induction pos generalizing val k written with
  | zero => omega
  | succ pos ih =>
    have hpos : 0 < 10 ^ k := Nat.pow_pos (by decide)
    rw [formatLoop, if_neg (by omega)]
    cases k with
    | zero =>
      have hdiv : val / 10 = 0 := by omega
      have hstop : ∀ (n : Nat) (w : Bytes), formatLoop n 0 w = w := by
        intro n w
        cases n <;> rfl
      rw [hdiv, hstop, List.length_cons]
    | succ k =>
      rw [Nat.pow_succ] at hlow
      rw [Nat.pow_succ] at hhigh
      rw [ih (k := k) (by omega) (by omega) (by omega), List.length_cons]
      omega

theorem isDecimal_formatUsize {val size : Nat} (hsize : 0 < size) :
    IsDecimal (formatUsize val size) := by
  unfold formatUsize
  split
  next => exact ⟨by decide, by decide⟩
  next hval =>
    refine ⟨?_, List.all_eq_true.mpr (digits_formatLoop size val (by simp))⟩
    obtain ⟨size, rfl⟩ : ∃ k, size = k + 1 := ⟨size - 1, by omega⟩
    have hlast : ∀ (n v : Nat) (w : Bytes), w ≠ [] → formatLoop n v w ≠ [] := by
      intro n
      induction n with
      | zero => exact fun v w hw => hw
      | succ n ih =>
        intro v w hw
        rw [formatLoop]
        split
        next => exact hw
        next => exact ih _ _ (List.cons_ne_nil _ _)
    rw [formatLoop, if_neg hval]
    exact hlast _ _ _ (List.cons_ne_nil _ _)

theorem decimalValue_formatUsize {val size : Nat} (h : val < 10 ^ size) :
    decimalValue (formatUsize val size) = val := by
  unfold formatUsize
  split
  next hval =>
    rw [hval]
    rfl
  next => exact decimalFrom_formatLoop h []

/-- A length is written as a numeral that `usize::parse` reads back. -/
theorem parseUsize_formatUsize {n : Nat} (h : n < 2 ^ 64) : parseUsize (formatUsize n 20) = some n := by
  have hvalue : decimalValue (formatUsize n 20) = n :=
    decimalValue_formatUsize (h.trans (by decide))
  have hparse := parseUsize_of_decimal (isDecimal_formatUsize (by decide : 0 < 20))
    (hvalue.symm ▸ h)
  rwa [hvalue] at hparse

namespace Wire

def CRLF : Bytes := ascii "\r\n"

def withCapacity : WireProgram Bytes := do
  if ← Program.ask .alloc then return [] else Program.fail Error.ENOMEM

def extend (buf data : Bytes) : WireProgram Bytes := do
  if ← Program.ask .alloc then return buf ++ data else Program.fail Error.ENOMEM

def writeAll (bytes : Bytes) : WireProgram Unit := do
  match ← Program.ask (WireCall.writeAll bytes) with
  | .ok () => return ()
  | .error e => Program.fail e

def writeHeader (buf name value : Bytes) : WireProgram Bytes := do
  let buf ← extend buf name
  let buf ← extend buf (ascii ": ")
  let buf ← extend buf value
  extend buf CRLF

def writeHeaderUsize (buf name : Bytes) (value : Nat) : WireProgram Bytes :=
  writeHeader buf name (formatUsize value 20)

def writeU16 (buf : Bytes) (val : UInt16) : WireProgram Bytes :=
  extend buf (formatUsize val.toNat 5)

/-- The loop over the user's headers. -/
def writeHeaders (buf : Bytes) : Headers → WireProgram Bytes
  | [] => return buf
  | h :: headers => do writeHeaders (← writeHeader buf h.1 h.2) headers

/-- The head goes out in one write, and a body that is not empty in another. -/
def writeMessage (buf body : Bytes) : WireProgram Unit := do
  writeAll buf
  if body ≠ [] then writeAll body

end Wire

open Wire

def writeRequest (request : Request) (host : Bytes) : WireProgram Unit := do
  let buf ← withCapacity
  let buf ← extend buf request.method.asStr
  let buf ← extend buf (ascii " ")
  let buf ← extend buf request.path
  let buf ← extend buf (ascii " ")
  let buf ← extend buf request.version.asStr
  let buf ← extend buf CRLF
  let buf ← writeHeader buf HOST host
  let buf ← if request.body ≠ [] then writeHeaderUsize buf CONTENT_LENGTH request.body.length
    else pure buf
  let buf ← writeHeaders buf request.headers
  let buf ← extend buf CRLF
  writeMessage buf request.body

def writeResponse (response : Response) : WireProgram Unit := do
  let buf ← withCapacity
  let buf ← extend buf response.version.asStr
  let buf ← extend buf (ascii " ")
  let buf ← writeU16 buf response.status
  let buf ← extend buf (ascii " ")
  let buf ← extend buf (reason response.status)
  let buf ← extend buf CRLF
  let buf ← writeHeaderUsize buf CONTENT_LENGTH response.body.length
  let buf ← writeHeaders buf response.headers
  let buf ← extend buf CRLF
  writeMessage buf response.body

namespace Wire

/-- Allocations and writes succeed; the state is what was written so far, write by write. -/
def accept : Responder (List Bytes) WireCall WireCall.Reply
  | writes, .alloc => (true, writes)
  | writes, .writeAll bytes => (.ok (), writes ++ [bytes])

def writes (p : WireProgram Unit) : List Bytes := (p.exec accept []).2

variable {α : Type} {ws : List Bytes}

theorem withCapacity_bind_exec (f : Bytes → WireProgram α) :
    (withCapacity.bind f).exec accept ws = (f []).exec accept ws := rfl

theorem extend_bind_exec (buf data : Bytes) (f : Bytes → WireProgram α) :
    ((extend buf data).bind f).exec accept ws = (f (buf ++ data)).exec accept ws := rfl

def field (h : Bytes × Bytes) : Bytes := h.1 ++ ascii ": " ++ h.2 ++ CRLF

theorem writeHeader_exec (buf name value : Bytes) :
    (writeHeader buf name value).exec accept ws = (.done (buf ++ field (name, value)), ws) := by
  simp only [writeHeader, Program.bind_eq, extend_bind_exec]
  simp only [extend, field, List.append_assoc]
  rfl

theorem writeHeaders_exec (buf : Bytes) (headers : Headers) :
    (writeHeaders buf headers).exec accept ws = (.done (buf ++ headers.flatMap field), ws) := by
  induction headers generalizing buf with
  | nil => simp [writeHeaders, Program.pure_eq]
  | cons h headers ih =>
    simp only [writeHeaders, Program.bind_eq]
    rw [Program.exec_bind_done (writeHeader_exec buf h.1 h.2), ih, List.flatMap_cons,
      List.append_assoc]

theorem writeMessage_exec (buf body : Bytes) :
    (writeMessage buf body).exec accept ws =
      (.done (), ws ++ buf :: if body = [] then [] else [body]) := by
  by_cases hbody : body = []
  · simp only [writeMessage, hbody, Program.bind_eq]
    rfl
  · have hsplit : ws ++ [buf] ++ [body] = ws ++ [buf, body] := by simp
    simp only [writeMessage, if_neg hbody, if_pos hbody, Program.bind_eq, ← hsplit]
    rfl

end Wire

/-- The bytes of a head: its first line, its fields and an empty line. -/
def headBytes (line : Bytes) (headers : Headers) : Bytes :=
  line ++ CRLF ++ headers.flatMap field ++ CRLF

def requestLine (method path : Bytes) (version : Version) : Bytes :=
  method ++ ascii " " ++ path ++ ascii " " ++ version.asStr

def statusLine (version : Version) (code phrase : Bytes) : Bytes :=
  version.asStr ++ ascii " " ++ code ++ ascii " " ++ phrase

def lengthField (body : Bytes) : Headers :=
  if body = [] then [] else [(CONTENT_LENGTH, formatUsize body.length 20)]

/-- The fields that `write_request` sends. -/
def sentFields (request : Request) (host : Bytes) : Headers :=
  (HOST, host) :: lengthField request.body ++ request.headers

theorem writeRequest_writes (request : Request) (host : Bytes) :
    writes (writeRequest request host) =
      headBytes (requestLine request.method.asStr request.path request.version)
        (sentFields request host) :: if request.body = [] then [] else [request.body] := by
  simp only [writes, writeRequest, Program.bind_eq, withCapacity_bind_exec, extend_bind_exec]
  rw [Program.exec_bind_done (writeHeader_exec _ _ _)]
  by_cases hbody : request.body = []
  · simp only [hbody, ne_eq, not_true_eq_false, if_false, if_true, Program.pure_eq,
      Program.done_bind]
    rw [Program.exec_bind_done (writeHeaders_exec _ _), extend_bind_exec, writeMessage_exec]
    simp only [headBytes, requestLine, sentFields, lengthField, hbody, if_true, List.nil_append,
      List.flatMap_cons, List.cons_append, List.append_assoc]
  · simp only [ne_eq, hbody, not_false_eq_true, if_true, writeHeaderUsize]
    rw [Program.exec_bind_done (writeHeader_exec _ _ _),
      Program.exec_bind_done (writeHeaders_exec _ _), extend_bind_exec, writeMessage_exec]
    simp only [headBytes, requestLine, sentFields, lengthField, hbody, if_false, List.nil_append,
      List.flatMap_cons, List.cons_append, List.append_assoc]

theorem writeResponse_writes (response : Response) :
    writes (writeResponse response) =
      headBytes (statusLine response.version (formatUsize response.status.toNat 5)
        (reason response.status))
        ((CONTENT_LENGTH, formatUsize response.body.length 20) :: response.headers) ::
        if response.body = [] then [] else [response.body] := by
  simp only [writes, writeResponse, writeHeaderUsize, writeU16, Program.bind_eq,
    withCapacity_bind_exec, extend_bind_exec]
  rw [Program.exec_bind_done (writeHeader_exec _ _ _),
    Program.exec_bind_done (writeHeaders_exec _ _), extend_bind_exec, writeMessage_exec]
  simp only [headBytes, statusLine, List.nil_append, List.flatMap_cons, List.append_assoc]

theorem flatten_writes (head body : Bytes) :
    (head :: if body = [] then [] else [body]).flatten = head ++ body := by
  by_cases hbody : body = [] <;> simp [hbody]

end Rko
