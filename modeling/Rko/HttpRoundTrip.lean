import Rko.HttpFraming
import Rko.HttpGrammar

namespace Rko

open CallProgram IncrementalParser Peer Wire

/-- A complete head is found in the buffer when all of it has room there. -/
theorem parse_take_head {ρ : Type} {parser : IncrementalParser UInt8 ρ} {head : Bytes} {raw : ρ}
    (h : parser.parse head = .complete head.length raw) {capacity : Nat}
    (hle : head.length ≤ capacity) (body : Bytes) :
    parser.parse ((head ++ body).take capacity) = .complete head.length raw := by
  rw [List.take_append, List.take_of_length_le hle]
  exact parser.complete_append _ h

theorem contentLength_cons_length {n : Nat} (hn : n < 2 ^ 64) (headers : Headers) :
    Headers.contentLength ((CONTENT_LENGTH, formatUsize n 20) :: headers) = some n := by
  have hget : Headers.get ((CONTENT_LENGTH, formatUsize n 20) :: headers) CONTENT_LENGTH =
      some (formatUsize n 20) :=
    Headers.get_append (fun _ hh => absurd hh List.not_mem_nil) (by decide)
  rw [Headers.contentLength, hget, Option.bind_some, parseUsize_formatUsize hn]

theorem contentLength_cons_of_ne {name : Bytes} (hname : eqIgnoreAsciiCase name CONTENT_LENGTH = false)
    (value : Bytes) (headers : Headers) :
    Headers.contentLength ((name, value) :: headers) = headers.contentLength := by
  simp [Headers.contentLength, Headers.get, hname]

theorem contentLength_of_ne {headers : Headers}
    (h : ∀ x ∈ headers, eqIgnoreAsciiCase x.1 CONTENT_LENGTH = false) :
    headers.contentLength = none := by
  have hfind : headers.find? (fun x => eqIgnoreAsciiCase x.1 CONTENT_LENGTH) = none :=
    List.find?_eq_none.mpr fun x hx => by simp [h x hx]
  simp [Headers.contentLength, Headers.get, hfind]

theorem contentLength_sentFields {request : Request} (host : Bytes)
    (hbody : request.body.length < 2 ^ 64)
    (hfree : ∀ h ∈ request.headers, eqIgnoreAsciiCase h.1 CONTENT_LENGTH = false) :
    (sentFields request host).contentLength.getD 0 = request.body.length := by
  rw [sentFields, List.cons_append, contentLength_cons_of_ne (by decide)]
  by_cases hnil : request.body = []
  · rw [lengthField, if_pos hnil, List.nil_append, contentLength_of_ne hfree, hnil]
    rfl
  · rw [lengthField, if_neg hnil, List.cons_append, contentLength_cons_length hbody]
    rfl

theorem trimmed_of_decimal {v : Bytes} (h : IsDecimal v) : Trimmed v := by
  intro b hb
  have hmem : b ∈ v := by
    rcases hb with hfirst | hlast
    · exact List.mem_of_mem_head? hfirst
    · exact List.mem_of_getLast? hlast
  have hdigit := List.all_eq_true.mp h.2 b hmem
  constructor
  · rintro rfl
    exact absurd hdigit (by decide)
  · rintro rfl
    exact absurd hdigit (by decide)

theorem field_length (grammar : HttpGrammar) (n : Nat) :
    grammar.Field (CONTENT_LENGTH, formatUsize n 20) :=
  have hdecimal : IsDecimal (formatUsize n 20) := isDecimal_formatUsize (by decide)
  ⟨grammar.contentLength_fieldName, grammar.decimal_fieldValue _ hdecimal,
    trimmed_of_decimal hdecimal⟩

theorem field_sentFields {grammar : HttpGrammar} {request : Request} {host : Bytes}
    (hhost : grammar.fieldValue host) (htrimmed : Trimmed host)
    (hheaders : ∀ h ∈ request.headers, grammar.Field h) :
    ∀ h ∈ sentFields request host, grammar.Field h := by
  intro h hh
  rw [sentFields, List.cons_append] at hh
  rcases List.mem_cons.mp hh with rfl | hh
  · exact ⟨grammar.host_fieldName, hhost, htrimmed⟩
  · rcases List.mem_append.mp hh with hlength | huser
    · unfold lengthField at hlength
      split at hlength
      next => cases hlength
      next =>
        cases List.mem_singleton.mp hlength
        exact field_length grammar request.body.length
    · exact hheaders h huser

theorem length_sentFields_le (request : Request) (host : Bytes) :
    (sentFields request host).length ≤ request.headers.length + 2 := by
  have hlength : (lengthField request.body).length ≤ 1 := by
    unfold lengthField
    split
    next => decide
    next => exact Nat.le_refl 1
  simp only [sentFields, List.cons_append, List.length_cons, List.length_append]
  omega

@[simp] theorem Method.parse_asStr (method : Method) : Method.parse method.asStr = some method := by
  cases method <;> decide

/-- The request as the other side gets it. -/
def receivedRequest (request : Request) (host : Bytes) : Request :=
  { request with headers := sentFields request host }

theorem frame_sent {grammar : HttpGrammar} {httparse : Httparse}
    (haccepts : AcceptsRequests grammar httparse) {config : ServerConfig} {request : Request}
    {host : Bytes} (hpath : grammar.target request.path)
    (hfields : ∀ h ∈ sentFields request host, grammar.Field h)
    (hcount : (sentFields request host).length ≤ 64)
    (hlength : (sentFields request host).contentLength.getD 0 = request.body.length)
    {capacity : Nat}
    (hhead : (headBytes (requestLine request.method.asStr request.path request.version)
      (sentFields request host)).length ≤ capacity)
    (hbody : request.body.length ≤ config.maxBodySize) :
    frame httparse config capacity
        (headBytes (requestLine request.method.asStr request.path request.version)
          (sentFields request host) ++ request.body) =
      .ok (receivedRequest request host, []) := by
  have hparse := parse_take_head (haccepts request.method request.path request.version _ hpath
    hfields hcount) hhead request.body
  simp only [frame, hparse, frameBody, Option.getD_some, Method.parse_asStr, hlength]
  rw [if_neg (by omega), if_neg (by rw [List.length_append]; omega), List.drop_left,
    List.take_length, ← List.length_append, List.drop_length, Version.fromHttparse_number]
  rfl

theorem headBytes_append_ne_nil (line : Bytes) (headers : Headers) (body : Bytes) :
    headBytes line headers ++ body ≠ [] := by
  rw [headBytes_eq_append]
  simp

/-- What `write_request` sends comes out of `parse_request`, however the bytes are cut into reads;
the buffer and the stream are empty at the end. -/
theorem parseRequest_writeRequest {grammar : HttpGrammar} {httparse : Httparse}
    (haccepts : AcceptsRequests grammar httparse) {request : Request} {host : Bytes}
    (hpath : grammar.target request.path) (hhost : grammar.fieldValue host)
    (htrimmed : Trimmed host) (hheaders : ∀ h ∈ request.headers, grammar.Field h)
    (hfree : ∀ h ∈ request.headers, eqIgnoreAsciiCase h.1 CONTENT_LENGTH = false)
    (hcount : request.headers.length ≤ 62)
    (hhead : ((writes (writeRequest request host)).headD []).length ≤ 8192)
    (hbody : request.body.length ≤ 1024 * 1024) (sizes : List Nat) (served : List Request)
    (handler : List Request → Request → Response) :
    ∃ r' p', (parseRequest httparse .default (BufReader.empty 8192)).exec (reply handler)
        ⟨(writes (writeRequest request host)).flatten, sizes, served⟩ =
      (.done (⟨request.method, request.path, request.version,
        (HOST, host) :: (if request.body = [] then []
          else [(CONTENT_LENGTH, formatUsize request.body.length 20)]) ++ request.headers,
        request.body⟩, r'), p') ∧ r'.data = [] ∧ p'.rest = [] := by
  have hfields := field_sentFields hhost htrimmed hheaders
  have hsent := length_sentFields_le request host
  have hlength := contentLength_sentFields host (by omega) hfree
  rw [writeRequest_writes, List.headD_cons] at hhead
  rw [writeRequest_writes, flatten_writes]
  have hframe : frame httparse .default 8192 _ = .ok (receivedRequest request host, []) :=
    frame_sent haccepts hpath hfields (by omega) hlength hhead hbody
  obtain ⟨r', p', hrun, hleft, -, -, -⟩ := (parseRequest_of_frame handler sizes served
    (headBytes_append_ne_nil _ _ _) (by decide : 0 < ServerConfig.default.maxHeaderSize)
    hframe).of_ok
  obtain ⟨hdata, hrest⟩ := List.append_eq_nil_iff.mp hleft
  exact ⟨r', p', hrun, hdata, hrest⟩

def putRequest : Request :=
  ⟨.put, ascii "/a", .http11, [(ascii "Accept", ascii "text/plain")], ascii "hi"⟩

theorem parseRequest_writeRequest_put :
    ∃ r' p', (parseRequest headParser .default (BufReader.empty 8192)).exec
        (reply fun _ _ => ⟨200, .http11, [], []⟩)
        ⟨(writes (writeRequest putRequest (ascii "x"))).flatten, [3, 60, 1], []⟩ =
      (.done (⟨.put, ascii "/a", .http11, [(ascii "Host", ascii "x"),
        (ascii "Content-Length", ascii "2"), (ascii "Accept", ascii "text/plain")],
        ascii "hi"⟩, r'), p') ∧ r'.data = [] ∧ p'.rest = [] := by
  have htrimmed : ∀ v ∈ [ascii "x", ascii "text/plain"], Trimmed v := by
    intro v hv b hb
    simp only [List.mem_cons, List.not_mem_nil, or_false] at hv
    rcases hv with rfl | rfl <;> rcases hb with hb | hb <;> cases hb <;> decide
  have hheaders : ∀ h ∈ putRequest.headers, standardGrammar.Field h := by
    intro h hh
    cases List.mem_singleton.mp hh
    exact ⟨⟨by decide, by decide⟩, show (ascii "text/plain").all isText = true by decide,
      htrimmed _ (by decide)⟩
  have hhost : standardGrammar.fieldValue (ascii "x") :=
    show (ascii "x").all isText = true by decide
  have hpath : standardGrammar.target putRequest.path := ⟨by decide, by decide⟩
  exact parseRequest_writeRequest acceptsRequests_headParser hpath hhost (htrimmed _ (by decide))
    hheaders (by decide) (by decide) (by decide) (by decide) _ _ _

section Response

variable {grammar : HttpGrammar} {httparse : HttparseResponse} {response : Response}
  {handler : List Request → Request → Response} {p : Peer}

theorem acceptResponse_exec {maxBodySize n : Nat} {raw : RawResponse} {r r' : BufReader} {body : Bytes}
    {p' : Peer} (hn : n ≤ r.data.length)
    (hread : (readBody (r.consume n hn) (raw.headers.contentLength.getD 0) maxBodySize).exec
      (reply handler) p = (.done (body, r'), p')) :
    (acceptResponse maxBodySize r n raw).exec (reply handler) p =
      (.done (⟨raw.code.getD 0, Version.fromHttparse (raw.version.getD 1), raw.headers, body⟩, r'),
        p') := by
  have hheaders : (Headers.insertAll [] raw.headers).exec (reply handler) p =
      (.done raw.headers, p) := Headers.insertAll_exec [] raw.headers
  simp only [acceptResponse, Program.bind_eq, Program.exec_bind_done hheaders, dif_pos hn]
  rw [Program.exec_bind_done hread]
  rfl

variable (handler p) in
/-- A stream that holds a head within the limit and the body it announces is read to its end. -/
theorem parseResponse_exec {maxHeaderSize maxBodySize : Nat} {r : BufReader} {head body : Bytes}
    {raw : RawResponse} (hcap : r.capacity = maxHeaderSize) (hdata : r.data = [])
    (hparse : httparse.parse head = .complete head.length raw)
    (hhead : head.length ≤ maxHeaderSize) (hrest : p.rest = head ++ body)
    (hlength : raw.headers.contentLength.getD 0 = body.length)
    (hbody : body.length ≤ maxBodySize) :
    ∃ r' p', (parseResponse httparse maxHeaderSize maxBodySize r).exec (reply handler) p =
        (.done (⟨raw.code.getD 0, Version.fromHttparse (raw.version.getD 1), raw.headers, body⟩, r'),
          p') ∧ r'.data = [] ∧ p'.rest = [] := by
  have hpos := httparse.complete_pos hparse
  have hunread : r.data ++ p.rest = head ++ body := by rw [hdata, List.nil_append, hrest]
  have hne : p.rest ≠ [] := by
    rw [hrest]
    exact List.append_ne_nil_of_left_ne_nil (List.ne_nil_of_length_pos hpos) body
  have hroom : r.data.length < r.capacity := by
    rw [hdata, List.length_nil]
    omega
  have hfound : httparse.parse ((r.data ++ p.rest).take r.capacity) =
      .complete head.length raw := by
    rw [hunread]
    exact parse_take_head hparse (by omega) body
  have hfuel : r.capacity ≤ r.data.length + (r.capacity + 1) := by omega
  obtain ⟨r₁, p₁, hrun, hn, hsame, -, -⟩ :
      ∃ r₁ p₁, (parseResponse httparse maxHeaderSize maxBodySize r).exec (reply handler) p =
          (acceptResponse maxBodySize r₁ head.length raw).exec (reply handler) p₁ ∧
        head.length ≤ r₁.data.length ∧ r₁.data ++ p₁.rest = r.data ++ p.rest ∧
        r₁.capacity = r.capacity ∧ p₁.served = p.served :=
    parseLoop_exec_complete hcap.le hroom hne hfuel hfound
  have hbytes : (r₁.consume head.length hn).data ++ p₁.rest = body := by
    rw [BufReader.consume_data, ← List.drop_append_of_le_length hn, hsame, hunread, List.drop_left]
  have hlen := congrArg List.length hbytes
  rw [List.length_append] at hlen
  rw [← hlength] at hbody
  obtain ⟨r₂, p₂, hread, hdata₂, -, hrest₂, -⟩ := readBody_exec handler p₁
    (r₁.consume head.length hn) hbody (by rw [hbytes, hlength])
  rw [hbytes, hlength, List.take_length] at hread
  rw [← hlength] at hread
  refine ⟨r₂, p₂, hrun.trans (acceptResponse_exec hn hread), ?_, ?_⟩
  · rw [hdata₂, List.drop_eq_nil_of_le (by omega)]
  · rw [hrest₂, List.drop_eq_nil_of_le (by omega)]

theorem code_of_status {status : UInt16} (hlow : 100 ≤ status.toNat) (hhigh : status.toNat ≤ 999) :
    IsDecimal (formatUsize status.toNat 5) ∧ (formatUsize status.toNat 5).length = 3 ∧
      (decimalValue (formatUsize status.toNat 5)).toUInt16 = status := by
  have hvalue : decimalValue (formatUsize status.toNat 5) = status.toNat :=
    decimalValue_formatUsize (by omega)
  refine ⟨isDecimal_formatUsize (by decide), ?_, ?_⟩
  · have hlen := length_formatLoop (by decide : 2 < 5) hlow (by omega) []
    rw [formatUsize, if_neg (by omega), hlen]
    rfl
  · rw [hvalue]
    exact UInt16.ofNat_toNat

/-- What `write_response` sends comes out of `parse_response`. The length the client goes by is the
first one, which is the one the writer computed, whatever the user's fields say. -/
theorem parseResponse_writeResponse (haccepts : AcceptsResponses grammar httparse)
    (hlow : 100 ≤ response.status.toNat) (hhigh : response.status.toNat ≤ 999)
    (hheaders : ∀ h ∈ response.headers, grammar.Field h) (hcount : response.headers.length ≤ 63)
    {maxHeaderSize maxBodySize : Nat} (husize : maxBodySize < 2 ^ 64)
    (hhead : ((writes (writeResponse response)).headD []).length ≤ maxHeaderSize)
    (hbody : response.body.length ≤ maxBodySize) (sizes : List Nat) (served : List Request)
    (handler : List Request → Request → Response) :
    ∃ r' p', (parseResponse httparse maxHeaderSize maxBodySize
        (BufReader.empty maxHeaderSize)).exec (reply handler)
        ⟨(writes (writeResponse response)).flatten, sizes, served⟩ =
      (.done (⟨response.status, response.version,
        (CONTENT_LENGTH, formatUsize response.body.length 20) :: response.headers,
        response.body⟩, r'), p') ∧ r'.data = [] ∧ p'.rest = [] := by
  obtain ⟨hdecimal, hdigits, hcode⟩ := code_of_status hlow hhigh
  have hfields : ∀ h ∈ (CONTENT_LENGTH, formatUsize response.body.length 20) :: response.headers,
      grammar.Field h := by
    intro h hh
    rcases List.mem_cons.mp hh with rfl | huser
    · exact field_length grammar response.body.length
    · exact hheaders h huser
  have hlength := contentLength_cons_length (by omega : response.body.length < 2 ^ 64)
    response.headers
  have hparse := haccepts response.version _ _ _ hdecimal hdigits
    (grammar.reason_phrase response.status) hfields (by rw [List.length_cons]; omega)
  rw [writeResponse_writes, List.headD_cons] at hhead
  rw [writeResponse_writes, flatten_writes]
  obtain ⟨r', p', hrun, hdata, hrest⟩ := parseResponse_exec handler ⟨_, sizes, served⟩
    (BufReader.empty_capacity maxHeaderSize) (BufReader.empty_data maxHeaderSize) hparse hhead rfl
    (by rw [hlength, Option.getD_some]) hbody
  rw [Option.getD_some, Option.getD_some, Version.fromHttparse_number, hcode] at hrun
  exact ⟨r', p', hrun, hdata, hrest⟩

def notFoundResponse : Response :=
  ⟨404, .http10, [(ascii "content-length", ascii "9")], ascii "no"⟩

/-- The user's field announces another length than the body has. -/
theorem parseResponse_writeResponse_notFound :
    ∃ r' p', (parseResponse statusParser 100 10 (BufReader.empty 100)).exec
        (reply fun _ _ => ⟨200, .http11, [], []⟩)
        ⟨(writes (writeResponse notFoundResponse)).flatten, [30, 2], []⟩ =
      (.done (⟨404, .http10, [(ascii "Content-Length", ascii "2"),
        (ascii "content-length", ascii "9")], ascii "no"⟩, r'), p') ∧
      r'.data = [] ∧ p'.rest = [] := by
  have hheaders : ∀ h ∈ notFoundResponse.headers, standardGrammar.Field h := by
    intro h hh
    cases List.mem_singleton.mp hh
    exact ⟨⟨by decide, by decide⟩, show (ascii "9").all isText = true by decide,
      trimmed_of_decimal (by decide)⟩
  exact parseResponse_writeResponse acceptsResponses_statusParser (by decide) (by decide) hheaders
    (by decide) (by decide) (by decide) (by decide) _ _ _

end Response

end Rko
