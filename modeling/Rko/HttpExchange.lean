import Rko.HttpConnection
import Rko.HttpRoundTrip

namespace Rko

open CallProgram Dialogue Peer Wire

/-- Allocations succeed; the handler is given the requests that were served before. -/
def answerOwn (handler : List Request → Request → Response) :
    Responder (List Request) HttpOwn HttpOwn.Reply
  | served, .alloc => (true, served)
  | served, .handle request => (handler served request, served ++ [request])

variable {handler : List Request → Request → Response} {served : List Request}

section Sending

theorem performs_writeRest {fuel : Nat} {bytes : Bytes} (hfuel : bytes.length ≤ fuel) :
    Performs (answerOwn handler) (fun r s => r = .ok () ∧ s = served)
      (TcpStream.writeRest fuel bytes) served (bytes.map .send) := by
  induction fuel generalizing bytes with
  | zero =>
    rw [List.length_eq_zero_iff.mp (Nat.le_zero.mp hfuel)]
    exact ⟨rfl, rfl, rfl⟩
  | succ fuel ih =>
    cases bytes with
    | nil => exact ⟨rfl, rfl, rfl⟩
    | cons b rest =>
      refine ⟨List.cons_ne_nil b rest, List.prefix_refl _, fun n hn hpos => ?_⟩
      show Performs _ _ (if n = 0 then _ else _) _ _
      rw [if_neg (by omega), ← List.map_drop]
      apply ih
      rw [List.length_drop]
      omega

variable (handler served) in
/-- What a writer gives to `write_all`, call by call, goes out as one sequence of bytes. -/
theorem performs_wire {α : Type} {p : WireProgram α} {a : α} {ws ws' : List Bytes}
    (hp : p.exec Wire.accept ws = (.done a, ws')) :
    ∃ sent, ws' = ws ++ sent ∧ Performs (answerOwn handler) (fun r s => r = .ok a ∧ s = served)
      (p.interp wireCalls) served (sent.flatten.map .send) := by
  induction p generalizing ws with
  | done b =>
    obtain ⟨hb, rfl⟩ := Prod.mk.inj hp
    cases hb
    exact ⟨[], (List.append_nil _).symm, rfl, rfl, rfl⟩
  | fail e => cases hp
  | abort => cases hp
  | call op k ih =>
    cases op with
    | alloc =>
      obtain ⟨sent, hsent, hperforms⟩ := ih _ hp
      exact ⟨sent, hsent, hperforms⟩
    | writeAll bytes =>
      obtain ⟨sent, hsent, hperforms⟩ := ih _ hp
      refine ⟨bytes :: sent, hsent.trans (List.append_assoc ws [bytes] sent), ?_⟩
      rw [List.flatten_cons, List.map_append]
      refine (performs_writeRest (Nat.le_refl _)).bind (fun r s hr => ?_) (splits_sends _ _)
      obtain ⟨rfl, rfl⟩ := hr
      exact hperforms

end Sending

section Receiving

/-- A program that only reads and allocates, and that fails when there is nothing more to read. -/
def Receives {α : Type} : HttpProgram α → Prop
  | .call (.read _) k => (∀ h, ∃ e, k (.ok ⟨[], h⟩) = .fail e) ∧ ∀ r, Receives (k r)
  | .call .alloc k => ∀ r, Receives (k r)
  | .call (.handle _) _ => False
  | .call (.writeResponse _) _ => False
  | .done _ => True
  | .fail _ => True
  | .abort => True

variable {α β : Type}

theorem Receives.bind {p : HttpProgram α} (hp : Receives p) {f : α → HttpProgram β}
    (hf : ∀ a, Receives (f a)) : Receives (p.bind f) := by
  induction p with
  | done a => exact hf a
  | fail e => trivial
  | abort => trivial
  | call op k ih =>
    cases op with
    | read room =>
      refine ⟨fun h => ?_, fun r => ih r (hp.2 r)⟩
      obtain ⟨e, he⟩ := hp.1 h
      exact ⟨e, congrArg (Program.bind · f) he⟩
    | alloc => exact fun r => ih r (hp r)
    | handle request => exact hp
    | writeResponse response => exact hp

/-- A program that reads one message to its end, whatever the reads return, does so at one end of a
connection. -/
theorem performs_of_exec {p : HttpProgram α} {Q : α → Prop} {msg : Bytes} (hp : Receives p)
    (hexec : ∀ sizes, ∃ a peer, p.exec (reply handler) ⟨msg, sizes, served⟩ = (.done a, peer) ∧
      Q a ∧ peer.rest = []) :
    Performs (answerOwn handler) (fun r s => (∃ a, r = .ok a ∧ Q a) ∧ s = served)
      (p.interp httpCalls) served (msg.map .recv) := by
  induction p generalizing msg with
  | done b =>
    obtain ⟨a, peer, hdone, hq, hrest⟩ := hexec []
    obtain ⟨hb, rfl⟩ := Prod.mk.inj hdone
    cases hb
    have hmsg : msg = [] := hrest
    subst hmsg
    exact ⟨rfl, ⟨b, rfl, hq⟩, rfl⟩
  | fail e =>
    obtain ⟨a, peer, hdone, -⟩ := hexec []
    cases hdone
  | abort =>
    obtain ⟨a, peer, hdone, -⟩ := hexec []
    cases hdone
  | call op k ih =>
    cases op with
    | alloc => exact ih true (hp true) hexec
    | handle request => exact hp.elim
    | writeResponse response => exact hp.elim
    | read room =>
      obtain ⟨hend, hrecv⟩ := hp
      -- a read that returns nothing would fail
      have hsome : ∀ sizes, msg.take (Peer.amount ⟨msg, sizes, served⟩ room) ≠ [] := by
        intro sizes hnil
        obtain ⟨a, peer, hdone, -⟩ := hexec sizes
        obtain ⟨e, he⟩ := hend (Nat.zero_le _)
        have hreply : (reply handler ⟨msg, sizes, served⟩ (.read room)).1 =
            .ok ⟨[], Nat.zero_le _⟩ := congrArg Except.ok (Subtype.ext hnil)
        rw [Program.exec_call, hreply, he] at hdone
        cases hdone
      have hroom : 0 < room := by
        by_contra hzero
        refine hsome [] ?_
        rw [List.take_eq_nil_iff, Peer.amount]
        exact Or.inl (by omega)
      have hmsg : msg ≠ [] := by
        intro hnil
        exact hsome [] (by rw [hnil, List.take_nil])
      obtain ⟨b, msg', hcons⟩ := List.exists_cons_of_ne_nil hmsg
      have hfirst : msg.map Move.recv = .recv b :: msg'.map .recv := by rw [hcons, List.map_cons]
      refine ⟨hroom, Or.inr ⟨⟨b, _, hfirst⟩, fun bs hbs hne m hm => ?_⟩⟩
      obtain ⟨bs', rest, rfl, hbs', rfl⟩ := List.map_eq_append_iff.mp hm
      have heq : bs' = bs := List.map_injective_iff.mpr (fun _ _ h => by cases h; rfl) hbs'
      subst heq
      refine ih _ (hrecv _) fun sizes => ?_
      obtain ⟨a, peer, hdone, hq, hrest⟩ := hexec (bs'.length :: sizes)
      have hpos := List.length_pos_iff.mpr hne
      have hamount : Peer.amount ⟨bs' ++ rest, bs'.length :: sizes, served⟩ room = bs'.length := by
        rw [Peer.amount, List.headD_cons]
        omega
      refine ⟨a, peer, ?_, hq, hrest⟩
      rw [Program.exec_call] at hdone
      simp only [reply, Peer.afterRead, hamount, List.take_left, List.drop_left,
        List.tail_cons] at hdone
      exact hdone

theorem receives_allocate : Receives HttpProgram.allocate := by
  intro r
  cases r <;> trivial

theorem receives_insertAll (headers : Headers) (hs : List (Bytes × Bytes)) :
    Receives (headers.insertAll hs) := by
  induction hs generalizing headers with
  | nil => trivial
  | cons h hs ih =>
    have hinsert : Receives (headers.insert h.1 h.2) := by
      intro r
      cases r with
      | false => trivial
      | true =>
        intro r
        cases r with
        | false => trivial
        | true =>
          intro r
          cases r <;> trivial
    refine hinsert.bind fun inserted => ?_
    cases inserted with
    | none => trivial
    | some headers => exact ih headers

theorem receives_readRest (fuel remaining : Nat) (body : Bytes) :
    Receives (readRest fuel remaining body) := by
  induction fuel generalizing remaining body with
  | zero => cases remaining <;> trivial
  | succ fuel ih =>
    cases remaining with
    | zero => trivial
    | succ remaining =>
      refine receives_allocate.bind fun _ => ⟨fun h => ⟨.connectionClosed, rfl⟩, fun r => ?_⟩
      cases r with
      | error e => trivial
      | ok read =>
        obtain ⟨bytes, hbytes⟩ := read
        show Receives (if bytes = [] then _ else _)
        split
        · trivial
        · exact receives_allocate.bind fun _ => ih _ _

theorem receives_readBody (reader : BufReader) (contentLength maxBodySize : Nat) :
    Receives (readBody reader contentLength maxBodySize) := by
  unfold readBody
  split
  · trivial
  · split
    · trivial
    · exact receives_allocate.bind fun _ => receives_allocate.bind fun _ =>
        (receives_readRest _ _ _).bind fun _ => trivial

theorem receives_acceptRequest (config : ServerConfig) (reader : BufReader) (n : Nat)
    (raw : RawRequest) : Receives (acceptRequest config reader n raw) := by
  unfold acceptRequest
  split
  · trivial
  · refine receives_allocate.bind fun _ => (receives_insertAll _ _).bind fun headers => ?_
    show Receives (if config.maxBodySize < headers.contentLength.getD 0 then _ else _)
    split
    · trivial
    · split
      · exact (receives_readBody _ _ _).bind fun _ => trivial
      · trivial

theorem receives_acceptResponse (maxBodySize : Nat) (reader : BufReader) (n : Nat)
    (raw : RawResponse) : Receives (acceptResponse maxBodySize reader n raw) := by
  refine (receives_insertAll _ _).bind fun headers => ?_
  split
  · exact (receives_readBody _ _ _).bind fun _ => trivial
  · trivial

theorem receives_parseLoop {ρ γ : Type} {parser : IncrementalParser UInt8 ρ} {maxHeaderSize : Nat}
    {accept : BufReader → Nat → ρ → HttpProgram γ}
    (haccept : ∀ reader n raw, Receives (accept reader n raw)) (fuel : Nat) (reader : BufReader) :
    Receives (parseLoop parser maxHeaderSize accept fuel reader) := by
  induction fuel generalizing reader with
  | zero => trivial
  | succ fuel ih =>
    rw [parseLoop_succ, Program.bind_eq, BufReader.fill]
    simp only
    split
    · trivial
    · refine ⟨fun h => ⟨.connectionClosed, rfl⟩, fun r => ?_⟩
      cases r with
      | error e => trivial
      | ok read =>
        obtain ⟨bytes, hbytes⟩ := read
        show Receives (Program.bind (if bytes = [] then _ else _) _)
        split
        · trivial
        · show Receives (onVerdict maxHeaderSize _ _ _ _)
          unfold onVerdict
          split
          · exact haccept _ _ _
          · split
            · trivial
            · exact ih _
          · trivial

theorem receives_parseRequest (httparse : Httparse) (config : ServerConfig) (reader : BufReader) :
    Receives (parseRequest httparse config reader) :=
  receives_parseLoop (receives_acceptRequest config) _ reader

theorem receives_parseResponse (httparse : HttparseResponse) (maxHeaderSize maxBodySize : Nat)
    (reader : BufReader) : Receives (parseResponse httparse maxHeaderSize maxBodySize reader) :=
  receives_parseLoop (receives_acceptResponse maxBodySize) _ reader

variable (handler served) in
theorem performs_bufReader (capacity : Nat) :
    Performs (answerOwn handler)
      (fun r s => (∃ reader, r = .ok (some reader) ∧ reader.capacity = capacity ∧
        reader.data = []) ∧ s = served)
      ((BufReader.new capacity).interp httpCalls) served [] :=
  ⟨rfl, ⟨_, rfl, BufReader.empty_capacity capacity, BufReader.empty_data capacity⟩, rfl⟩

end Receiving

/-- A request that the other side can take: within the limits of the parser and without a length of
the user's own. -/
structure Sendable (grammar : HttpGrammar) (host : Bytes) (request : Request) : Prop where
  path : grammar.target request.path
  value : grammar.fieldValue host
  trimmed : Trimmed host
  headers : ∀ h ∈ request.headers, grammar.Field h
  free : ∀ h ∈ request.headers, eqIgnoreAsciiCase h.1 CONTENT_LENGTH = false
  count : request.headers.length ≤ 62
  head : (headBytes (requestLine request.method.asStr request.path request.version)
    (sentFields request host)).length ≤ 8192
  body : request.body.length ≤ 1024 * 1024

/-- A response that the client can take. -/
structure Answerable (grammar : HttpGrammar) (response : Response) : Prop where
  low : 100 ≤ response.status.toNat
  high : response.status.toNat ≤ 999
  headers : ∀ h ∈ response.headers, grammar.Field h
  count : response.headers.length ≤ 63
  head : (headBytes (statusLine response.version (formatUsize response.status.toNat 5)
    (reason response.status))
    ((CONTENT_LENGTH, formatUsize response.body.length 20) :: response.headers)).length ≤ 8192
  body : response.body.length ≤ 1024 * 1024

/-- The response as the client gets it. -/
def receivedResponse (response : Response) : Response :=
  { response with
    headers := (CONTENT_LENGTH, formatUsize response.body.length 20) :: response.headers }

def requestBytes (host : Bytes) (request : Request) : Bytes :=
  headBytes (requestLine request.method.asStr request.path request.version)
    (sentFields request host) ++ request.body

def responseBytes (response : Response) : Bytes :=
  headBytes (statusLine response.version (formatUsize response.status.toNat 5)
    (reason response.status))
    ((CONTENT_LENGTH, formatUsize response.body.length 20) :: response.headers) ++ response.body

section Messages

variable {grammar : HttpGrammar} {httparse : Httparse} {parser : HttparseResponse} {host : Bytes}
  {request : Request} {response : Response}

theorem writeRequest_done (request : Request) (host : Bytes) :
    (writeRequest request host).exec accept [] =
      (.done (), writes (writeRequest request host)) := by
  refine Prod.ext ?_ rfl
  simp only [writeRequest, Program.bind_eq, withCapacity_bind_exec, extend_bind_exec]
  rw [Program.exec_bind_done (writeHeader_exec _ _ _)]
  by_cases hbody : request.body = []
  · simp only [hbody, ne_eq, not_true_eq_false, if_false, Program.pure_eq, Program.done_bind]
    rw [Program.exec_bind_done (writeHeaders_exec _ _), extend_bind_exec, writeMessage_exec]
  · simp only [ne_eq, hbody, not_false_eq_true, if_true, writeHeaderUsize]
    rw [Program.exec_bind_done (writeHeader_exec _ _ _),
      Program.exec_bind_done (writeHeaders_exec _ _), extend_bind_exec, writeMessage_exec]

theorem writeResponse_done (response : Response) :
    (writeResponse response).exec accept [] = (.done (), writes (writeResponse response)) := by
  refine Prod.ext ?_ rfl
  simp only [writeResponse, writeHeaderUsize, writeU16, Program.bind_eq, withCapacity_bind_exec,
    extend_bind_exec]
  rw [Program.exec_bind_done (writeHeader_exec _ _ _),
    Program.exec_bind_done (writeHeaders_exec _ _), extend_bind_exec, writeMessage_exec]

theorem performs_writeRequest (host : Bytes) (request : Request) :
    Performs (answerOwn handler) (fun r s => r = .ok () ∧ s = served)
      ((writeRequest request host).interp wireCalls) served
      ((requestBytes host request).map .send) := by
  obtain ⟨sent, hsent, hperforms⟩ := performs_wire handler served
    (writeRequest_done request host)
  rw [List.nil_append, writeRequest_writes] at hsent
  rw [← hsent, flatten_writes] at hperforms
  exact hperforms

theorem performs_writeResponse (response : Response) :
    Performs (answerOwn handler) (fun r s => r = true ∧ s = served)
      (httpCalls (.writeResponse response)) served ((responseBytes response).map .send) := by
  obtain ⟨sent, hsent, hperforms⟩ := performs_wire handler served
    (writeResponse_done response)
  rw [List.nil_append, writeResponse_writes] at hsent
  rw [← hsent, flatten_writes] at hperforms
  rw [← List.append_nil (List.map _ _)]
  refine hperforms.bind (fun r s hr => ?_) (Or.inl rfl)
  obtain ⟨rfl, rfl⟩ := hr
  exact ⟨rfl, rfl, rfl⟩

variable (handler served) in
theorem performs_parseRequest (haccepts : AcceptsRequests grammar httparse)
    (hsend : Sendable grammar host request) {reader : BufReader}
    (hcap : reader.capacity = 8192) (hdata : reader.data = []) :
    Performs (answerOwn handler)
      (fun r s => (∃ x, r = .ok x ∧ x.1 = receivedRequest request host ∧ x.2.capacity = 8192 ∧
        x.2.data = []) ∧ s = served)
      ((parseRequest httparse .default reader).interp httpCalls) served
      ((requestBytes host request).map .recv) := by
  refine performs_of_exec (receives_parseRequest httparse .default reader) fun sizes => ?_
  have hbody := hsend.body
  have hcount := length_sentFields_le request host
  have hcount' := hsend.count
  have hframe : frame httparse .default 8192 (requestBytes host request) =
      .ok (receivedRequest request host, []) :=
    frame_sent haccepts hsend.path (field_sentFields hsend.value hsend.trimmed hsend.headers)
      (by omega) (contentLength_sentFields host (by omega) hsend.free) hsend.head hbody
  have hconfig : reader.capacity = ServerConfig.default.maxHeaderSize := hcap
  have hagrees := parseRequest_agrees (p := ⟨requestBytes host request, sizes, served⟩) handler
    httparse hconfig (by rw [hdata, hcap]; decide) (headBytes_append_ne_nil _ _ _)
  rw [hdata, List.nil_append, hcap, hframe] at hagrees
  obtain ⟨r', p', hrun, hleft, hcap', -, -⟩ := hagrees.of_ok
  obtain ⟨hdata', hrest⟩ := List.append_eq_nil_iff.mp hleft
  exact ⟨(_, r'), p', hrun, ⟨rfl, hcap', hdata'⟩, hrest⟩

/-- The other side has closed the stream between two requests. -/
theorem performs_parseRequest_end {reader : BufReader} (hcap : reader.capacity = 8192)
    (hdata : reader.data = []) :
    Performs (answerOwn handler) (fun r s => r = .error .connectionClosed ∧ s = served)
      ((parseRequest httparse .default reader).interp httpCalls) served [.eof] := by
  have hroom := reader.room_eq
  rw [hcap, hdata, List.length_nil] at hroom
  have hfree : ¬ reader.compact.buf.length ≤ reader.compact.len := by omega
  rw [parseRequest, parseLoop_succ, Program.bind_eq, BufReader.fill]
  simp only
  rw [if_neg hfree]
  exact ⟨by omega, Or.inl ⟨rfl, rfl, rfl, rfl⟩⟩

variable (handler served) in
theorem performs_parseResponse (haccepts : AcceptsResponses grammar parser)
    (hanswer : Answerable grammar response) {reader : BufReader} (hcap : reader.capacity = 8192)
    (hdata : reader.data = []) :
    Performs (answerOwn handler)
      (fun r s => (∃ x, r = .ok x ∧ x.1 = receivedResponse response) ∧ s = served)
      ((parseResponse parser 8192 (1024 * 1024) reader).interp httpCalls) served
      ((responseBytes response).map .recv) := by
  refine performs_of_exec (receives_parseResponse parser 8192 _ reader) fun sizes => ?_
  obtain ⟨hdecimal, hdigits, hcode⟩ := code_of_status hanswer.low hanswer.high
  have hbody := hanswer.body
  have hcount := hanswer.count
  have hfields : ∀ h ∈ (CONTENT_LENGTH, formatUsize response.body.length 20) :: response.headers,
      grammar.Field h := by
    intro h hh
    rcases List.mem_cons.mp hh with rfl | huser
    · exact field_length grammar response.body.length
    · exact hanswer.headers h huser
  have hlength := contentLength_cons_length (by omega : response.body.length < 2 ^ 64)
    response.headers
  have hparse := haccepts response.version _ _ _ hdecimal hdigits
    (grammar.reason_phrase response.status) hfields (by rw [List.length_cons]; omega)
  obtain ⟨r', p', hrun, hdata, hrest⟩ := parseResponse_exec handler
    ⟨responseBytes response, sizes, served⟩ hcap hdata hparse hanswer.head rfl
    (by rw [hlength, Option.getD_some]) hbody
  rw [Option.getD_some, Option.getD_some, Version.fromHttparse_number, hcode] at hrun
  exact ⟨_, p', hrun, rfl, hrest⟩

theorem extend_exec (buf data : Bytes) (ws : List Bytes) :
    (extend buf data).exec accept ws = (.done (buf ++ data), ws) := rfl

theorem formatHost_exec (addr : SocketAddr) (buf : Bytes) (ws : List Bytes) :
    (formatHost addr buf).exec accept ws = (.done (buf ++ hostText addr), ws) := by
  cases addr with
  | v6 addr => rfl
  | v4 addr =>
    simp only [formatHost, writeU8_eq, writeU16_eq, Program.bind_eq, extend_bind_exec]
    by_cases hport : addr.port = 80
    · rw [if_neg (not_not.mpr hport), hostText, portSuffix, if_pos hport, dottedQuad]
      simp only [Program.pure_eq, Program.exec_done, List.append_assoc, List.append_nil]
    · rw [if_pos hport, extend_bind_exec, extend_exec, hostText, portSuffix, if_neg hport,
        dottedQuad]
      simp only [List.append_assoc]

/-- The Host field that `send_on_inner` sends. -/
def hostOf (addr : Option SocketAddr) (request : Request) : Bytes :=
  match addr with
  | some addr => hostText addr
  | none => (request.headers.get HOST).getD []

theorem hostValue_exec (addr : Option SocketAddr) (request : Request) :
    (HttpClient.hostValue addr request).exec accept [] = (.done (hostOf addr request), []) := by
  cases addr with
  | some addr =>
    rw [HttpClient.hostValue, Program.bind_eq, withCapacity_bind_exec, formatHost_exec]
    rfl
  | none =>
    rw [HttpClient.hostValue, hostOf]
    cases request.headers.get HOST <;> rfl

theorem performs_readResponse (haccepts : AcceptsResponses grammar parser)
    (hanswer : Answerable grammar response) {reader : BufReader} (hcap : reader.capacity = 8192)
    (hdata : reader.data = []) :
    Performs (answerOwn handler) (fun r s => r = receivedResponse response ∧ s = served)
      (HttpClient.readResponse parser (some reader)) served
      ((responseBytes response).map .recv) := by
  have hparse := performs_parseResponse handler served haccepts hanswer
    hcap hdata
  rw [← List.append_nil (List.map _ _)]
  refine hparse.bind (fun r s hr => ?_) (Or.inl rfl)
  obtain ⟨⟨x, rfl, hx⟩, rfl⟩ := hr
  exact ⟨rfl, hx, rfl⟩

-- The capacity stays a variable: unification would otherwise count to 8192.
theorem performs_newReader {capacity : Nat} (haccepts : AcceptsResponses grammar parser)
    (hanswer : Answerable grammar response) (hcap : capacity = 8192)
    {moves : List (Move UInt8)} (hmoves : moves = (responseBytes response).map .recv) :
    Performs (answerOwn handler) (fun r s => r = receivedResponse response ∧ s = served)
      (((BufReader.new capacity).interp httpCalls).bind fun r =>
        (HttpClient.mapErr HttpError.toError r).bind (HttpClient.readResponse parser)) served
      moves := by
  have hnew := performs_bufReader handler served capacity
  rw [← List.nil_append moves]
  refine hnew.bind (fun r s hr => ?_) (splits_sends [] _)
  obtain ⟨⟨reader, rfl, hreader, hdata⟩, rfl⟩ := hr
  rw [hmoves]
  exact performs_readResponse haccepts hanswer (hreader.trans hcap) hdata

/-- One exchange from the side of the client. -/
theorem performs_sendOnInner (haccepts : AcceptsResponses grammar parser)
    (hanswer : Answerable grammar response) (addr : Option SocketAddr) (request : Request) :
    Performs (answerOwn handler) (fun r s => r = receivedResponse response ∧ s = served)
      (HttpClient.sendOnInner parser addr request) served
      ((requestBytes (hostOf addr request) request).map .send ++
        (responseBytes response).map .recv) := by
  obtain ⟨sent, hsent, hhost⟩ := performs_wire handler served
    (hostValue_exec addr request)
  rw [List.nil_append] at hsent
  subst hsent
  rw [← List.nil_append (_ ++ _)]
  refine hhost.bind (fun r s hr => ?_) (splits_sends [] _)
  obtain ⟨rfl, rfl⟩ := hr
  refine (performs_writeRequest (hostOf addr request) request).bind (fun r s hr => ?_)
    (splits_sends _ _)
  obtain ⟨rfl, rfl⟩ := hr
  generalize hcap : 8192 = capacity
  exact performs_newReader haccepts hanswer hcap.symm rfl

end Messages

section Conversation

variable {grammar : HttpGrammar} {httparse : Httparse} {parser : HttparseResponse}
  {addr : Option SocketAddr} {requests : List Request}

/-- The request as the server gets it. -/
def received (addr : Option SocketAddr) (request : Request) : Request :=
  receivedRequest request (hostOf addr request)

def clientMoves (handler : List Request → Request → Response) (addr : Option SocketAddr) :
    List Request → List Request → List (Move UInt8)
  | _, [] => []
  | served, request :: requests =>
    (requestBytes (hostOf addr request) request).map .send ++
      ((responseBytes (handler served (received addr request))).map .recv ++
        clientMoves handler addr (served ++ [received addr request]) requests)

/-- The server waits for a further request unless the last one has told it not to. -/
def serverMoves (handler : List Request → Request → Response) (addr : Option SocketAddr) :
    List Request → List Request → List (Move UInt8)
  | _, [] => [.eof]
  | served, request :: requests =>
    (requestBytes (hostOf addr request) request).map .recv ++
      ((responseBytes (handler served (received addr request))).map .send ++
        if (received addr request).keepalive then
          serverMoves handler addr (served ++ [received addr request]) requests
        else [])

/-- What the client gets back, answer by answer. -/
def answers (handler : List Request → Request → Response) (addr : Option SocketAddr) :
    List Request → List Request → List Response
  | _, [] => []
  | served, request :: requests =>
    receivedResponse (handler served (received addr request)) ::
      answers handler addr (served ++ [received addr request]) requests

theorem matches_moves (hkeep : ∀ r ∈ requests.dropLast, (received addr r).keepalive = true) :
    Matches (clientMoves handler addr served requests)
      (serverMoves handler addr served requests) := by
  induction requests generalizing served with
  | nil => exact .rightEof
  | cons request requests ih =>
    refine Matches.append_sends _ (Matches.append_recvs _ ?_)
    cases requests with
    | nil =>
      by_cases halive : (received addr request).keepalive = true
      · rw [if_pos halive]
        exact .rightEof
      · rw [if_neg halive]
        exact .nil
    | cons next requests =>
      rw [List.dropLast_cons_cons] at hkeep
      rw [if_pos (hkeep request (List.mem_cons_self ..))]
      exact ih fun r hr => hkeep r (List.mem_cons_of_mem request hr)

theorem responseBytes_ne_nil (response : Response) : responseBytes response ≠ [] :=
  headBytes_append_ne_nil _ _ _

/-- The part of the loop from the parsed request to the next one. -/
theorem performs_respond {request : Request} {next : HttpProgram Unit}
    {Q : Except HttpError Unit → List Request → Prop} {moves : List (Move UInt8)}
    (hnext : request.keepalive = true →
      Performs (answerOwn handler) Q (next.interp httpCalls) (served ++ [request]) moves)
    (hlast : request.keepalive = false → Q (.ok ()) (served ++ [request])) :
    Performs (answerOwn handler) Q
      (Program.interp httpCalls (do
        let response : HttpCall.Reply (.handle request) ← Program.ask _
        if !(← Program.ask (.writeResponse response)) then return ()
        else if !request.keepalive then return ()
        else next)) served
      ((responseBytes (handler served request)).map .send ++
        if request.keepalive then moves else []) := by
  show Performs _ _ ((httpCalls (.writeResponse (handler served request))).bind _)
    (served ++ [request]) _
  refine (performs_writeResponse _).bind (fun r s hr => ?_) (splits_sends _ _)
  obtain ⟨rfl, rfl⟩ := hr
  cases halive : request.keepalive with
  | true => exact hnext halive
  | false => exact ⟨rfl, hlast halive⟩

theorem performs_serveLoop (haccepts : AcceptsRequests grammar httparse)
    (hsend : ∀ r ∈ requests, Sendable grammar (hostOf addr r) r)
    (hkeep : ∀ r ∈ requests.dropLast, (received addr r).keepalive = true) {fuel : Nat}
    (hfuel : requests.length < fuel) {reader : BufReader} (hcap : reader.capacity = 8192)
    (hdata : reader.data = []) :
    Performs (answerOwn handler)
      (fun r s => r = .ok () ∧ s = served ++ requests.map (received addr))
      ((serveLoop httparse .default fuel reader).interp httpCalls) served
      (serverMoves handler addr served requests) := by
  induction requests generalizing served fuel reader with
  | nil =>
    cases fuel with
    | zero => omega
    | succ fuel =>
      rw [serveLoop, Program.bind_eq, Program.interp_bind, Program.interp_attempt,
        Program.bind_assoc, serverMoves, ← List.append_nil [Move.eof]]
      refine (performs_parseRequest_end hcap hdata).bind (fun r s hr => ?_) (Or.inl rfl)
      obtain ⟨rfl, rfl⟩ := hr
      exact ⟨rfl, rfl, (List.append_nil _).symm⟩
  | cons request requests ih =>
    cases fuel with
    | zero => omega
    | succ fuel =>
      have hparse := performs_parseRequest handler served haccepts
        (hsend request (List.mem_cons_self ..)) hcap hdata
      rw [serveLoop, Program.bind_eq, Program.interp_bind, Program.interp_attempt,
        Program.bind_assoc, serverMoves]
      refine hparse.bind (fun r s hr => ?_) (splits_exchange [] _ ?_)
      · obtain ⟨⟨⟨req, reader'⟩, rfl, rfl, hcap', hdata'⟩, rfl⟩ := hr
        refine performs_respond (fun halive => ?_) fun hclose => ?_
        · rw [List.map_cons, List.append_cons]
          refine ih (fun r hr => hsend r (List.mem_cons_of_mem request hr)) ?_
            (Nat.lt_of_succ_lt_succ hfuel) (reader'.reset_capacity.trans hcap')
            (reader'.reset_data.trans hdata')
          cases requests with
          | nil => exact fun r hr => nomatch hr
          | cons next requests => exact fun r hr => hkeep r (List.mem_cons_of_mem request hr)
        · cases requests with
          | nil => exact ⟨rfl, rfl⟩
          | cons next requests =>
            have halive := hkeep request (List.mem_cons_self ..)
            rw [received, hclose] at halive
            cases halive
      · cases hbytes : responseBytes (handler served (received addr request)) with
        | nil => exact absurd hbytes (responseBytes_ne_nil _)
        | cons b bytes => exact fun b' h => nomatch Option.some.inj h

theorem performs_serveStream (haccepts : AcceptsRequests grammar httparse)
    (hsend : ∀ r ∈ requests, Sendable grammar (hostOf addr r) r)
    (hkeep : ∀ r ∈ requests.dropLast, (received addr r).keepalive = true) {fuel : Nat}
    (hfuel : requests.length < fuel) :
    Performs (answerOwn handler) (fun r s => r = .ok () ∧ s = requests.map (received addr))
      (serveStream httparse .default fuel) [] (serverMoves handler addr [] requests) := by
  have hnew := performs_bufReader handler []
    ServerConfig.default.maxHeaderSize
  rw [serveStream, handleConnection, Program.bind_eq, Program.interp_bind,
    ← List.nil_append (serverMoves _ _ _ _)]
  refine hnew.bind (fun r s hr => ?_) (splits_sends [] _)
  obtain ⟨⟨reader, rfl, hcap, hdata⟩, rfl⟩ := hr
  have hloop : Performs (answerOwn handler)
      (fun r s => r = .ok () ∧ s = [] ++ requests.map (received addr))
      ((serveLoop httparse .default fuel reader).interp httpCalls) []
      (serverMoves handler addr [] requests) :=
    performs_serveLoop haccepts hsend hkeep hfuel hcap hdata
  exact hloop

theorem head_clientMoves (b : UInt8) :
    (clientMoves handler addr served requests).head? ≠ some (.recv b) := by
  cases requests with
  | nil => exact fun h => nomatch h
  | cons request requests =>
    intro hhead
    cases hbytes : requestBytes (hostOf addr request) request with
    | nil => exact headBytes_append_ne_nil _ _ _ hbytes
    | cons c bytes =>
      rw [clientMoves, hbytes] at hhead
      cases hhead

theorem performs_sendAll (haccepts : AcceptsResponses grammar parser)
    (hanswer : ∀ served request, Answerable grammar (handler served request)) {own : List Request} :
    Performs (answerOwn handler) (fun r s => r = answers handler addr served requests ∧ s = own)
      (HttpClient.sendAll parser addr requests) own (clientMoves handler addr served requests) := by
  induction requests generalizing served with
  | nil => exact ⟨rfl, rfl, rfl⟩
  | cons request requests ih =>
    rw [clientMoves, ← List.append_assoc, HttpClient.sendAll, Program.bind_eq]
    refine (performs_sendOnInner haccepts (hanswer served (received addr request)) addr
      request).bind (fun r s hr => ?_) (splits_exchange _ _ head_clientMoves)
    obtain ⟨rfl, rfl⟩ := hr
    rw [← List.append_nil (clientMoves _ _ _ _)]
    refine ih.bind (fun rs s' hrs => ?_) (Or.inl rfl)
    obtain ⟨rfl, rfl⟩ := hrs
    exact ⟨rfl, rfl, rfl⟩

/-- A client and a server at the two ends of a fresh connection. -/
def connection (httparse : Httparse) (parser : HttparseResponse) (addr : Option SocketAddr)
    (requests : List Request) (fuel : Nat) :
    System UInt8 HttpOwn Error HttpOwn.Reply (List Request) Error (List Response) Error
      (Except HttpError Unit) :=
  ⟨HttpClient.sendAll parser addr requests, serveStream httparse .default fuel, [], [], [], []⟩

/-- However the two sides are scheduled, and however the bytes of each read and write are cut, they
do not run for ever and do not block each other: every request is served in turn and every answer
comes back to the request it belongs to. -/
theorem connection_delivers (hrequests : AcceptsRequests grammar httparse)
    (hresponses : AcceptsResponses grammar parser)
    (hsend : ∀ r ∈ requests, Sendable grammar (hostOf addr r) r)
    (hanswer : ∀ served request, Answerable grammar (handler served request))
    (hkeep : ∀ r ∈ requests.dropLast, (received addr r).keepalive = true) {fuel window : Nat}
    (hfuel : requests.length < fuel) (hwindow : 0 < window) :
    (∀ schedule : Nat → Action, ∃ n, GuardedRun.run (System.step (answerOwn handler) window)
      (connection httparse parser addr requests fuel) ((List.range n).map schedule) = none) ∧
    ∀ actions x, GuardedRun.run (System.step (answerOwn handler) window)
        (connection httparse parser addr requests fuel) actions = some x →
      (∃ a x', x.step (answerOwn handler) window a = some x') ∨
        x.left = .done (answers handler addr [] requests) ∧ x.right = .done (.ok ()) ∧
          x.rightOwn = requests.map (received addr) ∧ x.toRight = [] ∧ x.toLeft = [] := by
  have hclient : Performs (answerOwn handler)
      (fun r s => r = answers handler addr [] requests ∧ s = [])
      (HttpClient.sendAll parser addr requests) [] (clientMoves handler addr [] requests) :=
    performs_sendAll hresponses hanswer
  have hserver : Performs (answerOwn handler)
      (fun r s => r = .ok () ∧ s = requests.map (received addr))
      (serveStream httparse .default fuel) [] (serverMoves handler addr [] requests) :=
    performs_serveStream hrequests hsend hkeep hfuel
  have hends := Converses.ends (x := connection httparse parser addr requests fuel) hwindow
    ⟨_, _, hclient, hserver, .left [] (matches_moves hkeep)⟩
  refine ⟨hends.finite, fun actions x hrun => ?_⟩
  rcases hends.run hrun with hgo | ⟨⟨rs, hleft, rfl, -⟩, ⟨r, hright, rfl, hserved⟩, hto⟩
  · exact Or.inl hgo
  · exact Or.inr ⟨hleft, hright, hserved, hto⟩

def localhost : SocketAddr := .v4 ⟨⟨#v[127, 0, 0, 1]⟩, 8080⟩

def getRequest : Request :=
  ⟨.get, ascii "/b", .http11, [(CONNECTION, ascii "close")], []⟩

def uploadRequest : Request := ⟨.put, ascii "/a", .http11, [], ascii "hi"⟩

/-- The first request gets another answer than the later ones. -/
def createHandler (served : List Request) (_ : Request) : Response :=
  if served = [] then ⟨201, .http11, [], []⟩ else ⟨200, .http11, [], ascii "hi"⟩

theorem sendable_localhost {request : Request}
    (hpath : request.path ≠ [] ∧ request.path.all isVisible)
    (hheaders : ∀ h ∈ request.headers, standardGrammar.Field h)
    (hfree : ∀ h ∈ request.headers, eqIgnoreAsciiCase h.1 CONTENT_LENGTH = false)
    (hcount : request.headers.length ≤ 62)
    (hhead : (headBytes (requestLine request.method.asStr request.path request.version)
      (sentFields request (hostText localhost))).length ≤ 8192)
    (hbody : request.body.length ≤ 1024 * 1024) :
    Sendable standardGrammar (hostText localhost) request where
  path := hpath
  value := show (hostText localhost).all isText = true by decide
  trimmed := by
    intro b hb
    rcases hb with hb | hb <;> cases hb <;> decide
  headers := hheaders
  free := hfree
  count := hcount
  head := hhead
  body := hbody

theorem connection_delivers_two :
    (∀ schedule : Nat → Action, ∃ n, GuardedRun.run (System.step (answerOwn createHandler) 10)
      (connection headParser statusParser (some localhost) [uploadRequest, getRequest] 3)
      ((List.range n).map schedule) = none) ∧
    ∀ actions x, GuardedRun.run (System.step (answerOwn createHandler) 10)
        (connection headParser statusParser (some localhost) [uploadRequest, getRequest] 3)
        actions = some x →
      (∃ a x', x.step (answerOwn createHandler) 10 a = some x') ∨
        x.left = .done [⟨201, .http11, [(CONTENT_LENGTH, ascii "0")], []⟩,
          ⟨200, .http11, [(CONTENT_LENGTH, ascii "2")], ascii "hi"⟩] ∧
        x.right = .done (.ok ()) ∧
        x.rightOwn = [⟨.put, ascii "/a", .http11, [(HOST, ascii "127.0.0.1:8080"),
            (CONTENT_LENGTH, ascii "2")], ascii "hi"⟩,
          ⟨.get, ascii "/b", .http11, [(HOST, ascii "127.0.0.1:8080"),
            (CONNECTION, ascii "close")], []⟩] ∧
        x.toRight = [] ∧ x.toLeft = [] := by
  have hclose : ∀ h ∈ getRequest.headers, standardGrammar.Field h := by
    intro h hh
    cases List.mem_singleton.mp hh
    refine ⟨⟨by decide, by decide⟩, show (ascii "close").all isText = true by decide, ?_⟩
    intro b hb
    rcases hb with hb | hb <;> cases hb <;> decide
  have hsend : ∀ r ∈ [uploadRequest, getRequest],
      Sendable standardGrammar (hostOf (some localhost) r) r := by
    intro r hr
    rcases List.mem_pair.mp hr with rfl | rfl
    · exact sendable_localhost (by decide) (List.forall_mem_nil _) (by decide) (by decide)
        (by decide) (by decide)
    · exact sendable_localhost (by decide) hclose (by decide) (by decide) (by decide) (by decide)
  have hanswer : ∀ served request, Answerable standardGrammar (createHandler served request) := by
    intro served request
    by_cases hs : served = []
    · rw [createHandler, if_pos hs]
      exact ⟨by decide, by decide, List.forall_mem_nil _, by decide, by decide, by decide⟩
    · rw [createHandler, if_neg hs]
      exact ⟨by decide, by decide, List.forall_mem_nil _, by decide, by decide, by decide⟩
  exact connection_delivers acceptsRequests_headParser acceptsResponses_statusParser hsend hanswer
    (by decide) (by decide) (by decide)

end Conversation

end Rko
