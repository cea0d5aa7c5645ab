import Rko.HttpFraming

namespace Rko

open CallProgram IncrementalParser Peer

/-- `parse_request` with any function in the place of `httparse`. -/
def parseRequestWith (parse : Bytes → Verdict RawRequest) (config : ServerConfig)
    (reader : BufReader) : HttpProgram (Request × BufReader) :=
  parseLoopWith parse config.maxHeaderSize (acceptRequest config) (reader.capacity + 1) reader

/-- The rounds up to a complete head, which is returned with the buffer it was found in. -/
def readHead {ρ : Type} (parse : Bytes → Verdict ρ) (maxHeaderSize : Nat) :
    Nat → BufReader → HttpProgram (BufReader × Nat × ρ) :=
  parseLoopWith parse maxHeaderSize fun reader bodyOffset raw => pure (reader, bodyOffset, raw)

section Loop

variable {ρ γ : Type} {parse : Bytes → Verdict ρ} {maxHeaderSize : Nat}
  {accept : BufReader → Nat → ρ → HttpProgram γ}

theorem onVerdict_bind {γ' : Type} {size : Nat} {accept : Nat → ρ → HttpProgram γ}
    {continue_ : HttpProgram γ} (f : γ → HttpProgram γ') (v : Verdict ρ) :
    (onVerdict maxHeaderSize size accept continue_ v).bind f =
      onVerdict maxHeaderSize size (fun n raw => (accept n raw).bind f) (continue_.bind f) v := by
  cases v with
  | complete n raw => rfl
  | invalid => rfl
  | needMore =>
    rw [onVerdict, onVerdict]
    split <;> rfl

/-- What is done with a complete head comes after the loop. -/
theorem parseLoopWith_eq_bind (fuel : Nat) (r : BufReader) :
    parseLoopWith parse maxHeaderSize accept fuel r =
      (readHead parse maxHeaderSize fuel r).bind fun x => accept x.1 x.2.1 x.2.2 := by
  induction fuel generalizing r with
  | zero => rfl
  | succ fuel ih =>
    rw [parseLoopWith, readHead, parseLoopWith, Program.bind_eq, Program.bind_eq, Program.bind_assoc]
    congr 1
    funext x
    obtain ⟨filled, r'⟩ := x
    cases filled with
    | error e => rfl
    | ok n =>
      dsimp only
      rw [onVerdict_bind, ih r']
      rfl

/-- A read of the buffer fails, or moves bytes from the stream behind those it has. -/
theorem BufReader.fill_exec_cases (handler : List Request → Request → Response) (p : Peer)
    (r : BufReader) :
    (∃ e r' p', r.fill.exec (reply handler) p = (.done (.error e, r'), p')) ∨
      ∃ n r' p', r.fill.exec (reply handler) p = (.done (.ok n, r'), p') ∧
        r'.data ++ p'.rest = r.data ++ p.rest := by
  rcases Nat.lt_or_ge r.data.length r.capacity with hroom | hfull
  · rcases eq_or_ne p.rest [] with hnil | hrest
    · exact Or.inl ⟨_, _, _, BufReader.fill_exec_closed hroom hnil⟩
    · refine Or.inr ⟨_, _, _, BufReader.fill_exec_ok hroom hrest, ?_⟩
      rw [BufReader.filled_data ((List.length_take_le _ p.rest).trans (p.amount_le _)),
        List.append_assoc, afterRead, List.take_append_drop]
  · exact Or.inl ⟨_, _, _, BufReader.fill_exec_full hfull⟩

theorem readHead_exec {handler : List Request → Request → Response} {p p' : Peer} {fuel n : Nat}
    {r r' : BufReader} {raw : ρ}
    (h : (readHead parse maxHeaderSize fuel r).exec (reply handler) p = (.done (r', n, raw), p')) :
    parse r'.data = .complete n raw ∧ r'.data ++ p'.rest = r.data ++ p.rest := by
  induction fuel generalizing r p with
  | zero => cases h
  | succ fuel ih =>
    rw [readHead, parseLoopWith, Program.bind_eq] at h
    rcases r.fill_exec_cases handler p with ⟨e, r₁, p₁, hfill⟩ | ⟨k, r₁, p₁, hfill, hdata⟩
    · rw [Program.exec_bind_done hfill] at h
      cases h
    · rw [Program.exec_bind_done hfill] at h
      dsimp only at h
      cases hverdict : parse r₁.data with
      | invalid =>
        rw [hverdict] at h
        cases h
      | complete m raw' =>
        rw [hverdict] at h
        cases h
        exact ⟨hverdict, hdata⟩
      | needMore =>
        rw [hverdict, onVerdict] at h
        split at h
        · cases h
        · obtain ⟨hparse, hrest⟩ := ih h
          exact ⟨hparse, hrest.trans hdata⟩

end Loop

theorem parseRequest_eq_with (httparse : Httparse) (config : ServerConfig) (reader : BufReader) :
    parseRequest httparse config reader = parseRequestWith httparse.parse config reader :=
  rfl

section Message

variable {handler : List Request → Request → Response} {p p' : Peer} {config : ServerConfig}

theorem acceptRequest_offset {r r' : BufReader} {n : Nat} {raw : RawRequest} {request : Request}
    (h : (acceptRequest config r n raw).exec (reply handler) p = (.done (request, r'), p')) :
    n ≤ r.data.length := by
  by_contra hn
  have hheaders : (Headers.insertAll [] raw.headers).exec (reply handler) p =
      (.done raw.headers, p) := Headers.insertAll_exec [] raw.headers
  unfold acceptRequest at h
  split at h
  · cases h
  · simp only [Program.bind_eq, allocate_bind_exec, Program.exec_bind_done hheaders, dif_neg hn] at h
    split at h <;> cases h

theorem acceptRequest_done {r r' : BufReader} {n : Nat} {raw : RawRequest} {request : Request}
    (h : (acceptRequest config r n raw).exec (reply handler) p = (.done (request, r'), p')) :
    request.headers = raw.headers ∧ request.body.length = raw.headers.contentLength.getD 0 ∧
      request.body.length ≤ config.maxBodySize ∧
      r.data ++ p.rest = r.data.take n ++ request.body ++ (r'.data ++ p'.rest) := by
  have hn := acceptRequest_offset h
  have hagrees := acceptRequest_agrees handler (p := p) config raw hn
  rw [h] at hagrees
  cases hframe : frameBody config n raw (r.data ++ p.rest) with
  | error e =>
    rw [hframe] at hagrees
    obtain ⟨q, hfailed, -⟩ := hagrees.of_error
    cases hfailed
  | ok x =>
    obtain ⟨request₁, b'⟩ := x
    rw [hframe] at hagrees
    obtain ⟨r₁, p₁, hdone, hb', -⟩ := hagrees.of_ok
    cases hdone
    obtain ⟨hheaders, hmax, hlen, hbody, hrest⟩ := frameBody_ok hframe
    have hlength : request.body.length = raw.headers.contentLength.getD 0 := by
      rw [hbody, List.length_take, List.length_drop]
      omega
    refine ⟨hheaders, hlength, hlength.trans_le hmax, ?_⟩
    have hhead : r.data.take n = (r.data ++ p.rest).take n :=
      (List.take_append_of_le_length hn).symm
    rw [hb', hrest, hbody, hhead, List.append_assoc, ← List.drop_drop, List.take_append_drop,
      List.take_append_drop]

/-- Where a complete head is found, and a request is due, its body is read to the end or the
connection counts as closed. -/
theorem acceptRequest_short {r : BufReader} {n : Nat} {raw : RawRequest} (hn : n ≤ r.data.length)
    (hmethod : (Method.parse (raw.method.getD [])).isSome = true)
    (hmax : raw.headers.contentLength.getD 0 ≤ config.maxBodySize)
    (hshort : (r.data ++ p.rest).length < n + raw.headers.contentLength.getD 0) :
    ∃ p', (acceptRequest config r n raw).exec (reply handler) p =
      (.failed .connectionClosed, p') := by
  obtain ⟨method, hsome⟩ := Option.isSome_iff_exists.mp hmethod
  have hframe : frameBody config n raw (r.data ++ p.rest) = .error .connectionClosed := by
    rw [frameBody, hsome]
    simp only [if_neg (Nat.not_lt.mpr hmax), if_pos hshort]
  have hagrees := acceptRequest_agrees handler (p := p) config raw hn
  rw [hframe] at hagrees
  obtain ⟨p', hrun, -⟩ := hagrees.of_error
  exact ⟨p', hrun⟩

/-- A request comes of a complete head just when its method is known, its length is within the limit
and the stream holds its body. -/
theorem acceptRequest_done_iff {r : BufReader} {n : Nat} {raw : RawRequest}
    (hn : n ≤ r.data.length) :
    (∃ request r' p', (acceptRequest config r n raw).exec (reply handler) p =
        (.done (request, r'), p')) ↔
      (Method.parse (raw.method.getD [])).isSome = true ∧
        raw.headers.contentLength.getD 0 ≤ config.maxBodySize ∧
        n + raw.headers.contentLength.getD 0 ≤ (r.data ++ p.rest).length := by
  have hagrees := acceptRequest_agrees handler (p := p) config raw hn
  cases hframe : frameBody config n raw (r.data ++ p.rest) with
  | error e =>
    rw [hframe] at hagrees
    obtain ⟨q, hfailed, -⟩ := hagrees.of_error
    constructor
    · intro hdone
      obtain ⟨request, r', p', hdone⟩ := hdone
      rw [hfailed] at hdone
      cases hdone
    · intro hfits
      obtain ⟨hmethod, hmax, hlen⟩ := hfits
      obtain ⟨method, hsome⟩ := Option.isSome_iff_exists.mp hmethod
      rw [frameBody, hsome] at hframe
      simp only [if_neg (Nat.not_lt.mpr hmax), if_neg (Nat.not_lt.mpr hlen)] at hframe
      cases hframe
  | ok x =>
    obtain ⟨request, b'⟩ := x
    obtain ⟨-, hmax, hlen, -, -⟩ := frameBody_ok hframe
    have hmethod : (Method.parse (raw.method.getD [])).isSome = true := by
      cases hsome : Method.parse (raw.method.getD []) with
      | none =>
        rw [frameBody, hsome] at hframe
        cases hframe
      | some method => rfl
    rw [hframe] at hagrees
    obtain ⟨r', p', hdone, -⟩ := hagrees.of_ok
    exact ⟨fun _ => ⟨hmethod, hmax, hlen⟩, fun _ => ⟨request, r', p', hdone⟩⟩

/-- When a head is read, `parse_request` returns a request just when the head is one of a request
whose body is within the limit and in the stream. -/
theorem parseRequestWith_done_iff {parse : Bytes → Verdict RawRequest} {reader r : BufReader}
    {n : Nat} {raw : RawRequest}
    (hhead : (readHead parse config.maxHeaderSize (reader.capacity + 1) reader).exec (reply handler)
      p = (.done (r, n, raw), p')) (hn : n ≤ r.data.length) :
    (∃ request reader' q, (parseRequestWith parse config reader).exec (reply handler) p =
        (.done (request, reader'), q)) ↔
      (Method.parse (raw.method.getD [])).isSome = true ∧
        raw.headers.contentLength.getD 0 ≤ config.maxBodySize ∧
        n + raw.headers.contentLength.getD 0 ≤ (reader.data ++ p.rest).length := by
  obtain ⟨-, hdata⟩ := readHead_exec hhead
  rw [parseRequestWith, parseLoopWith_eq_bind, Program.exec_bind_done hhead,
    acceptRequest_done_iff hn, hdata]

/-- Two reads bring the head and the first byte of the body; what follows the body is left for the
next message. -/
example : ∃ reader' p', (parseRequestWith (fun b => if b.length < 3 then .needMore else .complete 3
      ⟨some (ascii "GET"), none, none, [(CONTENT_LENGTH, ascii "2")]⟩) .default
      (BufReader.empty 8)).exec (reply fun _ _ => ⟨200, .http11, [], []⟩)
      ⟨[1, 2, 3, 4, 5, 6, 7], [2, 2, 2], []⟩ =
    (.done (⟨.get, ascii "/", .http11, [(CONTENT_LENGTH, ascii "2")], [4, 5]⟩, reader'), p') ∧
      reader'.data ++ p'.rest = [6, 7] :=
  ⟨_, _, rfl, rfl⟩

end Message

/-- `parse_request` takes one message: the bytes it had and those it read are the head, the body and
what is left in the buffer, in this order, and a body that the stream does not complete gives no
request. -/
theorem parseRequest_consumes_one_message (parse : Bytes → Verdict RawRequest)
    (config : ServerConfig) (reader : BufReader) (handler : List Request → Request → Response)
    (p : Peer) :
    (∀ request reader' p', (parseRequestWith parse config reader).exec (reply handler) p =
        (.done (request, reader'), p') →
      ∃ t head seen raw, p.rest = t ++ p'.rest ∧
        reader.data ++ t = head ++ request.body ++ reader'.data ∧
        head <+: seen ∧ seen <+: reader.data ++ t ∧ parse seen = .complete head.length raw ∧
        request.headers = raw.headers ∧
        request.body.length = request.headers.contentLength.getD 0 ∧
        request.body.length ≤ config.maxBodySize) ∧
    ∀ r n raw p₁, (readHead parse config.maxHeaderSize (reader.capacity + 1) reader).exec
        (reply handler) p = (.done (r, n, raw), p₁) →
      n ≤ r.data.length → (Method.parse (raw.method.getD [])).isSome = true →
      raw.headers.contentLength.getD 0 ≤ config.maxBodySize →
      (reader.data ++ p.rest).length < n + raw.headers.contentLength.getD 0 →
      ∃ p', (parseRequestWith parse config reader).exec (reply handler) p =
        (.failed .connectionClosed, p') := by
  constructor
  · intro request reader' p' hdone
    rw [parseRequestWith, parseLoopWith_eq_bind] at hdone
    obtain ⟨⟨r, n, raw⟩, p₁, hhead, haccept⟩ := Program.of_exec_bind_done hdone
    obtain ⟨hparse, hdata⟩ := readHead_exec hhead
    obtain ⟨t₁, ht₁⟩ := exec_rest_suffix_of hhead
    obtain ⟨t₂, ht₂⟩ := exec_rest_suffix_of haccept
    have hn := acceptRequest_offset haccept
    obtain ⟨hheaders, hlength, hmax, hbytes⟩ := acceptRequest_done haccept
    -- what the stream still holds is cut off on both sides
    have hseen : r.data = reader.data ++ t₁ := by
      rw [← ht₁, ← List.append_assoc] at hdata
      exact List.append_cancel_right hdata
    have hall : r.data ++ t₂ = r.data.take n ++ request.body ++ reader'.data := by
      rw [← ht₂, ← List.append_assoc, ← List.append_assoc] at hbytes
      exact List.append_cancel_right hbytes
    refine ⟨t₁ ++ t₂, r.data.take n, r.data, raw, ?_, ?_, List.take_prefix n _, ?_, ?_, hheaders, ?_,
      hmax⟩
    · rw [← ht₁, ← ht₂, List.append_assoc]
    · rw [← hall, hseen, List.append_assoc]
    · rw [hseen, ← List.append_assoc]
      exact List.prefix_append _ _
    · rw [hparse, List.length_take, Nat.min_eq_left hn]
    · rw [hlength, hheaders]
  · intro r n raw p₁ hhead hn hmethod hmax hshort
    obtain ⟨-, hdata⟩ := readHead_exec hhead
    rw [parseRequestWith, parseLoopWith_eq_bind, Program.exec_bind_done hhead]
    exact acceptRequest_short hn hmethod hmax (hdata ▸ hshort)

end Rko
