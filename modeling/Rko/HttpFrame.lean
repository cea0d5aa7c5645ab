import Rko.HttpStream

namespace Rko

open CallProgram IncrementalParser Peer

/-- The message whose head is the first `n` bytes of `b`, and what follows it. -/
def frameBody (config : ServerConfig) (n : Nat) (raw : RawRequest) (b : Bytes) :
    Except HttpError (Request × Bytes) :=
  match Method.parse (raw.method.getD []) with
  | none => .error .badRequest
  | some method =>
    if config.maxBodySize < raw.headers.contentLength.getD 0 then .error .payloadTooLarge
    else if b.length < n + raw.headers.contentLength.getD 0 then .error .connectionClosed
    else .ok (⟨method, raw.path.getD (ascii "/"), Version.fromHttparse (raw.version.getD 1),
      raw.headers, (b.drop n).take (raw.headers.contentLength.getD 0)⟩,
      b.drop (n + raw.headers.contentLength.getD 0))

/-- The first message of a byte string, for a reader whose capacity is the header limit: it depends
on the bytes only, not on how they arrive. -/
def frame (httparse : Httparse) (config : ServerConfig) (capacity : Nat) (b : Bytes) :
    Except HttpError (Request × Bytes) :=
  match httparse.parse (b.take capacity) with
  | .invalid => .error .badRequest
  | .needMore => .error (if capacity ≤ b.length then .headerTooLarge else .connectionClosed)
  | .complete n raw => frameBody config n raw b

/-- A run of `parse_request` ends as `frame` says, and leaves the bytes behind the message for the
next one: in the stream, or in the buffer if the whole input had room there. -/
inductive Agrees (capacity total : Nat) (served : List Request) :
    Except HttpError (Request × Bytes) → Outcome HttpError (Request × BufReader) × Peer → Prop
  | failed {e : HttpError} {p' : Peer} (hserved : p'.served = served) :
    Agrees capacity total served (.error e) (.failed e, p')
  | done {request : Request} {r' : BufReader} {p' : Peer} (hcap : r'.capacity = capacity)
    (hserved : p'.served = served) (hroom : r'.data = [] ∨ total ≤ capacity + p'.rest.length) :
    Agrees capacity total served (.ok (request, r'.data ++ p'.rest)) (.done (request, r'), p')

theorem Agrees.of_error {capacity total : Nat} {served : List Request} {e : HttpError}
    {result : Outcome HttpError (Request × BufReader) × Peer}
    (h : Agrees capacity total served (.error e) result) :
    ∃ p', result = (.failed e, p') ∧ p'.served = served := by
  cases h with
  | failed hserved => exact ⟨_, rfl, hserved⟩

theorem Agrees.of_ok {capacity total : Nat} {served : List Request} {request : Request} {b : Bytes}
    {result : Outcome HttpError (Request × BufReader) × Peer}
    (h : Agrees capacity total served (.ok (request, b)) result) :
    ∃ r' p', result = (.done (request, r'), p') ∧ r'.data ++ p'.rest = b ∧
      r'.capacity = capacity ∧ p'.served = served ∧
      (r'.data = [] ∨ total ≤ capacity + p'.rest.length) := by
  cases h with
  | done hcap hserved hroom => exact ⟨_, _, rfl, rfl, hcap, hserved, hroom⟩

variable {handler : List Request → Request → Response} {p : Peer}

variable (handler p) in
theorem readBody_exec (r : BufReader) {contentLength maxBodySize : Nat}
    (hmax : contentLength ≤ maxBodySize) (hlen : contentLength ≤ (r.data ++ p.rest).length) :
    ∃ r' p', (readBody r contentLength maxBodySize).exec (reply handler) p =
        (.done ((r.data ++ p.rest).take contentLength, r'), p') ∧
      r'.data = r.data.drop contentLength ∧ r'.capacity = r.capacity ∧
      p'.rest = p.rest.drop (contentLength - r.data.length) ∧ p'.served = p.served := by
  rw [List.length_append] at hlen
  by_cases hzero : contentLength = 0
  · subst hzero
    exact ⟨r, p, by simp [readBody, Program.pure_eq], by simp, rfl, by simp, rfl⟩
  · have hfits : ¬ maxBodySize < contentLength := by omega
    have hremaining : contentLength - min r.data.length contentLength =
        contentLength - r.data.length := by omega
    obtain ⟨p', hrun, hrest, hserved⟩ := readRest_exec handler p
      (r.data.take (min r.data.length contentLength))
      (Nat.le_refl (contentLength - r.data.length)) (by omega)
    refine ⟨r.consume (min r.data.length contentLength) (Nat.min_le_left _ _), p', ?_, ?_, rfl, hrest,
      hserved⟩
    · simp only [readBody, if_neg hzero, if_neg hfits, Program.bind_eq, allocate_bind_exec,
        hremaining]
      rw [Program.exec_bind_done hrun, Program.pure_eq, Program.exec_done, List.take_append]
      simp [Nat.min_comm]
    · rw [BufReader.consume_data]
      rcases Nat.le_total r.data.length contentLength with hle | hle
      · rw [Nat.min_eq_left hle, List.drop_length, List.drop_eq_nil_of_le hle]
      · rw [Nat.min_eq_right hle]

variable (handler p) in
theorem readBody_exec_short (r : BufReader) {contentLength maxBodySize : Nat}
    (hmax : contentLength ≤ maxBodySize) (hlen : (r.data ++ p.rest).length < contentLength) :
    ∃ p', (readBody r contentLength maxBodySize).exec (reply handler) p =
      (.failed .connectionClosed, p') ∧ p'.served = p.served := by
  rw [List.length_append] at hlen
  have hzero : contentLength ≠ 0 := by omega
  have hfits : ¬ maxBodySize < contentLength := by omega
  have hbuf : min r.data.length contentLength = r.data.length := by omega
  obtain ⟨p', hrun, hserved⟩ := readRest_exec_short handler p r.data
    (Nat.le_refl (contentLength - r.data.length)) (by omega)
  refine ⟨p', ?_, hserved⟩
  simp only [readBody, if_neg hzero, if_neg hfits, Program.bind_eq, allocate_bind_exec, hbuf,
    List.take_length]
  exact Program.exec_bind_failed hrun _

theorem acceptRequest_exec {config : ServerConfig} {r r' : BufReader} {n : Nat} {raw : RawRequest}
    {request : Request} {b b' : Bytes} {p' : Peer} (hn : n ≤ r.data.length)
    (hframe : frameBody config n raw b = .ok (request, b'))
    (hread : (readBody (r.consume n hn) (raw.headers.contentLength.getD 0)
      config.maxBodySize).exec (reply handler) p = (.done (request.body, r'), p')) :
    (acceptRequest config r n raw).exec (reply handler) p = (.done (request, r'), p') := by
  have hheaders : (Headers.insertAll [] raw.headers).exec (reply handler) p =
      (.done raw.headers, p) := Headers.insertAll_exec [] raw.headers
  cases hmethod : Method.parse (raw.method.getD []) with
  | none =>
    rw [frameBody, hmethod] at hframe
    cases hframe
  | some method =>
    rw [frameBody, hmethod] at hframe
    rw [acceptRequest, hmethod]
    simp only at hframe ⊢
    split at hframe
    · cases hframe
    next hfits =>
      split at hframe
      · cases hframe
      · simp only [Program.bind_eq, allocate_bind_exec, Program.exec_bind_done hheaders,
          dif_pos hn, if_neg hfits]
        rw [Program.exec_bind_done hread]
        cases hframe
        rfl

variable (handler) in
theorem acceptRequest_agrees (config : ServerConfig) {r : BufReader} {n : Nat} (raw : RawRequest)
    (hn : n ≤ r.data.length) :
    Agrees r.capacity (r.data ++ p.rest).length p.served (frameBody config n raw (r.data ++ p.rest))
      ((acceptRequest config r n raw).exec (reply handler) p) := by
  unfold acceptRequest frameBody
  cases hmethod : Method.parse (raw.method.getD []) with
  | none => exact .failed rfl
  | some method =>
    have hheaders : (Headers.insertAll [] raw.headers).exec (reply handler) p =
        (.done raw.headers, p) := Headers.insertAll_exec [] raw.headers
    simp only [Program.bind_eq, allocate_bind_exec, Program.exec_bind_done hheaders, dif_pos hn]
    have hdrop : (r.consume n hn).data ++ p.rest = (r.data ++ p.rest).drop n := by
      rw [BufReader.consume_data, List.drop_append_of_le_length hn]
    have hlen := congrArg List.length hdrop
    rw [List.length_drop] at hlen
    have htotal : n ≤ (r.data ++ p.rest).length := by
      rw [List.length_append]
      omega
    split
    · exact .failed rfl
    next hfits =>
      have hmax : raw.headers.contentLength.getD 0 ≤ config.maxBodySize := by omega
      split
      next hshort =>
        obtain ⟨p', hrun, hserved⟩ :=
          readBody_exec_short handler p (r.consume n hn) hmax (by omega)
        rw [Program.exec_bind_failed hrun]
        exact .failed hserved
      next hlong =>
        obtain ⟨r', p', hrun, hdata, hcap, hrest, hserved⟩ :=
          readBody_exec handler p (r.consume n hn) hmax (by omega)
        rw [Program.exec_bind_done hrun, Program.pure_eq, Program.exec_done, hdrop]
        have hnext : (r.data ++ p.rest).drop (n + raw.headers.contentLength.getD 0) =
            r'.data ++ p'.rest := by
          rw [← List.drop_drop, ← hdrop, List.drop_append, hdata, hrest]
        rw [hnext]
        refine .done hcap hserved ?_
        -- bytes are left in the buffer only when the body needed none from the stream
        rcases eq_or_ne r'.data [] with hnil | hsome
        · exact Or.inl hnil
        · have hbuf : raw.headers.contentLength.getD 0 ≤ (r.consume n hn).data.length := by
            by_contra hgt
            exact hsome (by rw [hdata, List.drop_eq_nil_of_le (by omega)])
          rw [Nat.sub_eq_zero_of_le hbuf, List.drop_zero] at hrest
          have hcapacity := r.length_data_le
          rw [List.length_append, hrest]
          omega

section Loop

variable {ρ γ : Type} {parser : IncrementalParser UInt8 ρ} {maxHeaderSize fuel : Nat}
  {accept : BufReader → Nat → ρ → HttpProgram γ} {r r' : BufReader}

theorem parseLoop_exec_full (hfull : r.capacity ≤ r.data.length) :
    (parseLoop parser maxHeaderSize accept (fuel + 1) r).exec (reply handler) p =
      (.failed .connectionClosed, p) := by
  simp only [parseLoop_succ, Program.bind_eq]
  rw [Program.exec_bind_done (BufReader.fill_exec_full hfull)]
  rfl

theorem parseLoop_exec_closed (hroom : r.data.length < r.capacity) (hrest : p.rest = []) :
    (parseLoop parser maxHeaderSize accept (fuel + 1) r).exec (reply handler) p =
      (.failed .connectionClosed, p.afterRead (r.capacity - r.data.length)) := by
  simp only [parseLoop_succ, Program.bind_eq]
  rw [Program.exec_bind_done (BufReader.fill_exec_closed hroom hrest)]
  rfl

theorem parseLoop_exec_read (hroom : r.data.length < r.capacity) (hrest : p.rest ≠ [])
    (hr' : r.filled (p.rest.take (p.amount (r.capacity - r.data.length))) = r') :
    (parseLoop parser maxHeaderSize accept (fuel + 1) r).exec (reply handler) p =
      (onVerdict maxHeaderSize r'.data.length (accept r')
        (parseLoop parser maxHeaderSize accept fuel r') (parser.parse r'.data)).exec
          (reply handler) (p.afterRead (r.capacity - r.data.length)) := by
  simp only [parseLoop_succ, Program.bind_eq]
  rw [Program.exec_bind_done (BufReader.fill_exec_ok hroom hrest), hr']

variable (handler parser maxHeaderSize fuel accept) in
/-- Such a round moves bytes from the stream to the buffer, and nothing else. -/
theorem parseLoop_exec_round (hroom : r.data.length < r.capacity) (hrest : p.rest ≠ []) :
    ∃ r' p', (parseLoop parser maxHeaderSize accept (fuel + 1) r).exec (reply handler) p =
        (onVerdict maxHeaderSize r'.data.length (accept r')
          (parseLoop parser maxHeaderSize accept fuel r') (parser.parse r'.data)).exec
            (reply handler) p' ∧
      r'.data ++ p'.rest = r.data ++ p.rest ∧ r.data.length < r'.data.length ∧
      r'.capacity = r.capacity ∧ p'.served = p.served := by
  have hdata := BufReader.filled_data
    ((List.length_take_le _ p.rest).trans (p.amount_le (r.capacity - r.data.length)))
  refine ⟨_, _, parseLoop_exec_read hroom hrest rfl, ?_, ?_, r.filled_capacity _, rfl⟩
  · rw [hdata, List.append_assoc, afterRead, List.take_append_drop]
  · have hpos := p.amount_pos (by omega : 0 < r.capacity - r.data.length)
    have hlen : 0 < p.rest.length := List.length_pos_iff.mpr hrest
    rw [hdata, List.length_append, List.length_take]
    omega

theorem take_data_of_unread {b : Bytes} (hunread : r.data ++ p.rest = b) :
    (b.take r.capacity).take r.data.length = r.data := by
  rw [List.take_take, Nat.min_eq_left r.length_data_le, ← hunread, List.take_left']
  rfl

/-- Whatever the reads return, a complete head is found as soon as it is in the buffer. -/
theorem parseLoop_exec_complete {n : Nat} {raw : ρ} (hcap : r.capacity ≤ maxHeaderSize)
    (hroom : r.data.length < r.capacity) (hrest : p.rest ≠ [])
    (hfuel : r.capacity ≤ r.data.length + fuel)
    (hparse : parser.parse ((r.data ++ p.rest).take r.capacity) = .complete n raw) :
    ∃ r' p', (parseLoop parser maxHeaderSize accept fuel r).exec (reply handler) p =
        (accept r' n raw).exec (reply handler) p' ∧ n ≤ r'.data.length ∧
      r'.data ++ p'.rest = r.data ++ p.rest ∧ r'.capacity = r.capacity ∧ p'.served = p.served := by
  induction fuel generalizing r p with
  | zero => omega
  | succ fuel ih =>
    obtain ⟨r', p', hrun, hunread, hgrow, hcap', hserved⟩ :=
      parseLoop_exec_round handler parser maxHeaderSize fuel accept hroom hrest
    rw [← hunread, ← hcap'] at hparse
    have hverdict := parser.parse_take_of_complete hparse r'.data.length
    rw [take_data_of_unread rfl] at hverdict
    rw [hrun, hverdict]
    by_cases hn : n ≤ r'.data.length
    · rw [if_pos hn]
      exact ⟨r', p', rfl, hn, hunread, hcap', hserved⟩
    · have hle := parser.complete_le hparse
      rw [List.length_take, List.length_append] at hle
      have hmore : ¬ maxHeaderSize ≤ r'.data.length := by omega
      have hrest' : p'.rest ≠ [] := List.ne_nil_of_length_pos (by omega)
      obtain ⟨r'', p'', hrun', hn', hunread', hcap'', hserved'⟩ :=
        ih (by omega) (by omega) hrest' (by omega) hparse
      refine ⟨r'', p'', ?_, hn', hunread'.trans hunread, hcap''.trans hcap',
        hserved'.trans hserved⟩
      rw [if_neg hn, onVerdict, if_neg hmore, hrun']

/-- Bytes no message can start with are refused, at the latest when the buffer is full or the
stream at its end. -/
theorem parseLoop_exec_invalid (hcap : r.capacity ≤ maxHeaderSize)
    (hroom : r.data.length < r.capacity) (hrest : p.rest ≠ [])
    (hfuel : r.capacity ≤ r.data.length + fuel)
    (hparse : parser.parse ((r.data ++ p.rest).take r.capacity) = .invalid) :
    ∃ p', (parseLoop parser maxHeaderSize accept fuel r).exec (reply handler) p =
      (.failed .badRequest, p') ∧ p'.served = p.served := by
  induction fuel generalizing r p with
  | zero => omega
  | succ fuel ih =>
    obtain ⟨r', p', hrun, hunread, hgrow, hcap', hserved⟩ :=
      parseLoop_exec_round handler parser maxHeaderSize fuel accept hroom hrest
    rw [← hunread, ← hcap'] at hparse
    have hcut : ((r'.data ++ p'.rest).take r'.capacity).take r'.data.length = r'.data :=
      take_data_of_unread rfl
    rw [hrun]
    cases hverdict : parser.parse r'.data with
    | invalid => exact ⟨p', rfl, hserved⟩
    | complete n raw =>
      rw [← hcut] at hverdict
      have hcomplete := parser.parse_complete_of_take hverdict
      simp [hparse] at hcomplete
    | needMore =>
      have hlt : r'.data.length < r'.capacity := by
        by_contra hge
        rw [← hcut, List.take_of_length_le] at hverdict
        · simp [hparse] at hverdict
        · rw [List.length_take]
          omega
      have hrest' : p'.rest ≠ [] := by
        intro hnil
        rw [hnil, List.append_nil, List.take_of_length_le r'.length_data_le] at hparse
        simp [hparse] at hverdict
      have hmore : ¬ maxHeaderSize ≤ r'.data.length := by omega
      obtain ⟨p'', hrun', hserved'⟩ := ih (by omega) hlt hrest' (by omega) hparse
      exact ⟨p'', by rw [onVerdict, if_neg hmore, hrun'], hserved'.trans hserved⟩

theorem parseLoop_exec_needMore (hcap : r.capacity = maxHeaderSize)
    (hroom : r.data.length < r.capacity) (hrest : p.rest ≠ [])
    (hfuel : r.capacity < r.data.length + fuel)
    (hparse : parser.parse ((r.data ++ p.rest).take r.capacity) = .needMore) :
    ∃ p', (parseLoop parser maxHeaderSize accept fuel r).exec (reply handler) p =
        (.failed (if r.capacity ≤ (r.data ++ p.rest).length then .headerTooLarge
          else .connectionClosed), p') ∧ p'.served = p.served := by
  induction fuel generalizing r p with
  | zero => omega
  | succ fuel ih =>
    obtain ⟨r', p', hrun, hunread, hgrow, hcap', hserved⟩ :=
      parseLoop_exec_round handler parser maxHeaderSize fuel accept hroom hrest
    rw [← hunread, ← hcap'] at hparse ⊢
    have hverdict := parser.parse_take_of_needMore hparse r'.data.length
    rw [take_data_of_unread rfl] at hverdict
    have hle := r'.length_data_le
    rw [hrun, hverdict, onVerdict, List.length_append]
    by_cases hfull : maxHeaderSize ≤ r'.data.length
    · rw [if_pos hfull, if_pos (by omega)]
      exact ⟨p', rfl, hserved⟩
    · rw [if_neg hfull]
      by_cases hnil : p'.rest = []
      · obtain ⟨fuel, rfl⟩ : ∃ k, fuel = k + 1 := ⟨fuel - 1, by omega⟩
        rw [parseLoop_exec_closed (by omega) hnil, hnil, List.length_nil, if_neg (by omega)]
        exact ⟨_, rfl, hserved⟩
      · obtain ⟨p'', hrun', hserved'⟩ := ih (hcap'.trans hcap) (by omega) hnil (by omega) hparse
        rw [List.length_append] at hrun'
        exact ⟨p'', hrun', hserved'.trans hserved⟩

/-- A loop that comes to its end found a complete head, whatever its limits. -/
theorem parseLoop_exec_done {c : γ} {q : Peer}
    (h : (parseLoop parser maxHeaderSize accept fuel r).exec (reply handler) p = (.done c, q)) :
    p.rest ≠ [] ∧ r.data.length < r.capacity ∧
    ∃ r' p' n raw, (accept r' n raw).exec (reply handler) p' = (.done c, q) ∧
      parser.parse r'.data = .complete n raw ∧ r'.data ++ p'.rest = r.data ++ p.rest ∧
      r'.capacity = r.capacity ∧ p'.served = p.served := by
  induction fuel generalizing r p with
  | zero => cases h
  | succ fuel ih =>
    rcases Nat.lt_or_ge r.data.length r.capacity with hroom | hfull
    · rcases eq_or_ne p.rest [] with hnil | hrest
      · rw [parseLoop_exec_closed hroom hnil] at h
        cases h
      · obtain ⟨r', p', hrun, hunread, hgrow, hcap', hserved⟩ :=
          parseLoop_exec_round handler parser maxHeaderSize fuel accept hroom hrest
        rw [hrun] at h
        refine ⟨hrest, hroom, ?_⟩
        cases hverdict : parser.parse r'.data with
        | invalid =>
          rw [hverdict] at h
          cases h
        | complete n raw =>
          rw [hverdict] at h
          exact ⟨r', p', n, raw, h, hverdict, hunread, hcap', hserved⟩
        | needMore =>
          rw [hverdict, onVerdict] at h
          split at h
          · cases h
          · obtain ⟨-, -, r'', p'', n, raw, hend, hparse, hunread', hcap'', hserved'⟩ := ih h
            exact ⟨r'', p'', n, raw, hend, hparse, hunread'.trans hunread, hcap''.trans hcap',
              hserved'.trans hserved⟩
    · rw [parseLoop_exec_full hfull] at h
      cases h

end Loop

variable (handler) in
/-- When the first read completes the head, the request is decided on right then. -/
theorem parseRequest_exec_first {httparse : Httparse} (config : ServerConfig) {r : BufReader}
    {n : Nat} {raw : RawRequest} {bytes : Bytes} (hroom : r.data.length < r.capacity)
    (hrest : p.rest ≠ [])
    (hbytes : p.rest.take (p.amount (r.capacity - r.data.length)) = bytes)
    (hparse : httparse.parse (r.data ++ bytes) = .complete n raw) :
    (parseRequest httparse config r).exec (reply handler) p =
      (acceptRequest config (r.filled bytes) n raw).exec (reply handler)
        (p.afterRead (r.capacity - r.data.length)) := by
  have hlen : bytes.length ≤ r.capacity - r.data.length := by
    rw [← hbytes]
    exact (List.length_take_le _ _).trans (p.amount_le _)
  rw [parseRequest, parseLoop_exec_read hroom hrest (by rw [hbytes]), BufReader.filled_data hlen,
    hparse]
  rfl

variable (handler) in
/-- On a reader with the server's capacity, `parse_request` computes `frame`. -/
theorem parseRequest_agrees (httparse : Httparse) {config : ServerConfig} {r : BufReader}
    (hcap : r.capacity = config.maxHeaderSize) (hroom : r.data.length < r.capacity)
    (hrest : p.rest ≠ []) :
    Agrees r.capacity (r.data ++ p.rest).length p.served
      (frame httparse config r.capacity (r.data ++ p.rest))
      ((parseRequest httparse config r).exec (reply handler) p) := by
  have hfuel : r.capacity < r.data.length + (r.capacity + 1) := by omega
  unfold frame parseRequest
  cases hparse : httparse.parse ((r.data ++ p.rest).take r.capacity) with
  | invalid =>
    obtain ⟨p', hrun, hserved⟩ :=
      parseLoop_exec_invalid hcap.le hroom hrest hfuel.le hparse
    rw [hrun]
    exact .failed hserved
  | needMore =>
    obtain ⟨p', hrun, hserved⟩ := parseLoop_exec_needMore hcap hroom hrest hfuel hparse
    rw [hrun]
    exact .failed hserved
  | complete n raw =>
    obtain ⟨r', p', hrun, hn, hunread, hcap', hserved⟩ :=
      parseLoop_exec_complete hcap.le hroom hrest hfuel.le hparse
    rw [hrun, ← hunread, ← hcap', ← hserved]
    exact acceptRequest_agrees handler config raw hn

/-- A fresh reader gives what `frame` says of the whole stream. -/
theorem parseRequest_of_frame {httparse : Httparse} {config : ServerConfig}
    (handler : List Request → Request → Response) (sizes : List Nat) (served : List Request)
    {b : Bytes} (hb : b ≠ []) (hpos : 0 < config.maxHeaderSize)
    {result : Except HttpError (Request × Bytes)}
    (hframe : frame httparse config config.maxHeaderSize b = result) :
    Agrees config.maxHeaderSize b.length served result
      ((parseRequest httparse config (BufReader.empty config.maxHeaderSize)).exec (reply handler)
        ⟨b, sizes, served⟩) := by
  have hcap := BufReader.empty_capacity config.maxHeaderSize
  have hroom : (BufReader.empty config.maxHeaderSize).data.length <
      (BufReader.empty config.maxHeaderSize).capacity := by
    rw [BufReader.empty_data, hcap]
    exact hpos
  have hagrees := parseRequest_agrees (p := ⟨b, sizes, served⟩) handler httparse hcap hroom hb
  rw [hcap, BufReader.empty_data, List.nil_append, hframe] at hagrees
  exact hagrees

/-- Whatever the limits of the reader, `parse_request` accepts only what `frame` accepts. -/
theorem parseRequest_sound {httparse : Httparse} {config : ServerConfig} {r r' : BufReader}
    {request : Request} {p' : Peer}
    (h : (parseRequest httparse config r).exec (reply handler) p = (.done (request, r'), p')) :
    p.rest ≠ [] ∧ r.data.length < r.capacity ∧
      frame httparse config r.capacity (r.data ++ p.rest) = .ok (request, r'.data ++ p'.rest) := by
  obtain ⟨hrest, hroom, r₁, p₁, n, raw, hend, hparse, hunread, hcap, -⟩ := parseLoop_exec_done h
  refine ⟨hrest, hroom, ?_⟩
  have hagrees := acceptRequest_agrees (p := p₁) handler config raw (httparse.complete_le hparse)
  have hwhole : httparse.parse ((r.data ++ p.rest).take r.capacity) = .complete n raw := by
    rw [← take_data_of_unread hunread, hcap] at hparse
    exact httparse.parse_complete_of_take hparse
  rw [hend] at hagrees
  unfold frame
  rw [hwhole]
  simp only
  rw [← hunread]
  generalize frameBody config n raw (r₁.data ++ p₁.rest) = spec at hagrees ⊢
  cases hagrees
  rfl

end Rko
