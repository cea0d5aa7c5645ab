import Rko.HttpServing

namespace Rko

open CallProgram IncrementalParser Peer

variable {httparse : Httparse} {config : ServerConfig}
  {handler : List Request → Request → Response} {r : BufReader}

def bodySizes (contentLength : Nat) : List Nat := if contentLength = 0 then [] else [contentLength]

variable (handler) in
theorem readBody_exec_piece (rest : Bytes) {contentLength maxBodySize : Nat} (hdata : r.data = [])
    (hmax : contentLength ≤ maxBodySize) (hlen : contentLength ≤ rest.length) :
    ∃ r', r'.data = [] ∧ r'.capacity = r.capacity ∧ ∀ sizes served,
      (readBody r contentLength maxBodySize).exec (reply handler)
        ⟨rest, bodySizes contentLength ++ sizes, served⟩ =
          (.done (rest.take contentLength, r'), ⟨rest.drop contentLength, sizes, served⟩) := by
  by_cases hzero : contentLength = 0
  · subst hzero
    exact ⟨r, hdata, rfl, fun sizes served => by simp [readBody, bodySizes, Program.pure_eq]⟩
  · have hfits : ¬ maxBodySize < contentLength := by omega
    have hrest : rest ≠ [] := List.ne_nil_of_length_pos (by omega)
    obtain ⟨m, rfl⟩ : ∃ m, contentLength = m + 1 := ⟨contentLength - 1, by omega⟩
    refine ⟨r.consume 0 (Nat.zero_le _), by simp [hdata], rfl, fun sizes served => ?_⟩
    have hamount : (⟨rest, (m + 1) :: sizes, served⟩ : Peer).amount (m + 1) = m + 1 := by
      simp [amount]
    have hpiece : (readRest (m + 1) (m + 1) []).exec (reply handler)
        ⟨rest, (m + 1) :: sizes, served⟩ =
          (.done (rest.take (m + 1)), ⟨rest.drop (m + 1), sizes, served⟩) := by
      rw [readRest_exec_succ _ _ _ hrest, hamount, List.length_take, Nat.min_eq_left hlen,
        Nat.sub_self, afterRead, hamount]
      simp [readRest, Program.pure_eq]
    simp only [readBody, bodySizes, if_neg hzero, if_neg hfits, Program.bind_eq,
      allocate_bind_exec, hdata, List.length_nil, Nat.zero_min, Nat.sub_zero, List.take_nil,
      List.singleton_append]
    rw [Program.exec_bind_done hpiece]
    rfl

variable (config handler) in
theorem parseRequest_exec_head {b : Bytes} {n : Nat} {raw : RawRequest} (hdata : r.data = [])
    (hparse : httparse.parse (b.take r.capacity) = .complete n raw) (sizes : List Nat)
    (served : List Request) :
    (parseRequest httparse config r).exec (reply handler) ⟨b, n :: sizes, served⟩ =
      (acceptRequest config (r.filled (b.take n)) n raw).exec (reply handler)
        ⟨b.drop n, sizes, served⟩ := by
  have hpos := httparse.complete_pos hparse
  have hle := httparse.complete_le hparse
  rw [List.length_take] at hle
  have hhead := httparse.complete_head hparse
  rw [List.take_take, Nat.min_eq_left (by omega)] at hhead
  have hroom : r.capacity - r.data.length = r.capacity := by
    rw [hdata, List.length_nil, Nat.sub_zero]
  have hamount : (⟨b, n :: sizes, served⟩ : Peer).amount r.capacity = n := by
    simp only [amount, List.headD_cons]
    omega
  have hfirst := parseRequest_exec_first (r := r) (p := ⟨b, n :: sizes, served⟩) handler config
    (by omega) (List.ne_nil_of_length_pos (by simp only; omega)) (by rw [hroom, hamount])
    (by rw [hdata, List.nil_append, hhead])
  rwa [hroom, afterRead, hamount] at hfirst

variable (handler) in
/-- Head and body of a message can arrive in a read each, so that nothing is left in the buffer. -/
theorem parseRequest_exec_piece {b b' : Bytes} {request : Request} (hdata : r.data = [])
    (hframe : frame httparse config r.capacity b = .ok (request, b')) :
    ∃ front r', r'.data = [] ∧ r'.capacity = r.capacity ∧ ∀ sizes served,
      (parseRequest httparse config r).exec (reply handler) ⟨b, front ++ sizes, served⟩ =
        (.done (request, r'), ⟨b', sizes, served⟩) := by
  obtain ⟨n, raw, hparse, hbody⟩ := frame_ok hframe
  obtain ⟨-, hmax, hlen, hbytes, hrest⟩ := frameBody_ok hbody
  have hle := httparse.complete_le hparse
  rw [List.length_take] at hle
  have hfilled : (r.filled (b.take n)).data = b.take n := by
    rw [BufReader.filled_data, hdata, List.nil_append]
    rw [hdata, List.length_take, List.length_nil]
    omega
  have hn : n ≤ (r.filled (b.take n)).data.length := by
    rw [hfilled, List.length_take]
    omega
  have hempty : ((r.filled (b.take n)).consume n hn).data = [] := by
    rw [BufReader.consume_data, hfilled, List.drop_take, Nat.sub_self, List.take_zero]
  obtain ⟨r', hdata', hcap', hread⟩ := readBody_exec_piece handler (b.drop n) hempty hmax
    (by rw [List.length_drop]; omega)
  refine ⟨n :: bodySizes (raw.headers.contentLength.getD 0), r', hdata',
    hcap'.trans (r.filled_capacity _), fun sizes served => ?_⟩
  rw [List.cons_append, parseRequest_exec_head config handler hdata hparse]
  refine acceptRequest_exec hn hbody ?_
  rw [hread, ← hbytes, List.drop_drop, ← hrest]

variable (handler) in
/-- A request served from such pieces leaves the loop with an empty buffer. -/
theorem serveLoop_exec_piece {b b' : Bytes} {request : Request} (hdata : r.data = [])
    (hcap : r.capacity = config.maxHeaderSize)
    (hframe : frame httparse config config.maxHeaderSize b = .ok (request, b'))
    (hkeep : request.keepalive = true) (fuel : Nat) :
    ∃ front r', r'.data = [] ∧ r'.capacity = config.maxHeaderSize ∧ ∀ sizes served,
      (serveLoop httparse config (fuel + 1) r).exec (reply handler) ⟨b, front ++ sizes, served⟩ =
        (serveLoop httparse config fuel r').exec (reply handler)
          ⟨b', sizes, served ++ [request]⟩ := by
  rw [← hcap] at hframe
  obtain ⟨front, r', hdata', hcap', hrun⟩ := parseRequest_exec_piece handler hdata hframe
  refine ⟨front, r'.reset, by simp [hdata'], by simp [hcap', hcap], fun sizes served => ?_⟩
  rw [serveLoop_exec_done (hrun sizes served), if_pos hkeep]

variable (handler) in
theorem serveLoop_reaches {s b : Bytes}
    (hreach : Relation.ReflTransGen (Follows httparse config) s b) {fuel : Nat}
    (hfuel : s.length < fuel) (hdata : r.data = []) (hcap : r.capacity = config.maxHeaderSize) :
    ∃ fuel' front earlier r', b.length < fuel' ∧ r'.data = [] ∧
      r'.capacity = config.maxHeaderSize ∧ ∀ sizes served,
      (serveLoop httparse config fuel r).exec (reply handler) ⟨s, front ++ sizes, served⟩ =
        (serveLoop httparse config fuel' r').exec (reply handler)
          ⟨b, sizes, served ++ earlier⟩ := by
  induction hreach using Relation.ReflTransGen.head_induction_on generalizing fuel r with
  | refl => exact ⟨fuel, [], [], r, hfuel, hdata, hcap, by simp⟩
  | @head a c hstep _ ih =>
    obtain ⟨request, hframe, hkeep⟩ := hstep
    have hshort := frame_shorter hframe
    obtain ⟨k, rfl⟩ : ∃ k, fuel = k + 1 := ⟨fuel - 1, by omega⟩
    obtain ⟨front, r₁, hdata₁, hcap₁, hrun⟩ :=
      serveLoop_exec_piece handler hdata hcap hframe hkeep k
    have hfuel₁ : c.length < k := by omega
    obtain ⟨fuel', front', earlier, r', hfuel', hdata', hcap', hrun'⟩ := ih hfuel₁ hdata₁ hcap₁
    refine ⟨fuel', front ++ front', request :: earlier, r', hfuel', hdata', hcap',
      fun sizes served => ?_⟩
    rw [List.append_assoc, hrun, hrun', List.append_assoc, List.singleton_append]

variable (handler) in
/-- A request that comes with all the rest of the stream is the last one served. -/
theorem serveLoop_exec_whole {b b' : Bytes} {request : Request} (hdata : r.data = [])
    (hcap : r.capacity = config.maxHeaderSize) (hfits : b.length ≤ config.maxHeaderSize)
    (hframe : frame httparse config config.maxHeaderSize b = .ok (request, b'))
    (hkeep : request.keepalive = true) (fuel : Nat) (served : List Request) :
    ∃ p', (serveLoop httparse config (fuel + 2) r).exec (reply handler)
        ⟨b, [r.capacity], served⟩ = (.done (), p') ∧ p'.served = served ++ [request] := by
  have hshort := frame_shorter hframe
  have hrest : b ≠ [] := List.ne_nil_of_length_pos (by omega)
  have hroom : r.data.length < r.capacity := by
    rw [hdata, List.length_nil]
    omega
  rw [← hcap, ← List.nil_append b, ← hdata] at hframe
  obtain ⟨r', p', hrun, hunread, hcap', hserved, hsuffix⟩ :=
    parseRequest_accepts (p := ⟨b, [r.capacity], served⟩) handler (Nat.le_refl _) hrest hroom hframe
  have hnil : p'.rest = [] := by
    have hall : b.drop (r.capacity - r.data.length) = [] := by
      rw [hdata, List.length_nil, List.drop_eq_nil_of_le (by omega)]
    rwa [hall, List.suffix_nil] at hsuffix
  have hroom' : r'.reset.data.length < r'.reset.capacity := by
    rw [hnil, List.append_nil] at hunread
    rw [BufReader.reset_data, BufReader.reset_capacity, hunread]
    omega
  rw [serveLoop_exec_done hrun, if_pos hkeep]
  exact ⟨_, serveLoop_exec_failed (parseLoop_exec_closed hroom' hnil), by simp [afterRead, hserved]⟩

variable (handler) in
theorem serveLoop_serves_piece {b b' : Bytes} {request : Request} (hdata : r.data = [])
    (hcap : r.capacity = config.maxHeaderSize)
    (hframe : frame httparse config config.maxHeaderSize b = .ok (request, b')) (fuel : Nat)
    (served : List Request) :
    ∃ sizes, served ++ [request] <+: ((serveLoop httparse config (fuel + 1) r).exec (reply handler)
      ⟨b, sizes, served⟩).2.served := by
  rw [← hcap] at hframe
  obtain ⟨front, r', -, -, hrun⟩ := parseRequest_exec_piece handler hdata hframe
  refine ⟨front ++ [], ?_⟩
  rw [serveLoop_exec_done (hrun [] served)]
  exact Program.exec_invariant (I := fun q => served ++ [request] <+: q.served)
    (fun q op hq => hq.trans (reply_served handler q op)) _
    (s := ⟨b', [], served ++ [request]⟩) (List.prefix_refl _)

/-- Two requests that reach the buffer together at the end of the stream are told apart by the
reads: in one piece the second is never looked at, in two it is served. -/
theorem serveLoop_split {s : Bytes} (hsplit : ¬ EndsAlone httparse config s) {fuel : Nat}
    (hfuel : s.length < fuel) (hdata : r.data = []) (hcap : r.capacity = config.maxHeaderSize)
    (served : List Request) :
    ∃ sizes sizes',
      ((serveLoop httparse config fuel r).exec (reply handler) ⟨s, sizes, served⟩).2.served ≠
        ((serveLoop httparse config fuel r).exec (reply handler) ⟨s, sizes', served⟩).2.served := by
  simp only [EndsAlone, not_forall, not_not] at hsplit
  obtain ⟨b, b', hreach, ⟨request, hframe, hkeep⟩, hfits, request', b'', hnext⟩ := hsplit
  obtain ⟨fuel', front, earlier, r₀, hfuel', hdata₀, hcap₀, hrun⟩ :=
    serveLoop_reaches handler hreach hfuel hdata hcap
  have hshort := frame_shorter hframe
  have hshort' := frame_shorter hnext
  obtain ⟨k, rfl⟩ : ∃ k, fuel' = k + 2 := ⟨fuel' - 2, by omega⟩
  obtain ⟨p', hwhole, hserved⟩ :=
    serveLoop_exec_whole handler hdata₀ hcap₀ hfits hframe hkeep k (served ++ earlier)
  obtain ⟨front', r₁, hdata₁, hcap₁, hpiece⟩ :=
    serveLoop_exec_piece handler hdata₀ hcap₀ hframe hkeep (k + 1)
  obtain ⟨sizes, hboth⟩ :=
    serveLoop_serves_piece handler hdata₁ hcap₁ hnext k (served ++ earlier ++ [request])
  refine ⟨front ++ [r₀.capacity], front ++ (front' ++ sizes), fun heq => ?_⟩
  rw [hrun, hrun, hwhole, hserved, hpiece] at heq
  rw [← heq] at hboth
  have hlen := hboth.length_le
  simp at hlen

theorem handleConnection_exec (fuel : Nat) (p : Peer) :
    (handleConnection httparse config fuel).exec (reply handler) p =
      (serveLoop httparse config fuel (BufReader.empty config.maxHeaderSize)).exec
        (reply handler) p := rfl

/-- The requests `handle_connection` calls the handler on when the peer sends `s` and closes, and
the reads return `sizes` bytes. -/
def servedBy (httparse : Httparse) (config : ServerConfig)
    (handler : List Request → Request → Response) (fuel : Nat) (s : Bytes) (sizes : List Nat) :
    List Request :=
  ((handleConnection httparse config fuel).exec (reply handler) ⟨s, sizes, []⟩).2.served

theorem handleConnection_ends {s : Bytes} {fuel : Nat} (hfuel : s.length < fuel)
    (sizes : List Nat) (served : List Request) :
    ∃ p', (handleConnection httparse config fuel).exec (reply handler) ⟨s, sizes, served⟩ =
      (.done (), p') :=
  serveLoop_ends (BufReader.empty_capacity _) hfuel

theorem servedBy_of_endsAlone {s : Bytes} {fuel : Nat} (hfuel : s.length < fuel)
    (halone : EndsAlone httparse config s) (sizes : List Nat) :
    servedBy httparse config handler fuel s sizes = messages httparse config fuel s := by
  rw [servedBy, handleConnection_exec]
  rcases Nat.eq_zero_or_pos config.maxHeaderSize with hzero | hpos
  · obtain ⟨k, rfl⟩ : ∃ k, fuel = k + 1 := ⟨fuel - 1, by omega⟩
    have hfull : (BufReader.empty config.maxHeaderSize).capacity ≤
        (BufReader.empty config.maxHeaderSize).data.length := by
      rw [BufReader.empty_capacity, hzero]
      exact Nat.zero_le _
    rw [serveLoop_exec_failed (parseLoop_exec_full hfull), messages_of_refused]
    rw [hzero]
    exact frame_zero_ne_ok s
  · have hawaiting : Awaiting httparse config (BufReader.empty config.maxHeaderSize)
        ⟨s, sizes, []⟩ :=
      ⟨BufReader.empty_capacity _, by simpa using hpos, halone,
        fun hnil result => by rw [hnil]; exact frame_nil_ne_ok _ result⟩
    obtain ⟨p', hrun, hserved⟩ := serveLoop_served handler hawaiting hfuel
    rw [hrun, hserved]
    rfl

/-- The requests served do not depend on how the bytes arrive exactly when no two of them arrive in
the last bufferful of the stream. -/
theorem servedBy_split_independent_iff (httparse : Httparse) (config : ServerConfig)
    (handler : List Request → Request → Response) (s : Bytes) {fuel : Nat}
    (hfuel : s.length < fuel) :
    (∀ sizes sizes', servedBy httparse config handler fuel s sizes =
      servedBy httparse config handler fuel s sizes') ↔ EndsAlone httparse config s := by
  constructor
  · intro hsame
    by_contra hsplit
    obtain ⟨sizes, sizes', hne⟩ := serveLoop_split (r := BufReader.empty config.maxHeaderSize)
      hsplit hfuel (BufReader.empty_data _) (BufReader.empty_capacity _) []
    exact hne (hsame sizes sizes')
  · intro halone sizes sizes'
    rw [servedBy_of_endsAlone hfuel halone, servedBy_of_endsAlone hfuel halone]

def oneGet : Bytes := ascii "GET /a HTTP/1.1\r\n\r\n"

theorem servedBy_oneGet_split_independent : oneGet.length < 20 ∧
    ∀ sizes sizes',
      servedBy headParser ServerConfig.default (fun _ _ => ⟨200, .http11, [], []⟩) 20 oneGet sizes =
        servedBy headParser ServerConfig.default (fun _ _ => ⟨200, .http11, [], []⟩) 20 oneGet
          sizes' := by
  have hframe : frame headParser ServerConfig.default ServerConfig.default.maxHeaderSize oneGet =
      .ok (⟨.get, ascii "/a", .http11, [], []⟩, []) := by rfl
  have hlen : oneGet.length < 20 := by decide
  exact ⟨hlen, (servedBy_split_independent_iff headParser ServerConfig.default _ oneGet hlen).mpr
    (endsAlone_of_last hframe)⟩

/-- Two requests in one read: the second is never served. -/
theorem servedBy_depends_on_split :
    servedBy headParser ServerConfig.default (fun _ _ => ⟨200, .http11, [], []⟩) 39
        (ascii "GET /a HTTP/1.1\r\n\r\nGET /b HTTP/1.1\r\n\r\n") [38] =
      [⟨.get, ascii "/a", .http11, [], []⟩] ∧
    servedBy headParser ServerConfig.default (fun _ _ => ⟨200, .http11, [], []⟩) 39
        (ascii "GET /a HTTP/1.1\r\n\r\nGET /b HTTP/1.1\r\n\r\n") [19, 19] =
      [⟨.get, ascii "/a", .http11, [], []⟩, ⟨.get, ascii "/b", .http11, [], []⟩] := by
  constructor <;> decide +kernel

end Rko
