import Rko.HttpFrame
import Rko.HttpHead

namespace Rko

open CallProgram IncrementalParser Peer

/-- Every Content-Length of the request is a decimal numeral of the length of its body. -/
def Framed (request : Request) : Prop :=
  ∀ v ∈ request.headers.values CONTENT_LENGTH,
    IsDecimal v ∧ decimalValue v = request.body.length

/-- All Content-Length values are decimal numerals of one number, and that number fits `usize`. -/
def OneLength (headers : Headers) : Prop :=
  ∀ v ∈ headers.values CONTENT_LENGTH, IsDecimal v ∧ decimalValue v < 2 ^ 64 ∧
    ∀ w ∈ headers.values CONTENT_LENGTH, decimalValue w = decimalValue v

theorem frameBody_ok {config : ServerConfig} {n : Nat} {raw : RawRequest} {b b' : Bytes}
    {request : Request} (h : frameBody config n raw b = .ok (request, b')) :
    request.headers = raw.headers ∧ raw.headers.contentLength.getD 0 ≤ config.maxBodySize ∧
      n + raw.headers.contentLength.getD 0 ≤ b.length ∧
      request.body = (b.drop n).take (raw.headers.contentLength.getD 0) ∧
      b' = b.drop (n + raw.headers.contentLength.getD 0) := by
  unfold frameBody at h
  split at h
  · cases h
  · split at h
    · cases h
    next hmax =>
      split at h
      · cases h
      next hlen =>
        cases h
        exact ⟨rfl, by omega, by omega, rfl, rfl⟩

theorem frame_ok {httparse : Httparse} {config : ServerConfig} {capacity : Nat} {b b' : Bytes}
    {request : Request} (h : frame httparse config capacity b = .ok (request, b')) :
    ∃ n raw, httparse.parse (b.take capacity) = .complete n raw ∧
      frameBody config n raw b = .ok (request, b') := by
  unfold frame at h
  split at h
  · cases h
  · cases h
  next n raw hparse => exact ⟨n, raw, hparse, h⟩

/-- The head that ends within the first `capacity` bytes of `b` asks for a known method, and for a
body that is within the limit and complete. -/
structure HoldsRequest (httparse : Httparse) (config : ServerConfig) (capacity : Nat) (b : Bytes)
    (n : Nat) (raw : RawRequest) : Prop where
  complete : httparse.parse (b.take capacity) = .complete n raw
  method : (Method.parse (raw.method.getD [])).isSome = true
  limit : raw.headers.contentLength.getD 0 ≤ config.maxBodySize
  length : n + raw.headers.contentLength.getD 0 ≤ b.length

theorem HoldsRequest.frame_eq {httparse : Httparse} {config : ServerConfig} {capacity n : Nat}
    {b : Bytes} {raw : RawRequest} (h : HoldsRequest httparse config capacity b n raw) :
    ∃ request b', frame httparse config capacity b = .ok (request, b') ∧
      request.headers = raw.headers := by
  obtain ⟨method, hmethod⟩ := Option.isSome_iff_exists.mp h.method
  have hlimit := h.limit
  have hlength := h.length
  refine ⟨⟨method, raw.path.getD (ascii "/"), Version.fromHttparse (raw.version.getD 1),
    raw.headers, (b.drop n).take (raw.headers.contentLength.getD 0)⟩,
    b.drop (n + raw.headers.contentLength.getD 0), ?_, rfl⟩
  simp only [frame, h.complete, frameBody, hmethod]
  rw [if_neg (by omega), if_neg (by omega)]

theorem holdsRequest_of_frame {httparse : Httparse} {config : ServerConfig} {capacity : Nat}
    {b b' : Bytes} {request : Request}
    (h : frame httparse config capacity b = .ok (request, b')) :
    ∃ n raw, HoldsRequest httparse config capacity b n raw ∧ request.headers = raw.headers := by
  obtain ⟨n, raw, hparse, hbody⟩ := frame_ok h
  obtain ⟨hheaders, hlimit, hlength, -, -⟩ := frameBody_ok hbody
  refine ⟨n, raw, ⟨hparse, ?_, hlimit, hlength⟩, hheaders⟩
  cases hmethod : Method.parse (raw.method.getD []) with
  | none =>
    simp only [frameBody, hmethod] at hbody
    cases hbody
  | some method => rfl

theorem frame_body_length {httparse : Httparse} {config : ServerConfig} {capacity : Nat}
    {b b' : Bytes} {request : Request}
    (h : frame httparse config capacity b = .ok (request, b')) :
    request.body.length = request.headers.contentLength.getD 0 := by
  obtain ⟨n, raw, -, hbody⟩ := frame_ok h
  obtain ⟨hheaders, -, hlen, hbytes, -⟩ := frameBody_ok hbody
  rw [hheaders, hbytes, List.length_take, List.length_drop]
  omega

/-- The body has the length of the first Content-Length that `usize::parse` reads, or none. -/
theorem framed_iff_oneLength {request : Request}
    (hbody : request.body.length = request.headers.contentLength.getD 0) :
    Framed request ↔ OneLength request.headers := by
  constructor
  · intro hframed v hv
    obtain ⟨hdec, hval⟩ := hframed v hv
    refine ⟨hdec, ?_, fun w hw => (hframed w hw).2.trans hval.symm⟩
    rw [hval, hbody]
    cases hcl : request.headers.contentLength with
    | none => decide
    | some n => exact Headers.contentLength_lt hcl
  · intro hone v hv
    obtain ⟨hdec, hlt, hall⟩ := hone v hv
    refine ⟨hdec, ?_⟩
    obtain ⟨w, ws, hws⟩ := List.exists_cons_of_ne_nil (List.ne_nil_of_mem hv)
    have hw : w ∈ request.headers.values CONTENT_LENGTH := by simp [hws]
    obtain ⟨hwdec, hwlt, -⟩ := hone w hw
    have hfirst : request.headers.get CONTENT_LENGTH = some w := by
      rw [Headers.get_eq_head?, hws, List.head?_cons]
    have hcl : request.headers.contentLength = some (decimalValue w) := by
      rw [Headers.contentLength, hfirst, Option.bind_some, parseUsize_of_decimal hwdec hwlt]
    rw [hbody, hcl, Option.getD_some, hall w hw]

theorem parseRequest_accepts {httparse : Httparse} {config : ServerConfig} {r : BufReader}
    {p : Peer} {b' : Bytes} {request : Request} (handler : List Request → Request → Response)
    (hsize : r.capacity ≤ p.sizes.headD 1) (hrest : p.rest ≠ [])
    (hroom : r.data.length < r.capacity)
    (h : frame httparse config r.capacity (r.data ++ p.rest) = .ok (request, b')) :
    ∃ r' p', (parseRequest httparse config r).exec (reply handler) p = (.done (request, r'), p') ∧
      r'.data ++ p'.rest = b' ∧ r'.capacity = r.capacity ∧ p'.served = p.served ∧
      p'.rest <:+ p.rest.drop (r.capacity - r.data.length) := by
  obtain ⟨n, raw, hparse, hbody⟩ := frame_ok h
  have hamount : p.amount (r.capacity - r.data.length) = r.capacity - r.data.length := by
    unfold amount
    omega
  have hfirst : r.data ++ p.rest.take (r.capacity - r.data.length) =
      (r.data ++ p.rest).take r.capacity := by
    rw [List.take_append, List.take_of_length_le hroom.le]
  have hrun := parseRequest_exec_first (p := p) handler config hroom hrest (by rw [hamount])
    (hfirst ▸ hparse)
  have hdata : (r.filled (p.rest.take (r.capacity - r.data.length))).data =
      (r.data ++ p.rest).take r.capacity := by
    rw [BufReader.filled_data (List.length_take_le _ _), hfirst]
  have hafter : (p.afterRead (r.capacity - r.data.length)).rest =
      p.rest.drop (r.capacity - r.data.length) := by rw [afterRead, hamount]
  have hunread : (r.filled (p.rest.take (r.capacity - r.data.length))).data ++
      (p.afterRead (r.capacity - r.data.length)).rest = r.data ++ p.rest := by
    rw [hdata, hafter, ← hfirst, List.append_assoc, List.take_append_drop]
  have hagrees := acceptRequest_agrees (p := p.afterRead (r.capacity - r.data.length)) handler
    config raw (hdata ▸ httparse.complete_le hparse)
  rw [hunread, hbody] at hagrees
  obtain ⟨r', p', hend, hleft, hcap', hserved, -⟩ := hagrees.of_ok
  have hsuffix := exec_rest_suffix_of hend
  rw [hafter] at hsuffix
  exact ⟨r', p', hrun.trans hend, hleft, hcap'.trans (r.filled_capacity _), hserved, hsuffix⟩

/-- A request is framed by its Content-Length, however its bytes arrive, exactly when these bytes
hold no request to accept, or one whose Content-Length values agree on a number. -/
theorem parseRequest_framed_iff (httparse : Httparse) (config : ServerConfig)
    (handler : List Request → Request → Response) (r : BufReader) (rest : Bytes)
    (served : List Request) :
    (∀ sizes request r' p', (parseRequest httparse config r).exec (reply handler)
        ⟨rest, sizes, served⟩ = (.done (request, r'), p') → Framed request) ↔
      (rest ≠ [] → r.data.length < r.capacity → ∀ n raw,
        HoldsRequest httparse config r.capacity (r.data ++ rest) n raw →
          OneLength raw.headers) := by
  constructor
  · intro hframed hrest hroom n raw hholds
    obtain ⟨request, b', hframe, hheaders⟩ := hholds.frame_eq
    obtain ⟨r', p', hrun, -⟩ :=
      parseRequest_accepts (p := ⟨rest, [r.capacity], served⟩) handler (Nat.le_refl _) hrest hroom
        hframe
    rw [← hheaders]
    exact (framed_iff_oneLength (frame_body_length hframe)).mp (hframed _ _ _ _ hrun)
  · intro hone sizes request r' p' hrun
    obtain ⟨hrest, hroom, hframe⟩ := parseRequest_sound hrun
    obtain ⟨n, raw, hholds, hheaders⟩ := holdsRequest_of_frame hframe
    apply (framed_iff_oneLength (frame_body_length hframe)).mpr
    rw [hheaders]
    exact hone hrest hroom n raw hholds

def malformedLength : Bytes := ascii "POST / HTTP/1.1\r\nContent-Length: 5x\r\n\r\nhello"

/-- A numeral with a trailing letter counts as no length at all: the body is left behind as the
start of the next request. -/
theorem parseRequest_accepts_malformed_length :
    ∃ request r' p', (parseRequest headParser ServerConfig.default (BufReader.empty 8192)).exec
        (reply fun _ _ => ⟨200, .http11, [], []⟩) ⟨malformedLength, [8192], []⟩ =
      (.done (request, r'), p') ∧ request.body = [] ∧ ¬ Framed request := by
  have hframe : frame headParser ServerConfig.default 8192 malformedLength =
      .ok (⟨.post, ascii "/", .http11, [(ascii "Content-Length", ascii "5x")], []⟩,
        ascii "hello") := by rfl
  have hvalue : ¬ IsDecimal (ascii "5x") := by decide
  obtain ⟨r', p', hrun, -⟩ := (parseRequest_of_frame (fun _ _ => ⟨200, .http11, [], []⟩) [8192] []
    (by decide) (by decide : 0 < ServerConfig.default.maxHeaderSize) hframe).of_ok
  refine ⟨_, r', p', hrun, rfl, fun hframed => ?_⟩
  exact hvalue (hframed (ascii "5x") (by decide)).1

end Rko
