import Mathlib.Logic.Relation
import Rko.HttpFraming
import Rko.HttpServer

namespace Rko

open CallProgram IncrementalParser Peer

section

variable (httparse : Httparse) (config : ServerConfig)

/-- The requests a byte string holds, up to the first that is refused or closes the connection. -/
def messages : Nat → Bytes → List Request
  | 0, _ => []
  | fuel + 1, b =>
    match frame httparse config config.maxHeaderSize b with
    | .error _ => []
    | .ok (request, b') => request :: if request.keepalive then messages fuel b' else []

def Follows (b b' : Bytes) : Prop :=
  ∃ request, frame httparse config config.maxHeaderSize b = .ok (request, b') ∧
    request.keepalive = true

/-- In an end of the stream that fits in the buffer, no request that is served follows another. -/
def EndsAlone (s : Bytes) : Prop :=
  ∀ b b', Relation.ReflTransGen (Follows httparse config) s b → Follows httparse config b b' →
    b.length ≤ config.maxHeaderSize →
      ∀ request rest, frame httparse config config.maxHeaderSize b' ≠ .ok (request, rest)

end

variable {httparse : Httparse} {config : ServerConfig}
  {handler : List Request → Request → Response} {p p' : Peer} {r r' : BufReader}

theorem frame_shorter {capacity : Nat} {b b' : Bytes} {request : Request}
    (h : frame httparse config capacity b = .ok (request, b')) : b'.length < b.length := by
  obtain ⟨n, raw, hparse, hbody⟩ := frame_ok h
  obtain ⟨-, -, hlen, -, hrest⟩ := frameBody_ok hbody
  have hpos := httparse.complete_pos hparse
  rw [hrest, List.length_drop]
  omega

theorem frame_nil_ne_ok (capacity : Nat) (result : Request × Bytes) :
    frame httparse config capacity [] ≠ .ok result := by
  intro h
  have hlen := frame_shorter h
  simp at hlen

theorem frame_zero_ne_ok (b : Bytes) (result : Request × Bytes) :
    frame httparse config 0 b ≠ .ok result := by
  intro h
  obtain ⟨n, raw, hparse, -⟩ := frame_ok h
  have hpos := httparse.complete_pos hparse
  have hle := httparse.complete_le hparse
  simp at hle
  omega

theorem messages_of_refused {b : Bytes}
    (h : ∀ result, frame httparse config config.maxHeaderSize b ≠ .ok result) (fuel : Nat) :
    messages httparse config fuel b = [] := by
  cases fuel with
  | zero => rfl
  | succ fuel =>
    cases hframe : frame httparse config config.maxHeaderSize b with
    | error e => simp only [messages, hframe]
    | ok result => exact absurd hframe (h result)

theorem messages_of_accepted {b b' : Bytes} {request : Request}
    (h : frame httparse config config.maxHeaderSize b = .ok (request, b')) (fuel : Nat) :
    messages httparse config (fuel + 1) b =
      request :: if request.keepalive then messages httparse config fuel b' else [] := by
  simp only [messages, h]

theorem EndsAlone.of_follows {b b' : Bytes} (h : EndsAlone httparse config b)
    (hb : Follows httparse config b b') : EndsAlone httparse config b' :=
  fun c c' hc => h c c' (.head hb hc)

theorem Follows.eq_rest {b c c' : Bytes} {request : Request} (h : Follows httparse config b c)
    (hc : frame httparse config config.maxHeaderSize b = .ok (request, c')) : c = c' := by
  obtain ⟨_, hframe, -⟩ := h
  rw [hc] at hframe
  cases hframe
  rfl

theorem not_follows_nil (b : Bytes) : ¬ Follows httparse config [] b :=
  fun ⟨_, hframe, _⟩ => frame_nil_ne_ok _ _ hframe

theorem endsAlone_of_last {s : Bytes} {request : Request}
    (h : frame httparse config config.maxHeaderSize s = .ok (request, [])) :
    EndsAlone httparse config s := by
  intro b b' hreach hstep _ request' rest hnext
  rcases Relation.ReflTransGen.cases_head hreach with rfl | ⟨c, hc, hcb⟩
  · have hnil := hstep.eq_rest h
    subst hnil
    exact frame_nil_ne_ok _ _ hnext
  · have hnil := hc.eq_rest h
    subst hnil
    rcases Relation.ReflTransGen.cases_head hcb with rfl | ⟨d, hd, -⟩
    · exact not_follows_nil b' hstep
    · exact not_follows_nil d hd

theorem serveLoop_exec_failed {fuel : Nat} {e : HttpError}
    (h : (parseRequest httparse config r).exec (reply handler) p = (.failed e, p')) :
    (serveLoop httparse config (fuel + 1) r).exec (reply handler) p = (.done (), p') := by
  simp only [serveLoop, Program.bind_eq]
  rw [Program.exec_bind_done (Program.exec_attempt_failed h)]
  cases e <;> rfl

theorem serveLoop_exec_done {fuel : Nat} {request : Request}
    (h : (parseRequest httparse config r).exec (reply handler) p = (.done (request, r'), p')) :
    (serveLoop httparse config (fuel + 1) r).exec (reply handler) p =
      (if request.keepalive then serveLoop httparse config fuel r'.reset else pure ()).exec
        (reply handler) { p' with served := p'.served ++ [request] } := by
  simp only [serveLoop, Program.bind_eq]
  rw [Program.exec_bind_done (Program.exec_attempt_done h)]
  cases hkeep : request.keepalive <;> simp [reply, hkeep]

/-- A connection comes to its end, after at most as many requests as there are bytes. -/
theorem serveLoop_ends {fuel : Nat} (hcap : r.capacity = config.maxHeaderSize)
    (hfuel : (r.data ++ p.rest).length < fuel) :
    ∃ p', (serveLoop httparse config fuel r).exec (reply handler) p = (.done (), p') := by
  induction fuel generalizing r p with
  | zero => omega
  | succ fuel ih =>
    rcases Nat.lt_or_ge r.data.length r.capacity with hroom | hfull
    · rcases eq_or_ne p.rest [] with hnil | hrest
      · exact ⟨_, serveLoop_exec_failed (parseLoop_exec_closed hroom hnil)⟩
      · have hagrees := parseRequest_agrees handler httparse hcap hroom hrest
        cases hframe : frame httparse config r.capacity (r.data ++ p.rest) with
        | error e =>
          rw [hframe] at hagrees
          obtain ⟨p', hrun, -⟩ := hagrees.of_error
          exact ⟨p', serveLoop_exec_failed hrun⟩
        | ok result =>
          rw [hframe] at hagrees
          obtain ⟨r', p', hrun, hunread, hcap', -⟩ := hagrees.of_ok
          have hshort := frame_shorter hframe
          rw [serveLoop_exec_done hrun]
          cases result.1.keepalive with
          | false => exact ⟨_, rfl⟩
          | true =>
            refine ih (r'.reset_capacity.trans (hcap'.trans hcap)) ?_
            simp only [BufReader.reset_data, hunread]
            omega
    · exact ⟨_, serveLoop_exec_failed (parseLoop_exec_full hfull)⟩

variable (httparse config) in
/-- Before each round of the loop: the reader has room, and what it holds at the end of the stream
is no request. -/
structure Awaiting (r : BufReader) (p : Peer) : Prop where
  capacity : r.capacity = config.maxHeaderSize
  room : r.data.length < r.capacity
  alone : EndsAlone httparse config (r.data ++ p.rest)
  refused : p.rest = [] → ∀ result,
    frame httparse config config.maxHeaderSize (r.data ++ p.rest) ≠ .ok result

theorem Awaiting.next (h : Awaiting httparse config r p)
    (hfollows : Follows httparse config (r.data ++ p.rest) (r'.data ++ p'.rest))
    (hshort : (r'.data ++ p'.rest).length < (r.data ++ p.rest).length)
    (hcap : r'.capacity = r.capacity)
    (hleft : r'.data = [] ∨ (r.data ++ p.rest).length ≤ r.capacity + p'.rest.length)
    (served : List Request) : Awaiting httparse config r'.reset { p' with served } := by
  have hroom := h.room
  refine ⟨?_, ?_, ?_, ?_⟩
  · rw [BufReader.reset_capacity, hcap, h.capacity]
  · rw [BufReader.reset_data, BufReader.reset_capacity, hcap]
    rcases hleft with hdata | hfits
    · rw [hdata, List.length_nil]
      omega
    · have hlen : (r'.data ++ p'.rest).length = r'.data.length + p'.rest.length :=
        List.length_append
      omega
  · rw [BufReader.reset_data]
    exact h.alone.of_follows hfollows
  · intro hnil result
    rw [BufReader.reset_data]
    rcases hleft with hdata | hfits
    · rw [hdata, hnil]
      exact frame_nil_ne_ok _ result
    · have hrest : p'.rest = [] := hnil
      rw [hrest, List.length_nil, h.capacity] at hfits
      exact h.alone _ _ .refl hfollows hfits result.1 result.2

variable (handler) in
/-- Where no request comes glued to the one before at the end of the stream, the requests served
are those the bytes hold, whatever the reads return. -/
theorem serveLoop_served {fuel : Nat} (h : Awaiting httparse config r p)
    (hfuel : (r.data ++ p.rest).length < fuel) :
    ∃ p', (serveLoop httparse config fuel r).exec (reply handler) p = (.done (), p') ∧
      p'.served = p.served ++ messages httparse config fuel (r.data ++ p.rest) := by
  induction fuel generalizing r p with
  | zero => omega
  | succ fuel ih =>
    rcases eq_or_ne p.rest [] with hnil | hrest
    · have hclosed : (parseRequest httparse config r).exec (reply handler) p =
          (.failed .connectionClosed, p.afterRead (r.capacity - r.data.length)) :=
        parseLoop_exec_closed h.room hnil
      refine ⟨_, serveLoop_exec_failed hclosed, ?_⟩
      rw [messages_of_refused (h.refused hnil), List.append_nil]
      rfl
    · have hagrees := parseRequest_agrees handler httparse h.capacity h.room hrest
      cases hframe : frame httparse config r.capacity (r.data ++ p.rest) with
      | error e =>
        rw [hframe] at hagrees
        obtain ⟨p', hrun, hserved⟩ := hagrees.of_error
        refine ⟨p', serveLoop_exec_failed hrun, ?_⟩
        rw [messages_of_refused (by simp [← h.capacity, hframe]), List.append_nil, hserved]
      | ok result =>
        obtain ⟨request, b'⟩ := result
        rw [hframe] at hagrees
        obtain ⟨r', p', hrun, rfl, hcap, hserved, hleft⟩ := hagrees.of_ok
        have hshort := frame_shorter hframe
        rw [h.capacity] at hframe
        rw [serveLoop_exec_done hrun, messages_of_accepted hframe]
        cases hkeep : request.keepalive with
        | false => exact ⟨_, rfl, by simp [hserved]⟩
        | true =>
          have hnext := h.next ⟨request, hframe, hkeep⟩ hshort hcap hleft (p'.served ++ [request])
          have hfuel' : (r'.reset.data ++ p'.rest).length < fuel := by
            rw [BufReader.reset_data]
            omega
          obtain ⟨p'', hrun', hserved'⟩ := ih hnext hfuel'
          refine ⟨p'', hrun', ?_⟩
          rw [hserved', BufReader.reset_data, hserved]
          simp

end Rko
