import Rko.AsyncOneshot
import Rko.UringResponses

namespace Rko

/-- What `copy_to_user` has written to the buffer of a RECV_REQUEST when it returns. -/
def recvCopied (queues : Queues) (queueId bufLen : UInt32) (left : Nat) : Bytes :=
  match queues.find queueId with
  | none => []
  | some q =>
    match q.buffered with
    | [] => []
    | b :: _ => b.data.take (min b.data.length bufLen.toNat - left)

/-- A RECV_REQUEST hands over the first request of the queue as a whole, or it fails and leaves the
queues alone. -/
inductive AllOrNothing (queues : Queues) (queueId : UInt32) (result : CInt) (queues' : Queues)
    (written : Bytes) : Prop
  | all {q : RequestQueue} {b : BufferedRequest} {rest : List BufferedRequest}
    (hfind : queues.find queueId = some q) (hbuffered : q.buffered = b :: rest)
    (hresult : result.toInt = b.data.length) (hwritten : written = b.data)
    (hqueues : queues' = queues.update queueId fun q => { q with buffered := rest })
  | nothing (hresult : result.toInt < 0) (hqueues : queues' = queues)

section Recv

variable {queues : Queues} {queueId : UInt32}

theorem Queues.find_update {f : RequestQueue → RequestQueue} {q : RequestQueue}
    (h : queues.find queueId = some q) : (queues.update queueId f).find queueId = some (f q) := by
  induction queues with
  | nil => cases h
  | cons x queues ih =>
    obtain ⟨id, q₀⟩ := x
    rw [Queues.find_cons] at h
    rw [Queues.update]
    by_cases hid : id = queueId
    · rw [if_pos hid] at h ⊢
      cases h
      rw [Queues.find_cons, if_pos hid]
    · rw [if_neg hid] at h ⊢
      rw [Queues.find_cons, if_neg hid]
      exact ih h

theorem update_ne_of_buffered {q : RequestQueue} {b : BufferedRequest} {rest : List BufferedRequest}
    (hfind : queues.find queueId = some q) (hbuffered : q.buffered = b :: rest) :
    (queues.update queueId fun q => { q with buffered := rest }) ≠ queues := by
  intro heq
  have hafter := Queues.find_update (f := fun q => { q with buffered := rest }) hfind
  rw [heq, hfind] at hafter
  have hrest : q.buffered = rest := congrArg RequestQueue.buffered (Option.some.inj hafter)
  have hlength := congrArg List.length (hbuffered.symm.trans hrest)
  rw [List.length_cons] at hlength
  omega

/-- The conversion to `i32` is exact just below 2^31 and gives a negative number from there on. -/
theorem ofNat_toInt_cases {n : Nat} (h : n < 2 ^ 32) :
    (BitVec.ofNat 32 n).toInt = n ∧ n < 2 ^ 31 ∨ (BitVec.ofNat 32 n).toInt < 0 ∧ 2 ^ 31 ≤ n := by
  rw [BitVec.toInt_eq_toNat_cond, BitVec.toNat_ofNat, Nat.mod_eq_of_lt h]
  split <;> omega

end Recv

/-- RECV_REQUEST is all or nothing exactly if the request it takes fits the buffer, is copied without
a fault and is shorter than 2 GiB. -/
theorem recv_all_or_nothing_iff (queues : Queues) (queueId bufLen : UInt32) (left : Nat) :
    AllOrNothing queues queueId (cmdRecvRequest queues queueId bufLen left).1
        (cmdRecvRequest queues queueId bufLen left).2.1 (recvCopied queues queueId bufLen left) ↔
      ∀ q b rest, queues.find queueId = some q → q.buffered = b :: rest →
        left = 0 ∧ b.data.length ≤ bufLen.toNat ∧ b.data.length < 2 ^ 31 := by
  have hnoent : Error.ENOENT.toErrno.toInt < 0 := by decide
  have hagain : Error.EAGAIN.toErrno.toInt < 0 := by decide
  cases hfind : queues.find queueId with
  | none =>
    simp only [cmdRecvRequest, hfind]
    exact ⟨fun _ => nofun, fun _ => .nothing hnoent rfl⟩
  | some q =>
    cases hbuffered : q.buffered with
    | nil =>
      simp only [cmdRecvRequest, hfind, hbuffered]
      refine ⟨fun _ q' b rest hq hb => ?_, fun _ => .nothing hagain rfl⟩
      rw [← Option.some.inj hq, hbuffered] at hb
      cases hb
    | cons b rest =>
      have hchanged := update_ne_of_buffered hfind hbuffered
      have hlen := bufLen.toNat_lt
      simp only [cmdRecvRequest, recvCopied, hfind, hbuffered]
      constructor
      · intro hall q' b' rest' hq hb
        cases Option.some.inj hq
        cases hbuffered.symm.trans hb
        cases hall with
        | nothing _ hqueues => exact absurd hqueues hchanged
        | all hfind' hbuffered' hresult hwritten _ =>
          cases Option.some.inj (hfind.symm.trans hfind')
          cases hbuffered.symm.trans hbuffered'
          split at hresult
          next hleft =>
            -- a cut request comes back with the length of the buffer, which is not its own
            have hcases := ofNat_toInt_cases (n := min b.data.length bufLen.toNat) (by omega)
            rcases hcases with ⟨hexact, hlt⟩ | ⟨hnegative, -⟩
            · rw [hexact] at hresult
              exact ⟨hleft, by omega, by omega⟩
            · omega
          next =>
            have hfault : Error.EFAULT.toErrno.toInt < 0 := by decide
            omega
      · intro hfits
        obtain ⟨rfl, hle, hlt⟩ := hfits q b rest rfl hbuffered
        have hmin : min b.data.length bufLen.toNat = b.data.length := Nat.min_eq_left hle
        refine .all hfind hbuffered ?_ ?_ rfl
        · rw [if_pos rfl, hmin]
          exact ofNat_toInt hlt
        · rw [hmin, Nat.sub_zero, List.take_length]

/-- A GET of `/a` waits in queue 1; a buffer of 16 bytes takes its first bytes, and the rest is
gone. -/
theorem recv_loses_rest_of_request :
    ∃ s, GuardedRun.run UringState.step .new UringState.oneBuffered = some s ∧
      (cmdRecvRequest s.queues 1 16 0).1 = 16 ∧
      (recvCopied s.queues 1 16 0).length = 16 ∧
      (s.queues.find 1).map (fun q => q.buffered.map fun b => b.data.length) = some [26] ∧
      ((cmdRecvRequest s.queues 1 16 0).2.1.find 1).map RequestQueue.buffered = some [] ∧
      ¬ AllOrNothing s.queues 1 (cmdRecvRequest s.queues 1 16 0).1
        (cmdRecvRequest s.queues 1 16 0).2.1 (recvCopied s.queues 1 16 0) := by
  refine ⟨_, rfl, by decide, by decide, by decide, by decide, fun hall => ?_⟩
  cases hall with
  | nothing hresult _ => exact absurd hresult (by decide)
  | all hfind hbuffered hresult hwritten hqueues =>
    cases Option.some.inj hfind
    cases hbuffered
    exact absurd hresult (by decide)

namespace AsyncOneshot

variable {α W : Type}

/-- The steps of the sender up to its end; there are at most six. -/
def settleSender : Nat → AsyncOneshot α W → AsyncOneshot α W
  | 0, c => c
  | n + 1, c =>
    match c.stepSender with
    | none => c
    | some c' => settleSender n c'

/-- `Sender::send` from its call to its return. -/
def sendAll (c : AsyncOneshot α W) (v : α) : AsyncOneshot α W :=
  match c.send v with
  | none => c
  | some c' => settleSender 6 c'

/-- The drop of a `Sender` that has sent nothing. -/
def closeAll (c : AsyncOneshot α W) : AsyncOneshot α W :=
  match c.dropSender with
  | none => c
  | some c' => settleSender 6 c'

/-- The sender is still there to be used. -/
structure IsOpen (c : AsyncOneshot α W) : Prop where
  sender : c.sender = .idle
  state : c.state = .empty
  sent : c.sent = []

theorem IsOpen.sendAll {c : AsyncOneshot α W} (h : c.IsOpen) (v : α) :
    (c.sendAll v).state = .sent ∧ (c.sendAll v).sent = [v] ∧ (c.sendAll v).sender = .done := by
  by_cases hlast : c.refcount = 1 <;>
    simp [AsyncOneshot.sendAll, AsyncOneshot.send, settleSender, stepSender, free, h.sender, h.sent,
      hlast]

theorem IsOpen.closeAll {c : AsyncOneshot α W} (h : c.IsOpen) : (c.closeAll).state = .closed := by
  by_cases hlast : c.refcount = 1 <;>
    simp [AsyncOneshot.closeAll, AsyncOneshot.dropSender, settleSender, stepSender, free, h.sender,
      hlast]

end AsyncOneshot

/-- The table of pending requests with the channels of the handler. A `Sender` in it is the only one
of its channel and was not used yet. -/
structure PendingTable (W : Type) where
  pending : List PendingRequest
  channels : Channel → AsyncOneshot Response W
  unused : ∀ p ∈ pending, (channels p.responseTx).IsOpen
  distinct : (pending.map PendingRequest.responseTx).Nodup

namespace PendingTable

variable {W : Type} (x : PendingTable W)

def find (reqId : UInt64) : Option (Fin x.pending.length) :=
  x.pending.findFinIdx? fun p => p.reqId = reqId

theorem responseTx_ne (i : Fin x.pending.length) {p : PendingRequest}
    (hp : p ∈ x.pending.eraseIdx i) : p.responseTx ≠ (x.pending.get i).responseTx := by
  have hperm := (List.getElem_cons_eraseIdx_perm i.isLt).map PendingRequest.responseTx
  have hnodup := hperm.nodup_iff.mpr x.distinct
  rw [List.map_cons, List.nodup_cons] at hnodup
  intro heq
  exact hnodup.1 (List.mem_map.mpr ⟨p, hp, heq⟩)

/-- The table without its entry `i`, when its channel has become `c`. -/
def take (i : Fin x.pending.length) (c : AsyncOneshot Response W) : PendingTable W where
  pending := x.pending.eraseIdx i
  channels := Function.update x.channels (x.pending.get i).responseTx c
  unused := by
    intro p hp
    rw [Function.update_of_ne (x.responseTx_ne i hp)]
    exact x.unused p (List.mem_of_mem_eraseIdx hp)
  distinct := x.distinct.sublist ((List.eraseIdx_sublist ..).map _)

/-- SEND_RESPONSE: the entry is taken out of the table first, and its sender is used for the response
or dropped by an early return. -/
def cmdSendResponse (payload : CmdSendResponse) (memory : UInt64 → UInt8) (left : Nat)
    (alloc : Bool) : CInt × PendingTable W :=
  match x.find payload.reqId with
  | none => (Error.ENOENT.toErrno, x)
  | some i =>
    match respond payload memory left alloc with
    | .error e => (e.toErrno, x.take i (x.channels (x.pending.get i).responseTx).closeAll)
    | .ok response =>
      (0, x.take i ((x.channels (x.pending.get i).responseTx).sendAll response))

/-- The bytes that the payload describes. -/
def givenBody (payload : CmdSendResponse) (memory : UInt64 → UInt8) : Bytes :=
  (List.range payload.bodyLen.toNat).map fun k => memory (payload.bufAddr + k.toUInt64)

/-- An error leaves the table and the channel of the request as they were; a success removes one
entry of the id and sends just the given response on its channel. -/
structure RepliesOrKeeps (payload : CmdSendResponse) (memory : UInt64 → UInt8) (result : CInt)
    (x' : PendingTable W) : Prop where
  keeps : result.toInt < 0 → x'.pending = x.pending ∧
    ∀ p ∈ x.pending, p.reqId = payload.reqId → (x'.channels p.responseTx).IsOpen
  replies : result = 0 → ∃ i : Fin x.pending.length,
    (x.pending.get i).reqId = payload.reqId ∧ x'.pending = x.pending.eraseIdx i ∧
      (∃ response : Response, (x'.channels (x.pending.get i).responseTx).sent = [response] ∧
        (x'.channels (x.pending.get i).responseTx).state = .sent ∧
        response.status = payload.statusCode ∧ response.body = givenBody payload memory) ∧
      ∀ c, c ≠ (x.pending.get i).responseTx → x'.channels c = x.channels c

variable {x}

theorem find_some {reqId : UInt64} {i : Fin x.pending.length} (h : x.find reqId = some i) :
    (x.pending.get i).reqId = reqId := by
  obtain ⟨hid, -⟩ := List.findFinIdx?_eq_some_iff.mp h
  exact of_decide_eq_true hid

/-- The entry that is found is the one that `takePending` takes. -/
theorem takePending_eq (reqId : UInt64) : takePending x.pending reqId =
    (x.find reqId).map fun i => ((x.pending.get i).responseTx, x.pending.eraseIdx i) := by
  unfold takePending find
  rw [List.findIdx?_eq_map_findFinIdx?_val]
  cases x.pending.findFinIdx? fun p => p.reqId = reqId with
  | none => rfl
  | some i => simp

/-- An error drops the sender, which closes the channel and so answers the client. -/
theorem cmdSendResponse_failed {payload : CmdSendResponse} {memory : UInt64 → UInt8} {left : Nat}
    {alloc : Bool} {e : Error} {i : Fin x.pending.length} (hi : x.find payload.reqId = some i)
    (he : respond payload memory left alloc = .error e) :
    ((x.cmdSendResponse payload memory left alloc).2.channels (x.pending.get i).responseTx).state =
      .closed := by
  simp only [cmdSendResponse, hi, he, take, Function.update_self]
  exact (x.unused _ (x.pending.get_mem i)).closeAll

/-- In the system the command is two steps, which leave the same table and send the same. -/
theorem cmdSendResponse_steps {s : UringState} (hs : s.pending = x.pending)
    {payload : CmdSendResponse} {i : Fin x.pending.length} (hi : x.find payload.reqId = some i)
    (memory : UInt64 → UInt8) (left : Nat) (alloc : Bool) :
    ∃ s', GuardedRun.run UringState.step s
        [.sendResponse payload, .respond s.tasks.length memory left alloc] = some s' ∧
      s'.pending = (x.cmdSendResponse payload memory left alloc).2.pending ∧
      s'.sent = s.sent ++ ((respond payload memory left alloc).toOption.toList.map
        fun response => ((x.pending.get i).responseTx, response)) := by
  have htake : takePending s.pending payload.reqId =
      some ((x.pending.get i).responseTx, x.pending.eraseIdx i) := by
    rw [hs, takePending_eq, hi, Option.map_some]
  have htask : (s.tasks ++ [.responding (x.pending.get i).responseTx payload])[s.tasks.length]? =
      some (.responding (x.pending.get i).responseTx payload) := List.getElem?_concat_length
  simp only [GuardedRun.run, UringState.step, htake, UringState.start, Option.bind_some, htask,
    cmdSendResponse, hi]
  cases respond payload memory left alloc with
  | error e => exact ⟨_, rfl, rfl, (List.append_nil _).symm⟩
  | ok response => exact ⟨_, rfl, rfl, rfl⟩

theorem eraseIdx_ne (i : Fin x.pending.length) : x.pending.eraseIdx i ≠ x.pending := by
  intro heq
  have hlength := congrArg List.length heq
  have hi := i.isLt
  rw [List.length_eraseIdx_of_lt hi] at hlength
  omega

theorem respond_error_iff (payload : CmdSendResponse) (memory : UInt64 → UInt8) (left : Nat)
    (alloc : Bool) : (∃ e, respond payload memory left alloc = .error e) ↔
      0 < payload.bodyLen ∧ payload.bufAddr ≠ 0 ∧ (alloc = false ∨ left ≠ 0) := by
  unfold respond
  split
  next hbody =>
    cases alloc with
    | false => simp [hbody]
    | true =>
      by_cases hleft : left = 0 <;> simp [hbody, hleft]
  next hbody =>
    constructor
    · rintro ⟨e, he⟩
      cases he
    · rintro ⟨hpos, haddr, -⟩
      exact absurd ⟨hpos, haddr⟩ hbody

theorem take_sent (i : Fin x.pending.length) (response : Response) :
    let c := (x.take i ((x.channels (x.pending.get i).responseTx).sendAll response)).channels
      (x.pending.get i).responseTx
    c.sent = [response] ∧ c.state = .sent := by
  obtain ⟨hstate, hsent, -⟩ := (x.unused _ (x.pending.get_mem i)).sendAll response
  simp only [take, Function.update_self]
  exact ⟨hsent, hstate⟩

/-- A response can only have been sent on the channel whose entry was taken out. -/
theorem response_unique {i i' : Fin x.pending.length} {response response' : Response}
    (hsent : ((x.take i ((x.channels (x.pending.get i).responseTx).sendAll response)).channels
      (x.pending.get i').responseTx).sent = [response']) : response' = response := by
  by_cases heq : (x.pending.get i').responseTx = (x.pending.get i).responseTx
  · rw [heq, (x.take_sent i response).1] at hsent
    exact (List.singleton_inj.mp hsent).symm
  · have hopen := x.unused _ (x.pending.get_mem i')
    simp only [take, Function.update_of_ne heq, hopen.sent] at hsent
    cases hsent

theorem not_repliesOrKeeps_of_error {payload : CmdSendResponse} {memory memory' : UInt64 → UInt8}
    {left : Nat} {alloc : Bool} {e : Error} (he : respond payload memory' left alloc = .error e)
    (i : Fin x.pending.length) (c : AsyncOneshot Response W) :
    ¬ x.RepliesOrKeeps payload memory e.toErrno (x.take i c) := by
  intro h
  have hnegative : e.toErrno.toInt < 0 := by
    rcases respond_error_cases he with rfl | rfl <;> decide
  exact eraseIdx_ne i (h.keeps hnegative).1

theorem repliesOrKeeps_sent_iff {payload : CmdSendResponse} {memory : UInt64 → UInt8}
    {response : Response} {i : Fin x.pending.length} (hi : x.find payload.reqId = some i)
    (hstatus : response.status = payload.statusCode) :
    x.RepliesOrKeeps payload memory 0
        (x.take i ((x.channels (x.pending.get i).responseTx).sendAll response)) ↔
      response.body = givenBody payload memory := by
  constructor
  · intro h
    obtain ⟨i', -, -, ⟨response', hsent, -, -, hbody⟩, -⟩ := h.replies rfl
    rw [response_unique hsent] at hbody
    exact hbody
  · intro hbody
    obtain ⟨hsent, hstate⟩ := x.take_sent i response
    refine ⟨fun hlt => absurd hlt (by decide), fun _ => ⟨i, find_some hi, rfl, ?_, ?_⟩⟩
    · exact ⟨response, hsent, hstate, hstatus, hbody⟩
    · intro c hc
      exact Function.update_of_ne hc ..

theorem replyTo_body_iff (payload : CmdSendResponse) (memory : UInt64 → UInt8) :
    (replyTo payload memory).body = givenBody payload memory ↔
      payload.bodyLen = 0 ∨ payload.bufAddr ≠ 0 := by
  by_cases hzero : payload.bodyLen = 0
  · simp [replyTo, givenBody, hzero]
  · have hlen : payload.bodyLen.toNat ≠ 0 := fun h => hzero (UInt32.toNat_inj.mp h)
    have hpos : 0 < payload.bodyLen := UInt32.lt_iff_toNat_lt.mpr (Nat.pos_of_ne_zero hlen)
    by_cases haddr : payload.bufAddr = 0
    · have hbody : (replyTo payload memory).body = [] := by simp [replyTo, haddr]
      have hgiven : givenBody payload memory ≠ [] := by
        intro hnil
        have hlength := congrArg List.length hnil
        rw [givenBody, List.length_map, List.length_range] at hlength
        exact hlen hlength
      rw [hbody]
      exact ⟨fun h => absurd h.symm hgiven, fun h => by simp [hzero, haddr] at h⟩
    · simp [replyTo, givenBody, hpos, haddr]

/-- SEND_RESPONSE fails without an effect, and succeeds with the whole of it, exactly if no request
of the id is pending, or there is no body, or the body has an address and can be allocated and
copied. -/
theorem send_replies_or_keeps_iff (x : PendingTable W) (payload : CmdSendResponse)
    (memory : UInt64 → UInt8) (left : Nat) (alloc : Bool) :
    x.RepliesOrKeeps payload memory (x.cmdSendResponse payload memory left alloc).1
        (x.cmdSendResponse payload memory left alloc).2 ↔
      (∀ p ∈ x.pending, p.reqId ≠ payload.reqId) ∨ payload.bodyLen = 0 ∨
        payload.bufAddr ≠ 0 ∧ alloc = true ∧ left = 0 := by
  cases hfind : x.find payload.reqId with
  | none =>
    have hnone : ∀ p ∈ x.pending, p.reqId ≠ payload.reqId := by
      intro p hp hid
      exact List.findFinIdx?_eq_none_iff.mp hfind p hp (decide_eq_true hid)
    have hnoent : Error.ENOENT.toErrno ≠ 0 := by decide
    simp only [cmdSendResponse, hfind]
    refine ⟨fun _ => Or.inl hnone, fun _ => ⟨fun _ => ⟨rfl, fun p hp _ => x.unused p hp⟩, ?_⟩⟩
    exact fun hzero => absurd hzero hnoent
  | some i =>
    have hsome : ¬ ∀ p ∈ x.pending, p.reqId ≠ payload.reqId := by
      intro hnone
      exact hnone _ (x.pending.get_mem i) (find_some hfind)
    have herror := respond_error_iff payload memory left alloc
    simp only [cmdSendResponse, hfind, hsome, false_or]
    cases hrespond : respond payload memory left alloc with
    | error e =>
      obtain ⟨hpos, -, hfails⟩ := herror.mp ⟨e, hrespond⟩
      constructor
      · intro h
        exact absurd h (not_repliesOrKeeps_of_error hrespond i _)
      · rintro (hzero | ⟨-, rfl, rfl⟩)
        · rw [hzero] at hpos
          exact absurd hpos (by decide)
        · rcases hfails with hfails | hfails
          · cases hfails
          · exact absurd rfl hfails
    | ok response =>
      have hreply := respond_ok hrespond
      have hstatus : response.status = payload.statusCode := by rw [hreply]; rfl
      rw [repliesOrKeeps_sent_iff hfind hstatus, hreply, replyTo_body_iff]
      have hcopied : ¬ (0 < payload.bodyLen ∧ payload.bufAddr ≠ 0 ∧ (alloc = false ∨ left ≠ 0)) := by
        intro hfails
        obtain ⟨e, he⟩ := herror.mpr hfails
        rw [hrespond] at he
        cases he
      constructor
      · rintro (hzero | haddr)
        · exact Or.inl hzero
        · by_cases hzero : payload.bodyLen = 0
          · exact Or.inl hzero
          · have hpos : 0 < payload.bodyLen := UInt32.pos_iff_ne_zero.mpr hzero
            have hfine : ¬ (alloc = false ∨ left ≠ 0) := fun h => hcopied ⟨hpos, haddr, h⟩
            rw [not_or, Bool.not_eq_false, not_not] at hfine
            exact Or.inr ⟨haddr, hfine⟩
      · rintro (hzero | ⟨haddr, -⟩)
        · exact Or.inl hzero
        · exact Or.inr haddr

/-- Request 1 waits for its response on channel 0. -/
def oneWaiting : PendingTable Nat where
  pending := [⟨1, 0⟩]
  channels := fun _ => .channel
  unused := by
    intro p hp
    exact ⟨rfl, rfl, rfl⟩
  distinct := List.nodup_singleton _

/-- A body that cannot be read is answered with `EFAULT`; the request is gone from the table and its
channel closed, so that the client is answered with a timeout and a second attempt finds nothing. -/
theorem send_fault_closes_channel :
    (oneWaiting.cmdSendResponse ⟨1, 200, 5, 4096⟩ (fun _ => 0) 5 true).1 = -14 ∧
      (oneWaiting.cmdSendResponse ⟨1, 200, 5, 4096⟩ (fun _ => 0) 5 true).2.pending = [] ∧
      ((oneWaiting.cmdSendResponse ⟨1, 200, 5, 4096⟩ (fun _ => 0) 5 true).2.channels 0).state =
        .closed ∧
      ¬ oneWaiting.RepliesOrKeeps ⟨1, 200, 5, 4096⟩ (fun _ => 0)
        (oneWaiting.cmdSendResponse ⟨1, 200, 5, 4096⟩ (fun _ => 0) 5 true).1
        (oneWaiting.cmdSendResponse ⟨1, 200, 5, 4096⟩ (fun _ => 0) 5 true).2 := by
  refine ⟨by decide, by decide, by decide, fun h => ?_⟩
  have hkept := (h.keeps (by decide)).1
  exact absurd hkept (by decide)

end PendingTable

end Rko
