import Rko.HttpParse

namespace Rko

open CallProgram IncrementalParser

/-- The other side of a connection: the bytes it has sent and that were not read yet, after which
it closes; how many bytes the next reads return, one each when the list is at its end; and the
requests the handler was called on. -/
structure Peer where
  rest : Bytes
  sizes : List Nat
  served : List Request

namespace Peer

def amount (p : Peer) (room : Nat) : Nat := min (max 1 (p.sizes.headD 1)) room

def afterRead (p : Peer) (room : Nat) : Peer :=
  { p with rest := p.rest.drop (p.amount room), sizes := p.sizes.tail }

/-- Reads are served from the stream, allocations and writes succeed. -/
def reply (handler : List Request → Request → Response) : Responder Peer HttpCall HttpCall.Reply
  | p, .read room =>
    (.ok ⟨p.rest.take (p.amount room),
      (List.length_take_le _ _).trans (Nat.min_le_right _ _)⟩, p.afterRead room)
  | p, .alloc => (true, p)
  | p, .handle request =>
    (handler p.served request, { p with served := p.served ++ [request] })
  | p, .writeResponse _ => (true, p)

theorem reply_rest (handler : List Request → Request → Response) (p : Peer) (op : HttpCall) :
    (reply handler p op).2.rest <:+ p.rest := by
  cases op with
  | read room => exact List.drop_suffix _ _
  | alloc => exact List.suffix_refl _
  | handle request => exact List.suffix_refl _
  | writeResponse response => exact List.suffix_refl _

/-- The stream gives its bytes away from the front only. -/
theorem exec_rest_suffix_of {handler : List Request → Request → Response} {p p' : Peer} {α : Type}
    {prog : HttpProgram α} {o : Outcome HttpError α}
    (h : prog.exec (reply handler) p = (o, p')) : p'.rest <:+ p.rest := by
  have hsuffix := Program.exec_invariant (I := fun q => q.rest <:+ p.rest)
    (fun q op hq => (reply_rest handler q op).trans hq) prog (List.suffix_refl _)
  rwa [h] at hsuffix

theorem reply_served (handler : List Request → Request → Response) (p : Peer) (op : HttpCall) :
    p.served <+: (reply handler p op).2.served := by
  cases op with
  | read room => exact List.prefix_refl _
  | alloc => exact List.prefix_refl _
  | handle request => exact List.prefix_append _ _
  | writeResponse response => exact List.prefix_refl _

theorem amount_pos (p : Peer) {room : Nat} (h : 0 < room) : 0 < p.amount room := by
  unfold amount
  omega

theorem amount_le (p : Peer) (room : Nat) : p.amount room ≤ room := Nat.min_le_right _ _

end Peer

section

variable {handler : List Request → Request → Response} {p : Peer}

open Peer

theorem BufReader.fill_exec_full {r : BufReader} (h : r.capacity ≤ r.data.length) :
    r.fill.exec (reply handler) p = (.done (.error Error.E2BIG, r.compact), p) := by
  have hfull : r.compact.buf.length ≤ r.compact.len := by
    have hcap := r.compact_capacity
    have hlen := r.compact_len
    simp only [BufReader.capacity] at hcap h
    omega
  simp only [BufReader.fill, if_pos hfull]
  rfl

theorem BufReader.fill_exec_closed {r : BufReader} (h : r.data.length < r.capacity)
    (hrest : p.rest = []) :
    r.fill.exec (reply handler) p = (.done (.error Error.ECONNRESET, r.compact),
      p.afterRead (r.capacity - r.data.length)) := by
  have hroom := r.room_eq
  have hnot : ¬ r.compact.buf.length ≤ r.compact.len := by omega
  rw [← hroom]
  simp [BufReader.fill, if_neg hnot, Program.bind_eq, Program.pure_eq, reply, hrest]

def BufReader.filled (r : BufReader) (bytes : Bytes) : BufReader :=
  if h : bytes.length ≤ r.compact.buf.length - r.compact.len then r.compact.push bytes h
  else r.compact

theorem BufReader.filled_data {r : BufReader} {bytes : Bytes}
    (h : bytes.length ≤ r.capacity - r.data.length) : (r.filled bytes).data = r.data ++ bytes := by
  rw [← r.room_eq] at h
  rw [BufReader.filled, dif_pos h, BufReader.push_data, BufReader.compact_data]

@[simp] theorem BufReader.filled_capacity (r : BufReader) (bytes : Bytes) :
    (r.filled bytes).capacity = r.capacity := by
  unfold BufReader.filled
  split
  · rw [BufReader.push_capacity, BufReader.compact_capacity]
  · exact r.compact_capacity

theorem BufReader.fill_exec_ok {r : BufReader} (h : r.data.length < r.capacity)
    (hrest : p.rest ≠ []) :
    r.fill.exec (reply handler) p =
      (.done (.ok (p.rest.take (p.amount (r.capacity - r.data.length))).length,
        r.filled (p.rest.take (p.amount (r.capacity - r.data.length)))),
        p.afterRead (r.capacity - r.data.length)) := by
  have hroom := r.room_eq
  have hnot : ¬ r.compact.buf.length ≤ r.compact.len := by omega
  have hpos := p.amount_pos (by omega : 0 < r.capacity - r.data.length)
  rw [← hroom] at hpos ⊢
  have hsome : p.rest.take (p.amount (r.compact.buf.length - r.compact.len)) ≠ [] := by
    simp only [ne_eq, List.take_eq_nil_iff, not_or]
    exact ⟨by omega, hrest⟩
  have hfits : (p.rest.take (p.amount (r.compact.buf.length - r.compact.len))).length ≤
      r.compact.buf.length - r.compact.len := (List.length_take_le _ _).trans (p.amount_le _)
  simp only [BufReader.fill, if_neg hnot, Program.bind_eq, Program.ask_bind, Program.exec_call,
    reply, if_neg hsome, Program.pure_eq, Program.exec_done, BufReader.filled, dif_pos hfits]

@[simp] theorem allocate_bind_exec {γ : Type} (f : Unit → HttpProgram γ) :
    (HttpProgram.allocate.bind f).exec (reply handler) p = (f ()).exec (reply handler) p := rfl

theorem Headers.insertAll_exec (headers : Headers) (hs : List (Bytes × Bytes)) :
    (headers.insertAll hs).exec (reply handler) p = (.done (headers ++ hs), p) := by
  induction hs generalizing headers with
  | nil => simp [Headers.insertAll, Program.pure_eq]
  | cons h hs ih =>
    have hstep : (headers.insertAll (h :: hs)).exec (reply handler) p =
        (Headers.insertAll (headers ++ [(h.1, h.2)]) hs).exec (reply handler) p := rfl
    rw [hstep, ih]
    simp

theorem readRest_exec_succ (fuel remaining : Nat) (body : Bytes) (hrest : p.rest ≠ []) :
    (readRest (fuel + 1) (remaining + 1) body).exec (reply handler) p =
      (readRest fuel (remaining + 1 - (p.rest.take (p.amount (remaining + 1))).length)
        (body ++ p.rest.take (p.amount (remaining + 1)))).exec (reply handler)
          (p.afterRead (remaining + 1)) := by
  have hpos := p.amount_pos (by omega : 0 < remaining + 1)
  have hsome : p.rest.take (p.amount (remaining + 1)) ≠ [] := by
    simp only [ne_eq, List.take_eq_nil_iff, not_or]
    exact ⟨by omega, hrest⟩
  simp only [readRest, Program.bind_eq, Program.ask_bind, allocate_bind_exec, Program.exec_call,
    reply, if_neg hsome]

theorem readRest_exec_closed (fuel remaining : Nat) (body : Bytes) (hrest : p.rest = []) :
    (readRest (fuel + 1) (remaining + 1) body).exec (reply handler) p =
      (.failed .connectionClosed, p.afterRead (remaining + 1)) := by
  simp [readRest, Program.bind_eq, reply, hrest]

variable (handler p)

theorem readRest_exec (body : Bytes) {fuel remaining : Nat} (hfuel : remaining ≤ fuel)
    (hlen : remaining ≤ p.rest.length) :
    ∃ p', (readRest fuel remaining body).exec (reply handler) p =
        (.done (body ++ p.rest.take remaining), p') ∧
      p'.rest = p.rest.drop remaining ∧ p'.served = p.served := by
  induction fuel generalizing remaining body p with
  | zero =>
    have hzero : remaining = 0 := by omega
    subst hzero
    exact ⟨p, by simp [readRest, Program.pure_eq], by simp, rfl⟩
  | succ fuel ih =>
    cases remaining with
    | zero => exact ⟨p, by simp [readRest, Program.pure_eq], by simp, rfl⟩
    | succ remaining =>
      have hrest : p.rest ≠ [] := List.ne_nil_of_length_pos (by omega)
      have hpos := p.amount_pos (by omega : 0 < remaining + 1)
      have hle := p.amount_le (remaining + 1)
      have htake : (p.rest.take (p.amount (remaining + 1))).length = p.amount (remaining + 1) := by
        rw [List.length_take]
        omega
      have hleft : remaining + 1 - p.amount (remaining + 1) ≤
          (p.afterRead (remaining + 1)).rest.length := by
        simp only [afterRead, List.length_drop]
        omega
      obtain ⟨p', hrun, hr, hs⟩ := ih (p.afterRead (remaining + 1))
        (body ++ p.rest.take (p.amount (remaining + 1))) (by omega) hleft
      refine ⟨p', ?_, ?_, hs⟩
      · rw [readRest_exec_succ fuel remaining body hrest, htake, hrun, List.append_assoc]
        simp only [afterRead]
        rw [← List.take_add, Nat.add_sub_cancel' hle]
      · rw [hr]
        simp only [afterRead, List.drop_drop]
        rw [Nat.add_sub_cancel' hle]

theorem readRest_exec_short (body : Bytes) {fuel remaining : Nat} (hfuel : remaining ≤ fuel)
    (hlen : p.rest.length < remaining) :
    ∃ p', (readRest fuel remaining body).exec (reply handler) p = (.failed .connectionClosed, p') ∧
      p'.served = p.served := by
  induction fuel generalizing remaining body p with
  | zero => omega
  | succ fuel ih =>
    obtain ⟨remaining, rfl⟩ : ∃ k, remaining = k + 1 := ⟨remaining - 1, by omega⟩
    rcases eq_or_ne p.rest [] with hnil | hrest
    · exact ⟨_, readRest_exec_closed fuel remaining body hnil, rfl⟩
    · have hpos := p.amount_pos (by omega : 0 < remaining + 1)
      have hone : 0 < p.rest.length := List.length_pos_iff.mpr hrest
      have htake : (p.rest.take (p.amount (remaining + 1))).length =
          min (p.amount (remaining + 1)) p.rest.length := List.length_take
      have hleft : (p.afterRead (remaining + 1)).rest.length <
          remaining + 1 - (p.rest.take (p.amount (remaining + 1))).length := by
        simp only [afterRead, List.length_drop]
        omega
      obtain ⟨p', hrun, hs⟩ := ih (p.afterRead (remaining + 1))
        (body ++ p.rest.take (p.amount (remaining + 1))) (by omega) hleft
      exact ⟨p', by rw [readRest_exec_succ fuel remaining body hrest, hrun], hs⟩

end

end Rko
