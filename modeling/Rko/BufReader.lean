import Rko.HttpMessage
import Rko.Responder

namespace Rko

open CallProgram

inductive HttpCall
  | read (room : Nat)
  | alloc
  | handle (request : Request)
  | writeResponse (response : Response)

/-- A read fails or fills at most the room it was given; it returns nothing at the end of the
stream. An allocation or a write succeeds or not. -/
@[reducible] def HttpCall.Reply : HttpCall → Type
  | read room => Except Error { bytes : Bytes // bytes.length ≤ room }
  | alloc => Bool
  | handle _ => Response
  | writeResponse _ => Bool

abbrev HttpProgram := Program HttpCall HttpCall.Reply HttpError

def HttpProgram.allocate : HttpProgram Unit := do
  if ← Program.ask .alloc then pure () else Program.fail .internal

structure BufReader where
  buf : Bytes
  pos : Nat
  len : Nat
  pos_le : pos ≤ len
  len_le : len ≤ buf.length

namespace BufReader

def capacity (r : BufReader) : Nat := r.buf.length

def data (r : BufReader) : Bytes := (r.buf.take r.len).drop r.pos

def empty (capacity : Nat) : BufReader :=
  ⟨List.replicate capacity 0, 0, 0, Nat.le_refl 0, Nat.zero_le _⟩

@[simp] theorem empty_data (capacity : Nat) : (empty capacity).data = [] := rfl

@[simp] theorem empty_capacity (n : Nat) : (empty n).capacity = n := List.length_replicate

/-- `with_capacity` and `resize` may both fail. -/
def new (capacity : Nat) : HttpProgram (Option BufReader) := do
  if !(← Program.ask .alloc) then return none
  if !(← Program.ask .alloc) then return none
  return some (empty capacity)

theorem length_data (r : BufReader) : r.data.length = r.len - r.pos := by
  have hlen := r.len_le
  simp [data, Nat.min_eq_left hlen]

theorem length_data_le (r : BufReader) : r.data.length ≤ r.capacity := by
  have hdata := r.length_data
  have hlen : r.len ≤ r.capacity := r.len_le
  omega

def moveToFront (r : BufReader) : Bytes := r.data ++ r.buf.drop r.data.length

theorem length_moveToFront (r : BufReader) : r.moveToFront.length = r.buf.length := by
  have hle : r.data.length ≤ r.buf.length := r.length_data_le
  simp only [moveToFront, List.length_append, List.length_drop]
  omega

def compacted (r : BufReader) : BufReader where
  buf := r.moveToFront
  pos := 0
  len := r.len - r.pos
  pos_le := Nat.zero_le _
  len_le := by
    have hpos := r.len_le
    rw [r.length_moveToFront]
    omega

@[simp] theorem compacted_data (r : BufReader) : r.compacted.data = r.data := by
  have hlen := r.length_data
  simp [data, compacted, moveToFront, ← hlen]

@[simp] theorem compacted_capacity (r : BufReader) : r.compacted.capacity = r.capacity :=
  r.length_moveToFront

def push (r : BufReader) (bytes : Bytes) (h : bytes.length ≤ r.buf.length - r.len) : BufReader where
  buf := r.buf.take r.len ++ (bytes ++ r.buf.drop (r.len + bytes.length))
  pos := r.pos
  len := r.len + bytes.length
  pos_le := by
    have hpos := r.pos_le
    omega
  len_le := by
    have hlen := r.len_le
    have hroom := h
    simp only [List.length_append, List.length_take, List.length_drop]
    omega

theorem push_data (r : BufReader) (bytes : Bytes) (h : bytes.length ≤ r.buf.length - r.len) :
    (r.push bytes h).data = r.data ++ bytes := by
  have hlen := r.len_le
  have hpos := r.pos_le
  have hcut : (r.push bytes h).buf.take (r.push bytes h).len = r.buf.take r.len ++ bytes := by
    simp [push, List.take_append, Nat.min_eq_left hlen, List.take_of_length_le]
  rw [data, hcut]
  simp only [push, data]
  rw [List.drop_append_of_le_length (by simp [Nat.min_eq_left hlen, hpos])]

theorem push_capacity (r : BufReader) (bytes : Bytes) (h : bytes.length ≤ r.buf.length - r.len) :
    (r.push bytes h).capacity = r.capacity := by
  have hlen := r.len_le
  simp only [capacity, push, List.length_append, List.length_take, List.length_drop]
  omega

def compact (r : BufReader) : BufReader := if 0 < r.pos then r.compacted else r

theorem compact_data (r : BufReader) : r.compact.data = r.data := by
  unfold compact
  split
  · exact r.compacted_data
  · rfl

theorem compact_capacity (r : BufReader) : r.compact.capacity = r.capacity := by
  unfold compact
  split
  · exact r.compacted_capacity
  · rfl

theorem compact_len (r : BufReader) : r.compact.len = r.data.length := by
  rw [length_data]
  unfold compact
  split
  · rfl
  · omega

theorem room_eq (r : BufReader) :
    r.compact.buf.length - r.compact.len = r.capacity - r.data.length := by
  have hcap : r.compact.buf.length = r.capacity := r.compact_capacity
  rw [hcap, r.compact_len]

def fill (r : BufReader) : HttpProgram (Except Error Nat × BufReader) :=
  let r := r.compact
  if r.buf.length ≤ r.len then return (.error Error.E2BIG, r)
  else do
    let reply : HttpCall.Reply (.read (r.buf.length - r.len)) ← Program.ask _
    match reply with
    | .error e => return (.error e, r)
    | .ok ⟨bytes, h⟩ =>
      if bytes = [] then return (.error Error.ECONNRESET, r)
      else return (.ok bytes.length, r.push bytes h)

/-- The source adds `n` to `pos`; its callers never consume more than `data` holds. -/
def consume (r : BufReader) (n : Nat) (h : n ≤ r.data.length) : BufReader where
  buf := r.buf
  pos := r.pos + n
  len := r.len
  pos_le := by
    have hpos := r.pos_le
    have hdata := r.length_data
    omega
  len_le := r.len_le

@[simp] theorem consume_data (r : BufReader) (n : Nat) (h : n ≤ r.data.length) :
    (r.consume n h).data = r.data.drop n := by
  simp [data, consume, List.drop_drop]

@[simp] theorem consume_capacity (r : BufReader) (n : Nat) (h : n ≤ r.data.length) :
    (r.consume n h).capacity = r.capacity := rfl

def reset (r : BufReader) : BufReader :=
  if r.pos < r.len then r.compacted
  else ⟨r.buf, 0, 0, Nat.le_refl 0, Nat.zero_le _⟩

@[simp] theorem reset_data (r : BufReader) : r.reset.data = r.data := by
  unfold reset
  split
  · exact r.compacted_data
  next hle =>
    have hlen := r.length_data
    have hnil : r.data = [] := List.length_eq_zero_iff.mp (by omega)
    rw [hnil]
    simp [data]

@[simp] theorem reset_capacity (r : BufReader) : r.reset.capacity = r.capacity := by
  unfold reset
  split
  · exact r.compacted_capacity
  · rfl

end BufReader

end Rko
