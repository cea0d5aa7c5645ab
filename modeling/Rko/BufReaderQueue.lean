import Rko.BufReader
import Rko.GuardedRun
import Rko.ListWindow

namespace Rko

open CallProgram GuardedRun ListWindow

/-- What a read into `room` bytes of memory does. The bytes that it returns stand at the front; the
rest of the memory may hold anything afterwards, and so may all of it after an error. -/
structure StreamRead (room : Nat) where
  result : Except Error UInt64
  memory : Bytes
  memory_length : memory.length = room
  count_le : ∀ n, result = .ok n → n.toNat ≤ room

/-- The bytes that a read that succeeds hands over. -/
def StreamRead.reply {room : Nat} (x : StreamRead room) : HttpCall.Reply (.read room) :=
  match x.result with
  | .error e => .error e
  | .ok n => .ok ⟨x.memory.take n.toNat, by
    rw [List.length_take, x.memory_length]
    exact Nat.min_le_right _ _⟩

/-- A read from a stream that has `bytes` to offer. -/
def StreamRead.offering (bytes : Bytes) (room : Nat) : StreamRead room where
  result := .ok (UInt64.ofNat (min bytes.length room))
  memory := (bytes ++ List.replicate room 0).take room
  memory_length := by
    rw [List.length_take, List.length_append, List.length_replicate]
    omega
  count_le := by
    intro n hn
    cases hn
    have hle := Nat.mod_le (min bytes.length room) (2 ^ 64)
    rw [UInt64.toNat_ofNat']
    omega

/-- A read that fails and leaves something else in the memory. -/
def StreamRead.failing (e : Error) (room : Nat) : StreamRead room where
  result := .error e
  memory := List.replicate room 0xFF
  memory_length := List.length_replicate
  count_le := by
    intro n hn
    cases hn

/-- What `fill` makes of the answer of the stream. -/
def BufReader.takeRead (b : BufReader) :
    HttpCall.Reply (.read (b.buf.length - b.len)) → Except Error Nat × BufReader
  | .error e => (.error e, b)
  | .ok ⟨bytes, h⟩ =>
    if bytes = [] then (.error Error.ECONNRESET, b) else (.ok bytes.length, b.push bytes h)

theorem BufReader.fill_run_full {b : BufReader} (hfull : b.compact.buf.length ≤ b.compact.len)
    (env : Environment HttpCall HttpCall.Reply) (hist : List (Event HttpCall HttpCall.Reply)) :
    (b.fill.run env hist).1 = .done (.error Error.E2BIG, b.compact) := by
  simp only [fill, if_pos hfull]
  rfl

theorem BufReader.fill_run_room {b : BufReader} (hroom : ¬ b.compact.buf.length ≤ b.compact.len)
    (env : Environment HttpCall HttpCall.Reply) (hist : List (Event HttpCall HttpCall.Reply)) :
    (b.fill.run env hist).1 = .done (b.compact.takeRead (env hist (.read _))) := by
  simp only [fill, if_neg hroom, Program.bind_eq, Program.ask_bind, Program.run]
  generalize env hist (.read (b.compact.buf.length - b.compact.len)) = reply
  cases reply with
  | error e => rfl
  | ok bytes =>
    simp only [takeRead]
    split <;> rfl

/-- The fields of `BufReader` as the source has them. -/
structure ReaderFields where
  buf : Bytes
  pos : UInt64
  len : UInt64

namespace ReaderFields

/-- `BufReader::new`, once the memory is there. -/
def new (capacity : UInt64) : ReaderFields := ⟨List.replicate capacity.toNat 0, 0, 0⟩

/-- `&buf[lo..hi]`; nothing if it is out of range. -/
def range (buf : Bytes) (lo hi : UInt64) : Option Bytes :=
  if lo ≤ hi ∧ hi.toNat ≤ buf.length then some (slice buf lo.toNat hi.toNat) else none

def data (r : ReaderFields) : Option Bytes := range r.buf r.pos r.len

/-- `copy_within(pos..len, 0)`. -/
def moveToFront (r : ReaderFields) : Option Bytes := r.data.map fun bytes => store r.buf 0 bytes

def compact (r : ReaderFields) : Option ReaderFields :=
  if r.pos > 0 then r.moveToFront.map fun buf => ⟨buf, 0, r.len - r.pos⟩ else some r

/-- What `fill` does after the read. The third part of the result is no value of the source: the bytes
that the stream has handed over. -/
def takeRead (r : ReaderFields) {room : Nat} (x : StreamRead room) :
    Except Error UInt64 × ReaderFields × Bytes :=
  let buf := store r.buf r.len.toNat x.memory
  match x.result with
  | .error e => (.error e, { r with buf }, [])
  | .ok n =>
    if n = 0 then (.error Error.ECONNRESET, { r with buf }, [])
    else (.ok n, { r with buf, len := r.len + n }, x.memory.take n.toNat)

/-- `BufReader::fill` on a stream whose answer to the read is given. -/
def fill (r : ReaderFields) (read : (room : Nat) → StreamRead room) :
    Option (Except Error UInt64 × ReaderFields × Bytes) :=
  r.compact.map fun r =>
    if r.buf.length ≤ r.len.toNat then (.error Error.E2BIG, r, [])
    else r.takeRead (read (r.buf.length - r.len.toNat))

def consume (r : ReaderFields) (n : UInt64) : ReaderFields := { r with pos := r.pos + n }

def reset (r : ReaderFields) : Option ReaderFields :=
  if r.pos < r.len then r.moveToFront.map fun buf => ⟨buf, 0, r.len - r.pos⟩
  else some { r with pos := 0, len := 0 }

/-- The fields agree with a reader that keeps its invariant; the memory outside of the data may
differ. -/
structure Models (r : ReaderFields) (b : BufReader) : Prop where
  pos : r.pos.toNat = b.pos
  len : r.len.toNat = b.len
  capacity : r.buf.length = b.capacity
  bound : b.capacity < 2 ^ 64
  data : slice r.buf b.pos b.len = b.data

section

variable {r : ReaderFields} {b : BufReader}

theorem models_new (capacity : UInt64) : Models (new capacity) (BufReader.empty capacity.toNat) where
  pos := rfl
  len := rfl
  capacity := by rw [BufReader.empty_capacity, new, List.length_replicate]
  bound := by
    rw [BufReader.empty_capacity]
    exact capacity.toNat_lt
  data := rfl

theorem Models.data_eq (h : Models r b) : r.data = some b.data := by
  have hcap : b.buf.length = b.capacity := rfl
  have hpos := b.pos_le
  have hlen := b.len_le
  have hrange : r.pos ≤ r.len ∧ r.len.toNat ≤ r.buf.length := by
    rw [UInt64.le_iff_toNat_le, h.pos, h.len, h.capacity]
    omega
  rw [ReaderFields.data, range, if_pos hrange, h.pos, h.len, h.data]

theorem Models.sub_toNat (h : Models r b) : (r.len - r.pos).toNat = b.len - b.pos := by
  have hpos := b.pos_le
  have hle : r.pos ≤ r.len := by
    rw [UInt64.le_iff_toNat_le, h.pos, h.len]
    exact hpos
  rw [UInt64.toNat_sub_of_le _ _ hle, h.pos, h.len]

/-- The data is moved to the front of the memory. -/
theorem Models.compacted (h : Models r b) :
    r.moveToFront = some (store r.buf 0 b.data) ∧
      Models ⟨store r.buf 0 b.data, 0, r.len - r.pos⟩ b.compacted := by
  refine ⟨by rw [moveToFront, h.data_eq, Option.map_some], ?_⟩
  have hdata := b.length_data
  have hroom : 0 + b.data.length ≤ r.buf.length := by
    have hle := b.length_data_le
    rw [h.capacity]
    omega
  refine ⟨rfl, h.sub_toNat, ?_, ?_, ?_⟩
  · rw [length_store, h.capacity, b.compacted_capacity]
  · rw [b.compacted_capacity]
    exact h.bound
  · show slice (store r.buf 0 b.data) 0 (b.len - b.pos) = b.compacted.data
    have hself := slice_store_self (Nat.le_refl b.data.length) hroom
    rw [Nat.zero_add, List.take_length, hdata] at hself
    rw [hself, b.compacted_data]

theorem Models.compact (h : Models r b) : ∃ r', r.compact = some r' ∧ Models r' b.compact := by
  have hpos : r.pos > 0 ↔ 0 < b.pos := by
    rw [gt_iff_lt, UInt64.lt_iff_toNat_lt, h.pos]
    rfl
  rw [ReaderFields.compact, BufReader.compact]
  by_cases hmove : 0 < b.pos
  · obtain ⟨hfront, hmodels⟩ := h.compacted
    rw [if_pos (hpos.mpr hmove), if_pos hmove, hfront]
    exact ⟨_, rfl, hmodels⟩
  · rw [if_neg (fun hgt => hmove (hpos.mp hgt)), if_neg hmove]
    exact ⟨r, rfl, h⟩

theorem Models.reset (h : Models r b) : ∃ r', r.reset = some r' ∧ Models r' b.reset := by
  have hlt : r.pos < r.len ↔ b.pos < b.len := by rw [UInt64.lt_iff_toNat_lt, h.pos, h.len]
  rw [ReaderFields.reset, BufReader.reset]
  by_cases hmove : b.pos < b.len
  · obtain ⟨hfront, hmodels⟩ := h.compacted
    rw [if_pos (hlt.mpr hmove), if_pos hmove, hfront]
    exact ⟨_, rfl, hmodels⟩
  · rw [if_neg (fun hgt => hmove (hlt.mp hgt)), if_neg hmove]
    exact ⟨_, rfl, rfl, rfl, h.capacity, h.bound, rfl⟩

theorem Models.consume (h : Models r b) {n : UInt64} (hn : n.toNat ≤ b.data.length) :
    Models (r.consume n) (b.consume n.toNat hn) := by
  have hdata := b.length_data
  have hpos := b.pos_le
  have hlen := h.len
  have hbound := r.len.toNat_lt
  have hsum : (r.pos + n).toNat = b.pos + n.toNat := by
    rw [UInt64.toNat_add, h.pos, Nat.mod_eq_of_lt (by omega)]
  refine ⟨hsum, h.len, h.capacity, h.bound, ?_⟩
  rw [b.consume_data, ← h.data]
  show slice r.buf (b.pos + n.toNat) b.len = (slice r.buf b.pos b.len).drop n.toNat
  rw [slice, slice, List.drop_drop]

/-- What stands in the memory behind the data does not matter. -/
theorem Models.behind (h : Models r b) (memory : Bytes) :
    Models { r with buf := store r.buf r.len.toNat memory } b := by
  refine ⟨h.pos, h.len, ?_, h.bound, ?_⟩
  · rw [length_store]
    exact h.capacity
  · rw [h.len, slice_store_before (Nat.le_refl _), h.data]

theorem Models.push (h : Models r b) {memory : Bytes} {n : UInt64}
    (hmemory : memory.length = b.buf.length - b.len) (hn : n.toNat ≤ memory.length)
    (htake : (memory.take n.toNat).length ≤ b.buf.length - b.len) :
    Models { r with buf := store r.buf r.len.toNat memory, len := r.len + n }
      (b.push (memory.take n.toNat) htake) := by
  have hcap : r.buf.length = b.buf.length := h.capacity
  have hbound : b.buf.length < 2 ^ 64 := h.bound
  have hlen := b.len_le
  have hcount : (memory.take n.toNat).length = n.toNat := List.length_take_of_le hn
  have hsum : (r.len + n).toNat = b.len + n.toNat := by
    rw [UInt64.toNat_add, h.len, Nat.mod_eq_of_lt (by omega)]
  have hend : (b.push (memory.take n.toNat) htake).len = b.len + n.toNat :=
    congrArg (b.len + ·) hcount
  refine ⟨h.pos, hsum.trans hend.symm, ?_, ?_, ?_⟩
  · rw [length_store, b.push_capacity, hcap]
    rfl
  · rw [b.push_capacity]
    exact h.bound
  · rw [hend, b.push_data, ← h.data, h.len]
    show slice (store r.buf b.len memory) b.pos (b.len + n.toNat) = _
    rw [← slice_append b.pos_le (Nat.le_add_right _ _), slice_store_before (Nat.le_refl _),
      slice_store_self hn (by omega)]

/-- After the read, the fields model the reader with what the stream handed over pushed. -/
theorem Models.takeRead (h : Models r b) (x : StreamRead (b.buf.length - b.len)) :
    ∃ result r' got b', r.takeRead x = (result, r', got) ∧ Models r' b' ∧
      b'.data = b.data ++ got ∧ b'.capacity = b.capacity ∧
      (result = .error Error.E2BIG ↔ x.result = .error Error.E2BIG) ∧
      b.takeRead x.reply = (result.map UInt64.toNat, b') := by
  have hlength := x.memory_length
  cases hresult : x.result with
  | error e =>
    have hreply : x.reply = .error e := by simp only [StreamRead.reply, hresult]
    rw [ReaderFields.takeRead, hresult, hreply]
    refine ⟨_, _, _, b, rfl, h.behind x.memory, (List.append_nil _).symm, rfl, ?_, rfl⟩
    simp only [Except.error.injEq]
  | ok n =>
    have hle : n.toNat ≤ x.memory.length := hlength.symm ▸ x.count_le n hresult
    have htake : (x.memory.take n.toNat).length ≤ b.buf.length - b.len := by
      rw [List.length_take]
      omega
    have hreply : x.reply = .ok ⟨x.memory.take n.toNat, htake⟩ := by
      simp only [StreamRead.reply, hresult]
    have hreset : Error.ECONNRESET ≠ Error.E2BIG := by decide
    rw [ReaderFields.takeRead, hresult, hreply]
    by_cases hzero : n = 0
    · have hnone : x.memory.take n.toNat = [] := by
        rw [hzero]
        rfl
      refine ⟨.error Error.ECONNRESET, _, _, b, by simp only [if_pos hzero], h.behind x.memory,
        (List.append_nil _).symm, rfl, ?_, ?_⟩
      · simp only [Except.error.injEq, hreset, reduceCtorEq]
      · rw [BufReader.takeRead, if_pos hnone]
        rfl
    · have hpos : 0 < n.toNat := Nat.pos_of_ne_zero fun h0 => hzero (UInt64.toNat_inj.mp h0)
      have hsome : x.memory.take n.toNat ≠ [] := by
        rw [← List.length_pos_iff, List.length_take_of_le hle]
        exact hpos
      refine ⟨.ok n, _, _, b.push (x.memory.take n.toNat) htake, by simp only [if_neg hzero],
        h.push hlength hle htake, b.push_data _ _, b.push_capacity _ _, ?_, ?_⟩
      · simp only [reduceCtorEq]
      · rw [BufReader.takeRead, if_neg hsome, List.length_take_of_le hle]
        rfl

/-- `fill` does the same to the fields and to the reader with its invariant, and the data grows by what
the stream handed over, whatever the result. -/
theorem Models.fill (h : Models r b) (read : (room : Nat) → StreamRead room) :
    ∃ result r' got b', r.fill read = some (result, r', got) ∧ Models r' b' ∧
      b'.data = b.data ++ got ∧ b'.capacity = b.capacity ∧
      (result = .error Error.E2BIG ↔ b.data.length = b.capacity ∨ b.data.length < b.capacity ∧
        (read (b.capacity - b.data.length)).result = .error Error.E2BIG) ∧
      ∀ env hist, (∀ room, env hist (.read room) = (read room).reply) →
        (b.fill.run env hist).1 = .done (result.map UInt64.toNat, b') := by
  obtain ⟨c, hc, hmodels⟩ := h.compact
  have hcap := b.compact_capacity
  have hlen := b.compact_len
  have hdata := b.compact_data
  have hle := b.length_data_le
  have hroom := b.room_eq
  have hbuf : c.buf.length = b.compact.buf.length := hmodels.capacity
  have hsize : b.compact.buf.length = b.compact.capacity := rfl
  rw [ReaderFields.fill, hc, Option.map_some, hmodels.len, hbuf]
  by_cases hfull : b.compact.buf.length ≤ b.compact.len
  · rw [if_pos hfull]
    refine ⟨_, _, _, b.compact, rfl, hmodels, ?_, hcap, ?_, ?_⟩
    · rw [hdata, List.append_nil]
    · exact iff_of_true rfl (Or.inl (by omega))
    · intro env hist _
      exact BufReader.fill_run_full hfull env hist
  · rw [if_neg hfull]
    obtain ⟨result, r', got, b', hread, hmodels', hgot, hcap', hbig, hafter⟩ :=
      hmodels.takeRead (read _)
    refine ⟨result, r', got, b', congrArg some hread, hmodels', ?_, ?_, ?_, ?_⟩
    · rw [hgot, hdata]
    · rw [hcap', hcap]
    · rw [hbig, hroom]
      constructor
      · intro he
        exact Or.inr ⟨by omega, he⟩
      · rintro (heq | ⟨-, he⟩)
        · omega
        · exact he
    · intro env hist hanswer
      rw [BufReader.fill_run_room hfull, hanswer, hafter]

end

end ReaderFields

/-- A reader with what happened to it: the bytes received from the stream and how many of them are
consumed. -/
structure ReaderTrace where
  reader : ReaderFields
  received : Bytes
  consumed : Nat

inductive ReaderOp
  | fill (read : (room : Nat) → StreamRead room)
  | consume (n : UInt64)
  | reset

namespace ReaderTrace

def start (capacity : UInt64) : ReaderTrace := ⟨ReaderFields.new capacity, [], 0⟩

/-- One call on the reader; nothing if it panics. -/
def step (t : ReaderTrace) : ReaderOp → Option ReaderTrace
  | .fill read => (t.reader.fill read).map fun r => ⟨r.2.1, t.received ++ r.2.2, t.consumed⟩
  | .consume n => some ⟨t.reader.consume n, t.received, t.consumed + n.toNat⟩
  | .reset => t.reader.reset.map fun r => { t with reader := r }

/-- No more is consumed than the data has. -/
def allowed (t : ReaderTrace) : ReaderOp → Bool
  | .consume n => n.toNat ≤ (t.reader.data.getD []).length
  | _ => true

/-- The fields model a reader whose data is what was received and not consumed. -/
structure Tracks (capacity : UInt64) (t : ReaderTrace) (b : BufReader) : Prop where
  models : t.reader.Models b
  capacity : b.capacity = capacity.toNat
  consumed : t.consumed ≤ t.received.length
  data : b.data = t.received.drop t.consumed

section

variable {capacity : UInt64} {t : ReaderTrace} {b : BufReader}

theorem tracks_start (capacity : UInt64) :
    Tracks capacity (start capacity) (BufReader.empty capacity.toNat) :=
  ⟨ReaderFields.models_new capacity, BufReader.empty_capacity _, Nat.le_refl 0, rfl⟩

theorem Tracks.step (h : Tracks capacity t b) {op : ReaderOp} (hop : t.allowed op = true) :
    ∃ t', t.step op = some t' ∧ ∃ b', Tracks capacity t' b' := by
  cases op with
  | fill read =>
    obtain ⟨result, r', got, b', hfill, hmodels, hdata, hcap, -⟩ := h.models.fill read
    refine ⟨⟨r', t.received ++ got, t.consumed⟩, ?_, b', hmodels, hcap.trans h.capacity, ?_, ?_⟩
    · rw [ReaderTrace.step, hfill, Option.map_some]
    · have hle := h.consumed
      show t.consumed ≤ (t.received ++ got).length
      rw [List.length_append]
      omega
    · show b'.data = (t.received ++ got).drop t.consumed
      rw [hdata, h.data, List.drop_append_of_le_length h.consumed]
  | consume n =>
    have hn : n.toNat ≤ b.data.length := by
      have hle := of_decide_eq_true hop
      rw [h.models.data_eq, Option.getD_some] at hle
      exact hle
    refine ⟨_, rfl, b.consume n.toNat hn, h.models.consume hn, h.capacity, ?_, ?_⟩
    · have hle := h.consumed
      rw [h.data, List.length_drop] at hn
      show t.consumed + n.toNat ≤ t.received.length
      omega
    · show (b.consume n.toNat hn).data = t.received.drop (t.consumed + n.toNat)
      rw [b.consume_data, h.data, List.drop_drop]
  | reset =>
    obtain ⟨r', hreset, hmodels⟩ := h.models.reset
    refine ⟨{ t with reader := r' }, ?_, b.reset, hmodels, ?_, h.consumed, ?_⟩
    · rw [ReaderTrace.step, hreset, Option.map_some]
    · rw [b.reset_capacity, h.capacity]
    · rw [b.reset_data, h.data]

end

/-- A reader is a queue of bytes: after any calls, its fields are in order and its data is what was
received and not consumed. A further `fill` returns `E2BIG` exactly if the data takes up the whole
capacity, or the stream itself fails with that error. -/
theorem reader_queue (capacity : UInt64) {ops : List ReaderOp}
    (hops : Guarded step (fun t op => t.allowed op = true) (start capacity) ops) :
    ∃ t, run step (start capacity) ops = some t ∧
      t.reader.pos ≤ t.reader.len ∧ t.reader.len ≤ capacity ∧
      t.reader.buf.length = capacity.toNat ∧ t.consumed ≤ t.received.length ∧
      t.reader.data = some (t.received.drop t.consumed) ∧
      ∀ read, ∃ result r' got, t.reader.fill read = some (result, r', got) ∧
        (result = .error Error.E2BIG ↔
          (t.received.drop t.consumed).length = capacity.toNat ∨
            (t.received.drop t.consumed).length < capacity.toNat ∧
            (read (capacity.toNat - (t.received.drop t.consumed).length)).result =
              .error Error.E2BIG) := by
  obtain ⟨t, hrun, b, htracks⟩ := run_total (I := fun t => ∃ b, Tracks capacity t b)
    (fun ⟨_, h⟩ hop => h.step hop) ⟨_, tracks_start capacity⟩ hops
  have hmodels := htracks.models
  have hpos := b.pos_le
  have hlen : b.len ≤ b.capacity := b.len_le
  refine ⟨t, hrun, ?_, ?_, ?_, htracks.consumed, ?_, ?_⟩
  · rw [UInt64.le_iff_toNat_le, hmodels.pos, hmodels.len]
    exact hpos
  · rw [UInt64.le_iff_toNat_le, hmodels.len, ← htracks.capacity]
    exact hlen
  · rw [hmodels.capacity, htracks.capacity]
  · rw [hmodels.data_eq, htracks.data]
  · intro read
    obtain ⟨result, r', got, b', hfill, -, -, -, hbig, -⟩ := hmodels.fill read
    rw [htracks.data, htracks.capacity] at hbig
    exact ⟨result, r', got, hfill, hbig⟩

/-- Four bytes are left of seven, after one failed read and two moves to the front. -/
theorem reader_queue_of_four :
    ∃ t, run step (start 4) [.fill (.offering [1, 2, 3]), .consume 2, .fill (.failing Error.EIO),
        .fill (.offering [4, 5, 6, 7]), .consume 1, .reset, .fill (.offering [7])] = some t ∧
      t.received = [1, 2, 3, 4, 5, 6, 7] ∧ t.reader.data = some [4, 5, 6, 7] := by
  have hops : Guarded step (fun t op => t.allowed op = true) (start 4)
      [.fill (.offering [1, 2, 3]), .consume 2, .fill (.failing Error.EIO),
        .fill (.offering [4, 5, 6, 7]), .consume 1, .reset, .fill (.offering [7])] := by decide
  obtain ⟨t, hrun, -, -, -, -, hdata, -⟩ := reader_queue 4 hops
  cases Option.some.inj hrun
  exact ⟨_, rfl, rfl, hdata⟩

/-- An empty reader of four bytes returns `E2BIG` when the stream fails with it. -/
theorem fill_passes_on_E2BIG :
    ∃ t r', run step (start 4) [] = some t ∧ t.reader.data = some [] ∧ t.reader.buf.length = 4 ∧
      t.reader.fill (.failing Error.E2BIG) = some (.error Error.E2BIG, r', []) :=
  ⟨_, _, rfl, rfl, rfl, rfl⟩

end ReaderTrace

end Rko
