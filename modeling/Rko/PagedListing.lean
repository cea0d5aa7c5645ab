import Mathlib.Tactic.Ring

namespace PagedListing

variable {π ε : Type}

/-- What a reader would list from a position if it had room for everything: the entries, each with
the position at which the next call resumes when this entry was its last one, and whether the scan
comes to its end without an error. -/
structure Scan (π ε : Type) where
  entries : List (ε × π)
  complete : Bool
deriving DecidableEq, Repr

def Scan.listed (scan : Scan π ε) : List ε := scan.entries.map Prod.fst

/-- A call with room for `room` entries: what it lists, and where the next one resumes. -/
def Scan.call (scan : Scan π ε) (p : π) (room : Nat) : Option (List ε × π) :=
  if scan.entries.length ≤ room ∧ scan.complete = false then none
  else some (scan.listed.take room,
    ((scan.entries.take room).getLast?.map Prod.snd).getD p)

/-- Calls in turn, each from where the one before stopped, up to the first that lists nothing. -/
inductive Lists (call : π → Nat → Option (List ε × π)) : (Nat → Nat) → π → List ε → Prop
  | last {rooms : Nat → Nat} {p p' : π} (h : call p (rooms 0) = some ([], p')) :
    Lists call rooms p []
  | next {rooms : Nat → Nat} {p p' : π} {es rest : List ε}
    (h : call p (rooms 0) = some (es, p')) (hne : es ≠ [])
    (hrest : Lists call (fun i => rooms (i + 1)) p' rest) : Lists call rooms p (es ++ rest)

/-- The positions at which a call may resume, with the number of entries listed before. -/
inductive ResumePoint (scan : π → Scan π ε) (start : π) : Nat → π → Prop
  | start : ResumePoint scan start 0 start
  | next {k m : Nat} {p p' : π} {e : ε} (h : ResumePoint scan start k p)
    (he : (scan p).entries[m]? = some (e, p')) : ResumePoint scan start (k + m + 1) p'

/-- A scan lists a part of what is left, from its start on, and something if there is something. -/
structure Continues (scan : Scan π ε) (left : List ε) : Prop where
  complete : scan.complete = true
  listed : scan.listed <+: left
  more : left ≠ [] → scan.entries ≠ []

/-- The calls of a reader are those of its scans, at the positions that can come up. -/
structure Serves (call : π → Nat → Option (List ε × π)) (scan : π → Scan π ε) (valid : π → Prop) :
    Prop where
  call_eq : ∀ {p : π}, valid p → ∀ {room : Nat}, 0 < room → call p room = (scan p).call p room
  closed : ∀ {p p' : π} {e : ε}, valid p → (e, p') ∈ (scan p).entries → valid p'

theorem ResumePoint.valid {call : π → Nat → Option (List ε × π)} {scan : π → Scan π ε}
    {valid : π → Prop} {start p : π} {k : Nat} (hs : Serves call scan valid)
    (hstart : valid start) (h : ResumePoint scan start k p) : valid p := by
  induction h with
  | start => exact hstart
  | next _ he ih => exact hs.closed ih (List.mem_of_getElem? he)

/-- A call that stops after the entry `m` resumes at the position recorded with it. -/
theorem Scan.call_at {scan : Scan π ε} {p p' : π} {e : ε} {m room : Nat}
    (hcomplete : scan.complete = true) (he : scan.entries[m]? = some (e, p'))
    (hm : m + 1 = min room scan.entries.length) :
    scan.call p room = some (scan.listed.take (m + 1), p') := by
  have hlast : (scan.entries.take room).getLast? = some (e, p') := by
    rw [List.getLast?_eq_getElem?, List.length_take, ← hm, List.getElem?_take]
    have hroom : m < room := by omega
    simpa [hroom] using he
  have htake : scan.listed.take room = scan.listed.take (m + 1) := by
    have hlen : scan.listed.length = scan.entries.length := by simp [Scan.listed]
    rw [hm, ← hlen, List.take_eq_take_min]
  simp [Scan.call, hcomplete, hlast, htake]

theorem Scan.call_nil {scan : Scan π ε} {p : π} {room : Nat} (hcomplete : scan.complete = true)
    (hnil : scan.entries = []) : scan.call p room = some ([], p) := by
  simp [Scan.call, Scan.listed, hcomplete, hnil]

variable {call : π → Nat → Option (List ε × π)} {scan : π → Scan π ε} {valid : π → Prop}

/-- Whatever the rooms of the calls from `p` on, they list exactly `left`. -/
def Exact (call : π → Nat → Option (List ε × π)) (p : π) (left : List ε) : Prop :=
  ∀ rooms : Nat → Nat, (∀ i, 0 < rooms i) → Lists call rooms p left

theorem Lists.first_call {rooms : Nat → Nat} {p : π} {left : List ε}
    (h : Lists call rooms p left) :
    ∃ es p', call p (rooms 0) = some (es, p') ∧ (es = [] → left = []) ∧
      (es ≠ [] → ∃ rest, left = es ++ rest ∧ Lists call (fun i => rooms (i + 1)) p' rest) := by
  cases h with
  | last hcall => exact ⟨[], _, hcall, fun _ => rfl, fun hne => absurd rfl hne⟩
  | next hcall hne hrest =>
    exact ⟨_, _, hcall, fun hnil => absurd hnil hne, fun _ => ⟨_, rfl, hrest⟩⟩

theorem Exact.continues {p : π} {left : List ε} (hs : Serves call scan valid) (hp : valid p)
    (hexact : Exact call p left) : Continues (scan p) left := by
  have hroom : 0 < (scan p).entries.length + 1 := by omega
  obtain ⟨es, p', hcall, hnil, hcons⟩ :=
    (hexact (fun _ => (scan p).entries.length + 1) (fun _ => hroom)).first_call
  have hall : (scan p).listed.take ((scan p).entries.length + 1) = (scan p).listed := by
    apply List.take_of_length_le
    simp [Scan.listed]
  rw [hs.call_eq hp hroom, Scan.call, hall] at hcall
  obtain ⟨hcomplete, hes⟩ := Option.ite_none_left_eq_some.mp hcall
  obtain ⟨rfl, -⟩ := Prod.mk.inj (Option.some.inj hes)
  refine ⟨by simpa using hcomplete, ?_, fun hne hentries => hne (hnil ?_)⟩
  · rcases eq_or_ne (scan p).listed [] with hempty | hne
    · simp [hempty]
    · obtain ⟨rest, rfl, -⟩ := hcons hne
      exact List.prefix_append _ _
  · simp [Scan.listed, hentries]

theorem Exact.next {p p' : π} {e : ε} {left : List ε} {m : Nat} (hs : Serves call scan valid)
    (hp : valid p) (hexact : Exact call p left) (he : (scan p).entries[m]? = some (e, p')) :
    Exact call p' (left.drop (m + 1)) := by
  intro rooms hrooms
  obtain ⟨hm, -⟩ := List.getElem?_eq_some_iff.mp he
  have hlen : ((scan p).listed.take (m + 1)).length = m + 1 := by
    simp only [Scan.listed, List.length_take, List.length_map]
    omega
  have hcall : call p (m + 1) = some ((scan p).listed.take (m + 1), p') := by
    rw [hs.call_eq hp (Nat.succ_pos m)]
    exact Scan.call_at (hexact.continues hs hp).complete he (by omega)
  obtain ⟨es, q, hes, -, hcons⟩ := (hexact (fun i => Nat.casesOn i (m + 1) rooms) (by
    intro i
    cases i with
    | zero => exact Nat.succ_pos m
    | succ i => exact hrooms i)).first_call
  obtain ⟨rfl, rfl⟩ := Prod.mk.inj (Option.some.inj (hcall.symm.trans hes))
  obtain ⟨rest, rfl, hrest⟩ := hcons (List.ne_nil_of_length_pos (by omega))
  rw [List.drop_left' hlen]
  exact hrest

theorem Exact.resume {start p : π} {all : List ε} {k : Nat} (hs : Serves call scan valid)
    (hstart : valid start) (hexact : Exact call start all) (h : ResumePoint scan start k p) :
    Exact call p (all.drop k) := by
  induction h with
  | start => exact hexact
  | next h he ih =>
    have hnext := ih.next hs (h.valid hs hstart) he
    rwa [List.drop_drop] at hnext

/-- A call at a resume point that goes on with what is left lists a first part of it and stops at
the resume point after that part. -/
theorem Continues.next_call {start p : π} {all : List ε} {k room : Nat} (hs : Serves call scan valid)
    (hp : valid p) (h : ResumePoint scan start k p) (hleft : Continues (scan p) (all.drop k))
    (hne : all.drop k ≠ []) (hroom : 0 < room) :
    ∃ m p', call p room = some ((all.drop k).take (m + 1), p') ∧
      ResumePoint scan start (k + m + 1) p' := by
  have hpos : 0 < (scan p).entries.length := List.length_pos_iff.mpr (hleft.more hne)
  obtain ⟨m, hm⟩ : ∃ m, m + 1 = min room (scan p).entries.length :=
    ⟨min room (scan p).entries.length - 1, by omega⟩
  obtain ⟨⟨e, p'⟩, he⟩ : ∃ x, (scan p).entries[m]? = some x :=
    ⟨_, List.getElem?_eq_getElem (by omega)⟩
  refine ⟨m, p', ?_, h.next he⟩
  have hlen : (scan p).listed.length = (scan p).entries.length := by simp [Scan.listed]
  rw [hs.call_eq hp hroom, Scan.call_at hleft.complete he hm]
  obtain ⟨rest, hrest⟩ := hleft.listed
  rw [← hrest, List.take_append_of_le_length (by omega)]

theorem lists_of_continues {start : π} {all : List ε} (hs : Serves call scan valid)
    (hstart : valid start)
    (hall : ∀ k p, ResumePoint scan start k p → Continues (scan p) (all.drop k)) :
    ∀ (n k : Nat) (p : π), (all.drop k).length ≤ n → ResumePoint scan start k p →
      Exact call p (all.drop k) := by
  -- every call takes at least one entry off what is left, so its length bounds the calls
  intro n
  induction n with
  | zero =>
    intro k p hn h rooms hrooms
    have hnil : all.drop k = [] := List.length_eq_zero_iff.mp (by omega)
    have hleft := hall k p h
    have hentries : (scan p).entries = [] := by
      have hlisted := hleft.listed
      rw [hnil, List.prefix_nil, Scan.listed, List.map_eq_nil_iff] at hlisted
      exact hlisted
    rw [hnil]
    apply Lists.last
    rw [hs.call_eq (h.valid hs hstart) (hrooms 0), Scan.call_nil hleft.complete hentries]
  | succ n ih =>
    intro k p hn h rooms hrooms
    rcases eq_or_ne (all.drop k) [] with hnil | hne
    · exact ih k p (by simp [hnil]) h rooms hrooms
    · obtain ⟨m, p', hcall, hnext⟩ :=
        (hall k p h).next_call hs (h.valid hs hstart) h hne (hrooms 0)
      have hrest := ih (k + m + 1) p' (by
        rw [List.length_drop] at hn ⊢
        omega) hnext (fun i => rooms (i + 1)) (fun i => hrooms (i + 1))
      have hsplit := List.take_append_drop (m + 1) (all.drop k)
      rw [List.drop_drop] at hsplit
      rw [← hsplit]
      refine .next hcall (fun hnil => ?_) hrest
      have hpos := List.length_pos_iff.mpr hne
      have hlen := congrArg List.length hnil
      rw [List.length_take, List.length_nil] at hlen
      omega

/-- The calls list exactly `all` for every choice of rooms iff the scan from every resume point goes
on with what was not yet listed. -/
theorem exact_iff_continues {start : π} {all : List ε} (hs : Serves call scan valid)
    (hstart : valid start) :
    Exact call start all ↔
      ∀ k p, ResumePoint scan start k p → Continues (scan p) (all.drop k) := by
  constructor
  · intro hexact k p h
    exact (hexact.resume hs hstart h).continues hs (h.valid hs hstart)
  · intro hall
    exact lists_of_continues hs hstart hall all.length 0 start (by simp) .start

end PagedListing
