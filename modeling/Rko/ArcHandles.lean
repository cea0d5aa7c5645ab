import Rko.Errno
import Rko.GuardedRun
import Rko.ReferenceCount

namespace Rko

open GuardedRun ReferenceCount

structure Refcount where
  refs : CInt
deriving DecidableEq, Repr

namespace Refcount

/-- `fetch_add` wraps round, and the `debug_assert!` on the old value is not in a release build. -/
def inc (r : Refcount) : Refcount := ⟨r.refs + 1⟩

/-- Whether the count reached zero, and the count that `fetch_sub` leaves. -/
def decAndTest (r : Refcount) : Bool × Refcount := (r.refs = 1, ⟨r.refs - 1⟩)

end Refcount

/-- One allocation with the handles on it: `live` values of type `Arc`, `raw` pointers from
`into_raw`, and `forgotten` values whose destructor never runs. `freeing` counts the drops that saw
the count reach zero and have not freed the object yet, and `freed` those that have. The count is
used whether or not the object is still there. -/
structure ArcInner where
  refcount : Refcount
  live : Nat
  raw : Nat
  forgotten : Nat
  freeing : Nat
  freed : Nat
deriving DecidableEq, Repr

/-- `borrow` makes an `Arc` from the `ArcBorrow` of an `Arc` or of a raw pointer. Dropping an `Arc`
takes two steps, of which only the one that saw the count reach zero takes the second. -/
inductive ArcOp
  | clone
  | borrow
  | drop
  | free
  | intoRaw
  | fromRaw
  | forget
deriving DecidableEq, Repr

namespace ArcInner

def new : ArcInner := ⟨⟨1⟩, 1, 0, 0, 0, 0⟩

def clone (s : ArcInner) : ArcInner := { s with refcount := s.refcount.inc, live := s.live + 1 }

def drop (s : ArcInner) : ArcInner :=
  { s with
    refcount := s.refcount.decAndTest.2
    live := s.live - 1
    freeing := if s.refcount.decAndTest.1 then s.freeing + 1 else s.freeing }

def free (s : ArcInner) : ArcInner := { s with freeing := s.freeing - 1, freed := s.freed + 1 }

def intoRaw (s : ArcInner) : ArcInner := { s with live := s.live - 1, raw := s.raw + 1 }

def fromRaw (s : ArcInner) : ArcInner := { s with raw := s.raw - 1, live := s.live + 1 }

def forget (s : ArcInner) : ArcInner := { s with live := s.live - 1, forgotten := s.forgotten + 1 }

/-- An operation is possible while there is a handle for it to act on. -/
def step (s : ArcInner) : ArcOp → Option ArcInner
  | .clone => if 0 < s.live then some s.clone else none
  | .borrow => if 0 < s.live + s.raw then some s.clone else none
  | .drop => if 0 < s.live then some s.drop else none
  | .free => if 0 < s.freeing then some s.free else none
  | .intoRaw => if 0 < s.live then some s.intoRaw else none
  | .fromRaw => if 0 < s.raw then some s.fromRaw else none
  | .forget => if 0 < s.live then some s.forget else none

def owners (s : ArcInner) : Nat := s.live + s.raw

/-- What the count is meant to count. A forgotten `Arc` owns nothing any more, and its reference is
never given back. -/
def references (s : ArcInner) : Nat := s.owners + s.forgotten

/-- A step that takes a reference does not make the count overflow to zero. -/
def roomFor (s : ArcInner) : ArcOp → Bool
  | .clone => s.refcount.refs != -1
  | .borrow => s.refcount.refs != -1
  | _ => true

/-- The count is the number of references, and the object is freed, or about to be, exactly when
there is none. -/
def Counted (s : ArcInner) : Prop :=
  Counts s.refcount.refs s.references (s.freeing + s.freed)

section Steps

variable {s s' : ArcInner} {op : ArcOp}

theorem Counted.new : Counted ArcInner.new := ⟨rfl, by decide, rfl⟩

/-- Handles that only change their kind. -/
theorem Counted.of_references (h : s.Counted) (hrefs : s'.refcount = s.refcount)
    (hsame : s'.references = s.references)
    (hfrees : s'.freeing + s'.freed = s.freeing + s.freed) : s'.Counted := by
  rw [Counted, hrefs, hsame, hfrees]
  exact h

theorem Counted.clone (h : s.Counted) (howned : 0 < s.owners) (hroom : s.refcount.refs ≠ -1) :
    s.clone.Counted := by
  have hnext : s.clone.references = s.references + 1 := by
    simp only [references, owners, ArcInner.clone]
    omega
  have hpos : 0 < s.references := Nat.add_pos_left howned _
  have hbound : s.references + 1 < 2 ^ 32 := by
    refine Nat.lt_of_le_of_ne h.bound fun hlast => hroom ?_
    have hmax : s.references = 2 ^ 32 - 1 := by omega
    rw [h.count_eq, hmax]
    decide
  rw [Counted, hnext]
  exact h.inc hpos hbound

theorem Counted.drop (h : s.Counted) (hlive : 0 < s.live) : s.drop.Counted := by
  have hnext : s.references = s.drop.references + 1 := by
    simp only [references, owners, ArcInner.drop]
    omega
  have hdec : Counts (s.refcount.refs - 1) s.drop.references
      (if s.refcount.refs = 1 then s.freeing + s.freed + 1 else s.freeing + s.freed) := by
    rw [Counted, hnext] at h
    exact h.dec (by decide)
  have hfrees : s.drop.freeing + s.drop.freed =
      if s.refcount.refs = 1 then s.freeing + s.freed + 1 else s.freeing + s.freed := by
    simp only [ArcInner.drop, Refcount.decAndTest, decide_eq_true_eq]
    split <;> omega
  rw [Counted, hfrees]
  exact hdec

theorem Counted.step (h : s.Counted) (hroom : s.roomFor op = true) (hstep : s.step op = some s') :
    s'.Counted := by
  cases op with
  | clone =>
    obtain ⟨hlive, ⟨⟩⟩ := Option.ite_none_right_eq_some.mp hstep
    exact h.clone (Nat.add_pos_left hlive _) (bne_iff_ne.mp hroom)
  | borrow =>
    obtain ⟨howned, ⟨⟩⟩ := Option.ite_none_right_eq_some.mp hstep
    exact h.clone howned (bne_iff_ne.mp hroom)
  | drop =>
    obtain ⟨hlive, ⟨⟩⟩ := Option.ite_none_right_eq_some.mp hstep
    exact h.drop hlive
  | free =>
    obtain ⟨hfreeing, ⟨⟩⟩ := Option.ite_none_right_eq_some.mp hstep
    exact h.of_references rfl rfl (by simp only [free]; omega)
  | intoRaw =>
    obtain ⟨hlive, ⟨⟩⟩ := Option.ite_none_right_eq_some.mp hstep
    exact h.of_references rfl (by simp only [references, owners, intoRaw]; omega) rfl
  | fromRaw =>
    obtain ⟨hraw, ⟨⟩⟩ := Option.ite_none_right_eq_some.mp hstep
    exact h.of_references rfl (by simp only [references, owners, fromRaw]; omega) rfl
  | forget =>
    obtain ⟨hlive, ⟨⟩⟩ := Option.ite_none_right_eq_some.mp hstep
    exact h.of_references rfl (by simp only [references, owners, forget]; omega) rfl

end Steps

/-- If no clone makes the count overflow to zero, the object is freed at most once, and not while
an `Arc` or a raw pointer owns it. -/
theorem freed_only_unowned {ops : List ArcOp} {s : ArcInner}
    (hguard : Guarded step (fun s op => s.roomFor op = true) ArcInner.new ops)
    (hrun : run step ArcInner.new ops = some s) :
    s.freeing + s.freed ≤ 1 ∧ (s.freeing + s.freed = 1 → s.live = 0 ∧ s.raw = 0) ∧
      (s.references = 0 → s.freeing + s.freed = 1) := by
  have h : s.Counted :=
    run_invariant (fun hs hroom hstep => hs.step hroom hstep) Counted.new hguard hrun
  have hfrees := h.frees_eq
  by_cases hnone : s.references = 0
  · rw [if_pos hnone] at hfrees
    have howners : s.live + s.raw + s.forgotten = 0 := hnone
    exact ⟨by omega, fun _ => by omega, fun _ => hfrees⟩
  · rw [if_neg hnone] at hfrees
    exact ⟨by omega, fun hone => by omega, fun hzero => absurd hzero hnone⟩

theorem freed_only_unowned_after_raw :
    ∃ s, run step ArcInner.new [.clone, .intoRaw, .drop, .fromRaw, .drop, .free] = some s ∧
      s.freed = 1 ∧ s.freeing + s.freed ≤ 1 ∧
      (s.freeing + s.freed = 1 → s.live = 0 ∧ s.raw = 0) ∧
      (s.references = 0 → s.freeing + s.freed = 1) := by
  have hguard : Guarded step (fun s op => s.roomFor op = true) ArcInner.new
      [.clone, .intoRaw, .drop, .fromRaw, .drop, .free] := by decide
  exact ⟨_, rfl, rfl, freed_only_unowned hguard rfl⟩

/-- An `Arc` is cloned `n` times, and each clone becomes a raw pointer. -/
def shareRaw : Nat → List ArcOp
  | 0 => []
  | n + 1 => shareRaw n ++ [.clone, .intoRaw]

theorem run_shareRaw (n : Nat) :
    run step ArcInner.new (shareRaw n) = some ⟨⟨1 + BitVec.ofNat 32 n⟩, 1, n, 0, 0, 0⟩ := by
  induction n with
  | zero => rfl
  | succ n ih =>
    have hcount : 1 + BitVec.ofNat 32 (n + 1) = 1 + BitVec.ofNat 32 n + 1 := by
      rw [BitVec.ofNat_add, BitVec.add_assoc]
      rfl
    rw [shareRaw, run_append, ih, hcount]
    rfl

/-- The count comes back to 1 after 2 ^ 32 clones, and dropping one `Arc` frees the object under
all the pointers. -/
theorem freed_under_raw_pointers :
    ∃ s, run step ArcInner.new (shareRaw (2 ^ 32) ++ [.drop, .free]) = some s ∧
      s.freed = 1 ∧ s.raw = 2 ^ 32 := by
  have hcount : (1 : CInt) + BitVec.ofNat 32 (2 ^ 32) = 1 := by decide
  rw [run_append, run_shareRaw, hcount]
  exact ⟨_, rfl, rfl, rfl⟩

end ArcInner

end Rko
