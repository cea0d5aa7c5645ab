import Mathlib.Tactic.Ring

namespace Rko

/-- The destructor that a `MaybeUninit` runs for what was written to it: none. -/
def MaybeUninit.destroyed {α : Type} (_ : Option α) : List α := []

/-- What a half of a channel still has to do with the shared `Inner`. -/
inductive HalfLife
  | live | freeing | done
deriving DecidableEq, Repr

namespace HalfLife

def refs : HalfLife → Nat
  | live => 1
  | _ => 0

/-- Where `dec_ref` goes on to after its `fetch_sub` found this count. -/
def afterDecRef (refcount : UInt8) : HalfLife := if refcount = 1 then .freeing else .done

end HalfLife

/-- Two halves share an allocation: each live one holds a reference, the last one to let go frees
it, and it is freed once and for all when both are done. -/
structure TwoOwners (refcount : UInt8) (freed : Nat) (a b : HalfLife) : Prop where
  count : refcount.toNat = a.refs + b.refs
  freeing : a = .freeing → b = .done
  freeing' : b = .freeing → a = .done
  freed : freed = if a = .done ∧ b = .done then 1 else 0

namespace TwoOwners

variable {refcount : UInt8} {freed : Nat} {a b : HalfLife}

theorem new : TwoOwners 2 0 .live .live := ⟨rfl, nofun, nofun, rfl⟩

theorem symm (h : TwoOwners refcount freed a b) : TwoOwners refcount freed b a :=
  ⟨h.count.trans (Nat.add_comm _ _), h.freeing', h.freeing, h.freed.trans (if_congr and_comm rfl rfl)⟩

theorem decRef (h : TwoOwners refcount freed .live b) :
    TwoOwners (refcount - 1) freed (.afterDecRef refcount) b := by
  have hcount := h.count
  have hfreed := h.freed
  cases b with
  | live =>
    have htwo : refcount = 2 := UInt8.toNat_inj.mp hcount
    subst htwo
    exact ⟨rfl, nofun, nofun, hfreed⟩
  | freeing => exact absurd (h.freeing' rfl) (by decide)
  | done =>
    have hone : refcount = 1 := UInt8.toNat_inj.mp hcount
    subst hone
    exact ⟨rfl, fun _ => rfl, nofun, hfreed⟩

theorem free (h : TwoOwners refcount freed .freeing b) : TwoOwners refcount (freed + 1) .done b := by
  have hcount := h.count
  have hfreed := h.freed
  have hb := h.freeing rfl
  subst hb
  exact ⟨hcount, nofun, nofun, by simpa using hfreed⟩

theorem freed_le_one (h : TwoOwners refcount freed a b) : freed ≤ 1 := by
  have hfreed := h.freed
  split at hfreed <;> omega

theorem done_of_freed (h : TwoOwners refcount freed a b) (hpos : 0 < freed) :
    a = .done ∧ b = .done := by
  have hfreed := h.freed
  split at hfreed
  next hdone => exact hdone
  next => omega

theorem freed_of_done (h : TwoOwners refcount freed .done .done) : freed = 1 := h.freed

end TwoOwners

end Rko
