import Mathlib.Data.List.Pairwise
import Mathlib.Data.List.Basic

namespace Regions

/-- Objects that lie in memory, each with its first address and its size. -/
class Region (α : Type) where
  start : α → Nat
  size : α → Nat
  size_pos : ∀ a, 0 < size a

variable {α : Type} [Region α] {a b : α} {l : List α} {p : Nat}

def covers (a : α) (p : Nat) : Bool :=
  decide (Region.start a ≤ p ∧ p < Region.start a + Region.size a)

/-- The two objects have no address in common. -/
def Apart (a b : α) : Prop :=
  Region.start a + Region.size a ≤ Region.start b ∨ Region.start b + Region.size b ≤ Region.start a

instance : DecidableRel (Apart (α := α)) := fun _ _ => inferInstanceAs (Decidable (_ ∨ _))

theorem covers_iff : covers a p = true ↔ Region.start a ≤ p ∧ p < Region.start a + Region.size a :=
  decide_eq_true_iff

theorem covers_start (a : α) : covers a (Region.start a) = true := by
  have hpos := Region.size_pos a
  exact covers_iff.mpr ⟨Nat.le_refl _, by omega⟩

instance : Std.Symm (Apart (α := α)) := ⟨fun _ _ h => Or.symm h⟩

theorem Apart.not_covers (h : Apart a b) (ha : covers a p = true) : covers b p = false := by
  rw [covers_iff] at ha
  refine decide_eq_false fun hb => ?_
  rcases h with h | h <;> omega

/-- Of the objects that lie apart, one has the address. -/
theorem eq_of_covers (h : l.Pairwise Apart) (ha : a ∈ l) (hb : b ∈ l) (hpa : covers a p = true)
    (hpb : covers b p = true) : a = b := by
  by_contra hne
  have hapart : Apart a b := h.forall ha hb hne
  rw [hapart.not_covers hpa] at hpb
  cases hpb

theorem eq_of_start (h : l.Pairwise Apart) (ha : a ∈ l) (hb : b ∈ l)
    (hab : Region.start a = Region.start b) : a = b :=
  eq_of_covers h ha hb (covers_start a) (hab ▸ covers_start b)

theorem find?_covers (h : l.Pairwise Apart) (ha : a ∈ l) (hp : covers a p = true) :
    l.find? (covers · p) = some a := by
  obtain ⟨b, hb⟩ : ∃ b, l.find? (covers · p) = some b :=
    Option.isSome_iff_exists.mp (List.find?_isSome.mpr ⟨a, ha, hp⟩)
  have hpb := List.find?_some hb
  rw [hb, eq_of_covers h (List.mem_of_find?_eq_some hb) ha hpb hp]

theorem find?_start (h : l.Pairwise Apart) (ha : a ∈ l) :
    (l.find? fun b => Region.start b = Region.start a) = some a := by
  obtain ⟨b, hb⟩ : ∃ b, (l.find? fun b => Region.start b = Region.start a) = some b :=
    Option.isSome_iff_exists.mp (List.find?_isSome.mpr ⟨a, ha, decide_eq_true rfl⟩)
  have hstart := List.find?_some hb
  rw [hb, eq_of_start h (List.mem_of_find?_eq_some hb) ha (of_decide_eq_true hstart)]

end Regions
