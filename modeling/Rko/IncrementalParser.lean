import Mathlib.Tactic.Ring

namespace IncrementalParser

variable {β ρ : Type}

inductive Verdict (ρ : Type)
  | needMore
  | invalid
  | complete (n : Nat) (r : ρ)
deriving DecidableEq, Repr

end IncrementalParser

open IncrementalParser in
/-- A parser that reads from left to right: what it has decided does not change with the bytes that
follow, and it decides on a complete message at its last byte. -/
structure IncrementalParser (β ρ : Type) where
  parse : List β → Verdict ρ
  complete_pos : ∀ {b n r}, parse b = .complete n r → 0 < n
  complete_le : ∀ {b n r}, parse b = .complete n r → n ≤ b.length
  complete_append : ∀ {b n r} (c : List β), parse b = .complete n r →
    parse (b ++ c) = .complete n r
  complete_head : ∀ {b n r}, parse b = .complete n r → parse (b.take n) = .complete n r
  invalid_append : ∀ {b} (c : List β), parse b = .invalid → parse (b ++ c) = .invalid

namespace IncrementalParser

variable {β ρ : Type} (P : IncrementalParser β ρ)

theorem parse_complete_of_take {b : List β} {m n : Nat} {r : ρ}
    (h : P.parse (b.take m) = .complete n r) : P.parse b = .complete n r := by
  have happ := P.complete_append (b.drop m) h
  rwa [List.take_append_drop] at happ

theorem parse_invalid_of_take {b : List β} {m : Nat}
    (h : P.parse (b.take m) = .invalid) : P.parse b = .invalid := by
  have happ := P.invalid_append (b.drop m) h
  rwa [List.take_append_drop] at happ

theorem parse_take_of_needMore {b : List β} (h : P.parse b = .needMore) (m : Nat) :
    P.parse (b.take m) = .needMore := by
  cases hm : P.parse (b.take m) with
  | needMore => rfl
  | invalid => simp [P.parse_invalid_of_take hm] at h
  | complete n r => simp [P.parse_complete_of_take hm] at h

/-- The verdict on a complete message is reached with its last byte, and not before. -/
theorem parse_take_of_complete {b : List β} {n : Nat} {r : ρ} (h : P.parse b = .complete n r)
    (m : Nat) : P.parse (b.take m) = if n ≤ m then .complete n r else .needMore := by
  split
  next hle =>
    have hhead := P.complete_append ((b.drop n).take (m - n)) (P.complete_head h)
    rwa [← List.take_add, Nat.add_sub_cancel' hle] at hhead
  next hlt =>
    cases hm : P.parse (b.take m) with
    | needMore => rfl
    | invalid => simp [P.parse_invalid_of_take hm] at h
    | complete n' r' =>
      have hle := P.complete_le hm
      have heq := h.symm.trans (P.parse_complete_of_take hm)
      simp only [Verdict.complete.injEq] at heq
      have hlen : (b.take m).length ≤ m := List.length_take_le m b
      omega

section Terminator

variable [DecidableEq β]

def endOf (t b : List β) : Option Nat :=
  (List.range (b.length + 1)).find? fun n => decide (t <:+ b.take n)

variable {t : List β}

theorem endOf_eq_some {b : List β} {n : Nat} :
    endOf t b = some n ↔ n ≤ b.length ∧ t <:+ b.take n ∧ ∀ j < n, ¬ t <:+ b.take j := by
  simp only [endOf, List.find?_range_eq_some, decide_eq_true_eq, List.mem_range, Bool.not_eq_true',
    decide_eq_false_iff_not]
  exact ⟨fun ⟨hend, hn, hfirst⟩ => ⟨by omega, hend, hfirst⟩,
    fun ⟨hn, hend, hfirst⟩ => ⟨hend, by omega, hfirst⟩⟩

theorem endOf_of_take_eq {b c : List β} {n : Nat} (h : endOf t b = some n)
    (hn : n ≤ c.length) (heq : c.take n = b.take n) : endOf t c = some n := by
  obtain ⟨-, hend, hfirst⟩ := endOf_eq_some.mp h
  refine endOf_eq_some.mpr ⟨hn, heq ▸ hend, fun j hj => ?_⟩
  have hpre : c.take j = b.take j := by
    have hcut := congrArg (List.take j) heq
    simpa [List.take_take, Nat.min_eq_left hj.le] using hcut
  exact hpre ▸ hfirst j hj

theorem endOf_append {b : List β} {n : Nat} (c : List β) (h : endOf t b = some n) :
    endOf t (b ++ c) = some n ∧ (b ++ c).take n = b.take n := by
  have hn := (endOf_eq_some.mp h).1
  have heq : (b ++ c).take n = b.take n := List.take_append_of_le_length hn
  have hlen : n ≤ (b ++ c).length := by
    rw [List.length_append]
    omega
  exact ⟨endOf_of_take_eq h hlen heq, heq⟩

variable (t) (decode : List β → Option ρ)

/-- A message ends with the first occurrence of `t`, and `decode` reads it. -/
def terminated (b : List β) : Verdict ρ :=
  match endOf t b with
  | none => .needMore
  | some n => (decode (b.take n)).elim .invalid (.complete n)

variable {t decode}

theorem terminated_eq_complete {b : List β} {n : Nat} {r : ρ} :
    terminated t decode b = .complete n r ↔ endOf t b = some n ∧ decode (b.take n) = some r := by
  unfold terminated
  cases hend : endOf t b with
  | none => simp
  | some m =>
    constructor
    · cases hdec : decode (b.take m) with
      | none => simp [hdec]
      | some r' =>
        intro h
        simp only [hdec, Option.elim_some, Verdict.complete.injEq] at h
        obtain ⟨rfl, rfl⟩ := h
        exact ⟨rfl, hdec⟩
    · rintro ⟨hm, hdec⟩
      cases hm
      simp [hdec]

theorem terminated_eq_invalid {b : List β} :
    terminated t decode b = .invalid ↔ ∃ n, endOf t b = some n ∧ decode (b.take n) = none := by
  unfold terminated
  cases hend : endOf t b with
  | none => simp
  | some m => cases hdec : decode (b.take m) <;> simp [hdec]

def ofTerminator (t : List β) (ht : t ≠ []) (decode : List β → Option ρ) :
    IncrementalParser β ρ where
  parse := terminated t decode
  complete_pos := by
    intro b n r h
    obtain ⟨-, hsuf, -⟩ := endOf_eq_some.mp (terminated_eq_complete.mp h).1
    rcases Nat.eq_zero_or_pos n with rfl | hpos
    · exact absurd (List.suffix_nil.mp hsuf) ht
    · exact hpos
  complete_le h := (endOf_eq_some.mp (terminated_eq_complete.mp h).1).1
  complete_append c h := by
    obtain ⟨hend, hdec⟩ := terminated_eq_complete.mp h
    obtain ⟨hend', htake⟩ := endOf_append c hend
    exact terminated_eq_complete.mpr ⟨hend', htake ▸ hdec⟩
  complete_head := by
    intro b n r h
    obtain ⟨hend, hdec⟩ := terminated_eq_complete.mp h
    have hn := (endOf_eq_some.mp hend).1
    have htake : (b.take n).take n = b.take n := by rw [List.take_take, Nat.min_self]
    have hlen : n ≤ (b.take n).length := by
      rw [List.length_take]
      omega
    exact terminated_eq_complete.mpr ⟨endOf_of_take_eq hend hlen htake, by rwa [htake]⟩
  invalid_append c h := by
    obtain ⟨n, hend, hdec⟩ := terminated_eq_invalid.mp h
    obtain ⟨hend', htake⟩ := endOf_append c hend
    exact terminated_eq_invalid.mpr ⟨n, hend', htake ▸ hdec⟩

end Terminator

end IncrementalParser
