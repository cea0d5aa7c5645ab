import Mathlib.Tactic.Ring

namespace Gaps

variable {α : Type}

/-- A piece of a sequence: its size, and the entry that it holds, if it holds one. -/
structure Piece (α : Type) where
  size : Nat
  entry : Option α

def entries (ps : List (Piece α)) : List α := ps.filterMap Piece.entry

def extent (ps : List (Piece α)) : Nat := (ps.map Piece.size).sum

/-- The pieces that hold an entry. -/
def listed (ps : List (Piece α)) : List (Piece α) := ps.filter (·.entry.isSome)

/-- No piece without an entry comes before one that holds one. -/
def Gapless (ps : List (Piece α)) : Prop :=
  ps.Pairwise fun p q => q.entry.isSome = true → p.entry.isSome = true

instance (ps : List (Piece α)) : Decidable (Gapless ps) :=
  inferInstanceAs (Decidable (List.Pairwise _ _))

/-- A reader that counts the sizes of entries only is between `before` and `after` when it has counted
`k` of them. -/
structure Resumes (ps : List (Piece α)) (k : Nat) (before after : List (Piece α)) : Prop where
  split : ps = before ++ after
  extent_eq : extent before = extent ((listed ps).take k)

section Basic

variable (p : Piece α) (ps qs : List (Piece α))

@[simp] theorem entries_nil : entries ([] : List (Piece α)) = [] := rfl

@[simp] theorem entries_append : entries (ps ++ qs) = entries ps ++ entries qs :=
  List.filterMap_append

@[simp] theorem extent_nil : extent ([] : List (Piece α)) = 0 := rfl

@[simp] theorem extent_cons : extent (p :: ps) = p.size + extent ps := by simp [extent]

@[simp] theorem extent_append : extent (ps ++ qs) = extent ps + extent qs := by simp [extent]

@[simp] theorem listed_append : listed (ps ++ qs) = listed ps ++ listed qs := List.filter_append ..

@[simp] theorem length_listed : (listed ps).length = (entries ps).length := by
  induction ps with
  | nil => rfl
  | cons p ps ih =>
    rw [listed, entries] at ih ⊢
    cases hp : p.entry <;> simp [hp, ih]

theorem extent_listed_le : extent (listed ps) ≤ extent ps := by
  induction ps with
  | nil => exact Nat.le_refl _
  | cons p ps ih =>
    rw [listed] at ih ⊢
    cases hp : p.entry with
    | none =>
      rw [List.filter_cons_of_neg (by simp [hp]), extent_cons]
      omega
    | some a =>
      rw [List.filter_cons_of_pos (by simp [hp]), extent_cons, extent_cons]
      omega

end Basic

section Sized

variable {ps qs : List (Piece α)}

theorem eq_nil_of_extent (hsize : ∀ p ∈ ps, 0 < p.size) (h : extent ps = 0) : ps = [] := by
  cases ps with
  | nil => rfl
  | cons p ps =>
    have hp := hsize p List.mem_cons_self
    rw [extent_cons] at h
    omega

/-- Of two beginnings of a sequence the one with the smaller extent comes first. -/
theorem prefix_of_extent_le (hsize : ∀ p ∈ ps, 0 < p.size) {before before' : List (Piece α)}
    (hbefore : before <+: ps) (hbefore' : before' <+: ps) (h : extent before ≤ extent before') :
    before <+: before' := by
  rcases List.prefix_or_prefix_of_prefix hbefore hbefore' with hle | hge
  · exact hle
  · obtain ⟨rest, rfl⟩ := hge
    rw [extent_append] at h
    have hnil : rest = [] :=
      eq_nil_of_extent (fun p hp => hsize p (hbefore.subset (List.mem_append_right _ hp))) (by omega)
    exact ⟨[], by rw [hnil, List.append_nil, List.append_nil]⟩

/-- Where only entries take up space, every piece holds one. -/
theorem listed_eq_of_extent (hsize : ∀ p ∈ ps, 0 < p.size) (h : extent ps ≤ extent (listed ps)) :
    ∀ p ∈ ps, p.entry.isSome = true := by
  induction ps with
  | nil => simp
  | cons p ps ih =>
    have hp := hsize p List.mem_cons_self
    have hle := extent_listed_le ps
    cases hentry : p.entry with
    | none =>
      rw [listed, List.filter_cons_of_neg (by simp [hentry]), extent_cons] at h
      rw [listed] at hle
      omega
    | some a =>
      rw [listed, List.filter_cons_of_pos (by simp [hentry]), extent_cons, extent_cons] at h
      have hrest := ih (fun q hq => hsize q (List.mem_cons_of_mem p hq)) (by rw [listed]; omega)
      intro q hq
      rcases List.mem_cons.mp hq with rfl | hq
      · rw [hentry]
        rfl
      · exact hrest q hq

end Sized

theorem Resumes.length_add {ps before after : List (Piece α)} {k : Nat}
    (h : Resumes ps k before after) :
    (entries before).length + (entries after).length = (entries ps).length := by
  rw [h.split, entries_append, List.length_append]

theorem Resumes.entries_after {ps before after : List (Piece α)} {k : Nat}
    (h : Resumes ps k before after) (hk : (entries before).length = k) :
    entries after = (entries ps).drop k := by
  rw [h.split, entries_append, List.drop_left' hk]

theorem Gapless.take_listed {ps : List (Piece α)} (h : Gapless ps) {k : Nat}
    (hk : k ≤ (entries ps).length) : (listed ps).take k = ps.take k := by
  induction ps generalizing k with
  | nil => rfl
  | cons p ps ih =>
    obtain ⟨hall, hrest⟩ := List.pairwise_cons.mp h
    cases hp : p.entry with
    | none =>
      have hnone : ∀ q ∈ ps, ¬ q.entry.isSome = true := by
        intro q hq hsome
        have hlisted := hall q hq hsome
        rw [hp] at hlisted
        cases hlisted
      have hnil : listed (p :: ps) = [] := by
        rw [listed, List.filter_cons_of_neg (by simp [hp])]
        exact List.filter_eq_nil_iff.mpr hnone
      rw [← length_listed, hnil] at hk
      rw [Nat.le_zero.mp hk, List.take_zero, List.take_zero]
    | some a =>
      have hcons : listed (p :: ps) = p :: listed ps := by
        rw [listed, List.filter_cons_of_pos (by simp [hp])]
        rfl
      cases k with
      | zero => rfl
      | succ k =>
        rw [← length_listed, hcons, List.length_cons, length_listed] at hk
        rw [hcons, List.take_succ_cons, List.take_succ_cons, ih hrest (by omega)]

theorem Gapless.resumes {ps : List (Piece α)} (h : Gapless ps) {k : Nat}
    (hk : k ≤ (entries ps).length) : Resumes ps k (ps.take k) (ps.drop k) :=
  ⟨(List.take_append_drop k ps).symm, by rw [h.take_listed hk]⟩

theorem Gapless.length_entries {ps : List (Piece α)} (h : Gapless ps) {k : Nat}
    (hk : k ≤ (entries ps).length) : (entries (ps.take k)).length = k := by
  have hlisted : listed (ps.take k) = ps.take k := by
    rw [← h.take_listed hk]
    exact List.filter_eq_self.mpr fun p hp => (List.mem_filter.mp (List.mem_of_mem_take hp)).2
  have hle : k ≤ ps.length := Nat.le_trans hk (List.length_filterMap_le _ _)
  rw [← length_listed, hlisted, List.length_take, Nat.min_eq_left hle]

theorem gapless_of_splits {ps : List (Piece α)}
    (h : ∀ left q right, ps = left ++ q :: right → q.entry.isSome = true →
      ∀ p ∈ left, p.entry.isSome = true) : Gapless ps := by
  refine List.pairwise_iff_getElem.mpr fun i j hi hj hij hq => ?_
  refine h (ps.take j) ps[j] (ps.drop (j + 1)) ?_ hq _ ?_
  · rw [List.getElem_cons_drop, List.take_append_drop]
  · exact List.mem_take_iff_getElem.mpr ⟨i, by omega, rfl⟩

/-- Before an entry behind which the reader gets there is nothing but entries. -/
theorem Resumes.all_listed {left right before after : List (Piece α)} {q : Piece α}
    (hsize : ∀ p ∈ left ++ q :: right, 0 < p.size) (hq : q.entry.isSome = true)
    (h : Resumes (left ++ q :: right) ((entries left).length + 1) before after)
    (hbehind : (entries left).length < (entries before).length) :
    ∀ p ∈ left, p.entry.isSome = true := by
  have hcut : left ++ q :: right = (left ++ [q]) ++ right := List.append_cons ..
  have hlisted : listed [q] = [q] := List.filter_eq_self.mpr fun p hp => List.mem_singleton.mp hp ▸ hq
  have hlength : (listed (left ++ [q])).length = (entries left).length + 1 := by
    rw [listed_append, List.length_append, length_listed, hlisted, List.length_singleton]
  have hextent : extent before = extent (listed (left ++ [q])) := by
    rw [h.extent_eq, hcut, listed_append, List.take_left' hlength]
  have hbegin : before <+: left ++ [q] :=
    prefix_of_extent_le hsize ⟨after, h.split.symm⟩ ⟨right, hcut.symm⟩
      (hextent.trans_le (extent_listed_le _))
  rcases List.prefix_concat_iff.mp hbegin with hall | hshort
  · have hpart : left ++ [q] <+: left ++ q :: right := ⟨right, hcut.symm⟩
    rw [hall] at hextent
    intro p hp
    exact listed_eq_of_extent (fun p hp => hsize p (hpart.subset hp)) (Nat.le_of_eq hextent) p
      (List.mem_append_left _ hp)
  · have hle : (entries before).length ≤ (entries left).length :=
      (hshort.filterMap Piece.entry).length_le
    omega

/-- If the reader always is at the beginning of a piece, it is behind just the entries that it has
counted exactly when there are no gaps. -/
theorem gapless_iff {ps : List (Piece α)} (hsize : ∀ p ∈ ps, 0 < p.size)
    (haligned : ∀ k ≤ (entries ps).length, ∃ before after, Resumes ps k before after) :
    Gapless ps ↔ ∀ k ≤ (entries ps).length, ∀ before after, Resumes ps k before after →
      k ≤ (entries before).length := by
  constructor
  · intro h k hk before after hbefore
    have hle : extent (ps.take k) ≤ extent before := by
      rw [hbefore.extent_eq, h.take_listed hk]
    have hbegin := prefix_of_extent_le hsize (List.take_prefix k ps)
      ⟨after, hbefore.split.symm⟩ hle
    have hlength := (hbegin.filterMap Piece.entry).length_le
    have htake := h.length_entries hk
    rw [entries] at htake ⊢
    omega
  · intro h
    refine gapless_of_splits fun left q right hsplit hq => ?_
    subst hsplit
    have hk : (entries left).length + 1 ≤ (entries (left ++ q :: right)).length := by
      obtain ⟨a, ha⟩ := Option.isSome_iff_exists.mp hq
      rw [entries_append, entries, entries, List.filterMap_cons_some ha, List.length_append,
        List.length_cons]
      omega
    obtain ⟨before, after, hbefore⟩ := haligned _ hk
    exact hbefore.all_listed hsize hq (h _ hk before after hbefore)

end Gaps
