import Mathlib.Tactic.Ring

namespace RankedList

variable {α : Type} (rank : α → Nat)

/-- No entry is followed by one of higher rank. -/
def Ranked (l : List α) : Prop := l.Pairwise fun a b => rank b ≤ rank a

/-- Put `x` behind the entries that have at least its rank. -/
def place (x : α) : List α → List α
  | [] => [x]
  | a :: l => if rank x ≤ rank a then a :: place x l else x :: a :: l

/-- Every entry before `w` is of higher rank. -/
def Leads (w : α) (l : List α) : Prop :=
  ∃ front back, l = front ++ w :: back ∧ ∀ a ∈ front, rank w < rank a

variable {rank}

theorem place_perm (x : α) (l : List α) : (place rank x l).Perm (x :: l) := by
  induction l with
  | nil => exact List.Perm.refl _
  | cons a l ih =>
    rw [place]
    split
    · exact (ih.cons a).trans (List.Perm.swap x a l)
    · exact List.Perm.refl _

theorem Ranked.split {l : List α} (h : Ranked rank l) (x : α) :
    ∃ front back, l = front ++ back ∧ place rank x l = front ++ x :: back ∧
      (∀ a ∈ front, rank x ≤ rank a) ∧ ∀ a ∈ back, rank a < rank x := by
  induction l with
  | nil => exact ⟨[], [], rfl, rfl, nofun, nofun⟩
  | cons a l ih =>
    obtain ⟨ha, hl⟩ := List.pairwise_cons.mp h
    rw [place]
    split
    next hle =>
      obtain ⟨front, back, rfl, hplace, hfront, hback⟩ := ih hl
      refine ⟨a :: front, back, rfl, by rw [hplace]; rfl, ?_, hback⟩
      intro b hb
      rcases List.mem_cons.mp hb with rfl | hb
      · exact hle
      · exact hfront b hb
    next hlt =>
      refine ⟨[], a :: l, rfl, rfl, nofun, ?_⟩
      intro b hb
      rcases List.mem_cons.mp hb with rfl | hb
      · omega
      · have := ha b hb
        omega

theorem Ranked.place {l : List α} (h : Ranked rank l) (x : α) : Ranked rank (place rank x l) := by
  obtain ⟨front, back, rfl, hplace, hfront, hback⟩ := h.split x
  obtain ⟨hf, hb, hfb⟩ := List.pairwise_append.mp h
  rw [hplace]
  refine List.pairwise_append.mpr ⟨hf, List.pairwise_cons.mpr ⟨fun b hb => (hback b hb).le, hb⟩, ?_⟩
  intro a ha b hb
  rcases List.mem_cons.mp hb with rfl | hb
  · exact hfront a ha
  · exact hfb a ha b hb

/-- The new entry comes after those of its own rank. -/
theorem Ranked.filter_place {l : List α} (h : Ranked rank l) (x : α) (n : Nat) :
    ((RankedList.place rank x l).filter fun a => rank a = n) =
      (l.filter fun a => rank a = n) ++ [x].filter fun a => rank a = n := by
  obtain ⟨front, back, rfl, hplace, -, hback⟩ := h.split x
  rw [hplace, ← List.singleton_append, List.filter_append, List.filter_append, List.filter_append,
    List.append_assoc]
  congr 1
  by_cases hx : rank x = n
  · have hnone : (back.filter fun a => rank a = n) = [] := by
      refine List.filter_eq_nil_iff.mpr fun a ha heq => ?_
      have hlt := hback a ha
      have hrank : rank a = n := of_decide_eq_true heq
      omega
    rw [hnone, List.append_nil, List.nil_append]
  · have hnone : ([x].filter fun a => rank a = n) = [] := by simp [hx]
    rw [hnone, List.append_nil, List.nil_append]

/-- The first match is one of the highest rank. -/
theorem Ranked.find?_max {l : List α} (h : Ranked rank l) {P : α → Bool} {a b : α}
    (hfind : l.find? P = some a) (hb : b ∈ l) (hP : P b = true) : rank b ≤ rank a := by
  obtain ⟨_, front, back, rfl, hfront⟩ := List.find?_eq_some_iff_append.mp hfind
  rcases List.mem_append.mp hb with hb | hb
  · have := hfront b hb
    simp [hP] at this
  · rcases List.mem_cons.mp hb with rfl | hb
    · exact le_rfl
    · exact (List.pairwise_cons.mp (List.pairwise_append.mp h).2.1).1 b hb

theorem Leads.place {w : α} {l : List α} (h : Leads rank w l) (x : α) :
    Leads rank w (place rank x l) := by
  obtain ⟨front, back, rfl, hfront⟩ := h
  induction front with
  | nil =>
    rw [List.nil_append, RankedList.place]
    split
    next => exact ⟨[], _, rfl, nofun⟩
    next hlt => exact ⟨[x], back, rfl, by simpa using hlt⟩
  | cons a front ih =>
    have ha := hfront a List.mem_cons_self
    rw [List.cons_append, RankedList.place]
    split
    next =>
      obtain ⟨front', back', heq, hfront'⟩ := ih fun b hb => hfront b (List.mem_cons_of_mem _ hb)
      refine ⟨a :: front', back', by rw [heq]; rfl, ?_⟩
      intro b hb
      rcases List.mem_cons.mp hb with rfl | hb
      · exact ha
      · exact hfront' b hb
    next hlt =>
      refine ⟨x :: a :: front, back, rfl, ?_⟩
      intro b hb
      rcases List.mem_cons.mp hb with rfl | hb
      · omega
      · exact hfront b hb

theorem Leads.find? {w : α} {l : List α} (h : Leads rank w l) {P : α → Bool} (hw : P w = true)
    (hmax : ∀ a ∈ l, P a = true → rank a ≤ rank w) : l.find? P = some w := by
  obtain ⟨front, back, rfl, hfront⟩ := h
  refine List.find?_eq_some_iff_append.mpr ⟨hw, front, back, rfl, ?_⟩
  intro a ha
  by_contra hP
  have hle := hmax a (List.mem_append_left _ ha) (by simpa using hP)
  have hlt := hfront a ha
  omega

end RankedList
