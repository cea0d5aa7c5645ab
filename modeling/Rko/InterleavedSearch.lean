import Mathlib.Tactic.Ring

namespace InterleavedSearch

variable {ι α ε : Type}

def firstOutcome (f : ι → Except ε (Option α)) : List ι → Except ε (Option α)
  | [] => .ok none
  | j :: js =>
    match f j with
    | .ok none => firstOutcome f js
    | r => r

/-- The outcome at a place where what belongs there comes first, then what does not. -/
def ownThenForeign (own : ι → Option α) (foreign : ι → Except ε (Option α)) (j : ι) :
    Except ε (Option α) :=
  match own j with
  | some a => .ok (some a)
  | none => foreign j

/-- The first outcome due to what does not belong there, as far as the search gets before it
meets a match of its own. -/
def firstForeign (own : ι → Option α) (foreign : ι → Except ε (Option α)) :
    List ι → Except ε (Option α)
  | [] => .ok none
  | j :: js =>
    match own j with
    | some _ => .ok none
    | none =>
      match foreign j with
      | .ok none => firstForeign own foreign js
      | r => r

theorem firstForeign_eq_none {own : ι → Option α} {foreign : ι → Except ε (Option α)} {js : List ι}
    (h : ∀ j ∈ js, foreign j = .ok none) : firstForeign own foreign js = .ok none := by
  induction js with
  | nil => rfl
  | cons j js ih =>
    have hrest := ih fun i hi => h i (List.mem_cons_of_mem j hi)
    cases hown : own j <;> simp only [firstForeign, hown, h j List.mem_cons_self, hrest]

/-- The search finds the first own match exactly when nothing foreign comes in between, or
happens to give the same. -/
theorem firstOutcome_eq_own_iff (own : ι → Option α) (foreign : ι → Except ε (Option α))
    (js : List ι) :
    firstOutcome (ownThenForeign own foreign) js = .ok (js.findSome? own) ↔
      firstForeign own foreign js = .ok none ∨
        firstForeign own foreign js = .ok (js.findSome? own) := by
  induction js with
  | nil => simp [firstOutcome, firstForeign]
  | cons j js ih =>
    cases hown : own j with
    | some a => simp [firstOutcome, ownThenForeign, firstForeign, hown]
    | none =>
      simp only [firstOutcome, ownThenForeign, firstForeign, hown, List.findSome?_cons]
      rcases hforeign : foreign j with e | _ | a
      · simp
      · simpa using ih
      · simp

end InterleavedSearch
