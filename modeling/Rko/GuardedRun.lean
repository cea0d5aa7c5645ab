import Mathlib.Tactic.Ring

namespace GuardedRun

variable {σ α : Type} (step : σ → α → Option σ)

/-- The state after a list of actions, if each of them was possible when it was taken. -/
def run : σ → List α → Option σ
  | s, [] => some s
  | s, a :: as => (step s a).bind fun s' => run s' as

/-- Every action is taken in a state in which it meets `guard`. -/
def Guarded (guard : σ → α → Prop) : σ → List α → Prop
  | _, [] => True
  | s, a :: as => guard s a ∧ ∀ s' ∈ step s a, Guarded guard s' as

instance decidableGuarded (guard : σ → α → Prop) [∀ s a, Decidable (guard s a)] :
    ∀ s as, Decidable (Guarded step guard s as)
  | _, [] => isTrue trivial
  | s, a :: as =>
    have : ∀ s', Decidable (Guarded step guard s' as) := fun s' => decidableGuarded guard s' as
    inferInstanceAs (Decidable (guard s a ∧ ∀ s' ∈ step s a, Guarded step guard s' as))

variable {step}

theorem guarded_of_forall {P : α → Prop} {as : List α} (h : ∀ a ∈ as, P a) (s : σ) :
    Guarded step (fun _ a => P a) s as := by
  induction as generalizing s with
  | nil => trivial
  | cons a as ih =>
    exact ⟨h a List.mem_cons_self, fun s' _ => ih (fun b hb => h b (List.mem_cons_of_mem _ hb)) s'⟩

theorem Guarded.and {guard guard' : σ → α → Prop} {s : σ} {as : List α}
    (h : Guarded step guard s as) (h' : Guarded step guard' s as) :
    Guarded step (fun s a => guard s a ∧ guard' s a) s as := by
  induction as generalizing s with
  | nil => trivial
  | cons a as ih => exact ⟨⟨h.1, h'.1⟩, fun s' hs' => ih (h.2 s' hs') (h'.2 s' hs')⟩

theorem run_append (s : σ) (as bs : List α) :
    run step s (as ++ bs) = (run step s as).bind fun s' => run step s' bs := by
  induction as generalizing s with
  | nil => rfl
  | cons a as ih =>
    rw [List.cons_append, run, run, Option.bind_assoc]
    exact Option.bind_congr fun s' _ => ih s'

theorem run_invariant {guard : σ → α → Prop} {I : σ → Prop}
    (hstep : ∀ {s s' a}, I s → guard s a → step s a = some s' → I s') {s s' : σ} {as : List α}
    (hs : I s) (hguard : Guarded step guard s as) (hrun : run step s as = some s') : I s' := by
  induction as generalizing s with
  | nil =>
    cases Option.some.inj hrun
    exact hs
  | cons a as ih =>
    obtain ⟨ha, hrest⟩ := hguard
    obtain ⟨s₁, hs₁, hrun₁⟩ := Option.bind_eq_some_iff.mp hrun
    exact ih (hstep hs ha hs₁) (hrest s₁ hs₁) hrun₁

/-- If a step that meets the guard is always possible, so is the whole run. -/
theorem run_total {guard : σ → α → Prop} {I : σ → Prop}
    (hstep : ∀ {s a}, I s → guard s a → ∃ s', step s a = some s' ∧ I s') {s : σ} {as : List α}
    (hs : I s) (hguard : Guarded step guard s as) : ∃ s', run step s as = some s' ∧ I s' := by
  induction as generalizing s with
  | nil => exact ⟨s, rfl, hs⟩
  | cons a as ih =>
    obtain ⟨ha, hrest⟩ := hguard
    obtain ⟨s₁, hs₁, hI⟩ := hstep hs ha
    obtain ⟨s', hrun, hI'⟩ := ih hI (hrest s₁ hs₁)
    exact ⟨s', by rw [run, hs₁, Option.bind_some, hrun], hI'⟩

/-- A system that can follow every step of another one can follow its runs. -/
theorem run_simulates {τ : Type} {step' : τ → α → Option τ} {R : σ → τ → Prop}
    (hstep : ∀ {s s' t a}, R s t → step s a = some s' → ∃ t', step' t a = some t' ∧ R s' t')
    {s s' : σ} {t : τ} {as : List α} (h : R s t) (hrun : run step s as = some s') :
    ∃ t', run step' t as = some t' ∧ R s' t' := by
  induction as generalizing s t with
  | nil =>
    cases Option.some.inj hrun
    exact ⟨t, rfl, h⟩
  | cons a as ih =>
    obtain ⟨s₁, hs₁, hrun₁⟩ := Option.bind_eq_some_iff.mp hrun
    obtain ⟨t₁, ht₁, h₁⟩ := hstep h hs₁
    obtain ⟨t', hrun', h'⟩ := ih h₁ hrun₁
    exact ⟨t', by rw [run, ht₁, Option.bind_some, hrun'], h'⟩

/-- A system that answers each step of another one with some steps of its own, of which `ok` tells
which they may be, can follow its runs. -/
theorem run_refines {τ β : Type} {step' : τ → β → Option τ} {R : σ → τ → Prop}
    {ok : α → List β → Prop}
    (hstep : ∀ {s s' t a}, R s t → step s a = some s' →
      ∃ bs t', ok a bs ∧ run step' t bs = some t' ∧ R s' t')
    {s s' : σ} {t : τ} {as : List α} (h : R s t) (hrun : run step s as = some s') :
    ∃ bss t', List.Forall₂ ok as bss ∧ run step' t bss.flatten = some t' ∧ R s' t' := by
  induction as generalizing s t with
  | nil =>
    cases Option.some.inj hrun
    exact ⟨[], t, .nil, rfl, h⟩
  | cons a as ih =>
    obtain ⟨s₁, hs₁, hrun₁⟩ := Option.bind_eq_some_iff.mp hrun
    obtain ⟨bs, t₁, hok, hbs, h₁⟩ := hstep h hs₁
    obtain ⟨bss, t₂, hall, hrun₂, h₂⟩ := ih h₁ hrun₁
    refine ⟨bs :: bss, t₂, .cons hok hall, ?_, h₂⟩
    rw [List.flatten_cons, run_append, hbs, Option.bind_some, hrun₂]

/-- Every run from here comes to an end, and there `P` holds. -/
inductive Ends (step : σ → α → Option σ) (P : σ → Prop) : σ → Prop
  | intro {s : σ} (hlast : (∀ a, step s a = none) → P s)
    (hnext : ∀ a s', step s a = some s' → Ends step P s') : Ends step P s

theorem Ends.run {P : σ → Prop} {s s' : σ} (h : Ends step P s) {as : List α}
    (hrun : run step s as = some s') : (∃ a s'', step s' a = some s'') ∨ P s' := by
  induction as generalizing s with
  | nil =>
    cases Option.some.inj hrun
    obtain ⟨hlast, -⟩ := h
    by_cases hstuck : ∀ a, step s' a = none
    · exact Or.inr (hlast hstuck)
    · obtain ⟨a, ha⟩ := not_forall.mp hstuck
      obtain ⟨s'', hs''⟩ := Option.ne_none_iff_exists'.mp ha
      exact Or.inl ⟨a, s'', hs''⟩
  | cons a as ih =>
    obtain ⟨-, hnext⟩ := h
    obtain ⟨s₁, hs₁, hrun₁⟩ := Option.bind_eq_some_iff.mp hrun
    exact ih (hnext a s₁ hs₁) hrun₁

/-- Whoever chooses the actions, they cannot go on for ever. -/
theorem Ends.finite {P : σ → Prop} {s : σ} (h : Ends step P s) (schedule : Nat → α) :
    ∃ n, GuardedRun.run step s ((List.range n).map schedule) = none := by
  induction h generalizing schedule with
  | @intro s _ _ ih =>
    cases hs : step s (schedule 0) with
    | none => exact ⟨1, by simp [GuardedRun.run, hs]⟩
    | some s' =>
      obtain ⟨n, hn⟩ := ih (schedule 0) s' hs fun i => schedule (i + 1)
      refine ⟨n + 1, ?_⟩
      rw [List.range_succ_eq_map, List.map_cons, List.map_map, GuardedRun.run, hs, Option.bind_some]
      exact hn

section History

variable {η : Type} {note : σ → α → σ → η → η}

/-- The same steps, with a history written beside the state that no step reads. -/
def recorded (step : σ → α → Option σ) (note : σ → α → σ → η → η) (x : σ × η) (a : α) :
    Option (σ × η) :=
  (step x.1 a).map fun s' => (s', note x.1 a s' x.2)

/-- Every run has its history, and what a step keeps of both holds at the end. -/
theorem recorded_invariant {guard : σ → α → Prop} {I : σ → η → Prop}
    (hstep : ∀ {s s' a e}, I s e → guard s a → step s a = some s' → I s' (note s a s' e))
    {s s' : σ} {e : η} {as : List α} (hs : I s e) (hguard : Guarded step guard s as)
    (hrun : run step s as = some s') :
    ∃ e', run (recorded step note) (s, e) as = some (s', e') ∧ I s' e' := by
  induction as generalizing s e with
  | nil =>
    cases Option.some.inj hrun
    exact ⟨e, rfl, hs⟩
  | cons a as ih =>
    obtain ⟨ha, hrest⟩ := hguard
    obtain ⟨s₁, hs₁, hrun₁⟩ := Option.bind_eq_some_iff.mp hrun
    have hfirst : recorded step note (s, e) a = some (s₁, note s a s₁ e) := by
      rw [recorded, hs₁, Option.map_some]
    rw [run, hfirst, Option.bind_some]
    exact ih (hstep hs ha hs₁) (hrest s₁ hs₁) hrun₁

end History

end GuardedRun
