import Rko.ExecutorTask
import Rko.GuardedRun
import Rko.CallPool

namespace Rko

/-- Where the one call of `stop` is: it took the list, and revokes, flushes and drops each entry. -/
inductive StopPhase
  | idle
  | revoking (rest : List Nat)
  | flushing (i : Nat) (rest : List Nat)
  | dropping (i : Nat) (rest : List Nat)
  | returned
deriving DecidableEq, Repr

/-- The executor with all tasks that `spawn_inner` allocated, known by their number. `list` is the
task list behind the lock. -/
structure WorkqueueExecutor where
  stopped : Bool
  list : List Nat
  stop : StopPhase
  tasks : List Task
deriving DecidableEq, Repr

inductive ExecutorAction
  | spawn
  | register (i : Nat) (alloc : Bool)
  | task (i : Nat) (a : TaskAction)
  | stopTake
  | stopRevoke
  | stopFlush
  | stopDrop
  | stopReturn
deriving DecidableEq, Repr

/-- Steps that take neither the lock of the executor nor an entry of its list. -/
def TaskAction.isLocal : TaskAction → Bool
  | .register .. => false
  | .drop .entry => false
  | .revoke .entry => false
  | .flush .entry => false
  | _ => true

namespace WorkqueueExecutor

def new : WorkqueueExecutor := ⟨false, [], .idle, []⟩

def target (s : WorkqueueExecutor) : ExecutorAction → Option (Nat × TaskAction)
  | .register i alloc => some (i, .register s.stopped alloc)
  | .task i a => if a.isLocal then some (i, a) else none
  | .stopRevoke =>
    match s.stop with
    | .revoking (i :: _) => some (i, .revoke .entry)
    | _ => none
  | .stopFlush =>
    match s.stop with
    | .flushing i _ => some (i, .flush .entry)
    | _ => none
  | .stopDrop =>
    match s.stop with
    | .dropping i _ => some (i, .drop .entry)
    | _ => none
  | _ => none

/-- What such an action does to the executor itself. -/
def advance (s : WorkqueueExecutor) : ExecutorAction → WorkqueueExecutor
  | .register i alloc =>
    if s.stopped = false ∧ alloc then { s with list := s.list ++ [i] } else s
  | .stopRevoke =>
    match s.stop with
    | .revoking (i :: rest) => { s with stop := .flushing i rest }
    | _ => s
  | .stopFlush =>
    match s.stop with
    | .flushing i rest => { s with stop := .dropping i rest }
    | _ => s
  | .stopDrop =>
    match s.stop with
    | .dropping _ rest => { s with stop := .revoking rest }
    | _ => s
  | _ => s

def stepTask (s : WorkqueueExecutor) (a : ExecutorAction) : Option WorkqueueExecutor :=
  match s.target a with
  | none => none
  | some (i, ta) =>
    ((s.tasks[i]?).bind fun t => t.step ta).map fun t' =>
      { s.advance a with tasks := s.tasks.set i t' }

/-- `spawn_inner` checks `stopped` before it allocates the task and again when it registers it. -/
def step (s : WorkqueueExecutor) : ExecutorAction → Option WorkqueueExecutor
  | .spawn => some (if s.stopped then s else { s with tasks := s.tasks ++ [Task.new] })
  | .stopTake =>
    if s.stop = .idle then
      some { s with stopped := true, list := [], stop := .revoking s.list }
    else none
  | .stopReturn => if s.stop = .revoking [] then some { s with stop := .returned } else none
  | a => s.stepTask a

/-- What `stop` has not flushed yet of the list it took. -/
def remaining (s : WorkqueueExecutor) : List Nat :=
  match s.stop with
  | .revoking rest => rest
  | .flushing i rest => i :: rest
  | .dropping _ rest => rest
  | .idle => []
  | .returned => []

variable {s s' : WorkqueueExecutor} {a : ExecutorAction}

theorem stepTask_eq_some (h : s.stepTask a = some s') :
    ∃ i ta t t', s.target a = some (i, ta) ∧ s.tasks[i]? = some t ∧ t.step ta = some t' ∧
      s' = { s.advance a with tasks := s.tasks.set i t' } := by
  unfold stepTask at h
  split at h
  · cases h
  next i ta htarget =>
    obtain ⟨t', ht', hs'⟩ := Option.map_eq_some_iff.mp h
    obtain ⟨t, ht, hstep⟩ := Option.bind_eq_some_iff.mp ht'
    exact ⟨i, ta, t, t', htarget, ht, hstep, hs'.symm⟩

theorem step_cases (h : s.step a = some s') :
    (s' = s) ∨
    (s.stopped = false ∧ s' = { s with tasks := s.tasks ++ [Task.new] }) ∨
    (s.stop = .idle ∧ s' = { s with stopped := true, list := [], stop := .revoking s.list }) ∨
    (s.stop = .revoking [] ∧ s' = { s with stop := .returned }) ∨
    ∃ i ta t t', s.target a = some (i, ta) ∧ s.tasks[i]? = some t ∧ t.step ta = some t' ∧
      s' = { s.advance a with tasks := s.tasks.set i t' } := by
  cases a with
  | spawn =>
    cases hstopped : s.stopped with
    | true => exact Or.inl (by simpa [step, hstopped] using h.symm)
    | false => exact Or.inr (Or.inl ⟨rfl, by simpa [step, hstopped] using h.symm⟩)
  | stopTake =>
    simp only [step] at h
    split at h
    next hidle => exact Or.inr (Or.inr (Or.inl ⟨hidle, (Option.some.inj h).symm⟩))
    · cases h
  | stopReturn =>
    simp only [step] at h
    split at h
    next hdone => exact Or.inr (Or.inr (Or.inr (Or.inl ⟨hdone, (Option.some.inj h).symm⟩)))
    · cases h
  | register i alloc => exact Or.inr (Or.inr (Or.inr (Or.inr (stepTask_eq_some h))))
  | task i ta => exact Or.inr (Or.inr (Or.inr (Or.inr (stepTask_eq_some h))))
  | stopRevoke => exact Or.inr (Or.inr (Or.inr (Or.inr (stepTask_eq_some h))))
  | stopFlush => exact Or.inr (Or.inr (Or.inr (Or.inr (stepTask_eq_some h))))
  | stopDrop => exact Or.inr (Or.inr (Or.inr (Or.inr (stepTask_eq_some h))))

/-- What every new task has and every step of a task keeps, all tasks have. -/
theorem tasks_step {P : Task → Prop} (hnew : P Task.new) (h : ∀ t ∈ s.tasks, P t)
    (htask : ∀ {i ta t t'}, s.target a = some (i, ta) → s.tasks[i]? = some t →
      t.step ta = some t' → P t → P t')
    (hstep : s.step a = some s') : ∀ t ∈ s'.tasks, P t := by
  rcases step_cases hstep with rfl | ⟨-, rfl⟩ | ⟨-, rfl⟩ | ⟨-, rfl⟩ |
    ⟨i, ta, t, t', htarget, ht, ht', rfl⟩
  · exact h
  · intro u hu
    rcases List.mem_append.mp hu with hold | hlast
    · exact h u hold
    · rw [List.mem_singleton.mp hlast]
      exact hnew
  · exact h
  · exact h
  · intro u hu
    rcases List.mem_or_eq_of_mem_set hu with hold | rfl
    · exact h u hold
    · exact htask htarget ht ht' (h t (List.mem_of_getElem? ht))

/-- What an action that takes a step on a task does to the executor. -/
theorem target_cases {i : Nat} {ta : TaskAction} (h : s.target a = some (i, ta)) :
    (∃ alloc, ta = .register s.stopped alloc ∧ s.advance a =
      if s.stopped = false ∧ alloc = true then { s with list := s.list ++ [i] } else s) ∨
    (a = .task i ta ∧ ta.isLocal = true ∧ s.advance a = s) ∨
    (∃ rest, s.stop = .revoking (i :: rest) ∧ ta = .revoke .entry ∧
      s.advance a = { s with stop := .flushing i rest }) ∨
    (∃ rest, s.stop = .flushing i rest ∧ ta = .flush .entry ∧
      s.advance a = { s with stop := .dropping i rest }) ∨
    (∃ rest, s.stop = .dropping i rest ∧ ta = .drop .entry ∧
      s.advance a = { s with stop := .revoking rest }) := by
  cases a with
  | register j alloc =>
    cases h
    exact Or.inl ⟨alloc, rfl, rfl⟩
  | task j a =>
    obtain ⟨hlocal, ⟨⟩⟩ := Option.ite_none_right_eq_some.mp h
    exact Or.inr (Or.inl ⟨rfl, hlocal, rfl⟩)
  | stopRevoke =>
    simp only [target] at h
    split at h
    next j rest hstop =>
      cases h
      exact Or.inr (Or.inr (Or.inl ⟨rest, hstop, rfl, by rw [advance, hstop]⟩))
    · cases h
  | stopFlush =>
    simp only [target] at h
    split at h
    next j rest hstop =>
      cases h
      exact Or.inr (Or.inr (Or.inr (Or.inl ⟨rest, hstop, rfl, by rw [advance, hstop]⟩)))
    · cases h
  | stopDrop =>
    simp only [target] at h
    split at h
    next j rest hstop =>
      cases h
      exact Or.inr (Or.inr (Or.inr (Or.inr ⟨rest, hstop, rfl, by rw [advance, hstop]⟩)))
    · cases h
  | _ => cases h

end WorkqueueExecutor

end Rko
