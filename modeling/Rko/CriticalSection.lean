import Mathlib.Logic.Function.Basic
import Mathlib.Tactic.Ring

namespace CriticalSection

/-- Code that accesses data of type `σ` step by step. An access may change the data, and what comes
next may depend on what it found there. -/
inductive Section (σ α : Type)
  | ret (a : α)
  | access (f : σ → σ) (next : σ → Section σ α)

namespace Section

variable {σ α β : Type}

/-- All accesses at once: the result and the data that is left. -/
def run : Section σ α → σ → α × σ
  | ret a, s => (a, s)
  | access f next, s => (next s).run (f s)

def bind : Section σ α → (α → Section σ β) → Section σ β
  | ret a, g => g a
  | access f next, g => access f fun s => (next s).bind g

instance : Monad (Section σ) where
  pure := ret
  bind := bind

def read (g : σ → α) : Section σ α := access id fun s => ret (g s)

def modify (f : σ → σ) : Section σ Unit := access f fun _ => ret ()

@[simp] theorem run_pure (a : α) (s : σ) : (pure a : Section σ α).run s = (a, s) := rfl

@[simp] theorem run_ret (a : α) (s : σ) : (ret a : Section σ α).run s = (a, s) := rfl

@[simp] theorem run_read (g : σ → α) (s : σ) : (read g).run s = (g s, s) := rfl

@[simp] theorem run_modify (f : σ → σ) (s : σ) : (modify f).run s = ((), f s) := rfl

@[simp] theorem run_bind (p : Section σ α) (g : α → Section σ β) (s : σ) :
    (p >>= g).run s = (g (p.run s).1).run (p.run s).2 := by
  induction p generalizing s with
  | ret a => rfl
  | access f next ih => exact ih s (f s)

@[simp] theorem run_map (g : α → β) (p : Section σ α) (s : σ) :
    (g <$> p).run s = (g (p.run s).1, (p.run s).2) := run_bind p (pure ∘ g) s

end Section

section Scan

variable {σ α : Type} (view : σ → List α) (p : α → Bool)

/-- A search in the list that `view` shows, which looks at one element in each access. -/
def scan : Nat → Nat → Section σ (Option Nat)
  | 0, _ => pure none
  | n + 1, i => do
    match ← Section.read fun s => (view s)[i]? with
    | none => pure none
    | some x => if p x then pure (some i) else scan n (i + 1)

/-- The search from the start of the list to its end. -/
def position : Section σ (Option Nat) := do
  let n ← Section.read fun s => (view s).length
  scan view p n 0

theorem run_scan (s : σ) (n i : Nat) (hn : (view s).length ≤ i + n) :
    (scan view p n i).run s = ((((view s).drop i).findIdx? p).map (· + i), s) := by
  induction n generalizing i with
  | zero =>
    rw [List.drop_eq_nil_of_le (by omega)]
    rfl
  | succ n ih =>
    rw [scan, Section.run_bind, Section.run_read]
    cases hx : (view s)[i]? with
    | none =>
      rw [List.drop_eq_nil_of_le (List.getElem?_eq_none_iff.mp hx)]
      rfl
    | some x =>
      obtain ⟨hi, hget⟩ := List.getElem?_eq_some_iff.mp hx
      rw [List.drop_eq_getElem_cons hi, hget, List.findIdx?_cons]
      by_cases hp : p x
      · simp [hp]
      · simp only [hp, Bool.false_eq_true, if_false]
        rw [ih (i + 1) (by omega), Option.map_map]
        congr 2
        funext k
        simp only [Function.comp]
        omega

@[simp] theorem run_position (s : σ) :
    (position view p).run s = ((view s).findIdx? p, s) := by
  rw [position, Section.run_bind, Section.run_read, run_scan view p s _ 0 (by omega)]
  simp

end Scan

end CriticalSection
