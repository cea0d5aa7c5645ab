import Mathlib.Data.List.Chain
import Mathlib.Data.List.Nodup
import Mathlib.Logic.Function.Basic

namespace LinkRing

open Function

variable {A : Type}

/-- Each element of the list points to the next one. -/
def Follows (f : A → Option A) (l : List A) : Prop := l.IsChain fun a b => f a = some b

/-- The elements met in `n` steps from `a` on. -/
def walk (f : A → Option A) : Nat → A → List A
  | 0, _ => []
  | n + 1, a =>
    match f a with
    | some b => b :: walk f n b
    | none => []

section

variable {f g : A → Option A} {l l₁ l₂ : List A} {a b : A}

theorem follows_cons : Follows f (a :: b :: l) ↔ f a = some b ∧ Follows f (b :: l) :=
  List.isChain_cons_cons

theorem follows_middle : Follows f (l₁ ++ a :: b :: l₂) ↔
    Follows f (l₁ ++ [a]) ∧ f a = some b ∧ Follows f (b :: l₂) :=
  List.isChain_append_cons_cons

theorem Follows.walk_eq (h : Follows f (a :: l)) : walk f l.length a = l := by
  induction l generalizing a with
  | nil => rfl
  | cons b l ih =>
    obtain ⟨hab, hrest⟩ := follows_cons.mp h
    rw [List.length_cons, walk, hab]
    exact congrArg (b :: ·) (ih hrest)

/-- The last element points nowhere that matters. -/
theorem Follows.congr (h : Follows f l) (heq : ∀ a ∈ l.dropLast, g a = f a) : Follows g l := by
  induction l with
  | nil => exact List.isChain_nil
  | cons a l ih =>
    cases l with
    | nil => exact List.isChain_singleton a
    | cons b l =>
      obtain ⟨hab, hrest⟩ := follows_cons.mp h
      refine follows_cons.mpr ⟨(heq a List.mem_cons_self).trans hab, ih hrest ?_⟩
      exact fun c hc => heq c (List.mem_cons_of_mem a hc)

end

variable [DecidableEq A]

section

variable {f : A → Option A} {l₁ l₂ : List A} {p x n : A}

theorem Follows.insert (h : Follows f (l₁ ++ p :: n :: l₂))
    (hnodup : (l₁ ++ p :: (n :: l₂).dropLast).Nodup) (hx : x ∉ l₁ ++ p :: (n :: l₂).dropLast) :
    Follows (update (update f x (some n)) p (some x)) (l₁ ++ p :: x :: n :: l₂) := by
  obtain ⟨hleft, -, hright⟩ := follows_middle.mp h
  obtain ⟨hp₁, hp₂⟩ := List.nodup_middle.mp hnodup |> List.nodup_cons.mp
  have hpx : p ≠ x := by
    rintro rfl
    exact hx (List.mem_append_right _ List.mem_cons_self)
  have hsame : ∀ a ∈ l₁ ++ (n :: l₂).dropLast,
      update (update f x (some n)) p (some x) a = f a := by
    intro a ha
    have hap : a ≠ p := fun heq => hp₁ (heq ▸ ha)
    have hax : a ≠ x := by
      rintro rfl
      rcases List.mem_append.mp ha with ha | ha
      · exact hx (List.mem_append_left _ ha)
      · exact hx (List.mem_append_right _ (List.mem_cons_of_mem p ha))
    rw [update_of_ne hap, update_of_ne hax]
  refine follows_middle.mpr ⟨hleft.congr fun a ha => ?_, update_self _ _ _, ?_⟩
  · rw [List.dropLast_concat] at ha
    exact hsame a (List.mem_append_left _ ha)
  · refine follows_cons.mpr ⟨?_, hright.congr fun a ha => ?_⟩
    · rw [update_of_ne hpx.symm, update_self]
    · exact hsame a (List.mem_append_right _ ha)

theorem Follows.remove (h : Follows f (l₁ ++ p :: x :: n :: l₂))
    (hnodup : (l₁ ++ p :: x :: (n :: l₂).dropLast).Nodup) :
    Follows (update (update f p (some n)) x none) (l₁ ++ p :: n :: l₂) := by
  obtain ⟨hleft, -, hrest⟩ := follows_middle.mp h
  obtain ⟨-, hright⟩ := follows_cons.mp hrest
  obtain ⟨hp, hothers⟩ := List.nodup_middle.mp hnodup |> List.nodup_cons.mp
  obtain ⟨hx, -⟩ := List.nodup_middle.mp hothers |> List.nodup_cons.mp
  have hpx : p ≠ x := by
    rintro rfl
    exact hp (List.mem_append_right _ List.mem_cons_self)
  have hsame : ∀ a ∈ l₁ ++ (n :: l₂).dropLast, update (update f p (some n)) x none a = f a := by
    intro a ha
    have hax : a ≠ x := fun heq => hx (heq ▸ ha)
    have hap : a ≠ p := by
      rintro rfl
      rcases List.mem_append.mp ha with ha | ha
      · exact hp (List.mem_append_left _ ha)
      · exact hp (List.mem_append_right _ (List.mem_cons_of_mem x ha))
    rw [update_of_ne hax, update_of_ne hap]
  refine follows_middle.mpr ⟨hleft.congr fun a ha => ?_, ?_, hright.congr fun a ha => ?_⟩
  · rw [List.dropLast_concat] at ha
    exact hsame a (List.mem_append_left _ ha)
  · rw [update_of_ne hpx, update_self]
  · exact hsame a (List.mem_append_right _ ha)

end

/-- The pointers lead from `head` through `xs` back to it, and the other way round. -/
structure Ring (next prev : A → Option A) (head : A) (xs : List A) : Prop where
  nodup : (head :: xs).Nodup
  forward : Follows next (head :: (xs ++ [head]))
  backward : Follows prev (head :: (xs.reverse ++ [head]))

namespace Ring

variable {next prev : A → Option A} {head x : A} {xs : List A}

omit [DecidableEq A]

theorem empty (hnext : next head = some head) (hprev : prev head = some head) :
    Ring next prev head [] :=
  ⟨List.nodup_singleton head, follows_cons.mpr ⟨hnext, List.isChain_singleton head⟩,
    follows_cons.mpr ⟨hprev, List.isChain_singleton head⟩⟩

theorem next_head (h : Ring next prev head []) : next head = some head :=
  (follows_cons.mp h.forward).1

theorem first (h : Ring next prev head (x :: xs)) :
    next head = some x ∧ prev x = some head ∧ x ≠ head := by
  refine ⟨(follows_cons.mp h.forward).1, ?_, ?_⟩
  · have hback := h.backward
    rw [List.reverse_cons, List.append_assoc, ← List.cons_append] at hback
    exact (follows_middle.mp hback).2.1
  · rintro rfl
    exact (List.nodup_cons.mp h.nodup).1 List.mem_cons_self

theorem walk_forward (h : Ring next prev head xs) : walk next (xs.length + 1) head = xs ++ [head] := by
  have hwalk := h.forward.walk_eq
  rwa [List.length_append, List.length_singleton] at hwalk

theorem walk_backward (h : Ring next prev head xs) :
    walk prev (xs.length + 1) head = xs.reverse ++ [head] := by
  have hwalk := h.backward.walk_eq
  rwa [List.length_append, List.length_singleton, List.length_reverse] at hwalk

variable [DecidableEq A]

/-- A new element goes between the last one and the head. -/
theorem insert_last (h : Ring next prev head xs) (hx : x ∉ head :: xs) :
    ∃ p, prev head = some p ∧ p ∈ head :: xs ∧
      Ring (update (update next x (some head)) p (some x))
        (update (update prev x (some p)) head (some x)) head (xs ++ [x]) := by
  obtain ⟨ys, p, hys⟩ : ∃ ys p, head :: xs = ys ++ [p] := by
    rcases List.eq_nil_or_concat (head :: xs) with hnil | ⟨ys, p, hys⟩
    · cases hnil
    · exact ⟨ys, p, hys.trans List.concat_eq_append⟩
  have hreverse : xs.reverse ++ [head] = p :: ys.reverse := by
    rw [← List.reverse_cons, hys, List.reverse_append]
    rfl
  have hforward : head :: (xs ++ [head]) = ys ++ p :: head :: [] := by
    rw [← List.cons_append, hys, List.append_assoc]
    rfl
  have hback := h.backward
  rw [hreverse] at hback
  have hdrop : (p :: ys.reverse).dropLast = xs.reverse := by
    rw [← hreverse, List.dropLast_concat]
  have hnodup := h.nodup
  refine ⟨p, (follows_cons.mp hback).1, hys ▸ List.mem_append_right _ List.mem_cons_self, ?_,
    ?_, ?_⟩
  · rw [← List.cons_append]
    exact List.nodup_append_comm.mp (List.nodup_cons.mpr ⟨hx, hnodup⟩)
  · have hfore : Follows next (ys ++ p :: head :: []) := hforward ▸ h.forward
    have hins := hfore.insert (x := x)
      (by rw [List.dropLast_singleton, ← hys]; exact hnodup)
      (by rw [List.dropLast_singleton, ← hys]; exact hx)
    have hlist : head :: (xs ++ [x] ++ [head]) = ys ++ p :: x :: head :: [] := by
      rw [List.append_assoc, ← List.cons_append, hys, List.append_assoc]
      rfl
    rw [hlist]
    exact hins
  · have hback' : Follows prev ([] ++ head :: p :: ys.reverse) := hback
    have hins := hback'.insert (x := x)
      (by rw [hdrop]; exact ((List.reverse_perm xs).symm.cons head).nodup_iff.mp hnodup)
      (by
        rw [hdrop, List.nil_append, List.mem_cons, List.mem_reverse, ← List.mem_cons]
        exact hx)
    rw [List.reverse_append, List.append_assoc, hreverse]
    exact hins

/-- An element is taken out from between its neighbours, which may be the head. -/
theorem remove (h : Ring next prev head xs) (hx : x ∈ xs) :
    ∃ p n, prev x = some p ∧ next x = some n ∧ p ∈ head :: xs ∧ n ∈ head :: xs ∧
      Ring (update (update next p (some n)) x none) (update (update prev n (some p)) x none) head
        (xs.erase x) := by
  obtain ⟨s, t, rfl⟩ := List.append_of_mem hx
  obtain ⟨l₁, p, hl₁⟩ : ∃ l₁ p, head :: s = l₁ ++ [p] := by
    rcases List.eq_nil_or_concat (head :: s) with hnil | ⟨l₁, p, hl₁⟩
    · cases hnil
    · exact ⟨l₁, p, hl₁.trans List.concat_eq_append⟩
  obtain ⟨n, l₂, hl₂⟩ : ∃ n l₂, t ++ [head] = n :: l₂ := by
    cases t with
    | nil => exact ⟨head, [], rfl⟩
    | cons n t => exact ⟨n, t ++ [head], rfl⟩
  have hxs : x ∉ s ++ t :=
    (List.nodup_cons.mp (List.nodup_middle.mp (List.nodup_cons.mp h.nodup).2)).1
  have herase : (s ++ x :: t).erase x = s ++ t := by
    rw [List.erase_append_right _ fun hmem => hxs (List.mem_append_left _ hmem),
      List.erase_cons_head]
  have hreverse : s.reverse ++ [head] = p :: l₁.reverse := by
    rw [← List.reverse_cons, hl₁, List.reverse_append]
    rfl
  have hreverse₂ : head :: t.reverse = l₂.reverse ++ [n] := by
    rw [← List.reverse_cons, ← hl₂, List.reverse_append]
    rfl
  have hforward : ∀ m, head :: (s ++ m ++ t ++ [head]) = l₁ ++ p :: (m ++ n :: l₂) := by
    intro m
    rw [List.append_assoc, hl₂, List.append_assoc, ← List.cons_append, hl₁, List.append_assoc]
    rfl
  have hbackward : ∀ m, head :: ((s ++ m ++ t).reverse ++ [head]) =
      l₂.reverse ++ n :: (m.reverse ++ p :: l₁.reverse) := by
    intro m
    rw [List.reverse_append, List.reverse_append, List.append_assoc, List.append_assoc, hreverse,
      ← List.cons_append, hreverse₂, List.append_assoc]
    rfl
  have hfore : Follows next (l₁ ++ p :: x :: n :: l₂) := by
    have := h.forward
    rwa [List.append_cons s x t, hforward [x]] at this
  have hback : Follows prev (l₂.reverse ++ n :: x :: p :: l₁.reverse) := by
    have := h.backward
    rwa [List.append_cons s x t, hbackward [x]] at this
  have hp : p ∈ head :: s := hl₁ ▸ List.mem_append_right _ List.mem_cons_self
  have hn : n ∈ t ++ [head] := hl₂ ▸ List.mem_cons_self
  refine ⟨p, n, (follows_cons.mp (follows_middle.mp hback).2.2).1,
    (follows_cons.mp (follows_middle.mp hfore).2.2).1, ?_, ?_, ?_, ?_, ?_⟩
  · exact List.mem_append_left (x :: t) hp
  · rcases List.mem_append.mp hn with hn | hn
    · exact List.mem_cons_of_mem _ (List.mem_append_right _ (List.mem_cons_of_mem _ hn))
    · cases List.mem_singleton.mp hn
      exact List.mem_cons_self
  · rw [herase]
    exact h.nodup.sublist (((List.sublist_cons_self x t).append_left s).cons_cons head)
  · have hdrop : (n :: l₂).dropLast = t := by rw [← hl₂, List.dropLast_concat]
    have hremoved := hfore.remove (by
      rw [hdrop, List.append_cons, ← hl₁]
      exact h.nodup)
    rw [herase]
    have hlist := hforward []
    rw [List.append_nil] at hlist
    rw [hlist]
    exact hremoved
  · have hdrop : (p :: l₁.reverse).dropLast = s.reverse := by
      rw [← hreverse, List.dropLast_concat]
    have hremoved := hback.remove (by
      rw [hdrop, List.append_cons, ← hreverse₂]
      have hlist : (s ++ x :: t).reverse = t.reverse ++ x :: s.reverse := by simp
      have hperm := ((List.reverse_perm (s ++ x :: t)).symm.trans (.of_eq hlist)).cons head
      exact hperm.nodup_iff.mp h.nodup)
    rw [herase]
    have hlist := hbackward []
    rw [List.append_nil] at hlist
    rw [hlist]
    exact hremoved

end Ring

end LinkRing
