import Mathlib.Data.List.Induction
import Mathlib.Data.List.Perm.Subperm

namespace CallPool

variable {τ β : Type} (f : τ → Option β) {pool : List τ} {i : Nat} {t : τ}

theorem getElem?_concat_cases {u : τ} (h : (pool ++ [t])[i]? = some u) :
    pool[i]? = some u ∨ i = pool.length ∧ u = t := by
  rcases Nat.lt_trichotomy i pool.length with hlt | rfl | hgt
  · rw [List.getElem?_append_left hlt] at h
    exact Or.inl h
  · rw [List.getElem?_concat_length] at h
    exact Or.inr ⟨rfl, (Option.some.inj h).symm⟩
  · rw [List.getElem?_eq_none (by rw [List.length_append, List.length_singleton]; omega)] at h
    cases h

theorem getElem?_set_cases {j : Nat} {u : τ} (h : (pool.set i t)[j]? = some u) :
    j = i ∧ u = t ∨ j ≠ i ∧ pool[j]? = some u := by
  rw [List.getElem?_set] at h
  split at h
  next hij =>
    exact Or.inl ⟨hij.symm, (Option.some.inj (Option.ite_none_right_eq_some.mp h).2).symm⟩
  next hij => exact Or.inr ⟨fun heq => hij heq.symm, h⟩

theorem mem_set_self (ht : pool[i]? = some t) (t' : τ) : t' ∈ pool.set i t' := by
  obtain ⟨hi, -⟩ := List.getElem?_eq_some_iff.mp ht
  exact List.mem_set hi t'

theorem mem_set_of_ne (ht : pool[i]? = some t) (t' : τ) {u : τ} (hu : u ∈ pool) (hne : u ≠ t) :
    u ∈ pool.set i t' := by
  obtain ⟨j, hj⟩ := List.mem_iff_getElem?.mp hu
  have hij : i ≠ j := by
    rintro rfl
    rw [ht] at hj
    exact hne (Option.some.inj hj).symm
  exact List.mem_iff_getElem?.mpr ⟨j, by rw [List.getElem?_set_ne hij]; exact hj⟩

theorem mem_eraseIdx_of_ne (ht : pool[i]? = some t) {u : τ} (hu : u ∈ pool) (hne : u ≠ t) :
    u ∈ pool.eraseIdx i := by
  obtain ⟨j, hj⟩ := List.mem_iff_getElem?.mp hu
  refine List.mem_eraseIdx_iff_getElem?.mpr ⟨j, fun hji => ?_, hj⟩
  rw [hji, ht] at hj
  exact hne (Option.some.inj hj).symm

theorem filterMap_cons (t : τ) (pool : List τ) :
    (t :: pool).filterMap f = (f t).toList ++ pool.filterMap f := by
  cases hf : f t <;> simp [hf]

/-- What a projection of the calls in progress gains when one begins. -/
theorem filterMap_concat (pool : List τ) (t : τ) :
    (pool ++ [t]).filterMap f = pool.filterMap f ++ (f t).toList := by
  rw [List.filterMap_append, filterMap_cons, List.filterMap_nil, List.append_nil]

/-- What it loses when one of them ends. -/
theorem filterMap_eraseIdx (ht : pool[i]? = some t) :
    ((f t).toList ++ (pool.eraseIdx i).filterMap f).Perm (pool.filterMap f) := by
  obtain ⟨hi, rfl⟩ := List.getElem?_eq_some_iff.mp ht
  rw [← filterMap_cons]
  exact (List.getElem_cons_eraseIdx_perm hi).filterMap f

/-- What it loses and gains when one of them moves on. -/
theorem filterMap_set (ht : pool[i]? = some t) (t' : τ) :
    ((f t).toList ++ (pool.set i t').filterMap f).Perm ((f t').toList ++ pool.filterMap f) := by
  obtain ⟨hi, -⟩ := List.getElem?_eq_some_iff.mp ht
  have hset : ((pool.set i t').filterMap f).Perm
      ((f t').toList ++ (pool.eraseIdx i).filterMap f) := by
    rw [← filterMap_cons]
    exact (List.set_perm_cons_eraseIdx hi t').filterMap f
  have hswap := List.perm_append_comm_assoc (f t).toList (f t').toList ((pool.eraseIdx i).filterMap f)
  exact (hset.append_left _).trans (hswap.trans ((filterMap_eraseIdx f ht).append_left _))

theorem filterMap_set_subperm (ht : pool[i]? = some t) {t' : τ} (ht' : f t' = none) :
    ((pool.set i t').filterMap f).Subperm (pool.filterMap f) := by
  have hperm := filterMap_set f ht t'
  rw [ht', Option.toList_none, List.nil_append] at hperm
  exact (List.sublist_append_right _ _).subperm.trans hperm.subperm

/-- The values made so far are numbered in their order, and each of them is found once by `f` in the
pool or among those that were dropped. -/
def Accounted (f : τ → Option Nat) (pool : List τ) (dropped : List Nat) (next : Nat) : Prop :=
  (pool.filterMap f ++ dropped).Perm (List.range next)

namespace Accounted

variable {f : τ → Option Nat} {dropped : List Nat} {next : Nat}

theorem concat (h : Accounted f pool dropped next) (ht : f t = none) :
    Accounted f (pool ++ [t]) dropped next := by
  rw [Accounted, filterMap_concat, ht, Option.toList_none, List.append_nil]
  exact h

theorem move (h : Accounted f pool dropped next) (ht : pool[i]? = some t) {t' : τ}
    (ht' : f t' = f t) : Accounted f (pool.set i t') dropped next := by
  have hperm := filterMap_set f ht t'
  rw [ht', List.perm_append_left_iff] at hperm
  exact (hperm.append_right dropped).trans h

theorem make (h : Accounted f pool dropped next) (ht : pool[i]? = some t) (hnone : f t = none)
    {t' : τ} (ht' : f t' = some next) : Accounted f (pool.set i t') dropped (next + 1) := by
  have hperm := filterMap_set f ht t'
  rw [hnone, ht', Option.toList_none, List.nil_append] at hperm
  refine (hperm.append_right dropped).trans ?_
  rw [List.append_assoc, List.range_succ]
  exact (List.Perm.append_left _ h).trans List.perm_append_comm

theorem drop (h : Accounted f pool dropped next) (ht : pool[i]? = some t) {d : Nat}
    (hd : f t = some d) {t' : τ} (ht' : f t' = none) :
    Accounted f (pool.set i t') (d :: dropped) next := by
  have hperm := filterMap_set f ht t'
  rw [hd, ht', Option.toList_none, List.nil_append] at hperm
  exact List.perm_middle.trans ((hperm.append_right dropped).trans h)

theorem remove (h : Accounted f pool dropped next) (ht : pool[i]? = some t) {d : Nat}
    (hd : f t = some d) : Accounted f (pool.eraseIdx i) (d :: dropped) next := by
  have hperm := filterMap_eraseIdx f ht
  rw [hd] at hperm
  exact List.perm_middle.trans ((hperm.append_right dropped).trans h)

end Accounted

/-- The positions at which a property holds are as many as the members that have it. -/
theorem countP_range (p : τ → Bool) (pool : List τ) :
    ((List.range pool.length).countP fun i => pool[i]?.any p) = pool.countP p := by
  induction pool using List.reverseRecOn with
  | nil => rfl
  | append_singleton pool t ih =>
    have hold : ((List.range pool.length).countP fun i => (pool ++ [t])[i]?.any p) =
        (List.range pool.length).countP fun i => pool[i]?.any p := by
      refine List.countP_congr fun i hi => ?_
      rw [List.getElem?_append_left (List.mem_range.mp hi)]
    rw [List.length_append, List.length_singleton, List.range_succ, List.countP_append, hold, ih,
      List.countP_append]
    simp [List.countP_singleton]

theorem length_eq_countP {l : List Nat} {p : τ → Bool} (hl : l.Nodup)
    (h : ∀ i, i ∈ l ↔ ∃ t, pool[i]? = some t ∧ p t = true) : l.length = pool.countP p := by
  rw [← countP_range, List.countP_eq_length_filter]
  refine ((List.perm_ext_iff_of_nodup hl (List.nodup_range.filter _)).mpr fun i => ?_).length_eq
  rw [h, List.mem_filter, List.mem_range, Option.any_eq_true]
  constructor
  · rintro ⟨t, ht, hp⟩
    exact ⟨(List.getElem?_eq_some_iff.mp ht).1, t, ht, hp⟩
  · rintro ⟨-, t, ht, hp⟩
    exact ⟨t, ht, hp⟩

theorem countP_eraseIdx (ht : pool[i]? = some t) (p : τ → Bool) :
    (pool.eraseIdx i).countP p + (if p t then 1 else 0) = pool.countP p := by
  obtain ⟨hi, rfl⟩ := List.getElem?_eq_some_iff.mp ht
  rw [← (List.getElem_cons_eraseIdx_perm hi).countP_eq p, List.countP_cons]

section Count

variable [DecidableEq τ]

theorem count_eraseIdx (ht : pool[i]? = some t) (u : τ) :
    (pool.eraseIdx i).count u + (if t = u then 1 else 0) = pool.count u := by
  obtain ⟨hi, rfl⟩ := List.getElem?_eq_some_iff.mp ht
  rw [← (List.getElem_cons_eraseIdx_perm hi).count_eq u, List.count_cons]
  simp only [beq_iff_eq]

theorem count_set (ht : pool[i]? = some t) (t' u : τ) :
    (pool.set i t').count u + (if t = u then 1 else 0) =
      pool.count u + (if t' = u then 1 else 0) := by
  obtain ⟨hi, -⟩ := List.getElem?_eq_some_iff.mp ht
  rw [(List.set_perm_cons_eraseIdx hi t').count_eq u, List.count_cons, ← count_eraseIdx ht u]
  simp only [beq_iff_eq]
  omega

end Count

theorem nodup_of_subperm {α : Type} {l l' : List α} (h : l.Subperm l') (hl' : l'.Nodup) :
    l.Nodup := by
  obtain ⟨l'', hperm, hsub⟩ := h
  exact hperm.nodup_iff.mp (hl'.sublist hsub)

theorem nodup_map_of_subperm {α γ : Type} {l l' : List α} {g : α → γ} (h : l.Subperm l')
    (hl' : (l'.map g).Nodup) : (l.map g).Nodup := by
  obtain ⟨l'', hperm, hsub⟩ := h
  exact (hperm.map g).nodup_iff.mp (hl'.sublist (hsub.map g))

section Roster

variable {ι : Type} {roster : List (ι × τ)}

/-- The roster has every call in progress once, with the stage it is at. -/
structure Enrols (roster : List (ι × τ)) (stage : ι → Option τ) : Prop where
  nodup : (roster.map Prod.fst).Nodup
  mem_iff : ∀ i t, (i, t) ∈ roster ↔ stage i = some t

namespace Enrols

variable {stage : ι → Option τ} {k : ι} {n : Nat}

theorem getElem? (h : Enrols roster stage) (hk : stage k = some t) :
    ∃ n : Nat, roster[n]? = some (k, t) := List.mem_iff_getElem?.mp ((h.mem_iff k t).mpr hk)

theorem not_mem (h : Enrols roster stage) (hk : stage k = none) : k ∉ roster.map Prod.fst := by
  intro hmem
  obtain ⟨⟨i, t⟩, hit, rfl⟩ := List.mem_map.mp hmem
  rw [(h.mem_iff i t).mp hit] at hk
  cases hk

theorem congr {stage' : ι → Option τ} (h : Enrols roster stage) (heq : ∀ i, stage' i = stage i) :
    Enrols roster stage' := ⟨h.nodup, fun i t => by rw [heq, h.mem_iff]⟩

variable [DecidableEq ι]

/-- A call begins. -/
theorem concat (h : Enrols roster stage) (hk : stage k = none) (t : τ) :
    Enrols (roster ++ [(k, t)]) (Function.update stage k (some t)) := by
  refine ⟨?_, fun i u => ?_⟩
  · rw [List.map_append, List.map_singleton]
    exact List.nodup_append.mpr ⟨h.nodup, List.pairwise_singleton .., fun a ha b hb hab => by
      rw [List.mem_singleton] at hb
      rw [hab, hb] at ha
      exact h.not_mem hk ha⟩
  · rw [List.mem_append, List.mem_singleton, h.mem_iff]
    by_cases hi : i = k
    · subst hi
      rw [Function.update_self, hk]
      simp [eq_comm]
    · rw [Function.update_of_ne hi]
      simp [hi]

/-- The call at `n` ends. -/
theorem eraseIdx (h : Enrols roster stage) (hn : roster[n]? = some (k, t)) :
    Enrols (roster.eraseIdx n) (Function.update stage k none) := by
  obtain ⟨hlt, hget⟩ := List.getElem?_eq_some_iff.mp hn
  have hperm := List.getElem_cons_eraseIdx_perm hlt
  rw [hget] at hperm
  have hnodup := (hperm.map Prod.fst).nodup_iff.mpr h.nodup
  rw [List.map_cons, List.nodup_cons] at hnodup
  refine ⟨hnodup.2, fun i u => ?_⟩
  have hmem : (i, u) ∈ roster ↔ (i, u) = (k, t) ∨ (i, u) ∈ roster.eraseIdx n := by
    rw [← hperm.mem_iff, List.mem_cons]
  by_cases hi : i = k
  · subst hi
    rw [Function.update_self]
    refine ⟨fun hu => absurd (List.mem_map_of_mem hu) hnodup.1, fun hu => ?_⟩
    cases hu
  · rw [Function.update_of_ne hi, ← h.mem_iff, hmem]
    simp [hi]

/-- The call at `n` moves on to another stage. -/
theorem set (h : Enrols roster stage) (hn : roster[n]? = some (k, t)) (t' : τ) :
    Enrols (roster.set n (k, t')) (Function.update stage k (some t')) := by
  have hlt := (List.getElem?_eq_some_iff.mp hn).1
  have hends := (h.eraseIdx hn).concat (Function.update_self ..) t'
  have hperm : (roster.set n (k, t')).Perm (roster.eraseIdx n ++ [(k, t')]) :=
    (List.set_perm_cons_eraseIdx hlt _).trans (List.perm_append_singleton ..).symm
  refine ⟨(hperm.map Prod.fst).nodup_iff.mpr hends.nodup, fun i u => ?_⟩
  rw [hperm.mem_iff, hends.mem_iff, Function.update_idem]

end Enrols

end Roster

end CallPool
