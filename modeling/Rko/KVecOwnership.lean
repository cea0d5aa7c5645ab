import Mathlib.Data.List.Perm.Basic
import Rko.KVecList

namespace Rko

open CallProgram GuardedRun

variable {T : Type}

/-- Who has the elements: the vector, the iterator it was turned into, or nobody any more. -/
inductive KVecOwner (T : Type)
  | vec (v : KVec T)
  | iter (it : IntoIter T)
  | gone

/-- `drop` is the end of the vector or of the iterator. -/
inductive KVecAction (T : Type)
  | op (op : KVecOp T)
  | intoIter
  | next
  | drop

namespace KVecAction

def given : KVecAction T → List T
  | op o => o.given
  | _ => []

/-- What is handed back with the reply of an operation. -/
def handed : Except AllocError (Option T) → List T
  | .ok x => x.toList
  | .error _ => []

/-- The calls that the types allow, with the elements they hand back. -/
def exec (elem : ElementLayout) :
    KVecOwner T → KVecAction T → Option (KVecProgram T (List T × KVecOwner T))
  | .vec v, op o => some do
    let (reply, v) ← o.exec elem v
    return (handed reply, .vec v)
  | .vec v, intoIter => some (return ([], .iter v.intoIter))
  | .vec v, drop => some do
    v.drop elem
    return ([], .gone)
  | .iter it, next => some do
    let (val, it) ← it.next
    return (val.toList, .iter it)
  | .iter it, drop => some do
    it.drop elem
    return ([], .gone)
  | _, _ => none

end KVecAction

/-- The life of a vector: the elements moved into it and those handed back so far. -/
structure KVecLife (T : Type) where
  owner : KVecOwner T
  events : List (KVecEvent T)
  given : List T
  handed : List T

namespace KVecLife

def new : KVecLife T := ⟨.vec KVec.new, [], [], []⟩

/-- The elements that were cloned into the vector or made for it. -/
def created (s : KVecLife T) : List T := (account s.events).created.map Prod.snd

def dropped (s : KVecLife T) : List T := (account s.events).dropped

def step (elem : ElementLayout) (env : KVecEnvironment T) (s : KVecLife T) (a : KVecAction T) :
    Option (KVecLife T) :=
  (a.exec elem s.owner).bind fun p =>
    match p.run env s.events with
    | (.done (vals, owner), h) => some ⟨owner, h, s.given ++ a.given, s.handed ++ vals⟩
    | _ => none

end KVecLife

section Lists

variable {xs : List T}

theorem perm_getLast (xs : List T) : xs.Perm (xs.getLast?.toList ++ xs.dropLast) := by
  rcases List.eq_nil_or_concat xs with rfl | ⟨ys, y, rfl⟩
  · exact List.Perm.nil
  · rw [List.concat_eq_append, List.getLast?_append_of_ne_nil _ (List.cons_ne_nil y []),
      List.dropLast_concat]
    exact List.perm_append_comm

theorem swapRemoved_perm {i : Nat} (hi : i < xs.length) :
    (KVec.swapRemoved xs i).Perm (xs.eraseIdx i) := by
  obtain ⟨last, hlast⟩ : ∃ last, xs.getLast? = some last :=
    Option.isSome_iff_exists.mp (by rw [List.getLast?_isSome, List.ne_nil_iff_length_pos]; omega)
  have hend : (xs.set i last).getLast? = some last := by
    rw [List.getLast?_eq_getElem?, List.length_set]
    by_cases hsame : i = xs.length - 1
    · rw [hsame, List.getElem?_set_self (by omega)]
    · rw [List.getElem?_set_ne hsame, ← List.getLast?_eq_getElem?, hlast]
  have hsplit := perm_getLast (xs.set i last)
  rw [hend, Option.toList_some, List.singleton_append] at hsplit
  have hafter : KVec.swapRemoved xs i = (xs.set i last).dropLast := by
    rw [KVec.swapRemoved, hlast]
  rw [hafter]
  exact (hsplit.symm.trans (List.set_perm_cons_eraseIdx hi last)).cons_inv

/-- An operation on a list loses no element and has none twice. -/
theorem KVecOp.perm_after {op : KVecOp T} (hin : op.InRange xs) {made : List T}
    (hmade : made.length = (op.asks xs).length) :
    (op.given ++ made ++ xs).Perm ((op.result xs).toList ++ op.drops xs ++ op.after made xs) := by
  have hnone : op.asks xs = [] → made = [] := by
    intro hasks
    rw [hasks] at hmade
    exact List.eq_nil_of_length_eq_zero hmade
  have hcut : ∀ n, (made ++ xs).Perm (xs.drop n ++ (xs.take n ++ made)) := by
    intro n
    rw [← List.append_assoc]
    refine List.perm_append_comm.trans (List.Perm.append_right made ?_)
    exact (List.Perm.of_eq (List.take_append_drop n xs).symm).trans List.perm_append_comm
  have herase : ∀ i, i < xs.length → xs.Perm (xs[i]?.toList ++ xs.eraseIdx i) := by
    intro i hi
    rw [List.getElem?_eq_getElem hi, Option.toList_some, List.singleton_append]
    exact (List.getElem_cons_eraseIdx_perm hi).symm
  cases op with
  | withCapacity capacity =>
    rw [hnone rfl]
    exact List.Perm.of_eq (List.append_nil xs).symm
  | push val =>
    rw [hnone rfl]
    exact List.perm_append_comm
  | pop =>
    rw [hnone rfl]
    simpa [given, result, drops, after] using perm_getLast xs
  | remove index =>
    rw [hnone rfl]
    simpa [given, result, drops, after] using herase index hin
  | swapRemove index =>
    rw [hnone rfl]
    have hperm := (herase index hin).trans
      (List.Perm.append_left xs[index]?.toList (swapRemoved_perm hin).symm)
    simpa [given, result, drops, after] using hperm
  | truncate newLen =>
    rw [hnone rfl]
    exact (List.Perm.of_eq (List.take_append_drop newLen xs).symm).trans List.perm_append_comm
  | clear =>
    rw [hnone rfl]
    exact List.Perm.of_eq (List.append_nil xs).symm
  | reserve additional =>
    rw [hnone rfl]
    exact List.Perm.refl xs
  | resize newLen value =>
    have hvalue := List.Perm.append_left [value] (hcut newLen)
    refine hvalue.trans ?_
    show ([value] ++ (xs.drop newLen ++ (xs.take newLen ++ made))).Perm
      (xs.drop newLen ++ [value] ++ (xs.take newLen ++ made))
    rw [← List.append_assoc]
    exact List.Perm.append_right _ List.perm_append_comm
  | resizeWith newLen => exact hcut newLen
  | extendFromSlice other => exact List.perm_append_comm
  | fromSlice data => exact List.perm_append_comm

/-- Two balances, one after the other. -/
theorem perm_balance {given made handed dropped xs given' made' handed' dropped' ys : List T}
    (h : (given ++ made).Perm (handed ++ dropped ++ xs))
    (h' : (given' ++ made' ++ xs).Perm (handed' ++ dropped' ++ ys)) :
    ((given ++ given') ++ (made ++ made')).Perm
      ((handed ++ handed') ++ (dropped ++ dropped') ++ ys) := by
  classical
  rw [List.perm_iff_count] at h h' ⊢
  intro x
  have hx := h x
  have hx' := h' x
  simp only [List.count_append] at hx hx' ⊢
  omega

end Lists

/-- The elements that are still in the vector or the iterator. -/
def KVecOwner.Contains (elem : ElementLayout) : KVecOwner T → List T → Prop
  | .vec v, xs => Stores elem v xs
  | .iter it, xs => IntoIter.Remains elem it xs
  | .gone, xs => xs = []

namespace KVecAction

def InRange (xs : List T) : KVecAction T → Prop
  | op o => o.InRange xs
  | _ => True

variable {elem : ElementLayout} {owner : KVecOwner T} {xs : List T} {a : KVecAction T}
  {p : KVecProgram T (List T × KVecOwner T)}

/-- What a call takes in and makes, it hands back, drops or keeps. -/
def Settles (elem : ElementLayout) (a : KVecAction T) (xs : List T) (r : List T × KVecOwner T)
    (acc : Account T) : Prop :=
  ∃ ys, r.2.Contains elem ys ∧
    (a.given ++ acc.created.map Prod.snd ++ xs).Perm (r.1 ++ acc.dropped ++ ys)

theorem exec_accounts (hs : owner.Contains elem xs) (hexec : a.exec elem owner = some p)
    (hin : a.InRange xs) : Accounts p (Settles elem a xs) := by
  cases owner with
  | vec v =>
    cases a with
    | op o =>
      cases hexec
      apply (KVecOp.exec_accounts hs hin).bind
      intro r acc hperformed
      cases hperformed with
      | refused room =>
        refine Accounts.done_after ⟨xs, hs, ?_⟩
        rw [List.map_nil, List.append_nil]
        exact List.Perm.refl _
      | @served _ _ created room cap asked stores =>
        refine Accounts.done_after ⟨_, stores, KVecOp.perm_after hin ?_⟩
        rw [← asked, List.length_map, List.length_map]
    | intoIter =>
      cases hexec
      exact Accounts.done ⟨xs, IntoIter.remains_intoIter hs, List.Perm.refl _⟩
    | next => cases hexec
    | drop =>
      cases hexec
      apply (KVec.drop_accounts hs).bind
      rintro _ _ rfl
      refine Accounts.done ⟨[], rfl, ?_⟩
      exact List.Perm.of_eq (by simp [given])
  | iter it =>
    cases a with
    | next =>
      cases hexec
      apply (IntoIter.next_accounts hs).bind
      rintro ⟨x, it'⟩ _ ⟨rfl, hrest, rfl⟩
      refine Accounts.done ⟨xs.tail, hrest, List.Perm.of_eq ?_⟩
      cases xs <;> rfl
    | drop =>
      cases hexec
      apply (IntoIter.drop_accounts hs).bind
      rintro _ _ rfl
      refine Accounts.done ⟨[], rfl, ?_⟩
      exact List.Perm.of_eq (by simp [given])
    | op o => cases hexec
    | intoIter => cases hexec
  | gone => cases a <;> cases hexec

theorem exec_eq_fail (hs : owner.Contains elem xs) (hexec : a.exec elem owner = some p)
    (hout : ¬ a.InRange xs) : p = Program.fail .indexOutOfBounds := by
  cases a with
  | op o =>
    cases owner with
    | vec v =>
      cases hexec
      rw [KVecOp.exec_eq_fail hs hout]
      rfl
    | iter it => cases hexec
    | gone => cases hexec
  | intoIter => exact absurd trivial hout
  | next => exact absurd trivial hout
  | drop => exact absurd trivial hout

end KVecAction

namespace KVecLife

variable {elem : ElementLayout} {env : KVecEnvironment T} {s s' : KVecLife T} {a : KVecAction T}

/-- Every element is with the owner, with the caller or dropped, and in one place only. -/
def Balanced (elem : ElementLayout) (s : KVecLife T) : Prop :=
  ∃ xs, s.owner.Contains elem xs ∧ (s.given ++ s.created).Perm (s.handed ++ s.dropped ++ xs)

theorem balanced_new (elem : ElementLayout) : (new : KVecLife T).Balanced elem :=
  ⟨[], KVec.stores_new elem, List.Perm.refl _⟩

theorem Balanced.step (hs : s.Balanced elem) (hstep : step elem env s a = some s') :
    s'.Balanced elem := by
  obtain ⟨xs, hcontains, hperm⟩ := hs
  obtain ⟨p, hexec, hrun⟩ := Option.bind_eq_some_iff.mp hstep
  by_cases hin : a.InRange xs
  · obtain ⟨⟨vals, owner⟩, evs, hdone, ys, hys, hbalance⟩ :=
      (KVecAction.exec_accounts hcontains hexec hin).run env s.events
    rw [hdone] at hrun
    cases hrun
    refine ⟨ys, hys, ?_⟩
    have hboth := perm_balance hperm hbalance
    rw [created, dropped, account_append]
    rw [created, dropped, ← List.map_append] at hboth
    exact hboth
  · rw [KVecAction.exec_eq_fail hcontains hexec hin] at hrun
    cases hrun

end KVecLife

/-- Over the whole life of a vector every element is handed back or dropped, once; and no call reads
or drops a slot without a value. -/
theorem kvec_conserves_elements (elem : ElementLayout) (env : KVecEnvironment T)
    {actions : List (KVecAction T)} {s : KVecLife T}
    (hrun : run (KVecLife.step elem env) KVecLife.new actions = some s) :
    ∃ xs, s.owner.Contains elem xs ∧
      (s.given ++ s.created).Perm (s.handed ++ s.dropped ++ xs) ∧
      ((s.given ++ s.created).Nodup → (s.handed ++ s.dropped ++ xs).Nodup) ∧
      (s.owner = .gone → (s.given ++ s.created).Perm (s.handed ++ s.dropped)) ∧
      ∀ a p, KVecAction.exec elem s.owner a = some p →
        (a.InRange xs → ∃ r, (p.run env s.events).1 = .done r) ∧
        (¬ a.InRange xs → (p.run env s.events).1 = .failed .indexOutOfBounds) := by
  have hguard : Guarded (KVecLife.step elem env) (fun _ _ => True) KVecLife.new actions :=
    guarded_of_forall (fun _ _ => trivial) _
  obtain ⟨xs, hcontains, hperm⟩ : s.Balanced elem :=
    run_invariant (I := KVecLife.Balanced elem) (fun hs _ hstep => hs.step hstep)
      (KVecLife.balanced_new elem) hguard hrun
  refine ⟨xs, hcontains, hperm, hperm.nodup_iff.mp, fun hgone => ?_, fun a p hexec =>
    ⟨fun hin => ?_, fun hout => ?_⟩⟩
  · rw [hgone] at hcontains
    have hnil : xs = [] := hcontains
    rw [hnil, List.append_nil] at hperm
    exact hperm
  · obtain ⟨r, evs, hdone, -⟩ := (KVecAction.exec_accounts hcontains hexec hin).run env s.events
    exact ⟨r, by rw [hdone]⟩
  · rw [KVecAction.exec_eq_fail hcontains hexec hout]
    rfl

/-- Three elements go in, one of them comes back from the vector and one from the iterator. -/
theorem kvec_conserves_elements_smallHeap :
    ∃ s, run (KVecLife.step wordLayout smallHeap) KVecLife.new
        [.op (.push 1), .op (.push 2), .op (.push 3), .op .pop, .op (.extendFromSlice [4]),
          .intoIter, .next, .drop] = some s ∧
      (s.given ++ s.created).Perm (s.handed ++ s.dropped) := by
  obtain ⟨s, hrun, hgone⟩ : ∃ s, run (KVecLife.step wordLayout smallHeap) KVecLife.new
      [.op (.push 1), .op (.push 2), .op (.push 3), .op .pop, .op (.extendFromSlice [4]),
        .intoIter, .next, .drop] = some s ∧ s.owner = .gone := ⟨_, rfl, rfl⟩
  obtain ⟨_, -, -, -, hends, -⟩ := kvec_conserves_elements wordLayout smallHeap hrun
  exact ⟨s, hrun, hends hgone⟩

end Rko
