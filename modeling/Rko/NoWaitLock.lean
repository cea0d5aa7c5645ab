import Rko.CallPool
import Rko.GuardedRun

namespace Rko

open GuardedRun CallPool

inductive LockState
  | unlocked | locked | lockedContended
deriving DecidableEq, Repr

/-- The compare-exchange on the slow path of `try_lock`, whose result is ignored. -/
def LockState.contend (s : LockState) : LockState := if s = .locked then .lockedContended else s

/-- A call of `try_lock` with the guard it may have returned. Calls and holds carry the times at
which they began and ended; `refused` is a call between its two compare-exchanges, and `released`
keeps what `unlock` returned. -/
inductive LockCall
  | trying (start : Nat)
  | refused (start : Nat)
  | failed (start stop : Nat)
  | holding (acquired : Nat)
  | released (acquired freed : Nat) (contended : Bool)
deriving DecidableEq, Repr

namespace LockCall

def start : LockCall → Nat
  | trying start => start
  | refused start => start
  | failed start _ => start
  | holding acquired => acquired
  | released acquired _ _ => acquired

def held : LockCall → Option Nat
  | holding acquired => some acquired
  | _ => none

def isRefused : LockCall → Bool
  | refused _ => true
  | _ => false

end LockCall

/-- A `NoWaitLock` with all the calls on it so far. -/
structure NoWaitLock where
  state : LockState
  calls : List LockCall
  now : Nat
deriving DecidableEq, Repr

inductive LockAction
  | tryLock
  | compareExchange (i : Nat)
  | contend (i : Nat)
  | unlock (i : Nat)
deriving DecidableEq, Repr

namespace NoWaitLock

def new : NoWaitLock := ⟨.unlocked, [], 0⟩

/-- The fast path of `try_lock`. -/
def stepCompareExchange (s : NoWaitLock) (i start : Nat) : NoWaitLock :=
  if s.state = .unlocked then ⟨.locked, s.calls.set i (.holding s.now), s.now + 1⟩
  else { s with calls := s.calls.set i (.refused start), now := s.now + 1 }

def stepContend (s : NoWaitLock) (i start : Nat) : NoWaitLock where
  state := s.state.contend
  calls := s.calls.set i (.failed start s.now)
  now := s.now + 1

def stepUnlock (s : NoWaitLock) (i acquired : Nat) : NoWaitLock where
  state := .unlocked
  calls := s.calls.set i (.released acquired s.now (s.state == .lockedContended))
  now := s.now + 1

def step (s : NoWaitLock) : LockAction → Option NoWaitLock
  | .tryLock => some { s with calls := s.calls ++ [.trying s.now], now := s.now + 1 }
  | .compareExchange i =>
    match s.calls[i]? with
    | some (.trying start) => some (s.stepCompareExchange i start)
    | _ => none
  | .contend i =>
    match s.calls[i]? with
    | some (.refused start) => some (s.stepContend i start)
    | _ => none
  | .unlock i =>
    match s.calls[i]? with
    | some (.holding acquired) => some (s.stepUnlock i acquired)
    | _ => none

variable {s s' : NoWaitLock} {i : Nat}

theorem step_cases {a : LockAction} (h : s.step a = some s') :
    (a = .tryLock ∧ s' = { s with calls := s.calls ++ [.trying s.now], now := s.now + 1 }) ∨
    (∃ i start, a = .compareExchange i ∧ s.calls[i]? = some (.trying start) ∧
      s' = s.stepCompareExchange i start) ∨
    (∃ i start, a = .contend i ∧ s.calls[i]? = some (.refused start) ∧
      s' = s.stepContend i start) ∨
    (∃ i acquired, a = .unlock i ∧ s.calls[i]? = some (.holding acquired) ∧
      s' = s.stepUnlock i acquired) := by
  cases a with
  | tryLock => exact Or.inl ⟨rfl, (Option.some.inj h).symm⟩
  | compareExchange i =>
    simp only [step] at h
    split at h
    next start hcall => exact Or.inr (Or.inl ⟨i, start, rfl, hcall, (Option.some.inj h).symm⟩)
    next => cases h
  | contend i =>
    simp only [step] at h
    split at h
    next start hcall =>
      exact Or.inr (Or.inr (Or.inl ⟨i, start, rfl, hcall, (Option.some.inj h).symm⟩))
    next => cases h
  | unlock i =>
    simp only [step] at h
    split at h
    next acquired hcall =>
      exact Or.inr (Or.inr (Or.inr ⟨i, acquired, rfl, hcall, (Option.some.inj h).symm⟩))
    next => cases h

/-- A failed call overlaps a hold that was released with `true`, or one that will be because it is
still going on with the contention flag set; and no `unlock` returns `true` without a call that
failed during its hold. -/
structure Reported (s : NoWaitLock) : Prop where
  told : ∀ {start stop}, .failed start stop ∈ s.calls →
    (∃ acquired freed, .released acquired freed true ∈ s.calls ∧ start < freed ∧ acquired < stop) ∨
    ∃ acquired, .holding acquired ∈ s.calls ∧ acquired < stop ∧ s.state = .lockedContended
  caused : ∀ {acquired freed}, .released acquired freed true ∈ s.calls →
    ∃ start stop, .failed start stop ∈ s.calls ∧ acquired < stop ∧ stop < freed

/-- A holder gives the lock back only if the contention flag is set already, or if no `try_lock` is
between its failed compare-exchange and the one that sets the flag. -/
def waitsForMark (s : NoWaitLock) : LockAction → Bool
  | .unlock _ => s.state == .lockedContended || !s.calls.any LockCall.isRefused
  | _ => true

/-- One call holds the lock, or none if it is unlocked; the flag stands for a call that failed
during the hold; and a refused call has seen a `true` already if the lock is unlocked again. -/
structure Attributed (s : NoWaitLock) : Prop extends Reported s where
  past : ∀ {c}, c ∈ s.calls → c.start < s.now
  holder : s.calls.filterMap LockCall.held = [] ∧ s.state = .unlocked ∨
    ∃ acquired, s.calls.filterMap LockCall.held = [acquired] ∧ s.state ≠ .unlocked
  marked : ∀ {acquired}, s.state = .lockedContended → .holding acquired ∈ s.calls →
    ∃ start stop, .failed start stop ∈ s.calls ∧ acquired < stop ∧ stop < s.now
  covered : ∀ {start}, .refused start ∈ s.calls → s.state ≠ .unlocked ∨
    ∃ acquired freed, .released acquired freed true ∈ s.calls ∧ start < freed

namespace Attributed

theorem new : Attributed NoWaitLock.new where
  told h := by cases h
  caused h := by cases h
  past h := by cases h
  holder := Or.inl ⟨rfl, rfl⟩
  marked h := by cases h
  covered h := by cases h

theorem mem_held {acquired : Nat} :
    .holding acquired ∈ s.calls ↔ acquired ∈ s.calls.filterMap LockCall.held := by
  rw [List.mem_filterMap]
  constructor
  · intro h
    exact ⟨_, h, rfl⟩
  · rintro ⟨c, hc, hheld⟩
    cases c with
    | holding a => exact Option.some.inj hheld ▸ hc
    | _ => cases hheld

theorem locked_of_holding (h : s.Attributed) {acquired : Nat} (hc : .holding acquired ∈ s.calls) :
    s.state ≠ .unlocked := by
  rcases h.holder with ⟨hnone, -⟩ | ⟨a, -, hlocked⟩
  · rw [mem_held, hnone] at hc
    cases hc
  · exact hlocked

theorem exists_holding (h : s.Attributed) (hlocked : s.state ≠ .unlocked) :
    ∃ acquired, .holding acquired ∈ s.calls := by
  rcases h.holder with ⟨-, hunlocked⟩ | ⟨a, hone, -⟩
  · exact absurd hunlocked hlocked
  · exact ⟨a, mem_held.mpr (by rw [hone]; exact List.mem_singleton_self a)⟩

theorem holding_unique (h : s.Attributed) {a b : Nat} (ha : .holding a ∈ s.calls)
    (hb : .holding b ∈ s.calls) : a = b := by
  rcases h.holder with ⟨hnone, -⟩ | ⟨c, hone, -⟩
  · rw [mem_held, hnone] at ha
    cases ha
  · rw [mem_held, hone] at ha hb
    rw [List.mem_singleton.mp ha, List.mem_singleton.mp hb]

section Keep

variable {calls : List LockCall} {start stop acquired freed : Nat}

/-- A failed call stays told as long as the calls that tell it stay. -/
theorem told_keep (h : s.Attributed) {state : LockState}
    (hreleased : ∀ {a f}, .released a f true ∈ s.calls → .released a f true ∈ calls)
    (hholding : ∀ {a}, .holding a ∈ s.calls → s.state = .lockedContended →
      .holding a ∈ calls ∧ state = .lockedContended)
    (hc : .failed start stop ∈ s.calls) :
    (∃ acquired freed, .released acquired freed true ∈ calls ∧ start < freed ∧ acquired < stop) ∨
      ∃ acquired, .holding acquired ∈ calls ∧ acquired < stop ∧ state = .lockedContended := by
  rcases h.told hc with ⟨a, f, hr, hf, ha⟩ | ⟨a, hr, ha, hstate⟩
  · exact Or.inl ⟨a, f, hreleased hr, hf, ha⟩
  · obtain ⟨hr', hstate'⟩ := hholding hr hstate
    exact Or.inr ⟨a, hr', ha, hstate'⟩

theorem caused_keep (h : s.Attributed)
    (hfailed : ∀ {a b}, .failed a b ∈ s.calls → .failed a b ∈ calls)
    (hc : .released acquired freed true ∈ s.calls) :
    ∃ start stop, .failed start stop ∈ calls ∧ acquired < stop ∧ stop < freed := by
  obtain ⟨start, stop, hf, hlo, hhi⟩ := h.caused hc
  exact ⟨start, stop, hfailed hf, hlo, hhi⟩

end Keep

theorem tryLock (h : s.Attributed) :
    Attributed { s with calls := s.calls ++ [.trying s.now], now := s.now + 1 } where
  told hc := h.told_keep (List.mem_append_left _)
    (fun hr hstate => ⟨List.mem_append_left _ hr, hstate⟩) (by simpa using hc)
  caused hc := h.caused_keep (List.mem_append_left _) (by simpa using hc)
  past hc := by
    rcases List.mem_append.mp hc with hc | hc
    · have hlt := h.past hc
      exact Nat.lt_succ_of_lt hlt
    · rw [List.mem_singleton.mp hc]
      exact Nat.lt_succ_self s.now
  holder := by
    rw [filterMap_concat]
    simpa [LockCall.held] using h.holder
  marked hstate hc := by
    obtain ⟨start, stop, hf, hlo, hhi⟩ := h.marked hstate (by simpa using hc)
    exact ⟨start, stop, List.mem_append_left _ hf, hlo, Nat.lt_succ_of_lt hhi⟩
  covered hc := by
    rcases h.covered (by simpa using hc) with hlocked | ⟨a, f, hr, hf⟩
    · exact Or.inl hlocked
    · exact Or.inr ⟨a, f, List.mem_append_left _ hr, hf⟩

/-- A call that moves on leaves the others as they are. -/
theorem past_set (h : s.Attributed) (t : LockCall) (ht : t.start ≤ s.now) {c : LockCall}
    (hc : c ∈ s.calls.set i t) : c.start < s.now + 1 := by
  rcases List.mem_or_eq_of_mem_set hc with hc | rfl
  · have hlt := h.past hc
    omega
  · omega

theorem of_mem_set {c t : LockCall} (hc : c ∈ s.calls.set i t) (hne : c ≠ t) : c ∈ s.calls :=
  (List.mem_or_eq_of_mem_set hc).resolve_right hne

theorem acquire (h : s.Attributed) {start : Nat} (hcall : s.calls[i]? = some (.trying start))
    (hfree : s.state = .unlocked) :
    Attributed ⟨.locked, s.calls.set i (.holding s.now), s.now + 1⟩ where
  told hc := h.told_keep (fun hr => mem_set_of_ne hcall _ hr (by simp))
    (fun hr _ => absurd hfree (h.locked_of_holding hr)) (of_mem_set hc (by simp))
  caused hc := h.caused_keep (fun hf => mem_set_of_ne hcall _ hf (by simp))
    (of_mem_set hc (by simp))
  past hc := h.past_set (.holding s.now) (Nat.le_refl _) hc
  holder := by
    have hnone : s.calls.filterMap LockCall.held = [] := by
      rcases h.holder with ⟨hnone, -⟩ | ⟨a, -, hlocked⟩
      · exact hnone
      · exact absurd hfree hlocked
    have hperm := filterMap_set LockCall.held hcall (.holding s.now)
    rw [hnone] at hperm
    exact Or.inr ⟨s.now, List.perm_singleton.mp hperm, by simp⟩
  marked hstate := by cases hstate
  covered _ := Or.inl (by simp)

theorem refuse (h : s.Attributed) {start : Nat} (hcall : s.calls[i]? = some (.trying start))
    (hlocked : s.state ≠ .unlocked) :
    Attributed { s with calls := s.calls.set i (.refused start), now := s.now + 1 } where
  told hc := h.told_keep (fun hr => mem_set_of_ne hcall _ hr (by simp))
    (fun hr hstate => ⟨mem_set_of_ne hcall _ hr (by simp), hstate⟩) (of_mem_set hc (by simp))
  caused hc := h.caused_keep (fun hf => mem_set_of_ne hcall _ hf (by simp))
    (of_mem_set hc (by simp))
  past hc := h.past_set (.refused start) (h.past (List.mem_of_getElem? hcall)).le hc
  holder := by
    have hperm := filterMap_set LockCall.held hcall (.refused start)
    rcases h.holder with ⟨-, hfree⟩ | ⟨a, hone, -⟩
    · exact absurd hfree hlocked
    · rw [hone] at hperm
      exact Or.inr ⟨a, List.perm_singleton.mp hperm, hlocked⟩
  marked hstate hc := by
    obtain ⟨start, stop, hf, hlo, hhi⟩ := h.marked hstate (of_mem_set hc (by simp))
    exact ⟨start, stop, mem_set_of_ne hcall _ hf (by simp), hlo, Nat.lt_succ_of_lt hhi⟩
  covered _ := Or.inl hlocked

theorem contend (h : s.Attributed) {start : Nat} (hcall : s.calls[i]? = some (.refused start)) :
    Attributed (s.stepContend i start) where
  told hc := by
    rcases List.mem_or_eq_of_mem_set hc with hc | heq
    · refine h.told_keep (fun hr => mem_set_of_ne hcall _ hr (by simp)) (fun hr hstate => ?_) hc
      exact ⟨mem_set_of_ne hcall _ hr (by simp), by simp [stepContend, LockState.contend, hstate]⟩
    · cases heq
      by_cases hfree : s.state = .unlocked
      · rcases h.covered (List.mem_of_getElem? hcall) with hlocked | ⟨a, f, hr, hf⟩
        · exact absurd hfree hlocked
        · exact Or.inl ⟨a, f, mem_set_of_ne hcall _ hr (by simp), hf, h.past hr⟩
      · obtain ⟨a, hr⟩ := h.exists_holding hfree
        refine Or.inr ⟨a, mem_set_of_ne hcall _ hr (by simp), h.past hr, ?_⟩
        cases hstate : s.state <;> simp_all [stepContend, LockState.contend]
  caused hc := h.caused_keep (fun hf => mem_set_of_ne hcall _ hf (by simp))
    (of_mem_set hc (by simp))
  past hc := h.past_set (.failed start s.now) (h.past (List.mem_of_getElem? hcall)).le hc
  holder := by
    have hperm := filterMap_set LockCall.held hcall (.failed start s.now)
    rcases h.holder with ⟨hnone, hfree⟩ | ⟨a, hone, hlocked⟩
    · rw [hnone] at hperm
      exact Or.inl ⟨List.perm_nil.mp hperm, by simp [stepContend, LockState.contend, hfree]⟩
    · rw [hone] at hperm
      refine Or.inr ⟨a, List.perm_singleton.mp hperm, ?_⟩
      cases hstate : s.state <;> simp_all [stepContend, LockState.contend]
  marked _ hc :=
    ⟨start, s.now, mem_set_self hcall _, h.past (of_mem_set hc (by simp)), Nat.lt_succ_self s.now⟩
  covered hc := by
    rcases h.covered (of_mem_set hc (by simp)) with hlocked | ⟨a, f, hr, hf⟩
    · left
      cases hstate : s.state <;> simp_all [stepContend, LockState.contend]
    · exact Or.inr ⟨a, f, mem_set_of_ne hcall _ hr (by simp), hf⟩

theorem unlock (h : s.Attributed) {acquired : Nat}
    (hcall : s.calls[i]? = some (.holding acquired))
    (hguard : s.state = .lockedContended ∨ ∀ c ∈ s.calls, c.isRefused = false) :
    Attributed (s.stepUnlock i acquired) where
  told hc := by
    have hfailed := of_mem_set hc (by simp)
    rcases h.told hfailed with ⟨a, f, hr, hf, ha⟩ | ⟨a, hr, ha, hstate⟩
    · exact Or.inl ⟨a, f, mem_set_of_ne hcall _ hr (by simp), hf, ha⟩
    · have hsame := h.holding_unique hr (List.mem_of_getElem? hcall)
      subst hsame
      refine Or.inl ⟨a, s.now, ?_, h.past hfailed, ha⟩
      simpa [stepUnlock, hstate] using mem_set_self hcall (.released a s.now true)
  caused hc := by
    rcases List.mem_or_eq_of_mem_set hc with hc | heq
    · exact h.caused_keep (fun hf => mem_set_of_ne hcall _ hf (by simp)) hc
    · simp only [LockCall.released.injEq] at heq
      obtain ⟨rfl, rfl, hstate⟩ := heq
      obtain ⟨start, stop, hf, hlo, hhi⟩ :=
        h.marked (beq_iff_eq.mp hstate.symm) (List.mem_of_getElem? hcall)
      exact ⟨start, stop, mem_set_of_ne hcall _ hf (by simp), hlo, hhi⟩
  past hc := by
    have hlt : acquired < s.now := h.past (List.mem_of_getElem? hcall)
    exact h.past_set (.released acquired s.now (s.state == .lockedContended)) hlt.le hc
  holder := by
    have hperm := filterMap_set LockCall.held hcall
      (.released acquired s.now (s.state == .lockedContended))
    rcases h.holder with ⟨-, hfree⟩ | ⟨a, hone, -⟩
    · exact absurd hfree (h.locked_of_holding (List.mem_of_getElem? hcall))
    · have hsame : acquired = a :=
        h.holding_unique (List.mem_of_getElem? hcall) (mem_held.mpr (by rw [hone]; simp))
      rw [hone, ← hsame] at hperm
      exact Or.inl ⟨List.perm_nil.mp ((List.perm_cons acquired).mp hperm), rfl⟩
  marked hstate := by cases hstate
  covered hc := by
    have hrefused := of_mem_set hc (by simp)
    rcases hguard with hstate | hnone
    · refine Or.inr ⟨acquired, s.now, ?_, h.past hrefused⟩
      simpa [stepUnlock, hstate] using mem_set_self hcall (.released acquired s.now true)
    · exact absurd (hnone _ hrefused) (by simp [LockCall.isRefused])

theorem step {a : LockAction} (h : s.Attributed) (hguard : s.waitsForMark a = true)
    (hstep : s.step a = some s') : s'.Attributed := by
  rcases step_cases hstep with ⟨rfl, rfl⟩ | ⟨i, start, rfl, hcall, rfl⟩ |
    ⟨i, start, rfl, hcall, rfl⟩ | ⟨i, acquired, rfl, hcall, rfl⟩
  · exact h.tryLock
  · unfold stepCompareExchange
    split
    next hfree => exact h.acquire hcall hfree
    next hlocked => exact h.refuse hcall hlocked
  · exact h.contend hcall
  · exact h.unlock hcall (by simpa [waitsForMark] using hguard)

end Attributed

/-- If no holder gives the lock back between the two compare-exchanges of a call it has refused
without having been marked, every failed attempt is reported. -/
theorem reported_of_run {as : List LockAction}
    (hguard : Guarded step (fun s a => waitsForMark s a = true) new as)
    (hrun : run step new as = some s) : s.Reported :=
  (run_invariant (fun h hguard hstep => h.step hguard hstep) Attributed.new hguard hrun).toReported

/-- Two holders and two refused calls, each of which sets the flag before the release. -/
def markedRun : List LockAction :=
  [.tryLock, .compareExchange 0, .tryLock, .compareExchange 1, .contend 1, .unlock 0, .tryLock,
    .compareExchange 2, .unlock 2]

theorem reported_of_markedRun :
    ∃ s, run step new markedRun = some s ∧ s.calls = [.released 1 5 true, .failed 2 4,
      .released 7 8 false] ∧ s.Reported := by
  have hguard : Guarded step (fun s a => waitsForMark s a = true) new markedRun := by decide
  exact ⟨_, rfl, rfl, reported_of_run hguard rfl⟩

/-- The holder releases between the two compare-exchanges of a refused call: its `unlock` returns
`false`, the second compare-exchange finds the lock free, and nobody is told of the failure. -/
theorem failure_unreported :
    ∃ s, run step new [.tryLock, .compareExchange 0, .tryLock, .compareExchange 1, .unlock 0,
      .contend 1] = some s ∧ s.calls = [.released 1 4 false, .failed 2 5] ∧ ¬ s.Reported := by
  refine ⟨⟨.unlocked, [.released 1 4 false, .failed 2 5], 6⟩, rfl, rfl, fun h => ?_⟩
  have hfailed : .failed 2 5 ∈ [LockCall.released 1 4 false, .failed 2 5] := by decide
  rcases h.told hfailed with ⟨a, f, hr, -⟩ | ⟨a, hr, -⟩
  · simp at hr
  · simp at hr

end NoWaitLock

end Rko
