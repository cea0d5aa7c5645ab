import Rko.TaskReferences

namespace Rko

def RunPhase.holdsGuard : RunPhase → Bool
  | .accessed => true
  | .polling => true
  | .polled _ => true
  | _ => false

namespace Task

/-- A poll has begun and not returned yet. -/
def inPoll (t : Task) : Bool := decide (t.run = .accessed ∨ t.run = .polling)

end Task

/-- The history of a task: whether a poll has returned `Ready`, whether a wake was enqueued after the
start of the most recent run, how many polls began after `Ready` or a revoke, and how often the
future was dropped during a poll. -/
structure PollLog where
  ready : Bool
  woken : Bool
  lateStarts : Nat
  dropsInPoll : Nat
deriving DecidableEq, Repr

namespace PollLog

def new : PollLog := ⟨false, false, 0, 0⟩

def record (l : PollLog) (t t' : Task) (a : TaskAction) : PollLog where
  ready := l.ready || decide (a = .poll true)
  woken := if a = .start then false else l.woken || decide (a = .enqueue .waking)
  lateStarts :=
    if a = .tryAccess ∧ t'.run = .accessed ∧ (l.ready = true ∨ t.revoked = true) then
      l.lateStarts + 1
    else l.lateStarts
  dropsInPoll :=
    if t.inPoll = true ∧ t'.futureDrops ≠ t.futureDrops then l.dropsInPoll + 1 else l.dropsInPoll

end PollLog

namespace Task

/-- A flush comes after a revoke, and no clone overflows the count. -/
def orderly (t : Task) : TaskAction → Bool
  | .flush _ => t.revoked
  | .cloneRevocable => decide (t.refs.toInt < 2 ^ 31 - 1)
  | .register stopped _ => stopped || decide (t.refs.toInt < 2 ^ 31 - 1)
  | .clone _ _ => decide (t.refs.toInt < 2 ^ 31 - 1)
  | .makeWaker => decide (t.refs.toInt < 2 ^ 31 - 1)
  | _ => true

variable {t t' : Task} {a : TaskAction} {r r' : Role} {n : Nat}

/-- Cancelling a pending item makes its reference one that nobody holds. -/
theorem counted_leak (h : (t.padded n).Counted) (hpending : t.pending = true) :
    (padded { t with pending := false } (n + 1)).Counted := by
  have howners : (padded { t with pending := false } (n + 1)).owners = (t.padded n).owners := by
    simp only [owners, padded, hpending, List.length_append, List.length_replicate, Bool.toNat_true,
      Bool.toNat_false]
    omega
  exact ⟨by rw [howners]; exact h.refs, by rw [howners]; exact h.small,
    by rw [howners]; exact h.freed⟩

@[simp] theorem guards_revokeFuture (t : Task) : t.revokeFuture.guards = t.guards := by
  unfold revokeFuture
  split <;> rfl

@[simp] theorem revoked_revokeFuture (t : Task) : t.revokeFuture.revoked = true := by
  unfold revokeFuture
  split
  · assumption
  · rfl

/-- The item is pending afterwards, and only the handles may have changed otherwise. -/
theorem enqueueHandle_eq (t : Task) (r : Role) :
    t.enqueueHandle r = { t with pending := true, handles := (t.enqueueHandle r).handles } := by
  unfold enqueueHandle
  split
  next hpending => simp [passHandle, hpending]
  next => rfl

@[simp] theorem run_enqueueHandle (t : Task) (r : Role) : (t.enqueueHandle r).run = t.run := by
  rw [enqueueHandle_eq]

@[simp] theorem guards_enqueueHandle (t : Task) (r : Role) :
    (t.enqueueHandle r).guards = t.guards := by
  rw [enqueueHandle_eq]

@[simp] theorem pending_enqueueHandle (t : Task) (r : Role) :
    (t.enqueueHandle r).pending = true := by
  rw [enqueueHandle_eq]

@[simp] theorem revoked_enqueueHandle (t : Task) (r : Role) :
    (t.enqueueHandle r).revoked = t.revoked := by
  rw [enqueueHandle_eq]

theorem mem_enqueueHandle (hne : r' ≠ r) (hmem : r' ∈ t.handles) :
    r' ∈ (t.enqueueHandle r).handles := by
  unfold enqueueHandle
  split
  · exact List.mem_cons_of_mem _ ((List.mem_erase_of_ne hne).mpr hmem)
  · exact (List.mem_erase_of_ne hne).mpr hmem

theorem idle_of_start (h : t.step .start = some t') : t.run = .idle :=
  (Option.ite_none_right_eq_some.mp h).1.2

/-- The handle of the callback is not one that anybody else may drop. -/
theorem this_ne_of_drop (h : t.step (.drop r) = some t') : Role.this ≠ r := by
  obtain ⟨⟨-, hmay⟩, -⟩ := Option.ite_none_right_eq_some.mp h
  rintro rfl
  cases hmay

/-- The callback holds its own `Arc` of the task. -/
def Held (t : Task) : Prop := t.run ≠ .idle → .this ∈ t.handles

theorem Held.of_mem (h : t.Held) (hrun : t'.run = t.run)
    (hmem : .this ∈ t.handles → .this ∈ t'.handles) : t'.Held :=
  fun hne => hmem (h (hrun ▸ hne))

theorem Held.step (h : t.Held) (hstep : t.step a = some t') : t'.Held := by
  cases transition_of_step hstep with
  | cloneRevocable | register | clone =>
    exact h.of_mem rfl (List.mem_cons_of_mem _)
  | refuse | revoke => exact h.of_mem (run_revokeFuture t) (handles_revokeFuture t ▸ id)
  | unlisted | flush => exact h.of_mem rfl id
  | enqueue hmem hrole =>
    refine h.of_mem (run_enqueueHandle t _) (mem_enqueueHandle ?_)
    rcases hrole with ⟨rfl, -⟩ | rfl <;> decide
  | returnHandle | wake =>
    exact h.of_mem rfl fun hthis => List.mem_cons_of_mem _ ((List.mem_erase_of_ne (by decide)).mpr hthis)
  | @drop r hmem =>
    exact h.of_mem rfl fun hthis => (List.mem_erase_of_ne (this_ne_of_drop hstep)).mpr hthis
  | start => exact fun _ => List.mem_cons_self
  | refused hrun | tryAccess hrun | poll _ hrun | dropGuard hrun | suspend hrun =>
    exact fun _ => h (by rw [hrun]; nofun)
  | makeWaker hrun => exact fun _ => List.mem_cons_of_mem _ (h (by rw [hrun]; nofun))
  | complete hrun =>
    exact fun _ => (handles_revokeFuture t).symm ▸ h (by rw [hrun]; nofun)
  | dropLocalWaker hrun =>
    exact fun _ => (List.mem_erase_of_ne (by decide)).mpr (h (by rw [hrun]; nofun))
  | finish => exact fun hne => absurd rfl hne

/-- There is one guard while the future is being polled, and none otherwise. -/
def Guarding (t : Task) : Prop := t.guards = if t.run.holdsGuard then 1 else 0

theorem Guarding.congr (h : t.Guarding) (hrun : t'.run = t.run) (hguards : t'.guards = t.guards) :
    t'.Guarding := by
  rw [Guarding, hrun, hguards]
  exact h

theorem Guarding.step (h : t.Guarding) (hstep : t.step a = some t') : t'.Guarding := by
  cases transition_of_step hstep with
  | refuse | revoke => exact h.congr (run_revokeFuture t) (guards_revokeFuture t)
  | enqueue => exact h.congr (run_enqueueHandle t _) (guards_enqueueHandle t _)
  | refused hrun | tryAccess hrun | makeWaker hrun | poll _ hrun | suspend hrun | dropLocalWaker hrun
  | finish hrun =>
    rw [Guarding, hrun] at h
    simpa [Guarding, RunPhase.holdsGuard, addHandle, dropHandle] using h
  | start =>
    have hidle := idle_of_start hstep
    rw [Guarding, hidle] at h
    exact h
  | dropGuard hrun =>
    rw [Guarding, hrun] at h
    exact congrArg (· - 1) h
  | complete hrun =>
    rw [Guarding, hrun] at h
    simpa [Guarding, RunPhase.holdsGuard] using h
  | _ => exact h.congr rfl rfl

/-- A step is only taken by someone who owns the task. -/
theorem Held.owners_pos (h : t.Held) (hstep : t.step a = some t') : 0 < t.owners := by
  have hrunning : t.run ≠ .idle → 0 < t.owners := fun hne => owners_pos_of_mem (h hne)
  cases transition_of_step hstep with
  | cloneRevocable _ hmem | register _ hmem | enqueue hmem | returnHandle _ hmem | clone hmem
  | drop hmem | wake hmem | makeWaker _ hmem | dropLocalWaker _ hmem | finish _ hmem =>
    exact owners_pos_of_mem hmem
  | refuse | unlisted =>
    simp only [Task.step] at hstep
    split at hstep
    next => cases hstep
    next hcond =>
      rw [not_or, not_not, not_not] at hcond
      exact owners_pos_of_mem hcond.2
  | revoke =>
    obtain ⟨⟨hmem, -⟩, -⟩ := Option.ite_none_right_eq_some.mp hstep
    exact owners_pos_of_mem hmem
  | flush =>
    obtain ⟨⟨hmem, -⟩, -⟩ := Option.ite_none_right_eq_some.mp hstep
    exact owners_pos_of_mem hmem
  | start hpending =>
    rw [owners, hpending]
    exact Nat.succ_pos _
  | refused hrun | tryAccess hrun | poll _ hrun | dropGuard hrun | complete hrun | suspend hrun =>
    exact hrunning (by rw [hrun]; rintro ⟨⟩)

/-- The future is dropped once: when it is revoked and no guard is alive, or with the task. -/
def DroppedOnce (t : Task) : Prop :=
  t.futureDrops = if t.freed ≠ 0 ∨ t.revoked = true ∧ t.guards = 0 then 1 else 0

theorem DroppedOnce.congr (h : t.DroppedOnce) (hdrops : t'.futureDrops = t.futureDrops)
    (hfreed : t'.freed = t.freed) (hrevoked : t'.revoked = t.revoked)
    (hguards : t'.guards = t.guards) : t'.DroppedOnce := by
  rw [DroppedOnce, hdrops, hfreed, hrevoked, hguards]
  exact h

theorem DroppedOnce.of_live (h : t.DroppedOnce) (hfreed : t.freed = 0) :
    t.futureDrops = if t.revoked = true ∧ t.guards = 0 then 1 else 0 := by
  rw [DroppedOnce, hfreed] at h
  simpa using h

theorem DroppedOnce.revokeFuture (h : t.DroppedOnce) (hfreed : t.freed = 0) :
    t.revokeFuture.DroppedOnce := by
  have hdrops := h.of_live hfreed
  unfold Task.revokeFuture
  split
  · exact h
  next hrevoked =>
    rw [if_neg fun hdropped => hrevoked hdropped.1] at hdrops
    simp [DroppedOnce, hdrops, hfreed]

theorem DroppedOnce.dropFutureGuard (h : t.DroppedOnce) (hfreed : t.freed = 0)
    (hguards : t.guards = 1) : t.dropFutureGuard.DroppedOnce := by
  have hdrops := h.of_live hfreed
  rw [hguards, if_neg fun hdropped => absurd hdropped.2 (by decide)] at hdrops
  simp [DroppedOnce, Task.dropFutureGuard, hdrops, hfreed, hguards]

theorem DroppedOnce.dropHandle (h : t.DroppedOnce) (hfreed : t.freed = 0)
    (hguards : t.refs = 1 → t.guards = 0) : (t.dropHandle r).DroppedOnce := by
  have hdrops := h.of_live hfreed
  by_cases hlast : t.refs = 1
  · rw [hguards hlast] at hdrops
    cases hrevoked : t.revoked with
    | true => simp [DroppedOnce, Task.dropHandle, hdrops, hlast, hrevoked]
    | false => simp [DroppedOnce, Task.dropHandle, hdrops, hlast, hrevoked]
  · exact h.congr (if_neg fun hboth => hlast hboth.1) (if_neg hlast) rfl rfl

/-- The count is 1 only for the one owner there is, and the callback of a poll is one. -/
theorem guards_of_last (hcounted : (t.padded n).Counted) (hheld : t.Held) (hguarding : t.Guarding)
    (hmem : r ∈ t.handles) (hne : Role.this ≠ r) (hlast : t.refs = 1) : t.guards = 0 := by
  have howners : (t.padded n).owners = 1 := hcounted.refs_eq_one.mp hlast
  have hlen := List.length_erase_of_mem hmem
  have hthis : t.run = .idle := by
    by_contra hrun
    have hpos := List.length_pos_of_mem ((List.mem_erase_of_ne hne).mpr (hheld hrun))
    simp only [owners, padded, List.length_append] at howners
    omega
  rw [Guarding, hthis] at hguarding
  exact hguarding

theorem freed_of_step (hcounted : (t.padded n).Counted) (hheld : t.Held)
    (hstep : t.step a = some t') : t.freed = 0 := by
  have hpos := hheld.owners_pos hstep
  have howners : (t.padded n).owners ≠ 0 := by
    simp only [owners, padded, List.length_append] at hpos ⊢
    omega
  exact hcounted.freed.trans (if_neg howners)

theorem DroppedOnce.step (h : t.DroppedOnce) (hcounted : (t.padded n).Counted) (hheld : t.Held)
    (hguarding : t.Guarding) (hstep : t.step a = some t') : t'.DroppedOnce := by
  have hfreed := freed_of_step hcounted hheld hstep
  cases transition_of_step hstep with
  | refuse | revoke => exact (h.revokeFuture hfreed).congr rfl rfl rfl rfl
  | complete => exact (h.revokeFuture hfreed).congr rfl rfl rfl rfl
  | enqueue =>
    rw [enqueueHandle_eq]
    exact h.congr rfl rfl rfl rfl
  | @drop r hmem =>
    exact h.dropHandle hfreed
      (guards_of_last hcounted hheld hguarding hmem (this_ne_of_drop hstep))
  | tryAccess _ hrevoked =>
    have hdrops := h.of_live hfreed
    simp only [hrevoked, Bool.false_eq_true, false_and, if_false] at hdrops
    simp [DroppedOnce, hdrops, hfreed, hrevoked]
  | dropGuard hrun =>
    rw [Guarding, hrun] at hguarding
    exact (h.dropFutureGuard hfreed hguarding).congr rfl rfl rfl rfl
  | dropLocalWaker hrun =>
    rw [Guarding, hrun] at hguarding
    exact DroppedOnce.congr (h.dropHandle (r := .localWaker) hfreed fun _ => hguarding)
      rfl rfl rfl rfl
  | finish hrun =>
    rw [Guarding, hrun] at hguarding
    exact DroppedOnce.congr (h.dropHandle (r := .this) hfreed fun _ => hguarding) rfl rfl rfl rfl
  | _ => exact h.congr rfl rfl rfl rfl

theorem revoked_of_step (h : t.revoked = true) (hstep : t.step a = some t') :
    t'.revoked = true := by
  cases transition_of_step hstep with
  | refuse | revoke | complete => exact revoked_revokeFuture t
  | enqueue => exact (revoked_enqueueHandle t _).trans h
  | _ => exact h

/-- The count covers the owners and what was leaked, and only a revoked task has leaked. -/
def Covered (t : Task) : Prop := ∃ n, (t.padded n).Counted ∧ (n ≠ 0 → t.revoked = true)

theorem Covered.step (h : t.Covered) (ha : t.orderly a = true) (hstep : t.step a = some t') :
    t'.Covered := by
  obtain ⟨n, hcounted, hleak⟩ := h
  by_cases hconserves : t.conserves a = true
  · exact ⟨n, counted_padded_step hcounted hconserves hstep,
      fun hn => revoked_of_step (hleak hn) hstep⟩
  · cases a with
    | flush r =>
      -- the item was pending, and its reference is nobody's from now on
      have hpending : t.pending = true := by simpa [conserves] using hconserves
      cases transition_of_step hstep with
      | flush => exact ⟨n + 1, counted_leak hcounted hpending, fun _ => ha⟩
    | _ => exact absurd ha hconserves

structure Disciplined (t : Task) : Prop where
  covered : t.Covered
  held : t.Held
  guarding : t.Guarding
  dropped : t.DroppedOnce

theorem disciplined_new : new.Disciplined :=
  ⟨⟨0, counted_new.congr ⟨rfl, rfl, rfl, rfl⟩, fun hn => absurd rfl hn⟩,
    fun hrun => absurd rfl hrun, rfl, rfl⟩

theorem Disciplined.step (h : t.Disciplined) (ha : t.orderly a = true)
    (hstep : t.step a = some t') : t'.Disciplined := by
  obtain ⟨n, hcounted, -⟩ := h.covered
  exact ⟨h.covered.step ha hstep, h.held.step hstep, h.guarding.step hstep,
    h.dropped.step hcounted h.held h.guarding hstep⟩

theorem Disciplined.guards_le (h : t.Disciplined) : t.guards ≤ 1 := by
  rw [h.guarding]
  split <;> omega

def Unowned (t : Task) : Prop := t.handles = [] ∧ t.pending = false

instance (t : Task) : Decidable t.Unowned :=
  inferInstanceAs (Decidable (t.handles = [] ∧ t.pending = false))

theorem Disciplined.futureDrops_of_unowned (h : t.Disciplined) (hnone : t.Unowned) :
    t.futureDrops = 1 := by
  obtain ⟨n, hcounted, hleak⟩ := h.covered
  have hidle : t.run = .idle := by
    by_contra hrun
    have hthis := h.held hrun
    rw [hnone.1] at hthis
    cases hthis
  have hguards : t.guards = 0 := by
    rw [h.guarding, hidle]
    rfl
  refine h.dropped.trans (if_pos ?_)
  -- without a leak the task was freed, and with one it was revoked before
  by_cases hn : n = 0
  · left
    have hfreed : t.freed = if (t.padded n).owners = 0 then 1 else 0 := hcounted.freed
    rw [hn, padded_zero, owners, hnone.1, hnone.2] at hfreed
    rw [hfreed]
    decide
  · exact Or.inr ⟨hleak hn, hguards⟩

/-- While a guard is alive, the callback owns the task and nothing has dropped its future. -/
theorem Disciplined.futureDrops_eq_zero (h : t.Disciplined) (hrun : t.run.holdsGuard = true) :
    t.futureDrops = 0 := by
  obtain ⟨n, hcounted, -⟩ := h.covered
  have hthis : .this ∈ t.handles := h.held (by rintro hidle; rw [hidle] at hrun; cases hrun)
  have hpos := owners_pos_of_mem (mem_padded (n := n) hthis)
  have hfreed : t.freed = 0 := hcounted.freed.trans (if_neg (by omega))
  have hguards : t.guards = 1 := h.guarding.trans (if_pos hrun)
  rw [h.dropped.of_live hfreed, if_neg (by omega)]

theorem holdsGuard_of_inPoll (h : t.inPoll = true) : t.run.holdsGuard = true := by
  rcases of_decide_eq_true h with hrun | hrun <;> rw [hrun] <;> rfl

theorem holdsGuard_of_step (h : t.inPoll = true) (hstep : t.step a = some t') :
    t'.run.holdsGuard = true := by
  have hguard := holdsGuard_of_inPoll h
  cases transition_of_step hstep with
  | makeWaker | poll | tryAccess => rfl
  | refuse | revoke =>
    rw [← run_revokeFuture] at hguard
    exact hguard
  | enqueue =>
    rw [← run_enqueueHandle t] at hguard
    exact hguard
  | start =>
    have hidle := idle_of_start hstep
    rw [hidle] at hguard
    cases hguard
  | dropGuard hrun =>
    rw [inPoll, hrun] at h
    cases of_decide_eq_true h <;> contradiction
  | refused hrun | complete hrun | suspend hrun | dropLocalWaker hrun | finish hrun =>
    rw [hrun] at hguard
    cases hguard
  | _ => exact hguard

/-- Only the start of a run and a flush take a pending item off the queue. -/
theorem pending_of_step (h : t.pending = true) (hstart : a ≠ .start) (hflush : ∀ r, a ≠ .flush r)
    (hstep : t.step a = some t') : t'.pending = true := by
  cases transition_of_step hstep with
  | refuse | revoke | complete => exact (pending_revokeFuture t).trans h
  | enqueue => exact pending_enqueueHandle t _
  | start => exact absurd rfl hstart
  | flush r => exact absurd rfl (hflush r)
  | _ => exact h

/-- The run that got `Ready` has not revoked the future yet, or it is revoked. -/
def Ending (t : Task) : Prop :=
  t.revoked = true ∨ t.run = .polled true ∨ t.run = .unguarded true

theorem Ending.revoked (h : t.Ending) (hpolled : t.run ≠ .polled true)
    (hunguarded : t.run ≠ .unguarded true) : t.revoked = true :=
  h.resolve_right fun hrun => hrun.elim hpolled hunguarded

theorem Ending.step (h : t.Ending) (hstep : t.step a = some t') : t'.Ending := by
  cases transition_of_step hstep with
  | refuse | revoke | complete => exact Or.inl (revoked_revokeFuture t)
  | enqueue =>
    rw [Ending, revoked_enqueueHandle, run_enqueueHandle]
    exact h
  | start =>
    have hidle := idle_of_start hstep
    exact Or.inl (h.revoked (by rw [hidle]; nofun) (by rw [hidle]; nofun))
  | refused hrun | tryAccess hrun | makeWaker hrun | poll _ hrun | suspend hrun | dropLocalWaker hrun
  | finish hrun =>
    exact Or.inl (h.revoked (by rw [hrun]; nofun) (by rw [hrun]; nofun))
  | @dropGuard ready hrun =>
    rw [Ending, hrun] at h
    rcases h with hrevoked | hready | hready
    · exact Or.inl hrevoked
    · cases hready
      exact Or.inr (Or.inr rfl)
    · cases hready
  | _ => exact h

end Task

open Rko.Task

namespace PollLog

structure Describes (l : PollLog) (t : Task) : Prop where
  ready : l.ready = true → t.Ending
  woken : l.woken = true → l.ready = false → t.revoked = false → t.pending = true
  lateStarts : l.lateStarts = 0
  dropsInPoll : l.dropsInPoll = 0

variable {l : PollLog} {t t' : Task} {a : TaskAction}

theorem describes_new : new.Describes Task.new := ⟨nofun, nofun, rfl, rfl⟩

theorem Describes.ready_step (h : l.Describes t) (hstep : t.step a = some t')
    (hready : (l.record t t' a).ready = true) : t'.Ending := by
  rw [record, Bool.or_eq_true] at hready
  rcases hready with hold | hpoll
  · exact (h.ready hold).step hstep
  · cases of_decide_eq_true hpoll
    cases transition_of_step hstep with
    | poll => exact Or.inr (Or.inl rfl)

theorem Describes.woken_step (h : l.Describes t) (ha : t.orderly a = true)
    (hstep : t.step a = some t') (hwoken : (l.record t t' a).woken = true)
    (hready : (l.record t t' a).ready = false) (hrevoked : t'.revoked = false) :
    t'.pending = true := by
  have hlive : t.revoked = false := by
    by_contra hset
    rw [revoked_of_step (Bool.eq_true_of_not_eq_false hset) hstep] at hrevoked
    cases hrevoked
  rw [record, Bool.or_eq_false_iff] at hready
  simp only [record] at hwoken
  split at hwoken
  · cases hwoken
  next hstart =>
    rcases Bool.or_eq_true_iff.mp hwoken with hold | hwake
    · refine pending_of_step (h.woken hold hready.1 hlive) hstart ?_ hstep
      rintro r rfl
      rw [orderly, hlive] at ha
      cases ha
    · cases of_decide_eq_true hwake
      cases transition_of_step hstep with
      | enqueue => exact pending_enqueueHandle t _

/-- A poll only begins in a task that is neither completed nor revoked. -/
theorem Describes.lateStarts_step (h : l.Describes t) (hstep : t.step a = some t') :
    (l.record t t' a).lateStarts = 0 := by
  refine Eq.trans (if_neg ?_) h.lateStarts
  rintro ⟨rfl, hrun', hlate⟩
  cases transition_of_step hstep with
  | refused => cases hrun'
  | tryAccess hrun hrevoked =>
    have hset : t.revoked = true := by
      rcases hlate with hready | hset
      · exact (h.ready hready).revoked (by rw [hrun]; nofun) (by rw [hrun]; nofun)
      · exact hset
    rw [hrevoked] at hset
    cases hset

theorem Describes.dropsInPoll_step (h : l.Describes t) (ht : t.Disciplined) (ht' : t'.Disciplined)
    (hstep : t.step a = some t') : (l.record t t' a).dropsInPoll = 0 := by
  refine Eq.trans (if_neg ?_) h.dropsInPoll
  rintro ⟨hpoll, hdrops⟩
  rw [ht.futureDrops_eq_zero (holdsGuard_of_inPoll hpoll),
    ht'.futureDrops_eq_zero (holdsGuard_of_step hpoll hstep)] at hdrops
  exact hdrops rfl

theorem Describes.step (h : l.Describes t) (ht : t.Disciplined) (ha : t.orderly a = true)
    (hstep : t.step a = some t') : (l.record t t' a).Describes t' :=
  ⟨h.ready_step hstep, h.woken_step ha hstep, h.lateStarts_step hstep,
    h.dropsInPoll_step ht (ht.step ha hstep) hstep⟩

end PollLog

end Rko
