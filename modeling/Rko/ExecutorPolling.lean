import Rko.TaskPolling
import Rko.ExecutorReferences

namespace Rko

open GuardedRun CallPool

namespace WorkqueueExecutor

/-- The histories of the tasks after a step, given those before it. -/
def note (s : WorkqueueExecutor) (a : ExecutorAction) (s' : WorkqueueExecutor)
    (logs : List PollLog) : List PollLog :=
  match s.target a with
  | some (i, ta) =>
    logs.modify i fun l => l.record (s.tasks[i]?.getD Task.new) (s'.tasks[i]?.getD Task.new) ta
  | none => logs ++ List.replicate (s'.tasks.length - s.tasks.length) PollLog.new

/-- Only what was revoked is flushed, and no clone overflows the count of its task. -/
def orderly (s : WorkqueueExecutor) (a : ExecutorAction) : Bool :=
  (s.target a).all fun target => (s.tasks[target.1]?).all fun t => t.orderly target.2

variable {s s' : WorkqueueExecutor} {a : ExecutorAction} {i : Nat} {t t' : Task} {ta : TaskAction}
  {logs : List PollLog}

theorem task_orderly (h : s.orderly a = true) (htarget : s.target a = some (i, ta))
    (ht : s.tasks[i]? = some t) : t.orderly ta = true := by
  rw [orderly, htarget, Option.all_some, ht, Option.all_some] at h
  exact h

theorem note_of_target (htarget : s.target a = some (i, ta)) (ht : s.tasks[i]? = some t)
    (hs' : s'.tasks = s.tasks.set i t') : note s a s' logs = logs.modify i (·.record t t' ta) := by
  have hlt := (List.getElem?_eq_some_iff.mp ht).1
  have ht' : s'.tasks[i]? = some t' := by rw [hs', List.getElem?_set_self hlt]
  simp only [note, htarget, ht, ht', Option.getD_some]

theorem note_of_same (htarget : s.target a = none) (hs' : s'.tasks = s.tasks) :
    note s a s' logs = logs := by
  simp only [note, htarget, hs', Nat.sub_self, List.replicate_zero, List.append_nil]

/-- Each task keeps the discipline and has its history. -/
structure Discipline (s : WorkqueueExecutor) (logs : List PollLog) : Prop where
  length : logs.length = s.tasks.length
  tasks : ∀ {i : Nat} {t : Task} {l : PollLog}, s.tasks[i]? = some t → logs[i]? = some l →
    t.Disciplined ∧ l.Describes t

theorem Discipline.same (h : Discipline s logs) (htarget : s.target a = none)
    (hs' : s'.tasks = s.tasks) : Discipline s' (note s a s' logs) := by
  rw [note_of_same htarget hs']
  exact ⟨hs' ▸ h.length, hs' ▸ h.tasks⟩

theorem Discipline.addTask (h : Discipline s logs) :
    Discipline { s with tasks := s.tasks ++ [Task.new] } (logs ++ [PollLog.new]) := by
  refine ⟨by simp [h.length], fun {i t l} ht hl => ?_⟩
  rw [List.getElem?_append] at ht
  rw [List.getElem?_append, h.length] at hl
  split at ht
  next hlt =>
    rw [if_pos hlt] at hl
    exact h.tasks ht hl
  next hlt =>
    rw [if_neg hlt] at hl
    rw [List.getElem?_singleton] at ht hl
    obtain ⟨-, ⟨⟩⟩ := Option.ite_none_right_eq_some.mp ht
    obtain ⟨-, ⟨⟩⟩ := Option.ite_none_right_eq_some.mp hl
    exact ⟨Task.disciplined_new, PollLog.describes_new⟩

theorem Discipline.setTask (h : Discipline s logs) (hs' : s'.tasks = s.tasks.set i t')
    (ht : s.tasks[i]? = some t) (ha : t.orderly ta = true) (hstep : t.step ta = some t') :
    Discipline s' (logs.modify i (·.record t t' ta)) := by
  refine ⟨by rw [List.length_modify, hs', List.length_set, h.length], fun {j u l} hu hl => ?_⟩
  rw [hs'] at hu
  rcases getElem?_set_cases hu with ⟨rfl, rfl⟩ | ⟨hne, hold⟩
  · rw [List.getElem?_modify_eq] at hl
    obtain ⟨l₀, hl₀, rfl⟩ := Option.map_eq_some_iff.mp hl
    obtain ⟨hdisc, hdesc⟩ := h.tasks ht hl₀
    exact ⟨hdisc.step ha hstep, hdesc.step hdisc ha hstep⟩
  · rw [List.getElem?_modify_ne _ _ hne.symm] at hl
    exact h.tasks hold hl

theorem Discipline.stepTask (h : Discipline s logs) (ha : s.orderly a = true)
    (hstep : s.stepTask a = some s') : Discipline s' (note s a s' logs) := by
  obtain ⟨i, ta, t, t', htarget, ht, ht', rfl⟩ := stepTask_eq_some hstep
  rw [note_of_target htarget ht rfl]
  exact h.setTask rfl ht (task_orderly ha htarget ht) ht'

theorem Discipline.step (h : Discipline s logs) (ha : s.orderly a = true)
    (hstep : s.step a = some s') : Discipline s' (note s a s' logs) := by
  cases a with
  | spawn =>
    cases Option.some.inj hstep
    split
    · exact h.same rfl rfl
    · have hnote : note s .spawn { s with tasks := s.tasks ++ [Task.new] } logs =
          logs ++ [PollLog.new] := by
        simp [note, target]
      rw [hnote]
      exact h.addTask
  | stopTake =>
    obtain ⟨-, ⟨⟩⟩ := Option.ite_none_right_eq_some.mp hstep
    exact h.same rfl rfl
  | stopReturn =>
    obtain ⟨-, ⟨⟩⟩ := Option.ite_none_right_eq_some.mp hstep
    exact h.same rfl rfl
  | register i alloc => exact h.stepTask ha hstep
  | task i ta => exact h.stepTask ha hstep
  | stopRevoke => exact h.stepTask ha hstep
  | stopFlush => exact h.stepTask ha hstep
  | stopDrop => exact h.stepTask ha hstep

/-- In every run that flushes only what was revoked and overflows no count, each future has at most
one guard, no poll of it begins once it is completed or revoked, it is dropped when it is revoked
and no guard is alive or else with its task, so once when nobody owns the task, and never during a
poll, and a task that was woken since its last run began is pending. -/
theorem polls_disciplined {actions : List ExecutorAction}
    (hguard : Guarded step (fun s a => s.orderly a = true) new actions)
    (hrun : run step new actions = some s) :
    ∃ logs, run (recorded step note) (new, []) actions = some (s, logs) ∧
      logs.length = s.tasks.length ∧
      ∀ (i : Nat) (t : Task) (l : PollLog), s.tasks[i]? = some t → logs[i]? = some l →
        t.guards ≤ 1 ∧ l.lateStarts = 0 ∧
        (t.futureDrops = if t.freed ≠ 0 ∨ t.revoked = true ∧ t.guards = 0 then 1 else 0) ∧
        (t.Unowned → t.futureDrops = 1) ∧ l.dropsInPoll = 0 ∧
        (l.woken = true → l.ready = false → t.revoked = false → t.pending = true) := by
  have hnone : Discipline new [] := ⟨rfl, nofun⟩
  obtain ⟨logs, hlogs, hdisc⟩ :=
    recorded_invariant (fun h ha hstep => h.step ha hstep) hnone hguard hrun
  refine ⟨logs, hlogs, hdisc.length, fun i t l ht hl => ?_⟩
  obtain ⟨htask, hdesc⟩ := hdisc.tasks ht hl
  exact ⟨htask.guards_le, hdesc.lateStarts, htask.dropped, htask.futureDrops_of_unowned,
    hdesc.dropsInPoll, hdesc.woken⟩

/-- A spawned task is woken during its first poll and completes in the second, then the executor is
stopped and the caller drops its handle. -/
def wokenThenCompleted : List ExecutorAction :=
  spawnOne ++ [.task 0 .start, .task 0 .tryAccess, .task 0 .makeWaker,
    .task 0 (.clone .localWaker .waking), .task 0 (.enqueue .waking), .task 0 (.poll false),
    .task 0 .dropGuard, .task 0 .afterPoll, .task 0 .dropLocalWaker, .task 0 .finish,
    .task 0 .start, .task 0 .tryAccess, .task 0 .makeWaker, .task 0 (.poll true),
    .task 0 .dropGuard, .task 0 .afterPoll, .task 0 .dropLocalWaker, .task 0 .finish] ++
  stopOne ++ [.task 0 (.drop .caller)]

theorem polls_disciplined_wokenThenCompleted :
    ∃ s logs t l, Guarded step (fun s a => s.orderly a = true) new wokenThenCompleted ∧
      run step new wokenThenCompleted = some s ∧
      run (recorded step note) (new, []) wokenThenCompleted = some (s, logs) ∧
      s.tasks = [t] ∧ logs = [l] ∧ t.Unowned ∧ t.futureDrops = 1 ∧ l.ready = true ∧
      l.lateStarts = 0 ∧ l.dropsInPoll = 0 := by
  have hguard : Guarded step (fun s a => s.orderly a = true) new wokenThenCompleted := by decide
  obtain ⟨logs, hlogs, -, htasks⟩ := polls_disciplined hguard rfl
  cases Option.some.inj hlogs
  obtain ⟨-, hlate, -, hdrops, hpoll, -⟩ := htasks 0 _ _ rfl rfl
  exact ⟨_, _, _, _, hguard, rfl, rfl, rfl, rfl, by decide, hdrops (by decide), rfl, hlate, hpoll⟩

end WorkqueueExecutor

namespace Task

/-- The task after its waker was cloned `n` times. -/
def addWakers (t : Task) (n : Nat) : Task :=
  { t with
    refs := t.refs + BitVec.ofNat 32 n
    handles := List.replicate n .waker ++ t.handles }

theorem addWakers_succ (t : Task) (n : Nat) :
    t.addWakers (n + 1) = (t.addHandle .waker).addWakers n := by
  have hrefs : t.refs + BitVec.ofNat 32 (n + 1) = t.refs + 1 + BitVec.ofNat 32 n := by
    rw [Nat.add_comm, BitVec.ofNat_add, ← BitVec.add_assoc]
    rfl
  have hhandles : List.replicate (n + 1) Role.waker ++ t.handles =
      List.replicate n .waker ++ .waker :: t.handles := by
    rw [List.replicate_succ', List.append_assoc]
    rfl
  simp only [addWakers, addHandle, hrefs, hhandles]

end Task

theorem PollLog.record_clone (l : PollLog) (t : Task) (r r' r₁ : Role) :
    l.record t (t.addHandle r₁) (.clone r r') = l := by
  simp [PollLog.record, Task.addHandle]

namespace WorkqueueExecutor

theorem run_clones {s : WorkqueueExecutor} {t : Task} (l : PollLog) (htasks : s.tasks = [t])
    (hrun : t.run = .polling) (hmem : .localWaker ∈ t.handles) (n : Nat) :
    run (recorded step note) (s, [l]) (List.replicate n (.task 0 (.clone .localWaker .waker))) =
      some ({ s with tasks := [t.addWakers n] }, [l]) := by
  induction n generalizing s t with
  | zero =>
    have hrefs : t.refs + BitVec.ofNat 32 0 = t.refs := BitVec.add_zero _
    have hnone : t.addWakers 0 = t := by
      rw [Task.addWakers, hrefs]
      rfl
    rw [hnone, ← htasks]
    rfl
  | succ n ih =>
    have hstep : s.step (.task 0 (.clone .localWaker .waker)) =
        some { s with tasks := [t.addHandle .waker] } := by
      simp [step, stepTask, target, advance, TaskAction.isLocal, Task.step, Task.mayClone, htasks,
        hmem, hrun]
    have hnote : note s (.task 0 (.clone .localWaker .waker))
        { s with tasks := [t.addHandle .waker] } [l] = [l] := by
      rw [note_of_target rfl (by rw [htasks]; rfl) (by rw [htasks]; rfl)]
      exact congrArg (· :: []) (PollLog.record_clone l t _ _ _)
    rw [List.replicate_succ, run, recorded, hstep, Option.map_some, hnote, Option.bind_some,
      ih (t := t.addHandle .waker) rfl hrun (List.mem_cons_of_mem _ hmem), ← Task.addWakers_succ]

/-- When the count has come round to 1, dropping a waker frees the task under its poll. -/
theorem drop_in_poll {s : WorkqueueExecutor} {t : Task} {l : PollLog} (htasks : s.tasks = [t])
    (hrun : t.run = .polling) (hmem : .waker ∈ t.handles) (hrefs : t.refs = 1)
    (hrevoked : t.revoked = false) :
    ∃ l', run (recorded step note) (s, [l]) [.task 0 (.drop .waker)] =
      some ({ s with tasks := [t.dropHandle .waker] }, [l']) ∧
      l'.dropsInPoll = l.dropsInPoll + 1 := by
  have hstep : s.step (.task 0 (.drop .waker)) =
      some { s with tasks := [t.dropHandle .waker] } := by
    simp [step, stepTask, target, advance, TaskAction.isLocal, Task.step, Task.mayDrop, htasks, hmem]
  refine ⟨l.record t (t.dropHandle .waker) (.drop .waker), ?_, ?_⟩
  · rw [run, recorded, hstep, Option.map_some, Option.bind_some,
      note_of_target rfl (by rw [htasks]; rfl) (by rw [htasks]; rfl)]
    rfl
  · refine if_pos ⟨decide_eq_true (Or.inr hrun), ?_⟩
    simp [Task.dropHandle, hrefs, hrevoked]

/-- The first poll of a task clones its waker `n` times, then drops one of the clones. -/
def cloneAndDrop (n : Nat) : List ExecutorAction :=
  spawnOne ++ [.task 0 .start, .task 0 .tryAccess, .task 0 .makeWaker] ++
    List.replicate n (.task 0 (.clone .localWaker .waker)) ++ [.task 0 (.drop .waker)]

theorem run_cloneAndDrop {n : Nat} (hn : (4 : CInt) + BitVec.ofNat 32 n = 1) :
    ∃ s t l, run (recorded step note) (new, []) (cloneAndDrop n) = some (s, [l]) ∧ s.tasks = [t] ∧
      t.run = .polling ∧ t.freed = 1 ∧ t.futureDrops = 1 ∧ l.dropsInPoll = 1 := by
  obtain ⟨s, t, l, hrun, htasks, hpoll, hmem, hrefs, hrevoked, hfreed, hdrops, hl⟩ :
      ∃ s t l, run (recorded step note) (new, [])
          (spawnOne ++ [.task 0 .start, .task 0 .tryAccess, .task 0 .makeWaker]) = some (s, [l]) ∧
        s.tasks = [t] ∧ t.run = .polling ∧ .localWaker ∈ t.handles ∧ t.refs = 4 ∧
        t.revoked = false ∧ t.freed = 0 ∧ t.futureDrops = 0 ∧ l.dropsInPoll = 0 :=
    ⟨_, _, _, rfl, rfl, rfl, by decide, rfl, rfl, rfl, rfl, rfl⟩
  have hpos : n ≠ 0 := by
    rintro rfl
    exact absurd hn (by decide)
  have hone : (t.addWakers n).refs = 1 := by rw [Task.addWakers, hrefs, hn]
  have hwaker : Role.waker ∈ (t.addWakers n).handles :=
    List.mem_append_left _ (List.mem_replicate.mpr ⟨hpos, rfl⟩)
  obtain ⟨l', hdrop, hl'⟩ := drop_in_poll (s := { s with tasks := [t.addWakers n] }) (l := l) rfl
    hpoll hwaker hone hrevoked
  refine ⟨{ s with tasks := [(t.addWakers n).dropHandle .waker] }, (t.addWakers n).dropHandle .waker,
    l', ?_, rfl, hpoll, ?_, ?_, by rw [hl', hl]⟩
  · rw [cloneAndDrop, run_append, run_append, hrun, Option.bind_some,
      run_clones l htasks hpoll hmem, Option.bind_some]
    exact hdrop
  · exact (if_pos hone).trans (congrArg (· + 1) hfreed)
  · exact (if_pos ⟨hone, hrevoked⟩).trans (congrArg (· + 1) hdrops)

/-- After 2 ^ 32 - 3 clones the count is back at 1. -/
theorem future_dropped_during_poll :
    ∃ s t l, run (recorded step note) (new, []) (cloneAndDrop (2 ^ 32 - 3)) = some (s, [l]) ∧
      s.tasks = [t] ∧ t.run = .polling ∧ t.freed = 1 ∧ t.futureDrops = 1 ∧ l.dropsInPoll = 1 :=
  run_cloneAndDrop (by decide)

end WorkqueueExecutor

end Rko
