import Rko.ExecutorShutdown
import Rko.TaskPolling

namespace Rko

open GuardedRun CallPool

namespace Task

variable {t t' : Task} {a : TaskAction}

theorem ending_of_step (hstep : t.step a = some t') (h : t'.Ending) :
    t.Ending ∨ a = .poll true ∨ (∃ r, a = .revoke r) ∨ ∃ alloc, a = .register true alloc := by
  cases transition_of_step hstep with
  | refuse alloc => exact Or.inr (Or.inr (Or.inr ⟨alloc, rfl⟩))
  | revoke r => exact Or.inr (Or.inr (Or.inl ⟨r, rfl⟩))
  | complete hrun => exact Or.inl (Or.inr (Or.inr hrun))
  | poll ready =>
    cases ready with
    | true => exact Or.inr (Or.inl rfl)
    | false => exact Or.inl (Or.inl (h.revoked (by rintro ⟨⟩) (by rintro ⟨⟩)))
  | @dropGuard ready hrun =>
    cases ready with
    | true => exact Or.inl (Or.inr (Or.inl hrun))
    | false => exact Or.inl (Or.inl (h.revoked (by rintro ⟨⟩) (by rintro ⟨⟩)))
  | enqueue =>
    rw [Ending, revoked_enqueueHandle, run_enqueueHandle] at h
    exact Or.inl h
  | cloneRevocable | register | unlisted | returnHandle | clone | drop | wake | flush =>
    exact Or.inl h
  | start | refused | tryAccess | makeWaker | suspend | dropLocalWaker | finish =>
    exact Or.inl (Or.inl (h.revoked (by rintro ⟨⟩) (by rintro ⟨⟩)))

/-- Before it is registered a task is known to `spawn_inner` only, and nothing has happened to it. -/
def Fresh (t : Task) : Prop :=
  t.spawn = .allocated ∨ t.spawn = .cloned →
    t.revoked = false ∧ ¬ t.Active ∧ ∀ r ∈ t.handles, r = .taskArc ∨ r = .revocable

theorem fresh_new : new.Fresh := fun _ => by decide

theorem Fresh.step (h : t.Fresh) (hstep : t.step a = some t') : t'.Fresh := by
  intro hspawn'
  cases transition_of_step hstep with
  | cloneRevocable hspawn =>
    obtain ⟨hrevoked, hidle, hroles⟩ := h (Or.inl hspawn)
    refine ⟨hrevoked, hidle, fun r hr => ?_⟩
    rcases List.mem_cons.mp hr with rfl | hold
    · exact Or.inr rfl
    · exact hroles r hold
  | refuse | register | unlisted | returnHandle => rcases hspawn' with hspawn' | hspawn' <;> cases hspawn'
  | enqueue hmem hrole =>
    rw [spawn_enqueueHandle] at hspawn'
    rcases hrole with ⟨-, hspawn⟩ | rfl
    · rw [hspawn] at hspawn'
      rcases hspawn' with hspawn' | hspawn' <;> cases hspawn'
    · exact absurd ((h hspawn').2.2 _ hmem) (by decide)
  | @clone r r' hmem hmay =>
    rcases (h hspawn').2.2 r hmem with rfl | rfl
    · cases r' <;> cases hmay
    · cases r' <;> cases hmay
  | drop =>
    obtain ⟨hrevoked, hidle, hroles⟩ := h hspawn'
    exact ⟨hrevoked, hidle, fun r hr => hroles r (List.mem_of_mem_erase hr)⟩
  | wake hmem => exact absurd ((h hspawn').2.2 _ hmem) (by decide)
  | revoke r =>
    rw [spawn_revokeFuture] at hspawn'
    obtain ⟨⟨hmem, hmay⟩, -⟩ := Option.ite_none_right_eq_some.mp hstep
    rcases (h hspawn').2.2 r hmem with rfl | rfl <;> cases hmay
  | flush r hrun =>
    obtain ⟨hrevoked, -, hroles⟩ := h hspawn'
    exact ⟨hrevoked, fun hactive => hactive.elim nofun fun hne => hne hrun, hroles⟩
  | start hpending => exact absurd (Or.inl hpending) (h hspawn').2.1
  | complete hrun =>
    rw [spawn_revokeFuture] at hspawn'
    exact absurd (Or.inr (by rw [hrun]; nofun)) (h hspawn').2.1
  | refused hrun | tryAccess hrun | makeWaker hrun | poll _ hrun | dropGuard hrun | suspend hrun
  | dropLocalWaker hrun | finish hrun =>
    exact absurd (Or.inr (by rw [hrun]; nofun)) (h hspawn').2.1

end Task

namespace WorkqueueExecutor

/-- What `stop` took from the list and has not revoked yet. -/
def toRevoke (s : WorkqueueExecutor) : List Nat :=
  match s.stop with
  | .revoking rest => rest
  | .flushing _ rest => rest
  | .dropping _ rest => rest
  | .idle => []
  | .returned => []

/-- No task completes or is revoked by a caller while its handle is in the list. -/
def keepsEntries (s : WorkqueueExecutor) : ExecutorAction → Bool
  | .task i (.poll true) => decide (i ∉ s.list)
  | .task i (.revoke _) => decide (i ∉ s.list)
  | _ => true

variable {s s' : WorkqueueExecutor} {a : ExecutorAction} {i : Nat} {t t' : Task} {ta : TaskAction}

theorem toRevoke_advance (h : s.target a = some (i, ta)) {j : Nat} (hj : j ∈ s.toRevoke) :
    j ∈ (s.advance a).toRevoke ∨ j = i ∧ ta = .revoke .entry := by
  rcases target_cases h with ⟨alloc, rfl, hadv⟩ | ⟨-, -, hadv⟩ | ⟨rest, hstop, rfl, hadv⟩ |
    ⟨rest, hstop, rfl, hadv⟩ | ⟨rest, hstop, rfl, hadv⟩
  · rw [hadv]
    split <;> exact Or.inl hj
  · rw [hadv]
    exact Or.inl hj
  · rw [toRevoke, hstop] at hj
    rcases List.mem_cons.mp hj with rfl | hrest
    · exact Or.inr ⟨rfl, rfl⟩
    · rw [hadv]
      exact Or.inl hrest
  · rw [toRevoke, hstop] at hj
    rw [hadv]
    exact Or.inl hj
  · rw [toRevoke, hstop] at hj
    rw [hadv]
    exact Or.inl hj

/-- The list holds registered tasks that are neither completed nor revoked, each once, and every
such task is in it or about to be revoked by `stop`. -/
structure Listed (s : WorkqueueExecutor) : Prop where
  fresh : ∀ t ∈ s.tasks, t.Fresh
  nodup : s.list.Nodup
  listed : ∀ {i}, i ∈ s.list → ∃ t, s.tasks[i]? = some t ∧ t.isRegistered = true ∧ ¬ t.Ending
  live : ∀ {i t}, s.tasks[i]? = some t → t.isRegistered = true → t.revoked = false →
    i ∈ s.list ∨ i ∈ s.toRevoke
  list : s.stopped = true → s.list = []
  stop : s.stopped = false → s.stop = .idle

namespace Listed

theorem new : Listed WorkqueueExecutor.new :=
  ⟨nofun, List.nodup_nil, nofun, nofun, nofun, fun _ => rfl⟩

/-- A step on a task whose handle is in the list does not end it. -/
theorem not_ending (h : s.Listed) (hguard : s.keepsEntries a = true)
    (htarget : s.target a = some (i, ta)) (ht : s.tasks[i]? = some t) (hstep : t.step ta = some t')
    (hi : i ∈ s.list) : ¬ t'.Ending := by
  obtain ⟨u, hu, hreg, hlive⟩ := h.listed hi
  rw [ht] at hu
  cases Option.some.inj hu
  have hrunning : s.stopped = false := by
    by_contra hstopped
    rw [h.list (Bool.eq_true_of_not_eq_false hstopped)] at hi
    cases hi
  have hidle := h.stop hrunning
  intro hending
  rcases target_cases htarget with ⟨alloc, rfl, -⟩ | ⟨rfl, -, -⟩ | ⟨rest, hstop, -⟩ |
    ⟨rest, hstop, -⟩ | ⟨rest, hstop, -⟩
  · rw [hrunning] at hstep
    rcases Task.ending_of_step hstep hending with hold | heq | ⟨r, heq⟩ | ⟨alloc, heq⟩
    · exact hlive hold
    · cases heq
    · cases heq
    · cases heq
  · rcases Task.ending_of_step hstep hending with hold | rfl | ⟨r, rfl⟩ | ⟨alloc, rfl⟩
    · exact hlive hold
    · exact of_decide_eq_true hguard hi
    · exact of_decide_eq_true hguard hi
    · cases htarget
  · rw [hidle] at hstop
    cases hstop
  · rw [hidle] at hstop
    cases hstop
  · rw [hidle] at hstop
    cases hstop

/-- The list after a step on the task `i`: it has grown only by a task that was just registered. -/
theorem list_advance (h : s.Listed) (htarget : s.target a = some (i, ta))
    (ht : s.tasks[i]? = some t) (hstep : t.step ta = some t') :
    (s.advance a).list = s.list ∨ (s.advance a).list = s.list ++ [i] ∧ i ∉ s.list ∧
      t'.isRegistered = true ∧ ¬ t'.Ending := by
  rcases target_cases htarget with ⟨alloc, rfl, hadv⟩ | ⟨-, -, hadv⟩ | ⟨rest, -, -, hadv⟩ |
    ⟨rest, -, -, hadv⟩ | ⟨rest, -, -, hadv⟩
  · rw [hadv]
    split
    next hcond =>
      obtain ⟨hrunning, rfl⟩ := hcond
      rw [hrunning] at hstep
      cases Task.transition_of_step hstep with
      | register hspawn =>
        obtain ⟨hrevoked, hidle, -⟩ := h.fresh t (List.mem_of_getElem? ht) (Or.inr hspawn)
        refine Or.inr ⟨rfl, fun hi => ?_, rfl, fun hending => ?_⟩
        · obtain ⟨u, hu, hreg, -⟩ := h.listed hi
          rw [ht] at hu
          cases Option.some.inj hu
          rw [Task.isRegistered, hspawn] at hreg
          cases hreg
        · have hrun : t.run = .idle := by
            by_contra hne
            exact hidle (Or.inr hne)
          rcases hending with hset | hpolled | hpolled
          · exact absurd (hrevoked.symm.trans hset) (by decide)
          · exact absurd (hrun.symm.trans hpolled) (by decide)
          · exact absurd (hrun.symm.trans hpolled) (by decide)
    next => exact Or.inl rfl
  all_goals
    rw [hadv]
    exact Or.inl rfl

section Advance

variable (h : s.Listed) (htarget : s.target a = some (i, ta)) (ht : s.tasks[i]? = some t)
  (hstep : t.step ta = some t')

include h htarget ht hstep

/-- A handle in the list after the step belongs to a registered task that has not ended. -/
theorem listed_advance (hguard : s.keepsEntries a = true) {j : Nat}
    (hj : j ∈ (s.advance a).list) :
    ∃ u, (s.tasks.set i t')[j]? = some u ∧ u.isRegistered = true ∧ ¬ u.Ending := by
  have hlist := h.list_advance htarget ht hstep
  rcases eq_or_ne j i with rfl | hne
  · have hset : (s.tasks.set j t')[j]? = some t' := by
      rw [List.getElem?_set_self (List.getElem?_eq_some_iff.mp ht).1]
    refine ⟨t', hset, ?_⟩
    rcases hlist with heq | ⟨-, -, hreg, hlive⟩
    · rw [heq] at hj
      obtain ⟨u, hu, hreg, -⟩ := h.listed hj
      rw [ht] at hu
      cases Option.some.inj hu
      refine ⟨?_, h.not_ending hguard htarget ht hstep hj⟩
      rcases Task.isRegistered_of_step hstep with hsame | ⟨-, hnow, -⟩
      · rw [hsame, hreg]
      · exact hnow
    · exact ⟨hreg, hlive⟩
  · have hold : j ∈ s.list := by
      rcases hlist with heq | ⟨heq, -⟩
      · rwa [heq] at hj
      · rw [heq] at hj
        rcases List.mem_append.mp hj with hold | hlast
        · exact hold
        · exact absurd (List.mem_singleton.mp hlast) hne
    obtain ⟨u, hu, hprops⟩ := h.listed hold
    exact ⟨u, by rw [List.getElem?_set_ne hne.symm]; exact hu, hprops⟩

/-- A registered task that is not revoked keeps its place, or gets one as it is registered. -/
theorem live_advance {j : Nat} {u : Task} (hu : (s.tasks.set i t')[j]? = some u)
    (hreg : u.isRegistered = true) (hrevoked : u.revoked = false) :
    j ∈ (s.advance a).list ∨ j ∈ (s.advance a).toRevoke := by
  have hkeeps := keeps_advance htarget
  rcases getElem?_set_cases hu with ⟨rfl, rfl⟩ | ⟨hne, hold⟩
  · have hbefore : t.revoked = false := by
      by_contra hset
      rw [Task.revoked_of_step (Bool.eq_true_of_not_eq_false hset) hstep] at hrevoked
      cases hrevoked
    rcases Task.isRegistered_of_step hstep with hsame | ⟨-, -, rfl⟩
    · rcases h.live ht (hsame ▸ hreg) hbefore with hin | hin
      · exact Or.inl (hkeeps.mem_list hin)
      · rcases toRevoke_advance htarget hin with hkept | ⟨-, rfl⟩
        · exact Or.inr hkept
        · cases Task.transition_of_step hstep with
          | revoke =>
            rw [Task.revoked_revokeFuture] at hrevoked
            cases hrevoked
    · exact Or.inl (hkeeps.register rfl)
  · rcases h.live hold hreg hrevoked with hin | hin
    · exact Or.inl (hkeeps.mem_list hin)
    · exact Or.inr ((toRevoke_advance htarget hin).resolve_right fun heq => hne heq.1)

theorem setTask (hguard : s.keepsEntries a = true) (hfresh : ∀ t ∈ s.tasks.set i t', t.Fresh) :
    Listed { s.advance a with tasks := s.tasks.set i t' } := by
  have hkeeps := keeps_advance htarget
  refine ⟨hfresh, ?_, h.listed_advance htarget ht hstep hguard, h.live_advance htarget ht hstep,
    ?_, ?_⟩
  · rcases h.list_advance htarget ht hstep with heq | ⟨heq, hnot, -⟩
    · rw [heq]
      exact h.nodup
    · rw [heq]
      exact List.nodup_append.mpr ⟨h.nodup, List.pairwise_singleton _ i, fun x hx y hy => by
        rintro rfl
        exact hnot (List.mem_singleton.mp hy ▸ hx)⟩
  · intro hstopped
    rw [hkeeps.stopped] at hstopped
    rcases hkeeps.list with heq | ⟨hrunning, -⟩
    · rw [heq, h.list hstopped]
    · rw [hstopped] at hrunning
      cases hrunning
  · intro hrunning
    rw [hkeeps.stopped] at hrunning
    exact hkeeps.stop (h.stop hrunning)

end Advance

theorem step (h : s.Listed) (hguard : s.keepsEntries a = true) (hstep : s.step a = some s') :
    s'.Listed := by
  have hfresh : ∀ t ∈ s'.tasks, t.Fresh :=
    tasks_step Task.fresh_new h.fresh (fun _ _ ht' hold => hold.step ht') hstep
  rcases step_cases hstep with rfl | ⟨-, rfl⟩ | ⟨hidle, rfl⟩ | ⟨hdone, rfl⟩ |
    ⟨i, ta, t, t', htarget, ht, ht', rfl⟩
  · exact h
  · refine ⟨hfresh, h.nodup, ?_, ?_, h.list, h.stop⟩
    · intro i hi
      obtain ⟨t, ht, hprops⟩ := h.listed hi
      have hlt := (List.getElem?_eq_some_iff.mp ht).1
      exact ⟨t, by rw [List.getElem?_append_left hlt]; exact ht, hprops⟩
    · intro i t ht hreg hrevoked
      rcases getElem?_concat_cases ht with hold | ⟨-, rfl⟩
      · exact h.live hold hreg hrevoked
      · cases hreg
  · refine ⟨hfresh, List.nodup_nil, nofun, ?_, fun _ => rfl, nofun⟩
    intro i t ht hreg hrevoked
    rcases h.live ht hreg hrevoked with hin | hin
    · exact Or.inr hin
    · rw [toRevoke, hidle] at hin
      cases hin
  · refine ⟨hfresh, h.nodup, h.listed, ?_, h.list, fun hrunning => ?_⟩
    · intro i t ht hreg hrevoked
      rcases h.live ht hreg hrevoked with hin | hin
      · exact Or.inl hin
      · rw [toRevoke, hdone] at hin
        cases hin
    · have hidle := h.stop hrunning
      rw [hdone] at hidle
      cases hidle
  · exact h.setTask htarget ht ht' hguard hfresh

end Listed

/-- No `spawn`, `run` or `revoke` is in progress; a `stop` has revoked all it took. -/
structure Quiet (s : WorkqueueExecutor) : Prop where
  spawn : ∀ t ∈ s.tasks, t.spawn = .spawned ∨ t.spawn = .failed
  run : ∀ t ∈ s.tasks, t.run = .idle
  revoke : s.toRevoke = []

/-- A spawned task that has neither completed nor been revoked. -/
def IsLive (t : Task) : Prop := t.spawn = .spawned ∧ ¬ t.Ending

instance (t : Task) : Decidable (IsLive t) :=
  inferInstanceAs (Decidable (_ ∧ ¬ (_ ∨ _ ∨ _)))

theorem Listed.mem_iff (h : s.Listed) (hquiet : s.Quiet) :
    i ∈ s.list ↔ ∃ t, s.tasks[i]? = some t ∧ IsLive t := by
  constructor
  · intro hi
    obtain ⟨t, ht, hreg, hlive⟩ := h.listed hi
    refine ⟨t, ht, ?_, hlive⟩
    rcases hquiet.spawn t (List.mem_of_getElem? ht) with hspawned | hfailed
    · exact hspawned
    · rw [Task.isRegistered, hfailed] at hreg
      cases hreg
  · rintro ⟨t, ht, hspawned, hlive⟩
    have hrevoked : t.revoked = false := by
      by_contra hset
      exact hlive (Or.inl (Bool.eq_true_of_not_eq_false hset))
    rcases h.live ht (by rw [Task.isRegistered, hspawned]) hrevoked with hin | hin
    · exact hin
    · rw [hquiet.revoke] at hin
      cases hin

/-- If no task completes or is revoked by its caller while the executor holds a handle of it, the
list holds one handle for each live task and no other whenever nothing is in progress. -/
theorem list_tracks_live {actions : List ExecutorAction}
    (hguard : Guarded step (fun s a => s.keepsEntries a = true) new actions)
    (hrun : run step new actions = some s) (hquiet : s.Quiet) :
    s.list.Nodup ∧ (∀ i, i ∈ s.list ↔ ∃ t, s.tasks[i]? = some t ∧ IsLive t) ∧
      s.list.length = s.tasks.countP fun t => decide (IsLive t) := by
  have h : s.Listed := run_invariant (fun h ha hstep => h.step ha hstep) Listed.new hguard hrun
  refine ⟨h.nodup, fun i => h.mem_iff hquiet, length_eq_countP h.nodup fun i => ?_⟩
  simpa only [decide_eq_true_eq] using h.mem_iff hquiet

theorem list_tracks_live_polled :
    ∃ s, run step new (spawnOne ++ pollOne) = some s ∧ s.list = [0] ∧
      s.list.length = s.tasks.countP fun t => decide (IsLive t) := by
  have hguard : Guarded step (fun s a => s.keepsEntries a = true) new (spawnOne ++ pollOne) := by
    decide
  exact ⟨_, rfl, rfl, (list_tracks_live hguard rfl ⟨by decide, by decide, rfl⟩).2.2⟩

/-- The only poll of the task returns `Ready`. -/
def completeOne : List ExecutorAction :=
  [.task 0 .start, .task 0 .tryAccess, .task 0 .makeWaker, .task 0 (.poll true), .task 0 .dropGuard,
    .task 0 .afterPoll, .task 0 .dropLocalWaker, .task 0 .finish]

/-- Neither the completion of a task nor its revocation by the caller takes the handle out of the
list. -/
theorem ended_task_stays_listed :
    (∃ s, run step new (spawnOne ++ completeOne) = some s ∧ s.Quiet ∧ s.list = [0] ∧
      ∀ t ∈ s.tasks, ¬ IsLive t) ∧
    ∃ s, run step new (spawnOne ++ pollOne ++ [.task 0 (.revoke .caller)]) = some s ∧ s.Quiet ∧
      s.list = [0] ∧ ∀ t ∈ s.tasks, ¬ IsLive t :=
  ⟨⟨_, rfl, ⟨by decide, by decide, rfl⟩, rfl, by decide⟩,
    _, rfl, ⟨by decide, by decide, rfl⟩, rfl, by decide⟩

end WorkqueueExecutor

end Rko
