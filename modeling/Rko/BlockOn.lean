import Rko.TaskPolling
import Rko.ExecutorShutdown

namespace Rko

open GuardedRun

/-- Where the calling thread is in `block_on`. -/
inductive CallerPhase
  | entered | allocated | spawning | waiting | waited | loaded | returned
deriving DecidableEq, Repr

def CallerPhase.hasWaited : CallerPhase → Bool
  | .waited => true
  | .loaded => true
  | .returned => true
  | _ => false

/-- Where the async block is that `block_on` spawns. -/
inductive AsyncPhase
  | awaiting | ready | stored | flagged | finished
deriving DecidableEq, Repr

/-- What a poll of the async block returns at this point, if it can return. -/
def AsyncPhase.pollResult : AsyncPhase → Option Bool
  | .awaiting => some false
  | .finished => some true
  | _ => none

def AsyncPhase.hasStored : AsyncPhase → Bool
  | .awaiting => false
  | .ready => false
  | _ => true

def AsyncPhase.hasFlagged : AsyncPhase → Bool
  | .flagged => true
  | .finished => true
  | _ => false

theorem AsyncPhase.hasStored_of_hasFlagged {p : AsyncPhase} (h : p.hasFlagged = true) :
    p.hasStored = true := by
  cases p with
  | flagged | finished => rfl
  | awaiting | ready | stored => cases h

/-- One call of `block_on` with the executor it runs on and the number of its task. `done` and
`value` are the `ResultCell`, `signalled` is the completion on the caller's stack. `late` counts how
often the task has used the completion after the call had returned. -/
structure BlockOn (T : Type) where
  executor : WorkqueueExecutor
  task : Option Nat
  caller : CallerPhase
  result : Option (Except Error T)
  future : AsyncPhase
  output : Option T
  done : Bool
  value : Option T
  signalled : Bool
  late : Nat

/-- `executor` is a step of the executor, its other tasks and the workqueue; `output` is the future's
`Ready`; the rest are the steps of `block_on` and of the async block. -/
inductive BlockOnAction (T : Type)
  | executor (a : ExecutorAction)
  | allocate (ok : Bool)
  | spawnInner (alloc : Bool)
  | spawnReturn
  | signal
  | timeout
  | load
  | take
  | output (val : T)
  | store
  | setDone
  | complete

namespace BlockOn

variable {T : Type}

def call (e : WorkqueueExecutor) : BlockOn T :=
  ⟨e, none, .entered, none, .awaiting, none, false, none, false, 0⟩

def spawned (s : BlockOn T) : Option Task := s.task.bind fun i => s.executor.tasks[i]?

def polling (s : BlockOn T) : Bool := s.spawned.any fun t => decide (t.run = .polling)

/-- A poll of the task returns what the async block returns. -/
def allows (s : BlockOn T) : ExecutorAction → Bool
  | .task i (.poll ready) => decide (s.task = some i → s.future.pollResult = some ready)
  | _ => true

def leave (s : BlockOn T) (r : Except Error T) : BlockOn T :=
  { s with caller := .returned, result := some r }

/-- `spawn_inner` up to the allocation of the task. -/
def spawnInner (s : BlockOn T) (alloc : Bool) : Option (BlockOn T) :=
  if s.executor.stopped then some (s.leave (.error Error.EBUSY))
  else if alloc then
    (s.executor.step .spawn).map fun e =>
      { s with executor := e, task := some s.executor.tasks.length, caller := .spawning }
  else some (s.leave (.error Error.ENOMEM))

def spawnReturn (s : BlockOn T) (t : Task) : Option (BlockOn T) :=
  match t.spawn with
  | .spawned => some { s with caller := .waiting }
  -- a task that finds the executor stopped when it registers is revoked
  | .failed => some (s.leave (.error (if t.revoked then Error.EBUSY else Error.ENOMEM)))
  | _ => none

def step (s : BlockOn T) : BlockOnAction T → Option (BlockOn T)
  | .executor a =>
    if s.allows a then (s.executor.step a).map fun e => { s with executor := e } else none
  | .allocate ok =>
    if s.caller = .entered then
      some (if ok then { s with caller := .allocated } else s.leave (.error Error.ENOMEM))
    else none
  | .spawnInner alloc => if s.caller = .allocated then s.spawnInner alloc else none
  | .spawnReturn => if s.caller = .spawning then s.spawned.bind s.spawnReturn else none
  | .signal =>
    if s.caller = .waiting ∧ s.signalled = true then some { s with caller := .waited } else none
  | .timeout =>
    if s.caller = .waiting ∧ s.signalled = false then some { s with caller := .waited } else none
  | .load =>
    if s.caller = .waited then
      some (if s.done then { s with caller := .loaded } else s.leave (.error Error.EBUSY))
    else none
  | .take =>
    if s.caller = .loaded then
      some { s.leave (s.value.elim (.error Error.EINVAL) .ok) with value := none }
    else none
  | .output val =>
    if s.polling = true ∧ s.future = .awaiting then
      some { s with output := some val, future := .ready }
    else none
  | .store =>
    if s.polling = true ∧ s.future = .ready then
      some { s with value := s.output, future := .stored }
    else none
  | .setDone =>
    if s.polling = true ∧ s.future = .stored then some { s with done := true, future := .flagged }
    else none
  | .complete =>
    if s.polling = true ∧ s.future = .flagged then
      some { s with
        signalled := true
        future := .finished
        late := if s.caller = .returned then s.late + 1 else s.late }
    else none

end BlockOn

namespace Task

variable {t t' : Task} {a : TaskAction}

/-- The task was not spawned, or its future is revoked and nobody polls it. -/
def Unpollable (t : Task) : Prop := t.spawn = .failed ∨ t.revoked = true ∧ t.guards = 0

theorem spawn_failed_of_step (h : t.spawn = .failed) (hstep : t.step a = some t') :
    t'.spawn = .failed := by
  cases transition_of_step hstep with
  | cloneRevocable hspawn | register hspawn | returnHandle hspawn =>
    rw [h] at hspawn
    cases hspawn
  | refuse | unlisted => rfl
  | enqueue => exact (spawn_enqueueHandle t _).trans h
  | revoke | complete => exact (spawn_revokeFuture t).trans h
  | _ => exact h

theorem Unpollable.step (h : t.Unpollable) (hstep : t.step a = some t') : t'.Unpollable := by
  rcases h with hfailed | ⟨hrevoked, hguards⟩
  · exact Or.inl (spawn_failed_of_step hfailed hstep)
  · refine Or.inr ⟨revoked_of_step hrevoked hstep, ?_⟩
    cases transition_of_step hstep with
    | tryAccess _ hlive =>
      rw [hrevoked] at hlive
      cases hlive
    | dropGuard => exact congrArg (· - 1) hguards
    | refuse | revoke | complete => exact (guards_revokeFuture t).trans hguards
    | enqueue => exact (guards_enqueueHandle t _).trans hguards
    | _ => exact hguards

theorem Unpollable.not_polling (h : t.Unpollable) (hguarding : t.Guarding)
    (hlisted : t.Wakeable → t.isRegistered = true) : t.run ≠ .polling := by
  intro hrun
  rcases h with hfailed | ⟨-, hguards⟩
  · have hreg := hlisted (Or.inl (Or.inr (by rw [hrun]; nofun)))
    rw [isRegistered, hfailed] at hreg
    cases hreg
  · rw [Guarding, hrun, hguards] at hguarding
    cases hguarding

end Task

namespace BlockOn

variable {T : Type} {s s' : BlockOn T}

theorem mem_spawned {t : Task} :
    t ∈ s.spawned ↔ ∃ i, s.task = some i ∧ s.executor.tasks[i]? = some t :=
  Option.bind_eq_some_iff

/-- What every step of a task keeps, the spawned task keeps. -/
theorem spawned_of_executor {P : Task → Prop} {a : ExecutorAction} {e : WorkqueueExecutor}
    (hkeep : ∀ {t t' : Task} {ta}, P t → t.step ta = some t' → P t')
    (hlisted : ∀ i ∈ s.task, i < s.executor.tasks.length) (h : ∀ t ∈ s.spawned, P t)
    (hstep : s.executor.step a = some e) : ∀ t ∈ spawned { s with executor := e }, P t := by
  intro t' hmem
  obtain ⟨i, hi, ht'⟩ := mem_spawned.mp hmem
  rcases WorkqueueExecutor.task_step (hlisted i hi) hstep ht' with hsame | ⟨t, ta, ht, hta⟩
  · exact h t' (mem_spawned.mpr ⟨i, hi, hsame⟩)
  · exact hkeep (h t (mem_spawned.mpr ⟨i, hi, ht⟩)) hta

/-- The result cell and the completion follow the async block, and `block_on` has read what it
returned from the cell. -/
structure Sound (s : BlockOn T) : Prop where
  listed : ∀ i ∈ s.task, i < s.executor.tasks.length
  guarding : ∀ t ∈ s.spawned, t.Guarding
  registered : ∀ t ∈ s.spawned, t.Wakeable → t.isRegistered = true
  done : s.done = s.future.hasFlagged
  signalled : s.signalled = decide (s.future = .finished)
  value : s.caller ≠ .returned → s.future.hasStored = true → s.value = s.output
  loaded : s.caller = .loaded → s.done = true
  result : ∀ v, s.result = some (.ok v) → s.done = true ∧ s.output = some v

namespace Sound

theorem call (e : WorkqueueExecutor) : Sound (call e : BlockOn T) :=
  ⟨nofun, nofun, nofun, rfl, rfl, nofun, nofun, nofun⟩

theorem executor {a : ExecutorAction} {e : WorkqueueExecutor} (h : s.Sound)
    (hstep : s.executor.step a = some e) : Sound { s with executor := e } where
  listed := fun i hi => (h.listed i hi).trans_le (WorkqueueExecutor.length_le_of_step hstep)
  guarding := spawned_of_executor (fun ht hta => ht.step hta) h.listed h.guarding hstep
  registered := spawned_of_executor (P := fun t => t.Wakeable → t.isRegistered = true)
    (fun ht hta => Task.isRegistered_of_wakeable ht hta) h.listed h.registered hstep
  done := h.done
  signalled := h.signalled
  value := h.value
  loaded := h.loaded
  result := h.result

theorem moveTo {c : CallerPhase} (h : s.Sound) (hcaller : s.caller ≠ .returned)
    (hc : c = .loaded → s.done = true) : Sound { s with caller := c } :=
  ⟨h.listed, h.guarding, h.registered, h.done, h.signalled, fun _ => h.value hcaller, hc, h.result⟩

theorem fail (h : s.Sound) (e : Error) : Sound (s.leave (.error e)) :=
  ⟨h.listed, h.guarding, h.registered, h.done, h.signalled, fun hne => absurd rfl hne, nofun, nofun⟩

theorem spawn {e : WorkqueueExecutor} (h : s.Sound) (hcaller : s.caller = .allocated)
    (hrunning : ¬ s.executor.stopped = true) (hstep : s.executor.step .spawn = some e) :
    Sound { s with executor := e, task := some s.executor.tasks.length, caller := .spawning } := by
  have he : e = { s.executor with tasks := s.executor.tasks ++ [Task.new] } := by
    rw [WorkqueueExecutor.step, if_neg hrunning] at hstep
    exact (Option.some.inj hstep).symm
  have hspawned : spawned { s with
      executor := e, task := some s.executor.tasks.length, caller := .spawning } =
      some Task.new := by
    rw [he]
    exact List.getElem?_concat_length
  have hne : s.caller ≠ .returned := by rw [hcaller]; decide
  refine ⟨?_, ?_, ?_, h.done, h.signalled, fun _ => h.value hne, ?_, h.result⟩
  · intro i hi
    cases Option.some.inj hi
    rw [he]
    exact List.length_append ▸ Nat.lt_succ_self _
  · intro t ht
    cases Option.some.inj (hspawned.symm.trans ht)
    exact Task.disciplined_new.guarding
  · intro t ht hwake
    cases Option.some.inj (hspawned.symm.trans ht)
    exact absurd hwake Task.not_wakeable_new
  · intro hc
    cases hc

theorem spawnInner {alloc : Bool} (h : s.Sound) (hcaller : s.caller = .allocated)
    (hstep : s.spawnInner alloc = some s') : s'.Sound := by
  unfold BlockOn.spawnInner at hstep
  split at hstep
  next =>
    cases Option.some.inj hstep
    exact h.fail _
  next hrunning =>
    split at hstep
    next =>
      obtain ⟨e, he, rfl⟩ := Option.map_eq_some_iff.mp hstep
      exact h.spawn hcaller hrunning he
    next =>
      cases Option.some.inj hstep
      exact h.fail _

theorem spawnReturn {t : Task} (h : s.Sound) (hcaller : s.caller = .spawning)
    (hstep : s.spawnReturn t = some s') : s'.Sound := by
  unfold BlockOn.spawnReturn at hstep
  split at hstep
  · cases Option.some.inj hstep
    exact h.moveTo (by rw [hcaller]; nofun) nofun
  · cases Option.some.inj hstep
    exact h.fail _
  · cases hstep

theorem take (h : s.Sound) (hcaller : s.caller = .loaded) :
    Sound { s.leave (s.value.elim (.error Error.EINVAL) .ok) with value := none } := by
  refine ⟨h.listed, h.guarding, h.registered, h.done, h.signalled, fun hne => absurd rfl hne, nofun,
    ?_⟩
  intro v hresult
  have hdone := h.loaded hcaller
  have hstored := AsyncPhase.hasStored_of_hasFlagged (h.done.symm.trans hdone)
  have hvalue := h.value (by rw [hcaller]; nofun) hstored
  refine ⟨hdone, ?_⟩
  cases hv : s.value with
  | none =>
    rw [hv] at hresult
    cases hresult
  | some w =>
    rw [hv] at hresult hvalue
    cases hresult
    exact hvalue.symm

theorem output {v : T} (h : s.Sound) (hfuture : s.future = .awaiting) :
    Sound { s with output := some v, future := .ready } := by
  have hdone : s.done = false := by rw [h.done, hfuture]; rfl
  have hsignalled : s.signalled = false := by rw [h.signalled, hfuture]; rfl
  refine ⟨h.listed, h.guarding, h.registered, hdone, hsignalled, nofun, h.loaded, fun w hw => ?_⟩
  have hset := (h.result w hw).1
  rw [hdone] at hset
  cases hset

theorem store (h : s.Sound) (hfuture : s.future = .ready) :
    Sound { s with value := s.output, future := .stored } := by
  have hdone : s.done = false := by rw [h.done, hfuture]; rfl
  have hsignalled : s.signalled = false := by rw [h.signalled, hfuture]; rfl
  exact ⟨h.listed, h.guarding, h.registered, hdone, hsignalled, fun _ _ => rfl, h.loaded, h.result⟩

theorem setDone (h : s.Sound) (hfuture : s.future = .stored) :
    Sound { s with done := true, future := .flagged } := by
  have hsignalled : s.signalled = false := by rw [h.signalled, hfuture]; rfl
  exact ⟨h.listed, h.guarding, h.registered, rfl, hsignalled,
    fun hne _ => h.value hne (by rw [hfuture]; rfl), fun _ => rfl,
    fun w hw => ⟨rfl, (h.result w hw).2⟩⟩

theorem complete {n : Nat} (h : s.Sound) (hfuture : s.future = .flagged) :
    Sound { s with signalled := true, future := .finished, late := n } := by
  have hdone : s.done = true := by rw [h.done, hfuture]; rfl
  exact ⟨h.listed, h.guarding, h.registered, hdone, rfl,
    fun hne _ => h.value hne (by rw [hfuture]; rfl), h.loaded, h.result⟩

theorem step {a : BlockOnAction T} (h : s.Sound) (hstep : s.step a = some s') : s'.Sound := by
  cases a with
  | executor a =>
    obtain ⟨-, hmap⟩ := Option.ite_none_right_eq_some.mp hstep
    obtain ⟨e, he, rfl⟩ := Option.map_eq_some_iff.mp hmap
    exact h.executor he
  | allocate ok =>
    obtain ⟨hcaller, ⟨⟩⟩ := Option.ite_none_right_eq_some.mp hstep
    split
    · exact h.moveTo (by rw [hcaller]; nofun) nofun
    · exact h.fail _
  | spawnInner alloc =>
    obtain ⟨hcaller, hspawn⟩ := Option.ite_none_right_eq_some.mp hstep
    exact h.spawnInner hcaller hspawn
  | spawnReturn =>
    obtain ⟨hcaller, hbind⟩ := Option.ite_none_right_eq_some.mp hstep
    obtain ⟨t, -, hreturn⟩ := Option.bind_eq_some_iff.mp hbind
    exact h.spawnReturn hcaller hreturn
  | signal =>
    obtain ⟨⟨hcaller, -⟩, ⟨⟩⟩ := Option.ite_none_right_eq_some.mp hstep
    exact h.moveTo (by rw [hcaller]; nofun) nofun
  | timeout =>
    obtain ⟨⟨hcaller, -⟩, ⟨⟩⟩ := Option.ite_none_right_eq_some.mp hstep
    exact h.moveTo (by rw [hcaller]; nofun) nofun
  | load =>
    obtain ⟨hcaller, ⟨⟩⟩ := Option.ite_none_right_eq_some.mp hstep
    split
    next hdone => exact h.moveTo (by rw [hcaller]; nofun) fun _ => hdone
    next => exact h.fail _
  | take =>
    obtain ⟨hcaller, ⟨⟩⟩ := Option.ite_none_right_eq_some.mp hstep
    exact h.take hcaller
  | output v =>
    obtain ⟨⟨-, hfuture⟩, ⟨⟩⟩ := Option.ite_none_right_eq_some.mp hstep
    exact h.output hfuture
  | store =>
    obtain ⟨⟨-, hfuture⟩, ⟨⟩⟩ := Option.ite_none_right_eq_some.mp hstep
    exact h.store hfuture
  | setDone =>
    obtain ⟨⟨-, hfuture⟩, ⟨⟩⟩ := Option.ite_none_right_eq_some.mp hstep
    exact h.setDone hfuture
  | complete =>
    obtain ⟨⟨-, hfuture⟩, ⟨⟩⟩ := Option.ite_none_right_eq_some.mp hstep
    exact h.complete hfuture

end Sound

/-- The wait runs out only when the future is revoked and nobody polls it. -/
def outwaits (s : BlockOn T) : BlockOnAction T → Bool
  | .timeout => s.spawned.all fun t => t.revoked && t.guards == 0
  | _ => true

/-- The caller does not go on before the task has signalled or can no longer do so. -/
structure Settled (s : BlockOn T) : Prop where
  fresh : s.caller = .entered ∨ s.caller = .allocated → s.task = none
  waited : s.caller.hasWaited = true → s.signalled = true ∨ ∀ t ∈ s.spawned, t.Unpollable
  late : s.late = 0

namespace Settled

theorem call (e : WorkqueueExecutor) : Settled (call e : BlockOn T) := ⟨fun _ => rfl, nofun, rfl⟩

theorem executor {a : ExecutorAction} {e : WorkqueueExecutor} (h : s.Settled) (hs : s.Sound)
    (hstep : s.executor.step a = some e) : Settled { s with executor := e } where
  fresh := h.fresh
  waited := fun hw => (h.waited hw).imp id fun hgone =>
    spawned_of_executor (fun ht hta => ht.step hta) hs.listed hgone hstep
  late := h.late

theorem fail (h : s.Settled) (hcaller : s.caller = .entered ∨ s.caller = .allocated) (e : Error) :
    Settled (s.leave (.error e)) := by
  have hnone : s.spawned = none := by rw [spawned, h.fresh hcaller]; rfl
  refine ⟨nofun, fun _ => Or.inr fun t ht => ?_, h.late⟩
  cases hnone.symm.trans ht

theorem spawnInner {alloc : Bool} (h : s.Settled) (hcaller : s.caller = .allocated)
    (hstep : s.spawnInner alloc = some s') : s'.Settled := by
  unfold BlockOn.spawnInner at hstep
  split at hstep
  next =>
    cases Option.some.inj hstep
    exact h.fail (Or.inr hcaller) _
  next =>
    split at hstep
    next =>
      obtain ⟨e, -, rfl⟩ := Option.map_eq_some_iff.mp hstep
      exact ⟨nofun, nofun, h.late⟩
    next =>
      cases Option.some.inj hstep
      exact h.fail (Or.inr hcaller) _

theorem spawnReturn {t : Task} (h : s.Settled) (ht : t ∈ s.spawned)
    (hstep : s.spawnReturn t = some s') : s'.Settled := by
  unfold BlockOn.spawnReturn at hstep
  split at hstep
  next =>
    cases Option.some.inj hstep
    exact ⟨nofun, nofun, h.late⟩
  next hfailed =>
    cases Option.some.inj hstep
    refine ⟨nofun, fun _ => Or.inr fun u hu => ?_, h.late⟩
    cases Option.some.inj (ht.symm.trans hu)
    exact Or.inl hfailed
  next => cases hstep

/-- The completion is only used while the caller is still there. -/
theorem complete (h : s.Settled) (hs : s.Sound) (hpolling : s.polling = true)
    (hfuture : s.future = .flagged) : s.caller ≠ .returned := by
  intro hreturned
  rcases h.waited (by rw [hreturned]; rfl) with hsignalled | hgone
  · rw [hs.signalled, hfuture] at hsignalled
    cases hsignalled
  · -- the async block runs in a poll, and this task is not polled any more
    obtain ⟨t, ht, hrun⟩ := (Option.any_eq_true _ _).mp hpolling
    exact (hgone t ht).not_polling (hs.guarding t ht) (hs.registered t ht) (of_decide_eq_true hrun)

theorem step {a : BlockOnAction T} (h : s.Settled) (hs : s.Sound) (ha : s.outwaits a = true)
    (hstep : s.step a = some s') : s'.Settled := by
  cases a with
  | executor a =>
    obtain ⟨-, hmap⟩ := Option.ite_none_right_eq_some.mp hstep
    obtain ⟨e, he, rfl⟩ := Option.map_eq_some_iff.mp hmap
    exact h.executor hs he
  | allocate ok =>
    obtain ⟨hcaller, ⟨⟩⟩ := Option.ite_none_right_eq_some.mp hstep
    split
    · exact ⟨fun _ => h.fresh (Or.inl hcaller), nofun, h.late⟩
    · exact h.fail (Or.inl hcaller) _
  | spawnInner alloc =>
    obtain ⟨hcaller, hspawn⟩ := Option.ite_none_right_eq_some.mp hstep
    exact h.spawnInner hcaller hspawn
  | spawnReturn =>
    obtain ⟨-, hbind⟩ := Option.ite_none_right_eq_some.mp hstep
    obtain ⟨t, ht, hreturn⟩ := Option.bind_eq_some_iff.mp hbind
    exact h.spawnReturn ht hreturn
  | signal =>
    obtain ⟨⟨-, hsignalled⟩, ⟨⟩⟩ := Option.ite_none_right_eq_some.mp hstep
    exact ⟨nofun, fun _ => Or.inl hsignalled, h.late⟩
  | timeout =>
    obtain ⟨-, ⟨⟩⟩ := Option.ite_none_right_eq_some.mp hstep
    refine ⟨nofun, fun _ => Or.inr fun t ht => Or.inr ?_, h.late⟩
    have hrevoked := (Option.all_eq_true _ _).mp ha t ht
    rw [Bool.and_eq_true, beq_iff_eq] at hrevoked
    exact hrevoked
  | load =>
    obtain ⟨hcaller, ⟨⟩⟩ := Option.ite_none_right_eq_some.mp hstep
    have hwaited := h.waited (by rw [hcaller]; rfl)
    split
    · exact ⟨nofun, fun _ => hwaited, h.late⟩
    · exact ⟨nofun, fun _ => hwaited, h.late⟩
  | take =>
    obtain ⟨hcaller, ⟨⟩⟩ := Option.ite_none_right_eq_some.mp hstep
    exact ⟨nofun, fun _ => h.waited (by rw [hcaller]; rfl), h.late⟩
  | output v =>
    obtain ⟨-, ⟨⟩⟩ := Option.ite_none_right_eq_some.mp hstep
    exact ⟨h.fresh, h.waited, h.late⟩
  | store =>
    obtain ⟨-, ⟨⟩⟩ := Option.ite_none_right_eq_some.mp hstep
    exact ⟨h.fresh, h.waited, h.late⟩
  | setDone =>
    obtain ⟨-, ⟨⟩⟩ := Option.ite_none_right_eq_some.mp hstep
    exact ⟨h.fresh, h.waited, h.late⟩
  | complete =>
    obtain ⟨⟨hpolling, hfuture⟩, ⟨⟩⟩ := Option.ite_none_right_eq_some.mp hstep
    exact ⟨h.fresh, fun _ => Or.inl rfl, (if_neg (h.complete hs hpolling hfuture)).trans h.late⟩

end Settled

section Runs

variable {e : WorkqueueExecutor} {actions : List (BlockOnAction T)}

theorem sound_of_run (hrun : run step (call e) actions = some s) : s.Sound :=
  run_invariant (I := Sound) (fun h _ hstep => h.step hstep) (Sound.call e)
    (guarded_of_forall (P := fun _ => True) (fun _ _ => trivial) _) hrun

/-- What `block_on` returns as `Ok` is the output of the future. If its wait only runs out when the
future is revoked and nobody polls it, the task never uses the completion after the return. -/
theorem completion_unused_after_return (hrun : run step (call e) actions = some s) :
    (∀ v, s.result = some (.ok v) → s.output = some v) ∧
    (Guarded step (fun s a => s.outwaits a = true) (call e) actions → s.late = 0) := by
  refine ⟨fun v hv => ((sound_of_run hrun).result v hv).2, fun hguard => ?_⟩
  have hboth := run_invariant (I := fun s => s.Sound ∧ s.Settled)
    (fun h ha hstep => ⟨h.1.step hstep, h.2.step h.1 ha hstep⟩) ⟨Sound.call e, Settled.call e⟩ hguard
    hrun
  exact hboth.2.late

end Runs

/-- `block_on` up to its wait, on an executor without tasks. -/
def spawnAndWait : List (BlockOnAction T) :=
  [.allocate true, .spawnInner true, .executor (.task 0 .cloneRevocable),
    .executor (.register 0 true), .executor (.task 0 (.enqueue .taskArc)),
    .executor (.task 0 .returnHandle), .spawnReturn]

def runToFlag (val : T) : List (BlockOnAction T) :=
  [.executor (.task 0 .start), .executor (.task 0 .tryAccess), .executor (.task 0 .makeWaker),
    .output val, .store, .setDone]

def finishPoll : List (BlockOnAction T) :=
  [.executor (.task 0 (.poll true)), .executor (.task 0 .dropGuard), .executor (.task 0 .afterPoll)]

def awaited : List (BlockOnAction Nat) :=
  spawnAndWait ++ runToFlag 42 ++ [.complete, .signal] ++ finishPoll ++ [.load, .take]

theorem completion_unused_awaited :
    ∃ s : BlockOn Nat, run step (call .new) awaited = some s ∧
      Guarded step (fun s a => s.outwaits a = true) (call .new) awaited ∧
      s.result = some (.ok 42) ∧ s.output = some 42 ∧ s.late = 0 := by
  have hguard : Guarded step (fun s a => s.outwaits a = true) (call .new) awaited := by decide
  have hsound := completion_unused_after_return (rfl : run step (call .new) awaited = _)
  exact ⟨_, rfl, hguard, rfl, hsound.1 42 rfl, hsound.2 hguard⟩

/-- The wait runs out before the task has run: `block_on` returns `EBUSY`, and the task signals the
completion on the stack of a caller that has gone. It does so too after an `Ok` if the wait runs out
between the flag and the signal. -/
theorem completion_used_after_timeout :
    (∃ s : BlockOn Nat,
      run step (call .new) (spawnAndWait ++ [.timeout, .load] ++ runToFlag 42 ++ [.complete]) =
        some s ∧ s.result = some (.error Error.EBUSY) ∧ s.late = 1) ∧
    ∃ s : BlockOn Nat,
      run step (call .new) (spawnAndWait ++ runToFlag 42 ++ [.timeout, .load, .take, .complete]) =
        some s ∧ s.result = some (.ok 42) ∧ s.late = 1 :=
  ⟨⟨_, rfl, rfl, rfl⟩, ⟨_, rfl, rfl, rfl⟩⟩

end BlockOn

end Rko
