import Rko.GuardedRun
import Rko.CallPool

namespace Rko

open GuardedRun CallPool

/-- An executor that a `SERVER_START` created, with the futures spawned on it that are not dropped
yet: the accept loop and the connections. Each of them owns an `Arc` of the bridge handler. -/
structure ServerExecutor where
  stopped : Bool
  acceptLoop : Bool
  connections : Nat
deriving DecidableEq, Repr

namespace ServerExecutor

/-- `WorkqueueExecutor::stop` refuses further tasks and revokes the ones it has. -/
def stop (_ : ServerExecutor) : ServerExecutor := ⟨true, false, 0⟩

/-- The bridge handler lives while a future owns it, and owns an `Arc` of the uring handler. -/
def holdsBridge (x : ServerExecutor) : Bool := x.acceptLoop || decide (0 < x.connections)

end ServerExecutor

/-- Commands between their two stores, which are made under two locks; a `SERVER_START` still
owns the handle of its executor. -/
inductive ServerCommand
  | startSpawned (exec : Nat)
  | startStored (exec : Nat)
  | stopCleared
deriving DecidableEq, Repr

def ServerCommand.executor : ServerCommand → Option Nat
  | startSpawned e => some e
  | startStored e => some e
  | stopCleared => none

/-- One open of `/dev/rko_http`: `fd` is the reference of the file to the uring handler, `server`
and `executorHandle` are the fields of the handler, which is `dropped` with its last reference. -/
structure HttpDevice where
  fd : Bool
  server : Bool
  executorHandle : Option Nat
  dropped : Bool
  executors : List ServerExecutor
  commands : List ServerCommand
deriving DecidableEq, Repr

inductive StartFailure
  | executor | bridge | server
deriving DecidableEq, Repr

inductive DeviceAction
  | serverStart
  | serverStartFails (failure : StartFailure)
  | storeServer (i : Nat)
  | storeHandle (i : Nat)
  | serverStop
  | clearHandle (i : Nat)
  | queueCommand
  | accept (exec : Nat) (spawned : Bool)
  | acceptLoopEnds (exec : Nat)
  | connectionEnds (exec : Nat)
  | release
deriving DecidableEq, Repr

namespace HttpDevice

def opened : HttpDevice := ⟨true, false, none, false, [], []⟩

/-- The strong count of the uring handler. -/
def handlerRefs (s : HttpDevice) : Nat :=
  (if s.fd then 1 else 0) + s.executors.countP ServerExecutor.holdsBridge

/-- Dropping the stored `AutoStopHandle` stops its executor. -/
def dropHandle (s : HttpDevice) : HttpDevice :=
  match s.executorHandle with
  | none => s
  | some i => { s with executorHandle := none, executors := s.executors.modify i .stop }

/-- A reference to the uring handler is gone; with the last one its fields are dropped. -/
def releaseHandler (s : HttpDevice) : HttpDevice :=
  if s.handlerRefs = 0 ∧ s.dropped = false then
    { s.dropHandle with server := false, dropped := true }
  else s

def step (s : HttpDevice) : DeviceAction → Option HttpDevice
  | .serverStart =>
    if s.fd then
      some { s with
        executors := s.executors ++ [⟨false, true, 0⟩]
        commands := s.commands ++ [.startSpawned s.executors.length] }
    else none
  | .serverStartFails failure =>
    if s.fd then
      match failure with
      | .executor => some s
      -- the early return drops the handle of the new executor
      | .bridge => some { s with executors := s.executors ++ [.stop ⟨false, false, 0⟩] }
      | .server => some { s with executors := s.executors ++ [.stop ⟨false, false, 0⟩] }
    else none
  | .storeServer i =>
    match s.commands[i]? with
    | some (.startSpawned e) =>
      some { s with server := true, commands := s.commands.set i (.startStored e) }
    | _ => none
  | .storeHandle i =>
    match s.commands[i]? with
    | some (.startStored e) =>
      some { s.dropHandle with executorHandle := some e, commands := s.commands.eraseIdx i }
    | _ => none
  | .serverStop =>
    if s.fd then some { s with server := false, commands := s.commands ++ [.stopCleared] }
    else none
  | .clearHandle i =>
    match s.commands[i]? with
    | some .stopCleared => some { s.dropHandle with commands := s.commands.eraseIdx i }
    | _ => none
  | .queueCommand => if s.fd then some s else none
  | .accept e spawned =>
    match s.executors[e]? with
    | some x =>
      if x.acceptLoop = false then none
      else if spawned = true ∧ x.stopped = false then
        some { s with executors := s.executors.set e { x with connections := x.connections + 1 } }
      else some s
    | none => none
  | .acceptLoopEnds e =>
    match s.executors[e]? with
    | some x =>
      if x.acceptLoop then
        some (releaseHandler { s with executors := s.executors.set e { x with acceptLoop := false } })
      else none
    | none => none
  | .connectionEnds e =>
    match s.executors[e]? with
    | some x =>
      if 0 < x.connections then
        some (releaseHandler { s with
          executors := s.executors.set e { x with connections := x.connections - 1 } })
      else none
    | none => none
  | .release =>
    if s.fd ∧ s.commands = [] then some (releaseHandler { s with fd := false }) else none

@[simp] theorem dropHandle_fd (s : HttpDevice) : s.dropHandle.fd = s.fd := by
  unfold dropHandle
  split <;> rfl

@[simp] theorem dropHandle_dropped (s : HttpDevice) : s.dropHandle.dropped = s.dropped := by
  unfold dropHandle
  split <;> rfl

@[simp] theorem dropHandle_commands (s : HttpDevice) : s.dropHandle.commands = s.commands := by
  unfold dropHandle
  split <;> rfl

@[simp] theorem dropHandle_executorHandle (s : HttpDevice) : s.dropHandle.executorHandle = none := by
  unfold dropHandle
  split
  next h => exact h
  next => rfl

/-- Dropping the stored handle leaves the executors it does not name as they are. -/
theorem dropHandle_getElem? {s : HttpDevice} {i : Nat} {x : ServerExecutor}
    (h : s.dropHandle.executors[i]? = some x) :
    x = .stop x ∨ (s.executors[i]? = some x ∧ s.executorHandle ≠ some i) := by
  unfold dropHandle at h
  split at h
  next hnone =>
    rw [hnone]
    exact Or.inr ⟨h, by simp⟩
  next j hsome =>
    rw [List.getElem?_modify] at h
    rw [hsome]
    by_cases hij : j = i
    · obtain ⟨y, -, rfl⟩ := Option.map_eq_some_iff.mp h
      rw [if_pos hij]
      exact Or.inl rfl
    · simp only [hij, if_false, id_map'] at h
      refine Or.inr ⟨by simpa using h, fun hji => hij (Option.some.inj hji)⟩

/-- Every executor that is not stopped is owned by the handler or by a command in progress, and a
stopped one has no futures. -/
structure Owned (s : HttpDevice) : Prop where
  referenced : ∀ {i : Nat} {x : ServerExecutor}, s.executors[i]? = some x → x.stopped = false →
    s.executorHandle = some i ∨ ∃ c ∈ s.commands, c.executor = some i
  quiet : ∀ {i : Nat} {x : ServerExecutor}, s.executors[i]? = some x → x.stopped = true → x.holdsBridge = false

theorem Owned.opened : Owned opened := ⟨fun h => by simp [HttpDevice.opened] at h,
  fun h => by simp [HttpDevice.opened] at h⟩

theorem Owned.dropHandle {s : HttpDevice} (h : Owned s) : Owned s.dropHandle where
  referenced := by
    intro i x hx hrunning
    rcases dropHandle_getElem? hx with hstop | ⟨hx, hne⟩
    · rw [hstop] at hrunning
      cases hrunning
    · rw [dropHandle_commands]
      exact Or.inr ((h.referenced hx hrunning).resolve_left hne)
  quiet := by
    intro i x hx hstopped
    rcases dropHandle_getElem? hx with hstop | ⟨hx, -⟩
    · rw [hstop]
      rfl
    · exact h.quiet hx hstopped

theorem Owned.set {s : HttpDevice} (h : Owned s) {e : Nat} {x y : ServerExecutor}
    (hx : s.executors[e]? = some x) (hstopped : y.stopped = x.stopped)
    (hquiet : x.holdsBridge = false → y.holdsBridge = false) :
    Owned { s with executors := s.executors.set e y } := by
  refine ⟨fun {i z} hz hrunning => ?_, fun {i z} hz hz' => ?_⟩
  · rcases getElem?_set_cases hz with ⟨rfl, rfl⟩ | ⟨-, hz⟩
    · exact h.referenced hx (hstopped ▸ hrunning)
    · exact h.referenced hz hrunning
  · rcases getElem?_set_cases hz with ⟨rfl, rfl⟩ | ⟨-, hz⟩
    · exact hquiet (h.quiet hx (hstopped ▸ hz'))
    · exact h.quiet hz hz'

theorem Owned.releaseHandler {s : HttpDevice} (h : Owned s) : Owned s.releaseHandler := by
  unfold HttpDevice.releaseHandler
  split
  next => exact ⟨h.dropHandle.referenced, h.dropHandle.quiet⟩
  next => exact h

@[simp] theorem releaseHandler_fd (s : HttpDevice) : s.releaseHandler.fd = s.fd := by
  unfold releaseHandler
  split
  next => simp
  next => rfl

/-- The file is released after a `SERVER_STOP`, or after the server has come to its end. -/
def stopsFirst (s : HttpDevice) : DeviceAction → Bool
  | .release => s.executorHandle.isNone || s.executors.all (!·.holdsBridge)
  | _ => true

theorem releaseHandler_of_open {s : HttpDevice} (hfd : s.fd = true) : s.releaseHandler = s := by
  rw [releaseHandler, if_neg]
  rintro ⟨hrefs, -⟩
  rw [handlerRefs, if_pos hfd] at hrefs
  omega

/-- Once the file is released, no command is in progress and every executor is stopped. -/
structure Closing (s : HttpDevice) : Prop extends Owned s where
  dropped_closed : s.dropped = true → s.fd = false
  commands_nil : s.fd = false → s.commands = []
  all_stopped : s.fd = false → ∀ {i : Nat} {x : ServerExecutor}, s.executors[i]? = some x →
    x.stopped = true

theorem Closing.fd_of_holdsBridge {s : HttpDevice} (hs : Closing s) {e : Nat} {x : ServerExecutor}
    (hx : s.executors[e]? = some x) (hholds : x.holdsBridge = true) : s.fd = true := by
  by_contra hfd
  have hstopped := hs.all_stopped (Bool.not_eq_true _ ▸ hfd) hx
  rw [hs.quiet hx hstopped] at hholds
  cases hholds

theorem Closing.of_open {s : HttpDevice} (hs : Owned s) (hfd : s.fd = true)
    (hdropped : s.dropped = false) : Closing s :=
  { hs with
    dropped_closed := fun hd => by rw [hdropped] at hd; cases hd
    commands_nil := fun hclosed => by rw [hfd] at hclosed; cases hclosed
    all_stopped := fun hclosed => by rw [hfd] at hclosed; cases hclosed }

theorem Closing.fd_of_command {s : HttpDevice} (hs : Closing s) {i : Nat} {c : ServerCommand}
    (hc : s.commands[i]? = some c) : s.fd = true := by
  by_contra hfd
  rw [hs.commands_nil (Bool.not_eq_true _ ▸ hfd)] at hc
  cases hc

/-- The executors that are added are stopped, or owned by the new command. -/
theorem Owned.append {s : HttpDevice} (hs : Owned s) {x : ServerExecutor} {cs : List ServerCommand}
    (hquiet : x.stopped = true → x.holdsBridge = false)
    (hcs : x.stopped = false → ∃ c ∈ cs, c.executor = some s.executors.length) :
    Owned { s with executors := s.executors ++ [x], commands := s.commands ++ cs } := by
  refine ⟨fun {i z} hz hrunning => ?_, fun {i z} hz hstopped => ?_⟩
  · rcases getElem?_concat_cases hz with hz | ⟨rfl, rfl⟩
    · rcases hs.referenced hz hrunning with hhandle | ⟨c, hc, hexec⟩
      · exact Or.inl hhandle
      · exact Or.inr ⟨c, List.mem_append_left _ hc, hexec⟩
    · obtain ⟨c, hc, hexec⟩ := hcs hrunning
      exact Or.inr ⟨c, List.mem_append_right _ hc, hexec⟩
  · rcases getElem?_concat_cases hz with hz | ⟨-, rfl⟩
    · exact hs.quiet hz hstopped
    · exact hquiet hstopped

theorem Closing.dropped_of_open {s : HttpDevice} (hs : Closing s) (hfd : s.fd = true) :
    s.dropped = false := by
  by_contra hd
  rw [hs.dropped_closed (Bool.not_eq_false _ ▸ hd)] at hfd
  cases hfd

/-- While the file stays open, only the owners of the executors matter. -/
theorem Closing.keep_open {s s' : HttpDevice} (hs : Closing s) (hfd : s.fd = true)
    (hfd' : s'.fd = s.fd) (hdropped' : s'.dropped = s.dropped) (howned : Owned s') : Closing s' :=
  .of_open howned (hfd'.trans hfd) (hdropped'.trans (hs.dropped_of_open hfd))

/-- When the file is released, a running executor could only be owned by the handler. -/
theorem Closing.release {s : HttpDevice} (hs : Closing s) (hfd : s.fd = true)
    (hnil : s.commands = []) (hguard : s.stopsFirst .release = true) :
    Closing (releaseHandler { s with fd := false }) := by
  have howned : Owned { s with fd := false } := ⟨hs.referenced, hs.quiet⟩
  have hdropped := hs.dropped_of_open hfd
  have hnil' : (releaseHandler { s with fd := false }).commands = [] := by
    unfold releaseHandler
    split
    next => simpa using hnil
    next => exact hnil
  have hhandle : (releaseHandler { s with fd := false }).executorHandle = none := by
    unfold releaseHandler
    split
    next => simp
    next hrefs =>
      simp only [stopsFirst, Bool.or_eq_true, Option.isNone_iff_eq_none] at hguard
      refine hguard.resolve_right fun hall => hrefs ⟨?_, hdropped⟩
      rw [handlerRefs, List.countP_eq_zero.mpr]
      · rfl
      · simpa using hall
  refine { howned.releaseHandler with dropped_closed := ?_, commands_nil := ?_, all_stopped := ?_ }
  · simp
  · exact fun _ => hnil'
  · intro _ i x hx
    by_contra hrunning
    rcases howned.releaseHandler.referenced hx (Bool.not_eq_true _ ▸ hrunning) with h | ⟨c, hc, -⟩
    · rw [hhandle] at h
      cases h
    · rw [hnil'] at hc
      cases hc

theorem Owned.append_stopped {s : HttpDevice} (hs : Owned s) :
    Owned { s with executors := s.executors ++ [.stop ⟨false, false, 0⟩] } := by
  have happend : Owned { s with executors := s.executors ++ [.stop ⟨false, false, 0⟩],
                                commands := s.commands ++ [] } :=
    hs.append (fun _ => rfl) (fun hrunning => by cases hrunning)
  rwa [List.append_nil] at happend

theorem Owned.storeServer {s : HttpDevice} (hs : Owned s) {i e : Nat}
    (hc : s.commands[i]? = some (.startSpawned e)) :
    Owned { s with server := true, commands := s.commands.set i (.startStored e) } := by
  refine ⟨fun {j x} hx hrunning => ?_, hs.quiet⟩
  rcases hs.referenced hx hrunning with hhandle | ⟨c, hmem, hexec⟩
  · exact Or.inl hhandle
  · right
    obtain ⟨k, hk⟩ := List.mem_iff_getElem?.mp hmem
    obtain ⟨hlt, -⟩ := List.getElem?_eq_some_iff.mp hc
    by_cases hki : i = k
    · subst hki
      cases hc.symm.trans hk
      exact ⟨.startStored e, List.mem_set hlt _, hexec⟩
    · refine ⟨c, List.mem_of_getElem? (i := k) ?_, hexec⟩
      rw [List.getElem?_set_ne hki]
      exact hk

/-- Storing a handle, or none, stops the executor of the one before; the command that stores it is
over. -/
theorem Owned.store {s : HttpDevice} (hs : Owned s) {i : Nat} {c : ServerCommand}
    (hc : s.commands[i]? = some c) :
    Owned { s.dropHandle with executorHandle := c.executor, commands := s.commands.eraseIdx i } := by
  refine ⟨fun {j x} hx hrunning => ?_, hs.dropHandle.quiet⟩
  rcases hs.dropHandle.referenced hx hrunning with hhandle | ⟨d, hmem, hexec⟩
  · rw [dropHandle_executorHandle] at hhandle
    cases hhandle
  · rw [dropHandle_commands] at hmem
    obtain ⟨k, hk⟩ := List.mem_iff_getElem?.mp hmem
    by_cases hki : k = i
    · subst hki
      cases hc.symm.trans hk
      exact Or.inl hexec
    · exact Or.inr ⟨d, List.mem_eraseIdx_iff_getElem?.mpr ⟨k, hki, hk⟩, hexec⟩

/-- Only a running executor has futures, so one of them ends or spawns while the file is open. -/
theorem Closing.set {s : HttpDevice} (hs : Closing s) {e : Nat} {x y : ServerExecutor}
    (hx : s.executors[e]? = some x) (hholds : x.holdsBridge = true)
    (hstopped : y.stopped = x.stopped) :
    Closing { s with executors := s.executors.set e y } := by
  have hfd := hs.fd_of_holdsBridge hx hholds
  refine hs.keep_open hfd rfl rfl (hs.toOwned.set hx hstopped fun hquiet => ?_)
  rw [hquiet] at hholds
  cases hholds

theorem Closing.releaseHandler {s : HttpDevice} (hs : Closing s) (hfd : s.fd = true) :
    Closing s.releaseHandler := by
  rw [releaseHandler_of_open hfd]
  exact hs

theorem Closing.step {s s' : HttpDevice} {a : DeviceAction} (hs : Closing s)
    (hguard : s.stopsFirst a = true) (h : s.step a = some s') : Closing s' := by
  have howned := hs.toOwned
  cases a with
  | serverStart =>
    obtain ⟨hfd, ⟨⟩⟩ := Option.ite_none_right_eq_some.mp h
    exact hs.keep_open hfd rfl rfl
      (howned.append (by simp) fun _ => ⟨_, List.mem_singleton_self _, rfl⟩)
  | serverStartFails failure =>
    obtain ⟨hfd, h⟩ := Option.ite_none_right_eq_some.mp h
    cases failure with
    | executor =>
      cases Option.some.inj h
      exact hs
    | bridge =>
      cases Option.some.inj h
      exact hs.keep_open hfd rfl rfl howned.append_stopped
    | server =>
      cases Option.some.inj h
      exact hs.keep_open hfd rfl rfl howned.append_stopped
  | storeServer i =>
    simp only [HttpDevice.step] at h
    split at h
    next e hc =>
      cases Option.some.inj h
      exact hs.keep_open (hs.fd_of_command hc) rfl rfl (howned.storeServer hc)
    next => cases h
  | storeHandle i =>
    simp only [HttpDevice.step] at h
    split at h
    next e hc =>
      cases Option.some.inj h
      exact hs.keep_open (hs.fd_of_command hc) s.dropHandle_fd s.dropHandle_dropped (howned.store hc)
    next => cases h
  | serverStop =>
    obtain ⟨hfd, ⟨⟩⟩ := Option.ite_none_right_eq_some.mp h
    refine hs.keep_open hfd rfl rfl ⟨fun {j x} hx hrunning => ?_, howned.quiet⟩
    rcases howned.referenced hx hrunning with hhandle | ⟨c, hc, hexec⟩
    · exact Or.inl hhandle
    · exact Or.inr ⟨c, List.mem_append_left _ hc, hexec⟩
  | clearHandle i =>
    simp only [HttpDevice.step] at h
    split at h
    next hc =>
      cases Option.some.inj h
      have hstore := howned.store hc
      refine hs.keep_open (hs.fd_of_command hc) s.dropHandle_fd s.dropHandle_dropped
        ⟨fun hx hrunning => ?_, hstore.quiet⟩
      rw [dropHandle_executorHandle]
      exact hstore.referenced hx hrunning
    next => cases h
  | queueCommand =>
    obtain ⟨-, ⟨⟩⟩ := Option.ite_none_right_eq_some.mp h
    exact hs
  | accept e spawned =>
    simp only [HttpDevice.step] at h
    split at h
    next x hx =>
      obtain ⟨haccept, h⟩ := Option.ite_none_left_eq_some.mp h
      have hholds : x.holdsBridge = true := by simp [ServerExecutor.holdsBridge, haccept]
      split at h
      next =>
        cases Option.some.inj h
        exact hs.set hx hholds (by rfl)
      next =>
        cases Option.some.inj h
        exact hs
    next => cases h
  | acceptLoopEnds e =>
    simp only [HttpDevice.step] at h
    split at h
    next x hx =>
      obtain ⟨haccept, ⟨⟩⟩ := Option.ite_none_right_eq_some.mp h
      have hholds : x.holdsBridge = true := by simp [ServerExecutor.holdsBridge, haccept]
      exact Closing.releaseHandler (hs.set hx hholds (by rfl)) (hs.fd_of_holdsBridge hx hholds)
    next => cases h
  | connectionEnds e =>
    simp only [HttpDevice.step] at h
    split at h
    next x hx =>
      obtain ⟨hpos, ⟨⟩⟩ := Option.ite_none_right_eq_some.mp h
      have hholds : x.holdsBridge = true := by simp [ServerExecutor.holdsBridge, hpos]
      exact Closing.releaseHandler (hs.set hx hholds (by rfl)) (hs.fd_of_holdsBridge hx hholds)
    next => cases h
  | release =>
    obtain ⟨⟨hfd, hnil⟩, ⟨⟩⟩ := Option.ite_none_right_eq_some.mp h
    exact hs.release hfd hnil hguard

theorem Closing.opened : Closing opened := .of_open Owned.opened rfl rfl

/-- If the file is only released after a `SERVER_STOP` or after the server has come to its end, then
after the release every executor is stopped and none of their futures owns the handler. -/
theorem stopped_after_release {as : List DeviceAction} {s : HttpDevice}
    (hguard : Guarded step (fun s a => s.stopsFirst a = true) opened as)
    (hrun : run step opened as = some s) (hfd : s.fd = false) (_ : s.commands = []) :
    ∀ x ∈ s.executors, x.stopped = true ∧ x.holdsBridge = false := by
  have hclosing : Closing s :=
    run_invariant (fun hs hguard h => hs.step hguard h) Closing.opened hguard hrun
  intro x hx
  obtain ⟨i, hi⟩ := List.mem_iff_getElem?.mp hx
  have hstopped := hclosing.all_stopped hfd hi
  exact ⟨hstopped, hclosing.quiet hi hstopped⟩

def serveAndStop : List DeviceAction :=
  [.serverStart, .storeServer 0, .storeHandle 0, .accept 0 true, .serverStop, .clearHandle 0,
    .release]

theorem stopped_after_serveAndStop :
    ∃ s, run step opened serveAndStop = some s ∧ s.fd = false ∧
      ∀ x ∈ s.executors, x.stopped = true ∧ x.holdsBridge = false := by
  have hguard : Guarded step (fun s a => s.stopsFirst a = true) opened serveAndStop := by decide
  exact ⟨_, rfl, rfl, stopped_after_release hguard rfl rfl rfl⟩

/-- Closing the file of a running server drops one of two references to the handler: the other is
held by the accept loop, whose executor only the handler could stop. -/
theorem accept_loop_survives_release :
    run step opened [.serverStart, .storeServer 0, .storeHandle 0, .release] =
        some ⟨false, true, some 0, false, [⟨false, true, 0⟩], []⟩ ∧
      ¬ (∀ x ∈ [ServerExecutor.mk false true 0], x.stopped = true ∧ x.holdsBridge = false) := by
  decide

end HttpDevice

end Rko
