import Mathlib.Data.Nat.Bitwise
import Rko.CallPool
import Rko.ExecutorTask
import Rko.GuardedRun

namespace Rko

open GuardedRun CallPool

def REVOKED_BIT : UInt32 := (1 : UInt32) <<< 31

/-- A call between two of its atomic steps: `try_access` before the load and before the
compare-exchange, and a `revoke` or a guard's `drop` that still has to drop the value. `late` says
that the call began after the flag was set. -/
inductive RevocableCall
  | loading (late : Bool)
  | swapping (val : UInt32) (late : Bool)
  | dropping
deriving DecidableEq, Repr

/-- An `AsyncRevocable` with the calls on it that are in progress. `guards` counts the guards from
the compare-exchange that made them to the `fetch_sub` of their drop, `lateGuards` those that went to
a late call, and `drops` how often the value was dropped. -/
structure AsyncRevocable where
  usageCount : UInt32
  calls : List RevocableCall
  revoked : Bool
  guards : Nat
  lateGuards : Nat
  drops : Nat
  live : Bool
deriving DecidableEq, Repr

inductive RevocableAction
  | tryAccess
  | load (i : Nat)
  | compareExchange (i : Nat) (spurious : Bool)
  | dropGuard
  | revoke
  | dropData (i : Nat)
  | drop
deriving DecidableEq, Repr

namespace AsyncRevocable

def new : AsyncRevocable := ⟨0, [], false, 0, 0, 0, true⟩

def stepLoad (s : AsyncRevocable) (i : Nat) (late : Bool) : AsyncRevocable :=
  if s.usageCount &&& REVOKED_BIT ≠ 0 then { s with calls := s.calls.eraseIdx i }
  else { s with calls := s.calls.set i (.swapping s.usageCount late) }

/-- The weak compare-exchange may fail although the value is the expected one. -/
def stepSwap (s : AsyncRevocable) (i : Nat) (val : UInt32) (late spurious : Bool) :
    AsyncRevocable :=
  if s.usageCount = val ∧ spurious = false then
    { s with
      usageCount := val + 1
      calls := s.calls.eraseIdx i
      guards := s.guards + 1
      lateGuards := if late then s.lateGuards + 1 else s.lateGuards }
  else { s with calls := s.calls.set i (.loading late) }

def stepDropGuard (s : AsyncRevocable) : AsyncRevocable :=
  { s with
    usageCount := s.usageCount - 1
    guards := s.guards - 1
    calls := if s.usageCount = REVOKED_BIT ||| 1 then s.calls ++ [.dropping] else s.calls }

def stepRevoke (s : AsyncRevocable) : AsyncRevocable :=
  { s with
    usageCount := s.usageCount ||| REVOKED_BIT
    revoked := true
    calls :=
      if s.usageCount &&& REVOKED_BIT ≠ 0 then s.calls
      else if s.usageCount = 0 then s.calls ++ [.dropping]
      else s.calls }

/-- The container is dropped by its only owner, when no call or guard borrows it. -/
def step (s : AsyncRevocable) : RevocableAction → Option AsyncRevocable
  | .tryAccess => if s.live then some { s with calls := s.calls ++ [.loading s.revoked] } else none
  | .load i =>
    match s.calls[i]? with
    | some (.loading late) => some (s.stepLoad i late)
    | _ => none
  | .compareExchange i spurious =>
    match s.calls[i]? with
    | some (.swapping val late) => some (s.stepSwap i val late spurious)
    | _ => none
  | .dropGuard => if 0 < s.guards then some s.stepDropGuard else none
  | .revoke => if s.live then some s.stepRevoke else none
  | .dropData i =>
    match s.calls[i]? with
    | some .dropping => some { s with calls := s.calls.eraseIdx i, drops := s.drops + 1 }
    | _ => none
  | .drop =>
    if s.live ∧ s.calls = [] ∧ s.guards = 0 then
      some { s with
        live := false
        drops := if s.usageCount &&& REVOKED_BIT = 0 then s.drops + 1 else s.drops }
    else none

/-- Everything a step can do, with the call it belongs to. -/
inductive Transition (s : AsyncRevocable) : RevocableAction → AsyncRevocable → Prop
  | tryAccess (hlive : s.live = true) :
    Transition s .tryAccess { s with calls := s.calls ++ [.loading s.revoked] }
  | load {i : Nat} {late : Bool} (hcall : s.calls[i]? = some (.loading late)) :
    Transition s (.load i) (s.stepLoad i late)
  | compareExchange {i : Nat} {val : UInt32} {late : Bool} (spurious : Bool)
      (hcall : s.calls[i]? = some (.swapping val late)) :
    Transition s (.compareExchange i spurious) (s.stepSwap i val late spurious)
  | dropGuard (hguards : 0 < s.guards) : Transition s .dropGuard s.stepDropGuard
  | revoke (hlive : s.live = true) : Transition s .revoke s.stepRevoke
  | dropData {i : Nat} (hcall : s.calls[i]? = some .dropping) :
    Transition s (.dropData i) { s with calls := s.calls.eraseIdx i, drops := s.drops + 1 }
  | drop (hlive : s.live = true) (hcalls : s.calls = []) (hguards : s.guards = 0) :
    Transition s .drop { s with
      live := false
      drops := if s.usageCount &&& REVOKED_BIT = 0 then s.drops + 1 else s.drops }

theorem transition_of_step {s s' : AsyncRevocable} {a : RevocableAction}
    (h : s.step a = some s') : Transition s a s' := by
  cases a with
  | tryAccess =>
    obtain ⟨hlive, ⟨⟩⟩ := Option.ite_none_right_eq_some.mp h
    exact .tryAccess hlive
  | load i =>
    simp only [step] at h
    split at h
    next hcall =>
      cases h
      exact .load hcall
    next => cases h
  | compareExchange i spurious =>
    simp only [step] at h
    split at h
    next hcall =>
      cases h
      exact .compareExchange spurious hcall
    next => cases h
  | dropGuard =>
    obtain ⟨hguards, ⟨⟩⟩ := Option.ite_none_right_eq_some.mp h
    exact .dropGuard hguards
  | revoke =>
    obtain ⟨hlive, ⟨⟩⟩ := Option.ite_none_right_eq_some.mp h
    exact .revoke hlive
  | dropData i =>
    simp only [step] at h
    split at h
    next hcall =>
      cases h
      exact .dropData hcall
    next => cases h
  | drop =>
    obtain ⟨⟨hlive, hcalls, hguards⟩, ⟨⟩⟩ := Option.ite_none_right_eq_some.mp h
    exact .drop hlive hcalls hguards

end AsyncRevocable

section Bits

variable {x : UInt32}

theorem and_revokedBit (x : UInt32) : x &&& REVOKED_BIT = 0 ↔ x.toNat < 2 ^ 31 := by
  have hlt := x.toNat_lt
  have hand : (x &&& REVOKED_BIT).toNat = (x.toNat.testBit 31).toNat * 2 ^ 31 := by
    rw [UInt32.toNat_and]
    exact Nat.and_two_pow x.toNat 31
  rw [← UInt32.toNat_inj, hand, Nat.testBit_eq_decide_div_mod_eq]
  by_cases hbit : x.toNat / 2 ^ 31 % 2 = 1
  · rw [decide_eq_true hbit]
    exact ⟨fun h => absurd h (by decide), fun h => by omega⟩
  · rw [decide_eq_false hbit]
    exact ⟨fun _ => by omega, fun _ => rfl⟩

theorem or_revokedBit_of_lt (hx : x.toNat < 2 ^ 31) :
    (x ||| REVOKED_BIT).toNat = 2 ^ 31 + x.toNat := by
  rw [UInt32.toNat_or, Nat.or_comm]
  exact (Nat.two_pow_add_eq_or_of_lt hx 1).symm

theorem or_revokedBit_of_ge (hx : 2 ^ 31 ≤ x.toNat) : x ||| REVOKED_BIT = x := by
  have hlt := x.toNat_lt
  obtain ⟨low, hlow⟩ := Nat.exists_eq_add_of_le hx
  have hsmall : low < 2 ^ 31 := by omega
  have hor : x.toNat = 2 ^ 31 * 1 ||| low := hlow.trans (Nat.two_pow_add_eq_or_of_lt hsmall 1)
  rw [← UInt32.toNat_inj, UInt32.toNat_or, hor, Nat.or_right_comm]
  exact congrArg (· ||| low) (Nat.or_self _)

end Bits

namespace AsyncRevocable

/-- Calls that have taken it on themselves to drop the value. -/
def owed (s : AsyncRevocable) : Nat := s.calls.count .dropping

/-- The counter is the flag plus the guards; a call that began after the flag was set is never about
to swap; and the value is dropped, or some call is about to drop it, exactly when it is gone. -/
structure Sound (s : AsyncRevocable) : Prop where
  few : s.guards < 2 ^ 31 - 1
  count : s.usageCount.toNat = (if s.revoked then 2 ^ 31 else 0) + s.guards
  loading : .loading true ∈ s.calls → s.revoked = true
  swapping : ∀ val late, .swapping val late ∈ s.calls → val.toNat < 2 ^ 31 ∧ late = false
  lateGuards : s.lateGuards = 0
  drops : s.drops + s.owed = if s.live = false ∨ s.revoked = true ∧ s.guards = 0 then 1 else 0
  gone : s.live = false → s.calls = [] ∧ s.guards = 0

namespace Sound

variable {s : AsyncRevocable} {i : Nat}

theorem new : Sound AsyncRevocable.new := by
  constructor <;> simp [AsyncRevocable.new, owed]

theorem flag_iff (h : s.Sound) : s.usageCount &&& REVOKED_BIT = 0 ↔ s.revoked = false := by
  have hcount := h.count
  have hfew := h.few
  rw [and_revokedBit]
  cases hrevoked : s.revoked <;> simp only [hrevoked, if_true, Bool.false_eq_true, if_false] at hcount
  · exact ⟨fun _ => rfl, fun _ => by omega⟩
  · exact ⟨fun hlt => by omega, nofun⟩

theorem count_zero_iff (h : s.Sound) (hrevoked : s.revoked = false) :
    s.usageCount = 0 ↔ s.guards = 0 := by
  have hcount : s.usageCount.toNat = s.guards := by simpa [hrevoked] using h.count
  rw [← UInt32.toNat_inj, hcount]
  rfl

theorem live_of_mem (h : s.Sound) {c : RevocableCall} (hc : s.calls[i]? = some c) :
    s.live = true := by
  by_contra hlive
  rw [(h.gone (Bool.eq_false_of_not_eq_true hlive)).1] at hc
  cases hc

/-- A step inside `try_access` that makes no guard. -/
theorem of_calls (h : s.Sound) (hlive : s.live = true) {calls : List RevocableCall}
    (howed : calls.count .dropping = s.calls.count .dropping)
    (hloading : .loading true ∈ calls → .loading true ∈ s.calls ∨ s.revoked = true)
    (hswapping : ∀ val late, .swapping val late ∈ calls →
      .swapping val late ∈ s.calls ∨ val.toNat < 2 ^ 31 ∧ late = false) :
    Sound { s with calls } where
  few := h.few
  count := h.count
  loading := fun hmem => (hloading hmem).elim h.loading id
  swapping := fun val late hmem => (hswapping val late hmem).elim (h.swapping val late) id
  lateGuards := h.lateGuards
  drops := (congrArg (s.drops + ·) howed).trans h.drops
  gone := fun hgone => by
    rw [hlive] at hgone
    cases hgone

theorem tryAccess (h : s.Sound) (hlive : s.live = true) :
    Sound { s with calls := s.calls ++ [.loading s.revoked] } := by
  refine h.of_calls hlive (by simp) (fun hmem => ?_) fun val late hmem => Or.inl (by simpa using hmem)
  rcases List.mem_append.mp hmem with hmem | hmem
  · exact Or.inl hmem
  · exact Or.inr (RevocableCall.loading.inj (List.mem_singleton.mp hmem)).symm

theorem load (h : s.Sound) {late : Bool} (hc : s.calls[i]? = some (.loading late)) :
    (s.stepLoad i late).Sound := by
  have hlive := h.live_of_mem hc
  unfold stepLoad
  split
  next =>
    refine h.of_calls hlive ?_ (fun hmem => Or.inl (List.mem_of_mem_eraseIdx hmem))
      fun val late hmem => Or.inl (List.mem_of_mem_eraseIdx hmem)
    simpa using count_eraseIdx hc .dropping
  next hflag =>
    rw [not_not] at hflag
    refine h.of_calls hlive ?_ (fun hmem => ?_) fun val late' hmem => ?_
    · simpa using count_set hc (.swapping s.usageCount late) .dropping
    · exact (List.mem_or_eq_of_mem_set hmem).imp_right nofun
    · rcases List.mem_or_eq_of_mem_set hmem with hmem | heq
      · exact Or.inl hmem
      · cases heq
        refine Or.inr ⟨(and_revokedBit _).mp hflag, ?_⟩
        by_contra hlate
        rw [Bool.not_eq_false] at hlate
        subst hlate
        have hrevoked := h.loading (List.mem_of_getElem? hc)
        rw [h.flag_iff.mp hflag] at hrevoked
        cases hrevoked

theorem swap (h : s.Sound) {val : UInt32} {late : Bool}
    (hc : s.calls[i]? = some (.swapping val late)) (spurious : Bool)
    (hfew : (s.stepSwap i val late spurious).guards < 2 ^ 31 - 1) :
    (s.stepSwap i val late spurious).Sound := by
  have hlive := h.live_of_mem hc
  obtain ⟨hval, rfl⟩ := h.swapping val late (List.mem_of_getElem? hc)
  unfold stepSwap at hfew ⊢
  split at hfew
  next hcond =>
    rw [if_pos hcond]
    obtain ⟨rfl, -⟩ := hcond
    have hrevoked : s.revoked = false := h.flag_iff.mp ((and_revokedBit _).mpr hval)
    have hcount := h.count
    have hdrops := h.drops
    have howed : (s.calls.eraseIdx i).count .dropping = s.owed := by
      simpa [owed] using count_eraseIdx hc .dropping
    rw [hrevoked] at hcount
    refine ⟨hfew, ?_, fun hmem => h.loading (List.mem_of_mem_eraseIdx hmem),
      fun val late hmem => h.swapping val late (List.mem_of_mem_eraseIdx hmem), h.lateGuards, ?_, ?_⟩
    · simp only [hrevoked, UInt32.toNat_add, Bool.false_eq_true, if_false] at hcount ⊢
      have hone : (1 : UInt32).toNat = 1 := rfl
      omega
    · rw [owed, howed, hdrops]
      simp [hlive, hrevoked]
    · exact fun hgone => Bool.noConfusion (hlive.symm.trans hgone)
  next hcond =>
    rw [if_neg hcond]
    refine h.of_calls hlive ?_ (fun hmem => ?_) fun val' late' hmem => ?_
    · simpa using count_set hc (.loading false) .dropping
    · exact (List.mem_or_eq_of_mem_set hmem).imp_right nofun
    · exact (List.mem_or_eq_of_mem_set hmem).imp_right nofun

theorem live_of_guards (h : s.Sound) (hguards : 0 < s.guards) : s.live = true := by
  by_contra hlive
  have := (h.gone (Bool.eq_false_of_not_eq_true hlive)).2
  omega

theorem last_iff (h : s.Sound) (hguards : 0 < s.guards) :
    s.usageCount = REVOKED_BIT ||| 1 ↔ s.revoked = true ∧ s.guards = 1 := by
  have hcount := h.count
  have hfew := h.few
  have hbits : (REVOKED_BIT ||| 1).toNat = 2 ^ 31 + 1 := by decide
  rw [← UInt32.toNat_inj, hbits]
  cases hrevoked : s.revoked <;> simp only [hrevoked, if_true, Bool.false_eq_true, if_false] at hcount
  · exact ⟨fun heq => by omega, fun hand => Bool.noConfusion hand.1⟩
  · exact ⟨fun heq => ⟨rfl, by omega⟩, fun hand => by omega⟩

/-- As long as a guard is alive, nobody drops the value. -/
theorem no_drop_of_guards (h : s.Sound) (hguards : 0 < s.guards) : s.drops + s.owed = 0 := by
  rw [h.drops, if_neg]
  rintro (hgone | ⟨-, hzero⟩)
  · exact Bool.noConfusion ((h.live_of_guards hguards).symm.trans hgone)
  · omega

/-- What becomes of the calls when one more may have to drop the value. -/
theorem mem_handOver {calls : List RevocableCall} {p : Prop} [Decidable p] {c : RevocableCall}
    (hc : c ≠ .dropping) (hmem : c ∈ if p then calls ++ [.dropping] else calls) : c ∈ calls := by
  split at hmem
  · exact (List.mem_append.mp hmem).elim id fun hlast => absurd (List.mem_singleton.mp hlast) hc
  · exact hmem

theorem count_handOver (calls : List RevocableCall) (p : Prop) [Decidable p] :
    (if p then calls ++ [.dropping] else calls).count .dropping =
      calls.count .dropping + if p then 1 else 0 := by
  split
  · rw [List.count_append, List.count_singleton_self]
  · rfl

theorem dropGuard (h : s.Sound) (hguards : 0 < s.guards) : s.stepDropGuard.Sound := by
  have hlive := h.live_of_guards hguards
  have hcount := h.count
  have hfew := h.few
  have hle : (1 : UInt32) ≤ s.usageCount := by
    rw [UInt32.le_iff_toNat_le, hcount]
    exact hguards.trans_le (Nat.le_add_left _ _)
  have howed : s.stepDropGuard.owed =
      s.owed + if s.usageCount = REVOKED_BIT ||| 1 then 1 else 0 := count_handOver s.calls _
  refine ⟨(Nat.sub_le _ _).trans_lt hfew, ?_, fun hmem => h.loading (mem_handOver nofun hmem),
    fun val late hmem => h.swapping val late (mem_handOver nofun hmem), h.lateGuards, ?_, ?_⟩
  · have hsub : s.stepDropGuard.usageCount.toNat = s.usageCount.toNat - 1 :=
      UInt32.toNat_sub_of_le _ _ hle
    rw [hsub, hcount]
    exact Nat.add_sub_assoc hguards _
  · have hnone := h.no_drop_of_guards hguards
    rw [howed, ← Nat.add_assoc]
    refine congrArg₂ (· + ·) hnone (if_congr ?_ rfl rfl) |>.trans (Nat.zero_add _)
    rw [h.last_iff hguards]
    constructor
    · exact fun hlast => Or.inr ⟨hlast.1, Nat.sub_eq_zero_of_le hlast.2.le⟩
    · rintro (hgone | ⟨hrevoked, hzero⟩)
      · exact Bool.noConfusion (hlive.symm.trans hgone)
      · exact ⟨hrevoked, Nat.le_antisymm (Nat.le_of_sub_eq_zero hzero) hguards⟩
  · exact fun hgone => Bool.noConfusion (hlive.symm.trans hgone)

theorem revoke_again (h : s.Sound) (hrevoked : s.revoked = true) : s.stepRevoke = s := by
  have hflag : s.usageCount &&& REVOKED_BIT ≠ 0 := fun hunset =>
    Bool.noConfusion (hrevoked.symm.trans (h.flag_iff.mp hunset))
  have hge := Nat.le_of_not_lt fun hlt => hflag ((and_revokedBit _).mpr hlt)
  unfold stepRevoke
  rw [if_pos hflag, or_revokedBit_of_ge hge, ← hrevoked]

theorem revoke_first (h : s.Sound) (hlive : s.live = true) (hrevoked : s.revoked = false) :
    s.stepRevoke.Sound := by
  have hflag := h.flag_iff.mpr hrevoked
  have hlt := (and_revokedBit s.usageCount).mp hflag
  have hcount : s.usageCount.toNat = s.guards := by
    simpa [hrevoked] using h.count
  have hdrops : s.drops + s.owed = 0 := by
    simpa [hlive, hrevoked] using h.drops
  have hzero := h.count_zero_iff hrevoked
  have hstep : s.stepRevoke = { s with
      usageCount := s.usageCount ||| REVOKED_BIT
      revoked := true
      calls := if s.usageCount = 0 then s.calls ++ [.dropping] else s.calls } := by
    rw [stepRevoke, if_neg (not_not.mpr hflag)]
  rw [hstep]
  refine ⟨h.few, ?_, fun _ => rfl, fun val late hmem => h.swapping val late (mem_handOver nofun hmem),
    h.lateGuards, ?_, fun hgone => Bool.noConfusion (hlive.symm.trans hgone)⟩
  · rw [or_revokedBit_of_lt hlt, hcount]
    rfl
  · rw [owed, count_handOver, ← Nat.add_assoc]
    refine congrArg₂ (· + ·) hdrops (if_congr ?_ rfl rfl) |>.trans (Nat.zero_add _)
    simp [hzero, hlive]

theorem dropData (h : s.Sound) (hc : s.calls[i]? = some .dropping) :
    Sound { s with calls := s.calls.eraseIdx i, drops := s.drops + 1 } := by
  have hlive := h.live_of_mem hc
  have howed : (s.calls.eraseIdx i).count .dropping + 1 = s.owed := by
    simpa [owed] using count_eraseIdx hc .dropping
  refine { h with
    loading := fun hmem => h.loading (List.mem_of_mem_eraseIdx hmem)
    swapping := fun val late hmem => h.swapping val late (List.mem_of_mem_eraseIdx hmem)
    drops := ?_
    gone := fun hgone => Bool.noConfusion (hlive.symm.trans hgone) }
  have hsum : s.drops + 1 + (s.calls.eraseIdx i).count .dropping = s.drops + s.owed := by omega
  exact hsum.trans h.drops

theorem drop (h : s.Sound) (hlive : s.live = true) (hcalls : s.calls = []) (hguards : s.guards = 0) :
    Sound { s with
      live := false
      drops := if s.usageCount &&& REVOKED_BIT = 0 then s.drops + 1 else s.drops } := by
  have howed : s.owed = 0 := by
    rw [owed, hcalls]
    rfl
  have hdrops := h.drops
  rw [howed, Nat.add_zero] at hdrops
  refine { h with drops := ?_, gone := fun _ => ⟨hcalls, hguards⟩ }
  have hone : (if s.usageCount &&& REVOKED_BIT = 0 then s.drops + 1 else s.drops) = 1 := by
    rw [if_congr h.flag_iff rfl rfl, hdrops]
    cases s.revoked <;> simp [hlive, hguards]
  exact (congrArg₂ (· + ·) hone howed).trans (if_pos (Or.inl rfl)).symm

theorem step {s' : AsyncRevocable} {a : RevocableAction} (h : s.Sound)
    (hfew : s'.guards < 2 ^ 31 - 1) (hstep : s.step a = some s') : s'.Sound := by
  cases transition_of_step hstep with
  | tryAccess hlive => exact h.tryAccess hlive
  | load hcall => exact h.load hcall
  | compareExchange spurious hcall => exact h.swap hcall spurious hfew
  | dropGuard hguards => exact h.dropGuard hguards
  | revoke hlive =>
    cases hrevoked : s.revoked with
    | false => exact h.revoke_first hlive hrevoked
    | true => exact (h.revoke_again hrevoked).symm ▸ h
  | dropData hcall => exact h.dropData hcall
  | drop hlive hcalls hguards => exact h.drop hlive hcalls hguards

end Sound

section Tasks

/-- A task as it stands with this wrapper around its future. A drop of the future counts from the
moment that some call is bound to do it. -/
def onTask (s : AsyncRevocable) (t : Task) : Task :=
  { t with revoked := s.revoked, guards := s.guards, futureDrops := s.drops + s.owed }

variable {s s' : AsyncRevocable} {i : Nat}

theorem onTask_eq (t : Task) (hrevoked : s'.revoked = s.revoked) (hguards : s'.guards = s.guards)
    (hdrops : s'.drops + s'.owed = s.drops + s.owed) : s'.onTask t = s.onTask t := by
  rw [onTask, onTask, hrevoked, hguards, hdrops]

theorem onTask_revoke (h : s.Sound) (t : Task) :
    s.stepRevoke.onTask t = (s.onTask t).revokeFuture := by
  cases hrevoked : s.revoked with
  | true =>
    rw [h.revoke_again hrevoked, Task.revokeFuture, if_pos]
    exact hrevoked
  | false =>
    have hflag := h.flag_iff.mpr hrevoked
    have howed : s.stepRevoke.owed = s.owed + if s.usageCount = 0 then 1 else 0 := by
      rw [owed, stepRevoke, if_neg (not_not.mpr hflag)]
      exact Sound.count_handOver s.calls _
    have hdrops : s.drops + s.stepRevoke.owed =
        if s.guards = 0 then s.drops + s.owed + 1 else s.drops + s.owed := by
      rw [howed, if_congr (h.count_zero_iff hrevoked) rfl rfl]
      split <;> rfl
    have hunset : ¬ (s.onTask t).revoked = true := fun hset => Bool.noConfusion (hrevoked.symm.trans hset)
    rw [Task.revokeFuture, if_neg hunset]
    exact congrArg (fun n => { t with revoked := true, guards := s.guards, futureDrops := n }) hdrops

theorem onTask_dropGuard (h : s.Sound) (hguards : 0 < s.guards) (t : Task) :
    s.stepDropGuard.onTask t = (s.onTask t).dropFutureGuard := by
  have howed : s.stepDropGuard.owed =
      s.owed + if s.usageCount = REVOKED_BIT ||| 1 then 1 else 0 := Sound.count_handOver s.calls _
  have hdrops : s.drops + s.stepDropGuard.owed =
      if s.revoked = true ∧ s.guards = 1 then s.drops + s.owed + 1 else s.drops + s.owed := by
    rw [howed, if_congr (h.last_iff hguards) rfl rfl]
    split <;> rfl
  exact congrArg (fun n => { t with revoked := s.revoked, guards := s.guards - 1, futureDrops := n })
    hdrops

/-- The steps on a task that stand for the calls of its wrapper do what those calls do: between them
the task does not change. -/
theorem step_refines {a : RevocableAction} (h : s.Sound) (hstep : s.step a = some s')
    (ha : a ≠ .drop) (t : Task) :
    s'.onTask t = s.onTask t ∨
      s.revoked = false ∧ s'.onTask t = { s.onTask t with guards := s.guards + 1 } ∨
      s'.onTask t = (s.onTask t).revokeFuture ∨
      0 < s.guards ∧ s'.onTask t = (s.onTask t).dropFutureGuard := by
  cases transition_of_step hstep with
  | tryAccess hlive => exact Or.inl (onTask_eq t rfl rfl (by simp [owed]))
  | load hcall =>
    refine Or.inl ?_
    unfold stepLoad
    split
    · exact onTask_eq t rfl rfl (by simpa [owed] using count_eraseIdx hcall .dropping)
    · exact onTask_eq t rfl rfl (by simpa [owed] using count_set hcall (.swapping _ _) .dropping)
  | @compareExchange i val late spurious hcall =>
    unfold stepSwap
    split
    next hcond =>
      have hval := (h.swapping val late (List.mem_of_getElem? hcall)).1
      rw [← hcond.1] at hval
      have howed : (s.calls.eraseIdx i).count .dropping = s.owed := by
        simpa [owed] using count_eraseIdx hcall .dropping
      refine Or.inr (Or.inl ⟨h.flag_iff.mp ((and_revokedBit _).mpr hval), ?_⟩)
      exact congrArg (fun n => { t with
        revoked := s.revoked, guards := s.guards + 1, futureDrops := s.drops + n }) howed
    next =>
      exact Or.inl
        (onTask_eq t rfl rfl (by simpa [owed] using count_set hcall (.loading _) .dropping))
  | dropGuard hguards => exact Or.inr (Or.inr (Or.inr ⟨hguards, onTask_dropGuard h hguards t⟩))
  | revoke hlive => exact Or.inr (Or.inr (Or.inl (onTask_revoke h t)))
  | @dropData i hcall =>
    have howed : (s.calls.eraseIdx i).count .dropping + 1 = s.owed := by
      simpa [owed] using count_eraseIdx hcall .dropping
    refine Or.inl (onTask_eq t rfl rfl ?_)
    rw [← howed, owed, Nat.add_right_comm]
    rfl
  | drop => exact absurd rfl ha

end Tasks

/-- Fewer than `2 ^ 31 - 1` guards are alive after the step. -/
def few (s : AsyncRevocable) (a : RevocableAction) : Prop :=
  ∀ s' ∈ s.step a, s'.guards < 2 ^ 31 - 1

instance (s : AsyncRevocable) (a : RevocableAction) : Decidable (s.few a) :=
  inferInstanceAs (Decidable (∀ s' ∈ s.step a, s'.guards < 2 ^ 31 - 1))

/-- With fewer than `2 ^ 31 - 1` guards alive at a time, the counter is the flag plus the number of
guards, no late `try_access` gets a guard, and the value is dropped once, when no guard is alive. -/
theorem revocable_sound {as : List RevocableAction} {s : AsyncRevocable}
    (hguard : Guarded step few AsyncRevocable.new as) (hrun : run step AsyncRevocable.new as = some s) :
    s.usageCount.toNat = (if s.revoked then REVOKED_BIT.toNat else 0) + s.guards ∧
      s.lateGuards = 0 ∧ s.drops ≤ 1 ∧ (0 < s.guards → s.drops = 0 ∧ .dropping ∉ s.calls) ∧
      (s.revoked = true → s.guards = 0 → .dropping ∉ s.calls → s.drops = 1) ∧
      (s.live = false → s.drops = 1) := by
  have hs : s.Sound :=
    run_invariant (fun hs hfew h => hs.step (hfew _ h) h) Sound.new hguard hrun
  have hdrops := hs.drops
  refine ⟨hs.count, hs.lateGuards, ?_, fun hguards => ?_, fun hrevoked hguards hcalls => ?_,
    fun hgone => ?_⟩
  · have hle : s.drops + s.owed ≤ 1 := by
      rw [hdrops]
      split <;> decide
    omega
  · have hnone := hs.no_drop_of_guards hguards
    exact ⟨by omega, List.count_eq_zero.mp (by rw [owed] at hnone; omega)⟩
  · rwa [if_pos (Or.inr ⟨hrevoked, hguards⟩), owed, List.count_eq_zero_of_not_mem hcalls] at hdrops
  · rw [if_pos (Or.inl hgone), owed, (hs.gone hgone).1] at hdrops
    exact hdrops

/-- A guard is made, the value revoked while it is alive, and a late `try_access` refused. -/
def revokedInUse : List RevocableAction :=
  [.tryAccess, .load 0, .compareExchange 0 true, .load 0, .compareExchange 0 false, .revoke,
    .tryAccess, .load 0, .dropGuard, .dropData 0, .drop]

theorem revocable_sound_revokedInUse :
    ∃ s, run step AsyncRevocable.new revokedInUse = some s ∧ s.live = false ∧ s.drops = 1 := by
  have hguard : Guarded step few AsyncRevocable.new revokedInUse := by decide
  exact ⟨_, rfl, rfl, (revocable_sound hguard rfl).2.2.2.2.2 rfl⟩

end AsyncRevocable

end Rko
