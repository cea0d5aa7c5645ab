import Rko.AsyncOneshot
import Rko.SyncOneshot

namespace Rko

open GuardedRun

/-- Each value passed to `send` was returned once or destroyed once, and nothing else was. -/
def ValuesKept {α : Type} (sent : List α) (results : List (Option α)) (destroyed : List α) : Prop :=
  (results.filterMap id ++ destroyed).Perm sent

namespace SyncOneshot

variable {α : Type} {c c' : SyncOneshot α}

/-- `send` is called only before the receiver has gone or given up, and it goes or gives up only
while nothing was written. -/
def keepsValue (c : SyncOneshot α) : SyncOneshotAction α → Bool
  | .send _ => !c.receiver.hasLeft
  | .timeout => c.value.isNone
  | .dropReceiver => c.value.isNone
  | _ => true

structure Kept (c : SyncOneshot α) : Prop where
  sound : c.Sound
  waiting : c.receiver.hasLeft = false → c.results = []
  left : c.receiver.hasLeft = true → c.results.filterMap id = c.value.toList
  destroyed : c.destroyed = []

namespace Kept

theorem channel : Kept (SyncOneshot.channel : SyncOneshot α) :=
  ⟨Sound.channel, fun _ => rfl, nofun, rfl⟩

theorem stepSender (h : c.Kept) (hsound : c'.Sound) (hstep : c.stepSender = some c') : c'.Kept := by
  cases senderMove_of_step hstep with
  | setFlag | complete | decRef => exact ⟨hsound, h.waiting, h.left, h.destroyed⟩
  | free =>
    exact ⟨hsound, h.waiting, h.left, by simp [free, MaybeUninit.destroyed, h.destroyed]⟩

theorem stepReceiver (h : c.Kept) (hsound : c'.Sound) (hstep : c.stepReceiver = some c') :
    c'.Kept := by
  have hwaiting := h.waiting
  cases receiverMove_of_step hstep with
  | wait hreceiver hpos =>
    rw [hreceiver] at hwaiting
    exact ⟨hsound, hwaiting, (by rintro ⟨⟩), h.destroyed⟩
  | seeSent hreceiver hflag =>
    rw [hreceiver] at hwaiting
    exact ⟨hsound, hwaiting, (by rintro ⟨⟩), h.destroyed⟩
  | seeUnsent hreceiver hflag =>
    rw [hreceiver] at hwaiting
    have hnone : c.value = none := h.sound.unsent (h.sound.waited hreceiver) hflag
    exact ⟨hsound, (by rintro ⟨⟩), fun _ => by simp [hwaiting rfl, hnone], h.destroyed⟩
  | readValue hreceiver hvalue =>
    rw [hreceiver] at hwaiting
    exact ⟨hsound, (by rintro ⟨⟩), fun _ => by simp [hwaiting rfl, hvalue], h.destroyed⟩
  | decRef hreceiver =>
    have hleft := h.left (by rw [hreceiver]; rfl)
    refine ⟨hsound, ?_, fun _ => hleft, h.destroyed⟩
    dsimp only
    split <;> rintro ⟨⟩
  | free hreceiver =>
    have hleft := h.left (by rw [hreceiver]; rfl)
    exact ⟨hsound, (by rintro ⟨⟩), fun _ => hleft, by simp [free, MaybeUninit.destroyed, h.destroyed]⟩

theorem step {a : SyncOneshotAction α} (h : c.Kept) (hguard : c.keepsValue a = true)
    (hstep : c.step a = some c') : c'.Kept := by
  have hsound := h.sound.step hstep
  have hwaiting := h.waiting
  cases a with
  | send v =>
    obtain ⟨-, ⟨⟩⟩ := Option.ite_none_right_eq_some.mp hstep
    have hstays : c.receiver.hasLeft = false := by simpa [keepsValue] using hguard
    refine ⟨hsound, hwaiting, fun hleft => ?_, h.destroyed⟩
    rw [hstays] at hleft
    cases hleft
  | dropSender =>
    obtain ⟨-, ⟨⟩⟩ := Option.ite_none_right_eq_some.mp hstep
    exact ⟨hsound, hwaiting, h.left, h.destroyed⟩
  | sender => exact h.stepSender hsound hstep
  | recv =>
    obtain ⟨hreceiver, ⟨⟩⟩ := Option.ite_none_right_eq_some.mp hstep
    rw [hreceiver] at hwaiting
    exact ⟨hsound, hwaiting, nofun, h.destroyed⟩
  | recvTimeout =>
    obtain ⟨hreceiver, ⟨⟩⟩ := Option.ite_none_right_eq_some.mp hstep
    rw [hreceiver] at hwaiting
    exact ⟨hsound, hwaiting, nofun, h.destroyed⟩
  | timeout =>
    obtain ⟨⟨hreceiver, -⟩, ⟨⟩⟩ := Option.ite_none_right_eq_some.mp hstep
    have hnone : c.value = none := by simpa [keepsValue] using hguard
    rw [hreceiver] at hwaiting
    exact ⟨hsound, nofun, fun _ => by simp [hwaiting rfl, hnone], h.destroyed⟩
  | dropReceiver =>
    obtain ⟨hreceiver, ⟨⟩⟩ := Option.ite_none_right_eq_some.mp hstep
    have hnone : c.value = none := by simpa [keepsValue] using hguard
    rw [hreceiver] at hwaiting
    exact ⟨hsound, nofun, fun _ => by simp [hwaiting rfl, hnone], h.destroyed⟩
  | receiver => exact h.stepReceiver hsound hstep

theorem values (h : c.Kept) (hreceiver : c.receiver = .done) :
    ValuesKept c.sent c.results c.destroyed := by
  have hleft := h.left (by rw [hreceiver]; rfl)
  rw [ValuesKept, hleft, h.destroyed, h.sound.sent, List.append_nil]

end Kept

end SyncOneshot

namespace OneshotReceiver

variable {W : Type}

/-- A poll has returned `Ready`, or the receiver has gone. -/
def hasLeft : OneshotReceiver W → Bool
  | ready => true
  | freeing => true
  | done => true
  | _ => false

end OneshotReceiver

namespace AsyncOneshot

variable {α W : Type} {c c' : AsyncOneshot α W}

/-- `send` is called only before the receiver has gone, and it goes only while nothing was written
or after a poll has returned `Ready`. -/
def keepsValue (c : AsyncOneshot α W) : OneshotAction α W → Bool
  | .send _ => !c.receiver.hasLeft
  | .dropReceiver => c.receiver.hasLeft || c.value.isNone
  | _ => true

structure Kept (c : AsyncOneshot α W) : Prop where
  sound : c.Sound
  waiting : c.receiver.hasLeft = false → c.results = []
  left : c.receiver.hasLeft = true → c.results.filterMap id = c.value.toList
  destroyed : c.destroyed = []

namespace Kept

theorem channel : Kept (AsyncOneshot.channel : AsyncOneshot α W) :=
  ⟨Sound.channel, fun _ => rfl, nofun, rfl⟩

theorem stepSender (h : c.Kept) (hsound : c'.Sound) (hmove : SenderMove c c') : c'.Kept := by
  cases hmove with
  | free hsender =>
    exact ⟨hsound, h.waiting, h.left, by simp [free, MaybeUninit.destroyed, h.destroyed]⟩
  | _ => exact ⟨hsound, h.waiting, h.left, h.destroyed⟩

theorem poll (h : c.Kept) {w : W} (hsound : c'.Sound) (hmove : PollMove c w c') : c'.Kept := by
  have hwaiting := h.waiting
  cases hmove with
  | sent hreceiver _ =>
    rw [hreceiver] at hwaiting
    exact ⟨hsound, hwaiting, nofun, h.destroyed⟩
  | closed hreceiver hclosed =>
    rw [hreceiver] at hwaiting
    have hnone := h.sound.unwritten (Or.inr hclosed)
    exact ⟨hsound, nofun, fun _ => by simp [hwaiting rfl, hnone], h.destroyed⟩
  | empty hreceiver _ =>
    rw [hreceiver] at hwaiting
    exact ⟨hsound, hwaiting, nofun, h.destroyed⟩

theorem recheck (h : c.Kept) {w : W} (hsound : (c.recheck w).Sound)
    (hreceiver : c.receiver = .checking w) : (c.recheck w).Kept := by
  have hwaiting := h.waiting
  rw [hreceiver] at hwaiting
  unfold AsyncOneshot.recheck at hsound ⊢
  split at hsound
  next => exact ⟨hsound, hwaiting, nofun, h.destroyed⟩
  next hclosed =>
    have hnone := h.sound.unwritten (Or.inr hclosed)
    exact ⟨hsound, nofun, fun _ => by simp [hwaiting rfl, hnone], h.destroyed⟩
  next => exact ⟨hsound, hwaiting, nofun, h.destroyed⟩

theorem stepReceiver (h : c.Kept) (hsound : c'.Sound) (hmove : ReceiverMove c c') : c'.Kept := by
  have hwaiting := h.waiting
  cases hmove with
  | readCell hreceiver | writeCell hreceiver | dropOld hreceiver =>
    rw [hreceiver] at hwaiting
    exact ⟨hsound, hwaiting, (by rintro ⟨⟩), h.destroyed⟩
  | recheck hreceiver => exact h.recheck hsound hreceiver
  | readValue hreceiver hvalue =>
    rw [hreceiver] at hwaiting
    exact ⟨hsound, (by rintro ⟨⟩), fun _ => by simp [hwaiting rfl, hvalue], h.destroyed⟩
  | free hreceiver =>
    have hleft := h.left (by rw [hreceiver]; rfl)
    exact ⟨hsound, (by rintro ⟨⟩), fun _ => hleft, by simp [free, MaybeUninit.destroyed, h.destroyed]⟩

theorem dropReceiver (h : c.Kept) (hsound : c.dropReceiver.Sound)
    (hguard : c.receiver.hasLeft = true ∨ c.value = none) : c.dropReceiver.Kept := by
  have hgone : c.dropReceiver.receiver.hasLeft = true := by
    unfold AsyncOneshot.dropReceiver
    split <;> rfl
  have hvalues : c.results.filterMap id = c.value.toList := by
    cases hleft : c.receiver.hasLeft with
    | true => exact h.left hleft
    | false =>
      rcases hguard with hleft' | hnone
      · rw [hleft] at hleft'
        cases hleft'
      · rw [h.waiting hleft, hnone]
        rfl
  refine ⟨hsound, fun hstays => ?_, fun _ => hvalues, h.destroyed⟩
  rw [hgone] at hstays
  cases hstays

theorem step {a : OneshotAction α W} (h : c.Kept) (hguard : c.keepsValue a = true)
    (hstep : c.step a = some c') : c'.Kept := by
  have hsound := h.sound.step hstep
  cases transition_of_step hstep with
  | send v hsender =>
    have hstays : c.receiver.hasLeft = false := by simpa [keepsValue] using hguard
    refine ⟨hsound, h.waiting, fun hleft => ?_, h.destroyed⟩
    rw [hstays] at hleft
    cases hleft
  | dropSender hsender => exact ⟨hsound, h.waiting, h.left, h.destroyed⟩
  | sender hmove => exact h.stepSender hsound hmove
  | poll hmove => exact h.poll hsound hmove
  | dropReceiver hreceiver => exact h.dropReceiver hsound (by simpa [keepsValue] using hguard)
  | receiver hmove => exact h.stepReceiver hsound hmove

theorem values (h : c.Kept) (hreceiver : c.receiver = .done) :
    ValuesKept c.sent c.results c.destroyed := by
  have hleft := h.left (by rw [hreceiver]; rfl)
  rw [ValuesKept, hleft, h.destroyed, h.sound.sent, List.append_nil]

end Kept

end AsyncOneshot

section

variable {α W : Type} {c : SyncOneshot α} {cs : List (SyncOneshotAction α)}
  {d : AsyncOneshot α W} {ds : List (OneshotAction α W)}

/-- If the receiver of a channel never goes away from a value that was written, and nothing is sent
to a receiver that has gone, no value is lost. -/
theorem oneshot_values_kept
    (hc : Guarded SyncOneshot.step (fun c a => c.keepsValue a = true) .channel cs)
    (hcs : run SyncOneshot.step .channel cs = some c)
    (hd : Guarded AsyncOneshot.step (fun d a => d.keepsValue a = true) .channel ds)
    (hds : run AsyncOneshot.step .channel ds = some d) :
    (c.sender = .done → c.receiver = .done → ValuesKept c.sent c.results c.destroyed) ∧
    (d.sender = .done → d.receiver = .done → ValuesKept d.sent d.results d.destroyed) := by
  have hkept : c.Kept :=
    run_invariant (fun h hguard hstep => h.step hguard hstep) SyncOneshot.Kept.channel hc hcs
  have hkept' : d.Kept :=
    run_invariant (fun h hguard hstep => h.step hguard hstep) AsyncOneshot.Kept.channel hd hds
  exact ⟨fun _ hreceiver => hkept.values hreceiver, fun _ hreceiver => hkept'.values hreceiver⟩

end

/-- The value arrives while the receiver waits in `recv_timeout`. -/
def sendReceived : List (SyncOneshotAction Nat) :=
  [.recvTimeout, .send 7, .sender, .sender, .receiver, .receiver, .receiver, .receiver, .sender,
    .sender]

def sendPolled : List (OneshotAction Nat Nat) :=
  [.poll 1, .receiver, .receiver, .receiver, .send 7, .receiver, .sender, .sender, .sender, .sender,
    .sender, .poll 1, .receiver, .dropReceiver, .receiver]

theorem oneshot_values_kept_of_received :
    ∃ (c : SyncOneshot Nat) (d : AsyncOneshot Nat Nat),
      run SyncOneshot.step .channel sendReceived = some c ∧ c.results = [some 7] ∧
      run AsyncOneshot.step .channel sendPolled = some d ∧ d.results = [some 7] ∧
      ValuesKept c.sent c.results c.destroyed ∧ ValuesKept d.sent d.results d.destroyed := by
  have hc : Guarded SyncOneshot.step (fun c a => c.keepsValue a = true) .channel sendReceived := by
    decide
  have hd : Guarded AsyncOneshot.step (fun d a => d.keepsValue a = true) .channel sendPolled := by
    decide
  obtain ⟨hkept, hkept'⟩ := oneshot_values_kept hc rfl hd rfl
  exact ⟨_, _, rfl, rfl, rfl, rfl, hkept rfl rfl, hkept' rfl rfl⟩

/-- A value sent to a receiver that is dropped or has timed out, on either channel: the last half
frees `Inner`, and the value in its `MaybeUninit` is neither returned nor destroyed. -/
theorem oneshot_value_lost :
    (∃ c : SyncOneshot Nat, run SyncOneshot.step .channel
        [.send 7, .sender, .sender, .sender, .dropReceiver, .receiver, .receiver] = some c ∧
      c.sender = .done ∧ c.receiver = .done ∧ c.freed = 1 ∧
      ¬ ValuesKept c.sent c.results c.destroyed) ∧
    (∃ c : SyncOneshot Nat, run SyncOneshot.step .channel
        [.recvTimeout, .timeout, .receiver, .send 7, .sender, .sender, .sender, .sender] = some c ∧
      c.sender = .done ∧ c.receiver = .done ∧ c.freed = 1 ∧
      ¬ ValuesKept c.sent c.results c.destroyed) ∧
    ∃ d : AsyncOneshot Nat Nat, run AsyncOneshot.step .channel
        [.send 7, .sender, .sender, .sender, .sender, .sender, .dropReceiver, .receiver] = some d ∧
      d.sender = .done ∧ d.receiver = .done ∧ d.freed = 1 ∧
      ¬ ValuesKept d.sent d.results d.destroyed := by
  refine ⟨⟨_, rfl, rfl, rfl, rfl, fun h => ?_⟩, ⟨_, rfl, rfl, rfl, rfl, fun h => ?_⟩,
    _, rfl, rfl, rfl, rfl, fun h => ?_⟩
  · exact absurd h.length_eq (by decide)
  · exact absurd h.length_eq (by decide)
  · exact absurd h.length_eq (by decide)

end Rko
