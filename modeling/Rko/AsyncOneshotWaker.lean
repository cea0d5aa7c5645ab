import Mathlib.Data.List.Perm.Subperm
import Rko.AsyncOneshot

namespace Rko

open GuardedRun

namespace OneshotReceiver

variable {W : Type}

/-- A poll has loaded `empty` and has not finished storing its waker. -/
def isStoring : OneshotReceiver W → Bool
  | storing _ => true
  | replacing _ _ => true
  | dropping _ _ => true
  | _ => false

/-- Between the begin and the end of the store. -/
def inStore : OneshotReceiver W → Bool
  | replacing _ _ => true
  | dropping _ _ => true
  | _ => false

/-- The replaced waker that this half still has to drop. -/
def held : OneshotReceiver W → List W
  | dropping _ old => old.toList
  | _ => []

end OneshotReceiver

namespace OneshotSender

variable {W : Type}

/-- Between the begin and the end of the take. -/
def inTake : OneshotSender W → Bool
  | taking _ => true
  | _ => false

/-- The waker that this half still has to wake. -/
def held : OneshotSender W → List W
  | taken w => w.toList
  | _ => []

end OneshotSender

namespace AsyncOneshot

variable {α W : Type} {c c' : AsyncOneshot α W}

/-- Store and take never overlap, no waker is consumed twice, and when both halves are done each
one that was stored was woken or dropped. -/
structure Exclusive (c : AsyncOneshot α W) : Prop where
  apart : c.receiver.inStore = true → c.sender.inTake = false
  once : (c.woken ++ c.dropped).Subperm c.stored
  consumed : c.sender = .done → c.receiver = .done → (c.woken ++ c.dropped).Perm c.stored

/-- The sender does not begin its take while a poll is between its load of `empty` and the end of
its waker store. -/
def waitsForStore (c : AsyncOneshot α W) : OneshotAction α W → Bool
  | .sender =>
    match c.sender with
    | .stored => !c.receiver.isStoring
    | _ => true
  | _ => true

/-- From the take on no poll is inside its store, so that each half finds in the cell what it has
read there. Every waker stored is in the cell, held by a half or consumed. -/
structure Accounted (c : AsyncOneshot α W) : Prop where
  sound : c.Sound
  outside : c.sender.hasTaken = true → c.receiver.isStoring = false
  replacing : ∀ {w old}, c.receiver = .replacing w old → c.waker = old
  taking : ∀ {w}, c.sender = .taking w → c.waker = w
  wakers : ∀ [DecidableEq W] (w : W), c.woken.count w + c.dropped.count w + c.waker.toList.count w +
    c.receiver.held.count w + c.sender.held.count w = c.stored.count w
  freed : 0 < c.freed → c.waker = none

namespace Accounted

theorem channel : Accounted (AsyncOneshot.channel : AsyncOneshot α W) where
  sound := Sound.channel
  outside h := by cases h
  replacing h := by cases h
  taking h := by cases h
  wakers _ := rfl
  freed _ := rfl

theorem apart (h : c.Accounted) (hstore : c.receiver.inStore = true) : c.sender.inTake = false := by
  cases hsender : c.sender with
  | taking w =>
    have houtside := h.outside (by rw [hsender]; rfl)
    cases hreceiver : c.receiver <;> simp_all [OneshotReceiver.inStore, OneshotReceiver.isStoring]
  | _ => rfl

theorem exclusive (h : c.Accounted) : c.Exclusive := by
  classical
  refine ⟨h.apart, ?_, ?_⟩
  · refine List.subperm_ext_iff.mpr fun w _ => ?_
    have hcount := h.wakers w
    rw [List.count_append]
    omega
  · intro hsender hreceiver
    have howners := h.sound.owners
    rw [hsender, hreceiver] at howners
    have hnone := h.freed (by rw [howners.freed_of_done]; exact Nat.one_pos)
    refine List.perm_iff_count.mpr fun w => ?_
    have hcount := h.wakers w
    rw [hnone, hsender, hreceiver] at hcount
    rw [List.count_append]
    exact hcount

theorem not_replacing (houtside : c.receiver.isStoring = false) (w : W) (old : Option W) :
    c.receiver ≠ .replacing w old := by
  intro hreceiver
  rw [hreceiver] at houtside
  cases houtside

/-- A sender that moves on and leaves the cell and all wakers where they are. -/
theorem moveSender (h : c.Accounted) (hsound : c'.Sound)
    (hcell : c'.waker = c.waker ∧ c'.freed = c.freed ∧ c'.receiver = c.receiver)
    (hlists : c'.woken = c.woken ∧ c'.dropped = c.dropped ∧ c'.stored = c.stored)
    (hheld : c'.sender.held = c.sender.held) (hntake : c'.sender.inTake = false)
    (htaken : c'.sender.hasTaken = true → c.sender.hasTaken = true) : c'.Accounted := by
  obtain ⟨hwaker, hfreed, hreceiver⟩ := hcell
  obtain ⟨hwoken, hdropped, hstored⟩ := hlists
  refine ⟨hsound, fun hh => ?_, fun hr => ?_, fun hs => ?_, fun w => ?_, fun hpos => ?_⟩
  · rw [hreceiver]
    exact h.outside (htaken hh)
  · rw [hwaker]
    exact h.replacing (hreceiver ▸ hr)
  · rw [hs] at hntake
    cases hntake
  · rw [hwoken, hdropped, hwaker, hreceiver, hheld, hstored]
    exact h.wakers w
  · rw [hwaker]
    exact h.freed (hfreed ▸ hpos)

/-- A receiver that moves on outside its store and leaves the cell and all wakers where they are. -/
theorem moveReceiver (h : c.Accounted) (hsound : c'.Sound)
    (hcell : c'.waker = c.waker ∧ c'.freed = c.freed ∧ c'.sender = c.sender)
    (hlists : c'.woken = c.woken ∧ c'.dropped = c.dropped ∧ c'.stored = c.stored)
    (hheld : c'.receiver.held = c.receiver.held) (hout : c'.receiver.isStoring = false) :
    c'.Accounted := by
  obtain ⟨hwaker, hfreed, hsender⟩ := hcell
  obtain ⟨hwoken, hdropped, hstored⟩ := hlists
  refine ⟨hsound, fun _ => hout, fun hr => ?_, fun hs => ?_, fun w => ?_, fun hpos => ?_⟩
  · exact absurd hr (not_replacing hout _ _)
  · rw [hwaker]
    exact h.taking (hsender ▸ hs)
  · rw [hwoken, hdropped, hwaker, hheld, hsender, hstored]
    exact h.wakers w
  · rw [hwaker]
    exact h.freed (hfreed ▸ hpos)

theorem send (h : c.Accounted) {v : α} (hsender : c.sender = .idle)
    (hsound : Sound { c with value := some v, sent := c.sent ++ [v], sender := .written }) :
    Accounted { c with value := some v, sent := c.sent ++ [v], sender := .written } :=
  h.moveSender hsound ⟨rfl, rfl, rfl⟩ ⟨rfl, rfl, rfl⟩ (by rw [hsender]; rfl) rfl (by rintro ⟨⟩)

theorem store (h : c.Accounted) {st : OneshotState}
    (hsound : Sound { c with state := st, sender := .stored })
    (hbefore : c.sender.hasStored = false) : Accounted { c with state := st, sender := .stored } := by
  have hheld : c.sender.held = [] := by
    cases hsender : c.sender <;> simp_all [OneshotSender.hasStored, OneshotSender.held]
  exact h.moveSender hsound ⟨rfl, rfl, rfl⟩ ⟨rfl, rfl, rfl⟩ hheld.symm rfl (by rintro ⟨⟩)

theorem stepSender (h : c.Accounted) (hsound : c'.Sound)
    (hguard : c.waitsForStore (.sender : OneshotAction α W) = true)
    (hmove : SenderMove c c') : c'.Accounted := by
  cases hmove with
  | store hsender =>
    exact h.store hsound (by rw [hsender]; rfl)
  | readCell hsender =>
    have houtside : c.receiver.isStoring = false := by
      simpa [waitsForStore, hsender] using hguard
    refine ⟨hsound, fun _ => houtside, h.replacing, ?_, fun w => ?_, h.freed⟩
    · intro w hw
      cases hw
      rfl
    · have hcount := h.wakers w
      rw [hsender] at hcount
      exact hcount
  | clearCell hsender =>
    have houtside := h.outside (by rw [hsender]; rfl)
    refine ⟨hsound, fun _ => houtside, ?_, (by rintro _ ⟨⟩), fun w => ?_, fun _ => rfl⟩
    · intro w old hw
      exact absurd hw (not_replacing houtside w old)
    · have hcount := h.wakers w
      rw [h.taking hsender, hsender] at hcount
      simp only [OneshotSender.held, Option.toList_none, List.count_nil] at hcount ⊢
      omega
  | wake hsender =>
    have houtside := h.outside (by rw [hsender]; rfl)
    refine ⟨hsound, fun _ => houtside, h.replacing, (by rintro _ ⟨⟩), fun w => ?_, h.freed⟩
    have hcount := h.wakers w
    rw [hsender] at hcount
    simp only [OneshotSender.held, List.count_append, List.count_nil] at hcount ⊢
    omega
  | decRef hsender =>
    have hheld : (if c.refcount = 1 then .freeing else .done : OneshotSender W).held = [] := by
      split <;> rfl
    have hntake : (if c.refcount = 1 then .freeing else .done : OneshotSender W).inTake = false := by
      split <;> rfl
    exact h.moveSender hsound ⟨rfl, rfl, rfl⟩ ⟨rfl, rfl, rfl⟩ (by rw [hsender]; exact hheld) hntake
      (by rw [hsender]; exact fun _ => rfl)
  | free hsender =>
    have houtside := h.outside (by rw [hsender]; rfl)
    refine ⟨hsound, fun _ => houtside, ?_, (by rintro _ ⟨⟩), fun w => ?_, fun _ => rfl⟩
    · intro w old hw
      exact absurd hw (not_replacing houtside w old)
    · have hcount := h.wakers w
      rw [hsender] at hcount
      simp only [free, OneshotSender.held, List.count_append, Option.toList_none,
        List.count_nil] at hcount ⊢
      omega

theorem poll (h : c.Accounted) {w : W} (hsound : c'.Sound) (hmove : PollMove c w c') :
    c'.Accounted := by
  cases hmove with
  | sent hreceiver _ =>
    exact h.moveReceiver hsound ⟨rfl, rfl, rfl⟩ ⟨rfl, rfl, rfl⟩ (by rw [hreceiver]; rfl) rfl
  | closed hreceiver _ =>
    exact h.moveReceiver hsound ⟨rfl, rfl, rfl⟩ ⟨rfl, rfl, rfl⟩ (by rw [hreceiver]; rfl) rfl
  | empty hreceiver hempty =>
    refine ⟨hsound, fun htaken => ?_, nofun, h.taking, fun w => ?_, h.freed⟩
    · have hbefore := h.sound.state.mp hempty
      cases hsender : c.sender <;> simp_all [OneshotSender.hasStored, OneshotSender.hasTaken]
    · have hcount := h.wakers w
      rw [hreceiver] at hcount
      exact hcount

theorem recheck (h : c.Accounted) {w : W} (hsound : (c.recheck w).Sound)
    (hreceiver : c.receiver = .checking w) : (c.recheck w).Accounted := by
  unfold AsyncOneshot.recheck at hsound ⊢
  split at hsound
  · exact h.moveReceiver hsound ⟨rfl, rfl, rfl⟩ ⟨rfl, rfl, rfl⟩ (by rw [hreceiver]; rfl) rfl
  · exact h.moveReceiver hsound ⟨rfl, rfl, rfl⟩ ⟨rfl, rfl, rfl⟩ (by rw [hreceiver]; rfl) rfl
  · exact h.moveReceiver hsound ⟨rfl, rfl, rfl⟩ ⟨rfl, rfl, rfl⟩ (by rw [hreceiver]; rfl) rfl

theorem stepReceiver (h : c.Accounted) (hsound : c'.Sound) (hmove : ReceiverMove c c') :
    c'.Accounted := by
  cases hmove with
  | readCell hreceiver =>
    have hempty := h.outside
    rw [hreceiver] at hempty
    refine ⟨hsound, hempty, ?_, h.taking, fun w => ?_, h.freed⟩
    · intro w' old hw
      cases hw
      rfl
    · have hcount := h.wakers w
      rw [hreceiver] at hcount
      exact hcount
  | writeCell hreceiver =>
    have hempty := h.outside
    rw [hreceiver] at hempty
    refine ⟨hsound, hempty, (by rintro _ _ ⟨⟩), ?_, fun w' => ?_, ?_⟩
    · intro w' hsender
      have hsender' : c.sender = .taking w' := hsender
      have houtside := h.outside (by rw [hsender']; rfl)
      rw [hreceiver] at houtside
      cases houtside
    · have hcount := h.wakers w'
      rw [h.replacing hreceiver, hreceiver] at hcount
      simp only [OneshotReceiver.held, Option.toList_some, List.count_append,
        List.count_nil] at hcount ⊢
      omega
    · intro hpos
      have hdone := (h.sound.owners.done_of_freed hpos).2
      rw [hreceiver] at hdone
      cases hdone
  | dropOld hreceiver =>
    refine ⟨hsound, fun _ => rfl, (by rintro _ _ ⟨⟩), h.taking, fun w' => ?_, h.freed⟩
    have hcount := h.wakers w'
    rw [hreceiver] at hcount
    simp only [OneshotReceiver.held, List.count_append, List.count_nil] at hcount ⊢
    omega
  | recheck hreceiver =>
    exact h.recheck hsound hreceiver
  | readValue hreceiver hvalue =>
    exact h.moveReceiver hsound ⟨rfl, rfl, rfl⟩ ⟨rfl, rfl, rfl⟩ (by rw [hreceiver]; rfl) rfl
  | free hreceiver =>
    refine ⟨hsound, fun _ => rfl, (by rintro _ _ ⟨⟩), ?_, fun w => ?_, fun _ => rfl⟩
    · intro w hsender
      have hsender' : c.sender = .taking w := hsender
      have howners := h.sound.owners
      rw [hsender', hreceiver] at howners
      exact absurd (howners.freeing' rfl) (by simp [OneshotSender.life])
    · have hcount := h.wakers w
      rw [hreceiver] at hcount
      simp only [free, OneshotReceiver.held, List.count_append, Option.toList_none,
        List.count_nil] at hcount ⊢
      omega

theorem dropReceiver (h : c.Accounted) (hsound : c.dropReceiver.Sound)
    (hreceiver : c.receiver = .idle ∨ c.receiver = .ready) : c.dropReceiver.Accounted := by
  have hheld : c.receiver.held = [] := by
    rcases hreceiver with hidle | hready
    · rw [hidle]
      rfl
    · rw [hready]
      rfl
  have hout : c.dropReceiver.receiver.isStoring = false := by
    unfold AsyncOneshot.dropReceiver
    split <;> rfl
  have hheld' : c.dropReceiver.receiver.held = [] := by
    unfold AsyncOneshot.dropReceiver
    split <;> rfl
  exact h.moveReceiver hsound ⟨rfl, rfl, rfl⟩ ⟨rfl, rfl, rfl⟩ (hheld'.trans hheld.symm) hout

theorem step {a : OneshotAction α W} (h : c.Accounted) (hguard : c.waitsForStore a = true)
    (hstep : c.step a = some c') : c'.Accounted := by
  have hsound := h.sound.step hstep
  cases transition_of_step hstep with
  | send v hsender => exact h.send hsender hsound
  | dropSender hsender => exact h.store hsound (by rw [hsender]; rfl)
  | sender hmove => exact h.stepSender hsound hguard hmove
  | poll hmove => exact h.poll hsound hmove
  | dropReceiver hreceiver => exact h.dropReceiver hsound hreceiver
  | receiver hmove => exact h.stepReceiver hsound hmove

end Accounted

/-- If the sender never begins its take while a poll is between its load and the end of its store,
the waker cell is used by one half at a time and no waker is lost or used twice. -/
theorem exclusive_of_run {as : List (OneshotAction α W)}
    (hguard : Guarded step (fun c a => waitsForStore c a = true) channel as)
    (hrun : run step channel as = some c) : c.Exclusive :=
  (run_invariant (fun h hguard hstep => h.step hguard hstep) Accounted.channel hguard hrun).exclusive

/-- A poll that stores its waker, another that replaces it, and then the send. -/
def replaceThenSend : List (OneshotAction Nat Nat) :=
  [.poll 1, .receiver, .receiver, .receiver, .receiver, .poll 2, .receiver, .receiver, .receiver,
    .receiver, .send 7, .sender, .sender, .sender, .sender, .sender, .dropReceiver, .receiver]

theorem exclusive_of_replaceThenSend :
    ∃ c, run step channel replaceThenSend = some c ∧ c.woken = [2] ∧ c.dropped = [1] ∧
      c.stored = [1, 2] ∧ c.Exclusive := by
  have hguard : Guarded step (fun c a => waitsForStore c a = true) channel replaceThenSend := by
    decide
  exact ⟨_, rfl, rfl, rfl, rfl, exclusive_of_run hguard rfl⟩

/-- A second poll loads `empty` and reads the old waker; the sender stores `sent` and takes the same
waker; the poll goes on. The sender is inside its take while the poll is inside its store, and in the
end waker `1` was woken and dropped. -/
def raceOnCell : List (OneshotAction Nat Nat) :=
  [.poll 1, .receiver, .receiver, .receiver, .receiver, .poll 2, .receiver, .send 7, .sender,
    .sender]

theorem store_overlaps_take :
    (∃ c, run step channel raceOnCell = some c ∧ c.receiver.inStore = true ∧
      c.sender.inTake = true) ∧
    ∃ c, run step channel (raceOnCell ++ [.receiver, .receiver, .sender, .sender]) = some c ∧
      c.woken = [1] ∧ c.dropped = [1] ∧ c.stored = [1, 2] ∧ ¬ c.Exclusive := by
  refine ⟨⟨_, rfl, rfl, rfl⟩, _, rfl, rfl, rfl, rfl, fun h => ?_⟩
  have hcount := h.once.count_le 1
  exact absurd hcount (by decide)

end AsyncOneshot

end Rko
