import Rko.GuardedRun
import Rko.OneshotShared

namespace Rko

open GuardedRun

/-- Where the sender is in `send` or in its `drop`: it has written the value, has set `sent`, has
completed the completion. -/
inductive SyncSender
  | idle | written | flagged | releasing | freeing | done
deriving DecidableEq, Repr

namespace SyncSender

def life : SyncSender → HalfLife
  | freeing => .freeing
  | done => .done
  | _ => .live

theorem life_decRef (refcount : UInt8) :
    (if refcount = 1 then freeing else done : SyncSender).life = .afterDecRef refcount := by
  unfold HalfLife.afterDecRef
  split <;> rfl

def hasCompleted : SyncSender → Bool
  | idle => false
  | written => false
  | flagged => false
  | _ => true

end SyncSender

/-- Where the receiver is in `recv`, `recv_timeout` or its `drop`; `completed` is in `read_value`
before it looks at `sent`. -/
inductive SyncReceiver
  | idle
  | waiting (timeout : Bool)
  | completed
  | reading
  | releasing
  | freeing
  | done
deriving DecidableEq, Repr

namespace SyncReceiver

def life : SyncReceiver → HalfLife
  | freeing => .freeing
  | done => .done
  | _ => .live

theorem life_decRef (refcount : UInt8) :
    (if refcount = 1 then freeing else done : SyncReceiver).life = .afterDecRef refcount := by
  unfold HalfLife.afterDecRef
  split <;> rfl

/-- Whatever the receiver returns is decided. -/
def hasLeft : SyncReceiver → Bool
  | releasing => true
  | freeing => true
  | done => true
  | _ => false

end SyncReceiver

/-- A oneshot channel. The first four fields are `Inner`, with the counter of the completion;
`sent`, `results` and `destroyed` are the values passed to `send`, what the receiver returned and the
values whose destructor ran. -/
structure SyncOneshot (α : Type) where
  value : Option α
  flag : Bool
  completion : Nat
  refcount : UInt8
  freed : Nat
  sender : SyncSender
  receiver : SyncReceiver
  sent : List α
  results : List (Option α)
  destroyed : List α
deriving DecidableEq, Repr

/-- `timeout` ends the wait of a `recv_timeout`; `sender` and `receiver` take the next step of the
call in progress. -/
inductive SyncOneshotAction (α : Type)
  | send (v : α)
  | dropSender
  | sender
  | recv
  | recvTimeout
  | timeout
  | dropReceiver
  | receiver
deriving DecidableEq, Repr

namespace SyncOneshot

variable {α : Type}

def channel : SyncOneshot α where
  value := none
  flag := false
  completion := 0
  refcount := 2
  freed := 0
  sender := .idle
  receiver := .idle
  sent := []
  results := []
  destroyed := []

def free (c : SyncOneshot α) : SyncOneshot α :=
  { c with freed := c.freed + 1, destroyed := c.destroyed ++ MaybeUninit.destroyed c.value }

def stepSender (c : SyncOneshot α) : Option (SyncOneshot α) :=
  match c.sender with
  | .written => some { c with flag := true, sender := .flagged }
  | .flagged => some { c with completion := c.completion + 1, sender := .releasing }
  | .releasing =>
    some { c with
      refcount := c.refcount - 1
      sender := if c.refcount = 1 then .freeing else .done }
  | .freeing => some { c.free with sender := .done }
  | _ => none

def stepReceiver (c : SyncOneshot α) : Option (SyncOneshot α) :=
  match c.receiver with
  | .waiting _ =>
    if 0 < c.completion then some { c with completion := c.completion - 1, receiver := .completed }
    else none
  | .completed =>
    if c.flag then some { c with receiver := .reading }
    else some { c with results := c.results ++ [none], receiver := .releasing }
  | .reading =>
    c.value.map fun v => { c with results := c.results ++ [some v], receiver := .releasing }
  | .releasing =>
    some { c with
      refcount := c.refcount - 1
      receiver := if c.refcount = 1 then .freeing else .done }
  | .freeing => some { c.free with receiver := .done }
  | _ => none

/-- Everything the next step of a `send` or of the sender's `drop` can do. -/
inductive SenderMove (c : SyncOneshot α) : SyncOneshot α → Prop
  | setFlag (hsender : c.sender = .written) : SenderMove c { c with flag := true, sender := .flagged }
  | complete (hsender : c.sender = .flagged) :
    SenderMove c { c with completion := c.completion + 1, sender := .releasing }
  | decRef (hsender : c.sender = .releasing) :
    SenderMove c { c with
      refcount := c.refcount - 1
      sender := if c.refcount = 1 then .freeing else .done }
  | free (hsender : c.sender = .freeing) : SenderMove c { c.free with sender := .done }

theorem senderMove_of_step {c c' : SyncOneshot α} (h : c.stepSender = some c') :
    SenderMove c c' := by
  unfold stepSender at h
  split at h
  next hsender =>
    cases h
    exact .setFlag hsender
  next hsender =>
    cases h
    exact .complete hsender
  next hsender =>
    cases h
    exact .decRef hsender
  next hsender =>
    cases h
    exact .free hsender
  next => cases h

/-- Everything the next step of a receive or of the receiver's `drop` can do. -/
inductive ReceiverMove (c : SyncOneshot α) : SyncOneshot α → Prop
  | wait {timeout : Bool} (hreceiver : c.receiver = .waiting timeout) (hpos : 0 < c.completion) :
    ReceiverMove c { c with completion := c.completion - 1, receiver := .completed }
  | seeSent (hreceiver : c.receiver = .completed) (hflag : c.flag = true) :
    ReceiverMove c { c with receiver := .reading }
  | seeUnsent (hreceiver : c.receiver = .completed) (hflag : c.flag = false) :
    ReceiverMove c { c with results := c.results ++ [none], receiver := .releasing }
  | readValue {v : α} (hreceiver : c.receiver = .reading) (hvalue : c.value = some v) :
    ReceiverMove c { c with results := c.results ++ [some v], receiver := .releasing }
  | decRef (hreceiver : c.receiver = .releasing) :
    ReceiverMove c { c with
      refcount := c.refcount - 1
      receiver := if c.refcount = 1 then .freeing else .done }
  | free (hreceiver : c.receiver = .freeing) : ReceiverMove c { c.free with receiver := .done }

theorem receiverMove_of_step {c c' : SyncOneshot α} (h : c.stepReceiver = some c') :
    ReceiverMove c c' := by
  unfold stepReceiver at h
  split at h
  next timeout hreceiver =>
    obtain ⟨hpos, ⟨⟩⟩ := Option.ite_none_right_eq_some.mp h
    exact .wait hreceiver hpos
  next hreceiver =>
    split at h
    next hflag =>
      cases h
      exact .seeSent hreceiver hflag
    next hflag =>
      cases h
      exact .seeUnsent hreceiver (Bool.eq_false_of_not_eq_true hflag)
  next hreceiver =>
    obtain ⟨v, hvalue, rfl⟩ := Option.map_eq_some_iff.mp h
    exact .readValue hreceiver hvalue
  next hreceiver =>
    cases h
    exact .decRef hreceiver
  next hreceiver =>
    cases h
    exact .free hreceiver
  next => cases h

/-- The kernel's wait with a timeout returns zero only while the completion is not done. -/
def step (c : SyncOneshot α) : SyncOneshotAction α → Option (SyncOneshot α)
  | .send v =>
    if c.sender = .idle then
      some { c with value := some v, sent := c.sent ++ [v], sender := .written }
    else none
  | .dropSender =>
    if c.sender = .idle then
      some { c with completion := c.completion + 1, sender := .releasing }
    else none
  | .sender => c.stepSender
  | .recv => if c.receiver = .idle then some { c with receiver := .waiting false } else none
  | .recvTimeout => if c.receiver = .idle then some { c with receiver := .waiting true } else none
  | .timeout =>
    if c.receiver = .waiting true ∧ c.completion = 0 then
      some { c with results := c.results ++ [none], receiver := .releasing }
    else none
  | .dropReceiver => if c.receiver = .idle then some { c with receiver := .releasing } else none
  | .receiver => c.stepReceiver

/-- `sent` is set before the completion, and the receiver looks at it only behind that. -/
structure Sound (c : SyncOneshot α) : Prop where
  owners : TwoOwners c.refcount c.freed c.sender.life c.receiver.life
  sent : c.sent = c.value.toList
  idle : c.sender = .idle → c.value = none ∧ c.flag = false
  written : c.sender = .written → c.value ≠ none
  flagged : c.sender = .flagged → c.flag = true
  flag : c.flag = true → c.value ≠ none
  unsent : c.sender.hasCompleted = true → c.flag = false → c.value = none
  completion : 0 < c.completion → c.sender.hasCompleted = true
  waited : c.receiver = .completed → c.sender.hasCompleted = true
  reading : c.receiver = .reading → c.flag = true

namespace Sound

variable {c c' : SyncOneshot α}

theorem channel : Sound (SyncOneshot.channel : SyncOneshot α) := by
  refine ⟨TwoOwners.new, rfl, fun _ => ⟨rfl, rfl⟩, ?_, ?_, ?_, ?_, ?_, ?_, ?_⟩ <;>
    simp [SyncOneshot.channel]

theorem send (h : c.Sound) {v : α} (hsender : c.sender = .idle) :
    Sound { c with value := some v, sent := c.sent ++ [v], sender := .written } := by
  have howners := h.owners
  have hcompletion := h.completion
  have hwaited := h.waited
  rw [hsender] at howners hcompletion hwaited
  have hsent := h.sent
  rw [(h.idle hsender).1] at hsent
  exact { h with
    owners := howners
    sent := by simp [hsent]
    idle := nofun
    written := fun _ => by simp
    flagged := nofun
    flag := fun _ => by simp
    unsent := nofun
    completion := hcompletion
    waited := hwaited }

theorem dropSender (h : c.Sound) (hsender : c.sender = .idle) :
    Sound { c with completion := c.completion + 1, sender := .releasing } := by
  have howners := h.owners
  rw [hsender] at howners
  exact { h with
    owners := howners
    idle := nofun
    written := nofun
    flagged := nofun
    unsent := fun _ _ => (h.idle hsender).1
    completion := fun _ => rfl
    waited := fun _ => rfl }

theorem stepSender (h : c.Sound) (hstep : c.stepSender = some c') : c'.Sound := by
  have howners := h.owners
  cases senderMove_of_step hstep with
  | setFlag hsender =>
    have hcompletion := h.completion
    have hwaited := h.waited
    rw [hsender] at howners hcompletion hwaited
    exact { h with
      owners := howners
      idle := nofun
      written := nofun
      flagged := fun _ => rfl
      flag := fun _ => h.written hsender
      unsent := nofun
      completion := hcompletion
      waited := hwaited
      reading := fun _ => rfl }
  | complete hsender =>
    rw [hsender] at howners
    refine { h with
      owners := howners, idle := nofun, written := nofun, flagged := nofun, unsent := ?_
      completion := fun _ => rfl, waited := fun _ => rfl }
    intro _ hflag
    rw [h.flagged hsender] at hflag
    cases hflag
  | decRef hsender =>
    rw [hsender] at howners
    have hafter : (if c.refcount = 1 then .freeing else .done : SyncSender).hasCompleted = true := by
      split <;> rfl
    have hunsent := h.unsent (by rw [hsender]; rfl)
    refine { h with
      owners := ?_, idle := ?_, written := ?_, flagged := ?_, unsent := fun _ => hunsent
      completion := fun _ => hafter, waited := fun _ => hafter }
    · rw [SyncSender.life_decRef]
      exact howners.decRef
    · dsimp only
      split <;> exact nofun
    · dsimp only
      split <;> exact nofun
    · dsimp only
      split <;> exact nofun
  | free hsender =>
    rw [hsender] at howners
    exact { h with
      owners := howners.free
      idle := nofun
      written := nofun
      flagged := nofun
      unsent := fun _ => h.unsent (by rw [hsender]; rfl)
      completion := fun _ => rfl
      waited := fun _ => rfl }

/-- The receiver's steps up to `dec_ref` touch nothing the sender writes. -/
theorem receiverMoves (h : c.Sound) {r : SyncReceiver} {results : List (Option α)} {n : Nat}
    (hlive : c.receiver.life = .live) (hr : r.life = .live) (hn : n ≤ c.completion)
    (hwaited : r = .completed → 0 < c.completion) (hreading : r = .reading → c.flag = true) :
    Sound { c with completion := n, results := results, receiver := r } := by
  have howners := h.owners
  rw [hlive, ← hr] at howners
  exact { h with
    owners := howners
    completion := fun hpos => h.completion (by dsimp only at hpos; omega)
    waited := fun hcompleted => h.completion (hwaited hcompleted)
    reading := hreading }

theorem stepReceiver (h : c.Sound) (hstep : c.stepReceiver = some c') : c'.Sound := by
  have howners := h.owners
  cases receiverMove_of_step hstep with
  | wait hreceiver hpos =>
    exact h.receiverMoves (by rw [hreceiver]; rfl) rfl (Nat.sub_le _ _) (fun _ => hpos) nofun
  | seeSent hreceiver hflag =>
    exact h.receiverMoves (by rw [hreceiver]; rfl) rfl (Nat.le_refl _) nofun (fun _ => hflag)
  | seeUnsent hreceiver hflag =>
    exact h.receiverMoves (by rw [hreceiver]; rfl) rfl (Nat.le_refl _) nofun nofun
  | readValue hreceiver hvalue =>
    exact h.receiverMoves (by rw [hreceiver]; rfl) rfl (Nat.le_refl _) nofun nofun
  | decRef hreceiver =>
    rw [hreceiver] at howners
    refine { h with owners := ?_, waited := ?_, reading := ?_ }
    · rw [SyncReceiver.life_decRef]
      exact howners.symm.decRef.symm
    · dsimp only
      split <;> exact nofun
    · dsimp only
      split <;> exact nofun
  | free hreceiver =>
    rw [hreceiver] at howners
    exact { h with owners := howners.symm.free.symm, waited := nofun, reading := nofun }

theorem step {a : SyncOneshotAction α} (h : c.Sound) (hstep : c.step a = some c') : c'.Sound := by
  cases a with
  | send v =>
    obtain ⟨hsender, ⟨⟩⟩ := Option.ite_none_right_eq_some.mp hstep
    exact h.send hsender
  | dropSender =>
    obtain ⟨hsender, ⟨⟩⟩ := Option.ite_none_right_eq_some.mp hstep
    exact h.dropSender hsender
  | sender => exact h.stepSender hstep
  | recv =>
    obtain ⟨hreceiver, ⟨⟩⟩ := Option.ite_none_right_eq_some.mp hstep
    exact h.receiverMoves (by rw [hreceiver]; rfl) rfl (Nat.le_refl _) nofun nofun
  | recvTimeout =>
    obtain ⟨hreceiver, ⟨⟩⟩ := Option.ite_none_right_eq_some.mp hstep
    exact h.receiverMoves (by rw [hreceiver]; rfl) rfl (Nat.le_refl _) nofun nofun
  | timeout =>
    obtain ⟨⟨hreceiver, -⟩, ⟨⟩⟩ := Option.ite_none_right_eq_some.mp hstep
    exact h.receiverMoves (by rw [hreceiver]; rfl) rfl (Nat.le_refl _) nofun nofun
  | dropReceiver =>
    obtain ⟨hreceiver, ⟨⟩⟩ := Option.ite_none_right_eq_some.mp hstep
    exact h.receiverMoves (by rw [hreceiver]; rfl) rfl (Nat.le_refl _) nofun nofun
  | receiver => exact h.stepReceiver hstep

end Sound

end SyncOneshot

end Rko
