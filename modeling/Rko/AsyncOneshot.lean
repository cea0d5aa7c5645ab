import Rko.GuardedRun
import Rko.OneshotShared

namespace Rko

open GuardedRun

inductive OneshotState
  | empty | sent | closed
deriving DecidableEq, Repr

/-- Where the sender is in `send` or in its `drop`. `taking w` has read the waker cell and is about
to write `None` to it, `taken w` is about to wake what it took. -/
inductive OneshotSender (W : Type)
  | idle
  | written
  | stored
  | taking (w : Option W)
  | taken (w : Option W)
  | releasing
  | freeing
  | done
deriving DecidableEq, Repr

/-- Where the receiver is. A poll stores its waker in three parts: it has read the old waker in
`replacing`, has written the new one in `dropping`, and `checking` is before the second load.
After `ready` it is not polled again. -/
inductive OneshotReceiver (W : Type)
  | idle
  | storing (w : W)
  | replacing (w : W) (old : Option W)
  | dropping (w : W) (old : Option W)
  | checking (w : W)
  | reading
  | ready
  | freeing
  | done
deriving DecidableEq, Repr

namespace OneshotSender

variable {W : Type}

def life : OneshotSender W → HalfLife
  | freeing => .freeing
  | done => .done
  | _ => .live

theorem eq_done {s : OneshotSender W} (h : s.life = .done) : s = .done := by
  cases s with
  | done => rfl
  | _ => cases h

/-- The state was stored already, so it is not `empty` any more. -/
def hasStored : OneshotSender W → Bool
  | idle => false
  | written => false
  | _ => true

theorem life_decRef (refcount : UInt8) :
    (if refcount = 1 then freeing else done : OneshotSender W).life = .afterDecRef refcount := by
  unfold HalfLife.afterDecRef
  split <;> rfl

theorem hasStored_decRef (refcount : UInt8) :
    (if refcount = 1 then freeing else done : OneshotSender W).hasStored = true := by
  split <;> rfl

def hasTaken : OneshotSender W → Bool
  | idle => false
  | written => false
  | stored => false
  | _ => true

end OneshotSender

namespace OneshotReceiver

variable {W : Type}

def life : OneshotReceiver W → HalfLife
  | freeing => .freeing
  | done => .done
  | _ => .live

theorem life_decRef (refcount : UInt8) :
    (if refcount = 1 then freeing else done : OneshotReceiver W).life = .afterDecRef refcount := by
  unfold HalfLife.afterDecRef
  split <;> rfl

theorem eq_done {r : OneshotReceiver W} (h : r.life = .done) : r = .done := by
  cases r with
  | done => rfl
  | _ => cases h

/-- A poll is in progress or has returned `Ready`. -/
def isBusy : OneshotReceiver W → Bool
  | idle => false
  | freeing => false
  | done => false
  | _ => true

/-- A poll with this waker has written it and has not loaded the state again. -/
def hasWritten (w : W) : OneshotReceiver W → Prop
  | dropping w' _ => w' = w
  | checking w' => w' = w
  | _ => False

end OneshotReceiver

/-- An async oneshot channel. The first four fields are `Inner`, `freed` counts how often it was
freed. The rest is history: the values passed to `send`, what the polls that were ready returned,
the values whose destructor ran, the waker of the last poll if that returned `Pending`, and the
wakers stored, woken and dropped. -/
structure AsyncOneshot (α W : Type) where
  value : Option α
  waker : Option W
  state : OneshotState
  refcount : UInt8
  freed : Nat
  sender : OneshotSender W
  receiver : OneshotReceiver W
  sent : List α
  results : List (Option α)
  destroyed : List α
  pending : Option W
  stored : List W
  woken : List W
  dropped : List W
deriving DecidableEq, Repr

/-- `send`, `dropSender`, `poll` and `dropReceiver` begin a call; `sender` and `receiver` take the
next step of the call in progress. -/
inductive OneshotAction (α W : Type)
  | send (v : α)
  | dropSender
  | sender
  | poll (w : W)
  | dropReceiver
  | receiver
deriving DecidableEq, Repr

namespace AsyncOneshot

variable {α W : Type}

def channel : AsyncOneshot α W where
  value := none
  waker := none
  state := .empty
  refcount := 2
  freed := 0
  sender := .idle
  receiver := .idle
  sent := []
  results := []
  destroyed := []
  pending := none
  stored := []
  woken := []
  dropped := []

/-- Dropping `Inner` drops the waker in it. -/
def free (c : AsyncOneshot α W) : AsyncOneshot α W :=
  { c with
    freed := c.freed + 1
    waker := none
    dropped := c.dropped ++ c.waker.toList
    destroyed := c.destroyed ++ MaybeUninit.destroyed c.value }

def send (c : AsyncOneshot α W) (v : α) : Option (AsyncOneshot α W) :=
  match c.sender with
  | .idle => some { c with value := some v, sent := c.sent ++ [v], sender := .written }
  | _ => none

def dropSender (c : AsyncOneshot α W) : Option (AsyncOneshot α W) :=
  match c.sender with
  | .idle => some { c with state := .closed, sender := .stored }
  | _ => none

/-- The steps of `send` and of the sender's `drop` after their first, through `wake` and
`dec_ref`. -/
def stepSender (c : AsyncOneshot α W) : Option (AsyncOneshot α W) :=
  match c.sender with
  | .written => some { c with state := .sent, sender := .stored }
  | .stored => some { c with sender := .taking c.waker }
  | .taking w => some { c with waker := none, sender := .taken w }
  | .taken w => some { c with woken := c.woken ++ w.toList, sender := .releasing }
  | .releasing =>
    some { c with
      refcount := c.refcount - 1
      sender := if c.refcount = 1 then .freeing else .done }
  | .freeing => some { c.free with sender := .done }
  | _ => none

/-- A poll up to its first load. -/
def poll (c : AsyncOneshot α W) (w : W) : Option (AsyncOneshot α W) :=
  match c.receiver, c.state with
  | .idle, .sent => some { c with receiver := .reading, pending := none }
  | .idle, .closed =>
    some { c with receiver := .ready, results := c.results ++ [none], pending := none }
  | .idle, .empty => some { c with receiver := .storing w, pending := none }
  | _, _ => none

def dropReceiver (c : AsyncOneshot α W) : AsyncOneshot α W :=
  { c with
    refcount := c.refcount - 1
    receiver := if c.refcount = 1 then .freeing else .done }

def recheck (c : AsyncOneshot α W) (w : W) : AsyncOneshot α W :=
  match c.state with
  | .sent => { c with receiver := .reading }
  | .closed => { c with receiver := .ready, results := c.results ++ [none] }
  | .empty => { c with receiver := .idle, pending := some w }

def stepReceiver (c : AsyncOneshot α W) : Option (AsyncOneshot α W) :=
  match c.receiver with
  | .storing w => some { c with receiver := .replacing w c.waker }
  | .replacing w old =>
    some { c with waker := some w, stored := c.stored ++ [w], receiver := .dropping w old }
  | .dropping w old => some { c with dropped := c.dropped ++ old.toList, receiver := .checking w }
  | .checking w => some (c.recheck w)
  | .reading =>
    c.value.map fun v => { c with results := c.results ++ [some v], receiver := .ready }
  | .freeing => some { c.free with receiver := .done }
  | _ => none

def step (c : AsyncOneshot α W) : OneshotAction α W → Option (AsyncOneshot α W)
  | .send v => c.send v
  | .dropSender => c.dropSender
  | .sender => c.stepSender
  | .poll w => c.poll w
  | .dropReceiver =>
    match c.receiver with
    | .idle => some c.dropReceiver
    | .ready => some c.dropReceiver
    | _ => none
  | .receiver => c.stepReceiver

/-- Everything the next step of a `send` or of the sender's `drop` can do. -/
inductive SenderMove (c : AsyncOneshot α W) : AsyncOneshot α W → Prop
  | store (hsender : c.sender = .written) : SenderMove c { c with state := .sent, sender := .stored }
  | readCell (hsender : c.sender = .stored) : SenderMove c { c with sender := .taking c.waker }
  | clearCell {w : Option W} (hsender : c.sender = .taking w) :
    SenderMove c { c with waker := none, sender := .taken w }
  | wake {w : Option W} (hsender : c.sender = .taken w) :
    SenderMove c { c with woken := c.woken ++ w.toList, sender := .releasing }
  | decRef (hsender : c.sender = .releasing) :
    SenderMove c { c with
      refcount := c.refcount - 1
      sender := if c.refcount = 1 then .freeing else .done }
  | free (hsender : c.sender = .freeing) : SenderMove c { c.free with sender := .done }

theorem senderMove_of_step {c c' : AsyncOneshot α W} (h : c.stepSender = some c') :
    SenderMove c c' := by
  unfold stepSender at h
  split at h
  next hsender =>
    cases h
    exact .store hsender
  next hsender =>
    cases h
    exact .readCell hsender
  next w hsender =>
    cases h
    exact .clearCell hsender
  next w hsender =>
    cases h
    exact .wake hsender
  next hsender =>
    cases h
    exact .decRef hsender
  next hsender =>
    cases h
    exact .free hsender
  next => cases h

/-- Everything the next step of a poll or of the receiver's `drop` can do. -/
inductive ReceiverMove (c : AsyncOneshot α W) : AsyncOneshot α W → Prop
  | readCell {w : W} (hreceiver : c.receiver = .storing w) :
    ReceiverMove c { c with receiver := .replacing w c.waker }
  | writeCell {w : W} {old : Option W} (hreceiver : c.receiver = .replacing w old) :
    ReceiverMove c { c with
      waker := some w, stored := c.stored ++ [w], receiver := .dropping w old }
  | dropOld {w : W} {old : Option W} (hreceiver : c.receiver = .dropping w old) :
    ReceiverMove c { c with dropped := c.dropped ++ old.toList, receiver := .checking w }
  | recheck {w : W} (hreceiver : c.receiver = .checking w) : ReceiverMove c (c.recheck w)
  | readValue {v : α} (hreceiver : c.receiver = .reading) (hvalue : c.value = some v) :
    ReceiverMove c { c with results := c.results ++ [some v], receiver := .ready }
  | free (hreceiver : c.receiver = .freeing) : ReceiverMove c { c.free with receiver := .done }

theorem receiverMove_of_step {c c' : AsyncOneshot α W} (h : c.stepReceiver = some c') :
    ReceiverMove c c' := by
  unfold stepReceiver at h
  split at h
  next w hreceiver =>
    cases h
    exact .readCell hreceiver
  next w old hreceiver =>
    cases h
    exact .writeCell hreceiver
  next w old hreceiver =>
    cases h
    exact .dropOld hreceiver
  next w hreceiver =>
    cases h
    exact .recheck hreceiver
  next hreceiver =>
    obtain ⟨v, hvalue, rfl⟩ := Option.map_eq_some_iff.mp h
    exact .readValue hreceiver hvalue
  next hreceiver =>
    cases h
    exact .free hreceiver
  next => cases h

/-- Everything a poll can do up to its first load. -/
inductive PollMove (c : AsyncOneshot α W) (w : W) : AsyncOneshot α W → Prop
  | sent (hreceiver : c.receiver = .idle) (hstate : c.state = .sent) :
    PollMove c w { c with receiver := .reading, pending := none }
  | closed (hreceiver : c.receiver = .idle) (hstate : c.state = .closed) :
    PollMove c w { c with receiver := .ready, results := c.results ++ [none], pending := none }
  | empty (hreceiver : c.receiver = .idle) (hstate : c.state = .empty) :
    PollMove c w { c with receiver := .storing w, pending := none }

theorem pollMove_of_step {c c' : AsyncOneshot α W} {w : W} (h : c.poll w = some c') :
    PollMove c w c' := by
  unfold poll at h
  split at h
  next hreceiver hstate =>
    cases h
    exact .sent hreceiver hstate
  next hreceiver hstate =>
    cases h
    exact .closed hreceiver hstate
  next hreceiver hstate =>
    cases h
    exact .empty hreceiver hstate
  next => cases h

/-- Everything a step can do. -/
inductive Transition (c : AsyncOneshot α W) : OneshotAction α W → AsyncOneshot α W → Prop
  | send (v : α) (hsender : c.sender = .idle) :
    Transition c (.send v) { c with value := some v, sent := c.sent ++ [v], sender := .written }
  | dropSender (hsender : c.sender = .idle) :
    Transition c .dropSender { c with state := .closed, sender := .stored }
  | sender {c' : AsyncOneshot α W} (hmove : SenderMove c c') : Transition c .sender c'
  | poll {w : W} {c' : AsyncOneshot α W} (hmove : PollMove c w c') : Transition c (.poll w) c'
  | dropReceiver (hreceiver : c.receiver = .idle ∨ c.receiver = .ready) :
    Transition c .dropReceiver c.dropReceiver
  | receiver {c' : AsyncOneshot α W} (hmove : ReceiverMove c c') : Transition c .receiver c'

theorem transition_of_step {c c' : AsyncOneshot α W} {a : OneshotAction α W}
    (h : c.step a = some c') : Transition c a c' := by
  cases a with
  | send v =>
    simp only [step, AsyncOneshot.send] at h
    split at h
    next hsender =>
      cases h
      exact .send v hsender
    next => cases h
  | dropSender =>
    simp only [step, AsyncOneshot.dropSender] at h
    split at h
    next hsender =>
      cases h
      exact .dropSender hsender
    next => cases h
  | sender => exact .sender (senderMove_of_step h)
  | poll w => exact .poll (pollMove_of_step h)
  | dropReceiver =>
    simp only [step] at h
    split at h
    next hreceiver =>
      cases h
      exact .dropReceiver (Or.inl hreceiver)
    next hreceiver =>
      cases h
      exact .dropReceiver (Or.inr hreceiver)
    next => cases h
  | receiver => exact .receiver (receiverMove_of_step h)

/-- The waker is in the cell for the sender to find, on its way from there, or was woken. -/
def Reaches (c : AsyncOneshot α W) (w : W) : Prop :=
  (c.waker = some w ∧ c.sender.hasTaken = false) ∨ c.sender = .taking (some w) ∨
    c.sender = .taken (some w) ∨ w ∈ c.woken

structure Sound (c : AsyncOneshot α W) : Prop where
  owners : TwoOwners c.refcount c.freed c.sender.life c.receiver.life
  state : c.state = .empty ↔ c.sender.hasStored = false
  sent : c.sent = c.value.toList
  unwritten : c.sender = .idle ∨ c.state = .closed → c.value = none
  written : c.sender = .written ∨ c.state = .sent → c.value ≠ none
  reading : c.receiver = .reading → c.state = .sent
  returned : ∀ {v}, some v ∈ c.results → v ∈ c.sent
  closed : none ∈ c.results → c.state = .closed
  between : c.pending ≠ none → c.receiver.isBusy = false
  cell : ∀ {w}, c.receiver.hasWritten w → c.state = .empty → c.waker = some w
  reaches : ∀ {w}, c.pending = some w → c.Reaches w

namespace Sound

variable {c c' : AsyncOneshot α W}

theorem channel : Sound (AsyncOneshot.channel : AsyncOneshot α W) := by
  refine ⟨TwoOwners.new, ?_, rfl, fun _ => rfl, ?_, ?_, ?_, ?_, ?_, ?_, ?_⟩ <;>
    simp [AsyncOneshot.channel, OneshotSender.hasStored, OneshotReceiver.hasWritten]

theorem send (h : c.Sound) {v : α} (hsender : c.sender = .idle) :
    Sound { c with value := some v, sent := c.sent ++ [v], sender := .written } := by
  have hvalue := h.unwritten (Or.inl hsender)
  have hsent := h.sent
  rw [hvalue] at hsent
  have hempty : c.state = .empty := h.state.mpr (by rw [hsender]; rfl)
  have howners := h.owners
  rw [hsender] at howners
  refine ⟨howners, ?_, ?_, ?_, fun _ => by simp, h.reading, ?_, h.closed, h.between,
    h.cell, ?_⟩
  · simp [hempty, OneshotSender.hasStored]
  · simp [hsent]
  · rintro (hidle | hclosed)
    · cases hidle
    · rw [hempty] at hclosed
      cases hclosed
  · intro v hv
    exact List.mem_append_left _ (h.returned hv)
  · intro w hw
    rcases h.reaches hw with ⟨hcell, -⟩ | htaking | htaken | hwoken
    · exact Or.inl ⟨hcell, rfl⟩
    · rw [hsender] at htaking
      cases htaking
    · rw [hsender] at htaken
      cases htaken
    · exact Or.inr (Or.inr (Or.inr hwoken))

/-- The step that takes the state away from `empty`. -/
theorem store (h : c.Sound) (hbefore : c.sender.hasStored = false) {st : OneshotState}
    (hsent : st = .sent → c.value ≠ none) (hclosed : st = .closed → c.value = none)
    (hst : st ≠ .empty) : Sound { c with state := st, sender := .stored } := by
  have hempty := h.state.mpr hbefore
  have hlive : c.sender.life = .live := by
    cases hsender : c.sender <;> simp_all [OneshotSender.hasStored, OneshotSender.life]
  have howners := h.owners
  rw [hlive] at howners
  refine ⟨howners, ?_, h.sent, ?_, ?_, ?_, h.returned, ?_, h.between, fun _ hst' => absurd hst' hst, ?_⟩
  · simp [hst, OneshotSender.hasStored]
  · rintro (hidle | hcl)
    · cases hidle
    · exact hclosed hcl
  · rintro (hwritten | hse)
    · cases hwritten
    · exact hsent hse
  · intro hreading
    have hstate := h.reading hreading
    rw [hempty] at hstate
    cases hstate
  · intro hnone
    have hstate := h.closed hnone
    rw [hempty] at hstate
    cases hstate
  · intro w hw
    rcases h.reaches hw with ⟨hcell, -⟩ | htaking | htaken | hwoken
    · exact Or.inl ⟨hcell, rfl⟩
    · rw [htaking] at hbefore
      cases hbefore
    · rw [htaken] at hbefore
      cases hbefore
    · exact Or.inr (Or.inr (Or.inr hwoken))

/-- The later steps of the sender do not touch the value or the state. -/
theorem senderMoves (h : c.Sound) (hbefore : c.sender.hasStored = true)
    (hafter : c'.sender.hasStored = true) (hvalue : c'.value = c.value) (hstate : c'.state = c.state)
    (hsent : c'.sent = c.sent) (hreceiver : c'.receiver = c.receiver)
    (hresults : c'.results = c.results) (hpending : c'.pending = c.pending)
    (howners : TwoOwners c'.refcount c'.freed c'.sender.life c'.receiver.life)
    (hreaches : ∀ w, c.Reaches w → c'.Reaches w) : c'.Sound := by
  refine ⟨howners, ?_, ?_, ?_, ?_, ?_, ?_, ?_, ?_, ?_, ?_⟩
  · rw [hstate, hafter, ← hbefore]
    exact h.state
  · rw [hsent, hvalue]
    exact h.sent
  · rw [hvalue, hstate]
    rintro (hidle | hclosed)
    · rw [hidle] at hafter
      cases hafter
    · exact h.unwritten (Or.inr hclosed)
  · rw [hvalue, hstate]
    rintro (hwritten | hse)
    · rw [hwritten] at hafter
      cases hafter
    · exact h.written (Or.inr hse)
  · rw [hreceiver, hstate]
    exact h.reading
  · rw [hresults, hsent]
    exact h.returned
  · rw [hresults, hstate]
    exact h.closed
  · rw [hpending, hreceiver]
    exact h.between
  · intro w _ hempty
    rw [hstate, h.state, hbefore] at hempty
    cases hempty
  · intro w hw
    rw [hpending] at hw
    exact hreaches w (h.reaches hw)

theorem stepSender (h : c.Sound) (hmove : SenderMove c c') : c'.Sound := by
  have howners := h.owners
  cases hmove with
  | store hsender =>
    exact h.store (by rw [hsender]; rfl) (fun _ => h.written (Or.inl hsender)) nofun nofun
  | readCell hsender =>
    rw [hsender] at howners
    refine h.senderMoves (by rw [hsender]; rfl) rfl rfl rfl rfl rfl rfl rfl howners fun w hw => ?_
    have hplace : c.waker = some w ∨ w ∈ c.woken := by
      simpa [Reaches, hsender, OneshotSender.hasTaken] using hw
    rcases hplace with hcell | hwoken
    · exact Or.inr (Or.inl (by rw [hcell]))
    · exact Or.inr (Or.inr (Or.inr hwoken))
  | @clearCell x hsender =>
    rw [hsender] at howners
    refine h.senderMoves (by rw [hsender]; rfl) rfl rfl rfl rfl rfl rfl rfl howners fun w hw => ?_
    have hplace : x = some w ∨ w ∈ c.woken := by
      simpa [Reaches, hsender, OneshotSender.hasTaken] using hw
    rcases hplace with rfl | hwoken
    · exact Or.inr (Or.inr (Or.inl rfl))
    · exact Or.inr (Or.inr (Or.inr hwoken))
  | @wake x hsender =>
    rw [hsender] at howners
    refine h.senderMoves (by rw [hsender]; rfl) rfl rfl rfl rfl rfl rfl rfl howners fun w hw => ?_
    have hplace : x = some w ∨ w ∈ c.woken := by
      simpa [Reaches, hsender, OneshotSender.hasTaken] using hw
    rcases hplace with rfl | hwoken
    · exact Or.inr (Or.inr (Or.inr (List.mem_append_right _ (List.mem_singleton_self w))))
    · exact Or.inr (Or.inr (Or.inr (List.mem_append_left _ hwoken)))
  | decRef hsender =>
    rw [hsender] at howners
    refine h.senderMoves (by rw [hsender]; rfl) (OneshotSender.hasStored_decRef _) rfl rfl rfl rfl rfl rfl ?_ ?_
    · rw [OneshotSender.life_decRef]
      exact howners.decRef
    · intro w hw
      have hwoken : w ∈ c.woken := by simpa [Reaches, hsender, OneshotSender.hasTaken] using hw
      exact Or.inr (Or.inr (Or.inr hwoken))
  | free hsender =>
    rw [hsender] at howners
    refine h.senderMoves (by rw [hsender]; rfl) rfl rfl rfl rfl rfl rfl rfl howners.free ?_
    intro w hw
    have hwoken : w ∈ c.woken := by simpa [Reaches, hsender, OneshotSender.hasTaken] using hw
    exact Or.inr (Or.inr (Or.inr hwoken))

/-- The steps of a poll do not touch the value or the state. -/
theorem pollMoves (h : c.Sound) (hvalue : c'.value = c.value) (hstate : c'.state = c.state)
    (hsent : c'.sent = c.sent) (hsender : c'.sender = c.sender) (hpending : c'.pending = none)
    (howners : TwoOwners c'.refcount c'.freed c'.sender.life c'.receiver.life)
    (hreading : c'.receiver = .reading → c.state = .sent)
    (hresults : ∀ r ∈ c'.results, r ∈ c.results ∨ r = none ∧ c.state = .closed ∨
      ∃ v ∈ c.sent, r = some v)
    (hcell : ∀ w, c'.receiver.hasWritten w → c.state = .empty → c'.waker = some w) : c'.Sound := by
  refine ⟨howners, ?_, ?_, ?_, ?_, ?_, ?_, ?_, ?_, ?_, ?_⟩
  · rw [hstate, hsender]
    exact h.state
  · rw [hsent, hvalue]
    exact h.sent
  · rw [hvalue, hstate, hsender]
    exact h.unwritten
  · rw [hvalue, hstate, hsender]
    exact h.written
  · rw [hstate]
    exact hreading
  · intro v hv
    rw [hsent]
    rcases hresults _ hv with hold | ⟨hnone, -⟩ | ⟨u, hu, heq⟩
    · exact h.returned hold
    · cases hnone
    · cases heq
      exact hu
  · intro hnone
    rw [hstate]
    rcases hresults _ hnone with hold | ⟨-, hclosed⟩ | ⟨u, -, heq⟩
    · exact h.closed hold
    · exact hclosed
    · cases heq
  · rw [hpending]
    exact fun hne => absurd rfl hne
  · rw [hstate]
    exact hcell _
  · rw [hpending]
    exact nofun

theorem poll (h : c.Sound) {w : W} (hmove : PollMove c w c') : c'.Sound := by
  have howners := h.owners
  cases hmove with
  | sent hreceiver hsent =>
    rw [hreceiver] at howners
    exact h.pollMoves rfl rfl rfl rfl rfl howners (fun _ => hsent) (fun r hr => Or.inl hr) nofun
  | closed hreceiver hclosed =>
    rw [hreceiver] at howners
    refine h.pollMoves rfl rfl rfl rfl rfl howners nofun (fun r hr => ?_) nofun
    rcases List.mem_append.mp hr with hold | hnew
    · exact Or.inl hold
    · exact Or.inr (Or.inl ⟨List.mem_singleton.mp hnew, hclosed⟩)
  | empty hreceiver hempty =>
    rw [hreceiver] at howners
    exact h.pollMoves rfl rfl rfl rfl rfl howners nofun (fun r hr => Or.inl hr) nofun

theorem pending_none (h : c.Sound) (hbusy : c.receiver.isBusy = true) : c.pending = none := by
  by_contra hne
  rw [h.between hne] at hbusy
  cases hbusy

/-- The second load of a poll; it finds `empty` only if the sender has not come to the cell yet. -/
theorem recheck (h : c.Sound) {w : W} (hreceiver : c.receiver = .checking w) :
    (c.recheck w).Sound := by
  have howners := h.owners
  have hnone := h.pending_none (by rw [hreceiver]; rfl)
  rw [hreceiver] at howners
  unfold AsyncOneshot.recheck
  split
  next hsent =>
    exact h.pollMoves rfl rfl rfl rfl hnone howners (fun _ => hsent) (fun r hr => Or.inl hr) nofun
  next hclosed =>
    refine h.pollMoves rfl rfl rfl rfl hnone howners nofun (fun r hr => ?_) nofun
    rcases List.mem_append.mp hr with hold | hnew
    · exact Or.inl hold
    · exact Or.inr (Or.inl ⟨List.mem_singleton.mp hnew, hclosed⟩)
  next hempty =>
    have hcell : c.waker = some w := h.cell (by rw [hreceiver]; rfl) hempty
    have hbefore : c.sender.hasTaken = false := by
      have hstored := h.state.mp hempty
      cases hsender : c.sender <;> simp_all [OneshotSender.hasStored, OneshotSender.hasTaken]
    refine { h with
      owners := howners, reading := nofun, between := fun _ => rfl, cell := nofun, reaches := ?_ }
    intro w' hw'
    cases hw'
    exact Or.inl ⟨hcell, hbefore⟩

theorem stepReceiver (h : c.Sound) (hmove : ReceiverMove c c') : c'.Sound := by
  have howners := h.owners
  cases hmove with
  | readCell hreceiver =>
    rw [hreceiver] at howners
    exact h.pollMoves rfl rfl rfl rfl (h.pending_none (by rw [hreceiver]; rfl)) howners nofun
      (fun r hr => Or.inl hr) nofun
  | writeCell hreceiver =>
    rw [hreceiver] at howners
    refine h.pollMoves rfl rfl rfl rfl (h.pending_none (by rw [hreceiver]; rfl)) howners nofun
      (fun r hr => Or.inl hr) fun w' hw' _ => ?_
    exact congrArg some hw'
  | dropOld hreceiver =>
    rw [hreceiver] at howners
    refine h.pollMoves rfl rfl rfl rfl (h.pending_none (by rw [hreceiver]; rfl)) howners nofun
      (fun r hr => Or.inl hr) fun w' hw' hempty => ?_
    exact h.cell (by rw [hreceiver]; exact hw') hempty
  | recheck hreceiver =>
    exact h.recheck hreceiver
  | readValue hreceiver hvalue =>
    rw [hreceiver] at howners
    refine h.pollMoves rfl rfl rfl rfl (h.pending_none (by rw [hreceiver]; rfl)) howners nofun
      (fun r hr => ?_) nofun
    rcases List.mem_append.mp hr with hold | hnew
    · exact Or.inl hold
    · exact Or.inr (Or.inr ⟨_, by rw [h.sent, hvalue]; exact List.mem_singleton_self _,
        List.mem_singleton.mp hnew⟩)
  | free hreceiver =>
    rw [hreceiver] at howners
    have hdone : c.sender.hasTaken = true := by
      have hlife := howners.freeing' rfl
      cases hsender : c.sender <;> simp_all [OneshotSender.life, OneshotSender.hasTaken]
    refine { h with
      owners := howners.symm.free.symm, reading := nofun, between := fun _ => rfl, cell := nofun
      reaches := ?_ }
    intro w hw
    rcases h.reaches hw with ⟨-, hbefore⟩ | hlater
    · rw [hdone] at hbefore
      cases hbefore
    · exact Or.inr hlater

theorem dropReceiver (h : c.Sound) (hreceiver : c.receiver = .idle ∨ c.receiver = .ready) :
    c.dropReceiver.Sound := by
  have hlive : c.receiver.life = .live := by
    rcases hreceiver with hidle | hready
    · rw [hidle]
      rfl
    · rw [hready]
      rfl
  have howners := h.owners
  rw [hlive] at howners
  refine { h with owners := ?_, reading := ?_, between := fun _ => ?_, cell := ?_ }
  · rw [AsyncOneshot.dropReceiver, OneshotReceiver.life_decRef]
    exact howners.symm.decRef.symm
  · unfold AsyncOneshot.dropReceiver
    split <;> exact nofun
  · unfold AsyncOneshot.dropReceiver
    split <;> rfl
  · intro w
    unfold AsyncOneshot.dropReceiver
    split <;> exact nofun

theorem step {a : OneshotAction α W} (h : c.Sound) (hstep : c.step a = some c') : c'.Sound := by
  cases transition_of_step hstep with
  | send v hsender => exact h.send hsender
  | dropSender hsender =>
    exact h.store (by rw [hsender]; rfl) nofun (fun _ => h.unwritten (Or.inl hsender)) nofun
  | sender hmove => exact h.stepSender hmove
  | poll hmove => exact h.poll hmove
  | dropReceiver hreceiver => exact h.dropReceiver hreceiver
  | receiver hmove => exact h.stepReceiver hmove

theorem reachable {as : List (OneshotAction α W)}
    (hrun : run AsyncOneshot.step AsyncOneshot.channel as = some c) : c.Sound :=
  run_invariant (fun h _ hstep => h.step hstep) channel
    (guarded_of_forall (P := fun _ => True) (fun _ _ => trivial) _) hrun

end Sound

/-- What the channel promises its users: a ready poll returns what was sent, or `None` after a drop
without a send; the waker of a pending poll is woken by the time the sender has gone; and `Inner` is
freed once, when neither half has a step left that could access it. -/
structure Delivered (c : AsyncOneshot α W) : Prop where
  some_sent : ∀ {v}, some v ∈ c.results → v ∈ c.sent
  none_closed : none ∈ c.results → c.state = .closed ∧ c.sent = []
  initialised : c.receiver = .reading → c.value ≠ none
  woken : ∀ {w}, c.pending = some w → c.sender = .done → w ∈ c.woken
  freed_once : c.freed ≤ 1
  freed_of_done : c.sender = .done → c.receiver = .done → c.freed = 1
  freed_last : 0 < c.freed → c.sender = .done ∧ c.receiver = .done ∧ ∀ a, c.step a = none

theorem step_done {c : AsyncOneshot α W} (hsender : c.sender = .done) (hreceiver : c.receiver = .done)
    (a : OneshotAction α W) : c.step a = none := by
  cases a <;> simp [step, send, dropSender, stepSender, poll, stepReceiver, hsender, hreceiver]

theorem Sound.step_freed {c : AsyncOneshot α W} (h : c.Sound) (hpos : 0 < c.freed)
    (a : OneshotAction α W) : c.step a = none := by
  obtain ⟨hsender, hreceiver⟩ := h.owners.done_of_freed hpos
  exact step_done (OneshotSender.eq_done hsender) (OneshotReceiver.eq_done hreceiver) a

theorem delivered_of_run {c : AsyncOneshot α W} {as : List (OneshotAction α W)}
    (hrun : run step channel as = some c) : c.Delivered := by
  have h := Sound.reachable hrun
  refine ⟨h.returned, ?_, ?_, ?_, h.owners.freed_le_one, ?_, ?_⟩
  · intro hnone
    have hclosed := h.closed hnone
    have hsent := h.sent
    rw [h.unwritten (Or.inr hclosed)] at hsent
    exact ⟨hclosed, hsent⟩
  · intro hreading
    exact h.written (Or.inr (h.reading hreading))
  · intro w hw hsender
    rcases h.reaches hw with ⟨-, hbefore⟩ | htaking | htaken | hwoken
    · rw [hsender] at hbefore
      cases hbefore
    · rw [hsender] at htaking
      cases htaking
    · rw [hsender] at htaken
      cases htaken
    · exact hwoken
  · intro hsender hreceiver
    have howners := h.owners
    rw [hsender, hreceiver] at howners
    exact howners.freed_of_done
  · intro hpos
    obtain ⟨hsender, hreceiver⟩ := h.owners.done_of_freed hpos
    exact ⟨OneshotSender.eq_done hsender, OneshotReceiver.eq_done hreceiver, h.step_freed hpos⟩

/-- Two polls that find nothing, a send, and the poll it wakes. -/
def pollSendPoll : List (OneshotAction Nat Nat) :=
  [.poll 1, .receiver, .receiver, .receiver, .receiver, .poll 2, .receiver, .receiver, .receiver,
    .receiver, .send 7, .sender, .sender, .sender, .sender, .sender, .poll 2, .receiver,
    .dropReceiver, .receiver]

theorem delivered_of_pollSendPoll :
    ∃ c, run step channel pollSendPoll = some c ∧ c.results = [some 7] ∧ c.woken = [2] ∧
      c.freed = 1 ∧ c.Delivered :=
  ⟨_, rfl, rfl, rfl, rfl, delivered_of_run (show run step channel pollSendPoll = _ from rfl)⟩

end AsyncOneshot

end Rko
