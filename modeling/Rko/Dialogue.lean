import Mathlib.Order.GameAdd
import Rko.GuardedRun
import Rko.Responder

namespace Dialogue

open CallProgram

/-- What a party at one end of a connection can ask for: bytes of the other side, to send bytes to
it, or something that concerns itself only. -/
inductive Call (β Own : Type)
  | read (room : Nat)
  | write (bytes : List β)
  | own (op : Own)

/-- A read returns no more than fits, a write tells how many bytes were taken. -/
@[reducible] def Call.Reply {β Own : Type} (φ : Type) (OwnReply : Own → Type) : Call β Own → Type
  | read room => Except φ { bytes : List β // bytes.length ≤ room }
  | write bytes => Except φ { n : Nat // n ≤ bytes.length }
  | own op => OwnReply op

abbrev Party (β Own φ : Type) (OwnReply : Own → Type) (ε α : Type) :=
  Program (Call β Own) (Call.Reply φ OwnReply) ε α

/-- A byte that goes out or comes in, or the end of what comes in. -/
inductive Move (β : Type)
  | send (b : β)
  | recv (b : β)
  | eof

variable {β Own φ σ ε α ε' α' : Type} {OwnReply : Own → Type}

/-- The party, with `s` for its own concerns, goes through the moves to its end however reads and
writes are cut: a read may return any number of the bytes that come in next, and a write may take
any number of those it is given. -/
def Performs (answer : Responder σ Own OwnReply) (Q : α → σ → Prop) :
    Party β Own φ OwnReply ε α → σ → List (Move β) → Prop
  | .done a, s, m => m = [] ∧ Q a s
  | .fail _, _, _ => False
  | .abort, _, _ => False
  | .call (.own op) k, s, m => Performs answer Q (k (answer s op).1) (answer s op).2 m
  | .call (.write bytes) k, s, m =>
    bytes ≠ [] ∧ bytes.map .send <+: m ∧
      ∀ n (hn : n ≤ bytes.length), 0 < n → Performs answer Q (k (.ok ⟨n, hn⟩)) s (m.drop n)
  | .call (.read room) k, s, m =>
    0 < room ∧ (m = [.eof] ∧ Performs answer Q (k (.ok ⟨[], Nat.zero_le _⟩)) s [] ∨
      (∃ b m', m = .recv b :: m') ∧
        ∀ bs (hbs : bs.length ≤ room), bs ≠ [] → ∀ m', m = bs.map .recv ++ m' →
          Performs answer Q (k (.ok ⟨bs, hbs⟩)) s m')

section Rules

variable {answer : Responder σ Own OwnReply} {Q Q' : α → σ → Prop} {R : α' → σ → Prop}
  {p : Party β Own φ OwnReply ε α} {s : σ} {m m₁ m₂ : List (Move β)}

theorem Performs.mono (hp : Performs answer Q p s m) (h : ∀ a s, Q a s → Q' a s) :
    Performs answer Q' p s m := by
  induction p generalizing s m with
  | done a => exact ⟨hp.1, h a s hp.2⟩
  | fail e => exact hp
  | abort => exact hp
  | call op k ih =>
    cases op with
    | own op => exact ih _ hp
    | write bytes =>
      obtain ⟨hne, hsend, hk⟩ := hp
      exact ⟨hne, hsend, fun n hn hpos => ih _ (hk n hn hpos)⟩
    | read room =>
      obtain ⟨hroom, ⟨hend, hk⟩ | ⟨hrecv, hk⟩⟩ := hp
      · exact ⟨hroom, Or.inl ⟨hend, ih _ hk⟩⟩
      · exact ⟨hroom, Or.inr ⟨hrecv, fun bs hbs hne m' hm => ih _ (hk bs hbs hne m' hm)⟩⟩

/-- Moves that can be cut between two parts of a program: no read of the first part runs over the
cut, and its moves do not say that the bytes are at their end. -/
def Splits (m₁ m₂ : List (Move β)) : Prop :=
  m₂ = [] ∨ .eof ∉ m₁ ∧
    ∀ b, m₁.getLast? = some (.recv b) → ∀ b', m₂.head? ≠ some (.recv b')

theorem Splits.of_suffix (h : Splits m₁ m₂) {m : List (Move β)} (hm : m <:+ m₁) : Splits m m₂ := by
  rcases h with hnil | ⟨heof, hlast⟩
  · exact Or.inl hnil
  · refine Or.inr ⟨fun hmem => heof (hm.mem hmem), fun b hb => hlast b ?_⟩
    obtain ⟨l, rfl⟩ := hm
    rw [List.getLast?_append, hb]
    rfl

theorem splits_sends (bytes : List β) (m : List (Move β)) : Splits (bytes.map .send) m := by
  refine Or.inr ⟨fun hmem => ?_, fun b hb => ?_⟩
  · obtain ⟨_, _, h⟩ := List.mem_map.mp hmem
    cases h
  · rw [List.getLast?_map] at hb
    obtain ⟨_, _, h⟩ := Option.map_eq_some_iff.mp hb
    cases h

/-- After bytes that come in, only a side that sends next may be cut off. -/
theorem splits_exchange (sent got : List β) (h : ∀ b, m.head? ≠ some (.recv b)) :
    Splits (sent.map .send ++ got.map .recv) m := by
  refine Or.inr ⟨fun hmem => ?_, fun b _ => h⟩
  rcases List.mem_append.mp hmem with hsent | hgot
  · obtain ⟨_, _, h⟩ := List.mem_map.mp hsent
    cases h
  · obtain ⟨_, _, h⟩ := List.mem_map.mp hgot
    cases h

/-- Bytes that come in next are bytes of the first part. -/
theorem Splits.cut (h : Splits m₁ m₂) (hne : m₁ ≠ []) {bs : List β} {m : List (Move β)}
    (heq : m₁ ++ m₂ = bs.map .recv ++ m) : ∃ c, m₁ = bs.map .recv ++ c ∧ m = c ++ m₂ := by
  rcases List.append_eq_append_iff.mp heq with ⟨extra, hbs, hm₂⟩ | ⟨c, hm₁, hm⟩
  · cases extra with
    | nil =>
      rw [List.append_nil] at hbs
      exact ⟨[], by rw [List.append_nil, hbs], hm₂.symm⟩
    | cons x extra =>
      obtain ⟨bs₁, bs₂, rfl, hbs₁, hbs₂⟩ := List.map_eq_append_iff.mp hbs
      obtain ⟨b', bs₃, rfl, rfl, -⟩ := List.map_eq_cons_iff.mp hbs₂
      rcases h with hnil | ⟨-, hlast⟩
      · rw [hnil] at hm₂
        cases hm₂
      · obtain ⟨b, hb⟩ : ∃ b, bs₁.getLast? = some b := by
          cases hbs₁' : bs₁.getLast? with
          | some b => exact ⟨b, rfl⟩
          | none =>
            rw [List.getLast?_eq_none_iff.mp hbs₁', List.map_nil] at hbs₁
            exact absurd hbs₁.symm hne
        refine absurd ?_ (hlast b ?_ b')
        · rw [hm₂]
          rfl
        · rw [← hbs₁, List.getLast?_map, hb]
          rfl
  · exact ⟨c, hm₁, hm⟩

theorem Performs.bind {f : α → Party β Own φ OwnReply ε α'} (hp : Performs answer Q p s m₁)
    (hf : ∀ a s', Q a s' → Performs answer R (f a) s' m₂) (hsplits : Splits m₁ m₂) :
    Performs answer R (p.bind f) s (m₁ ++ m₂) := by
  induction p generalizing s m₁ with
  | done a =>
    obtain ⟨rfl, hq⟩ := hp
    exact hf a s hq
  | fail e => exact hp.elim
  | abort => exact hp.elim
  | call op k ih =>
    cases op with
    | own op => exact ih _ hp hsplits
    | write bytes =>
      obtain ⟨hne, hsend, hk⟩ := hp
      have hlength := hsend.length_le
      rw [List.length_map] at hlength
      refine ⟨hne, hsend.trans (List.prefix_append _ _), fun n hn hpos => ?_⟩
      rw [List.drop_append_of_le_length (by omega)]
      exact ih _ (hk n hn hpos) (hsplits.of_suffix (List.drop_suffix n m₁))
    | read room =>
      obtain ⟨hroom, ⟨rfl, hk⟩ | ⟨⟨b, m, rfl⟩, hk⟩⟩ := hp
      · have hnil : m₂ = [] := hsplits.resolve_right fun h => h.1 List.mem_cons_self
        subst hnil
        exact ⟨hroom, Or.inl ⟨rfl, ih _ hk (Or.inl rfl)⟩⟩
      · refine ⟨hroom, Or.inr ⟨⟨b, m ++ m₂, rfl⟩, fun bs hbs hne m' hm' => ?_⟩⟩
        obtain ⟨c, hc, rfl⟩ := hsplits.cut (List.cons_ne_nil _ _) hm'
        exact ih _ (hk bs hbs hne c hc) (hsplits.of_suffix ⟨_, hc.symm⟩)

end Rules

/-- The moves of one side fit those of the other. -/
inductive Matches : List (Move β) → List (Move β) → Prop
  | nil : Matches [] []
  | leftEof : Matches [.eof] []
  | rightEof : Matches [] [.eof]
  | send (b : β) {m m' : List (Move β)} (h : Matches m m') :
    Matches (.send b :: m) (.recv b :: m')
  | recv (b : β) {m m' : List (Move β)} (h : Matches m m') :
    Matches (.recv b :: m) (.send b :: m')

/-- One side may be ahead of the other, by bytes it has sent and that were not read yet. -/
inductive InStep : List β → List β → List (Move β) → List (Move β) → Prop
  | left (sent : List β) {m m' : List (Move β)} (h : Matches m m') :
    InStep sent [] m (sent.map .recv ++ m')
  | right (sent : List β) {m m' : List (Move β)} (h : Matches m m') :
    InStep [] sent (sent.map .recv ++ m) m'

section Moves

variable {m m' : List (Move β)} {toRight toLeft : List β}

theorem Matches.symm (h : Matches m m') : Matches m' m := by
  induction h with
  | nil => exact .nil
  | leftEof => exact .rightEof
  | rightEof => exact .leftEof
  | send b _ ih => exact .recv b ih
  | recv b _ ih => exact .send b ih

theorem Matches.sends {bytes : List β} (h : Matches m m') (hsend : bytes.map .send <+: m) :
    ∃ m'', m' = bytes.map .recv ++ m'' ∧ Matches (m.drop bytes.length) m'' := by
  induction bytes generalizing m m' with
  | nil => exact ⟨m', rfl, h⟩
  | cons b bytes ih =>
    obtain ⟨rest, rfl⟩ := hsend
    cases h with
    | send _ hm =>
      obtain ⟨m'', rfl, hrest⟩ := ih hm (List.prefix_append _ _)
      exact ⟨m'', rfl, hrest⟩

theorem Matches.append_sends (bytes : List β) (h : Matches m m') :
    Matches (bytes.map .send ++ m) (bytes.map .recv ++ m') := by
  induction bytes with
  | nil => exact h
  | cons b bytes ih => exact .send b ih

theorem Matches.append_recvs (bytes : List β) (h : Matches m m') :
    Matches (bytes.map .recv ++ m) (bytes.map .send ++ m') := (h.symm.append_sends bytes).symm

theorem InStep.symm (h : InStep toRight toLeft m m') : InStep toLeft toRight m' m := by
  cases h with
  | left _ h => exact .right _ h.symm
  | right _ h => exact .left _ h.symm

theorem InStep.of_nil (h : InStep toRight [] m m') :
    ∃ m'', m' = toRight.map .recv ++ m'' ∧ Matches m m'' := by
  cases h with
  | left sent h => exact ⟨_, rfl, h⟩
  | right sent h => exact ⟨m', rfl, h⟩

theorem InStep.of_ne_nil (h : InStep toRight toLeft m m') (hne : toLeft ≠ []) :
    toRight = [] ∧ ∃ m'', m = toLeft.map .recv ++ m'' ∧ Matches m'' m' := by
  cases h with
  | left sent h => exact absurd rfl hne
  | right sent h => exact ⟨rfl, _, rfl, h⟩

theorem InStep.eq_nil (h : InStep toRight toLeft ([] : List (Move β)) []) :
    toRight = [] ∧ toLeft = [] := by
  have hside : ∀ {a b : List β}, InStep a b ([] : List (Move β)) [] → a = [] := by
    intro a b h
    by_contra hne
    obtain ⟨-, m, hm, -⟩ := h.symm.of_ne_nil hne
    rw [eq_comm, List.append_eq_nil_iff, List.map_eq_nil_iff] at hm
    exact hne hm.1
  exact ⟨hside h, hside h.symm⟩

end Moves

/-- Two parties with the bytes under way between them. -/
structure System (β Own φ : Type) (OwnReply : Own → Type) (σ ε α ε' α' : Type) where
  left : Party β Own φ OwnReply ε α
  right : Party β Own φ OwnReply ε' α'
  leftOwn : σ
  rightOwn : σ
  toRight : List β
  toLeft : List β

/-- Which side goes on, and how many bytes it reads or writes, as far as they are there or have
room. -/
inductive Action
  | left (n : Nat)
  | right (n : Nat)

def isDone : Party β Own φ OwnReply ε α → Bool
  | .done _ => true
  | _ => false

/-- A party that waits for bytes goes on when there are some, or when the other side has come to its
end; one that writes when fewer than `window` bytes are under way. -/
def advance (answer : Responder σ Own OwnReply) (window : Nat) (peerDone : Bool) (n : Nat) :
    Party β Own φ OwnReply ε α → σ → List β → List β →
      Option (Party β Own φ OwnReply ε α × σ × List β × List β)
  | .call (.own op) k, s, inbox, outbox =>
    some (k (answer s op).1, (answer s op).2, inbox, outbox)
  | .call (.write bytes) k, s, inbox, outbox =>
    if window ≤ outbox.length then none
    else some (k (.ok ⟨min (min (max 1 n) (window - outbox.length)) bytes.length,
        Nat.min_le_right _ _⟩), s, inbox,
      outbox ++ bytes.take (min (min (max 1 n) (window - outbox.length)) bytes.length))
  | .call (.read room) k, s, inbox, outbox =>
    if inbox = [] then
      if peerDone then some (k (.ok ⟨[], Nat.zero_le _⟩), s, [], outbox) else none
    else some (k (.ok ⟨inbox.take (min (max 1 n) room),
        (List.length_take_le _ _).trans (Nat.min_le_right _ _)⟩), s,
      inbox.drop (min (max 1 n) room), outbox)
  | .done _, _, _, _ => none
  | .fail _, _, _, _ => none
  | .abort, _, _, _ => none

namespace System

def swap (x : System β Own φ OwnReply σ ε α ε' α') : System β Own φ OwnReply σ ε' α' ε α :=
  ⟨x.right, x.left, x.rightOwn, x.leftOwn, x.toLeft, x.toRight⟩

def stepLeft (answer : Responder σ Own OwnReply) (window : Nat)
    (x : System β Own φ OwnReply σ ε α ε' α') (n : Nat) :
    Option (System β Own φ OwnReply σ ε α ε' α') :=
  (advance answer window (isDone x.right) n x.left x.leftOwn x.toLeft x.toRight).map
    fun y => { x with left := y.1, leftOwn := y.2.1, toLeft := y.2.2.1, toRight := y.2.2.2 }

def step (answer : Responder σ Own OwnReply) (window : Nat)
    (x : System β Own φ OwnReply σ ε α ε' α') :
    Action → Option (System β Own φ OwnReply σ ε α ε' α')
  | .left n => x.stepLeft answer window n
  | .right n => (x.swap.stepLeft answer window n).map swap

end System

section Runs

variable {answer : Responder σ Own OwnReply} {window : Nat} {Q : α → σ → Prop}
  {R : α' → σ → Prop} {x x' : System β Own φ OwnReply σ ε α ε' α'}

/-- Both parties still go through moves that fit. -/
def Converses (answer : Responder σ Own OwnReply) (Q : α → σ → Prop) (R : α' → σ → Prop)
    (x : System β Own φ OwnReply σ ε α ε' α') : Prop :=
  ∃ m m', Performs answer Q x.left x.leftOwn m ∧ Performs answer R x.right x.rightOwn m' ∧
    InStep x.toRight x.toLeft m m'

theorem Converses.swap (h : Converses answer Q R x) : Converses answer R Q x.swap := by
  obtain ⟨m, m', hleft, hright, hsteps⟩ := h
  exact ⟨m', m, hright, hleft, hsteps.symm⟩

theorem moves_of_isDone {p : Party β Own φ OwnReply ε α} {s : σ} {m : List (Move β)}
    (hp : Performs answer Q p s m) (hdone : isDone p = true) : m = [] := by
  cases p with
  | done a => exact hp.1
  | fail e => cases hdone
  | abort => cases hdone
  | call op k => cases hdone

/-- Who sends next has read all that was sent to it. -/
theorem InStep.nil_of_sends {m m' : List (Move β)} {toRight toLeft bytes : List β}
    (h : InStep toRight toLeft m m') (hne : bytes ≠ []) (hsend : bytes.map .send <+: m) :
    toLeft = [] := by
  by_contra hsome
  obtain ⟨-, m'', rfl, -⟩ := h.of_ne_nil hsome
  obtain ⟨b, bytes, rfl⟩ := List.exists_cons_of_ne_nil hne
  obtain ⟨c, toLeft, rfl⟩ := List.exists_cons_of_ne_nil hsome
  obtain ⟨rest, hrest⟩ := hsend
  cases hrest

theorem Converses.write {bytes : List β} {k : Call.Reply φ OwnReply (.write bytes) → _}
    {right : Party β Own φ OwnReply ε' α'} {s s' : σ} {toRight toLeft : List β} {n : Nat}
    (h : Converses answer Q R
      (⟨.call (.write bytes) k, right, s, s', toRight, toLeft⟩ :
        System β Own φ OwnReply σ ε α ε' α')) (hn : n ≤ bytes.length) (hpos : 0 < n) :
    Converses answer Q R (⟨k (.ok ⟨n, hn⟩), right, s, s', toRight ++ bytes.take n, toLeft⟩ :
      System β Own φ OwnReply σ ε α ε' α') := by
  obtain ⟨m, m', ⟨hne, hsend, hk⟩, hright, hsteps⟩ := h
  have hnil : toLeft = [] := hsteps.nil_of_sends hne hsend
  subst hnil
  obtain ⟨m₁, rfl, hmatches⟩ := hsteps.of_nil
  have htake : (bytes.take n).map .send <+: m :=
    ((List.take_prefix n bytes).map Move.send).trans hsend
  obtain ⟨m₂, rfl, hrest⟩ := hmatches.sends htake
  rw [List.length_take, Nat.min_eq_left hn] at hrest
  refine ⟨m.drop n, _, hk n hn hpos, hright, ?_⟩
  rw [← List.append_assoc, ← List.map_append]
  exact .left _ hrest

theorem Converses.read {room : Nat} {k : Call.Reply φ OwnReply (.read room) → _}
    {right : Party β Own φ OwnReply ε' α'} {s s' : σ} {toRight toLeft : List β} {n : Nat}
    (h : Converses answer Q R
      (⟨.call (.read room) k, right, s, s', toRight, toLeft⟩ :
        System β Own φ OwnReply σ ε α ε' α')) (hsome : toLeft ≠ []) (hpos : 0 < n)
    (hroom : (toLeft.take n).length ≤ room) :
    Converses answer Q R (⟨k (.ok ⟨toLeft.take n, hroom⟩), right, s, s', toRight, toLeft.drop n⟩ :
      System β Own φ OwnReply σ ε α ε' α') := by
  obtain ⟨m, m', ⟨-, hread⟩, hright, hsteps⟩ := h
  obtain ⟨rfl, m₁, rfl, hmatches⟩ := hsteps.of_ne_nil hsome
  have hcut : toLeft.map .recv ++ m₁ =
      (toLeft.take n).map .recv ++ ((toLeft.drop n).map .recv ++ m₁) := by
    rw [← List.append_assoc, ← List.map_append, List.take_append_drop]
  rcases hread with ⟨hend, -⟩ | ⟨-, hk⟩
  · obtain ⟨b, toLeft, rfl⟩ := List.exists_cons_of_ne_nil hsome
    cases hend
  · refine ⟨_, _, hk _ hroom ?_ _ hcut, hright, .right _ hmatches⟩
    rw [ne_eq, List.take_eq_nil_iff, not_or]
    exact ⟨by omega, hsome⟩

theorem Converses.readEnd {room : Nat} {k : Call.Reply φ OwnReply (.read room) → _}
    {right : Party β Own φ OwnReply ε' α'} {s s' : σ} {toRight : List β}
    (h : Converses answer Q R
      (⟨.call (.read room) k, right, s, s', toRight, []⟩ :
        System β Own φ OwnReply σ ε α ε' α')) (hdone : isDone right = true) :
    Converses answer Q R (⟨k (.ok ⟨[], Nat.zero_le _⟩), right, s, s', toRight, []⟩ :
      System β Own φ OwnReply σ ε α ε' α') := by
  obtain ⟨m, m', ⟨-, hread⟩, hright, hsteps⟩ := h
  obtain ⟨m₁, rfl, hmatches⟩ := hsteps.of_nil
  obtain ⟨hsent, rfl⟩ := List.append_eq_nil_iff.mp (moves_of_isDone hright hdone)
  rw [List.map_eq_nil_iff] at hsent
  subst hsent
  rcases hread with ⟨rfl, hk⟩ | ⟨⟨b, m₂, rfl⟩, -⟩
  · exact ⟨[], [], hk, hright, .left [] .nil⟩
  · cases hmatches

theorem Converses.stepLeft (h : Converses answer Q R x) {n : Nat}
    (hstep : x.stepLeft answer window n = some x') : Converses answer Q R x' := by
  obtain ⟨left, right, leftOwn, rightOwn, toRight, toLeft⟩ := x
  obtain ⟨y, hy, rfl⟩ := Option.map_eq_some_iff.mp hstep
  cases left with
  | done a => cases hy
  | fail e => cases hy
  | abort => cases hy
  | call op k =>
    cases op with
    | own op =>
      cases hy
      exact h
    | write bytes =>
      simp only [advance] at hy
      split at hy
      · cases hy
      next hspace =>
        cases hy
        have hne : bytes ≠ [] := by
          obtain ⟨m, m', hleft, -, -⟩ := h
          exact hleft.1
        have hlength := List.length_pos_iff.mpr hne
        exact h.write _ (by omega)
    | read room =>
      simp only [advance] at hy
      split at hy
      next hempty =>
        subst hempty
        split at hy
        next hdone =>
          cases hy
          exact h.readEnd hdone
        · cases hy
      next hsome =>
        cases hy
        have hroom : 0 < room := by
          obtain ⟨m, m', hleft, -, -⟩ := h
          exact hleft.1
        exact h.read hsome (by omega) _

theorem Converses.step (h : Converses answer Q R x) {a : Action}
    (hstep : x.step answer window a = some x') : Converses answer Q R x' := by
  cases a with
  | left n => exact h.stepLeft hstep
  | right n =>
    obtain ⟨y, hy, rfl⟩ := Option.map_eq_some_iff.mp hstep
    exact (h.swap.stepLeft hy).swap

/-- Why a party does not go on: it is done, it waits for bytes, or for room to send. -/
inductive Stuck (window : Nat) (peerDone : Bool) (inbox outbox : List β) :
    Party β Own φ OwnReply ε α → List (Move β) → Prop
  | done (a : α) : Stuck window peerDone inbox outbox (.done a) []
  | reading {p : Party β Own φ OwnReply ε α} {m : List (Move β)} (hempty : inbox = [])
    (hpeer : peerDone = false) (hm : m = [.eof] ∨ ∃ b m', m = .recv b :: m') :
    Stuck window peerDone inbox outbox p m
  | writing {p : Party β Own φ OwnReply ε α} (b : β) (m : List (Move β))
    (hfull : window ≤ outbox.length) : Stuck window peerDone inbox outbox p (.send b :: m)

theorem stuck_of_advance {p : Party β Own φ OwnReply ε α} {s : σ} {m : List (Move β)}
    {peerDone : Bool} {n : Nat} {inbox outbox : List β} (hp : Performs answer Q p s m)
    (hnone : advance answer window peerDone n p s inbox outbox = none) :
    Stuck window peerDone inbox outbox p m := by
  cases p with
  | done a =>
    rw [hp.1]
    exact .done a
  | fail e => exact hp.elim
  | abort => exact hp.elim
  | call op k =>
    cases op with
    | own op => cases hnone
    | write bytes =>
      obtain ⟨hne, ⟨rest, rfl⟩, -⟩ := hp
      obtain ⟨b, bytes, rfl⟩ := List.exists_cons_of_ne_nil hne
      simp only [advance] at hnone
      split at hnone
      next hfull => exact .writing b _ hfull
      · cases hnone
    | read room =>
      have hm : m = [.eof] ∨ ∃ b m', m = .recv b :: m' := hp.2.imp And.left And.left
      simp only [advance] at hnone
      split at hnone
      next hempty =>
        split at hnone
        · cases hnone
        next hpeer => exact .reading hempty (Bool.not_eq_true _ ▸ hpeer) hm
      · cases hnone

/-- Two parties that fit each other never both wait. -/
theorem done_of_stuck {left : Party β Own φ OwnReply ε α} {right : Party β Own φ OwnReply ε' α'}
    {toRight toLeft : List β} {m m' : List (Move β)} (hwindow : 0 < window)
    (hsteps : InStep toRight toLeft m m')
    (hleft : Stuck window (isDone right) toLeft toRight left m)
    (hright : Stuck window (isDone left) toRight toLeft right m') :
    m = [] ∧ m' = [] ∧ isDone left = true ∧ isDone right = true := by
  cases hleft with
  | done a =>
    cases hright with
    | done b => exact ⟨rfl, rfl, rfl, rfl⟩
    | reading _ hpeer _ => cases hpeer
    | writing b m' _ =>
      have hnil : toRight = [] := hsteps.symm.nil_of_sends (List.cons_ne_nil b [])
        (List.prefix_append [Move.send b] m')
      subst hnil
      obtain ⟨m₁, hm₁, hmatches⟩ := hsteps.symm.of_nil
      obtain ⟨-, rfl⟩ := List.append_eq_nil_iff.mp hm₁.symm
      cases hmatches
  | reading hempty hpeer hm =>
    subst hempty
    obtain ⟨m₁, hm₁, hmatches⟩ := hsteps.of_nil
    cases hright with
    | done b => cases hpeer
    | reading hempty' _ hm' =>
      rw [hempty', List.map_nil, List.nil_append] at hm₁
      subst hm₁
      rcases hm with rfl | ⟨b, m₂, rfl⟩ <;> cases hmatches <;> simp at hm'
    | writing b m' hfull =>
      rw [List.length_nil] at hfull
      omega
  | writing b m hfull =>
    have hsome : toRight ≠ [] := List.ne_nil_of_length_pos (by omega)
    obtain ⟨-, m₁, hm₁, -⟩ := hsteps.symm.of_ne_nil hsome
    obtain ⟨c, toRight, rfl⟩ := List.exists_cons_of_ne_nil hsome
    cases hright with
    | done b => cases hm₁
    | reading hempty _ _ => cases hempty
    | writing b' m' _ => cases hm₁

/-- Both parties came to their end, with nothing left between them. -/
def Concluded (Q : α → σ → Prop) (R : α' → σ → Prop)
    (x : System β Own φ OwnReply σ ε α ε' α') : Prop :=
  (∃ a, x.left = .done a ∧ Q a x.leftOwn) ∧ (∃ b, x.right = .done b ∧ R b x.rightOwn) ∧
    x.toRight = [] ∧ x.toLeft = []

theorem exists_of_isDone {p : Party β Own φ OwnReply ε α} {s : σ} {m : List (Move β)}
    (hp : Performs answer Q p s m) (hdone : isDone p = true) : ∃ a, p = .done a ∧ Q a s := by
  cases p with
  | done a => exact ⟨a, rfl, hp.2⟩
  | fail e => cases hdone
  | abort => cases hdone
  | call op k => cases hdone

theorem Converses.concluded (hwindow : 0 < window) (h : Converses answer Q R x)
    (hstuck : ∀ a, x.step answer window a = none) : Concluded Q R x := by
  obtain ⟨m, m', hleft, hright, hsteps⟩ := h
  have hl := stuck_of_advance hleft (Option.map_eq_none_iff.mp (hstuck (.left 1)))
  have hr := stuck_of_advance hright
    (Option.map_eq_none_iff.mp (Option.map_eq_none_iff.mp (hstuck (.right 1))))
  obtain ⟨rfl, rfl, hdone, hdone'⟩ := done_of_stuck hwindow hsteps hl hr
  exact ⟨exists_of_isDone hleft hdone, exists_of_isDone hright hdone', hsteps.eq_nil⟩

/-- What is left of a party after one of its calls. -/
def Smaller (q p : Party β Own φ OwnReply ε α) : Prop := ∃ op k r, p = .call op k ∧ q = k r

theorem wellFounded_smaller :
    WellFounded (Smaller : Party β Own φ OwnReply ε α → Party β Own φ OwnReply ε α → Prop) := by
  refine ⟨fun p => ?_⟩
  induction p with
  | done a => exact ⟨_, fun q ⟨_, _, _, hp, _⟩ => by cases hp⟩
  | fail e => exact ⟨_, fun q ⟨_, _, _, hp, _⟩ => by cases hp⟩
  | abort => exact ⟨_, fun q ⟨_, _, _, hp, _⟩ => by cases hp⟩
  | call op k ih =>
    refine ⟨_, fun q hq => ?_⟩
    obtain ⟨op', k', r, hp, rfl⟩ := hq
    cases hp
    exact ih r

theorem advance_smaller {p : Party β Own φ OwnReply ε α} {s : σ} {peerDone : Bool} {n : Nat}
    {inbox outbox : List β} {y : Party β Own φ OwnReply ε α × σ × List β × List β}
    (hy : advance answer window peerDone n p s inbox outbox = some y) : Smaller y.1 p := by
  cases p with
  | done a => cases hy
  | fail e => cases hy
  | abort => cases hy
  | call op k =>
    cases op with
    | own op =>
      cases hy
      exact ⟨_, k, _, rfl, rfl⟩
    | write bytes =>
      simp only [advance] at hy
      split at hy
      · cases hy
      · cases hy
        exact ⟨_, k, _, rfl, rfl⟩
    | read room =>
      simp only [advance] at hy
      split at hy
      · split at hy
        · cases hy
          exact ⟨_, k, _, rfl, rfl⟩
        · cases hy
      · cases hy
        exact ⟨_, k, _, rfl, rfl⟩

theorem step_smaller {a : Action} (hstep : x.step answer window a = some x') :
    Prod.GameAdd Smaller Smaller (x'.left, x'.right) (x.left, x.right) := by
  cases a with
  | left n =>
    obtain ⟨y, hy, rfl⟩ := Option.map_eq_some_iff.mp hstep
    exact .fst (advance_smaller hy)
  | right n =>
    obtain ⟨z, hz, rfl⟩ := Option.map_eq_some_iff.mp hstep
    obtain ⟨y, hy, rfl⟩ := Option.map_eq_some_iff.mp hz
    exact .snd (advance_smaller hy)

/-- However the two sides take turns and however the bytes are cut, both come to their end. -/
theorem Converses.ends (hwindow : 0 < window) (h : Converses answer Q R x) :
    GuardedRun.Ends (System.step answer window) (Concluded Q R) x := by
  -- every step leaves one of the parties with a smaller program
  have hwf : WellFounded (Prod.GameAdd Smaller Smaller :
      Party β Own φ OwnReply ε α × Party β Own φ OwnReply ε' α' → _ → Prop) :=
    wellFounded_smaller.prod_gameAdd wellFounded_smaller
  generalize hpair : (x.left, x.right) = pair
  induction pair using hwf.induction generalizing x with
  | h pair ih =>
    subst hpair
    refine .intro (h.concluded hwindow) fun a x' hstep => ?_
    exact ih _ (step_smaller hstep) (h.step hstep) rfl

end Runs

end Dialogue
