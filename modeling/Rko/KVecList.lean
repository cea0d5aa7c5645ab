import Rko.KVecSpec
import Rko.GuardedRun

namespace Rko

open CallProgram GuardedRun

/-- The operations on a variable that holds a vector; `with_capacity` and `from_slice` put a vector of
their own in its place. -/
inductive KVecOp (T : Type)
  | withCapacity (capacity : Nat)
  | push (val : T)
  | pop
  | remove (index : Nat)
  | swapRemove (index : Nat)
  | truncate (newLen : Nat)
  | clear
  | reserve (additional : Nat)
  | resize (newLen : Nat) (value : T)
  | resizeWith (newLen : Nat)
  | extendFromSlice (other : List T)
  | fromSlice (data : List T)
deriving DecidableEq, Repr

namespace KVecOp

variable {T : Type}

/-- What an operation returns, with the value that it hands back if it does. -/
abbrev Reply (T : Type) := Except AllocError (Option T) × KVec T

def unitReply (r : Except AllocError Unit × KVec T) : Reply T := (r.1.map fun _ => none, r.2)

/-- The assignment of a new vector drops the old one. -/
def assign (elem : ElementLayout) (v : KVec T) : Except AllocError (KVec T) → KVecProgram T (Reply T)
  | .error e => return (.error e, v)
  | .ok made => do
    v.drop elem
    return (.ok none, made)

def exec (elem : ElementLayout) (v : KVec T) : KVecOp T → KVecProgram T (Reply T)
  | withCapacity capacity => do assign elem v (← KVec.withCapacity elem capacity)
  | push val => do return unitReply (← v.push elem val)
  | pop => do
    let (val, v) ← v.pop
    return (.ok val, v)
  | remove index => do
    let (val, v) ← v.remove index
    return (.ok (some val), v)
  | swapRemove index => do
    let (val, v) ← v.swapRemove index
    return (.ok (some val), v)
  | truncate newLen => do return (.ok none, ← v.truncate newLen)
  | clear => do return (.ok none, ← v.clear)
  | reserve additional => do return unitReply (← v.reserve elem additional)
  | resize newLen value => do return unitReply (← v.resize elem newLen value)
  | resizeWith newLen => do return unitReply (← v.resizeWith elem newLen)
  | extendFromSlice other => do return unitReply (← v.extendFromSlice elem other)
  | fromSlice data => do assign elem v (← KVec.fromSlice elem data)

/-- The operations that do not panic. -/
def InRange (xs : List T) : KVecOp T → Prop
  | remove index => index < xs.length
  | swapRemove index => index < xs.length
  | _ => True

/-- The elements moved into a call. -/
def given : KVecOp T → List T
  | push val => [val]
  | resize _ value => [value]
  | _ => []

/-- The elements that have to be made: clones of some, and what a closure returns. -/
def asks (xs : List T) : KVecOp T → List (Option T)
  | resize newLen value => List.replicate (newLen - xs.length) (some value)
  | resizeWith newLen => List.replicate (newLen - xs.length) none
  | extendFromSlice other => other.map some
  | fromSlice data => data.map some
  | _ => []

/-- What an operation does to a list, with the elements that are made for it. -/
def after (made xs : List T) : KVecOp T → List T
  | withCapacity _ => []
  | push val => xs ++ [val]
  | pop => xs.dropLast
  | remove index => xs.eraseIdx index
  | swapRemove index => KVec.swapRemoved xs index
  | truncate newLen => xs.take newLen
  | clear => []
  | reserve _ => xs
  | resize newLen _ => xs.take newLen ++ made
  | resizeWith newLen => xs.take newLen ++ made
  | extendFromSlice _ => xs ++ made
  | fromSlice _ => made

def result (xs : List T) : KVecOp T → Option T
  | pop => xs.getLast?
  | remove index => xs[index]?
  | swapRemove index => xs[index]?
  | _ => none

/-- The elements that an operation on a list drops. -/
def drops (xs : List T) : KVecOp T → List T
  | withCapacity _ => xs
  | truncate newLen => xs.drop newLen
  | clear => xs
  | resize newLen value => xs.drop newLen ++ [value]
  | resizeWith newLen => xs.drop newLen
  | fromSlice _ => xs
  | _ => []

/-- The capacity, if a larger one is needed, that has to be allocated. -/
def need (v : KVec T) : KVecOp T → Option Nat
  | withCapacity capacity => KVec.freshNeed capacity
  | push _ => v.pushNeed
  | reserve additional => v.missing (v.len + additional)
  | resize newLen _ => v.missing newLen
  | resizeWith newLen => v.missing newLen
  | extendFromSlice other => v.missing (v.len + other.length)
  | fromSlice data => KVec.freshNeed data.length
  | _ => none

/-- An operation either has not the room it needs, and then leaves the vector as it is, or does to it
what it does to the list. -/
inductive Performed (elem : ElementLayout) (op : KVecOp T) (v : KVec T) (xs : List T) :
    Reply T → Account T → Prop
  | refused {log : List (Nat × Bool)} (room : Room elem (op.need v) log false) :
    Performed elem op v xs (.error .allocError, v) ⟨log, [], op.given⟩
  | served {log : List (Nat × Bool)} {v' : KVec T} {created : List (Option T × T)}
    (room : Room elem (op.need v) log true) (cap : ∀ n, op.need v = some n → v'.cap = n)
    (asked : created.map Prod.fst = op.asks xs)
    (stores : Stores elem v' (op.after (created.map Prod.snd) xs)) :
    Performed elem op v xs (.ok (op.result xs), v') ⟨log, created, op.drops xs⟩

section

variable {elem : ElementLayout} {v : KVec T} {xs : List T} {op : KVecOp T}

/-- An operation that consists of a call which can fail. -/
theorem performed_of_tried (hresult : op.result xs = none)
    {p : KVecProgram T (Except AllocError Unit × KVec T)}
    (hp : Accounts p (Tried elem v (op.need v) op.given (op.asks xs) (fun made => op.after made xs)
      (op.drops xs))) :
    Accounts (p.bind fun r => Program.done (unitReply r)) (Performed elem op v xs) := by
  apply hp.bind
  intro r acc htried
  apply Accounts.done_after
  cases htried with
  | refused room => exact .refused room
  | @served _ v' _ room cap asked stores =>
    have hcap : ∀ n, op.need v = some n → v'.cap = n := by
      intro n hn
      rw [cap, hn, Option.getD_some]
    have hserved := Performed.served room hcap asked stores
    rw [hresult] at hserved
    exact hserved

/-- An operation that puts a new vector in the place of the old one. -/
theorem performed_of_built (hv : Stores elem v xs) (hresult : op.result xs = none)
    (hgiven : op.given = []) (hdrops : op.drops xs = xs)
    (hafter : ∀ made, made.length = (op.asks xs).length → op.after made xs = made)
    {p : KVecProgram T (Except AllocError (KVec T))}
    (hp : Accounts p (KVec.Built elem (op.need v) (op.asks xs))) :
    Accounts (p.bind (assign elem v)) (Performed elem op v xs) := by
  apply hp.bind
  intro made acc hbuilt
  cases hbuilt with
  | @refused log room =>
    have hrefused : Performed elem op v xs (.error .allocError, v) ⟨log, [], op.given⟩ := .refused room
    rw [hgiven] at hrefused
    exact Accounts.done_after hrefused
  | @built log v' created room cap asked stores =>
    apply (KVec.drop_accounts hv).bind
    rintro _ _ rfl
    apply Accounts.done
    have hcap : ∀ n, op.need v = some n → v'.cap = n := by
      intro n hn
      rw [cap, hn, Option.getD_some]
    have hlen : (created.map Prod.snd).length = (op.asks xs).length := by
      rw [← asked, List.length_map, List.length_map]
    rw [← hafter _ hlen] at stores
    have hserved := Performed.served room hcap asked stores
    rw [hresult, hdrops] at hserved
    rw [Account.append_nil, Account.mk_append, List.append_nil, List.append_nil, List.nil_append]
    exact hserved

/-- An operation for which there always is room. -/
theorem performed_of_stores (hneed : op.need v = none) (hasks : op.asks xs = []) {v' : KVec T}
    (hstores : Stores elem v' (op.after [] xs)) :
    Performed elem op v xs (.ok (op.result xs), v') ⟨[], [], op.drops xs⟩ := by
  refine .served ?_ ?_ ?_ hstores
  · rw [hneed]
    exact .enough
  · intro n hn
    rw [hneed] at hn
    cases hn
  · rw [hasks]
    rfl

theorem exec_accounts (hv : Stores elem v xs) (hin : op.InRange xs) :
    Accounts (op.exec elem v) (Performed elem op v xs) := by
  cases op with
  | withCapacity capacity =>
    refine performed_of_built hv rfl rfl rfl (fun made hmade => ?_)
      (KVec.withCapacity_accounts elem capacity)
    exact (List.eq_nil_of_length_eq_zero hmade).symm
  | push val => exact performed_of_tried rfl (KVec.push_accounts hv val)
  | pop =>
    apply (KVec.pop_accounts hv).bind
    rintro ⟨x, v'⟩ _ ⟨rfl, hstores, rfl⟩
    exact Accounts.done (performed_of_stores rfl rfl hstores)
  | remove index =>
    have hx : xs[index]? = some xs[index] := List.getElem?_eq_getElem hin
    apply (KVec.remove_accounts hv hx).bind
    rintro ⟨x, v'⟩ _ ⟨rfl, hstores, rfl⟩
    have hperformed : Performed elem (remove index) v xs
        (.ok ((remove index).result xs), v') ⟨[], [], []⟩ :=
      performed_of_stores rfl rfl hstores
    rw [result, hx] at hperformed
    exact Accounts.done hperformed
  | swapRemove index =>
    have hx : xs[index]? = some xs[index] := List.getElem?_eq_getElem hin
    apply (KVec.swapRemove_accounts hv hx).bind
    rintro ⟨x, v'⟩ _ ⟨rfl, hstores, rfl⟩
    have hperformed : Performed elem (swapRemove index) v xs
        (.ok ((swapRemove index).result xs), v') ⟨[], [], []⟩ :=
      performed_of_stores rfl rfl hstores
    rw [result, hx] at hperformed
    exact Accounts.done hperformed
  | truncate newLen =>
    apply (KVec.truncate_accounts hv newLen).bind
    rintro v' _ ⟨hstores, -, rfl⟩
    exact Accounts.done_after (performed_of_stores rfl rfl hstores)
  | clear =>
    apply (KVec.clear_accounts hv).bind
    rintro v' _ ⟨hstores, rfl⟩
    exact Accounts.done_after (performed_of_stores rfl rfl hstores)
  | reserve additional =>
    have hreserve := KVec.reserve_accounts hv additional
    rw [← hv.len] at hreserve
    exact performed_of_tried rfl hreserve
  | resize newLen value => exact performed_of_tried rfl (KVec.resize_accounts hv newLen value)
  | resizeWith newLen => exact performed_of_tried rfl (KVec.resizeWith_accounts hv newLen)
  | extendFromSlice other =>
    have hextend := KVec.extendFromSlice_accounts hv other
    rw [← hv.len] at hextend
    exact performed_of_tried rfl hextend
  | fromSlice data =>
    exact performed_of_built hv rfl rfl rfl (fun _ _ => rfl) (KVec.fromSlice_accounts elem data)

/-- Outside of its range an operation panics, and has done nothing before. -/
theorem exec_eq_fail (hv : Stores elem v xs) (hout : ¬ op.InRange xs) :
    op.exec elem v = Program.fail .indexOutOfBounds := by
  cases op with
  | remove index =>
    have hindex : ¬ index < v.len := by rw [hv.len]; exact hout
    rw [exec, KVec.remove, if_neg hindex]
    rfl
  | swapRemove index =>
    have hindex : ¬ index < v.len := by rw [hv.len]; exact hout
    rw [exec, KVec.swapRemove, if_neg hindex]
    rfl
  | _ => exact absurd trivial hout

end

end KVecOp

/-- A vector and a list that are subject to the same operations; the list takes part in those that
succeed. -/
structure KVecRun (T : Type) where
  vec : KVec T
  events : List (KVecEvent T)
  contents : List T

namespace KVecRun

variable {T : Type}

def new : KVecRun T := ⟨KVec.new, [], []⟩

/-- The elements made by the calls of an operation. -/
def made (evs : List (KVecEvent T)) : List T := (account evs).created.map Prod.snd

def step (elem : ElementLayout) (env : KVecEnvironment T) (s : KVecRun T) (op : KVecOp T) :
    Option (KVecRun T) :=
  match (op.exec elem s.vec).run env s.events with
  | (.done (.ok _, v), h) => some ⟨v, h, op.after (made (h.drop s.events.length)) s.contents⟩
  | (.done (.error _, v), h) => some ⟨v, h, s.contents⟩
  | _ => none

variable {elem : ElementLayout} {env : KVecEnvironment T} {s s' : KVecRun T} {op : KVecOp T}

theorem stores_step (hs : Stores elem s.vec s.contents) (hstep : step elem env s op = some s') :
    Stores elem s'.vec s'.contents := by
  by_cases hin : op.InRange s.contents
  · obtain ⟨⟨reply, v⟩, evs, hrun, hperformed⟩ := (KVecOp.exec_accounts hs hin).run env s.events
    rw [step, hrun] at hstep
    generalize hacc : account evs = acc at hperformed
    cases hperformed with
    | refused room =>
      cases hstep
      exact hs
    | @served _ _ created room cap asked stores =>
      cases hstep
      show Stores elem v (op.after (made ((s.events ++ evs).drop s.events.length)) s.contents)
      rw [List.drop_left, made, hacc]
      exact stores
  · rw [step, KVecOp.exec_eq_fail hs hin] at hstep
    cases hstep

end KVecRun

/-- Whatever the allocator answers, the vector holds the list; an operation for which there is no room
leaves it as it was, and the room that is asked for is exactly what is needed. -/
theorem kvec_refines_list {T : Type} (elem : ElementLayout) (env : KVecEnvironment T)
    {ops : List (KVecOp T)} {s : KVecRun T}
    (hrun : run (KVecRun.step elem env) KVecRun.new ops = some s) :
    s.vec.asSlice = some s.contents ∧ s.vec.len = s.contents.length ∧ s.vec.len ≤ s.vec.cap ∧
      s.vec.slots.length = s.vec.cap ∧
      ∀ op : KVecOp T,
        (¬ op.InRange s.contents → (op.exec elem s.vec).run env s.events =
          (.failed .indexOutOfBounds, s.events)) ∧
        (op.InRange s.contents → ∃ result v evs,
          (op.exec elem s.vec).run env s.events = (.done (result, v), s.events ++ evs) ∧
          Room elem (op.need s.vec) (account evs).reallocs result.isOk ∧
          (result = .error .allocError → v = s.vec) ∧
          ∀ x, result = .ok x → x = op.result s.contents ∧
            (account evs).created.map Prod.fst = op.asks s.contents ∧
            v.asSlice = some (op.after (KVecRun.made evs) s.contents) ∧
            ∀ n, op.need s.vec = some n → v.cap = n) := by
  have hguard : Guarded (KVecRun.step elem env) (fun _ _ => True) KVecRun.new ops :=
    guarded_of_forall (fun _ _ => trivial) _
  have hs : Stores elem s.vec s.contents :=
    run_invariant (I := fun s : KVecRun T => Stores elem s.vec s.contents)
      (fun hs _ hstep => KVecRun.stores_step hs hstep) (KVec.stores_new elem) hguard hrun
  have hle : s.vec.len ≤ s.vec.cap := by
    rw [hs.len]
    exact hs.le_cap
  refine ⟨KVec.asSlice_of_stores hs, hs.len, hle, hs.slots, fun op => ⟨fun hout => ?_, fun hin => ?_⟩⟩
  · rw [KVecOp.exec_eq_fail hs hout]
    rfl
  · obtain ⟨⟨result, v⟩, evs, hexec, hperformed⟩ := (KVecOp.exec_accounts hs hin).run env s.events
    refine ⟨result, v, evs, hexec, ?_⟩
    rw [KVecRun.made]
    generalize account evs = acc at hperformed ⊢
    cases hperformed with
    | refused room => exact ⟨room, fun _ => rfl, fun x hx => by cases hx⟩
    | served room cap asked stores =>
      refine ⟨room, fun herror => (by cases herror), fun x hx => ?_⟩
      cases hx
      exact ⟨rfl, asked, KVec.asSlice_of_stores stores, cap⟩

/-- Elements of eight bytes. -/
def wordLayout : ElementLayout := ⟨8, 8, ⟨3, by omega, rfl⟩, dvd_rfl⟩

/-- An allocator with sixteen bytes to give; clones are equal to what they are clones of. -/
def smallHeap : KVecEnvironment Nat
  | _, .realloc _ newLayout _ => decide (newLayout.size ≤ 16)
  | _, .free _ => ()
  | _, .clone item => item
  | _, .make => 7
  | _, .drop _ => ()

theorem kvec_refines_list_smallHeap :
    ∃ s, run (KVecRun.step wordLayout smallHeap) KVecRun.new
        [.push 1, .push 2, .push 3, .swapRemove 0, .extendFromSlice [5, 6], .resizeWith 2,
          .remove 0, .fromSlice [8]] = some s ∧
      s.vec.asSlice = some [8] ∧ s.vec.len ≤ s.vec.cap := by
  obtain ⟨s, hrun, hcontents⟩ : ∃ s, run (KVecRun.step wordLayout smallHeap) KVecRun.new
      [.push 1, .push 2, .push 3, .swapRemove 0, .extendFromSlice [5, 6], .resizeWith 2,
        .remove 0, .fromSlice [8]] = some s ∧ s.contents = [8] := ⟨_, rfl, rfl⟩
  obtain ⟨hslice, -, hle, -⟩ := kvec_refines_list wordLayout smallHeap hrun
  rw [hcontents] at hslice
  exact ⟨s, hrun, hslice, hle⟩

end Rko
