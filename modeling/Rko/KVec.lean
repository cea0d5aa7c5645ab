import Rko.CallProgram
import Rko.SlotBuffer

namespace Rko

open CallProgram SlotBuffer

inductive AllocError
  | allocError
deriving DecidableEq, Repr

inductive Panic
  | indexOutOfBounds
deriving DecidableEq, Repr

def checkedAdd (a b : Nat) : Except AllocError Nat :=
  if a + b < 2 ^ 64 then .ok (a + b) else .error .allocError

def checkedMul (a b : Nat) : Except AllocError Nat :=
  if a * b < 2 ^ 64 then .ok (a * b) else .error .allocError

/-- `core::alloc::Layout`: the size, rounded up to the alignment, fits an `isize`. -/
structure Layout where
  size : Nat
  align : Nat
  fits : size ≤ 2 ^ 63 - align
deriving DecidableEq, Repr

def Layout.fromSizeAlign (size align : Nat) : Except AllocError Layout :=
  if h : size ≤ 2 ^ 63 - align then .ok ⟨size, align, h⟩ else .error .allocError

/-- What `size_of` and `align_of` say of an element type. -/
structure ElementLayout where
  size : Nat
  align : Nat
  align_pow : ∃ k, k ≤ 29 ∧ align = 2 ^ k
  align_dvd : align ∣ size

def arrayLayout (elem : ElementLayout) (n : Nat) : Except AllocError Layout :=
  match checkedMul elem.size n with
  | .error e => .error e
  | .ok size => Layout.fromSizeAlign size elem.align

/-- The elements for which there is room in an allocation for `n` of them; elements without a size
take none of it. -/
def ElementLayout.slots (elem : ElementLayout) (layout : Layout) (n : Nat) : Nat :=
  if elem.size = 0 then n else layout.size / elem.size

/-- What the vector calls: the allocator, `clone`, the closure of `resize_with`, and the destructor
of an element. -/
inductive KVecCall (T : Type)
  | realloc (old : Bool) (newLayout oldLayout : Layout)
  | free (layout : Layout)
  | clone (item : T)
  | make
  | drop (item : T)
deriving DecidableEq, Repr

abbrev KVecCall.Resp {T : Type} : KVecCall T → Type
  | realloc _ _ _ => Bool
  | free _ => Unit
  | clone _ => T
  | make => T
  | drop _ => Unit

abbrev KVecEvent (T : Type) := Event (KVecCall T) KVecCall.Resp

abbrev KVecEnvironment (T : Type) := Environment (KVecCall T) KVecCall.Resp

/-- Aborting stands for undefined behaviour: a write at or past the capacity or outside of the memory,
and a read of a slot that has no value. -/
abbrev KVecProgram (T : Type) := Program (KVecCall T) KVecCall.Resp Panic

/-- `Vec<T, A>`, with the memory behind its pointer. -/
structure KVec (T : Type) where
  slots : List (Option T)
  len : Nat
  cap : Nat
deriving DecidableEq, Repr

namespace KVec

variable {T : Type} (elem : ElementLayout)

def new : KVec T := ⟨[], 0, 0⟩

def asSlice (v : KVec T) : Option (List T) := slice v.slots 0 v.len

def write (v : KVec T) (index : Nat) (val : T) : KVecProgram T (KVec T) := do
  Program.require (index < v.cap)
  let slots ← Program.demand (SlotBuffer.write v.slots index val)
  return { v with slots }

def read (v : KVec T) (index : Nat) : KVecProgram T (T × KVec T) := do
  let (val, slots) ← Program.demand (SlotBuffer.read v.slots index)
  return (val, { v with slots })

/-- `ptr::drop_in_place` of the slice of `count` elements from `start` on. -/
def dropInPlace : Nat → Nat → KVec T → KVecProgram T (KVec T)
  | _, 0, v => return v
  | start, count + 1, v => do
    let (val, v) ← v.read start
    Program.ask (KVecCall.drop val)
    dropInPlace (start + 1) count v

def reallocTo (v : KVec T) (newCap : Nat) : KVecProgram T (Except AllocError Unit × KVec T) :=
  match arrayLayout elem newCap, arrayLayout elem v.cap with
  | .ok newLayout, .ok oldLayout => do
    -- without an allocation there is nothing to keep
    let old := if v.cap = 0 then none else some v.slots
    let granted : Bool ← Program.ask (KVecCall.realloc old.isSome newLayout oldLayout)
    if granted then
      return (.ok (), { v with
        slots := SlotBuffer.resize (old.getD []) (elem.slots newLayout newCap), cap := newCap })
    else return (.error .allocError, v)
  | _, _ => return (.error .allocError, v)

def grow (v : KVec T) : KVecProgram T (Except AllocError Unit × KVec T) :=
  match if v.cap = 0 then .ok 1 else checkedMul v.cap 2 with
  | .error e => return (.error e, v)
  | .ok newCap => v.reallocTo elem newCap

def reserve (v : KVec T) (additional : Nat) : KVecProgram T (Except AllocError Unit × KVec T) :=
  match checkedAdd v.len additional with
  | .error e => return (.error e, v)
  | .ok needed => if needed ≤ v.cap then return (.ok (), v) else v.reallocTo elem needed

def push (v : KVec T) (val : T) : KVecProgram T (Except AllocError Unit × KVec T) := do
  let (result, v) ← (if v.len = v.cap then v.grow elem else pure (.ok (), v))
  match result with
  | .error e =>
    -- the early return drops the argument
    Program.ask (KVecCall.drop val)
    return (.error e, v)
  | .ok () =>
    let v ← v.write v.len val
    return (.ok (), { v with len := v.len + 1 })

def pop (v : KVec T) : KVecProgram T (Option T × KVec T) :=
  if v.len = 0 then return (none, v)
  else do
    let v := { v with len := v.len - 1 }
    let (val, v) ← v.read v.len
    return (some val, v)

def remove (v : KVec T) (index : Nat) : KVecProgram T (T × KVec T) :=
  if index < v.len then do
    let (result, v) ← v.read index
    let count := v.len - index - 1
    let slots ← (if count > 0 then Program.demand (move v.slots (index + 1) index count)
      else pure v.slots)
    return (result, { v with slots, len := v.len - 1 })
  else Program.fail .indexOutOfBounds

def swapRemove (v : KVec T) (index : Nat) : KVecProgram T (T × KVec T) :=
  if index < v.len then do
    let v := { v with len := v.len - 1 }
    let slots ← (if index ≠ v.len then Program.demand (swap v.slots index v.len)
      else pure v.slots)
    let v := { v with slots }
    v.read v.len
  else Program.fail .indexOutOfBounds

def truncate (v : KVec T) (newLen : Nat) : KVecProgram T (KVec T) :=
  if newLen ≥ v.len then return v
  else
    let oldLen := v.len
    dropInPlace newLen (oldLen - newLen) { v with len := newLen }

def clear (v : KVec T) : KVecProgram T (KVec T) := v.truncate 0

/-- A round of the loops that fill the vector up to `newLen` with what `next` makes. -/
def fillRound (next : KVecProgram T T) (newLen : Nat) (v : KVec T) :
    KVecProgram T (KVec T ⊕ KVec T) :=
  if v.len < newLen then do
    let val ← next
    let v ← v.write v.len val
    return .inl { v with len := v.len + 1 }
  else return .inr v

/-- `resize_with` and `resize`, but for the argument of the latter. -/
def resizeBy (next : KVecProgram T T) (v : KVec T) (newLen : Nat) :
    KVecProgram T (Except AllocError Unit × KVec T) :=
  if newLen ≤ v.len then do
    let v ← v.truncate newLen
    return (.ok (), v)
  else do
    let (result, v) ← v.reserve elem (newLen - v.len)
    match result with
    | .error e => return (.error e, v)
    | .ok () =>
      let v ← Program.loop (fillRound next newLen) (newLen - v.len + 1) v
      return (.ok (), v)

def resizeWith (v : KVec T) (newLen : Nat) : KVecProgram T (Except AllocError Unit × KVec T) :=
  v.resizeBy elem (Program.ask KVecCall.make) newLen

/-- The argument is dropped on every return. -/
def resize (v : KVec T) (newLen : Nat) (value : T) :
    KVecProgram T (Except AllocError Unit × KVec T) := do
  let r ← v.resizeBy elem (Program.ask (KVecCall.clone value)) newLen
  Program.ask (KVecCall.drop value)
  return r

/-- The loop of `extend_from_slice`. -/
def pushClones : List T → KVec T → KVecProgram T (Except AllocError Unit × KVec T)
  | [], v => return (.ok (), v)
  | item :: other, v => do
    let val ← Program.ask (KVecCall.clone item)
    let (result, v) ← v.push elem val
    match result with
    | .error e => return (.error e, v)
    | .ok () => pushClones other v

def extendFromSlice (v : KVec T) (other : List T) :
    KVecProgram T (Except AllocError Unit × KVec T) := do
  let (result, v) ← v.reserve elem other.length
  match result with
  | .error e => return (.error e, v)
  | .ok () => pushClones elem other v

/-- The destructor of `Vec`. -/
def drop (v : KVec T) : KVecProgram T Unit := do
  let v ← v.clear
  if v.cap > 0 then
    match arrayLayout elem v.cap with
    | .ok layout => Program.ask (KVecCall.free layout)
    | .error _ => return ()

def withCapacity (capacity : Nat) : KVecProgram T (Except AllocError (KVec T)) := do
  let (result, v) ← new.reserve elem capacity
  match result with
  | .error e =>
    v.drop elem
    return .error e
  | .ok () => return .ok v

def fromSlice (data : List T) : KVecProgram T (Except AllocError (KVec T)) := do
  let made ← withCapacity elem data.length
  match made with
  | .error e => return .error e
  | .ok v =>
    let (result, v) ← v.extendFromSlice elem data
    match result with
    | .error e =>
      v.drop elem
      return .error e
    | .ok () => return .ok v

end KVec

/-- The consuming iterator; it has taken the vector over with its memory. -/
structure IntoIter (T : Type) where
  vec : KVec T
  pos : Nat
deriving DecidableEq, Repr

namespace IntoIter

variable {T : Type} (elem : ElementLayout)

def next (iter : IntoIter T) : KVecProgram T (Option T × IntoIter T) :=
  if iter.pos ≥ iter.vec.len then return (none, iter)
  else do
    let (val, vec) ← iter.vec.read iter.pos
    return (some val, ⟨vec, iter.pos + 1⟩)

/-- A round of the loop in the destructor: the value read is dropped at once. -/
def dropRound (iter : IntoIter T) : KVecProgram T (IntoIter T ⊕ IntoIter T) :=
  if iter.pos < iter.vec.len then do
    let (val, vec) ← iter.vec.read iter.pos
    Program.ask (KVecCall.drop val)
    return .inl ⟨vec, iter.pos + 1⟩
  else return .inr iter

/-- The destructor of `IntoIter`, and that of its vector after it. -/
def drop (iter : IntoIter T) : KVecProgram T Unit := do
  let iter ← Program.loop dropRound (iter.vec.len - iter.pos + 1) iter
  KVec.drop elem { iter.vec with len := 0 }

end IntoIter

def KVec.intoIter {T : Type} (v : KVec T) : IntoIter T := ⟨v, 0⟩

end Rko
