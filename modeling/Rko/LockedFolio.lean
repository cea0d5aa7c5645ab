import Rko.Errno
import Rko.PageMemory

namespace Rko

/-- A locked folio of a file's page cache; `kmap_local_folio` at `o` maps its byte `o` up to
the end of the page. -/
structure LockedFolio where
  pos : Int
  size : Nat
  byte : Nat → UInt8

namespace LockedFolio

variable {σ : Type}

def fill (folio : LockedFolio) (start n : Nat) (piece : Nat → UInt8) : LockedFolio :=
  { folio with byte := fun i => if start ≤ i ∧ i < start + n then piece (i - start) else folio.byte i }

/-- The loop of `LockedFolio::for_each_page`; the callback gets the length of each piece. -/
def eachPiece (cb : σ → Nat → σ × (Nat → UInt8)) : Nat → Nat → Nat → σ → LockedFolio → LockedFolio
  | 0, _, _, _, folio => folio
  | fuel + 1, nextOffset, remaining, s, folio =>
    if remaining = 0 then folio
    else
      let usable := min remaining (PAGE_SIZE - nextOffset % PAGE_SIZE)
      let (s', piece) := cb s usable
      eachPiece cb fuel (nextOffset + usable) (remaining - usable) s'
        (folio.fill nextOffset usable piece)

def forEachPage (folio : LockedFolio) (offset len : Nat) (cb : σ → Nat → σ × (Nat → UInt8)) (s : σ) :
    Except Error LockedFolio :=
  if 2 ^ 64 ≤ offset + len then .error Error.ERANGE
  else if offset + len > folio.size then .error Error.EINVAL
  else .ok (eachPiece cb len offset len s folio)

/-- `LockedFolio::write`; the state counts the bytes taken off `data`. -/
def write (folio : LockedFolio) (offset : Nat) (data : Slice) : Except Error LockedFolio :=
  folio.forEachPage offset data.len (fun taken n => (taken + n, fun i => data.byte (taken + i))) 0

def zeroOut (folio : LockedFolio) (offset len : Nat) : Except Error LockedFolio :=
  folio.forEachPage offset len (fun _ _ => ((), fun _ => 0)) ()

@[simp] theorem fill_size (folio : LockedFolio) (start n : Nat) (piece : Nat → UInt8) :
    (folio.fill start n piece).size = folio.size := rfl

theorem fill_byte (folio : LockedFolio) (start n : Nat) (piece : Nat → UInt8) (i : Nat) :
    (folio.fill start n piece).byte i =
      if start ≤ i ∧ i < start + n then piece (i - start) else folio.byte i := rfl

theorem fill_zero (folio : LockedFolio) (start : Nat) (piece : Nat → UInt8) :
    folio.fill start 0 piece = folio := by
  have hbyte : (folio.fill start 0 piece).byte = folio.byte := by
    funext i
    rw [fill_byte, if_neg (by omega)]
  exact congrArg (LockedFolio.mk folio.pos folio.size) hbyte

theorem fill_fill (folio : LockedFolio) (start k m : Nat) (piece : Nat → UInt8) :
    (folio.fill start k piece).fill (start + k) m (fun i => piece (k + i)) =
      folio.fill start (k + m) piece := by
  have hbyte : ((folio.fill start k piece).fill (start + k) m fun i => piece (k + i)).byte =
      (folio.fill start (k + m) piece).byte := by
    funext i
    rw [fill_byte, fill_byte, fill_byte]
    by_cases hfirst : i < start + k
    · rw [if_neg (by omega)]
      by_cases hstart : start ≤ i
      · rw [if_pos ⟨hstart, hfirst⟩, if_pos ⟨hstart, by omega⟩]
      · rw [if_neg (by omega), if_neg (by omega)]
    · by_cases hsecond : i < start + k + m
      · have hplace : k + (i - (start + k)) = i - start := by omega
        rw [if_pos ⟨by omega, hsecond⟩, if_pos ⟨by omega, by omega⟩, hplace]
      · rw [if_neg (by omega), if_neg (by omega), if_neg (by omega)]
  exact congrArg (LockedFolio.mk folio.pos folio.size) hbyte

/-- A callback that deals out the bytes `g` piece by piece puts them there as one piece; `s k` is its
state after `k` bytes. -/
theorem eachPiece_eq_fill {cb : σ → Nat → σ × (Nat → UInt8)} {s : Nat → σ} {g : Nat → UInt8}
    (hcb : ∀ k n, cb (s k) n = (s (k + n), fun i => g (k + i))) {fuel next len k : Nat}
    (hfuel : len ≤ fuel) (folio : LockedFolio) :
    eachPiece cb fuel next len (s k) folio = folio.fill next len fun i => g (k + i) := by
  induction fuel generalizing next len k folio with
  | zero =>
    obtain rfl : len = 0 := by omega
    rw [fill_zero]
    rfl
  | succ fuel ih =>
    rw [eachPiece]
    by_cases hlen : len = 0
    · rw [if_pos hlen, hlen, fill_zero]
    · rw [if_neg hlen]
      have hmod : next % PAGE_SIZE < PAGE_SIZE := Nat.mod_lt next (by decide)
      obtain ⟨u, hu⟩ : ∃ u, u = min len (PAGE_SIZE - next % PAGE_SIZE) := ⟨_, rfl⟩
      simp only [← hu, hcb]
      rw [ih (by omega)]
      have hjoin := fill_fill folio next u (len - u) fun i => g (k + i)
      rw [Nat.add_sub_cancel' (by omega)] at hjoin
      simp only [Nat.add_assoc]
      exact hjoin

theorem forEachPage_ok {folio folio' : LockedFolio} {offset len : Nat}
    {cb : σ → Nat → σ × (Nat → UInt8)} {s : Nat → σ} {g : Nat → UInt8}
    (hcb : ∀ k n, cb (s k) n = (s (k + n), fun i => g (k + i)))
    (h : folio.forEachPage offset len cb (s 0) = .ok folio') : folio' = folio.fill offset len g := by
  rw [forEachPage] at h
  split at h
  next => cases h
  next =>
    split at h
    next => cases h
    next =>
      cases h
      rw [eachPiece_eq_fill hcb (Nat.le_refl len)]
      simp only [Nat.zero_add]

theorem forEachPage_isOk (folio : LockedFolio) {offset len : Nat} (hlt : offset + len < 2 ^ 64)
    (hle : offset + len ≤ folio.size) (cb : σ → Nat → σ × (Nat → UInt8)) (s : σ) :
    ∃ folio', folio.forEachPage offset len cb s = .ok folio' := by
  rw [forEachPage, if_neg (by omega), if_neg (by omega)]
  exact ⟨_, rfl⟩

theorem write_ok {folio folio' : LockedFolio} {offset : Nat} {data : Slice}
    (h : folio.write offset data = .ok folio') : folio' = folio.fill offset data.len data.byte :=
  forEachPage_ok (s := fun k => k) (fun _ _ => rfl) h

theorem zeroOut_ok {folio folio' : LockedFolio} {offset len : Nat}
    (h : folio.zeroOut offset len = .ok folio') : folio' = folio.fill offset len fun _ => 0 :=
  forEachPage_ok (s := fun _ => ()) (fun _ _ => rfl) h

end LockedFolio

end Rko
