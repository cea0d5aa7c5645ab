import Rko.ListWindow
import Rko.LockedFolio

namespace Rko

open CallProgram ListWindow

/-- The contents of a locked folio: one or more whole pages. -/
@[ext] structure FolioPages where
  bytes : List UInt8
  size_pos : 0 < bytes.length
  size_dvd : PAGE_SIZE ∣ bytes.length
  size_lt : bytes.length < 2 ^ 64

/-- A slice of bytes; its length is a `usize`. -/
structure DataSlice where
  bytes : List UInt8
  len_lt : bytes.length < 2 ^ 64

def DataSlice.len (s : DataSlice) : UInt64 := UInt64.ofNat s.bytes.length

theorem DataSlice.len_toNat (s : DataSlice) : s.len.toNat = s.bytes.length :=
  UInt64.toNat_ofNat_of_lt' s.len_lt

/-- A mutable slice of `n` bytes. -/
abbrev Window (n : Nat) := { bytes : List UInt8 // bytes.length = n }

namespace FolioPages

variable {σ : Type}

def size (folio : FolioPages) : Nat := folio.bytes.length

def put (folio : FolioPages) (o : Nat) (bytes : List UInt8) : FolioPages where
  bytes := store folio.bytes o bytes
  size_pos := (length_store folio.bytes o bytes).symm ▸ folio.size_pos
  size_dvd := (length_store folio.bytes o bytes).symm ▸ folio.size_dvd
  size_lt := (length_store folio.bytes o bytes).symm ▸ folio.size_lt

@[simp] theorem put_size (folio : FolioPages) (o : Nat) (bytes : List UInt8) :
    (folio.put o bytes).size = folio.size := length_store folio.bytes o bytes

theorem put_put (folio : FolioPages) (o : Nat) (ys zs : List UInt8) :
    (folio.put o ys).put (o + ys.length) zs = folio.put o (ys ++ zs) :=
  FolioPages.ext (store_store folio.bytes o ys zs)

theorem put_nil (folio : FolioPages) (o : Nat) : folio.put o [] = folio :=
  FolioPages.ext (store_nil folio.bytes o)

/-- The page of a byte of the folio ends inside of it. -/
theorem page_end_le (folio : FolioPages) {o : Nat} (ho : o < folio.size) :
    o + (PAGE_SIZE - o % PAGE_SIZE) ≤ folio.size := by
  obtain ⟨pages, hpages⟩ := folio.size_dvd
  have hsize : folio.size = PAGE_SIZE * pages := hpages
  have hlt : o / PAGE_SIZE < pages := Nat.div_lt_of_lt_mul (hsize ▸ ho)
  have hmul : PAGE_SIZE * (o / PAGE_SIZE + 1) ≤ PAGE_SIZE * pages := Nat.mul_le_mul_left _ hlt
  have hdiv := Nat.div_add_mod o PAGE_SIZE
  rw [Nat.mul_succ] at hmul
  omega

/-- The slice of `usable` bytes made of what `kmap_local_folio` maps at `o`: that is the byte `o` up to
the end of its page, so that there is no longer slice. -/
def window (folio : FolioPages) (o usable : Nat) : Option (Window usable) :=
  if h : o < folio.size ∧ usable ≤ PAGE_SIZE - o % PAGE_SIZE then
    some ⟨slice folio.bytes o (o + usable), by
      have hend := folio.page_end_le h.1
      have hle : o + usable ≤ folio.bytes.length := by
        show o + usable ≤ folio.size
        omega
      rw [length_slice hle]
      omega⟩
  else none

/-- The loop of `LockedFolio::for_each_page`, for a callback with state `σ`. It returns the contents of
the slice, also when it fails; a slice of memory that is not mapped aborts. -/
def eachPage (cb : σ → (n : Nat) → Window n → Outcome Error σ × Window n) :
    Nat → UInt64 → UInt64 → σ → FolioPages → Outcome Error Unit × FolioPages
  | 0, _, _, _, folio => (.aborted, folio)
  | fuel + 1, nextOffset, remaining, s, folio =>
    if remaining > 0 then
      let pageOffset := nextOffset &&& (UInt64.ofNat PAGE_SIZE - 1)
      let usable := min remaining (UInt64.ofNat PAGE_SIZE - pageOffset)
      match folio.window nextOffset.toNat usable.toNat with
      | none => (.aborted, folio)
      | some w =>
        let (ret, w') := cb s usable.toNat w
        let folio' := folio.put nextOffset.toNat w'.val
        match ret with
        | .done s' => eachPage cb fuel (nextOffset + usable) (remaining - usable) s' folio'
        | .failed e => (.failed e, folio')
        | .aborted => (.aborted, folio')
    else (.done (), folio)

/-- `LockedFolio::for_each_page`. -/
def forEachPage (folio : FolioPages) (offset len : UInt64)
    (cb : σ → (n : Nat) → Window n → Outcome Error σ × Window n) (s : σ) :
    Outcome Error Unit × FolioPages :=
  if 2 ^ 64 ≤ offset.toNat + len.toNat then (.failed Error.ERANGE, folio)
  else if (offset + len).toNat > folio.size then (.failed Error.EINVAL, folio)
  else eachPage cb (len.toNat + 1) offset len s folio

/-- The callback of `write`: `remaining` is what is left of the data. -/
def copyNext (remaining : List UInt8) (n : Nat) (s : Window n) :
    Outcome Error (List UInt8) × Window n :=
  if h : n ≤ remaining.length then
    (.done (remaining.drop n), ⟨remaining.take n, List.length_take_of_le h⟩)
  else (.aborted, s)

/-- `LockedFolio::write`. -/
def write (folio : FolioPages) (offset : UInt64) (data : DataSlice) :
    Outcome Error Unit × FolioPages :=
  folio.forEachPage offset data.len copyNext data.bytes

/-- `LockedFolio::zero_out`. -/
def zeroOut (folio : FolioPages) (offset len : UInt64) : Outcome Error Unit × FolioPages :=
  folio.forEachPage offset len
    (fun _ n _ => (.done (), ⟨List.replicate n 0, List.length_replicate⟩)) ()

section Loop

variable {folio : FolioPages} {cb : σ → (n : Nat) → Window n → Outcome Error σ × Window n}
  {s : Nat → σ} {ys : List UInt8}

theorem pageOffset_toNat (x : UInt64) :
    (x &&& (UInt64.ofNat PAGE_SIZE - 1)).toNat = x.toNat % PAGE_SIZE := by
  have hmask : (UInt64.ofNat PAGE_SIZE - 1).toNat = 2 ^ 12 - 1 := by decide
  rw [UInt64.toNat_and, hmask, Nat.and_two_pow_sub_one_eq_mod]
  rfl

theorem usable_toNat (next remaining : UInt64) :
    (min remaining (UInt64.ofNat PAGE_SIZE - (next &&& (UInt64.ofNat PAGE_SIZE - 1)))).toNat =
      min remaining.toNat (PAGE_SIZE - next.toNat % PAGE_SIZE) := by
  have hpage : (UInt64.ofNat PAGE_SIZE).toNat = PAGE_SIZE := by decide
  have hmod : next.toNat % PAGE_SIZE < PAGE_SIZE := Nat.mod_lt _ (by decide)
  have hle : (next &&& (UInt64.ofNat PAGE_SIZE - 1)) ≤ UInt64.ofNat PAGE_SIZE := by
    rw [UInt64.le_iff_toNat_le, pageOffset_toNat, hpage]
    omega
  rw [UInt64.toNat_min, UInt64.toNat_sub_of_le _ _ hle, pageOffset_toNat, hpage]

/-- Called with one slice after the other, the callback deals out `ys`; `s k` is its state after `k`
bytes. -/
def Deals (cb : σ → (n : Nat) → Window n → Outcome Error σ × Window n) (s : Nat → σ)
    (ys : List UInt8) : Prop :=
  ∀ k n (w : Window n), k + n ≤ ys.length →
    ∃ w', cb (s k) n w = (.done (s (k + n)), w') ∧ w'.val = slice ys k (k + n)

/-- One round: the slice is inside the page, and the next bytes are put there. -/
theorem eachPage_succ (hcb : Deals cb s ys) (fuel : Nat) {next remaining : UInt64} {k : Nat}
    (hpos : 0 < remaining.toNat) (hleft : k + remaining.toNat ≤ ys.length)
    (hin : next.toNat + remaining.toNat ≤ folio.size) :
    ∃ u : UInt64, 0 < u.toNat ∧ u.toNat ≤ remaining.toNat ∧
      eachPage cb (fuel + 1) next remaining (s k) folio =
        eachPage cb fuel (next + u) (remaining - u) (s (k + u.toNat))
          (folio.put next.toNat (slice ys k (k + u.toNat))) := by
  have hmod : next.toNat % PAGE_SIZE < PAGE_SIZE := Nat.mod_lt _ (by decide)
  have hu := usable_toNat next remaining
  have hgt : remaining > 0 := UInt64.lt_iff_toNat_lt.mpr hpos
  rw [eachPage, if_pos hgt]
  dsimp only
  generalize min remaining (UInt64.ofNat PAGE_SIZE - (next &&& (UInt64.ofNat PAGE_SIZE - 1))) = u
    at hu ⊢
  have hwindow : next.toNat < folio.size ∧ u.toNat ≤ PAGE_SIZE - next.toNat % PAGE_SIZE := by
    omega
  obtain ⟨w, hw⟩ : ∃ w, folio.window next.toNat u.toNat = some w := by
    rw [window, dif_pos hwindow]
    exact ⟨_, rfl⟩
  obtain ⟨w', hstep, hval⟩ := hcb k u.toNat w (by omega)
  refine ⟨u, by omega, by omega, ?_⟩
  simp only [hw, hstep, hval]

/-- The rounds put the bytes there as one piece. -/
theorem eachPage_eq_put (hcb : Deals cb s ys) {fuel k : Nat} {next remaining : UInt64}
    (hfuel : remaining.toNat < fuel) (hleft : k + remaining.toNat = ys.length)
    (hin : next.toNat + remaining.toNat ≤ folio.size) :
    eachPage cb fuel next remaining (s k) folio =
      (.done (), folio.put next.toNat (slice ys k ys.length)) := by
  induction fuel generalizing next remaining k folio with
  | zero => omega
  | succ fuel ih =>
    by_cases hpos : 0 < remaining.toNat
    · obtain ⟨u, hupos, hule, hround⟩ := eachPage_succ (k := k) hcb fuel hpos (by omega) hin
      have hsize : folio.size < 2 ^ 64 := folio.size_lt
      have hnext : (next + u).toNat = next.toNat + u.toNat := by
        rw [UInt64.toNat_add, Nat.mod_eq_of_lt (by omega)]
      have hless : (remaining - u).toNat = remaining.toNat - u.toNat :=
        UInt64.toNat_sub_of_le _ _ (UInt64.le_iff_toNat_le.mpr hule)
      have hlength : (slice ys k (k + u.toNat)).length = u.toNat := by
        rw [length_slice (by omega)]
        omega
      have hput := folio.put_put next.toNat (slice ys k (k + u.toNat))
        (slice ys (k + u.toNat) ys.length)
      rw [hlength, slice_append (by omega) (by omega)] at hput
      rw [hround, ih (by omega) (by omega) (by rw [put_size]; omega), hnext, hput]
    · have hnone : slice ys k ys.length = [] := by
        rw [slice, List.take_length, List.drop_eq_nil_iff]
        omega
      have hzero : ¬ remaining > 0 := fun hgt => hpos (UInt64.lt_iff_toNat_lt.mp hgt)
      rw [eachPage, if_neg hzero, hnone, put_nil]

/-- What `write` and `zero_out` are for: the bytes stand in the folio from `offset` on and nothing else
has changed, or there is no room for them and nothing has changed. -/
structure WritesExactly (folio : FolioPages) (offset : UInt64) (ys : List UInt8)
    (r : Outcome Error Unit × FolioPages) : Prop where
  ok_iff : r.1 = .done () ↔
    offset.toNat + ys.length < 2 ^ 64 ∧ offset.toNat + ys.length ≤ folio.size
  size : r.2.size = folio.size
  inside : r.1 = .done () → ∀ i < ys.length, r.2.bytes[offset.toNat + i]? = ys[i]?
  outside : r.1 = .done () → ∀ i, i < offset.toNat ∨ offset.toNat + ys.length ≤ i →
    r.2.bytes[i]? = folio.bytes[i]?
  error : r.1 ≠ .done () → (∃ e, r.1 = .failed e) ∧ r.2 = folio

theorem writesExactly_put {offset : UInt64}
    (hroom : offset.toNat + ys.length < 2 ^ 64 ∧ offset.toNat + ys.length ≤ folio.size) :
    WritesExactly folio offset ys (.done (), folio.put offset.toNat ys) where
  ok_iff := iff_of_true rfl hroom
  size := folio.put_size _ _
  inside := by
    intro _ i hi
    have hsize : offset.toNat + i < folio.size := by omega
    exact getElem?_store_inside hi hsize
  outside := by
    intro _ i hi
    exact getElem?_store_outside hi
  error := fun h => absurd rfl h

theorem writesExactly_failed {offset : UInt64} (e : Error)
    (hroom : ¬ (offset.toNat + ys.length < 2 ^ 64 ∧ offset.toNat + ys.length ≤ folio.size)) :
    WritesExactly folio offset ys (.failed e, folio) where
  ok_iff := iff_of_false (by rintro ⟨⟩) hroom
  size := rfl
  inside := by rintro ⟨⟩
  outside := by rintro ⟨⟩
  error := fun _ => ⟨⟨e, rfl⟩, rfl⟩

theorem forEachPage_eq (hcb : Deals cb s ys) (folio : FolioPages) (offset : UInt64) {len : UInt64}
    (hlen : len.toNat = ys.length) :
    folio.forEachPage offset len cb (s 0) =
      if 2 ^ 64 ≤ offset.toNat + ys.length then (.failed Error.ERANGE, folio)
      else if offset.toNat + ys.length > folio.size then (.failed Error.EINVAL, folio)
      else (.done (), folio.put offset.toNat ys) := by
  rw [forEachPage, hlen]
  split
  next => rfl
  next hfits =>
    have hend : (offset + len).toNat = offset.toNat + ys.length := by
      rw [UInt64.toNat_add, hlen, Nat.mod_eq_of_lt (by omega)]
    rw [hend]
    split
    next => rfl
    next =>
      have hall : slice ys 0 ys.length = ys := by
        rw [slice, List.take_length, List.drop_zero]
      rw [eachPage_eq_put hcb (by omega) (by omega) (by omega), hall]

theorem forEachPage_exact (hcb : Deals cb s ys) (folio : FolioPages) (offset : UInt64) {len : UInt64}
    (hlen : len.toNat = ys.length) :
    WritesExactly folio offset ys (folio.forEachPage offset len cb (s 0)) := by
  rw [forEachPage_eq hcb folio offset hlen]
  split
  next hover => exact writesExactly_failed _ (by omega)
  next =>
    split
    next hlarge => exact writesExactly_failed _ (by omega)
    next => exact writesExactly_put ⟨by omega, by omega⟩

end Loop

theorem copyNext_deals (data : List UInt8) : Deals copyNext (fun k => data.drop k) data := by
  intro k n w hle
  have hroom : n ≤ (data.drop k).length := by
    rw [List.length_drop]
    omega
  refine ⟨⟨(data.drop k).take n, List.length_take_of_le hroom⟩, ?_, ?_⟩
  · rw [copyNext, dif_pos hroom, List.drop_drop]
  · show (data.drop k).take n = slice data k (k + n)
    rw [slice, List.drop_take, Nat.add_sub_cancel_left]

theorem zeros_deal (len : Nat) :
    Deals (fun (_ : Unit) n _ => (.done (), ⟨List.replicate n 0, List.length_replicate⟩))
      (fun _ => ()) (List.replicate len 0) := by
  intro k n w hle
  rw [List.length_replicate] at hle
  refine ⟨_, rfl, ?_⟩
  show List.replicate n 0 = slice (List.replicate len 0) k (k + n)
  rw [slice, List.take_replicate, List.drop_replicate]
  congr 1
  omega

/-- `write` and `zero_out` succeed exactly if the range is in the folio, and then have changed nothing
but the range; otherwise they fail and have changed nothing. -/
theorem write_zeroOut_exact (folio : FolioPages) (offset : UInt64) (data : DataSlice) (len : UInt64) :
    WritesExactly folio offset data.bytes (folio.write offset data) ∧
      WritesExactly folio offset (List.replicate len.toNat 0) (folio.zeroOut offset len) := by
  constructor
  · exact forEachPage_exact (copyNext_deals data.bytes) folio offset data.len_toNat
  · exact forEachPage_exact (zeros_deal len.toNat) folio offset List.length_replicate.symm

section View

/-- The folio as the readers of files see it. -/
def view (folio : FolioPages) (pos : Int) : LockedFolio :=
  ⟨pos, folio.size, fun i => folio.bytes.getD i 0⟩

theorem view_put {folio : FolioPages} {o : Nat} {ys : List UInt8} (hin : o + ys.length ≤ folio.size)
    (pos : Int) :
    (folio.put o ys).view pos = (folio.view pos).fill o ys.length fun i => ys.getD i 0 := by
  have hbyte : ((folio.put o ys).view pos).byte =
      ((folio.view pos).fill o ys.length fun i => ys.getD i 0).byte := by
    funext i
    show (store folio.bytes o ys).getD i 0 = _
    rw [LockedFolio.fill_byte, List.getD_eq_getElem?_getD]
    split
    next hi =>
      obtain ⟨k, rfl⟩ : ∃ k, i = o + k := ⟨i - o, by omega⟩
      have hsize : o + k < folio.bytes.length := by
        show o + k < folio.size
        omega
      rw [getElem?_store_inside (by omega) hsize, List.getD_eq_getElem?_getD, Nat.add_sub_cancel_left]
    next hi =>
      rw [getElem?_store_outside (by omega), ← List.getD_eq_getElem?_getD]
      rfl
  have hsize := folio.put_size o ys
  rw [view, view, hsize]
  exact congrArg (LockedFolio.mk pos folio.size) hbyte

variable {τ : Type} {cb : σ → (n : Nat) → Window n → Outcome Error σ × Window n} {s : Nat → σ}
  {ys : List UInt8} {piece : τ → Nat → τ × (Nat → UInt8)} {t : Nat → τ}

/-- A result of the operations on pages, as one on the view. -/
def seen (pos : Int) : Outcome Error Unit × FolioPages → Option (Except Error LockedFolio)
  | (.done _, folio) => some (.ok (folio.view pos))
  | (.failed e, _) => some (.error e)
  | (.aborted, _) => none

theorem seen_forEachPage (hcb : Deals cb s ys)
    (hpiece : ∀ k n, piece (t k) n = (t (k + n), fun i => ys.getD (k + i) 0)) (folio : FolioPages)
    (pos : Int) (offset : UInt64) {len : UInt64} (hlen : len.toNat = ys.length) :
    seen pos (folio.forEachPage offset len cb (s 0)) =
      some ((folio.view pos).forEachPage offset.toNat len.toNat piece (t 0)) := by
  rw [forEachPage_eq hcb folio offset hlen, LockedFolio.forEachPage, hlen]
  split
  next => rfl
  next =>
    show seen pos (if offset.toNat + ys.length > folio.size then _ else _) =
      some (if offset.toNat + ys.length > folio.size then _ else _)
    split
    next => rfl
    next hroom =>
      have hfill : LockedFolio.eachPiece piece ys.length offset.toNat ys.length (t 0)
          (folio.view pos) =
            (folio.view pos).fill offset.toNat ys.length fun i => ys.getD (0 + i) 0 :=
        LockedFolio.eachPiece_eq_fill (g := fun i => ys.getD i 0) hpiece (Nat.le_refl _) _
      simp only [Nat.zero_add] at hfill
      rw [hfill, ← view_put (by omega)]
      rfl

end View

/-- The slice as the readers of files see it. -/
def dataView (data : DataSlice) : Slice := ⟨0, data.bytes.length, fun i => data.bytes.getD i 0⟩

/-- On the view of a folio, the operations are those of the readers of files; no slice is made of memory
that is not mapped, and the data never runs out. -/
theorem seen_write_zeroOut (folio : FolioPages) (pos : Int) (offset : UInt64) (data : DataSlice)
    (len : UInt64) :
    seen pos (folio.write offset data) = some ((folio.view pos).write offset.toNat (dataView data)) ∧
      seen pos (folio.zeroOut offset len) = some ((folio.view pos).zeroOut offset.toNat len.toNat) := by
  constructor
  · have hseen := seen_forEachPage (t := fun k => k) (copyNext_deals data.bytes) (fun _ _ => rfl) folio
      pos offset data.len_toNat
    rw [data.len_toNat] at hseen
    exact hseen
  · have hzero : ∀ i, (List.replicate len.toNat (0 : UInt8)).getD i 0 = 0 := by
      intro i
      rw [List.getD_eq_getElem?_getD, List.getElem?_replicate]
      split <;> rfl
    exact seen_forEachPage (t := fun _ => ()) (zeros_deal len.toNat)
      (fun k n => by simp only [hzero]) folio pos offset List.length_replicate.symm

end FolioPages

end Rko
