import Rko.KernelCalls

namespace Rko

open CallProgram

variable {δ σ υ : Type}

/-- `Mapper::mapped_folio`. The folio is mapped from its start, and the slice begins at the
offset within the page. -/
def mappedFolio (offset : Int) : Prog δ Slice :=
  if offset < 0 then .fail Error.EINVAL
  else
    .call (.readCacheFolio (offset.toNat / PAGE_SIZE)) fun
      | .failed e => .fail (Error.new ((ptrErr e.ptr).truncate 32))
      | .null => .fail Error.EIO
      | .folio f => .done (f.tail offset.toNat)

/-- The loop of `Mapper::for_each_page`; the callback threads the state it captures. -/
def forEachPageLoop (cb : σ → Slice → Prog δ (σ × Option υ)) :
    Nat → Int → Int → σ → Prog δ (σ × Option υ)
  | 0, _, _, s => pure (s, none)
  | fuel + 1, next, remain, s =>
    if remain ≤ 0 then pure (s, none)
    else do
      let mapped ← mappedFolio next
      let avail := min mapped.len remain.toNat
      let (s', ret) ← cb s (mapped.sub 0 avail)
      match ret with
      | some v => pure (s', some v)
      | none => forEachPageLoop cb fuel (Offset.wrap (next + avail)).val (remain - avail) s'

/-- `Mapper::for_each_page`. Every round consumes at least one byte. -/
def forEachPage (offset len : Int) (cb : σ → Slice → Prog δ (σ × Option υ)) (s : σ) :
    Prog δ (σ × Option υ) :=
  if len ≤ 0 then pure (s, none) else forEachPageLoop cb len.toNat offset len s

/-- What follows a page of `avail` bytes. -/
def continuePages (cb : σ → Slice → Prog δ (σ × Option υ)) (fuel : Nat) (next remain : Int)
    (avail : Nat) : σ × Option υ → Prog δ (σ × Option υ)
  | (s, some v) => pure (s, some v)
  | (s, none) => forEachPageLoop cb fuel (Offset.wrap (next + avail)).val (remain - avail) s

theorem forEachPageLoop_succ (cb : σ → Slice → Prog δ (σ × Option υ)) (fuel : Nat) (next : Int)
    {remain : Int} (hremain : 0 < remain) (s : σ) :
    forEachPageLoop cb (fuel + 1) next remain s =
      (mappedFolio next).bind fun mapped =>
        (cb s (mapped.sub 0 (min mapped.len remain.toNat))).bind
          (continuePages cb fuel next remain (min mapped.len remain.toNat)) := by
  rw [forEachPageLoop, if_neg (by omega), Program.bind_eq]
  congr 1
  funext mapped
  rw [Program.bind_eq]
  congr 1
  funext r
  obtain ⟨s', ret⟩ := r
  cases ret <;> rfl

theorem mappedFolio_ensures (offset : Int) :
    (mappedFolio (δ := δ) offset).Ensures fun b =>
      b.base = offset.toNat % PAGE_SIZE ∧ b.len = PAGE_SIZE - offset.toNat % PAGE_SIZE := by
  unfold mappedFolio
  split
  next => trivial
  next =>
    intro r
    cases r with
    | failed e => trivial
    | null => trivial
    | folio f => exact ⟨rfl, rfl⟩

theorem mappedFolio_returns {env : Kernel δ} {disk : Disk} (hd : ReadsDisk env disk) {offset : Int}
    (h0 : 0 ≤ offset) : Program.Returns env (mappedFolio offset) (.done (disk.tail offset.toNat)) := by
  rw [mappedFolio, if_neg (by omega)]
  apply Program.Returns.call (fun h => hd h _)
  simp only [disk.page_tail]
  exact Program.Returns.done env _

theorem mappedFolio_run_done {env : Kernel δ} {h : History δ} {offset : Int} {b : Slice}
    (hrun : ((mappedFolio offset).run env h).1 = .done b) :
    0 ≤ offset ∧ ∃ f, env h (.readCacheFolio (offset.toNat / PAGE_SIZE)) = FolioResult.folio f ∧
      b = f.tail offset.toNat := by
  rw [mappedFolio] at hrun
  split at hrun
  next => cases hrun
  next h0 =>
    rw [Program.run] at hrun
    generalize hr : env h (.readCacheFolio (offset.toNat / PAGE_SIZE)) = r at hrun
    cases r with
    | failed e => cases hrun
    | null => cases hrun
    | folio f =>
      cases hrun
      exact ⟨by omega, f, rfl, rfl⟩

/-- Page reads inside a device of `size` bytes succeed; what happens past its last page is open. -/
def ReadsWithin (env : Kernel δ) (disk : Disk) (size : Nat) : Prop :=
  ∀ h index, index * PAGE_SIZE < size → env h (.readCacheFolio index) = FolioResult.folio (disk.page index)

theorem mappedFolio_within {env : Kernel δ} {disk : Disk} {size offset : Nat}
    (hd : ReadsWithin env disk size) (hin : offset / PAGE_SIZE * PAGE_SIZE < size) :
    Program.Returns env (mappedFolio offset) (.done (disk.tail offset)) := by
  rw [mappedFolio, if_neg (by omega)]
  apply Program.Returns.call (fun h => hd h _ hin)
  simp only [Int.toNat_natCast, disk.page_tail]
  exact Program.Returns.done env _

theorem mappedFolio_outside {env : Kernel δ} {e : Errno} {offset : Nat}
    (hfail : ∀ h, env h (.readCacheFolio (offset / PAGE_SIZE)) = FolioResult.failed e) :
    Program.Returns env (mappedFolio offset) (.failed (Error.new e.int)) := by
  rw [mappedFolio, if_neg (by omega)]
  apply Program.Returns.call hfail
  simp only [e.truncate_ptr]
  exact Program.Returns.fail env _

def readError (op : KernelCall) (r : op.Resp δ) : Option Error :=
  (readFailure op r).map fun e => Error.new e.int

/-- A failed page read is never swallowed. -/
abbrev FailStrict {α : Type} (p : Prog δ α) : Prop := p.Strict readError

theorem mappedFolio_strict (offset : Int) : FailStrict (mappedFolio (δ := δ) offset) := by
  rw [mappedFolio]
  split
  next => trivial
  next =>
    intro r
    cases r with
    | failed e =>
      refine ⟨fun e' he => ?_, fun hn => by simp [readError, readFailure] at hn⟩
      simp only [readError, readFailure, Option.map_some, Option.some.injEq] at he
      simp only [e.truncate_ptr]
      exact he
    | null => exact ⟨fun e he => by simp [readError, readFailure] at he, fun _ => trivial⟩
    | folio f => exact ⟨fun e he => by simp [readError, readFailure] at he, fun _ => trivial⟩

theorem forEachPageLoop_strict {cb : σ → Slice → Prog δ (σ × Option υ)}
    (hcb : ∀ s d, FailStrict (cb s d)) (fuel : Nat) (next remain : Int) (s : σ) :
    FailStrict (forEachPageLoop cb fuel next remain s) := by
  induction fuel generalizing next remain s with
  | zero => trivial
  | succ fuel ih =>
    rw [forEachPageLoop]
    split
    next => trivial
    next =>
      apply (mappedFolio_strict next).bind
      intro mapped
      apply (hcb s _).bind
      rintro ⟨s', ret⟩
      cases ret with
      | some v => trivial
      | none => exact ih _ _ _

theorem forEachPage_strict {cb : σ → Slice → Prog δ (σ × Option υ)}
    (hcb : ∀ s d, FailStrict (cb s d)) (offset len : Int) (s : σ) :
    FailStrict (forEachPage offset len cb s) := by
  rw [forEachPage]
  split
  next => trivial
  next => exact forEachPageLoop_strict hcb _ _ _ _

theorem allocate_strict : FailStrict (allocate (δ := δ)) := by
  intro r
  cases r <;> exact ⟨fun e he => by simp [readError, readFailure] at he, fun _ => trivial⟩

theorem call_strict {α : Type} {op : KernelCall} {k : op.Resp δ → Prog δ α}
    (hop : ∀ i, op ≠ .readCacheFolio i) (hk : ∀ r, FailStrict (k r)) :
    FailStrict (Program.call op k) := by
  intro r
  refine ⟨fun e he => ?_, fun _ => hk r⟩
  cases op with
  | readCacheFolio i => exact absurd rfl (hop i)
  | _ => simp [readError, readFailure] at he

theorem ask_strict {op : KernelCall} (hop : ∀ i, op ≠ .readCacheFolio i) :
    FailStrict (Program.ask op : Prog δ (op.Resp δ)) := call_strict hop fun _ => trivial

theorem emit_strict {δ : Type} (pos posInc : Int) (name : List UInt8) (ino : UInt64)
    (etype : DirEntryType) : FailStrict (emit (δ := δ) pos posInc name ino etype) :=
  call_strict (by simp) fun r => by cases r <;> trivial

end Rko
