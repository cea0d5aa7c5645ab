import Rko.Mapper
import Rko.RangeCut

namespace Rko

open CallProgram RangeCut

variable {δ σ υ : Type}

/-- Reads the pages of the pieces in turn and hands each to the callback, until one returns a value. -/
def visit (cb : σ → Nat × Nat → Slice → Prog δ (σ × Option υ)) :
    List (Nat × Nat) → σ → Prog δ (σ × Option υ)
  | [], s => pure (s, none)
  | p :: ps, s =>
    (mappedFolio p.1).bind fun mapped =>
      (cb s p mapped).bind fun r => if r.2.isSome then pure r else visit cb ps r.1

/-- Callbacks that do the same with the pages of a kernel have the same runs. -/
theorem visit_run_congr {env : Kernel δ} {cb cb' : σ → Nat × Nat → Slice → Prog δ (σ × Option υ)}
    {ps : List (Nat × Nat)}
    (hcb : ∀ p ∈ ps, ∀ s h b, ((mappedFolio p.1).run env h).1 = .done b → cb s p b = cb' s p b)
    (s : σ) (h : History δ) : (visit cb ps s).run env h = (visit cb' ps s).run env h := by
  induction ps generalizing s h with
  | nil => rfl
  | cons p ps ih =>
    rw [visit, visit]
    apply Program.run_bind_congr
    intro b h₁ hread
    rw [hcb p List.mem_cons_self s h b (congrArg Prod.fst hread)]
    apply Program.run_bind_congr
    intro r h₂ _
    by_cases hr : r.2.isSome
    · rw [if_pos hr, if_pos hr]
    · rw [if_neg hr, if_neg hr]
      exact ih (fun q hq => hcb q (List.mem_cons_of_mem p hq)) r.1 h₂

theorem forEachPageLoop_eq_visit (cb : σ → Slice → Prog δ (σ × Option υ)) {fuel o n : Nat}
    (hmax : o + n < 2 ^ 63) (s : σ) :
    forEachPageLoop cb fuel o n s =
      visit (fun s p mapped => cb s (mapped.sub 0 p.2)) (cut PAGE_SIZE fuel o n) s := by
  induction fuel generalizing o n s with
  | zero => rfl
  | succ fuel ih =>
    rw [cut]
    by_cases hn : n = 0
    · rw [if_pos hn, forEachPageLoop, if_pos (by omega)]
      rfl
    · rw [if_neg hn, visit, forEachPageLoop_succ cb fuel o (by omega)]
      apply (mappedFolio_ensures _).bind_congr
      rintro mapped ⟨-, hlen⟩
      have havail : min mapped.len (n : Int).toNat = min (PAGE_SIZE - o % PAGE_SIZE) n := by
        rw [hlen, Int.toNat_natCast, Int.toNat_natCast]
      rw [havail]
      congr 1
      funext r
      obtain ⟨s', ret⟩ := r
      cases ret with
      | some v => rfl
      | none =>
        obtain ⟨k, hk⟩ : ∃ k, k = min (PAGE_SIZE - o % PAGE_SIZE) n := ⟨_, rfl⟩
        rw [← hk]
        have hle : k ≤ n := by omega
        have hnext : (Offset.wrap ((o : Int) + k)).val = ((o + k : Nat) : Int) := by
          rw [Offset.wrap_val (by omega) (by omega)]
          omega
        have hremain : (n : Int) - k = ((n - k : Nat) : Int) := by omega
        show forEachPageLoop cb fuel (Offset.wrap ((o : Int) + k)).val ((n : Int) - k) s' = _
        rw [hnext, hremain]
        exact ih (by omega) s'

/-- `for_each_page` is a walk over the pieces of its range, whatever the kernel answers. -/
theorem forEachPage_eq_visit (cb : σ → Slice → Prog δ (σ × Option υ)) {o n : Nat}
    (hmax : o + n < 2 ^ 63) (s : σ) :
    forEachPage o n cb s =
      visit (fun s p mapped => cb s (mapped.sub 0 p.2)) (pieces PAGE_SIZE o n) s := by
  rw [forEachPage]
  by_cases hn : n = 0
  · subst hn
    rfl
  · rw [if_neg (by omega)]
    exact forEachPageLoop_eq_visit cb hmax s

/-- What a callback that never stops keeps from piece to piece holds at the end of the range. -/
theorem visit_keeps {env : Kernel δ} {cb : σ → Nat × Nat → Slice → Prog δ (σ × Option υ)}
    {I : Nat → σ → Prop} {e : Nat}
    (hstep : ∀ {a k : Nat} {s s' : σ} {ret : Option υ} {h h' : History δ} {b : Slice},
      a + k ≤ e → a % PAGE_SIZE + k ≤ PAGE_SIZE → I a s → ((mappedFolio a).run env h).1 = .done b →
      ((cb s (a, k) b).run env h').1 = .done (s', ret) → ret = none ∧ I (a + k) s')
    {o n : Nat} {ps : List (Nat × Nat)} (htiles : Tiles PAGE_SIZE o n ps) (hend : o + n ≤ e) {s : σ}
    {r : σ × Option υ} {h : History δ} (hs : I o s)
    (hrun : ((visit cb ps s).run env h).1 = .done r) : I (o + n) r.1 := by
  induction htiles generalizing s h with
  | nil o =>
    cases hrun
    exact hs
  | @cons o k m ps pos inside full rest ih =>
    rw [visit] at hrun
    obtain ⟨b, h₁, hread, hrun₁⟩ := Program.run_bind_done hrun
    obtain ⟨⟨s', ret⟩, h₂, hcb, hrun₂⟩ := Program.run_bind_done hrun₁
    obtain ⟨rfl, hs'⟩ := hstep (by omega) inside hs (congrArg Prod.fst hread) (congrArg Prod.fst hcb)
    have hrest := ih (by omega) hs' hrun₂
    rwa [Nat.add_assoc] at hrest

section SinglePages

variable {env : Kernel δ} {disk : Disk}

/-- The piece of the device, in its page. -/
def Disk.piece (disk : Disk) (p : Nat × Nat) : Slice := (disk.tail p.1).sub 0 p.2

theorem Disk.piece_bytes (disk : Disk) (p : Nat × Nat) :
    (disk.piece p).bytes = span disk p.1 p.2 := by
  apply List.map_congr_left
  intro i _
  show disk (p.1 + (0 + i)) = disk (p.1 + i)
  rw [Nat.zero_add]

/-- The page that holds the byte at `o` was read. -/
def pageRead (disk : Disk) (o : Nat) : Event KernelCall (KernelCall.Resp δ) :=
  ⟨.readCacheFolio (o / PAGE_SIZE), FolioResult.folio (disk.page (o / PAGE_SIZE))⟩

/-- The callback got these pieces one after the other, each after its page was read, and asked for more
after each. -/
inductive PassesOver (env : Kernel δ) (disk : Disk) (cb : σ → Slice → Prog δ (σ × Option υ)) :
    List (Nat × Nat) → σ → History δ → σ → History δ → Prop
  | nil (s : σ) (h : History δ) : PassesOver env disk cb [] s h s h
  | cons {p : Nat × Nat} {ps : List (Nat × Nat)} {s s₁ s' : σ} {h h₁ h' : History δ}
    (passed : (cb s (disk.piece p)).run env (h ++ [pageRead disk p.1]) = (.done (s₁, none), h₁))
    (rest : PassesOver env disk cb ps s₁ h₁ s' h') : PassesOver env disk cb (p :: ps) s h s' h'

/-- The callback went through all the pieces. -/
def GoesThrough (env : Kernel δ) (disk : Disk) (cb : σ → Slice → Prog δ (σ × Option υ))
    (ps : List (Nat × Nat)) (s : σ) (h : History δ) (r : Outcome Error (σ × Option υ) × History δ) :
    Prop :=
  ∃ s' h', PassesOver env disk cb ps s h s' h' ∧ r = (.done (s', none), h')

/-- The callback went through the pieces before `p`, and at `p` it ended in something else than
asking for more: a value, or an error. -/
def StopsAt (env : Kernel δ) (disk : Disk) (cb : σ → Slice → Prog δ (σ × Option υ))
    (ps : List (Nat × Nat)) (s : σ) (h : History δ) (r : Outcome Error (σ × Option υ) × History δ) :
    Prop :=
  ∃ before p after s' h', ps = before ++ p :: after ∧ PassesOver env disk cb before s h s' h' ∧
    (cb s' (disk.piece p)).run env (h' ++ [pageRead disk p.1]) = r ∧ ∀ s'', r.1 ≠ .done (s'', none)

/-- Reading a page between the one of `o` and the end of the range returns this page. -/
def ReadsBetween (env : Kernel δ) (disk : Disk) (o e : Nat) : Prop :=
  ∀ h index, o / PAGE_SIZE ≤ index → index * PAGE_SIZE < e →
    env h (.readCacheFolio index) = FolioResult.folio (disk.page index)

theorem ReadsWithin.readsBetween {size : Nat} (hd : ReadsWithin env disk size) (o : Nat) :
    ReadsBetween env disk o size := fun h index _ hin => hd h index hin

theorem visit_cons_run {o e : Nat} (hd : ReadsBetween env disk o e)
    (cb : σ → Nat × Nat → Slice → Prog δ (σ × Option υ)) {p : Nat × Nat} (ho : o ≤ p.1) (hp : p.1 < e)
    (ps : List (Nat × Nat)) (s : σ) (h : History δ) :
    (visit cb (p :: ps) s).run env h =
      ((cb s p (disk.tail p.1)).bind fun r =>
        if r.2.isSome then pure r else visit cb ps r.1).run env (h ++ [pageRead disk p.1]) := by
  have hpage : p.1 / PAGE_SIZE * PAGE_SIZE < e := (Nat.div_mul_le_self _ _).trans_lt hp
  rw [visit, mappedFolio, if_neg (by omega), Int.toNat_natCast, Program.call_bind, Program.run,
    hd h _ (Nat.div_le_div_right ho) hpage]
  simp only [disk.page_tail]
  rfl

/-- A walk over pieces goes through all of them or stops at one. -/
theorem visit_run {o e : Nat} (hd : ReadsBetween env disk o e)
    (cb : σ → Slice → Prog δ (σ × Option υ)) {ps : List (Nat × Nat)}
    (hps : ∀ p ∈ ps, o ≤ p.1 ∧ p.1 < e)
    (s : σ) (h : History δ) :
    let r := (visit (fun s p mapped => cb s (mapped.sub 0 p.2)) ps s).run env h
    GoesThrough env disk cb ps s h r ∨ StopsAt env disk cb ps s h r := by
  intro r
  induction ps generalizing s h with
  | nil => exact Or.inl ⟨s, h, .nil s h, rfl⟩
  | cons p ps ih =>
    obtain ⟨ho, he⟩ := hps p List.mem_cons_self
    have hrun : r = _ := visit_cons_run hd _ ho he ps s h
    rw [Program.run_bind] at hrun
    have hpiece : (disk.tail p.1).sub 0 p.2 = disk.piece p := rfl
    rw [hpiece] at hrun
    generalize hcb : (cb s (disk.piece p)).run env (h ++ [pageRead disk p.1]) = q at hrun
    obtain ⟨out, h₁⟩ := q
    have hstop : (∀ s'', out ≠ .done (s'', none)) → r = (out, h₁) →
        StopsAt env disk cb (p :: ps) s h r := by
      intro hne hr
      exact ⟨[], p, ps, s, h, rfl, .nil s h, hcb.trans hr.symm, by rw [hr]; exact hne⟩
    cases out with
    | failed e => exact Or.inr (hstop (by rintro _ ⟨⟩) hrun)
    | aborted => exact Or.inr (hstop (by rintro _ ⟨⟩) hrun)
    | done x =>
      obtain ⟨s₁, ret⟩ := x
      cases ret with
      | some v => exact Or.inr (hstop (by rintro _ ⟨⟩) hrun)
      | none =>
        rcases ih (fun q hq => hps q (List.mem_cons_of_mem p hq)) s₁ h₁ with hall | hone
        · obtain ⟨s', h', hpass, hr⟩ := hall
          exact Or.inl ⟨s', h', .cons hcb hpass, hrun.trans hr⟩
        · obtain ⟨before, q, after, s', h', rfl, hpass, hq, hne⟩ := hone
          exact Or.inr ⟨p :: before, q, after, s', h', rfl, .cons hcb hpass, hq.trans hrun.symm,
            fun s'' hs => hne s'' (by rw [← hs, hrun]; rfl)⟩

/-- A callback that goes on at every piece is led through all of them, and there is nothing to see but
the reads of the pages. -/
theorem visit_completes {size : Nat} (hd : ReadsWithin env disk size) {γ : Type}
    {seen : Event KernelCall (KernelCall.Resp δ) → Option γ}
    (hseen : ∀ o, seen (pageRead disk o) = none)
    {cb : σ → Nat × Nat → Slice → Prog δ (σ × Option υ)} {I : Nat → σ → Prop} {e : Nat} (he : e ≤ size)
    (hstep : ∀ {a k : Nat} {s : σ}, a + k ≤ e → a % PAGE_SIZE + k ≤ PAGE_SIZE → I a s →
      ∃ s', cb s (a, k) (disk.tail a) = pure (s', none) ∧ I (a + k) s')
    {o n : Nat} {ps : List (Nat × Nat)} (htiles : Tiles PAGE_SIZE o n ps) (hend : o + n ≤ e) {s : σ}
    (hs : I o s) : ∃ s', I (o + n) s' ∧ Program.Unseen seen env (visit cb ps s) (s', none) := by
  induction htiles generalizing s with
  | nil o => exact ⟨s, hs, Program.Unseen.done _⟩
  | @cons o k m ps pos inside full rest ih =>
    obtain ⟨s₁, hcb, hs₁⟩ := hstep (by omega) inside hs
    obtain ⟨s', hs', hrest⟩ := ih (by omega) hs₁
    refine ⟨s', Nat.add_assoc o k m ▸ hs', fun h => ?_⟩
    obtain ⟨h', hrun, hsame⟩ := hrest (h ++ [pageRead disk o])
    refine ⟨h', ?_, ?_⟩
    · rw [visit_cons_run (hd.readsBetween o) cb (Nat.le_refl o) (by show o < size; omega), hcb]
      exact hrun
    · have hread : [pageRead disk o].filterMap seen = [] := List.filterMap_cons_none (hseen o)
      rw [hsame, List.filterMap_append, hread, List.append_nil]

/-- With folios of one page, the callback gets the pieces of the range, cut at the page boundaries, in
their order: all of them, or those up to the one at which it first returns a value or an error, and
that is then the result. -/
theorem forEachPage_covers {offset len : Int} (h0 : 0 ≤ offset) (hmax : offset + len ≤ 2 ^ 63 - 1)
    (hd : ReadsBetween env disk offset.toNat (offset + len).toNat)
    (cb : σ → Slice → Prog δ (σ × Option υ)) (s : σ) (h : History δ) :
    let ps := pieces PAGE_SIZE offset.toNat len.toNat
    let r := (forEachPage offset len cb s).run env h
    Tiles PAGE_SIZE offset.toNat len.toNat ps ∧
      (ps.map fun p => (disk.piece p).bytes).flatten = span disk offset.toNat len.toNat ∧
      (GoesThrough env disk cb ps s h r ∨ StopsAt env disk cb ps s h r) ∧
      (len ≤ 0 → ps = [] ∧ r = (.done (s, none), h)) := by
  intro ps r
  have htiles : Tiles PAGE_SIZE offset.toNat len.toNat ps := pieces_tiles (by decide) _ _
  have hempty : len ≤ 0 → ps = [] ∧ r = (.done (s, none), h) := by
    intro hlen
    have hzero : len.toNat = 0 := by omega
    refine ⟨?_, ?_⟩
    · show pieces PAGE_SIZE offset.toNat len.toNat = []
      rw [hzero]
      rfl
    · show (forEachPage offset len cb s).run env h = _
      rw [forEachPage, if_pos hlen]
      rfl
  refine ⟨htiles, ?_, ?_, hempty⟩
  · simp only [Disk.piece_bytes]
    exact htiles.flatten disk
  · by_cases hlen : len ≤ 0
    · obtain ⟨hps, hr⟩ := hempty hlen
      refine Or.inl ⟨s, h, ?_, hr⟩
      rw [hps]
      exact .nil s h
    · have hwalk : forEachPage offset len cb s =
          visit (fun s p mapped => cb s (mapped.sub 0 p.2)) ps s := by
        have heq := forEachPage_eq_visit cb (o := offset.toNat) (n := len.toNat) (by omega) s
        rwa [Int.toNat_of_nonneg h0, Int.toNat_of_nonneg (by omega)] at heq
      have hinside : ∀ p ∈ ps, offset.toNat ≤ p.1 ∧ p.1 < (offset + len).toNat := by
        intro p hp
        obtain ⟨hge, hle, hpos, -⟩ := htiles.mem hp
        exact ⟨hge, by omega⟩
      have hrun : r = (visit (fun s p mapped => cb s (mapped.sub 0 p.2)) ps s).run env h := by
        rw [← hwalk]
      rw [hrun]
      exact visit_run hd cb hinside s h

end SinglePages

/-- A range over a page boundary, with a callback that adds up the lengths. -/
theorem forEachPage_covers_twoPages :
    let disk : Disk := fun i => UInt8.ofNat i
    let env : Kernel Unit :=
      steadyKernel (fun index => .folio (disk.page index)) (fun _ => .null) 0 0 false
    let cb : Nat → Slice → Prog Unit (Nat × Option Unit) := fun n d => pure (n + d.len, none)
    let r := (forEachPage 4000 200 cb 0).run env []
    pieces PAGE_SIZE (4000 : Int).toNat (200 : Int).toNat = [(4000, 96), (4096, 104)] ∧
      ReadsBetween env disk (4000 : Int).toNat ((4000 : Int) + 200).toNat ∧
      (GoesThrough env disk cb (pieces PAGE_SIZE (4000 : Int).toNat (200 : Int).toNat) 0 [] r ∨
        StopsAt env disk cb (pieces PAGE_SIZE (4000 : Int).toNat (200 : Int).toNat) 0 [] r) := by
  intro disk env cb r
  have hd : ReadsBetween env disk (4000 : Int).toNat ((4000 : Int) + 200).toNat :=
    fun _ _ _ _ => rfl
  have hcovers := forEachPage_covers (by decide) (by decide) hd cb 0 []
  exact ⟨by decide, hd, hcovers.2.2.1⟩

end Rko
