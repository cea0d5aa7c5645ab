import Rko.CallPool
import Rko.FolioGeometry
import Rko.GuardedRun
import Rko.MapperPieces

namespace Rko

open CallProgram CallPool RangeCut

variable {δ σ υ : Type}

/-- `MappedFolio::cap`. -/
def Slice.cap (s : Slice) (maxLen : Nat) : Slice :=
  if maxLen < s.len then { s with len := maxLen } else s

theorem Slice.cap_len (s : Slice) (maxLen : Nat) : (s.cap maxLen).len = min s.len maxLen := by
  rw [cap]
  split
  next h => exact (Nat.min_eq_right (Nat.le_of_lt h)).symm
  next h => exact (Nat.min_eq_left (by omega)).symm

theorem Slice.cap_byte (s : Slice) (maxLen i : Nat) : (s.cap maxLen).byte i = s.byte i := by
  rw [cap]
  split <;> rfl

/-- A view of the device that is restricted to `len` bytes from `offset` on. -/
structure BoundedMapper where
  offset : Int
  len : Int
deriving DecidableEq, Repr

/-- `Mapper::bounded`. -/
def bounded (offset len : Int) : BoundedMapper := ⟨offset, len⟩

namespace BoundedMapper

/-- `BoundedMapper::split_at`: the front part that is returned, and what is left. -/
def splitAt (v : BoundedMapper) (mid : Int) : BoundedMapper × BoundedMapper :=
  let mid := max (min mid v.len) 0
  (⟨v.offset, mid⟩, ⟨(Offset.wrap (v.offset + mid)).val, (Offset.wrap (v.len - mid)).val⟩)

def capLen (v : BoundedMapper) (maxLen : Int) : BoundedMapper :=
  if maxLen < v.len then { v with len := max maxLen 0 } else v

def mappedFolio (v : BoundedMapper) (relOffset : Int) : Prog δ Slice :=
  if relOffset < 0 ∨ relOffset ≥ v.len then Program.fail Error.EINVAL
  else do
    let mapped ← Rko.mappedFolio (Offset.wrap (v.offset + relOffset)).val
    pure (mapped.cap (v.len - relOffset).toNat)

def forEachPage (v : BoundedMapper) (cb : σ → Slice → Prog δ (σ × Option υ)) (s : σ) :
    Prog δ (σ × Option υ) :=
  Rko.forEachPage v.offset v.len cb s

/-- The byte at `i` of the device is in the range of the view. -/
def Covers (v : BoundedMapper) (i : Int) : Prop := v.offset ≤ i ∧ i < v.offset + v.len

/-- The view covers a part of the `l` bytes from `o` on. -/
structure Inside (o l : Int) (v : BoundedMapper) : Prop where
  len_nonneg : 0 ≤ v.len
  start_le : o ≤ v.offset
  end_le : v.offset + v.len ≤ o + l

/-- A view is cut in two that are adjacent and cover what it covered. -/
structure Cut (v : BoundedMapper) (parts : BoundedMapper × BoundedMapper) : Prop where
  start_eq : parts.1.offset = v.offset
  adjacent : parts.1.offset + parts.1.len = parts.2.offset
  end_eq : parts.2.offset + parts.2.len = v.offset + v.len
  front_nonneg : 0 ≤ parts.1.len
  rest_nonneg : 0 ≤ parts.2.len

section

variable {o l : Int} {v : BoundedMapper}

theorem Inside.splitAt_cut (hv : Inside o l v) (ho : 0 ≤ o) (hmax : o + l ≤ 2 ^ 63 - 1) (mid : Int) :
    Cut v (v.splitAt mid) := by
  obtain ⟨hlen, hstart, hend⟩ := hv
  obtain ⟨m, hm⟩ : ∃ m, m = max (min mid v.len) 0 := ⟨_, rfl⟩
  have hoffset : (Offset.wrap (v.offset + m)).val = v.offset + m :=
    Offset.wrap_val (by omega) (by omega)
  have hrest : (Offset.wrap (v.len - m)).val = v.len - m := Offset.wrap_val (by omega) (by omega)
  have hsplit : v.splitAt mid = (⟨v.offset, m⟩, ⟨v.offset + m, v.len - m⟩) := by
    rw [splitAt, ← hm, hoffset, hrest]
  rw [hsplit]
  constructor <;> simp only <;> omega

theorem Cut.inside {parts : BoundedMapper × BoundedMapper} (h : Cut v parts) (hv : Inside o l v) :
    Inside o l parts.1 ∧ Inside o l parts.2 := by
  obtain ⟨hstart, hadj, hend, hfront, hrest⟩ := h
  obtain ⟨hlen, hge, hle⟩ := hv
  exact ⟨⟨hfront, by omega, by omega⟩, ⟨hrest, by omega, by omega⟩⟩

theorem Cut.covers_iff {parts : BoundedMapper × BoundedMapper} (h : Cut v parts) (i : Int) :
    v.Covers i ↔ parts.1.Covers i ∨ parts.2.Covers i := by
  obtain ⟨hstart, hadj, hend, hfront, hrest⟩ := h
  unfold Covers
  omega

theorem Cut.not_both {parts : BoundedMapper × BoundedMapper} (h : Cut v parts) (i : Int) :
    ¬ (parts.1.Covers i ∧ parts.2.Covers i) := by
  obtain ⟨hstart, hadj, hend, hfront, hrest⟩ := h
  unfold Covers
  omega

theorem Inside.capLen (hv : Inside o l v) (maxLen : Int) : Inside o l (v.capLen maxLen) := by
  obtain ⟨hlen, hstart, hend⟩ := hv
  rw [BoundedMapper.capLen]
  split
  next h => exact ⟨Int.le_max_right _ _, hstart, by simp only; omega⟩
  next => exact ⟨hlen, hstart, hend⟩

theorem Inside.covers_of_capLen (hv : Inside o l v) {maxLen i : Int} (h : (v.capLen maxLen).Covers i) :
    v.Covers i := by
  have hlen := hv.len_nonneg
  rw [BoundedMapper.capLen] at h
  split at h
  next hlt =>
    obtain ⟨hge, hle⟩ := h
    exact ⟨hge, by simp only at hle; omega⟩
  next => exact h

end

end BoundedMapper

open BoundedMapper

/-- A call on one of the views that there are so far. -/
inductive ViewOp
  | splitAt (i : Nat) (mid : Int)
  | capLen (i : Nat) (maxLen : Int)
deriving DecidableEq, Repr

/-- The views after a call; the view returned by `split_at` comes last. -/
def stepViews (views : List BoundedMapper) : ViewOp → Option (List BoundedMapper)
  | .splitAt i mid => views[i]?.map fun v => views.set i (v.splitAt mid).2 ++ [(v.splitAt mid).1]
  | .capLen i maxLen => views[i]?.map fun v => views.set i (v.capLen maxLen)

/-- The views cover parts of the range of which no two have a byte in common. -/
structure Parts (o l : Int) (views : List BoundedMapper) : Prop where
  inside : ∀ v ∈ views, Inside o l v
  disjoint : ∀ {i j : Nat} {v w : BoundedMapper}, i ≠ j → views[i]? = some v → views[j]? = some w →
    ∀ k, ¬ (v.Covers k ∧ w.Covers k)

namespace Parts

variable {o l : Int} {views : List BoundedMapper} {i : Nat} {v : BoundedMapper}

theorem single {o l : Int} (hl : 0 ≤ l) : Parts o l [bounded o l] where
  inside := by
    intro v hv
    obtain rfl := List.mem_singleton.mp hv
    exact ⟨hl, Int.le_refl o, Int.le_refl _⟩
  disjoint := by
    intro i j v w hne hv hw
    obtain ⟨hi, -⟩ := List.getElem?_eq_some_iff.mp hv
    obtain ⟨hj, -⟩ := List.getElem?_eq_some_iff.mp hw
    rw [List.length_singleton] at hi hj
    omega

/-- A view may be replaced by one that covers less. -/
theorem shrink (h : Parts o l views) (hv : views[i]? = some v) {v' : BoundedMapper}
    (hinside : Inside o l v') (hless : ∀ k, v'.Covers k → v.Covers k) :
    Parts o l (views.set i v') where
  inside := by
    intro u hu
    obtain ⟨j, hj⟩ := List.mem_iff_getElem?.mp hu
    rcases getElem?_set_cases hj with ⟨-, rfl⟩ | ⟨-, hold⟩
    · exact hinside
    · exact h.inside u (List.mem_of_getElem? hold)
  disjoint := by
    intro a b u w hne hu hw k hk
    rcases getElem?_set_cases hu with ⟨rfl, rfl⟩ | ⟨-, hu'⟩
    · rcases getElem?_set_cases hw with ⟨rfl, -⟩ | ⟨-, hw'⟩
      · exact hne rfl
      · exact h.disjoint hne hv hw' k ⟨hless k hk.1, hk.2⟩
    · rcases getElem?_set_cases hw with ⟨rfl, rfl⟩ | ⟨-, hw'⟩
      · exact h.disjoint hne hu' hv k ⟨hk.1, hless k hk.2⟩
      · exact h.disjoint hne hu' hw' k hk

/-- A view may be added that has no byte in common with the others. -/
theorem concat (h : Parts o l views) {v' : BoundedMapper} (hinside : Inside o l v')
    (hother : ∀ (j : Nat) (w : BoundedMapper), views[j]? = some w →
      ∀ k, ¬ (v'.Covers k ∧ w.Covers k)) :
    Parts o l (views ++ [v']) where
  inside := by
    intro u hu
    rcases List.mem_append.mp hu with hold | hnew
    · exact h.inside u hold
    · obtain rfl := List.mem_singleton.mp hnew
      exact hinside
  disjoint := by
    intro a b u w hne hu hw k hk
    rcases getElem?_concat_cases hu with hu' | ⟨rfl, rfl⟩
    · rcases getElem?_concat_cases hw with hw' | ⟨-, rfl⟩
      · exact h.disjoint hne hu' hw' k hk
      · exact hother a u hu' k ⟨hk.2, hk.1⟩
    · rcases getElem?_concat_cases hw with hw' | ⟨rfl, -⟩
      · exact hother b w hw' k hk
      · exact hne rfl

theorem split (h : Parts o l views) (ho : 0 ≤ o) (hmax : o + l ≤ 2 ^ 63 - 1) (hv : views[i]? = some v)
    (mid : Int) : Parts o l (views.set i (v.splitAt mid).2 ++ [(v.splitAt mid).1]) := by
  have hin : Inside o l v := h.inside v (List.mem_of_getElem? hv)
  have hcut : Cut v (v.splitAt mid) := hin.splitAt_cut ho hmax mid
  obtain ⟨hfront, hrest⟩ := hcut.inside hin
  apply (h.shrink hv hrest fun k hk => (hcut.covers_iff k).mpr (Or.inr hk)).concat hfront
  intro j w hw k hk
  rcases getElem?_set_cases hw with ⟨-, rfl⟩ | ⟨hne, hold⟩
  · exact hcut.not_both k hk
  · exact h.disjoint hne hold hv k ⟨hk.2, (hcut.covers_iff k).mpr (Or.inl hk.1)⟩

theorem step (h : Parts o l views) (ho : 0 ≤ o) (hmax : o + l ≤ 2 ^ 63 - 1)
    {views' : List BoundedMapper} {op : ViewOp} (hstep : stepViews views op = some views') :
    Parts o l views' := by
  cases op with
  | splitAt i mid =>
    obtain ⟨v, hv, rfl⟩ := Option.map_eq_some_iff.mp hstep
    exact h.split ho hmax hv mid
  | capLen i maxLen =>
    obtain ⟨v, hv, rfl⟩ := Option.map_eq_some_iff.mp hstep
    have hin : Inside o l v := h.inside v (List.mem_of_getElem? hv)
    exact h.shrink hv (hin.capLen maxLen) fun k hk => hin.covers_of_capLen hk

theorem run (ho : 0 ≤ o) (hl : 0 ≤ l) (hmax : o + l ≤ 2 ^ 63 - 1) {ops : List ViewOp}
    (hrun : GuardedRun.run stepViews [bounded o l] ops = some views) : Parts o l views :=
  GuardedRun.run_invariant (fun h _ hstep => Parts.step h ho hmax hstep) (Parts.single hl)
    (GuardedRun.guarded_of_forall (P := fun _ => True) (fun _ _ => trivial) _) hrun

end Parts

/-- Which folio a page lies in: its first page and how many pages it has. -/
structure Geometry where
  first : Nat → Nat
  pages : Nat → Nat
  first_le : ∀ index, first index ≤ index
  lt_last : ∀ index, index < first index + pages index

theorem Geometry.pages_pos (geo : Geometry) (index : Nat) : 0 < geo.pages index := by
  have hfirst := geo.first_le index
  have hlast := geo.lt_last index
  omega

/-- Reads that succeed return up-to-date folios of this geometry. -/
def ReadsThrough (env : Kernel δ) (geo : Geometry) (disk : Disk) : Prop :=
  ∀ h index f, env h (.readCacheFolio index) = FolioResult.folio f →
    f.first = geo.first index ∧ f.pages = geo.pages index ∧ f.UpToDate disk

namespace BoundedMapper

/-- What is shown at a place of the view ends with the view, and a walk over the view hands out the
pieces of its range. -/
structure Confined (δ : Type) (v : BoundedMapper) : Prop where
  mapped : ∀ relOffset, (v.mappedFolio relOffset : Prog δ Slice).Ensures fun b =>
    0 ≤ relOffset ∧ relOffset + b.len ≤ v.len
  visited : ∀ {σ υ : Type} (cb : σ → Slice → Prog δ (σ × Option υ)) (s : σ),
    v.forEachPage cb s = visit (fun s p mapped => cb s (mapped.sub 0 p.2))
      (pieces PAGE_SIZE v.offset.toNat v.len.toNat) s

/-- The bytes shown are those of the device at the places they are shown for. -/
structure Exact (env : Kernel δ) (disk : Disk) (v : BoundedMapper) : Prop where
  mapped : ∀ relOffset h b, ((v.mappedFolio relOffset).run env h).1 = .done b →
    b.bytes = span disk (v.offset + relOffset).toNat b.len
  visited : ∀ {σ υ : Type} (cb : σ → List UInt8 → Prog δ (σ × Option υ)) (s : σ) (h : History δ),
    (v.forEachPage (fun s d => cb s d.bytes) s).run env h =
      (visit (fun s p _ => cb s (span disk p.1 p.2))
        (pieces PAGE_SIZE v.offset.toNat v.len.toNat) s).run env h

section

variable {o l : Int} {v : BoundedMapper}

theorem Inside.confined (hv : Inside o l v) (ho : 0 ≤ o) (hmax : o + l ≤ 2 ^ 63 - 1) :
    Confined δ v where
  mapped := by
    intro relOffset
    rw [BoundedMapper.mappedFolio]
    split
    next => trivial
    next hin =>
      apply (mappedFolio_ensures _).bind
      intro mapped _
      show 0 ≤ relOffset ∧ relOffset + (mapped.cap (v.len - relOffset).toNat).len ≤ v.len
      rw [Slice.cap_len]
      omega
  visited := by
    intro σ υ cb s
    obtain ⟨hlen, hstart, hend⟩ := hv
    have heq := forEachPage_eq_visit cb (o := v.offset.toNat) (n := v.len.toNat) (by omega) s
    rwa [Int.toNat_of_nonneg (by omega), Int.toNat_of_nonneg hlen] at heq

/-- The root view shows the byte at each place of its range. -/
theorem root_mappedFolio (hmax : o + l ≤ 2 ^ 63 - 1) {env : Kernel δ} {h : History δ}
    {i : Nat} (hge : o ≤ i) (hlt : i < o + l) {f : Folio}
    (hfolio : env h (.readCacheFolio (i / PAGE_SIZE)) = FolioResult.folio f) :
    (((bounded o l).mappedFolio (i - o)).run env h).1 =
      .done ((f.tail i).cap (l - (i - o)).toNat) := by
  have hwrap : (Offset.wrap (o + (i - o))).val = i := by
    rw [Offset.wrap_val (by omega) (by omega)]
    omega
  have hrun := mappedFolio_run_folio (Int.natCast_nonneg i) hfolio
  rw [BoundedMapper.mappedFolio, if_neg (by simp only [bounded]; omega)]
  show (((Rko.mappedFolio (Offset.wrap (o + (i - o))).val).bind fun mapped =>
    pure (mapped.cap (l - (i - o)).toNat)).run env h).1 = _
  rw [hwrap, Program.run_bind]
  generalize hq : (Rko.mappedFolio (i : Int)).run env h = q at hrun
  obtain ⟨out, h'⟩ := q
  obtain rfl : out = .done (f.tail i) := hrun
  rfl

end

section Exact

variable {env : Kernel δ} {disk : Disk} {geo : Geometry}

/-- A page that its folio starts at is shown as it is on the device. -/
theorem read_exact (hd : ReadsThrough env geo disk) {i : Nat}
    (hfirst : geo.first (i / PAGE_SIZE) = i / PAGE_SIZE) {h : History δ} {b : Slice}
    (hrun : ((Rko.mappedFolio (i : Int)).run env h).1 = .done b) :
    b.len = PAGE_SIZE - i % PAGE_SIZE ∧ ∀ j < b.len, b.byte j = disk (i + j) := by
  obtain ⟨-, f, hfolio, rfl⟩ := mappedFolio_run_done hrun
  rw [Int.toNat_natCast] at hfolio ⊢
  obtain ⟨hf, hp, hup⟩ := hd h _ f hfolio
  have hpages : 0 < f.pages := by
    rw [hp]
    exact geo.pages_pos _
  refine ⟨rfl, fun j hj => ?_⟩
  rw [hup.tail_byte hpages hj, hf, hfirst, Nat.div_add_mod']

variable {o l : Int} {v : BoundedMapper}

theorem Inside.exact (hv : Inside o l v) (ho : 0 ≤ o) (hmax : o + l ≤ 2 ^ 63 - 1)
    (hd : ReadsThrough env geo disk)
    (haligned : ∀ i : Nat, o ≤ i → i < o + l → geo.first (i / PAGE_SIZE) = i / PAGE_SIZE) :
    Exact env disk v where
  mapped := by
    intro relOffset h b hrun
    obtain ⟨hlen, hstart, hend⟩ := hv
    rw [BoundedMapper.mappedFolio] at hrun
    split at hrun
    next => cases hrun
    next hin =>
      obtain ⟨i, hi⟩ : ∃ i : Nat, (i : Int) = v.offset + relOffset :=
        ⟨(v.offset + relOffset).toNat, by omega⟩
      obtain ⟨mapped, h', hread, hb⟩ := Program.run_bind_done hrun
      rw [Offset.wrap_val (by omega) (by omega), ← hi] at hread
      cases hb
      obtain ⟨-, hbytes⟩ := read_exact hd (haligned i (by omega) (by omega)) (congrArg Prod.fst hread)
      rw [← hi, Int.toNat_natCast]
      rw [Slice.bytes_eq_span_iff]
      intro j hj
      rw [Slice.cap_len] at hj
      rw [Slice.cap_byte]
      exact hbytes j (by omega)
  visited := by
    intro σ υ cb s h
    rw [(hv.confined ho hmax).visited]
    have htiles := pieces_tiles (by decide : 0 < PAGE_SIZE) v.offset.toNat v.len.toNat
    obtain ⟨hlen, hstart, hend⟩ := hv
    apply visit_run_congr
    intro p hp s h b hread
    obtain ⟨hge, hle, hpos, hpage⟩ := htiles.mem hp
    obtain ⟨hblen, hbytes⟩ := read_exact hd (haligned p.1 (by omega) (by omega)) hread
    have hpiece : (b.sub 0 p.2).bytes = span disk p.1 (b.sub 0 p.2).len := by
      rw [Slice.bytes_eq_span_iff]
      intro j hj
      rw [Slice.sub_len] at hj
      rw [Slice.sub_byte, Nat.zero_add]
      exact hbytes j (by omega)
    rw [hpiece, Slice.sub_len]

end Exact

end BoundedMapper

/-- Whatever the calls of `split_at` and `cap_len` and whatever the kernel answers, the views have no
byte in common, a split cuts a view in two, and what a view shows belongs to its range. It is shown as
it is on the device, whatever the device holds, exactly when each page of the range lies at the start
of its folio. -/
theorem boundedMapper_exact_iff (geo : Geometry) {o l : Int} (ho : 0 ≤ o) (hl : 0 ≤ l)
    (hmax : o + l ≤ 2 ^ 63 - 1) :
    (∀ ops views, GuardedRun.run stepViews [bounded o l] ops = some views →
      Parts o l views ∧ ∀ v ∈ views, (∀ mid, Cut v (v.splitAt mid)) ∧ Confined δ v) ∧
    ((∀ (disk : Disk) (env : Kernel δ) ops views, ReadsThrough env geo disk →
        GuardedRun.run stepViews [bounded o l] ops = some views → ∀ v ∈ views, Exact env disk v) ↔
      ∀ i : Nat, o ≤ i → i < o + l → geo.first (i / PAGE_SIZE) = i / PAGE_SIZE) := by
  refine ⟨?_, ?_, ?_⟩
  · intro ops views hrun
    have hparts := Parts.run ho hl hmax hrun
    refine ⟨hparts, fun v hv => ⟨fun mid => ?_, ?_⟩⟩
    · exact (hparts.inside v hv).splitAt_cut ho hmax mid
    · exact (hparts.inside v hv).confined ho hmax
  · intro hexact i hge hlt
    rw [← first_byte_exact_iff (geo.first_le _) (geo.pages_pos (i / PAGE_SIZE))]
    intro disk f hf hp hup
    -- the page of `i` lies in `f`, the other pages in any folios of the geometry
    let env : Kernel δ := cachingKernel (Function.update
      (fun index => disk.folio (geo.first index) (geo.pages index)) (i / PAGE_SIZE) f)
    have hd : ReadsThrough env geo disk := by
      intro h index f' hf'
      obtain rfl := FolioResult.folio.inj hf'
      by_cases hindex : index = i / PAGE_SIZE
      · rw [hindex, Function.update_self]
        exact ⟨hf, hp, hup⟩
      · rw [Function.update_of_ne hindex]
        exact ⟨rfl, rfl, disk.folio_upToDate _ _⟩
    have hfolio : env [] (.readCacheFolio (i / PAGE_SIZE)) = FolioResult.folio f :=
      congrArg FolioResult.folio (Function.update_self _ _ _)
    have hroot := hexact disk env [] [bounded o l] hd rfl _ List.mem_cons_self
    have hbytes := hroot.mapped _ _ _ (root_mappedFolio hmax hge hlt hfolio)
    have hmod : i % PAGE_SIZE < PAGE_SIZE := Nat.mod_lt i (by decide)
    have hlen : (f.tail i).len = PAGE_SIZE - i % PAGE_SIZE := rfl
    have hbyte := Slice.bytes_eq_span_iff.mp hbytes 0 (by rw [Slice.cap_len]; omega)
    have hplace : (o + (i - o)).toNat + 0 = i := by omega
    rw [Slice.cap_byte] at hbyte
    show (f.tail i).byte 0 = disk i
    rw [hbyte]
    exact congrArg disk hplace
  · intro haligned disk env ops views hd hrun v hv
    exact ((Parts.run ho hl hmax hrun).inside v hv).exact ho hmax hd haligned

def singlePages : Geometry := ⟨fun index => index, fun _ => 1, fun _ => by omega, fun _ => by omega⟩

/-- Views of a range over a page boundary, with folios of one page. -/
theorem boundedMapper_exact_iff_singlePages :
    (∀ ops views, GuardedRun.run stepViews [bounded 4000 200] ops = some views →
      Parts 4000 200 views ∧ ∀ v ∈ views, (∀ mid, Cut v (v.splitAt mid)) ∧ Confined Unit v) ∧
    ∀ (disk : Disk) (env : Kernel Unit) ops views, ReadsThrough env singlePages disk →
      GuardedRun.run stepViews [bounded 4000 200] ops = some views → ∀ v ∈ views, Exact env disk v := by
  have hexact := boundedMapper_exact_iff (δ := Unit) singlePages (o := 4000) (l := 200) (by decide)
    (by decide) (by decide)
  exact ⟨hexact.1, hexact.2.mpr fun _ _ _ => rfl⟩

def pagePairs : Geometry :=
  ⟨fun index => index - index % 2, fun _ => 2, fun _ => by omega, fun _ => by omega⟩

/-- With folios of two pages, a view of ten bytes of the second page shows ten bytes of the first, that
are outside of it. -/
theorem boundedMapper_shows_outside :
    let disk : Disk := fun i => if i < 4096 then 7 else 9
    let env : Kernel Unit := cachingKernel fun index => disk.folio (pagePairs.first index) 2
    ReadsThrough env pagePairs disk ∧
      ∃ b, (((bounded 4096 10).mappedFolio 0).run env []).1 = .done b ∧ b.len = 10 ∧ b.byte 0 = 7 ∧
        disk 4096 = 9 := by
  intro disk env
  have hfolio : env [] (.readCacheFolio (4096 / PAGE_SIZE)) = FolioResult.folio (disk.folio 0 2) := rfl
  have hroot := root_mappedFolio (o := 4096) (l := 10) (by decide) (by decide) (by decide) hfolio
  refine ⟨?_, _, hroot, by decide, by decide, by decide⟩
  rintro h index f hf
  obtain rfl := FolioResult.folio.inj hf
  exact ⟨rfl, rfl, disk.folio_upToDate _ _⟩

end Rko
