import Rko.Mapper
import Rko.RangeCut

namespace Rko

open CallProgram RangeCut

variable {δ : Type}

/-- The folio contains the page. -/
def Folio.Holds (f : Folio) (index : Nat) : Prop := f.first ≤ index ∧ index < f.first + f.pages

/-- The folio shows the contents of the device. -/
def Folio.UpToDate (f : Folio) (disk : Disk) : Prop :=
  ∀ o < f.pages * PAGE_SIZE, f.byte o = disk (f.first * PAGE_SIZE + o)

/-- The pages of the device from `first` on. -/
def Disk.folio (disk : Disk) (first pages : Nat) : Folio :=
  ⟨first, pages, fun o => disk (first * PAGE_SIZE + o)⟩

theorem Disk.folio_upToDate (disk : Disk) (first pages : Nat) :
    (disk.folio first pages).UpToDate disk := fun _ _ => rfl

theorem Slice.bytes_eq_span_iff {b : Slice} {f : Nat → UInt8} {o : Nat} :
    b.bytes = span f o b.len ↔ ∀ i < b.len, b.byte i = f (o + i) := by
  unfold Slice.bytes span
  rw [List.map_inj_left]
  constructor
  · intro h i hi
    exact h i (List.mem_range.mpr hi)
  · intro h i hi
    exact h i (List.mem_range.mp hi)

theorem Folio.UpToDate.firstPage {f : Folio} {disk : Disk} (hf : f.UpToDate disk)
    (hpages : 0 < f.pages) {i : Nat} (hi : i < PAGE_SIZE) :
    f.byte i = disk (f.first * PAGE_SIZE + i) := by
  have hle : 1 * PAGE_SIZE ≤ f.pages * PAGE_SIZE := Nat.mul_le_mul_right _ hpages
  exact hf i (by omega)

/-- A folio mapped from its start shows its first page, whichever page was asked for. -/
theorem Folio.UpToDate.tail_byte {f : Folio} {disk : Disk} (hf : f.UpToDate disk)
    (hpages : 0 < f.pages) {offset i : Nat} (hi : i < PAGE_SIZE - offset % PAGE_SIZE) :
    (f.tail offset).byte i = disk (f.first * PAGE_SIZE + offset % PAGE_SIZE + i) := by
  have hbyte := hf.firstPage hpages (i := offset % PAGE_SIZE + i) (by omega)
  rw [← Nat.add_assoc] at hbyte
  exact hbyte

theorem mappedFolio_run_folio {env : Kernel δ} {h : History δ} {offset : Int} (h0 : 0 ≤ offset)
    {f : Folio} (hfolio : env h (.readCacheFolio (offset.toNat / PAGE_SIZE)) = FolioResult.folio f) :
    ((mappedFolio offset).run env h).1 = .done (f.tail offset.toNat) := by
  rw [mappedFolio, if_neg (by omega), Program.run, hfolio]
  rfl

/-- Reads that succeed return an up-to-date folio that starts at the page asked for. -/
def ReadsPages (env : Kernel δ) (disk : Disk) : Prop :=
  ∀ h index f, env h (.readCacheFolio index) = FolioResult.folio f →
    f.first = index ∧ 0 < f.pages ∧ f.UpToDate disk

theorem ReadsDisk.readsPages {env : Kernel δ} {disk : Disk} (hd : ReadsDisk env disk) :
    ReadsPages env disk := by
  intro h index f hf
  rw [hd h index] at hf
  cases hf
  exact ⟨rfl, Nat.one_pos, disk.folio_upToDate index 1⟩

theorem ReadsPages.mappedFolio {env : Kernel δ} {disk : Disk} (hd : ReadsPages env disk)
    {h : History δ} {offset : Int} {b : Slice} (hrun : ((mappedFolio offset).run env h).1 = .done b) :
    0 ≤ offset ∧ b.base = offset.toNat % PAGE_SIZE ∧ b.len = PAGE_SIZE - offset.toNat % PAGE_SIZE ∧
      ∀ i < b.len, b.byte i = disk (offset.toNat + i) := by
  obtain ⟨h0, f, hfolio, rfl⟩ := mappedFolio_run_done hrun
  obtain ⟨hf, hpages, hup⟩ := hd h _ f hfolio
  refine ⟨h0, rfl, rfl, fun i hi => ?_⟩
  rw [hup.tail_byte hpages hi, hf, Nat.div_add_mod']

/-- A device that has a single byte that is not zero. -/
def markedDisk (o : Nat) : Disk := fun i => if i = o then 1 else 0

/-- Every page lies in the folio that `folios` gives. -/
def cachingKernel (folios : Nat → Folio) : Kernel δ :=
  steadyKernel (fun index => .folio (folios index)) (fun _ => .null) 0 0 false

/-- The byte that the mapped slice begins with tells whether the folio starts at the page. -/
theorem first_byte_exact_iff {offset first pages : Nat} (hfirst : first ≤ offset / PAGE_SIZE)
    (hpages : 0 < pages) :
    (∀ (disk : Disk) (f : Folio), f.first = first → f.pages = pages → f.UpToDate disk →
        f.byte (offset % PAGE_SIZE) = disk offset) ↔
      first = offset / PAGE_SIZE := by
  have hmod : offset % PAGE_SIZE < PAGE_SIZE := Nat.mod_lt offset (by decide)
  have hdiv : offset / PAGE_SIZE * PAGE_SIZE + offset % PAGE_SIZE = offset :=
    Nat.div_add_mod' offset PAGE_SIZE
  constructor
  · intro hexact
    by_contra hne
    -- the byte at the offset is the only one set, and the folio starts at a page before it
    have hbefore : (first + 1) * PAGE_SIZE ≤ offset / PAGE_SIZE * PAGE_SIZE :=
      Nat.mul_le_mul_right _ (by omega)
    rw [Nat.succ_mul] at hbefore
    have hbyte := hexact (markedDisk offset) ((markedDisk offset).folio first pages) rfl rfl
      (Disk.folio_upToDate _ _ _)
    have hzero : ((markedDisk offset).folio first pages).byte (offset % PAGE_SIZE) = 0 :=
      if_neg (by omega)
    have hone : markedDisk offset offset = 1 := if_pos rfl
    rw [hzero, hone] at hbyte
    exact absurd hbyte (by decide)
  · rintro rfl disk f hf hp hup
    rw [hup.firstPage (hp ▸ hpages) hmod, hf, hdiv]

/-- With a folio of one or more pages that contains the page of the offset, the mapped slice shows the
device from the offset on, whatever the device holds, exactly when the folio starts at that page. -/
theorem mappedFolio_exact_iff {offset : Int} (h0 : 0 ≤ offset) {first pages : Nat}
    (hfirst : first ≤ offset.toNat / PAGE_SIZE) (hlast : offset.toNat / PAGE_SIZE < first + pages) :
    (∀ (disk : Disk) (env : Kernel δ) (h : History δ) (f : Folio),
        f.first = first → f.pages = pages → f.UpToDate disk →
        env h (.readCacheFolio (offset.toNat / PAGE_SIZE)) = FolioResult.folio f →
        ∃ b, ((mappedFolio offset).run env h).1 = .done b ∧
          b.bytes = span disk offset.toNat (PAGE_SIZE - offset.toNat % PAGE_SIZE)) ↔
      first = offset.toNat / PAGE_SIZE := by
  have hpages : 0 < pages := by omega
  constructor
  · intro hexact
    rw [← first_byte_exact_iff hfirst hpages]
    intro disk f hf hp hup
    obtain ⟨b, hrun, hbytes⟩ := hexact disk (cachingKernel fun _ => f) [] f hf hp hup rfl
    rw [mappedFolio_run_folio h0 rfl] at hrun
    cases hrun
    have hmod : offset.toNat % PAGE_SIZE < PAGE_SIZE := Nat.mod_lt _ (by decide)
    exact Slice.bytes_eq_span_iff.mp hbytes 0 (by show 0 < PAGE_SIZE - _; omega)
  · rintro rfl disk env h f hf hp hup hfolio
    refine ⟨_, mappedFolio_run_folio h0 hfolio, Slice.bytes_eq_span_iff.mpr fun i hi => ?_⟩
    rw [hup.tail_byte (hp ▸ hpages) hi, hf, Nat.div_add_mod']

/-- The second page of a folio of two pages. -/
theorem mappedFolio_exact_iff_secondPage :
    ¬ ∀ (disk : Disk) (env : Kernel Unit) (h : History Unit) (f : Folio),
        f.first = 0 → f.pages = 2 → f.UpToDate disk →
        env h (.readCacheFolio ((4096 : Int).toNat / PAGE_SIZE)) = FolioResult.folio f →
        ∃ b, ((mappedFolio 4096).run env h).1 = .done b ∧
          b.bytes = span disk (4096 : Int).toNat (PAGE_SIZE - (4096 : Int).toNat % PAGE_SIZE) := by
  intro hexact
  have hfirst := (mappedFolio_exact_iff (by decide) (by decide) (by decide)).mp hexact
  exact absurd hfirst (by decide)

/-- A folio holds both pages of the device; asked for the second, the mapper shows the first. -/
theorem mappedFolio_shows_first_page :
    let disk : Disk := fun i => if i < 4096 then 7 else 9
    let f := disk.folio 0 2
    f.Holds 1 ∧ f.UpToDate disk ∧
      ∃ b, ((mappedFolio 4096 : Prog Unit Slice).run (cachingKernel fun _ => f) []).1 = .done b ∧
        b.len = 4096 ∧ b.byte 0 = 7 ∧ disk 4096 = 9 := by
  refine ⟨⟨by decide, by decide⟩, Disk.folio_upToDate _ _ _, _, rfl, by decide, by decide, by decide⟩

end Rko
