import Rko.ExecutorTask
import Rko.ReferenceCount

namespace Rko

open ReferenceCount

namespace Task

/-- The references there should be: the handles, and one for a work item that is pending. -/
def owners (t : Task) : Nat := t.handles.length + t.pending.toNat

/-- The steps that can put the count out of step with its owners: a flush takes the item off the
queue without giving back its reference, and a clone may overflow the count. -/
def conserves (t : Task) : TaskAction → Bool
  | .flush _ => !t.pending
  | .cloneRevocable => decide (t.refs.toInt < 2 ^ 31 - 1)
  | .register stopped _ => stopped || decide (t.refs.toInt < 2 ^ 31 - 1)
  | .clone _ _ => decide (t.refs.toInt < 2 ^ 31 - 1)
  | .makeWaker => decide (t.refs.toInt < 2 ^ 31 - 1)
  | _ => true

/-- The count is the number of owners, and the task is freed when there is none. -/
structure Counted (t : Task) : Prop where
  refs : t.refs = BitVec.ofNat 32 t.owners
  small : t.owners < 2 ^ 31
  freed : t.freed = if t.owners = 0 then 1 else 0

variable {t t' : Task} {a : TaskAction} {r r' : Role} {n : Nat}

theorem Counted.counts (h : t.Counted) : Counts t.refs t.owners t.freed :=
  ⟨h.refs, h.small.trans (by decide), h.freed⟩

theorem Counted.of_counts (h : Counts t.refs t.owners t.freed) (hsmall : t.owners < 2 ^ 31) :
    t.Counted := ⟨h.count_eq, hsmall, h.frees_eq⟩

theorem Counted.refs_toInt (h : t.Counted) : t.refs.toInt = t.owners := by
  rw [h.refs, ofNat_toInt h.small]

theorem Counted.refs_eq_one (h : t.Counted) : t.refs = 1 ↔ t.owners = 1 :=
  h.counts.eq_one_iff (by decide)

theorem Counted.freed_eq (h : t.Counted) :
    t.freed = if t.handles = [] ∧ t.pending = false then 1 else 0 := by
  have hnone : t.owners = 0 ↔ t.handles = [] ∧ t.pending = false := by
    rw [owners, Nat.add_eq_zero_iff, List.length_eq_zero_iff, Bool.toNat_eq_zero]
  rw [h.freed]
  exact if_congr hnone rfl rfl

theorem counted_new : new.Counted := ⟨rfl, by decide, rfl⟩

theorem owners_pos_of_mem (h : r ∈ t.handles) : 0 < t.owners := by
  have hlen := List.length_pos_of_mem h
  unfold owners
  omega

structure SameLedger (t t' : Task) : Prop where
  refs : t'.refs = t.refs
  handles : t'.handles = t.handles
  pending : t'.pending = t.pending
  freed : t'.freed = t.freed

theorem Counted.congr (h : t.Counted) (hs : SameLedger t t') : t'.Counted := by
  have howners : t'.owners = t.owners := by rw [owners, owners, hs.handles, hs.pending]
  exact ⟨by rw [hs.refs, howners, h.refs], by rw [howners]; exact h.small,
    by rw [hs.freed, howners, h.freed]⟩

theorem Counted.addHandle (h : t.Counted) (hmem : r ∈ t.handles)
    (hroom : t.refs.toInt < 2 ^ 31 - 1) : (t.addHandle r').Counted := by
  have howners : (t.addHandle r').owners = t.owners + 1 := by
    simp only [owners, Task.addHandle, List.length_cons]
    omega
  have hint := h.refs_toInt
  refine .of_counts ?_ (by omega)
  rw [howners]
  exact h.counts.inc (owners_pos_of_mem hmem) (by omega)

theorem Counted.passHandle (h : t.Counted) (hmem : r ∈ t.handles) :
    (t.passHandle r r').Counted := by
  have hlen := List.length_erase_of_mem hmem
  have hpos := List.length_pos_of_mem hmem
  have howners : (t.passHandle r r').owners = t.owners := by
    simp only [owners, Task.passHandle, List.length_cons]
    omega
  exact ⟨by rw [howners]; exact h.refs, by rw [howners]; exact h.small,
    by rw [howners]; exact h.freed⟩

theorem Counted.dropHandle (h : t.Counted) (hmem : r ∈ t.handles) : (t.dropHandle r).Counted := by
  have hlen := List.length_erase_of_mem hmem
  have hpos := List.length_pos_of_mem hmem
  have howners : (t.dropHandle r).owners + 1 = t.owners := by
    simp only [owners, Task.dropHandle]
    omega
  have hsmall := h.small
  have hcounts := h.counts
  rw [← howners] at hcounts
  exact .of_counts (hcounts.dec (by decide)) (by omega)

theorem Counted.enqueueHandle (h : t.Counted) (hmem : r ∈ t.handles) :
    (t.enqueueHandle r).Counted := by
  unfold Task.enqueueHandle
  split
  · exact h.passHandle hmem
  next hpending =>
    have hlen := List.length_erase_of_mem hmem
    have hpos := List.length_pos_of_mem hmem
    have howners : ({ t with pending := true, handles := t.handles.erase r } : Task).owners =
        t.owners := by
      simp only [owners, Bool.eq_false_iff.mpr hpending, Bool.toNat_true, Bool.toNat_false]
      omega
    exact ⟨by rw [howners]; exact h.refs, by rw [howners]; exact h.small,
      by rw [howners]; exact h.freed⟩

theorem Counted.start (h : t.Counted) (hpending : t.pending = true) (phase : RunPhase) :
    Counted { t with pending := false, run := phase, handles := .this :: t.handles } := by
  have howners : ({ t with pending := false, run := phase, handles := .this :: t.handles } :
      Task).owners = t.owners := by
    simp only [owners, hpending, List.length_cons, Bool.toNat_true, Bool.toNat_false]
  exact ⟨by rw [howners]; exact h.refs, by rw [howners]; exact h.small,
    by rw [howners]; exact h.freed⟩

theorem sameLedger_revokeFuture (t : Task) : SameLedger t t.revokeFuture :=
  ⟨refs_revokeFuture t, handles_revokeFuture t, pending_revokeFuture t, freed_revokeFuture t⟩

/-- The task as it would be if every reference that a flush has leaked were a handle. -/
def padded (t : Task) (leaked : Nat) : Task :=
  { t with handles := t.handles ++ List.replicate leaked .rejected }

theorem mem_padded (hmem : r ∈ t.handles) : r ∈ (t.padded n).handles := List.mem_append_left _ hmem

theorem passHandle_padded (hmem : r ∈ t.handles) :
    (t.passHandle r r').padded n = (t.padded n).passHandle r r' := by
  simp only [padded, passHandle, List.erase_append_left _ hmem, List.cons_append]

theorem dropHandle_padded (hmem : r ∈ t.handles) :
    (t.dropHandle r).padded n = (t.padded n).dropHandle r := by
  simp only [padded, dropHandle, List.erase_append_left _ hmem]
  rfl

theorem enqueueHandle_padded (hmem : r ∈ t.handles) :
    (t.enqueueHandle r).padded n = (t.padded n).enqueueHandle r := by
  unfold enqueueHandle
  split
  next hpending =>
    rw [passHandle_padded hmem]
    exact (if_pos hpending).symm
  next hpending =>
    refine Eq.trans ?_ (if_neg hpending).symm
    simp only [padded, List.erase_append_left _ hmem]

theorem padded_zero (t : Task) : t.padded 0 = t := by
  rw [padded, List.replicate_zero, List.append_nil]

/-- The count keeps to its owners, whatever was leaked before. -/
theorem counted_padded_step (h : (t.padded n).Counted) (ha : t.conserves a = true)
    (hstep : t.step a = some t') : (t'.padded n).Counted := by
  cases transition_of_step hstep with
  | cloneRevocable _ hmem =>
    exact (h.addHandle (mem_padded hmem) (of_decide_eq_true ha)).congr ⟨rfl, rfl, rfl, rfl⟩
  | register _ hmem =>
    exact (h.addHandle (mem_padded hmem) (of_decide_eq_true ha)).congr ⟨rfl, rfl, rfl, rfl⟩
  | makeWaker _ hmem =>
    exact (h.addHandle (mem_padded hmem) (of_decide_eq_true ha)).congr ⟨rfl, rfl, rfl, rfl⟩
  | clone hmem _ => exact h.addHandle (mem_padded hmem) (of_decide_eq_true ha)
  | returnHandle _ hmem =>
    have hpass : ((t.padded n).passHandle .revocable .caller).Counted :=
      h.passHandle (mem_padded hmem)
    rw [← passHandle_padded hmem] at hpass
    exact hpass.congr ⟨rfl, rfl, rfl, rfl⟩
  | wake hmem =>
    rw [passHandle_padded hmem]
    exact h.passHandle (mem_padded hmem)
  | drop hmem =>
    rw [dropHandle_padded hmem]
    exact h.dropHandle (mem_padded hmem)
  | dropLocalWaker _ hmem =>
    have hdrop := h.dropHandle (mem_padded hmem)
    rw [← dropHandle_padded hmem] at hdrop
    exact hdrop.congr ⟨rfl, rfl, rfl, rfl⟩
  | finish _ hmem =>
    have hdrop := h.dropHandle (mem_padded hmem)
    rw [← dropHandle_padded hmem] at hdrop
    exact hdrop.congr ⟨rfl, rfl, rfl, rfl⟩
  | enqueue hmem _ =>
    rw [enqueueHandle_padded hmem]
    exact h.enqueueHandle (mem_padded hmem)
  | start hpending => exact h.start hpending _
  | flush r _ =>
    have hpending : t.pending = false := by simpa [conserves] using ha
    exact h.congr ⟨rfl, rfl, hpending.symm, rfl⟩
  | refuse | complete | revoke =>
    have hledger := sameLedger_revokeFuture t
    refine h.congr ⟨hledger.refs, ?_, hledger.pending, hledger.freed⟩
    exact congrArg (· ++ List.replicate n Role.rejected) hledger.handles
  | _ => exact h.congr ⟨rfl, rfl, rfl, rfl⟩

theorem Counted.step (h : t.Counted) (ha : t.conserves a = true) (hstep : t.step a = some t') :
    t'.Counted := by
  rw [← padded_zero t] at h
  rw [← padded_zero t']
  exact counted_padded_step h ha hstep

end Task

end Rko
