import Rko.Mapper
import Rko.PagedListing
import Rko.Responder

namespace Rko

open CallProgram PagedListing

/-- The buffer of a `getdents` call: the entries it still has room for, and those it took. -/
structure Getdents where
  room : Nat
  entries : List (List UInt8 × UInt64)
deriving DecidableEq, Repr

def Getdents.take (g : Getdents) (entry : List UInt8 × UInt64) : Getdents :=
  ⟨g.room - 1, g.entries ++ [entry]⟩

/-- A kernel that reads its pages from `disk` and has room for so many more entries. -/
def getdentsReply {δ : Type} (disk : Disk) :
    Responder Getdents KernelCall (KernelCall.Resp δ) := fun g op =>
  match op with
  | .dirEmit _ name ino _ => if g.room = 0 then (false, g) else (true, g.take (name, ino))
  | .readCacheFolio index => (.folio (disk.page index), g)
  | .sbMinBlocksize size => (size, g)
  | .bdevNrSectors => (0, g)
  | .alloc => (true, g)
  | .igetLocked _ => (.null, g)
  | .igetFailed _ => ((), g)
  | .iput _ => ((), g)
  | .dSpliceAlias _ => (0, g)
  | .dMakeRoot _ => (true, g)

/-- One call of `read_dir` at the position `pos`: the entries it emits and its new position. -/
def readDirCall {δ : Type} (readDir : Int → Prog δ Int) (disk : Disk) (pos : Int) (room : Nat) :
    Option (List (List UInt8 × UInt64) × Int) :=
  match (readDir pos).exec (getdentsReply disk) ⟨room, []⟩ with
  | (.done pos', g) => some (g.entries, pos')
  | _ => none

def Reads {δ α : Type} (p : Prog δ α) : Prop :=
  p.Calls fun op => ∃ index, op = .readCacheFolio index

theorem exec_of_reads {δ α : Type} {disk : Disk} {p : Prog δ α} {r : Outcome Error α}
    (hp : Reads p) (hr : ∀ env : Kernel δ, ReadsDisk env disk → Program.Returns env p r)
    (g : Getdents) : p.exec (getdentsReply disk) g = (r, g) := by
  let env : Kernel δ := fun _ op => (getdentsReply disk g op).1
  have hok : ∀ (s : Getdents) (h : History δ) (op : KernelCall),
      (∃ index, op = .readCacheFolio index) → getdentsReply disk s op = (env h op, s) := by
    rintro s h op ⟨index, rfl⟩
    rfl
  rw [Program.exec_of_calls hok hp g [], hr env (fun _ _ => rfl) []]

theorem mappedFolio_reads {δ : Type} (offset : Int) : Reads (mappedFolio (δ := δ) offset) := by
  rw [mappedFolio]
  split
  next => trivial
  next =>
    refine ⟨⟨_, rfl⟩, fun r => ?_⟩
    cases r <;> trivial

/-- What is passed to `emit`. -/
structure DirRecord where
  name : List UInt8
  ino : UInt64
  posInc : Nat
deriving DecidableEq, Repr

def DirRecord.entry (r : DirRecord) : List UInt8 × UInt64 := (r.name, r.ino)

/-- Emitting the records in turn, from the position `pos` of the emitter, up to the first that is
refused; `failure` is how the loop over them ends. -/
def serve (failure : Option Error) :
    List DirRecord → Int → Getdents → Outcome Error (Int × Bool) × Getdents
  | [], pos, g =>
    match failure with
    | none => (.done (pos, false), g)
    | some e => (.failed e, g)
  | r :: rs, pos, g =>
    if g.room = 0 then (.done (pos, true), g)
    else serve failure rs (Offset.wrap (pos + r.posInc)).val (g.take r.entry)

/-- The new position of the emitter, whether a record was refused or not. -/
def finalPosition : Outcome Error (Int × Bool) × Getdents → Outcome Error Int × Getdents
  | (.done (pos, _), g) => (.done pos, g)
  | (.failed e, g) => (.failed e, g)
  | (.aborted, g) => (.aborted, g)

/-- The entries with the positions that the emitter has after each. -/
def positioned : List DirRecord → Int → List ((List UInt8 × UInt64) × Int)
  | [], _ => []
  | r :: rs, pos => (r.entry, (Offset.wrap (pos + r.posInc)).val) ::
      positioned rs (Offset.wrap (pos + r.posInc)).val

def lastPosition (rs : List DirRecord) (pos : Int) : Int :=
  ((positioned rs pos).getLast?.map Prod.snd).getD pos

@[simp] theorem lastPosition_nil (pos : Int) : lastPosition [] pos = pos := rfl

@[simp] theorem lastPosition_cons (r : DirRecord) (rs : List DirRecord) (pos : Int) :
    lastPosition (r :: rs) pos = lastPosition rs (Offset.wrap (pos + r.posInc)).val := by
  cases rs with
  | nil => rfl
  | cons r' rs => simp [lastPosition, positioned, List.getLast?_cons]

@[simp] theorem positioned_length (rs : List DirRecord) (pos : Int) :
    (positioned rs pos).length = rs.length := by
  induction rs generalizing pos with
  | nil => rfl
  | cons r rs ih => simp [positioned, ih]

theorem positioned_entries (rs : List DirRecord) (pos : Int) :
    (positioned rs pos).map Prod.fst = rs.map DirRecord.entry := by
  induction rs generalizing pos with
  | nil => rfl
  | cons r rs ih => simp [positioned, ih]

def advance (rs : List DirRecord) : Nat := (rs.map DirRecord.posInc).sum

@[simp] theorem advance_nil : advance [] = 0 := rfl

@[simp] theorem advance_cons (r : DirRecord) (rs : List DirRecord) :
    advance (r :: rs) = r.posInc + advance rs := by
  simp [advance]

@[simp] theorem advance_append (rs rs' : List DirRecord) :
    advance (rs ++ rs') = advance rs + advance rs' := by
  simp [advance]

theorem positioned_bounds {rs : List DirRecord} {pos pos' : Int} {entry : List UInt8 × UInt64}
    (hpos : 0 ≤ pos) (hlt : pos + advance rs < 2 ^ 63) (h : (entry, pos') ∈ positioned rs pos) :
    0 ≤ pos' ∧ pos' ≤ pos + advance rs := by
  induction rs generalizing pos with
  | nil => cases h
  | cons r rs ih =>
    rw [advance_cons] at hlt ⊢
    push_cast at hlt ⊢
    rw [positioned, Offset.wrap_val (by omega) (by omega)] at h
    rcases List.mem_cons.mp h with heq | hmem
    · obtain ⟨-, rfl⟩ := Prod.mk.inj heq
      omega
    · have hbounds := ih (by omega) (by omega) hmem
      omega

theorem positioned_getElem? {rs : List DirRecord} {pos pos' : Int} {m : Nat}
    {entry : List UInt8 × UInt64} (hpos : 0 ≤ pos) (hlt : pos + advance rs < 2 ^ 63)
    (h : (positioned rs pos)[m]? = some (entry, pos')) :
    m < rs.length ∧ pos' = pos + advance (rs.take (m + 1)) := by
  induction rs generalizing pos m with
  | nil => cases h
  | cons r rs ih =>
    rw [advance_cons] at hlt
    push_cast at hlt
    rw [positioned, Offset.wrap_val (by omega) (by omega)] at h
    rw [List.take_succ_cons, advance_cons, List.length_cons]
    cases m with
    | zero =>
      obtain ⟨-, rfl⟩ := Prod.mk.inj (Option.some.inj h)
      simp
    | succ m =>
      obtain ⟨hm, hpos'⟩ := ih (by omega) (by omega) h
      push_cast
      omega

theorem positioned_take (rs : List DirRecord) (pos : Int) (n : Nat) :
    (positioned rs pos).take n = positioned (rs.take n) pos := by
  induction rs generalizing pos n with
  | nil => simp [positioned]
  | cons r rs ih =>
    cases n with
    | zero => rfl
    | succ n => simp [positioned, ih]

theorem serve_all {failure : Option Error} {rs : List DirRecord} {pos : Int} {g : Getdents}
    (hroom : rs.length ≤ g.room) :
    serve failure rs pos g = serve failure [] (lastPosition rs pos)
      ⟨g.room - rs.length, g.entries ++ rs.map DirRecord.entry⟩ := by
  induction rs generalizing pos g with
  | nil => simp
  | cons r rs ih =>
    rw [List.length_cons] at hroom
    rw [serve, if_neg (by omega), ih (by simp only [Getdents.take]; omega), lastPosition_cons]
    simp only [Getdents.take, List.map_cons, List.length_cons, List.append_assoc,
      List.singleton_append]
    congr 2
    omega

theorem serve_full {failure : Option Error} {rs : List DirRecord} {pos : Int} {g : Getdents}
    (hroom : g.room < rs.length) :
    serve failure rs pos g = (.done (lastPosition (rs.take g.room) pos, true),
      ⟨0, g.entries ++ (rs.take g.room).map DirRecord.entry⟩) := by
  induction rs generalizing pos g with
  | nil => cases hroom
  | cons r rs ih =>
    obtain ⟨room, entries⟩ := g
    cases room with
    | zero => simp [serve]
    | succ room =>
      have hrest : (Getdents.take ⟨room + 1, entries⟩ r.entry).room < rs.length := by
        simpa [Getdents.take] using hroom
      rw [serve, if_neg (by simp), ih hrest]
      simp [Getdents.take]

/-- Two loops in a row emit the records of both. -/
theorem serve_append {failure : Option Error} {rs : List DirRecord} {pos pos' : Int}
    {g g' : Getdents} {full : Bool} (h : serve none rs pos g = (.done (pos', full), g'))
    (rs' : List DirRecord) :
    serve failure (rs ++ rs') pos g =
      if full then (.done (pos', true), g') else serve failure rs' pos' g' := by
  induction rs generalizing pos g with
  | nil =>
    obtain ⟨hdone, rfl⟩ := Prod.mk.inj h
    cases hdone
    rfl
  | cons r rs ih =>
    rw [List.cons_append, serve]
    rw [serve] at h
    split at h
    next hroom =>
      obtain ⟨hdone, rfl⟩ := Prod.mk.inj h
      cases hdone
      simp [hroom]
    next hroom =>
      rw [if_neg hroom]
      exact ih h

theorem serve_done (rs : List DirRecord) (pos : Int) (g : Getdents) :
    ∃ pos' full g', serve none rs pos g = (.done (pos', full), g') := by
  induction rs generalizing pos g with
  | nil => exact ⟨_, _, _, rfl⟩
  | cons r rs ih =>
    rw [serve]
    split
    next => exact ⟨_, _, _, rfl⟩
    next => exact ih _ _

/-- What two loops in a row emit; the second is entered when the first ends without an error. -/
def sequel (first second : List DirRecord × Option Error) : List DirRecord × Option Error :=
  if first.2 = none then (first.1 ++ second.1, second.2) else first

theorem advance_sequel (first second : List DirRecord × Option Error) :
    advance (sequel first second).1 ≤ advance first.1 + advance second.1 := by
  rw [sequel]
  split
  next => rw [advance_append]
  next => omega

theorem exec_sequel {δ : Type} {disk : Disk} {p : Prog δ (Int × Bool)} {k : Int → Prog δ Int}
    {first second : List DirRecord × Option Error} {pos : Int} {g : Getdents}
    (hp : p.exec (getdentsReply disk) g = serve first.2 first.1 pos g)
    (hk : ∀ pos g, (k pos).exec (getdentsReply disk) g =
      finalPosition (serve second.2 second.1 pos g)) :
    (p.bind fun r => if r.2 then pure r.1 else k r.1).exec (getdentsReply disk) g =
      finalPosition (serve (sequel first second).2 (sequel first second).1 pos g) := by
  obtain ⟨rs, failure⟩ := first
  cases failure with
  | none =>
    obtain ⟨pos', full, g', hserve⟩ := serve_done rs pos g
    rw [Program.exec_bind_done (hp.trans hserve)]
    simp only [sequel, if_true, serve_append hserve]
    cases full with
    | true => rfl
    | false => exact hk pos' g'
  | some e =>
    have hsequel : sequel (rs, some e) second = (rs, some e) := by simp [sequel]
    rw [hsequel]
    rcases Nat.lt_or_ge g.room rs.length with hroom | hroom
    · simp only [serve_full hroom] at hp ⊢
      rw [Program.exec_bind_done hp]
      rfl
    · simp only [serve_all hroom, serve] at hp ⊢
      rw [Program.exec_bind_failed hp]
      rfl

/-- A reader that emits these records from `pos` on makes the calls of this scan. -/
def scanOf (rs : List DirRecord) (failure : Option Error) (pos : Int) :
    Scan Int (List UInt8 × UInt64) :=
  ⟨positioned rs pos, failure.isNone⟩

theorem readDirCall_eq {δ : Type} {readDir : Int → Prog δ Int} {disk : Disk} {pos : Int}
    {room : Nat} {rs : List DirRecord} {failure : Option Error}
    (h : (readDir pos).exec (getdentsReply disk) ⟨room, []⟩ =
      finalPosition (serve failure rs pos ⟨room, []⟩)) :
    readDirCall readDir disk pos room = (scanOf rs failure pos).call pos room := by
  have htake : ((scanOf rs failure pos).listed.take room) = (rs.take room).map DirRecord.entry := by
    rw [Scan.listed, scanOf, positioned_entries, List.map_take]
  rw [readDirCall, h, Scan.call, htake]
  simp only [scanOf, positioned_length, positioned_take]
  rcases Nat.lt_or_ge room rs.length with hroom | hroom
  · rw [serve_full hroom, if_neg (by omega)]
    rfl
  · rw [serve_all hroom, List.take_of_length_le hroom]
    cases failure with
    | none => simp [serve, finalPosition, lastPosition]
    | some e => simp [serve, finalPosition, hroom]

end Rko
