import Rko.Getdents

namespace Rko

open CallProgram

variable {δ : Type} {env : Kernel δ}

/-- What `dir_emit` took. -/
structure Listed where
  name : List UInt8
  ino : UInt64
  etype : DirEntryType
deriving DecidableEq, Repr

def Listed.ofEvent : Event KernelCall (KernelCall.Resp δ) → Option Listed
  | ⟨.dirEmit _ name ino etype, ok⟩ => if ok = true then some ⟨name, ino, etype⟩ else none
  | _ => none

/-- The entries accepted in a history, in their order. -/
def accepted (h : History δ) : List Listed := h.filterMap Listed.ofEvent

/-- Calls of `read_dir` in turn, each at the position that the one before left, until one fails. -/
def readDirCalls (readDir : Int → Prog δ Int) (env : Kernel δ) :
    Nat → Outcome Error Int × History δ
  | 0 => (.done 0, [])
  | n + 1 =>
    match readDirCalls readDir env n with
    | (.done pos, h) => (readDir pos).run env h
    | r => r

/-- Whatever is offered is taken. -/
def TakesAll (env : Kernel δ) : Prop :=
  ∀ h pos name ino etype, env h (.dirEmit pos name ino etype) = true

/-- An entry is accepted, or it is refused by somebody who does not take everything, and this is all
there is to see of it. -/
theorem emit_cases {pos posInc : Int} {next : Nat} (hnext : pos + posInc = next)
    (hmax : next < 2 ^ 63) (name : List UInt8) (ino : UInt64) (etype : DirEntryType)
    (h : History δ) :
    (∃ h', accepted h' = accepted h ++ [⟨name, ino, etype⟩] ∧
      ∀ {α : Type} (f : Option Int → Prog δ α), ((emit pos posInc name ino etype).bind f).run env h =
        (f (some (next : Int))).run env h') ∨
    ¬ TakesAll env ∧ ∃ h', accepted h' = accepted h ∧
      ∀ {α : Type} (f : Option Int → Prog δ α), ((emit pos posInc name ino etype).bind f).run env h =
        (f none).run env h' := by
  obtain ⟨ok, hok⟩ : ∃ ok : Bool, env h (.dirEmit pos name ino etype) = ok := ⟨_, rfl⟩
  have hwrap : (Offset.wrap (pos + posInc)).val = next := by
    rw [hnext, Offset.wrap_val (by omega) (by omega)]
  have hrun : ∀ {α : Type} (f : Option Int → Prog δ α),
      ((emit pos posInc name ino etype).bind f).run env h =
        (f (if ok = true then some (next : Int) else none)).run env
          (h ++ [⟨.dirEmit pos name ino etype, ok⟩]) := by
    intro α f
    show (Program.call (.dirEmit pos name ino etype) _).run env h = _
    rw [Program.run, hok, ← hwrap]
    cases ok <;> rfl
  have haccepted : accepted (h ++ [⟨.dirEmit pos name ino etype, ok⟩]) =
      accepted h ++ if ok = true then [⟨name, ino, etype⟩] else [] := by
    rw [accepted, List.filterMap_append]
    cases ok <;> rfl
  cases ok with
  | true => exact Or.inl ⟨_, haccepted, hrun⟩
  | false =>
    have hrefuses : ¬ TakesAll env := by
      intro htakes
      cases hok.symm.trans (htakes h pos name ino etype)
    exact Or.inr ⟨hrefuses, _, haccepted.trans (List.append_nil _), hrun⟩

variable (env) in
theorem accepted_of_reads {α : Type} {p : Prog δ α} (hp : Reads p) (h : History δ) :
    accepted (p.run env h).2 = accepted h := by
  induction p generalizing h with
  | done a => rfl
  | fail e => rfl
  | abort => rfl
  | call op k ih =>
    obtain ⟨⟨index, rfl⟩, hk⟩ := hp
    rw [Program.run, ih _ (hk _), accepted, List.filterMap_append]
    exact List.append_nil _

/-- A program that only reads and returns `a` is followed by what comes after it. -/
theorem run_bind_of_reads {α β : Type} {p : Prog δ α} {a : α} (hp : Reads p)
    (ha : Program.Returns env p (.done a)) (f : α → Prog δ β) (h : History δ) :
    ∃ h', accepted h' = accepted h ∧ (p.bind f).run env h = (f a).run env h' := by
  have hkeeps := accepted_of_reads env hp h
  have hdone := ha h
  rw [Program.run_bind]
  generalize p.run env h = q at hkeeps hdone
  obtain ⟨out, h'⟩ := q
  cases hdone
  exact ⟨h', hkeeps, rfl⟩

end Rko
