import Mathlib.Tactic.Ring

namespace CallProgram

inductive Outcome (ε α : Type)
  | done (a : α)
  | failed (e : ε)
  | aborted
deriving DecidableEq, Repr

def Outcome.ofExcept {ε α : Type} : Except ε α → Outcome ε α
  | .ok a => .done a
  | .error e => .failed e

theorem Outcome.ne_aborted_iff {ε α : Type} {o : Outcome ε α} :
    o ≠ .aborted ↔ (∃ a, o = .done a) ∨ ∃ e, o = .failed e := by
  cases o <;> simp

/-- A program that asks an environment questions `op` and goes on with the answers. -/
inductive Program (Op : Type) (Resp : Op → Type) (ε α : Type)
  | done (a : α)
  | fail (e : ε)
  | abort
  | call (op : Op) (k : Resp op → Program Op Resp ε α)

abbrev Event (Op : Type) (Resp : Op → Type) := (op : Op) × Resp op

/-- An environment may answer by everything that happened before. -/
abbrev Environment (Op : Type) (Resp : Op → Type) := List (Event Op Resp) → (op : Op) → Resp op

section

variable {Op : Type} {Resp : Op → Type} {ε α β : Type}

namespace Program

def bind : Program Op Resp ε α → (α → Program Op Resp ε β) → Program Op Resp ε β
  | done a, f => f a
  | fail e, _ => fail e
  | abort, _ => abort
  | call op k, f => call op fun r => (k r).bind f

instance : Monad (Program Op Resp ε) where
  pure := done
  bind := bind

def ask (op : Op) : Program Op Resp ε (Resp op) := call op done

def ofOption (e : ε) : Option α → Program Op Resp ε α
  | some a => done a
  | none => fail e

def ofExcept : Except ε α → Program Op Resp ε α
  | .ok a => done a
  | .error e => fail e

/-- Run `cleanup` when the program fails, and only then. -/
def onFail : Program Op Resp ε α → Program Op Resp ε Unit → Program Op Resp ε α
  | done a, _ => done a
  | fail e, cleanup => cleanup.bind fun _ => fail e
  | abort, _ => abort
  | call op k, cleanup => call op fun r => (k r).onFail cleanup

def attempt : Program Op Resp ε α → Program Op Resp ε (Except ε α)
  | done a => done (.ok a)
  | fail e => done (.error e)
  | abort => abort
  | call op k => call op fun r => (k r).attempt

def run (env : Environment Op Resp) :
    List (Event Op Resp) → Program Op Resp ε α → Outcome ε α × List (Event Op Resp)
  | h, done a => (.done a, h)
  | h, fail e => (.failed e, h)
  | h, abort => (.aborted, h)
  | h, call op k => (k (env h op)).run env (h ++ [⟨op, env h op⟩])

theorem bind_eq (p : Program Op Resp ε α) (f : α → Program Op Resp ε β) : p >>= f = p.bind f := rfl

theorem pure_eq (a : α) : (pure a : Program Op Resp ε α) = done a := rfl

@[simp] theorem done_bind (a : α) (f : α → Program Op Resp ε β) : (done a).bind f = f a := rfl

@[simp] theorem fail_bind (e : ε) (f : α → Program Op Resp ε β) : (fail e).bind f = fail e := rfl

@[simp] theorem abort_bind (f : α → Program Op Resp ε β) : abort.bind f = abort := rfl

@[simp] theorem call_bind (op : Op) (k : Resp op → Program Op Resp ε α)
    (f : α → Program Op Resp ε β) : (call op k).bind f = call op fun r => (k r).bind f := rfl

@[simp] theorem ask_bind (op : Op) (f : Resp op → Program Op Resp ε β) :
    (ask op).bind f = call op f := rfl

@[simp] theorem ofOption_some (e : ε) (a : α) :
    (ofOption e (some a) : Program Op Resp ε α) = done a := rfl

@[simp] theorem ofOption_none (e : ε) :
    (ofOption e (none : Option α) : Program Op Resp ε α) = fail e := rfl

@[simp] theorem ofExcept_ok (a : α) : (ofExcept (.ok a) : Program Op Resp ε α) = done a := rfl

@[simp] theorem ofExcept_error (e : ε) :
    (ofExcept (.error e) : Program Op Resp ε α) = fail e := rfl

theorem bind_assoc {γ : Type} (p : Program Op Resp ε α) (f : α → Program Op Resp ε β)
    (g : β → Program Op Resp ε γ) : (p.bind f).bind g = p.bind fun a => (f a).bind g := by
  induction p with
  | done a => rfl
  | fail e => rfl
  | abort => rfl
  | call op k ih =>
    simp only [call_bind]
    congr 1
    funext r
    exact ih r

theorem run_bind (env : Environment Op Resp) (p : Program Op Resp ε α)
    (f : α → Program Op Resp ε β) (h : List (Event Op Resp)) :
    (p.bind f).run env h =
      match p.run env h with
      | (.done a, h') => (f a).run env h'
      | (.failed e, h') => (.failed e, h')
      | (.aborted, h') => (.aborted, h') := by
  induction p generalizing h with
  | done a => rfl
  | fail e => rfl
  | abort => rfl
  | call op k ih => exact ih _ _

theorem run_onFail (env : Environment Op Resp) (cleanup : Program Op Resp ε Unit)
    (p : Program Op Resp ε α) (h : List (Event Op Resp)) :
    (p.onFail cleanup).run env h =
      match p.run env h with
      | (.done a, h') => (.done a, h')
      | (.failed e, h') => (cleanup.bind fun _ => fail e).run env h'
      | (.aborted, h') => (.aborted, h') := by
  induction p generalizing h with
  | done a => rfl
  | fail e => rfl
  | abort => rfl
  | call op k ih => exact ih _ _

theorem run_bind_done {env : Environment Op Resp} {p : Program Op Resp ε α}
    {f : α → Program Op Resp ε β} {h : List (Event Op Resp)} {b : β}
    (hb : ((p.bind f).run env h).1 = .done b) :
    ∃ a h', p.run env h = (.done a, h') ∧ ((f a).run env h').1 = .done b := by
  rw [run_bind] at hb
  generalize p.run env h = q at hb
  obtain ⟨o, h'⟩ := q
  cases o with
  | done a => exact ⟨a, h', rfl, hb⟩
  | failed e => cases hb
  | aborted => cases hb

theorem run_onFail_done {env : Environment Op Resp} {cleanup : Program Op Resp ε Unit}
    {p : Program Op Resp ε α} {h : List (Event Op Resp)} {a : α}
    (ha : ((p.onFail cleanup).run env h).1 = .done a) : (p.run env h).1 = .done a := by
  rw [run_onFail] at ha
  generalize p.run env h = q at ha
  obtain ⟨o, h'⟩ := q
  cases o with
  | done a' => exact ha
  | failed e =>
    obtain ⟨_, _, _, hfail⟩ := run_bind_done ha
    cases hfail
  | aborted => cases ha

theorem run_bind_congr {env : Environment Op Resp} {p : Program Op Resp ε α}
    {f g : α → Program Op Resp ε β} {h : List (Event Op Resp)}
    (hfg : ∀ a h', p.run env h = (.done a, h') → (f a).run env h' = (g a).run env h') :
    (p.bind f).run env h = (p.bind g).run env h := by
  rw [run_bind, run_bind]
  generalize p.run env h = q at hfg
  obtain ⟨o, h'⟩ := q
  cases o with
  | done a => exact hfg a h' rfl
  | failed e => rfl
  | aborted => rfl

theorem run_ofExcept_done {env : Environment Op Resp} {x : Except ε α} {h : List (Event Op Resp)}
    {a : α} (ha : ((ofExcept x : Program Op Resp ε α).run env h).1 = .done a) : x = .ok a := by
  cases x with
  | error e => cases ha
  | ok a' =>
    cases ha
    rfl

/-- The program ends in `r` after any history. -/
def Returns (env : Environment Op Resp) (p : Program Op Resp ε α) (r : Outcome ε α) : Prop :=
  ∀ h, (p.run env h).1 = r

theorem Returns.done (env : Environment Op Resp) (a : α) :
    Returns env (Program.done a : Program Op Resp ε α) (.done a) := fun _ => rfl

theorem Returns.fail (env : Environment Op Resp) (e : ε) :
    Returns env (Program.fail e : Program Op Resp ε α) (.failed e) := fun _ => rfl

theorem Returns.ofExcept (env : Environment Op Resp) (x : Except ε α) :
    Returns env (Program.ofExcept x : Program Op Resp ε α) (Outcome.ofExcept x) := by
  cases x <;> exact fun _ => rfl

theorem Returns.call {env : Environment Op Resp} {op : Op} {k : Resp op → Program Op Resp ε α}
    {a : Resp op} {r : Outcome ε α} (answer : ∀ h, env h op = a) (hk : Returns env (k a) r) :
    Returns env (call op k) r := by
  intro h
  have hh := hk (h ++ [⟨op, env h op⟩])
  simpa only [run, answer h] using hh

theorem Returns.bind {env : Environment Op Resp} {p : Program Op Resp ε α}
    {f : α → Program Op Resp ε β} {a : α} {r : Outcome ε β}
    (hp : Returns env p (.done a)) (hf : Returns env (f a) r) : Returns env (p.bind f) r := by
  intro h
  have hd := hp h
  rw [run_bind]
  generalize p.run env h = q at hd
  obtain ⟨o, h'⟩ := q
  simp only at hd
  subst hd
  exact hf h'

theorem Returns.unique {env : Environment Op Resp} {p : Program Op Resp ε α} {r r' : Outcome ε α}
    (hr : Returns env p r) (hr' : Returns env p r') : r = r' := (hr []).symm.trans (hr' [])

/-- Whatever came before, running `p` comes to running `q`. -/
def LeadsTo (env : Environment Op Resp) (p q : Program Op Resp ε α) : Prop :=
  ∀ h, ∃ h', p.run env h = q.run env h'

theorem LeadsTo.refl (env : Environment Op Resp) (p : Program Op Resp ε α) : LeadsTo env p p :=
  fun h => ⟨h, rfl⟩

theorem LeadsTo.trans {env : Environment Op Resp} {p q r : Program Op Resp ε α}
    (hpq : LeadsTo env p q) (hqr : LeadsTo env q r) : LeadsTo env p r := by
  intro h
  obtain ⟨h', hp⟩ := hpq h
  obtain ⟨h'', hq⟩ := hqr h'
  exact ⟨h'', hp.trans hq⟩

theorem LeadsTo.bind {env : Environment Op Resp} {p q : Program Op Resp ε α}
    (hpq : LeadsTo env p q) (f : α → Program Op Resp ε β) :
    LeadsTo env (p.bind f) (q.bind f) := by
  intro h
  obtain ⟨h', hp⟩ := hpq h
  exact ⟨h', by rw [run_bind, run_bind, hp]⟩

theorem Returns.leadsTo {env : Environment Op Resp} {p : Program Op Resp ε α} {a : α}
    (hp : Returns env p (.done a)) : LeadsTo env p (Program.done a) := by
  intro h
  exact ⟨(p.run env h).2, Prod.ext (hp h) rfl⟩

theorem Returns.leadsTo_fail {env : Environment Op Resp} {p : Program Op Resp ε α} {e : ε}
    (hp : Returns env p (.failed e)) : LeadsTo env p (Program.fail e) := by
  intro h
  exact ⟨(p.run env h).2, Prod.ext (hp h) rfl⟩

section Unseen

variable {γ : Type} {seen : Event Op Resp → Option γ} {env : Environment Op Resp}

/-- After any history the program returns `a`, with no event in between that `seen` shows. -/
def Unseen (seen : Event Op Resp → Option γ) (env : Environment Op Resp) (p : Program Op Resp ε α)
    (a : α) : Prop :=
  ∀ h, ∃ h', p.run env h = (.done a, h') ∧ h'.filterMap seen = h.filterMap seen

theorem Unseen.done (a : α) : Unseen seen env (Program.done a : Program Op Resp ε α) a :=
  fun h => ⟨h, rfl, rfl⟩

theorem Unseen.returns {p : Program Op Resp ε α} {a : α} (hp : Unseen seen env p a) :
    Returns env p (.done a) := by
  intro h
  obtain ⟨h', hrun, -⟩ := hp h
  exact congrArg Prod.fst hrun

theorem Unseen.run_bind {p : Program Op Resp ε α} {a : α} (hp : Unseen seen env p a)
    (f : α → Program Op Resp ε β) (h : List (Event Op Resp)) :
    ∃ h', (p.bind f).run env h = (f a).run env h' ∧ h'.filterMap seen = h.filterMap seen := by
  obtain ⟨h', hrun, hseen⟩ := hp h
  exact ⟨h', by rw [Program.run_bind, hrun], hseen⟩

end Unseen

section Strict

variable (bad : (op : Op) → Resp op → Option ε)

/-- Whatever the answers, the program fails with `e` and gets no further bad answer. -/
def Doomed (e : ε) : Program Op Resp ε α → Prop
  | done _ => False
  | fail e' => e' = e
  | abort => False
  | call op k => ∀ r, bad op r = none ∧ Doomed e (k r)

/-- A bad answer is never swallowed: the program fails with the error it stands for. -/
def Strict : Program Op Resp ε α → Prop
  | done _ => True
  | fail _ => True
  | abort => True
  | call op k => ∀ r, (∀ e, bad op r = some e → Doomed bad e (k r)) ∧
      (bad op r = none → Strict (k r))

def Quiet : Program Op Resp ε α → Prop
  | done _ => True
  | fail _ => False
  | abort => False
  | call op k => ∀ r, bad op r = none ∧ Quiet (k r)

variable {bad}

theorem Doomed.bind {e : ε} {p : Program Op Resp ε α} (hp : Doomed bad e p)
    (f : α → Program Op Resp ε β) : Doomed bad e (p.bind f) := by
  induction p with
  | done a => exact hp.elim
  | fail e' => exact hp
  | abort => exact hp.elim
  | call op k ih => exact fun r => ⟨(hp r).1, ih r (hp r).2⟩

theorem Quiet.bind_doomed {e : ε} {p : Program Op Resp ε α} (hp : Quiet bad p)
    {f : α → Program Op Resp ε β} (hf : ∀ a, Doomed bad e (f a)) : Doomed bad e (p.bind f) := by
  induction p with
  | done a => exact hf a
  | fail e' => exact hp.elim
  | abort => exact hp.elim
  | call op k ih => exact fun r => ⟨(hp r).1, ih r (hp r).2⟩

theorem Quiet.bind_strict {p : Program Op Resp ε α} (hp : Quiet bad p)
    {f : α → Program Op Resp ε β} (hf : ∀ a, Strict bad (f a)) : Strict bad (p.bind f) := by
  induction p with
  | done a => exact hf a
  | fail e' => exact hp.elim
  | abort => exact hp.elim
  | call op k ih =>
    intro r
    refine ⟨fun e he => ?_, fun _ => ih r (hp r).2⟩
    simp [(hp r).1] at he

theorem Strict.bind {p : Program Op Resp ε α} (hp : Strict bad p)
    {f : α → Program Op Resp ε β} (hf : ∀ a, Strict bad (f a)) : Strict bad (p.bind f) := by
  induction p with
  | done a => exact hf a
  | fail e => trivial
  | abort => trivial
  | call op k ih =>
    exact fun r => ⟨fun e he => ((hp r).1 e he).bind f, fun hn => ih r ((hp r).2 hn)⟩

theorem Doomed.onFail {e : ε} {cleanup : Program Op Resp ε Unit} {p : Program Op Resp ε α}
    (hp : Doomed bad e p) (hc : Quiet bad cleanup) : Doomed bad e (p.onFail cleanup) := by
  induction p with
  | done a => exact hp.elim
  | fail e' =>
    have he : e' = e := hp
    exact hc.bind_doomed fun _ => he
  | abort => exact hp.elim
  | call op k ih => exact fun r => ⟨(hp r).1, ih r (hp r).2⟩

theorem Strict.onFail {cleanup : Program Op Resp ε Unit} {p : Program Op Resp ε α}
    (hp : Strict bad p) (hc : Quiet bad cleanup) : Strict bad (p.onFail cleanup) := by
  induction p with
  | done a => trivial
  | fail e => exact hc.bind_strict fun _ => trivial
  | abort => trivial
  | call op k ih =>
    exact fun r => ⟨fun e he => ((hp r).1 e he).onFail hc, fun hn => ih r ((hp r).2 hn)⟩

theorem Doomed.run {e : ε} {p : Program Op Resp ε α} (hp : Doomed bad e p)
    (env : Environment Op Resp) (h : List (Event Op Resp)) :
    (p.run env h).1 = .failed e ∧
      ∀ ev ∈ (p.run env h).2, ev ∈ h ∨ bad ev.1 ev.2 = none := by
  induction p generalizing h with
  | done a => exact hp.elim
  | fail e' =>
    have he : e' = e := hp
    subst he
    exact ⟨rfl, fun ev hev => Or.inl hev⟩
  | abort => exact hp.elim
  | call op k ih =>
    obtain ⟨hnone, hk⟩ := hp (env h op)
    obtain ⟨hend, htrace⟩ := ih (env h op) hk (h ++ [⟨op, env h op⟩])
    refine ⟨hend, fun ev hev => ?_⟩
    rcases htrace ev hev with hmem | hgood
    · rcases List.mem_append.mp hmem with hold | hnew
      · exact Or.inl hold
      · have heq : ev = ⟨op, env h op⟩ := by simpa using hnew
        subst heq
        exact Or.inr hnone
    · exact Or.inr hgood

/-- A bad answer in the trace of a strict program is the error the program ends with. -/
theorem Strict.run {p : Program Op Resp ε α} (hp : Strict bad p)
    (env : Environment Op Resp) (h : List (Event Op Resp)) {ev : Event Op Resp} {e : ε}
    (hev : ev ∈ (p.run env h).2) (hbad : bad ev.1 ev.2 = some e) :
    ev ∈ h ∨ (p.run env h).1 = .failed e := by
  induction p generalizing h with
  | done a => exact Or.inl hev
  | fail e' => exact Or.inl hev
  | abort => exact Or.inl hev
  | call op k ih =>
    obtain ⟨hdoom, hstrict⟩ := hp (env h op)
    cases hb : bad op (env h op) with
    | none =>
      rcases ih (env h op) (hstrict hb) (h ++ [⟨op, env h op⟩]) hev with hmem | hend
      · rcases List.mem_append.mp hmem with hold | hnew
        · exact Or.inl hold
        · have heq : ev = ⟨op, env h op⟩ := by simpa using hnew
          subst heq
          simp [hb] at hbad
      · exact Or.inr hend
    | some e' =>
      obtain ⟨hend, htrace⟩ := (hdoom e' hb).run env (h ++ [⟨op, env h op⟩])
      rcases htrace ev hev with hmem | hgood
      · rcases List.mem_append.mp hmem with hold | hnew
        · exact Or.inl hold
        · have heq : ev = ⟨op, env h op⟩ := by simpa using hnew
          subst heq
          have hee : e' = e := Option.some.inj (hb.symm.trans hbad)
          subst hee
          exact Or.inr hend
      · simp [hgood] at hbad

end Strict

section Ensures

variable {Q Q' : α → Prop} {R : β → Prop}

/-- Whatever the answers, the program does not abort, and what it returns satisfies `Q`. -/
def Ensures (Q : α → Prop) : Program Op Resp ε α → Prop
  | done a => Q a
  | fail _ => True
  | abort => False
  | call _ k => ∀ r, Ensures Q (k r)

theorem Ensures.mono {p : Program Op Resp ε α} (hp : p.Ensures Q) (h : ∀ a, Q a → Q' a) :
    p.Ensures Q' := by
  induction p with
  | done a => exact h a hp
  | fail e => trivial
  | abort => exact hp
  | call op k ih => exact fun r => ih r (hp r)

theorem Ensures.bind {p : Program Op Resp ε α} {f : α → Program Op Resp ε β}
    (hp : p.Ensures Q) (hf : ∀ a, Q a → (f a).Ensures R) : (p.bind f).Ensures R := by
  induction p with
  | done a => exact hf a hp
  | fail e => trivial
  | abort => exact hp
  | call op k ih => exact fun r => ih r (hp r)

theorem Ensures.onFail {p : Program Op Resp ε α} {cleanup : Program Op Resp ε Unit}
    (hp : p.Ensures Q) (hc : cleanup.Ensures fun _ => True) : (p.onFail cleanup).Ensures Q := by
  induction p with
  | done a => exact hp
  | fail e => exact hc.bind fun _ _ => trivial
  | abort => exact hp
  | call op k ih => exact fun r => ih r (hp r)

theorem ensures_ofOption {x : Option α} (e : ε) (h : ∀ a, x = some a → Q a) :
    (ofOption e x : Program Op Resp ε α).Ensures Q := by
  cases x with
  | none => trivial
  | some a => exact h a rfl

theorem ensures_ofExcept {x : Except ε α} (h : ∀ a, x = .ok a → Q a) :
    (ofExcept x : Program Op Resp ε α).Ensures Q := by
  cases x with
  | error e => trivial
  | ok a => exact h a rfl

theorem Ensures.run {p : Program Op Resp ε α} (hp : p.Ensures Q) (env : Environment Op Resp)
    (h : List (Event Op Resp)) :
    (∃ a, (p.run env h).1 = .done a ∧ Q a) ∨ ∃ e, (p.run env h).1 = .failed e := by
  induction p generalizing h with
  | done a => exact Or.inl ⟨a, rfl, hp⟩
  | fail e => exact Or.inr ⟨e, rfl⟩
  | abort => exact hp.elim
  | call op k ih => exact ih _ (hp _) _

theorem Ensures.run_done {p : Program Op Resp ε α} (hp : p.Ensures Q) {env : Environment Op Resp}
    {h : List (Event Op Resp)} {a : α} (ha : (p.run env h).1 = .done a) : Q a := by
  obtain ⟨a', ha', hq⟩ | ⟨e, he⟩ := hp.run env h
  · cases ha'.symm.trans ha
    exact hq
  · cases he.symm.trans ha

theorem Ensures.bind_congr {p : Program Op Resp ε α} {f g : α → Program Op Resp ε β}
    (hp : p.Ensures Q) (h : ∀ a, Q a → f a = g a) : p.bind f = p.bind g := by
  induction p with
  | done a => exact h a hp
  | fail e => rfl
  | abort => rfl
  | call op k ih =>
    simp only [call_bind]
    congr 1
    funext r
    exact ih r (hp r)

end Ensures

section Emits

variable {Q Q' : α → List (Event Op Resp) → Prop} {R : β → List (Event Op Resp) → Prop}

/-- Whatever the answers, the program returns, and what it returns and the calls it has made for it
satisfy `Q`. -/
def Emits : Program Op Resp ε α → (α → List (Event Op Resp) → Prop) → Prop
  | done a, Q => Q a []
  | fail _, _ => False
  | abort, _ => False
  | call op k, Q => ∀ r, (k r).Emits fun a evs => Q a (⟨op, r⟩ :: evs)

theorem Emits.mono {p : Program Op Resp ε α} (hp : p.Emits Q) (h : ∀ a evs, Q a evs → Q' a evs) :
    p.Emits Q' := by
  induction p generalizing Q Q' with
  | done a => exact h a [] hp
  | fail e => exact hp
  | abort => exact hp
  | call op k ih => exact fun r => ih r (hp r) fun a evs => h a (⟨op, r⟩ :: evs)

theorem Emits.bind {p : Program Op Resp ε α} {f : α → Program Op Resp ε β} (hp : p.Emits Q)
    (hf : ∀ a evs, Q a evs → (f a).Emits fun b evs' => R b (evs ++ evs')) : (p.bind f).Emits R := by
  induction p generalizing Q R with
  | done a => exact hf a [] hp
  | fail e => exact hp.elim
  | abort => exact hp.elim
  | call op k ih => exact fun r => ih r (hp r) fun a evs => hf a (⟨op, r⟩ :: evs)

theorem Emits.run {p : Program Op Resp ε α} (hp : p.Emits Q) (env : Environment Op Resp)
    (h : List (Event Op Resp)) : ∃ a evs, p.run env h = (.done a, h ++ evs) ∧ Q a evs := by
  induction p generalizing Q h with
  | done a => exact ⟨a, [], by rw [List.append_nil]; rfl, hp⟩
  | fail e => exact hp.elim
  | abort => exact hp.elim
  | call op k ih =>
    obtain ⟨a, evs, hrun, hq⟩ := ih (env h op) (hp _) (h ++ [⟨op, env h op⟩])
    refine ⟨a, ⟨op, env h op⟩ :: evs, ?_, hq⟩
    rw [Program.run, hrun, List.append_assoc, List.singleton_append]

end Emits

/-- Abort unless there is a value. -/
def demand : Option α → Program Op Resp ε α
  | some a => done a
  | none => abort

@[simp] theorem demand_some (a : α) : (demand (some a) : Program Op Resp ε α) = done a := rfl

/-- Abort unless `c` holds. -/
def require (c : Prop) [Decidable c] : Program Op Resp ε Unit := if c then done () else abort

theorem require_eq {c : Prop} [Decidable c] (h : c) :
    (require c : Program Op Resp ε Unit) = done () := if_pos h

section Loop

variable {σ ρ : Type} {round : σ → Program Op Resp ε (σ ⊕ ρ)}

/-- Repeat `round` until it ends with a result; abort when `n` rounds were not enough. -/
def loop (round : σ → Program Op Resp ε (σ ⊕ ρ)) : Nat → σ → Program Op Resp ε ρ
  | 0, _ => abort
  | n + 1, s => (round s).bind (Sum.elim (loop round n) done)

variable {I : σ → Prop} {m : σ → Nat} {R : ρ → Prop}

/-- Rounds that keep `I` and decrease a measure come to an end. -/
theorem loop_ensures
    (hround : ∀ s, I s →
      (round s).Ensures (Sum.elim (fun s' => I s' ∧ m s' < m s) R))
    {n : Nat} {s : σ} (hs : I s) (hn : m s < n) : (loop round n s).Ensures R := by
  induction n generalizing s with
  | zero => omega
  | succ n ih =>
    apply (hround s hs).bind
    intro x hx
    cases x with
    | inl s' => exact ih hx.1 (by have hlt := hx.2; omega)
    | inr r => exact hx

/-- A function that goes on like the loop is the loop, whatever it returns at the end of its
rounds. -/
theorem loop_eq {f : Nat → σ → Program Op Resp ε ρ}
    (hf : ∀ n s, I s → f (n + 1) s = (round s).bind (Sum.elim (f n) done))
    (hround : ∀ s, I s →
      (round s).Ensures (Sum.elim (fun s' => I s' ∧ m s' < m s) R))
    {n : Nat} {s : σ} (hs : I s) (hn : m s < n) : loop round n s = f n s := by
  induction n generalizing s with
  | zero => omega
  | succ n ih =>
    rw [hf n s hs, loop]
    apply (hround s hs).bind_congr
    intro x hx
    cases x with
    | inl s' => exact ih hx.1 (by have hlt := hx.2; omega)
    | inr r => rfl

/-- The same with the calls that the rounds have made so far. -/
theorem loop_emits {I : σ → List (Event Op Resp) → Prop} {R : ρ → List (Event Op Resp) → Prop}
    (hround : ∀ s evs, I s evs → (round s).Emits fun x evs' =>
      Sum.elim (fun s' => I s' (evs ++ evs') ∧ m s' < m s) (fun r => R r (evs ++ evs')) x)
    {n : Nat} {s : σ} {evs : List (Event Op Resp)} (hs : I s evs) (hn : m s < n) :
    (loop round n s).Emits fun r evs' => R r (evs ++ evs') := by
  induction n generalizing s evs with
  | zero => omega
  | succ n ih =>
    apply (hround s evs hs).bind
    intro x evs₁ hx
    cases x with
    | inl s' =>
      have hrest := ih hx.1 (by have hlt := hx.2; omega)
      exact hrest.mono fun r evs₂ hr => by rw [← List.append_assoc]; exact hr
    | inr r =>
      show R r (evs ++ (evs₁ ++ []))
      rw [List.append_nil]
      exact hx

end Loop

end Program

end

end CallProgram
