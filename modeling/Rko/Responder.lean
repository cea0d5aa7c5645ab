import Rko.CallProgram

namespace CallProgram

/-- An environment with a state of its own, which each answer may change. -/
abbrev Responder (σ Op : Type) (Resp : Op → Type) := σ → (op : Op) → Resp op × σ

namespace Program

variable {σ Op : Type} {Resp : Op → Type} {ε α β : Type}

def exec (answer : Responder σ Op Resp) : σ → Program Op Resp ε α → Outcome ε α × σ
  | s, done a => (.done a, s)
  | s, fail e => (.failed e, s)
  | s, abort => (.aborted, s)
  | s, call op k => (k (answer s op).1).exec answer (answer s op).2

variable {answer : Responder σ Op Resp}

@[simp] theorem exec_done (s : σ) (a : α) :
    (done a : Program Op Resp ε α).exec answer s = (.done a, s) := rfl

@[simp] theorem exec_fail (s : σ) (e : ε) :
    (fail e : Program Op Resp ε α).exec answer s = (.failed e, s) := rfl

@[simp] theorem exec_call (s : σ) (op : Op) (k : Resp op → Program Op Resp ε α) :
    (call op k).exec answer s = (k (answer s op).1).exec answer (answer s op).2 := rfl

theorem exec_bind_done {s s' : σ} {p : Program Op Resp ε α} {a : α}
    (hp : p.exec answer s = (.done a, s')) (f : α → Program Op Resp ε β) :
    (p.bind f).exec answer s = (f a).exec answer s' := by
  induction p generalizing s with
  | done b =>
    obtain ⟨ha, hs⟩ := Prod.mk.inj hp
    cases ha
    cases hs
    rfl
  | fail e => cases hp
  | abort => cases hp
  | call op k ih => exact ih _ hp

theorem exec_bind_failed {s s' : σ} {p : Program Op Resp ε α} {e : ε}
    (hp : p.exec answer s = (.failed e, s')) (f : α → Program Op Resp ε β) :
    (p.bind f).exec answer s = (.failed e, s') := by
  induction p generalizing s with
  | done b => cases hp
  | fail e' =>
    obtain ⟨he, hs⟩ := Prod.mk.inj hp
    cases he
    cases hs
    rfl
  | abort => cases hp
  | call op k ih => exact ih _ hp

theorem of_exec_bind_done {s s' : σ} {p : Program Op Resp ε α} {f : α → Program Op Resp ε β} {b : β}
    (h : (p.bind f).exec answer s = (.done b, s')) :
    ∃ a s₁, p.exec answer s = (.done a, s₁) ∧ (f a).exec answer s₁ = (.done b, s') := by
  induction p generalizing s with
  | done a => exact ⟨a, s, rfl, h⟩
  | fail e => cases h
  | abort => cases h
  | call op k ih => exact ih _ h

theorem exec_attempt_done {s s' : σ} {p : Program Op Resp ε α} {a : α}
    (hp : p.exec answer s = (.done a, s')) : p.attempt.exec answer s = (.done (.ok a), s') := by
  induction p generalizing s with
  | done b =>
    obtain ⟨ha, hs⟩ := Prod.mk.inj hp
    cases ha
    cases hs
    rfl
  | fail e => cases hp
  | abort => cases hp
  | call op k ih => exact ih _ hp

theorem exec_attempt_failed {s s' : σ} {p : Program Op Resp ε α} {e : ε}
    (hp : p.exec answer s = (.failed e, s')) :
    p.attempt.exec answer s = (.done (.error e), s') := by
  induction p generalizing s with
  | done b => cases hp
  | fail e' =>
    obtain ⟨he, hs⟩ := Prod.mk.inj hp
    cases he
    cases hs
    rfl
  | abort => cases hp
  | call op k ih => exact ih _ hp

/-- What every answer keeps true of the environment, a whole run keeps true. -/
theorem exec_invariant {I : σ → Prop} (hstep : ∀ s op, I s → I (answer s op).2)
    (p : Program Op Resp ε α) {s : σ} (hs : I s) : I (p.exec answer s).2 := by
  induction p generalizing s with
  | done a => exact hs
  | fail e => exact hs
  | abort => exact hs
  | call op k ih => exact ih _ (hstep s op hs)

theorem Ensures.exec {Q : α → Prop} {p : Program Op Resp ε α} (hp : p.Ensures Q) {s s' : σ} {a : α}
    (ha : p.exec answer s = (.done a, s')) : Q a := by
  induction p generalizing s with
  | done b =>
    cases (Prod.mk.inj ha).1
    exact hp
  | fail e => cases ha
  | abort => cases ha
  | call op k ih => exact ih _ (hp _) ha

/-- Every call of the program is one of those of `ok`. -/
def Calls (ok : Op → Prop) : Program Op Resp ε α → Prop
  | done _ => True
  | fail _ => True
  | abort => True
  | call op k => ok op ∧ ∀ r, Calls ok (k r)

theorem Calls.bind {ok : Op → Prop} {p : Program Op Resp ε α} (hp : Calls ok p)
    {f : α → Program Op Resp ε β} (hf : ∀ a, Calls ok (f a)) : Calls ok (p.bind f) := by
  induction p with
  | done a => exact hf a
  | fail e => trivial
  | abort => trivial
  | call op k ih => exact ⟨hp.1, fun r => ih r (hp.2 r)⟩

/-- Calls that leave the state alone are answered as by a stateless environment. -/
theorem exec_of_calls {ok : Op → Prop} {env : Environment Op Resp}
    (hok : ∀ s h op, ok op → answer s op = (env h op, s)) {p : Program Op Resp ε α}
    (hp : Calls ok p) (s : σ) (h : List (Event Op Resp)) :
    p.exec answer s = ((p.run env h).1, s) := by
  induction p generalizing h with
  | done a => rfl
  | fail e => rfl
  | abort => rfl
  | call op k ih =>
    rw [exec_call, hok s h op hp.1, run]
    exact ih _ (hp.2 _) _

end Program

end CallProgram
