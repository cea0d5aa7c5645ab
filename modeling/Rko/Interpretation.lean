import Rko.CallProgram

namespace CallProgram

namespace Program

variable {Op Op' : Type} {Resp : Op → Type} {Resp' : Op' → Type} {ε ε' α β : Type}
  (calls : (op : Op) → Program Op' Resp' ε' (Resp op))

/-- The program when each of its calls is carried out by a program of its own. Its failure is a
result like any other. -/
def interp : Program Op Resp ε α → Program Op' Resp' ε' (Except ε α)
  | done a => done (.ok a)
  | fail e => done (.error e)
  | abort => abort
  | call op k => (calls op).bind fun r => (k r).interp

/-- How a program goes on after the part that `interp` has carried out. -/
def resume (f : α → Program Op Resp ε β) : Except ε α → Program Op' Resp' ε' (Except ε β)
  | .ok a => (f a).interp calls
  | .error e => done (.error e)

@[simp] theorem interp_done (a : α) :
    (done a : Program Op Resp ε α).interp calls = done (.ok a) := rfl

@[simp] theorem interp_pure (a : α) :
    (pure a : Program Op Resp ε α).interp calls = done (.ok a) := rfl

@[simp] theorem interp_fail (e : ε) :
    (fail e : Program Op Resp ε α).interp calls = done (.error e) := rfl

theorem interp_call (op : Op) (k : Resp op → Program Op Resp ε α) :
    (call op k).interp calls = (calls op).bind fun r => (k r).interp calls := rfl

theorem interp_bind (p : Program Op Resp ε α) (f : α → Program Op Resp ε β) :
    (p.bind f).interp calls = (p.interp calls).bind (resume calls f) := by
  induction p with
  | done a => rfl
  | fail e => rfl
  | abort => rfl
  | call op k ih =>
    rw [call_bind, interp_call, interp_call, bind_assoc]
    congr 1
    funext r
    exact ih r

theorem interp_attempt (p : Program Op Resp ε α) :
    p.attempt.interp calls =
      (p.interp calls).bind fun r => (done (.ok r) : Program Op' Resp' ε' (Except ε _)) := by
  induction p with
  | done a => rfl
  | fail e => rfl
  | abort => rfl
  | call op k ih =>
    rw [attempt, interp_call, interp_call, bind_assoc]
    congr 1
    funext r
    exact ih r

end Program

end CallProgram
