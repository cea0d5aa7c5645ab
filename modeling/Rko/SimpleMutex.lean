import Rko.CriticalSection
import Rko.GuardedRun

namespace Rko

open CriticalSection

/-- The flag alone keeps the threads apart: whoever has a guard reaches the data. -/
structure SimpleMutex (α : Type) where
  locked : Bool
  data : α

namespace SimpleMutex

variable {α : Type}

def new (data : α) : SimpleMutex α := ⟨false, data⟩

/-- One round of the loop of `lock`. The weak exchange may also fail on a lock that is free. -/
def compareExchangeWeak (m : SimpleMutex α) (spurious : Bool) : Option (SimpleMutex α) :=
  if m.locked || spurious then none else some { m with locked := true }

def derefMut (m : SimpleMutex α) (f : α → α) : SimpleMutex α := { m with data := f m.data }

def dropGuard (m : SimpleMutex α) : SimpleMutex α := { m with locked := false }

end SimpleMutex

/-- What a thread that holds no lock does next: it is done with its call, it takes one step on the
atomics `γ`, or it calls `lock` and runs `body` under the guard. -/
inductive Continuation (κ : Type) (σ : κ → Type) (γ τ : Type)
  | finished
  | atomic (f : γ → τ × γ)
  | lock (k : κ) (body : Section (σ k) τ)

/-- The code of the threads: where a call begins, and how it goes on from each place at which it
holds no lock. -/
structure ThreadCode (κ : Type) (σ : κ → Type) (γ χ τ : Type) where
  start : χ → τ
  next : τ → Continuation κ σ γ τ

inductive Phase (κ : Type) (σ : κ → Type) (τ : Type)
  | outside (t : τ)
  | inside (k : κ) (rest : Section (σ k) τ)

def Phase.guard {κ : Type} {σ : κ → Type} {τ : Type} : Phase κ σ τ → Option κ
  | outside _ => none
  | inside k _ => some k

/-- Threads `ι` with mutexes `κ`, each with data of its own. -/
structure Threads (ι κ : Type) (σ : κ → Type) (γ τ : Type) where
  mutex : (k : κ) → SimpleMutex (σ k)
  atomics : γ
  phase : ι → Phase κ σ τ

/-- `attempt` is a round of the loop of `lock`, `access` one access to the data under the guard. -/
inductive ThreadAction (ι χ : Type)
  | call (i : ι) (x : χ)
  | atomic (i : ι)
  | attempt (i : ι) (spurious : Bool)
  | access (i : ι)
  | unlock (i : ι)

/-- The same threads when every critical section is a single step. -/
structure Serial (ι κ : Type) (σ : κ → Type) (γ τ : Type) where
  data : (k : κ) → σ k
  atomics : γ
  place : ι → τ

inductive SerialAction (ι χ : Type)
  | call (i : ι) (x : χ)
  | atomic (i : ι)
  | critical (i : ι)

variable {ι κ : Type} {σ : κ → Type} {γ χ τ : Type}

def Serial.step [DecidableEq ι] [DecidableEq κ] (code : ThreadCode κ σ γ χ τ)
    (c : Serial ι κ σ γ τ) : SerialAction ι χ → Option (Serial ι κ σ γ τ)
  | .call i x =>
    match code.next (c.place i) with
    | .finished => some { c with place := Function.update c.place i (code.start x) }
    | _ => none
  | .atomic i =>
    match code.next (c.place i) with
    | .atomic f => some { c with
        atomics := (f c.atomics).2
        place := Function.update c.place i (f c.atomics).1 }
    | _ => none
  | .critical i =>
    match code.next (c.place i) with
    | .lock k body => some { c with
        data := Function.update c.data k (body.run (c.data k)).2
        place := Function.update c.place i (body.run (c.data k)).1 }
    | _ => none

section SerialStep

variable [DecidableEq ι] [DecidableEq κ] {code : ThreadCode κ σ γ χ τ} {c c' : Serial ι κ σ γ τ}
  {i : ι}

theorem Serial.step_call {x : χ} (h : c.step code (.call i x) = some c') :
    code.next (c.place i) = .finished ∧
      c' = { c with place := Function.update c.place i (code.start x) } := by
  simp only [Serial.step] at h
  split at h
  next hnext =>
    cases h
    exact ⟨hnext, rfl⟩
  · cases h

theorem Serial.step_atomic (h : c.step code (.atomic i) = some c') :
    ∃ f, code.next (c.place i) = .atomic f ∧
      c' = { c with
        atomics := (f c.atomics).2
        place := Function.update c.place i (f c.atomics).1 } := by
  simp only [Serial.step] at h
  split at h
  next f hnext =>
    cases h
    exact ⟨f, hnext, rfl⟩
  · cases h

theorem Serial.step_critical (h : c.step code (.critical i) = some c') :
    ∃ k body, code.next (c.place i) = .lock k body ∧
      c' = { c with
        data := Function.update c.data k (body.run (c.data k)).2
        place := Function.update c.place i (body.run (c.data k)).1 } := by
  simp only [Serial.step] at h
  split at h
  next k body hnext =>
    cases h
    exact ⟨k, body, hnext, rfl⟩
  · cases h

end SerialStep

namespace Threads

/-- The flag of a mutex is set while just one thread has its guard, and only then. -/
structure Exclusive (s : Threads ι κ σ γ τ) : Prop where
  unique : ∀ {i j k}, (s.phase i).guard = some k → (s.phase j).guard = some k → i = j
  locked : ∀ k, (s.mutex k).locked = true ↔ ∃ i, (s.phase i).guard = some k

/-- `c` is what becomes of `s` when every thread inside a critical section goes on to its end. -/
structure Settles (s : Threads ι κ σ γ τ) (c : Serial ι κ σ γ τ) : Prop where
  atomics : s.atomics = c.atomics
  free : ∀ {k}, (s.mutex k).locked = false → (s.mutex k).data = c.data k
  outside : ∀ {i t}, s.phase i = .outside t → c.place i = t
  inside : ∀ {i k rest}, s.phase i = .inside k rest →
    rest.run (s.mutex k).data = (c.place i, c.data k)

theorem Exclusive.not_guard {s : Threads ι κ σ γ τ} (h : s.Exclusive) {k : κ}
    (hfree : (s.mutex k).locked = false) (i : ι) :
    (s.phase i).guard ≠ some k := by
  intro hi
  have hlocked := (h.locked k).mpr ⟨i, hi⟩
  rw [hfree] at hlocked
  cases hlocked

/-- A step that gives and takes no guard. -/
theorem Exclusive.of_guard_eq {s s' : Threads ι κ σ γ τ} (h : s.Exclusive)
    (hguard : ∀ i, (s'.phase i).guard = (s.phase i).guard)
    (hlocked : ∀ k, (s'.mutex k).locked = (s.mutex k).locked) : s'.Exclusive := by
  refine ⟨fun {i j k} hi hj => ?_, fun k => ?_⟩
  · rw [hguard] at hi hj
    exact h.unique hi hj
  · simp only [hlocked, hguard]
    exact h.locked k

/-- The threads before their first step. -/
def new (data : (k : κ) → σ k) (atomics : γ) (place : ι → τ) : Threads ι κ σ γ τ :=
  ⟨fun k => .new (data k), atomics, fun i => .outside (place i)⟩

theorem exclusive_new (data : (k : κ) → σ k) (atomics : γ) (place : ι → τ) :
    (new data atomics place).Exclusive := by
  refine ⟨fun hi => ?_, fun k => ⟨fun hlocked => ?_, fun hheld => ?_⟩⟩
  · cases hi
  · cases hlocked
  · obtain ⟨i, hi⟩ := hheld
    cases hi

theorem settles_new (data : (k : κ) → σ k) (atomics : γ) (place : ι → τ) :
    (new data atomics place).Settles ⟨data, atomics, place⟩ := by
  refine ⟨rfl, fun _ => rfl, fun hi => ?_, fun hi => ?_⟩
  · cases hi
    rfl
  · cases hi

def move [DecidableEq ι] (s : Threads ι κ σ γ τ) (i : ι) (p : Phase κ σ τ) : Threads ι κ σ γ τ :=
  { s with phase := Function.update s.phase i p }

def setMutex [DecidableEq κ] (s : Threads ι κ σ γ τ) (k : κ) (m : SimpleMutex (σ k)) :
    Threads ι κ σ γ τ :=
  { s with mutex := Function.update s.mutex k m }

section Fields

variable (s : Threads ι κ σ γ τ)

@[simp] theorem move_mutex [DecidableEq ι] (i : ι) (p : Phase κ σ τ) :
    (s.move i p).mutex = s.mutex := rfl

@[simp] theorem move_phase_self [DecidableEq ι] (i : ι) (p : Phase κ σ τ) :
    (s.move i p).phase i = p := Function.update_self ..

theorem move_phase_of_ne [DecidableEq ι] {i j : ι} (h : j ≠ i) (p : Phase κ σ τ) :
    (s.move i p).phase j = s.phase j := Function.update_of_ne h ..

@[simp] theorem setMutex_phase [DecidableEq κ] (k : κ) (m : SimpleMutex (σ k)) :
    (s.setMutex k m).phase = s.phase := rfl

@[simp] theorem setMutex_self [DecidableEq κ] (k : κ) (m : SimpleMutex (σ k)) :
    (s.setMutex k m).mutex k = m := Function.update_self ..

theorem setMutex_of_ne [DecidableEq κ] {k k' : κ} (h : k' ≠ k) (m : SimpleMutex (σ k)) :
    (s.setMutex k m).mutex k' = s.mutex k' := Function.update_of_ne h ..

end Fields

theorem guard_move [DecidableEq ι] {s : Threads ι κ σ γ τ} {i : ι} {p : Phase κ σ τ}
    (hp : p.guard = (s.phase i).guard) (j : ι) :
    ((s.move i p).phase j).guard = (s.phase j).guard := by
  by_cases hj : j = i
  · subst hj
    rw [move_phase_self, hp]
  · rw [move_phase_of_ne s hj]

variable [DecidableEq ι] [DecidableEq κ]

def step (code : ThreadCode κ σ γ χ τ) (s : Threads ι κ σ γ τ) :
    ThreadAction ι χ → Option (Threads ι κ σ γ τ)
  | .call i x =>
    match s.phase i with
    | .outside u =>
      match code.next u with
      | .finished => some (s.move i (.outside (code.start x)))
      | _ => none
    | .inside .. => none
  | .atomic i =>
    match s.phase i with
    | .outside u =>
      match code.next u with
      | .atomic f => some { s.move i (.outside (f s.atomics).1) with atomics := (f s.atomics).2 }
      | _ => none
    | .inside .. => none
  | .attempt i spurious =>
    match s.phase i with
    | .outside u =>
      match code.next u with
      | .lock k body =>
        match (s.mutex k).compareExchangeWeak spurious with
        | none => some s
        | some m => some ((s.setMutex k m).move i (.inside k body))
      | _ => none
    | .inside .. => none
  | .access i =>
    match s.phase i with
    | .inside k (.access f rest) =>
      some ((s.setMutex k ((s.mutex k).derefMut f)).move i (.inside k (rest (s.mutex k).data)))
    | _ => none
  | .unlock i =>
    match s.phase i with
    | .inside k (.ret t) => some ((s.setMutex k (s.mutex k).dropGuard).move i (.outside t))
    | _ => none

/-- Everything a step can do. -/
inductive Transition (code : ThreadCode κ σ γ χ τ) (s : Threads ι κ σ γ τ) :
    ThreadAction ι χ → Threads ι κ σ γ τ → Prop
  | call {i : ι} {u : τ} (x : χ) (hphase : s.phase i = .outside u)
      (hnext : code.next u = .finished) :
    Transition code s (.call i x) (s.move i (.outside (code.start x)))
  | atomic {i : ι} {u : τ} {f : γ → τ × γ} (hphase : s.phase i = .outside u)
      (hnext : code.next u = .atomic f) :
    Transition code s (.atomic i)
      { s.move i (.outside (f s.atomics).1) with atomics := (f s.atomics).2 }
  | spin (i : ι) (spurious : Bool) : Transition code s (.attempt i spurious) s
  | acquire {i : ι} {u : τ} {k : κ} {body : Section (σ k) τ} (hphase : s.phase i = .outside u)
      (hnext : code.next u = .lock k body) (hfree : (s.mutex k).locked = false) :
    Transition code s (.attempt i false)
      ((s.setMutex k { s.mutex k with locked := true }).move i (.inside k body))
  | access {i : ι} {k : κ} {f : σ k → σ k} {rest : σ k → Section (σ k) τ}
      (hphase : s.phase i = .inside k (.access f rest)) :
    Transition code s (.access i)
      ((s.setMutex k ((s.mutex k).derefMut f)).move i (.inside k (rest (s.mutex k).data)))
  | unlock {i : ι} {k : κ} {t : τ} (hphase : s.phase i = .inside k (.ret t)) :
    Transition code s (.unlock i) ((s.setMutex k (s.mutex k).dropGuard).move i (.outside t))

theorem transition_of_step {code : ThreadCode κ σ γ χ τ} {s s' : Threads ι κ σ γ τ}
    {a : ThreadAction ι χ} (h : s.step code a = some s') : Transition code s a s' := by
  cases a with
  | call i x =>
    simp only [step] at h
    split at h
    next u hphase =>
      split at h
      next hnext =>
        cases h
        exact .call x hphase hnext
      · cases h
    · cases h
  | atomic i =>
    simp only [step] at h
    split at h
    next u hphase =>
      split at h
      next f hnext =>
        cases h
        exact .atomic hphase hnext
      · cases h
    · cases h
  | attempt i spurious =>
    simp only [step] at h
    split at h
    next u hphase =>
      split at h
      next k body hnext =>
        split at h
        next =>
          cases h
          exact .spin i spurious
        next m hm =>
          cases h
          unfold SimpleMutex.compareExchangeWeak at hm
          split at hm
          · cases hm
          next hfree =>
            cases hm
            rw [Bool.not_eq_true, Bool.or_eq_false_iff] at hfree
            obtain ⟨hlocked, rfl⟩ := hfree
            exact .acquire hphase hnext hlocked
      · cases h
    · cases h
  | access i =>
    simp only [step] at h
    split at h
    next hphase =>
      cases h
      exact .access hphase
    · cases h
  | unlock i =>
    simp only [step] at h
    split at h
    next hphase =>
      cases h
      exact .unlock hphase
    · cases h

namespace Exclusive

variable {s : Threads ι κ σ γ τ}

theorem acquire (h : s.Exclusive) {i : ι} {k : κ} (hfree : (s.mutex k).locked = false)
    (hout : (s.phase i).guard = none) (body : Section (σ k) τ) :
    ((s.setMutex k { s.mutex k with locked := true }).move i (.inside k body)).Exclusive := by
  have hguard : ∀ j k', ((((s.setMutex k { s.mutex k with locked := true }).move i
      (.inside k body)).phase j).guard = some k') ↔
      (j = i ∧ k' = k ∨ (s.phase j).guard = some k') := by
    intro j k'
    by_cases hj : j = i
    · subst hj
      rw [move_phase_self, hout]
      simp [Phase.guard, eq_comm]
    · rw [move_phase_of_ne _ hj]
      simp [hj]
  refine ⟨fun {j j' k'} hj hj' => ?_, fun k' => ?_⟩
  · rw [hguard] at hj hj'
    rcases hj with ⟨rfl, rfl⟩ | hj <;> rcases hj' with ⟨rfl, hk⟩ | hj'
    · rfl
    · exact absurd hj' (h.not_guard hfree _)
    · subst hk
      exact absurd hj (h.not_guard hfree _)
    · exact h.unique hj hj'
  · simp only [hguard]
    by_cases hk : k' = k
    · subst hk
      simp only [move_mutex, setMutex_self]
      exact ⟨fun _ => ⟨i, Or.inl ⟨rfl, trivial⟩⟩, fun _ => trivial⟩
    · rw [move_mutex, setMutex_of_ne s hk, h.locked k']
      simp [hk]

theorem release (h : s.Exclusive) {i : ι} {k : κ} (hin : (s.phase i).guard = some k) (t : τ) :
    ((s.setMutex k (s.mutex k).dropGuard).move i (.outside t)).Exclusive := by
  have hguard : ∀ j k', ((((s.setMutex k (s.mutex k).dropGuard).move i
      (.outside t)).phase j).guard = some k') ↔ (j ≠ i ∧ (s.phase j).guard = some k') := by
    intro j k'
    by_cases hj : j = i
    · subst hj
      rw [move_phase_self]
      simp [Phase.guard]
    · rw [move_phase_of_ne _ hj]
      simp [hj]
  refine ⟨fun {j j' k'} hj hj' => ?_, fun k' => ?_⟩
  · rw [hguard] at hj hj'
    exact h.unique hj.2 hj'.2
  · simp only [hguard]
    by_cases hk : k' = k
    · subst hk
      simp only [move_mutex, setMutex_self, SimpleMutex.dropGuard]
      constructor
      · intro hfalse
        cases hfalse
      · intro hother
        obtain ⟨j, hne, hj⟩ := hother
        exact absurd (h.unique hj hin) hne
    · rw [move_mutex, setMutex_of_ne s hk, h.locked k']
      constructor
      · intro hold
        obtain ⟨j, hj⟩ := hold
        refine ⟨j, fun hji => hk ?_, hj⟩
        rw [hji, hin] at hj
        exact (Option.some.inj hj).symm
      · intro hother
        obtain ⟨j, -, hj⟩ := hother
        exact ⟨j, hj⟩

end Exclusive

theorem Exclusive.step {code : ThreadCode κ σ γ χ τ} {s s' : Threads ι κ σ γ τ}
    {a : ThreadAction ι χ} (h : s.Exclusive) (hstep : s.step code a = some s') : s'.Exclusive := by
  cases transition_of_step hstep with
  | @call i u x hphase hnext =>
    refine h.of_guard_eq (guard_move ?_) fun k => rfl
    rw [hphase, Phase.guard, Phase.guard]
  | @atomic i u f hphase hnext =>
    refine h.of_guard_eq (guard_move ?_) fun k => rfl
    rw [hphase, Phase.guard, Phase.guard]
  | spin i spurious => exact h
  | acquire hphase hnext hfree =>
    apply h.acquire hfree
    rw [hphase, Phase.guard]
  | @access i k f rest hphase =>
    refine h.of_guard_eq (fun j => ?_) fun k' => ?_
    · rw [guard_move (by rw [setMutex_phase, hphase, Phase.guard, Phase.guard])]
      rfl
    · rw [move_mutex]
      by_cases hk : k' = k
      · subst hk
        rw [setMutex_self]
        rfl
      · rw [setMutex_of_ne s hk]
  | unlock hphase =>
    apply h.release
    rw [hphase, Phase.guard]

namespace Settles

variable {code : ThreadCode κ σ γ χ τ} {s : Threads ι κ σ γ τ} {c : Serial ι κ σ γ τ}

omit [DecidableEq κ] in
theorem move_outside (h : s.Settles c) {i : ι} {u : τ} (hphase : s.phase i = .outside u) (t : τ)
    (g : γ) :
    Settles { s.move i (.outside t) with atomics := g }
      { c with atomics := g, place := Function.update c.place i t } := by
  refine ⟨rfl, fun hfree => h.free hfree, fun {j u'} hj => ?_, fun {j k rest} hj => ?_⟩
  · by_cases hji : j = i
    · subst hji
      rw [move_phase_self] at hj
      cases hj
      exact Function.update_self ..
    · rw [move_phase_of_ne s hji] at hj
      exact (Function.update_of_ne hji ..).trans (h.outside hj)
  · have hji : j ≠ i := by
      intro hji
      subst hji
      rw [move_phase_self] at hj
      cases hj
    rw [move_phase_of_ne s hji] at hj
    simp only [Function.update_of_ne hji]
    exact h.inside hj

/-- The section takes effect as a whole when its lock is taken. -/
theorem acquire (h : s.Settles c) (hex : s.Exclusive) {i : ι} {k : κ}
    (hfree : (s.mutex k).locked = false) (body : Section (σ k) τ) :
    Settles ((s.setMutex k { s.mutex k with locked := true }).move i (.inside k body))
      { c with
        data := Function.update c.data k (body.run (c.data k)).2
        place := Function.update c.place i (body.run (c.data k)).1 } := by
  have hdata : (s.mutex k).data = c.data k := h.free hfree
  refine ⟨h.atomics, fun {k'} hfree' => ?_, fun {j u'} hj => ?_, fun {j k' rest} hj => ?_⟩
  · have hk : k' ≠ k := by
      intro hk
      subst hk
      rw [move_mutex, setMutex_self] at hfree'
      cases hfree'
    rw [move_mutex, setMutex_of_ne s hk] at hfree' ⊢
    simp only [Function.update_of_ne hk]
    exact h.free hfree'
  · have hji : j ≠ i := by
      intro hji
      subst hji
      rw [move_phase_self] at hj
      cases hj
    rw [move_phase_of_ne _ hji] at hj
    simp only [Function.update_of_ne hji]
    exact h.outside hj
  · by_cases hji : j = i
    · subst hji
      rw [move_phase_self] at hj
      cases hj
      simp only [move_mutex, setMutex_self, hdata, Function.update_self]
    · rw [move_phase_of_ne _ hji, setMutex_phase] at hj
      have hk : k' ≠ k := by
        intro hk
        subst hk
        exact hex.not_guard hfree j (by rw [hj, Phase.guard])
      simp only [move_mutex, setMutex_of_ne s hk, Function.update_of_ne hji, Function.update_of_ne hk]
      exact h.inside hj

/-- Inside a section nothing more is decided; the other threads are at other data. -/
theorem move_inside (h : s.Settles c) (hex : s.Exclusive) {i : ι} {k : κ}
    (hguard : (s.phase i).guard = some k) {m : SimpleMutex (σ k)} {p : Phase κ σ τ}
    (hfree : m.locked = false → m.data = c.data k)
    (hout : ∀ t, p = .outside t → c.place i = t)
    (hin : ∀ {k'} {rest : Section (σ k') τ}, p = .inside k' rest →
      rest.run ((s.setMutex k m).mutex k').data = (c.place i, c.data k')) :
    Settles ((s.setMutex k m).move i p) c := by
  refine ⟨h.atomics, fun {k'} hfree' => ?_, fun {j u'} hj => ?_, fun {j k' rest} hj => ?_⟩
  · rw [move_mutex] at hfree' ⊢
    by_cases hk : k' = k
    · subst hk
      rw [setMutex_self] at hfree' ⊢
      exact hfree hfree'
    · rw [setMutex_of_ne s hk] at hfree' ⊢
      exact h.free hfree'
  · by_cases hji : j = i
    · subst hji
      rw [move_phase_self] at hj
      exact hout u' hj
    · rw [move_phase_of_ne _ hji] at hj
      exact h.outside hj
  · by_cases hji : j = i
    · subst hji
      rw [move_phase_self] at hj
      exact hin hj
    · rw [move_phase_of_ne _ hji, setMutex_phase] at hj
      have hk : k' ≠ k := by
        intro hk
        subst hk
        exact hji (hex.unique (by rw [hj, Phase.guard]) hguard)
      rw [move_mutex, setMutex_of_ne s hk]
      exact h.inside hj

end Settles

end Threads

/-- The steps of the serial system that a step of a thread stands for: a call and an atomic step for
themselves, a round of `lock` that succeeds for the whole section, and nothing else for anything. -/
def ThreadAction.Stands : ThreadAction ι χ → List (SerialAction ι χ) → Prop
  | .call i x, bs => bs = [.call i x]
  | .atomic i, bs => bs = [.atomic i]
  | .attempt i _, bs => bs = [] ∨ bs = [.critical i]
  | .access _, bs => bs = []
  | .unlock _, bs => bs = []

namespace Threads

variable [DecidableEq ι] [DecidableEq κ]

theorem Settles.step {code : ThreadCode κ σ γ χ τ} {s s' : Threads ι κ σ γ τ}
    {c : Serial ι κ σ γ τ} {a : ThreadAction ι χ} (hex : s.Exclusive) (h : s.Settles c)
    (hstep : s.step code a = some s') :
    ∃ bs c', a.Stands bs ∧ GuardedRun.run (Serial.step code) c bs = some c' ∧ s'.Settles c' := by
  cases transition_of_step hstep with
  | @call i u x hphase hnext =>
    refine ⟨[.call i x], _, rfl, ?_, h.move_outside hphase _ s.atomics⟩
    have hplace : c.place i = u := h.outside hphase
    simp only [GuardedRun.run, Serial.step, hplace, hnext, Option.bind_some, h.atomics]
  | @atomic i u f hphase hnext =>
    refine ⟨[.atomic i], _, rfl, ?_, h.move_outside hphase _ _⟩
    have hplace : c.place i = u := h.outside hphase
    simp only [GuardedRun.run, Serial.step, hplace, hnext, Option.bind_some, h.atomics]
  | spin i spurious => exact ⟨[], c, Or.inl rfl, rfl, h⟩
  | @acquire i u k body hphase hnext hfree =>
    refine ⟨[.critical i], _, Or.inr rfl, ?_, h.acquire hex hfree body⟩
    have hplace : c.place i = u := h.outside hphase
    simp only [GuardedRun.run, Serial.step, hplace, hnext, Option.bind_some]
  | @access i k f rest hphase =>
    have hguard : (s.phase i).guard = some k := by rw [hphase, Phase.guard]
    refine ⟨[], c, rfl, rfl, h.move_inside hex hguard ?_ ?_ ?_⟩
    · intro hfree
      exact absurd hguard (hex.not_guard hfree i)
    · intro t ht
      cases ht
    · intro k' rest' hp
      cases hp
      rw [setMutex_self]
      exact h.inside hphase
  | @unlock i k t hphase =>
    have hguard : (s.phase i).guard = some k := by rw [hphase, Phase.guard]
    have hend : (t, (s.mutex k).data) = (c.place i, c.data k) := h.inside hphase
    obtain ⟨hplace, hdata⟩ := Prod.mk.inj hend
    refine ⟨[], c, rfl, rfl, h.move_inside hex hguard ?_ ?_ ?_⟩
    · intro _
      exact hdata
    · intro t' ht
      cases ht
      exact hplace.symm
    · intro k' rest' hp
      cases hp

section Progress

variable {code : ThreadCode κ σ γ χ τ} {s s' : Threads ι κ σ γ τ} {i : ι}

theorem Exclusive.run {as : List (ThreadAction ι χ)} (h : s.Exclusive)
    (hrun : GuardedRun.run (Threads.step code) s as = some s') : s'.Exclusive := by
  induction as generalizing s with
  | nil =>
    cases Option.some.inj hrun
    exact h
  | cons a as ih =>
    obtain ⟨s₁, hs₁, hrun₁⟩ := Option.bind_eq_some_iff.mp hrun
    exact ih (h.step hs₁) hrun₁

/-- A thread inside a section can go on to its end, and leaves the lock free. -/
theorem leaves (code : ThreadCode κ σ γ χ τ) {k : κ} {rest : Section (σ k) τ}
    (h : s.phase i = .inside k rest) :
    ∃ as s', GuardedRun.run (Threads.step code) s as = some s' ∧
      s'.phase i = .outside (rest.run (s.mutex k).data).1 ∧ (s'.mutex k).locked = false ∧
      ∀ j, j ≠ i → s'.phase j = s.phase j := by
  induction rest generalizing s with
  | ret t =>
    refine ⟨[.unlock i], (s.setMutex k (s.mutex k).dropGuard).move i (.outside t), ?_,
      move_phase_self .., ?_, fun j hj => move_phase_of_ne _ hj _⟩
    · simp only [GuardedRun.run, Threads.step, h, Option.bind_some]
    · rw [move_mutex, setMutex_self, SimpleMutex.dropGuard]
  | access f next ih =>
    obtain ⟨s₁, hs₁⟩ : ∃ s₁, s₁ = (s.setMutex k ((s.mutex k).derefMut f)).move i
        (.inside k (next (s.mutex k).data)) := ⟨_, rfl⟩
    have hphase : s₁.phase i = .inside k (next (s.mutex k).data) := by rw [hs₁, move_phase_self]
    have hdata : (s₁.mutex k).data = f (s.mutex k).data := by
      rw [hs₁, move_mutex, setMutex_self, SimpleMutex.derefMut]
    obtain ⟨as, s', hrun, hend, hfree, hothers⟩ := ih (s.mutex k).data hphase
    refine ⟨.access i :: as, s', ?_, ?_, hfree, fun j hj => ?_⟩
    · simp only [GuardedRun.run, Threads.step, h, ← hs₁, Option.bind_some, hrun]
    · rw [hend, hdata, Section.run]
    · rw [hothers j hj, hs₁, move_phase_of_ne _ hj, setMutex_phase]

/-- A thread that waits for a lock gets it, once its holder has gone on to the end of its section. -/
theorem enters (hex : s.Exclusive) {t : τ} {k : κ} {body : Section (σ k) τ}
    (hphase : s.phase i = .outside t) (hnext : code.next t = .lock k body) :
    ∃ as s', GuardedRun.run (Threads.step code) s as = some s' ∧ s'.phase i = .inside k body := by
  have hfree : ∀ {s : Threads ι κ σ γ τ}, s.phase i = .outside t → (s.mutex k).locked = false →
      ∃ s', s.step code (.attempt i false) = some s' ∧ s'.phase i = .inside k body := by
    intro s hphase hfree
    refine ⟨(s.setMutex k { s.mutex k with locked := true }).move i (.inside k body), ?_,
      move_phase_self ..⟩
    simp only [Threads.step, hphase, hnext, SimpleMutex.compareExchangeWeak, hfree]
    rfl
  cases hlocked : (s.mutex k).locked with
  | false =>
    obtain ⟨s', hs', hinside⟩ := hfree hphase hlocked
    exact ⟨[.attempt i false], s', by rw [GuardedRun.run, hs', Option.bind_some, GuardedRun.run],
      hinside⟩
  | true =>
    obtain ⟨j, hj⟩ := (hex.locked k).mp hlocked
    have hji : i ≠ j := by
      intro hij
      rw [← hij, hphase, Phase.guard] at hj
      cases hj
    cases hinside : s.phase j with
    | outside u =>
      rw [hinside, Phase.guard] at hj
      cases hj
    | inside k' rest =>
      rw [hinside, Phase.guard] at hj
      cases Option.some.inj hj
      obtain ⟨as, s₁, hrun, -, hopen, hothers⟩ := leaves code hinside
      obtain ⟨s', hs', hentered⟩ := hfree ((hothers i hji).trans hphase) hopen
      refine ⟨as ++ [.attempt i false], s', ?_, hentered⟩
      rw [GuardedRun.run_append, hrun, Option.bind_some, GuardedRun.run, hs', Option.bind_some,
        GuardedRun.run]

/-- If every step of the code brings a call nearer to its end, then at any time every call can still
be brought to its end, whatever the other threads are at. -/
theorem comes_to_rest (rank : τ → Nat)
    (hatomic : ∀ {t f}, code.next t = .atomic f → ∀ g, rank (f g).1 < rank t)
    (hlock : ∀ {t k body}, code.next t = .lock k body → ∀ d, rank (body.run d).1 < rank t)
    (hex : s.Exclusive) (i : ι) :
    ∃ as s' t, GuardedRun.run (Threads.step code) s as = some s' ∧ s'.phase i = .outside t ∧
      code.next t = .finished := by
  have houtside : ∀ n (s : Threads ι κ σ γ τ) t, rank t ≤ n → s.Exclusive → s.phase i = .outside t →
      ∃ as s' t', GuardedRun.run (Threads.step code) s as = some s' ∧ s'.phase i = .outside t' ∧
        code.next t' = .finished := by
    intro n
    induction n with
    | zero =>
      intro s t hn _ hphase
      refine ⟨[], s, t, rfl, hphase, ?_⟩
      cases hnext : code.next t with
      | finished => rfl
      | atomic f => exact absurd (hatomic hnext s.atomics) (by omega)
      | lock k body => exact absurd (hlock hnext (s.mutex k).data) (by omega)
    | succ n ih =>
      intro s t hn hex hphase
      cases hnext : code.next t with
      | finished => exact ⟨[], s, t, rfl, hphase, hnext⟩
      | atomic f =>
        have hrank := hatomic hnext s.atomics
        have hstep : s.step code (.atomic i) =
            some { s.move i (.outside (f s.atomics).1) with atomics := (f s.atomics).2 } := by
          simp only [Threads.step, hphase, hnext]
        obtain ⟨as, s', t', hrun, hrest⟩ := ih _ (f s.atomics).1 (by omega) (hex.step hstep)
          (move_phase_self ..)
        exact ⟨.atomic i :: as, s', t', by rw [GuardedRun.run, hstep, Option.bind_some, hrun], hrest⟩
      | lock k body =>
        obtain ⟨as, s₁, hrun₁, hinside⟩ := enters hex hphase hnext
        obtain ⟨bs, s₂, hrun₂, hout, -, -⟩ := leaves code hinside
        have hrank := hlock hnext (s₁.mutex k).data
        obtain ⟨cs, s', t', hrun, hrest⟩ := ih s₂ _ (by omega) ((hex.run hrun₁).run hrun₂) hout
        refine ⟨as ++ (bs ++ cs), s', t', ?_, hrest⟩
        rw [GuardedRun.run_append, hrun₁, Option.bind_some, GuardedRun.run_append, hrun₂,
          Option.bind_some, hrun]
  cases hphase : s.phase i with
  | outside t => exact houtside (rank t) s t (Nat.le_refl _) hex hphase
  | inside k rest =>
    obtain ⟨as, s₁, hrun₁, hout, -, -⟩ := leaves code hphase
    obtain ⟨bs, s', t, hrun, hrest⟩ := houtside _ s₁ _ (Nat.le_refl _) (hex.run hrun₁) hout
    refine ⟨as ++ bs, s', t, ?_, hrest⟩
    rw [GuardedRun.run_append, hrun₁, Option.bind_some, hrun]

end Progress

end Threads

end Rko
