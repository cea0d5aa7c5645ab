import Rko.GuardedRun
import Rko.LinkRing

namespace Rko

open GuardedRun LinkRing Function

/-- The links of a node, at an address of type `A`; `none` is the null pointer. -/
structure Links (A : Type) where
  next : Option A
  prev : Option A
deriving DecidableEq, Repr

def Links.new {A : Type} : Links A := ⟨none, none⟩

def Links.isLinked {A : Type} (links : Links A) : Bool := links.next.isSome

abbrev LinkHeap (A : Type) := A → Links A

/-- The links of an entry lie in the entry. -/
structure Adapter (E A : Type) where
  entryToLinks : E → A
  linksToEntry : A → E
  inverse : ∀ e, linksToEntry (entryToLinks e) = e

section

variable {E A : Type} [DecidableEq A]

namespace LinkHeap

variable (h : LinkHeap A)

def setNext (a : A) (p : Option A) : LinkHeap A := update h a { h a with next := p }

def setPrev (a : A) (p : Option A) : LinkHeap A := update h a { h a with prev := p }

def nexts : A → Option A := fun a => (h a).next

def prevs : A → Option A := fun a => (h a).prev

variable (a : A) (p : Option A)

@[simp] theorem nexts_setNext : nexts (h.setNext a p) = update h.nexts a p := by
  funext b
  by_cases hb : b = a
  · subst hb
    simp [nexts, setNext]
  · simp [nexts, setNext, hb]

@[simp] theorem nexts_setPrev : nexts (h.setPrev a p) = h.nexts := by
  funext b
  by_cases hb : b = a
  · subst hb
    simp [nexts, setPrev]
  · simp [nexts, setPrev, hb]

@[simp] theorem prevs_setPrev : prevs (h.setPrev a p) = update h.prevs a p := by
  funext b
  by_cases hb : b = a
  · subst hb
    simp [prevs, setPrev]
  · simp [prevs, setPrev, hb]

@[simp] theorem prevs_setNext : prevs (h.setNext a p) = h.prevs := by
  funext b
  by_cases hb : b = a
  · subst hb
    simp [prevs, setNext]
  · simp [prevs, setNext, hb]

theorem setNext_of_ne {b : A} (hb : b ≠ a) : h.setNext a p b = h b := update_of_ne hb _ _

theorem setPrev_of_ne {b : A} (hb : b ≠ a) : h.setPrev a p b = h b := update_of_ne hb _ _

end LinkHeap

/-- Code that reads and writes links; it has no meaning once it goes through a null pointer. -/
abbrev LinkM (A : Type) := StateT (LinkHeap A) Option

def readNext (a : A) : LinkM A (Option A) := do return ((← get) a).next

def readPrev (a : A) : LinkM A (Option A) := do return ((← get) a).prev

def writeNext (a : A) (p : Option A) : LinkM A Unit := modify fun h => h.setNext a p

def writePrev (a : A) (p : Option A) : LinkM A Unit := modify fun h => h.setPrev a p

def deref (p : Option A) : LinkM A A := StateT.lift p

namespace IntrusiveList

variable (adapter : Adapter E A) (head : A)

def isEmpty : LinkM A Bool := do return (← readNext head) = some head

def pushBack (entry : E) : LinkM A Unit := do
  let links := adapter.entryToLinks entry
  let tail ← readPrev head
  writePrev links tail
  writeNext links (some head)
  writeNext (← deref tail) (some links)
  writePrev head (some links)

def popFront : LinkM A (Option E) := do
  if ← isEmpty head then return none
  let first ← deref (← readNext head)
  let second ← readNext first
  writeNext head second
  writePrev (← deref second) (some head)
  writeNext first none
  writePrev first none
  return some (adapter.linksToEntry first)

def front : LinkM A (Option E) := do
  if ← isEmpty head then return none
  let first ← deref (← readNext head)
  return some (adapter.linksToEntry first)

def remove (entry : E) : LinkM A Unit := do
  let links := adapter.entryToLinks entry
  let prev ← readPrev links
  let next ← readNext links
  writeNext (← deref prev) next
  writePrev (← deref next) prev
  writeNext links none
  writePrev links none

end IntrusiveList

namespace LinkHeap

variable (h : LinkHeap A)

/-- `x` is linked in between `p` and `n`. -/
def link (p x n : A) : LinkHeap A :=
  (((h.setPrev x (some p)).setNext x (some n)).setNext p (some x)).setPrev n (some x)

/-- `x` is taken out from between `p` and `n`. -/
def unlink (p x n : A) : LinkHeap A :=
  (((h.setNext p (some n)).setPrev n (some p)).setNext x none).setPrev x none

variable {p x n a : A}

theorem link_of_ne (hp : a ≠ p) (hx : a ≠ x) (hn : a ≠ n) : h.link p x n a = h a := by
  rw [link, setPrev_of_ne _ _ _ hn, setNext_of_ne _ _ _ hp, setNext_of_ne _ _ _ hx,
    setPrev_of_ne _ _ _ hx]

theorem unlink_of_ne (hp : a ≠ p) (hx : a ≠ x) (hn : a ≠ n) : h.unlink p x n a = h a := by
  rw [unlink, setPrev_of_ne _ _ _ hx, setNext_of_ne _ _ _ hx, setPrev_of_ne _ _ _ hn,
    setNext_of_ne _ _ _ hp]

theorem link_self (hp : p ≠ x) (hn : n ≠ x) : h.link p x n x = ⟨some n, some p⟩ := by
  rw [link, setPrev_of_ne _ _ _ hn.symm, setNext_of_ne _ _ _ hp.symm]
  simp [setPrev, setNext]

theorem unlink_self : h.unlink p x n x = Links.new := by
  simp [unlink, setPrev, setNext, Links.new]

theorem nexts_link : (h.link p x n).nexts = update (update h.nexts x (some n)) p (some x) := by
  simp [link]

theorem prevs_link : (h.link p x n).prevs = update (update h.prevs x (some p)) n (some x) := by
  simp [link]

theorem nexts_unlink : (h.unlink p x n).nexts = update (update h.nexts p (some n)) x none := by
  simp [unlink]

theorem prevs_unlink : (h.unlink p x n).prevs = update (update h.prevs n (some p)) x none := by
  simp [unlink]

end LinkHeap

section Runs

variable {adapter : Adapter E A} {head p n : A} {h : LinkHeap A} {e : E}

theorem pushBack_run (hprev : h.prevs head = some p) :
    (IntrusiveList.pushBack adapter head e).run h =
      some ((), h.link p (adapter.entryToLinks e) head) := by
  have hp : (h head).prev = some p := hprev
  simp [IntrusiveList.pushBack, readPrev, writePrev, writeNext, deref, hp, LinkHeap.link]

theorem remove_run (hprev : h.prevs (adapter.entryToLinks e) = some p)
    (hnext : h.nexts (adapter.entryToLinks e) = some n) :
    (IntrusiveList.remove adapter e).run h = some ((), h.unlink p (adapter.entryToLinks e) n) := by
  have hp : (h (adapter.entryToLinks e)).prev = some p := hprev
  have hn : (h (adapter.entryToLinks e)).next = some n := hnext
  simp [IntrusiveList.remove, readPrev, readNext, writePrev, writeNext, deref, hp, hn,
    LinkHeap.unlink]

theorem popFront_run_empty (hnext : h.nexts head = some head) :
    (IntrusiveList.popFront adapter head).run h = some (none, h) := by
  have hn : (h head).next = some head := hnext
  simp [IntrusiveList.popFront, IntrusiveList.isEmpty, readNext, hn]

theorem popFront_run (hfirst : h.nexts head = some (adapter.entryToLinks e))
    (hne : adapter.entryToLinks e ≠ head) (hnext : h.nexts (adapter.entryToLinks e) = some n) :
    (IntrusiveList.popFront adapter head).run h =
      some (some e, h.unlink head (adapter.entryToLinks e) n) := by
  have hf : (h head).next = some (adapter.entryToLinks e) := hfirst
  have hn : (h (adapter.entryToLinks e)).next = some n := hnext
  simp [IntrusiveList.popFront, IntrusiveList.isEmpty, readNext, writePrev, writeNext, deref, hf, hn,
    hne, LinkHeap.unlink, adapter.inverse]

theorem front_run_empty (hnext : h.nexts head = some head) :
    (IntrusiveList.front adapter head).run h = some (none, h) := by
  have hn : (h head).next = some head := hnext
  simp [IntrusiveList.front, IntrusiveList.isEmpty, readNext, hn]

theorem front_run (hfirst : h.nexts head = some (adapter.entryToLinks e))
    (hne : adapter.entryToLinks e ≠ head) :
    (IntrusiveList.front adapter head).run h = some (some e, h) := by
  have hf : (h head).next = some (adapter.entryToLinks e) := hfirst
  simp [IntrusiveList.front, IntrusiveList.isEmpty, readNext, deref, hf, hne, adapter.inverse]

end Runs

/-- The links of the heap are those of the sequence: a ring through the head, and null links
outside. -/
structure LinkedAs (adapter : Adapter E A) (head : A) (h : LinkHeap A) (es : List E) : Prop where
  ring : Ring h.nexts h.prevs head (es.map adapter.entryToLinks)
  outside : ∀ e ∉ es, h (adapter.entryToLinks e) = Links.new

inductive ListOp (E : Type)
  | pushBack (entry : E)
  | popFront
  | remove (entry : E)
deriving DecidableEq, Repr

namespace ListOp

def exec (adapter : Adapter E A) (head : A) : ListOp E → LinkM A (Option E)
  | pushBack entry => do
    IntrusiveList.pushBack adapter head entry
    return none
  | popFront => IntrusiveList.popFront adapter head
  | remove entry => do
    IntrusiveList.remove adapter entry
    return none

/-- The operation on a sequence, where the entry must not be in it to be pushed, and must be in it
to be removed. -/
def onSequence [DecidableEq E] : ListOp E → List E → Option (Option E × List E)
  | pushBack entry, es => if entry ∈ es then none else some (none, es ++ [entry])
  | popFront, es => some (es.head?, es.tail)
  | remove entry, es => if entry ∈ es then some (none, es.erase entry) else none

/-- The entry that is linked or unlinked. -/
def subject : ListOp E → List E → Option E
  | pushBack entry, _ => some entry
  | popFront, es => es.head?
  | remove entry, _ => some entry

/-- The one of the heaps before and after the operation in which its subject is linked. -/
def linkedIn : ListOp E → LinkHeap A → LinkHeap A → LinkHeap A
  | pushBack _, _, h' => h'
  | popFront, h, _ => h
  | remove _, h, _ => h

/-- The node is neither the subject of the operation nor one of its two neighbours. -/
def Apart (adapter : Adapter E A) (op : ListOp E) (es : List E) (h h' : LinkHeap A) (a : A) : Prop :=
  ∀ e ∈ op.subject es, a ≠ adapter.entryToLinks e ∧
    (op.linkedIn h h' (adapter.entryToLinks e)).next ≠ some a ∧
    (op.linkedIn h h' (adapter.entryToLinks e)).prev ≠ some a

/-- The results so far and the heap. -/
def step (adapter : Adapter E A) (head : A) (s : List (Option E) × LinkHeap A) (op : ListOp E) :
    Option (List (Option E) × LinkHeap A) :=
  ((op.exec adapter head).run s.2).map fun r => (s.1 ++ [r.1], r.2)

/-- The results so far and the sequence. -/
def sequenceStep [DecidableEq E] (s : List (Option E) × List E) (op : ListOp E) :
    Option (List (Option E) × List E) :=
  (op.onSequence s.2).map fun r => (s.1 ++ [r.1], r.2)

end ListOp

namespace LinkedAs

variable {adapter : Adapter E A} {head : A} {h : LinkHeap A} {es : List E} {e : E}

omit [DecidableEq A] in
theorem entryToLinks_injective (adapter : Adapter E A) : Injective adapter.entryToLinks :=
  LeftInverse.injective adapter.inverse

omit [DecidableEq A] in
theorem links_notMem (hhead : ∀ e, adapter.entryToLinks e ≠ head) (he : e ∉ es) :
    adapter.entryToLinks e ∉ head :: es.map adapter.entryToLinks := by
  intro hmem
  rcases List.mem_cons.mp hmem with heq | hmem
  · exact hhead e heq
  · exact he ((List.mem_map_of_injective (entryToLinks_injective adapter)).mp hmem)

/-- What the operation does in the heap: the result is that of the sequence, the new heap represents
the new sequence, and other nodes keep their links. -/
def Follows (adapter : Adapter E A) (head : A) (op : ListOp E) (h : LinkHeap A) (es : List E)
    (out : Option E) (es' : List E) : Prop :=
  ∃ h', (op.exec adapter head).run h = some (out, h') ∧ LinkedAs adapter head h' es' ∧
    ∀ a, op.Apart adapter es h h' a → h' a = h a

theorem pushBack (hr : LinkedAs adapter head h es) (hhead : ∀ e, adapter.entryToLinks e ≠ head)
    (he : e ∉ es) : Follows adapter head (.pushBack e) h es none (es ++ [e]) := by
  have hx := links_notMem hhead he
  obtain ⟨p, hprev, hp, hring⟩ := hr.ring.insert_last hx
  have hpx : p ≠ adapter.entryToLinks e := fun heq => hx (heq ▸ hp)
  refine ⟨h.link p (adapter.entryToLinks e) head, ?_, ⟨?_, fun e' he' => ?_⟩, fun a ha => ?_⟩
  · simp [ListOp.exec, pushBack_run hprev]
  · rw [h.nexts_link, h.prevs_link, List.map_append]
    exact hring
  · rw [List.mem_append, List.mem_singleton, not_or] at he'
    have hnew : adapter.entryToLinks e' ≠ p := by
      rintro rfl
      exact links_notMem hhead he'.1 hp
    have hother : adapter.entryToLinks e' ≠ adapter.entryToLinks e := fun heq =>
      he'.2 (entryToLinks_injective adapter heq)
    rw [h.link_of_ne hnew hother (hhead e')]
    exact hr.outside e' he'.1
  · obtain ⟨hax, hnext, hprev⟩ := ha e rfl
    simp only [ListOp.linkedIn, h.link_self hpx (hhead e).symm] at hnext hprev
    exact h.link_of_ne (fun heq => hprev (heq ▸ rfl)) hax fun heq => hnext (heq ▸ rfl)

/-- What `remove` and `pop_front` have in common. -/
theorem unlink (hr : LinkedAs adapter head h es) (hhead : ∀ e, adapter.entryToLinks e ≠ head)
    [DecidableEq E] (he : e ∈ es) :
    ∃ p n, h.prevs (adapter.entryToLinks e) = some p ∧ h.nexts (adapter.entryToLinks e) = some n ∧
      LinkedAs adapter head (h.unlink p (adapter.entryToLinks e) n) (es.erase e) ∧
      ∀ a, a ≠ adapter.entryToLinks e → (h (adapter.entryToLinks e)).next ≠ some a →
        (h (adapter.entryToLinks e)).prev ≠ some a →
        h.unlink p (adapter.entryToLinks e) n a = h a := by
  obtain ⟨p, n, hprev, hnext, hp, hn, hring⟩ := hr.ring.remove (List.mem_map_of_mem he)
  have hprev' : (h (adapter.entryToLinks e)).prev = some p := hprev
  have hnext' : (h (adapter.entryToLinks e)).next = some n := hnext
  refine ⟨p, n, hprev, hnext, ⟨?_, fun e' he' => ?_⟩, fun a hax hane hape => ?_⟩
  · rw [h.nexts_unlink, h.prevs_unlink, List.map_erase (entryToLinks_injective adapter)]
    exact hring
  · by_cases heq : e' = e
    · rw [heq]
      exact h.unlink_self
    · have hes : e' ∉ es := fun hmem => he' ((List.mem_erase_of_ne heq).mpr hmem)
      have hnotMem := links_notMem hhead hes
      have hother : adapter.entryToLinks e' ≠ adapter.entryToLinks e := fun hlinks =>
        heq (entryToLinks_injective adapter hlinks)
      have hnep : adapter.entryToLinks e' ≠ p := by
        rintro rfl
        exact hnotMem hp
      have hnen : adapter.entryToLinks e' ≠ n := by
        rintro rfl
        exact hnotMem hn
      rw [h.unlink_of_ne hnep hother hnen]
      exact hr.outside e' hes
  · have hap : a ≠ p := fun heq => hape (heq ▸ hprev')
    have han : a ≠ n := fun heq => hane (heq ▸ hnext')
    exact h.unlink_of_ne hap hax han

theorem remove [DecidableEq E] (hr : LinkedAs adapter head h es)
    (hhead : ∀ e, adapter.entryToLinks e ≠ head) (he : e ∈ es) :
    Follows adapter head (.remove e) h es none (es.erase e) := by
  obtain ⟨p, n, hprev, hnext, hr', hframe⟩ := hr.unlink hhead he
  refine ⟨_, ?_, hr', fun a ha => ?_⟩
  · simp [ListOp.exec, remove_run hprev hnext]
  · obtain ⟨hax, hane, hape⟩ := ha e rfl
    exact hframe a hax hane hape

theorem popFront [DecidableEq E] (hr : LinkedAs adapter head h es)
    (hhead : ∀ e, adapter.entryToLinks e ≠ head) :
    Follows adapter head .popFront h es es.head? es.tail := by
  cases es with
  | nil => exact ⟨h, popFront_run_empty hr.ring.next_head, hr, fun a _ => rfl⟩
  | cons e es =>
    obtain ⟨hfirst, hprev, hne⟩ := hr.ring.first
    obtain ⟨p, n, hprev', hnext, hr', hframe⟩ := hr.unlink hhead List.mem_cons_self
    obtain rfl : p = head := Option.some.inj (hprev'.symm.trans hprev)
    rw [List.erase_cons_head] at hr'
    refine ⟨_, popFront_run hfirst hne hnext, hr', fun a ha => ?_⟩
    obtain ⟨hax, hane, hape⟩ := ha e rfl
    exact hframe a hax hane hape

theorem front (hr : LinkedAs adapter head h es) :
    (IntrusiveList.front adapter head).run h = some (es.head?, h) := by
  cases es with
  | nil => exact front_run_empty hr.ring.next_head
  | cons e es =>
    obtain ⟨hfirst, -, hne⟩ := hr.ring.first
    exact front_run hfirst hne

/-- `is_linked` tells whether an entry is in the list. -/
theorem isLinked_iff (hr : LinkedAs adapter head h es) (e : E) :
    (h (adapter.entryToLinks e)).isLinked = true ↔ e ∈ es := by
  constructor
  · intro hlinked
    by_contra he
    rw [hr.outside e he] at hlinked
    cases hlinked
  · intro he
    obtain ⟨p, n, -, hnext, -⟩ := hr.ring.remove (List.mem_map_of_mem he)
    have hn : (h (adapter.entryToLinks e)).next = some n := hnext
    rw [Links.isLinked, hn, Option.isSome_some]

theorem op [DecidableEq E] (hr : LinkedAs adapter head h es)
    (hhead : ∀ e, adapter.entryToLinks e ≠ head) {op : ListOp E} {out : Option E} {es' : List E}
    (hop : op.onSequence es = some (out, es')) : Follows adapter head op h es out es' := by
  cases op with
  | pushBack entry =>
    obtain ⟨he, heq⟩ := Option.ite_none_left_eq_some.mp hop
    cases heq
    exact hr.pushBack hhead he
  | popFront =>
    cases hop
    exact hr.popFront hhead
  | remove entry =>
    obtain ⟨he, heq⟩ := Option.ite_none_right_eq_some.mp hop
    cases heq
    exact hr.remove hhead he

end LinkedAs

/-- The results are the same, and the heap represents the sequence. -/
structure SameRun (adapter : Adapter E A) (head : A) (s : List (Option E) × List E)
    (t : List (Option E) × LinkHeap A) : Prop where
  results : t.1 = s.1
  represents : LinkedAs adapter head t.2 s.2

theorem SameRun.step [DecidableEq E] {adapter : Adapter E A} {head : A}
    (hhead : ∀ e, adapter.entryToLinks e ≠ head) {s s' : List (Option E) × List E}
    {t : List (Option E) × LinkHeap A} {op : ListOp E} (h : SameRun adapter head s t)
    (hstep : ListOp.sequenceStep s op = some s') :
    ∃ t', ListOp.step adapter head t op = some t' ∧ SameRun adapter head s' t' := by
  obtain ⟨⟨out, es'⟩, hop, rfl⟩ := Option.map_eq_some_iff.mp hstep
  obtain ⟨h', hexec, hr', -⟩ := h.represents.op hhead hop
  refine ⟨(t.1 ++ [out], h'), ?_, ?_, hr'⟩
  · rw [ListOp.step, hexec, Option.map_some]
  · rw [h.results]

/-- The list does to the heap what the operations do to a sequence: it never follows a null pointer,
gives the same results, and its links are those of the sequence, read in both directions; and each
operation leaves alone the links of all nodes but its entry and the two next to it. -/
theorem list_refines_sequence [DecidableEq E] (adapter : Adapter E A) {head : A}
    (hhead : ∀ e, adapter.entryToLinks e ≠ head) {h₀ : LinkHeap A}
    (hself : h₀ head = ⟨some head, some head⟩)
    (hnull : ∀ e, h₀ (adapter.entryToLinks e) = Links.new) {ops : List (ListOp E)}
    {outs : List (Option E)} {es : List E}
    (hops : run ListOp.sequenceStep ([], []) ops = some (outs, es)) :
    ∃ h, run (ListOp.step adapter head) ([], h₀) ops = some (outs, h) ∧
      Ring h.nexts h.prevs head (es.map adapter.entryToLinks) ∧
      walk h.nexts (es.length + 1) head = es.map adapter.entryToLinks ++ [head] ∧
      walk h.prevs (es.length + 1) head = (es.map adapter.entryToLinks).reverse ++ [head] ∧
      (∀ e ∉ es, h (adapter.entryToLinks e) = Links.new) ∧
      ∀ op out es', ListOp.onSequence op es = some (out, es') →
        ∃ h', (op.exec adapter head).run h = some (out, h') ∧
          ∀ a, op.Apart adapter es h h' a → h' a = h a := by
  have hstart : LinkedAs adapter head h₀ [] :=
    ⟨Ring.empty (by rw [LinkHeap.nexts, hself]) (by rw [LinkHeap.prevs, hself]),
      fun e _ => hnull e⟩
  obtain ⟨⟨outs', h⟩, hrun, houts, hr⟩ :
      ∃ t, run (ListOp.step adapter head) ([], h₀) ops = some t ∧
        SameRun adapter head (outs, es) t :=
    run_simulates (SameRun.step hhead) ⟨rfl, hstart⟩ hops
  cases houts
  have hforward := hr.ring.walk_forward
  have hbackward := hr.ring.walk_backward
  rw [List.length_map] at hforward hbackward
  refine ⟨h, hrun, hr.ring, hforward, hbackward, hr.outside, fun op out es' hop => ?_⟩
  obtain ⟨h', hexec, -, hframe⟩ := hr.op hhead hop
  exact ⟨h', hexec, hframe⟩

end

/-- Entries that are numbers, with their links at the same number and the head beside them. -/
def numberAdapter : Adapter Nat (Option Nat) := ⟨some, fun a => a.getD 0, fun _ => rfl⟩

def emptyHeap : LinkHeap (Option Nat)
  | none => ⟨some none, some none⟩
  | some _ => Links.new

theorem list_refines_sequence_of_six :
    ∃ h, run (ListOp.step numberAdapter none) ([], emptyHeap)
        [.pushBack 1, .pushBack 2, .pushBack 3, .remove 2, .popFront, .pushBack 2] =
          some ([none, none, none, none, some 1, none], h) ∧
      walk h.nexts 3 none = [some 3, some 2, none] ∧ walk h.prevs 3 none = [some 2, some 3, none] := by
  have hhead : ∀ e, numberAdapter.entryToLinks e ≠ none := fun e => Option.some_ne_none e
  have hself : emptyHeap none = ⟨some none, some none⟩ := rfl
  have hops : run ListOp.sequenceStep ([], [])
      [.pushBack 1, .pushBack 2, .pushBack 3, .remove 2, .popFront, .pushBack 2] =
        some ([none, none, none, none, some 1, none], [3, 2]) := by decide
  obtain ⟨h, hrun, -, hforward, hbackward, -⟩ :=
    list_refines_sequence numberAdapter hhead hself (fun _ => rfl) hops
  exact ⟨h, hrun, hforward, hbackward⟩

end Rko
