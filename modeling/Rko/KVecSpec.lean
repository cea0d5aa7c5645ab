import Rko.KVec

namespace Rko

open CallProgram SlotBuffer

variable {T α β : Type}

/-- What the calls of a vector come to: the bytes the allocator was asked for and whether it gave
them, the elements that were made (and of what they are clones), and the elements dropped. -/
@[ext]
structure Account (T : Type) where
  reallocs : List (Nat × Bool)
  created : List (Option T × T)
  dropped : List T

namespace Account

instance : Append (Account T) :=
  ⟨fun a b => ⟨a.reallocs ++ b.reallocs, a.created ++ b.created, a.dropped ++ b.dropped⟩⟩

@[simp] theorem mk_append (log log' : List (Nat × Bool)) (made made' : List (Option T × T))
    (gone gone' : List T) :
    (⟨log, made, gone⟩ ++ ⟨log', made', gone'⟩ : Account T) =
      ⟨log ++ log', made ++ made', gone ++ gone'⟩ := rfl

theorem append_assoc (a b c : Account T) : a ++ b ++ c = a ++ (b ++ c) :=
  Account.ext (List.append_assoc _ _ _) (List.append_assoc _ _ _) (List.append_assoc _ _ _)

@[simp] theorem append_nil (a : Account T) : a ++ ⟨[], [], []⟩ = a :=
  Account.ext (List.append_nil _) (List.append_nil _) (List.append_nil _)

@[simp] theorem nil_append (a : Account T) : (⟨[], [], []⟩ ++ a : Account T) = a := rfl

end Account

def entry : KVecEvent T → Account T
  | ⟨.realloc _ layout _, granted⟩ => ⟨[(layout.size, granted)], [], []⟩
  | ⟨.free _, _⟩ => ⟨[], [], []⟩
  | ⟨.clone item, val⟩ => ⟨[], [(some item, val)], []⟩
  | ⟨.make, val⟩ => ⟨[], [(none, val)], []⟩
  | ⟨.drop item, _⟩ => ⟨[], [], [item]⟩

def account : List (KVecEvent T) → Account T
  | [] => ⟨[], [], []⟩
  | ev :: evs => entry ev ++ account evs

theorem account_append (evs evs' : List (KVecEvent T)) :
    account (evs ++ evs') = account evs ++ account evs' := by
  induction evs with
  | nil => rfl
  | cons ev evs ih => rw [List.cons_append, account, ih, account, Account.append_assoc]

/-- Whatever the answers, the program returns, and its result and account satisfy `Q`. -/
def Accounts (p : KVecProgram T α) (Q : α → Account T → Prop) : Prop :=
  p.Emits fun a evs => Q a (account evs)

namespace Accounts

variable {p : KVecProgram T α} {Q Q' : α → Account T → Prop} {R : β → Account T → Prop}

theorem done {a : α} (h : Q a ⟨[], [], []⟩) : Accounts (Program.done a : KVecProgram T α) Q := h

theorem done_after {a : α} {acc : Account T} (h : Q a acc) :
    Accounts (Program.done a : KVecProgram T α) fun b acc' => Q b (acc ++ acc') := by
  apply done
  rw [Account.append_nil]
  exact h

theorem call {op : KVecCall T} {k : op.Resp → KVecProgram T α}
    (h : ∀ r, Accounts (k r) fun a acc => Q a (entry ⟨op, r⟩ ++ acc)) :
    Accounts (Program.call op k) Q := h

theorem mono (hp : Accounts p Q) (h : ∀ a acc, Q a acc → Q' a acc) : Accounts p Q' :=
  Program.Emits.mono hp fun a evs => h a (account evs)

theorem bind {f : α → KVecProgram T β} (hp : Accounts p Q)
    (hf : ∀ a acc, Q a acc → Accounts (f a) fun b acc' => R b (acc ++ acc')) :
    Accounts (p.bind f) R := by
  apply Program.Emits.bind hp
  intro a evs hq
  apply Program.Emits.mono (hf a (account evs) hq)
  intro b evs' hr
  rw [account_append]
  exact hr

theorem run (hp : Accounts p Q) (env : KVecEnvironment T) (h : List (KVecEvent T)) :
    ∃ a evs, p.run env h = (.done a, h ++ evs) ∧ Q a (account evs) := Program.Emits.run hp env h

theorem loop {σ ρ : Type} {round : σ → KVecProgram T (σ ⊕ ρ)} {I : σ → Account T → Prop}
    {R : ρ → Account T → Prop} {m : σ → Nat}
    (hround : ∀ s acc, I s acc → Accounts (round s) fun x acc' =>
      Sum.elim (fun s' => I s' (acc ++ acc') ∧ m s' < m s) (fun r => R r (acc ++ acc')) x)
    {n : Nat} {s : σ} (hs : I s ⟨[], [], []⟩) (hn : m s < n) :
    Accounts (Program.loop round n s) R := by
  have hstart : (fun s evs => I s (account evs)) s ([] : List (KVecEvent T)) := hs
  apply Program.loop_emits (I := fun s evs => I s (account evs))
    (R := fun r evs => R r (account evs)) (m := m) _ hstart hn
  intro s evs hi
  apply Program.Emits.mono (hround s (account evs) hi)
  intro x evs' hx
  cases x with
  | inl s' =>
    refine ⟨?_, hx.2⟩
    show I s' (account (evs ++ evs'))
    rw [account_append]
    exact hx.1
  | inr r =>
    show R r (account (evs ++ evs'))
    rw [account_append]
    exact hx

end Accounts

section Layouts

variable {elem : ElementLayout} {n a b : Nat}

theorem checkedAdd_of_lt (h : a + b < 2 ^ 64) : checkedAdd a b = .ok (a + b) := if_pos h

theorem checkedAdd_of_ge (h : 2 ^ 64 ≤ a + b) : checkedAdd a b = .error .allocError :=
  if_neg (Nat.not_lt.mpr h)

theorem checkedMul_of_lt (h : a * b < 2 ^ 64) : checkedMul a b = .ok (a * b) := if_pos h

theorem checkedMul_of_ge (h : 2 ^ 64 ≤ a * b) : checkedMul a b = .error .allocError :=
  if_neg (Nat.not_lt.mpr h)

/-- `n` elements are few enough for a `usize` and for `isize::MAX` bytes. -/
def ElementLayout.Fits (elem : ElementLayout) (n : Nat) : Prop :=
  n < 2 ^ 64 ∧ elem.size * n < 2 ^ 63

theorem arrayLayout_of_lt (h : elem.size * n < 2 ^ 63) :
    ∃ layout, arrayLayout elem n = .ok layout ∧ layout.size = elem.size * n := by
  obtain ⟨k, hk, halign⟩ := elem.align_pow
  have hmul : checkedMul elem.size n = .ok (elem.size * n) := checkedMul_of_lt (by omega)
  have hsize : elem.align ∣ elem.size * n := Dvd.dvd.mul_right elem.align_dvd n
  have hmax : elem.align ∣ 2 ^ 63 := by
    rw [halign]
    exact pow_dvd_pow 2 (by omega)
  -- both ends are multiples of the alignment, so there is room for one more
  have hgap : elem.align ≤ 2 ^ 63 - elem.size * n :=
    Nat.le_of_dvd (by omega) (Nat.dvd_sub hmax hsize)
  have hfits : elem.size * n ≤ 2 ^ 63 - elem.align := by omega
  refine ⟨⟨elem.size * n, elem.align, hfits⟩, ?_, rfl⟩
  rw [arrayLayout, hmul]
  exact dif_pos hfits

theorem arrayLayout_of_ge (h : 2 ^ 63 ≤ elem.size * n) :
    arrayLayout elem n = .error .allocError := by
  obtain ⟨k, -, halign⟩ := elem.align_pow
  have hpos : 0 < elem.align := by
    rw [halign]
    exact Nat.two_pow_pos k
  rcases Nat.lt_or_ge (elem.size * n) (2 ^ 64) with hlt | hge
  · rw [arrayLayout, checkedMul_of_lt hlt]
    exact dif_neg (by omega)
  · rw [arrayLayout, checkedMul_of_ge hge]

theorem slots_of_size {layout : Layout} (h : layout.size = elem.size * n) :
    elem.slots layout n = n := by
  rw [ElementLayout.slots]
  split
  next => rfl
  next hsize => rw [h, Nat.mul_div_cancel_left n (Nat.pos_of_ne_zero hsize)]

end Layouts

/-- The vector holds the elements of `xs`, in memory that has the size of its capacity. -/
structure Stores (elem : ElementLayout) (v : KVec T) (xs : List T) : Prop where
  len : v.len = xs.length
  le_cap : xs.length ≤ v.cap
  holds : Holds v.slots 0 xs
  slots : v.slots.length = v.cap
  fits : elem.Fits v.cap

/-- How the allocator is asked for a capacity, if one is needed, and whether the room is there. -/
inductive Room (elem : ElementLayout) : Option Nat → List (Nat × Bool) → Bool → Prop
  | enough : Room elem none [] true
  | tooLarge {n : Nat} (h : ¬ elem.Fits n) : Room elem (some n) [] false
  | asked {n : Nat} (granted : Bool) (h : elem.Fits n) :
    Room elem (some n) [(elem.size * n, granted)] granted

/-- A call that can fail for want of memory: it fails with the vector as it was and its arguments
dropped, or it makes elements from `asks`, leaves those of `after` in the vector and drops those of
`drops`. -/
inductive Tried (elem : ElementLayout) (v : KVec T) (need : Option Nat) (given : List T)
    (asks : List (Option T)) (after : List T → List T) (drops : List T) :
    Except AllocError Unit × KVec T → Account T → Prop
  | refused {log : List (Nat × Bool)} (room : Room elem need log false) :
    Tried elem v need given asks after drops (.error .allocError, v) ⟨log, [], given⟩
  | served {log : List (Nat × Bool)} {v' : KVec T} {created : List (Option T × T)}
    (room : Room elem need log true) (cap : v'.cap = need.getD v.cap)
    (asked : created.map Prod.fst = asks) (stores : Stores elem v' (after (created.map Prod.snd))) :
    Tried elem v need given asks after drops (.ok (), v') ⟨log, created, drops⟩

namespace KVec

variable {elem : ElementLayout} {v : KVec T} {xs : List T}

theorem stores_new (elem : ElementLayout) : Stores elem (new : KVec T) [] :=
  ⟨rfl, Nat.le_refl 0, Holds.nil _ _, rfl, Nat.two_pow_pos 64, Nat.two_pow_pos 63⟩

theorem asSlice_of_stores (hv : Stores elem v xs) : v.asSlice = some xs := by
  rw [asSlice, hv.len]
  exact hv.holds.slice_eq

theorem read_eq {i : Nat} {x : T} (h : cell v.slots i = some x) :
    v.read i = Program.done (x, { v with slots := v.slots.set i none }) := by
  rw [read, SlotBuffer.read_eq h]
  rfl

/-- Writing behind the last element. -/
theorem write_eq (hv : Stores elem v xs) (hroom : xs.length < v.cap) (x : T) :
    ∃ v', v.write v.len x = Program.done v' ∧ v'.len = v.len ∧ v'.cap = v.cap ∧
      Stores elem { v' with len := v'.len + 1 } (xs ++ [x]) := by
  have hslots : v.len < v.slots.length := by rw [hv.slots, hv.len]; exact hroom
  have hcap : v.len < v.cap := by rw [hv.len]; exact hroom
  refine ⟨{ v with slots := v.slots.set v.len (some x) }, ?_, rfl, rfl, ?_, ?_, ?_, ?_, hv.fits⟩
  · rw [write, Program.require_eq hcap, SlotBuffer.write_eq hslots]
    rfl
  · simp [hv.len]
  · rw [List.length_append, List.length_singleton]
    exact hroom
  · rw [hv.len] at hslots ⊢
    exact hv.holds.write hslots
  · simp [hv.slots]

theorem dropInPlace_accounts {start : Nat} {ys : List T} (h : Holds v.slots start ys) :
    Accounts (dropInPlace start ys.length v) fun v' acc =>
      v'.len = v.len ∧ v'.cap = v.cap ∧ v'.slots.length = v.slots.length ∧
      (∀ zs, zs.length ≤ start → Holds v.slots 0 zs → Holds v'.slots 0 zs) ∧
      acc = ⟨[], [], ys⟩ := by
  induction ys generalizing start v with
  | nil => exact Accounts.done ⟨rfl, rfl, rfl, fun _ _ hz => hz, rfl⟩
  | cons y ys ih =>
    rw [List.length_cons, dropInPlace, read_eq h.head]
    apply Accounts.call
    intro _
    have hrest := h.tail.set (o := none) (i := start) (by omega)
    apply (ih (v := { v with slots := v.slots.set start none }) hrest).mono
    rintro v' acc ⟨hlen, hcap, hslots, hkeep, rfl⟩
    refine ⟨hlen, hcap, hslots.trans List.length_set, fun zs hle hz => ?_, rfl⟩
    exact hkeep zs (by omega) (hz.set (by omega))

theorem truncate_accounts (hv : Stores elem v xs) (n : Nat) :
    Accounts (v.truncate n) fun v' acc =>
      Stores elem v' (xs.take n) ∧ v'.cap = v.cap ∧ acc = ⟨[], [], xs.drop n⟩ := by
  rw [truncate]
  split
  next hge =>
    rw [ge_iff_le, hv.len] at hge
    apply Accounts.done
    rw [List.take_of_length_le hge, List.drop_of_length_le hge]
    exact ⟨hv, rfl, rfl⟩
  next hlt =>
    rw [ge_iff_le, hv.len, Nat.not_le] at hlt
    have htail : Holds v.slots n (xs.drop n) := by
      have hdrop := hv.holds.drop n
      rwa [Nat.zero_add] at hdrop
    have hcount : v.len - n = (xs.drop n).length := by rw [List.length_drop, hv.len]
    simp only [hcount]
    apply (dropInPlace_accounts (v := { v with len := n }) htail).mono
    rintro v' acc ⟨hlen, hcap, hslots, hkeep, rfl⟩
    have htake : (xs.take n).length = n := by rw [List.length_take]; omega
    have hle := hv.le_cap
    refine ⟨⟨hlen.trans htake.symm, ?_, ?_, ?_, ?_⟩, hcap, rfl⟩
    · rw [htake, hcap]
      show n ≤ v.cap
      omega
    · exact hkeep _ (by omega) (hv.holds.take n)
    · rw [hslots, hcap]
      exact hv.slots
    · rw [hcap]
      exact hv.fits

theorem drop_accounts (hv : Stores elem v xs) :
    Accounts (v.drop elem) fun _ acc => acc = ⟨[], [], xs⟩ := by
  apply (truncate_accounts hv 0).bind
  rintro v' acc ⟨-, -, rfl⟩
  split
  next =>
    split
    next layout _ => exact Accounts.call fun _ => Accounts.done (by simp [entry])
    next => exact Accounts.done (by simp)
  next => exact Accounts.done (by simp)

theorem reallocTo_accounts (hv : Stores elem v xs) {n : Nat} (hn : n < 2 ^ 64) (hle : v.cap ≤ n) :
    Accounts (v.reallocTo elem n) (Tried elem v (some n) [] [] (fun _ => xs) []) := by
  obtain ⟨oldLayout, hold, -⟩ := arrayLayout_of_lt hv.fits.2
  rcases Nat.lt_or_ge (elem.size * n) (2 ^ 63) with hlt | hge
  · obtain ⟨layout, hnew, hsize⟩ := arrayLayout_of_lt hlt
    have hfits : elem.Fits n := ⟨hn, hlt⟩
    have hmemory : (if v.cap = 0 then none else some v.slots).getD [] = v.slots := by
      split
      next hzero =>
        have hnil : v.slots = [] := List.eq_nil_of_length_eq_zero (hv.slots.trans hzero)
        rw [hnil, Option.getD_none]
      next => rfl
    simp only [reallocTo, hnew, hold]
    apply Accounts.call
    intro granted
    cases granted with
    | false =>
      apply Accounts.done
      rw [entry, hsize]
      exact .refused (.asked false hfits)
    | true =>
      apply Accounts.done
      rw [entry, hsize]
      have hnothing : ([] : List (Option T × T)).map Prod.fst = [] := rfl
      refine .served (.asked true hfits) rfl hnothing ⟨hv.len, ?_, ?_, ?_, hfits⟩
      · exact hv.le_cap.trans hle
      · rw [hmemory]
        exact hv.holds.resize (by rw [hv.slots, slots_of_size hsize]; exact hle)
      · rw [length_resize, slots_of_size hsize]
  · simp only [reallocTo, arrayLayout_of_ge hge]
    exact Accounts.done (.refused (.tooLarge fun hfits => Nat.not_lt.mpr hge hfits.2))

/-- The capacity that `grow` asks for. -/
def growNeed (v : KVec T) : Nat := if v.cap = 0 then 1 else v.cap * 2

theorem grow_accounts (hv : Stores elem v xs) :
    Accounts (v.grow elem) (Tried elem v (some v.growNeed) [] [] (fun _ => xs) []) := by
  by_cases hzero : v.cap = 0
  · have hle : v.cap ≤ 1 := by omega
    rw [grow, growNeed, if_pos hzero, if_pos hzero]
    exact reallocTo_accounts hv (by decide) hle
  · rw [grow, growNeed, if_neg hzero, if_neg hzero]
    rcases Nat.lt_or_ge (v.cap * 2) (2 ^ 64) with hlt | hge
    · have hle : v.cap ≤ v.cap * 2 := by omega
      rw [checkedMul_of_lt hlt]
      exact reallocTo_accounts hv hlt hle
    · rw [checkedMul_of_ge hge]
      exact Accounts.done (.refused (.tooLarge fun hfits => Nat.not_lt.mpr hge hfits.1))

/-- The capacity that is missing for `needed` elements. -/
def missing (v : KVec T) (needed : Nat) : Option Nat := if needed ≤ v.cap then none else some needed

theorem reserve_accounts (hv : Stores elem v xs) (additional : Nat) :
    Accounts (v.reserve elem additional)
      (Tried elem v (v.missing (xs.length + additional)) [] [] (fun _ => xs) []) := by
  have hcap := hv.fits.1
  rw [reserve, hv.len, missing]
  rcases Nat.lt_or_ge (xs.length + additional) (2 ^ 64) with hlt | hge
  · rw [checkedAdd_of_lt hlt]
    by_cases henough : xs.length + additional ≤ v.cap
    · have hnothing : ([] : List (Option T × T)).map Prod.fst = [] := rfl
      simp only [henough, if_true]
      exact Accounts.done (.served .enough rfl hnothing hv)
    · have hle : v.cap ≤ xs.length + additional := by omega
      simp only [henough, if_false]
      exact reallocTo_accounts hv hlt hle
  · rw [checkedAdd_of_ge hge, if_neg (by omega)]
    exact Accounts.done (.refused (.tooLarge fun hfits => Nat.not_lt.mpr hge hfits.1))

/-- The capacity that `push` needs and does not have. -/
def pushNeed (v : KVec T) : Option Nat := if v.len = v.cap then some v.growNeed else none

/-- The room that `push` makes for itself. -/
theorem pushRoom_accounts (hv : Stores elem v xs) :
    Accounts (if v.len = v.cap then v.grow elem else pure (.ok (), v)) fun r acc =>
      Tried elem v v.pushNeed [] [] (fun _ => xs) [] r acc ∧
        (r.1 = .ok () → xs.length < r.2.cap) := by
  have hle := hv.le_cap
  have hlen := hv.len
  rw [pushNeed]
  split
  next hfull =>
    apply (grow_accounts hv).mono
    rintro r acc htried
    refine ⟨htried, fun hok => ?_⟩
    cases htried with
    | refused => cases hok
    | served _ hcap _ _ =>
      rw [Option.getD_some, growNeed] at hcap
      show xs.length < _
      rw [hcap]
      split <;> omega
  next hroom =>
    have hnothing : ([] : List (Option T × T)).map Prod.fst = [] := rfl
    refine Accounts.done ⟨.served .enough rfl hnothing hv, fun _ => ?_⟩
    show xs.length < v.cap
    omega

theorem push_accounts (hv : Stores elem v xs) (x : T) :
    Accounts (v.push elem x) (Tried elem v v.pushNeed [x] [] (fun _ => xs ++ [x]) []) := by
  apply (pushRoom_accounts hv).bind
  rintro ⟨result, v'⟩ acc ⟨htried, hroom⟩
  cases htried with
  | refused room => exact Accounts.call fun _ => Accounts.done (by simpa [entry] using .refused room)
  | @served _ _ created room cap asked stores =>
    have hnone : created = [] := List.map_eq_nil_iff.mp asked
    subst hnone
    obtain ⟨v₁, hwrite, hlen, hcap, hstores⟩ := write_eq stores (hroom rfl) x
    simp only [hwrite]
    apply Accounts.done
    rw [Account.append_nil]
    exact .served room (hcap.trans cap) rfl hstores

theorem pop_accounts (hv : Stores elem v xs) :
    Accounts v.pop fun r acc =>
      r.1 = xs.getLast? ∧ Stores elem r.2 xs.dropLast ∧ acc = ⟨[], [], []⟩ := by
  have hlen := hv.len
  rw [pop]
  split
  next hzero =>
    have hnil : xs = [] := List.eq_nil_of_length_eq_zero (hlen.symm.trans hzero)
    subst hnil
    exact Accounts.done ⟨rfl, hv, rfl⟩
  next hpos =>
    have hle := hv.le_cap
    obtain ⟨x, hx⟩ : ∃ x, xs.getLast? = some x :=
      Option.isSome_iff_exists.mp (by rw [List.getLast?_isSome, List.ne_nil_iff_length_pos]; omega)
    have hcell : cell v.slots (v.len - 1) = some x := by
      have hlast := hv.holds (v.len - 1) (by omega)
      rw [Nat.zero_add] at hlast
      rw [hlast, hlen, ← List.getLast?_eq_getElem?, hx]
    have hread := read_eq (v := { v with len := v.len - 1 }) hcell
    simp only [hread]
    refine Accounts.done ⟨hx.symm, ⟨?_, ?_, ?_, ?_, hv.fits⟩, rfl⟩
    · rw [List.length_dropLast, ← hlen]
    · rw [List.length_dropLast]
      show xs.length - 1 ≤ v.cap
      omega
    · apply hv.holds.dropLast.set
      rw [List.length_dropLast]
      omega
    · exact List.length_set.trans hv.slots

section Removing

variable {i : Nat} {x : T}

theorem cell_of_getElem (hv : Stores elem v xs) (hx : xs[i]? = some x) : cell v.slots i = some x := by
  have hi := (List.getElem?_eq_some_iff.mp hx).1
  have hcell := hv.holds i hi
  rw [Nat.zero_add] at hcell
  exact hcell.trans hx

theorem remove_accounts (hv : Stores elem v xs) (hx : xs[i]? = some x) :
    Accounts (v.remove i) fun r acc =>
      r.1 = x ∧ Stores elem r.2 (xs.eraseIdx i) ∧ acc = ⟨[], [], []⟩ := by
  have hi := (List.getElem?_eq_some_iff.mp hx).1
  have hle := hv.le_cap
  have hlen : (xs.eraseIdx i).length = xs.length - 1 := List.length_eraseIdx_of_lt hi
  have hin : i < v.len := by rw [hv.len]; exact hi
  have hread := read_eq (cell_of_getElem hv hx)
  have hfits : xs.length ≤ v.slots.length := by rw [hv.slots]; exact hle
  have hstores : ∀ slots : List (Option T), slots.length = v.slots.length →
      Holds slots 0 (xs.eraseIdx i) → Stores elem ⟨slots, xs.length - 1, v.cap⟩ (xs.eraseIdx i) := by
    intro slots hslots hholds
    refine ⟨hlen.symm, ?_, hholds, hslots.trans hv.slots, hv.fits⟩
    · rw [hlen]
      show xs.length - 1 ≤ v.cap
      omega
  rw [remove, if_pos hin, hread]
  simp only [hv.len, Program.bind_eq, Program.done_bind]
  by_cases hcount : xs.length - i - 1 > 0
  · obtain ⟨slots, hmove, hslots, hholds⟩ := hv.holds.move hi hfits
    rw [if_pos hcount, hmove]
    exact Accounts.done ⟨rfl, hstores slots hslots hholds, rfl⟩
  · have hlast : xs.eraseIdx i = xs.dropLast := by
      have hindex : i = xs.length - 1 := by omega
      rw [hindex, List.eraseIdx_length_sub_one]
    rw [if_neg hcount]
    refine Accounts.done ⟨rfl, hstores _ List.length_set ?_, rfl⟩
    rw [hlast]
    apply hv.holds.dropLast.set
    rw [List.length_dropLast]
    omega

end Removing

/-- The list after `swap_remove`: the last element has taken the place of the one removed. -/
def swapRemoved (xs : List T) (i : Nat) : List T :=
  match xs.getLast? with
  | none => xs
  | some last => (xs.set i last).dropLast

theorem swapRemove_accounts {i : Nat} {x : T} (hv : Stores elem v xs) (hx : xs[i]? = some x) :
    Accounts (v.swapRemove i) fun r acc =>
      r.1 = x ∧ Stores elem r.2 (swapRemoved xs i) ∧ acc = ⟨[], [], []⟩ := by
  have hi := (List.getElem?_eq_some_iff.mp hx).1
  have hle := hv.le_cap
  have hin : i < v.len := by rw [hv.len]; exact hi
  have hfits : xs.length ≤ v.slots.length := by rw [hv.slots]; exact hle
  obtain ⟨last, hlast⟩ : ∃ last, xs.getLast? = some last :=
    Option.isSome_iff_exists.mp (by rw [List.getLast?_isSome, List.ne_nil_iff_length_pos]; omega)
  have hat : xs[xs.length - 1]? = some last := by rw [← List.getLast?_eq_getElem?, hlast]
  have hafter : swapRemoved xs i = (xs.set i last).dropLast := by rw [swapRemoved, hlast]
  have hlen : (swapRemoved xs i).length = xs.length - 1 := by
    rw [hafter, List.length_dropLast, List.length_set]
  -- the value to be returned is in the last slot, whether or not it had to be brought there
  have hend : ∀ slots : List (Option T), slots.length = v.slots.length →
      cell slots (xs.length - 1) = some x → Holds slots 0 (swapRemoved xs i) →
      Accounts (read ⟨slots, xs.length - 1, v.cap⟩ (xs.length - 1)) fun r acc =>
        r.1 = x ∧ Stores elem r.2 (swapRemoved xs i) ∧ acc = ⟨[], [], []⟩ := by
    intro slots hslots hcell hholds
    rw [read_eq (v := ⟨slots, xs.length - 1, v.cap⟩) hcell]
    refine Accounts.done ⟨rfl, ⟨hlen.symm, ?_, ?_, ?_, hv.fits⟩, rfl⟩
    · rw [hlen]
      show xs.length - 1 ≤ v.cap
      omega
    · apply hholds.set
      omega
    · exact (List.length_set.trans hslots).trans hv.slots
  rw [swapRemove, if_pos hin]
  simp only [hv.len, Program.bind_eq]
  by_cases hsame : i = xs.length - 1
  · have hgone : swapRemoved xs i = xs.dropLast := by
      rw [hafter, hsame, List.dropLast_eq_take, List.dropLast_eq_take, List.length_set,
        List.take_set_of_le (Nat.le_refl _)]
    have hcell : cell v.slots (xs.length - 1) = some x := by
      rw [← hsame]
      exact cell_of_getElem hv hx
    have hholds : Holds v.slots 0 (swapRemoved xs i) := by
      rw [hgone]
      exact hv.holds.dropLast
    rw [if_neg (not_not.mpr hsame)]
    exact hend v.slots rfl hcell hholds
  · obtain ⟨slots, hswap, hslots, hcell, hholds⟩ := hv.holds.swap (by omega) hfits hx hat
    rw [← hafter] at hholds
    rw [if_pos hsame, hswap]
    exact hend slots hslots hcell hholds

theorem clear_accounts (hv : Stores elem v xs) :
    Accounts v.clear fun v' acc => Stores elem v' [] ∧ acc = ⟨[], [], xs⟩ :=
  (truncate_accounts hv 0).mono fun _ _ h => ⟨h.1, h.2.2⟩

section Filling

variable {next : KVecProgram T T} {source : Option T} {n : Nat}

/-- The vector while it is filled up to `n`: behind the elements of `xs` there are those made. -/
structure Filling (elem : ElementLayout) (cap : Nat) (source : Option T) (xs : List T) (n : Nat)
    (v : KVec T) (created : List (Option T × T)) : Prop where
  cap_eq : v.cap = cap
  len_le : v.len ≤ n
  made : created.map Prod.fst = List.replicate created.length source
  stores : Stores elem v (xs ++ created.map Prod.snd)

theorem fillRound_accounts (hnext : Accounts next fun x acc => acc = ⟨[], [(source, x)], []⟩)
    {cap : Nat} (hcap : n ≤ cap) (v : KVec T) (acc : Account T)
    (h : ∃ created, acc = ⟨[], created, []⟩ ∧ Filling elem cap source xs n v created) :
    Accounts (fillRound next n v) fun r acc' =>
      Sum.elim (fun v' => (∃ created, acc ++ acc' = ⟨[], created, []⟩ ∧
          Filling elem cap source xs n v' created) ∧ n - v'.len < n - v.len)
        (fun v' => ∃ created, acc ++ acc' = ⟨[], created, []⟩ ∧
          Filling elem cap source xs n v' created ∧ v'.len = n) r := by
  obtain ⟨created, rfl, hfill⟩ := h
  have hle := hfill.len_le
  rw [fillRound]
  split
  next hlt =>
    apply hnext.bind
    rintro x _ rfl
    have hroom : (xs ++ created.map Prod.snd).length < v.cap := by
      rw [← hfill.stores.len, hfill.cap_eq]
      omega
    obtain ⟨v', hwrite, hlen, hcap', hstores⟩ := write_eq hfill.stores hroom x
    simp only [hwrite]
    refine Accounts.done ⟨⟨created ++ [(source, x)], rfl, hcap'.trans hfill.cap_eq, ?_, ?_, ?_⟩, ?_⟩
    · show v'.len + 1 ≤ n
      omega
    · rw [List.map_append, hfill.made, List.length_append, List.length_singleton,
        List.replicate_succ']
      rfl
    · rw [List.map_append, ← List.append_assoc]
      exact hstores
    · show n - (v'.len + 1) < n - v.len
      omega
  next hge =>
    refine Accounts.done ⟨created, Account.append_nil _, hfill, ?_⟩
    omega

theorem resizeBy_accounts (hnext : Accounts next fun x acc => acc = ⟨[], [(source, x)], []⟩)
    (hv : Stores elem v xs) (n : Nat) :
    Accounts (v.resizeBy elem next n) (Tried elem v (v.missing n) []
      (List.replicate (n - xs.length) source) (fun made => xs.take n ++ made) (xs.drop n)) := by
  have hlen := hv.len
  have hle := hv.le_cap
  rw [resizeBy]
  split
  next hshort =>
    have hnone : v.missing n = none := if_pos (by omega)
    have hcount : n - xs.length = 0 := by omega
    rw [hnone, hcount]
    apply (truncate_accounts hv n).bind
    rintro v' acc ⟨hstores, hcap, rfl⟩
    have hnothing : ([] : List (Option T × T)).map Prod.fst = List.replicate 0 source := rfl
    rw [← List.append_nil (xs.take n)] at hstores
    exact Accounts.done_after (.served .enough hcap hnothing hstores)
  next hlong =>
    have hneed : xs.length + (n - v.len) = n := by omega
    have htake : xs.take n = xs := List.take_of_length_le (by omega)
    have hdrop : xs.drop n = [] := List.drop_of_length_le (by omega)
    rw [htake, hdrop]
    apply (reserve_accounts hv (n - v.len)).bind
    rw [hneed]
    rintro ⟨result, v'⟩ acc htried
    cases htried with
    | refused room => exact Accounts.done_after (.refused room)
    | @served log _ created room cap asked stores =>
      have hnil : created = [] := List.map_eq_nil_iff.mp asked
      subst hnil
      have hroom : n ≤ v'.cap := by
        rw [cap, missing]
        split <;> simp only [Option.getD_none, Option.getD_some] <;> omega
      have hstart : Filling elem v'.cap source xs n v' [] := by
        refine ⟨rfl, ?_, rfl, by simpa using stores⟩
        have hlen' := stores.len
        omega
      have hloop := Accounts.loop (m := fun v : KVec T => n - v.len)
        (I := fun v acc => ∃ created, acc = ⟨[], created, []⟩ ∧
          Filling elem v'.cap source xs n v created)
        (R := fun v acc => ∃ created, acc = ⟨[], created, []⟩ ∧
          Filling elem v'.cap source xs n v created ∧ v.len = n)
        (fillRound_accounts hnext hroom) ⟨[], rfl, hstart⟩ (Nat.lt_succ_self _)
      apply hloop.bind
      rintro v₁ _ ⟨made, rfl, hfill, hfull⟩
      have hmade : made.length = n - xs.length := by
        have hlen₁ := hfill.stores.len
        rw [List.length_append, List.length_map] at hlen₁
        omega
      have hasked : made.map Prod.fst = List.replicate (n - xs.length) source := by
        rw [hfill.made, hmade]
      apply Accounts.done
      rw [Account.append_nil, Account.mk_append, List.append_nil]
      exact .served room (hfill.cap_eq.trans cap) hasked hfill.stores

end Filling

theorem resizeWith_accounts (hv : Stores elem v xs) (n : Nat) :
    Accounts (v.resizeWith elem n) (Tried elem v (v.missing n) []
      (List.replicate (n - xs.length) none) (fun made => xs.take n ++ made) (xs.drop n)) :=
  resizeBy_accounts (Accounts.call fun _ => Accounts.done rfl) hv n

theorem resize_accounts (hv : Stores elem v xs) (n : Nat) (x : T) :
    Accounts (v.resize elem n x) (Tried elem v (v.missing n) [x]
      (List.replicate (n - xs.length) (some x)) (fun made => xs.take n ++ made)
      (xs.drop n ++ [x])) := by
  have hnext : Accounts (Program.ask (KVecCall.clone x) : KVecProgram T T)
      fun y acc => acc = ⟨[], [(some x, y)], []⟩ := Accounts.call fun _ => Accounts.done rfl
  apply (resizeBy_accounts hnext hv n).bind
  rintro r acc htried
  apply Accounts.call
  intro _
  apply Accounts.done
  cases htried with
  | refused room =>
    rw [entry, Account.append_nil, Account.mk_append, List.append_nil, List.nil_append]
    exact .refused room
  | served room cap asked stores =>
    rw [entry, Account.append_nil, Account.mk_append, List.append_nil, List.append_nil]
    exact .served room cap asked stores

/-- Where there is room for all of them, the clones are pushed without asking for more. -/
theorem pushClones_accounts (other : List T) (hv : Stores elem v xs)
    (hroom : xs.length + other.length ≤ v.cap) :
    Accounts (pushClones elem other v) fun r acc => ∃ v' created, r = (.ok (), v') ∧
      v'.cap = v.cap ∧ created.map Prod.fst = other.map some ∧
      Stores elem v' (xs ++ created.map Prod.snd) ∧ acc = ⟨[], created, []⟩ := by
  induction other generalizing v xs with
  | nil => exact Accounts.done ⟨v, [], rfl, rfl, rfl, by simpa using hv, rfl⟩
  | cons item other ih =>
    rw [List.length_cons] at hroom
    apply Accounts.call
    intro x
    have hnone : v.pushNeed = none := if_neg (by rw [hv.len]; omega)
    have hpush := push_accounts hv x
    rw [hnone] at hpush
    apply hpush.bind
    rintro ⟨result, v₁⟩ acc htried
    cases htried with
    | refused room => cases room
    | @served log _ created₀ room cap asked stores =>
      cases room
      have hnil : created₀ = [] := List.map_eq_nil_iff.mp asked
      subst hnil
      have hcap : v₁.cap = v.cap := cap
      apply (ih stores (by rw [hcap, List.length_append, List.length_singleton]; omega)).mono
      rintro r acc' ⟨v', created, rfl, hcap', hasked, hstores, rfl⟩
      refine ⟨v', (some item, x) :: created, rfl, hcap'.trans hcap, ?_, ?_, rfl⟩
      · rw [List.map_cons, hasked, List.map_cons]
      · rw [List.append_assoc] at hstores
        exact hstores

theorem extendFromSlice_accounts (hv : Stores elem v xs) (other : List T) :
    Accounts (v.extendFromSlice elem other) (Tried elem v (v.missing (xs.length + other.length)) []
      (other.map some) (fun made => xs ++ made) []) := by
  apply (reserve_accounts hv other.length).bind
  rintro ⟨result, v'⟩ acc htried
  cases htried with
  | refused room => exact Accounts.done_after (.refused room)
  | @served log _ created₀ room cap asked stores =>
    have hnil : created₀ = [] := List.map_eq_nil_iff.mp asked
    subst hnil
    have hroom : xs.length + other.length ≤ v'.cap := by
      rw [cap, missing]
      split <;> simp only [Option.getD_none, Option.getD_some] <;> omega
    apply (pushClones_accounts other stores hroom).mono
    rintro r acc' ⟨v₁, created, rfl, hcap, hasked, hstores, rfl⟩
    rw [Account.mk_append, List.append_nil]
    exact .served room (hcap.trans cap) hasked hstores

/-- A call that makes a vector of its own, of the elements it makes from `asks`. -/
inductive Built (elem : ElementLayout) (need : Option Nat) (asks : List (Option T)) :
    Except AllocError (KVec T) → Account T → Prop
  | refused {log : List (Nat × Bool)} (room : Room elem need log false) :
    Built elem need asks (.error .allocError) ⟨log, [], []⟩
  | built {log : List (Nat × Bool)} {v : KVec T} {created : List (Option T × T)}
    (room : Room elem need log true) (cap : v.cap = need.getD 0)
    (asked : created.map Prod.fst = asks) (stores : Stores elem v (created.map Prod.snd)) :
    Built elem need asks (.ok v) ⟨log, created, []⟩

/-- The capacity that `with_capacity` has to ask for. -/
def freshNeed (capacity : Nat) : Option Nat := if capacity = 0 then none else some capacity

theorem withCapacity_accounts (elem : ElementLayout) (capacity : Nat) :
    Accounts (withCapacity elem capacity : KVecProgram T _) (Built elem (freshNeed capacity) []) := by
  have hneed : (new : KVec T).missing (([] : List T).length + capacity) = freshNeed capacity := by
    simp [missing, freshNeed, new]
  apply (reserve_accounts (stores_new elem) capacity).bind
  rw [hneed]
  rintro ⟨result, v⟩ acc htried
  cases htried with
  | refused room =>
    apply (drop_accounts (stores_new elem)).bind
    rintro _ _ rfl
    apply Accounts.done
    rw [Account.append_nil, Account.append_nil]
    exact .refused room
  | served room cap asked stores =>
    have hnil := List.map_eq_nil_iff.mp asked
    subst hnil
    exact Accounts.done_after (.built room cap rfl stores)

theorem fromSlice_accounts (elem : ElementLayout) (data : List T) :
    Accounts (fromSlice elem data) (Built elem (freshNeed data.length) (data.map some)) := by
  apply (withCapacity_accounts elem data.length).bind
  rintro result acc hbuilt
  cases hbuilt with
  | refused room => exact Accounts.done_after (.refused room)
  | @built log v created₀ room cap asked stores =>
    have hnil := List.map_eq_nil_iff.mp asked
    subst hnil
    have henough : v.missing (([] : List T).length + data.length) = none := by
      rw [missing, cap, freshNeed]
      split <;> simp_all
    have hextend := extendFromSlice_accounts stores data
    rw [List.map_nil, henough] at hextend
    apply hextend.bind
    rintro ⟨result, v'⟩ acc' htried
    cases htried with
    | refused room' => cases room'
    | served room' cap' asked' stores' =>
      cases room'
      apply Accounts.done
      rw [Account.append_nil, Account.mk_append, List.append_nil]
      exact .built room (Eq.trans cap' cap) asked' stores'

end KVec

namespace IntoIter

variable {elem : ElementLayout} {iter : IntoIter T} {xs : List T}

/-- The iterator has the elements of `xs` left. -/
structure Remains (elem : ElementLayout) (iter : IntoIter T) (xs : List T) : Prop where
  len : iter.vec.len = iter.pos + xs.length
  holds : Holds iter.vec.slots iter.pos xs
  slots : iter.vec.slots.length = iter.vec.cap
  fits : elem.Fits iter.vec.cap

theorem remains_intoIter {v : KVec T} (hv : Stores elem v xs) : Remains elem v.intoIter xs :=
  ⟨by rw [KVec.intoIter, Nat.zero_add]; exact hv.len, hv.holds, hv.slots, hv.fits⟩

theorem Remains.advance {x : T} (h : Remains elem iter (x :: xs)) :
    Remains elem ⟨{ iter.vec with slots := iter.vec.slots.set iter.pos none }, iter.pos + 1⟩ xs := by
  refine ⟨?_, h.holds.tail.set (by omega), List.length_set.trans h.slots, h.fits⟩
  have hlen := h.len
  rw [List.length_cons] at hlen
  show iter.vec.len = iter.pos + 1 + xs.length
  omega

theorem next_accounts (h : Remains elem iter xs) :
    Accounts iter.next fun r acc =>
      r.1 = xs.head? ∧ Remains elem r.2 xs.tail ∧ acc = ⟨[], [], []⟩ := by
  have hlen := h.len
  cases xs with
  | nil =>
    rw [next, if_pos (by rw [hlen]; exact Nat.le_refl _)]
    exact Accounts.done ⟨rfl, h, rfl⟩
  | cons x xs =>
    rw [List.length_cons] at hlen
    rw [next, if_neg (by omega), KVec.read_eq h.holds.head]
    exact Accounts.done ⟨rfl, h.advance, rfl⟩

/-- The iterator in its destructor: of `xs` the elements dropped so far are gone. -/
def Dropping (elem : ElementLayout) (xs : List T) (iter : IntoIter T) (acc : Account T) : Prop :=
  ∃ gone rest, xs = gone ++ rest ∧ acc = ⟨[], [], gone⟩ ∧ Remains elem iter rest

theorem dropRound_accounts (iter : IntoIter T) (acc : Account T) (h : Dropping elem xs iter acc) :
    Accounts iter.dropRound fun r acc' =>
      Sum.elim (fun it => Dropping elem xs it (acc ++ acc') ∧
          it.vec.len - it.pos < iter.vec.len - iter.pos)
        (fun it => acc ++ acc' = ⟨[], [], xs⟩ ∧ Remains elem it []) r := by
  obtain ⟨gone, rest, hxs, rfl, hit⟩ := h
  have hlen := hit.len
  cases rest with
  | nil =>
    rw [List.append_nil] at hxs
    rw [dropRound, if_neg (by rw [hlen]; exact Nat.lt_irrefl _)]
    exact Accounts.done ⟨by rw [hxs, Account.append_nil], hit⟩
  | cons x rest =>
    rw [List.length_cons] at hlen
    rw [dropRound, if_pos (by omega), KVec.read_eq hit.holds.head]
    apply Accounts.call
    intro _
    refine Accounts.done ⟨⟨gone ++ [x], rest, ?_, rfl, hit.advance⟩, ?_⟩
    · rw [hxs, List.append_assoc, List.singleton_append]
    · show iter.vec.len - (iter.pos + 1) < iter.vec.len - iter.pos
      omega

theorem drop_accounts (h : Remains elem iter xs) :
    Accounts (iter.drop elem) fun _ acc => acc = ⟨[], [], xs⟩ := by
  have hloop := Accounts.loop (m := fun it : IntoIter T => it.vec.len - it.pos)
    (I := Dropping elem xs) (R := fun it acc => acc = ⟨[], [], xs⟩ ∧ Remains elem it [])
    dropRound_accounts ⟨[], xs, rfl, rfl, h⟩ (Nat.lt_succ_self _)
  apply hloop.bind
  rintro it acc ⟨hacc, hit⟩
  have hempty : Stores elem { it.vec with len := 0 } ([] : List T) :=
    ⟨rfl, Nat.zero_le _, Holds.nil _ _, hit.slots, hit.fits⟩
  apply (KVec.drop_accounts hempty).mono
  rintro _ _ rfl
  rw [Account.append_nil]
  exact hacc

end IntoIter

end Rko
