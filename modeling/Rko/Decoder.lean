import Mathlib.Tactic.Ring

/-- Decodes a value off the front of a list and leaves what follows it. -/
abbrev Decoder (β : Type) := StateT (List β) Option

namespace Decoder

variable {β α γ : Type}

/-- On `code`, whatever follows it, the decoder stops right behind `code` and returns `a`. -/
def Decodes (d : Decoder β α) (code : List β) (a : α) : Prop :=
  ∀ rest, d.run (code ++ rest) = some (a, rest)

theorem Decodes.pure (a : α) : Decodes (Pure.pure a : Decoder β α) [] a := fun _ => rfl

theorem Decodes.bind {d : Decoder β α} {f : α → Decoder β γ} {x y : List β} {a : α} {c : γ}
    (hd : Decodes d x a) (hf : Decodes (f a) y c) : Decodes (d >>= f) (x ++ y) c := by
  intro rest
  have hx := hd (y ++ rest)
  rw [← List.append_assoc] at hx
  rw [StateT.run_bind, hx]
  exact hf rest

theorem Decodes.last {d : Decoder β α} {f : α → Decoder β γ} {x : List β} {a : α} {c : γ}
    (hd : Decodes d x a) (hf : Decodes (f a) [] c) : Decodes (d >>= f) x c := by
  have hx := hd.bind hf
  rwa [List.append_nil] at hx

theorem Decodes.map {d : Decoder β α} {x : List β} {a : α} (f : α → γ) (hd : Decodes d x a) :
    Decodes (f <$> d) x (f a) := by
  intro rest
  rw [StateT.run_map, hd rest]
  rfl

theorem Decodes.run {d : Decoder β α} {x : List β} {a : α} (hd : Decodes d x a) :
    d.run x = some (a, []) := by
  have hx := hd []
  rwa [List.append_nil] at hx

def ofOption (o : Option α) : Decoder β α := fun b => o.map fun a => (a, b)

theorem decodes_ofOption {o : Option α} {a : α} (h : o = some a) :
    Decodes (ofOption o : Decoder β α) [] a := by
  subst h
  exact fun _ => rfl

def take (n : Nat) : Decoder β (List β) := fun b =>
  if n ≤ b.length then some (b.take n, b.drop n) else none

theorem decodes_take (x : List β) : Decodes (take x.length) x x := by
  intro rest
  have hle : x.length ≤ (x ++ rest).length := by simp
  have htake : (take x.length).run (x ++ rest) =
      some ((x ++ rest).take x.length, (x ++ rest).drop x.length) := if_pos hle
  rw [htake, List.take_left, List.drop_left]

def times (d : Decoder β α) : Nat → Decoder β (List α)
  | 0 => pure []
  | n + 1 => do
    let a ← d
    List.cons a <$> times d n

theorem decodes_times {d : Decoder β α} {code : α → List β} {as : List α}
    (h : ∀ a ∈ as, Decodes d (code a) a) : Decodes (times d as.length) (as.flatMap code) as := by
  induction as with
  | nil => exact Decodes.pure []
  | cons a as ih =>
    have hrest := ih fun x hx => h x (List.mem_cons_of_mem a hx)
    rw [List.flatMap_cons]
    exact (h a List.mem_cons_self).bind (hrest.map (List.cons a))

/-- Bytes that follow do not change what was decoded before them. -/
def Stable (d : Decoder β α) : Prop :=
  ∀ b a rest more, d.run b = some (a, rest) → d.run (b ++ more) = some (a, rest ++ more)

theorem stable_pure (a : α) : Stable (Pure.pure a : Decoder β α) := by
  intro b a' rest more h
  cases h
  rfl

theorem Stable.bind {d : Decoder β α} {f : α → Decoder β γ} (hd : Stable d)
    (hf : ∀ a, Stable (f a)) : Stable (d >>= f) := by
  intro b c rest more h
  rw [StateT.run_bind] at h ⊢
  obtain ⟨⟨a, mid⟩, ha, hc⟩ := Option.bind_eq_some_iff.mp h
  rw [hd b a mid more ha]
  exact hf a mid c rest more hc

theorem Stable.map {d : Decoder β α} (hd : Stable d) (f : α → γ) : Stable (f <$> d) := by
  intro b c rest more h
  rw [StateT.run_map] at h ⊢
  obtain ⟨⟨a, mid⟩, ha, hc⟩ := Option.map_eq_some_iff.mp h
  cases hc
  rw [hd b a mid more ha]
  rfl

theorem stable_ofOption (o : Option α) : Stable (ofOption o : Decoder β α) := by
  intro b a rest more h
  cases o with
  | none => cases h
  | some x =>
    cases h
    rfl

theorem stable_take (n : Nat) : Stable (take n : Decoder β (List β)) := by
  intro b a rest more h
  have hle : n ≤ b.length := by
    by_contra hlt
    have hnone : (take n : Decoder β (List β)).run b = none := if_neg hlt
    rw [hnone] at h
    cases h
  have htake : (take n : Decoder β (List β)).run b = some (b.take n, b.drop n) := if_pos hle
  have hle' : n ≤ (b ++ more).length := by
    rw [List.length_append]
    omega
  have hmore : (take n : Decoder β (List β)).run (b ++ more) =
      some ((b ++ more).take n, (b ++ more).drop n) := if_pos hle'
  cases htake.symm.trans h
  rw [hmore, List.take_append_of_le_length hle, List.drop_append_of_le_length hle]

theorem Stable.times {d : Decoder β α} (hd : Stable d) (n : Nat) : Stable (times d n) := by
  induction n with
  | zero => exact stable_pure []
  | succ n ih => exact hd.bind fun a => ih.map (List.cons a)

/-- Nothing but the value is decoded off a part of its code from the front. -/
theorem Decodes.of_take {d : Decoder β α} {code rest : List β} {a a' : α} {n : Nat}
    (hd : Decodes d code a) (hs : Stable d) (h : d.run (code.take n) = some (a', rest)) :
    a' = a := by
  have hmore := hs _ _ _ (code.drop n) h
  rw [List.take_append_drop, hd.run] at hmore
  exact (congrArg Prod.fst (Option.some.inj hmore)).symm

end Decoder
