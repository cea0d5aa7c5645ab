import Mathlib.Tactic.Ring
import Rko.Errno

namespace Rko

abbrev Bytes := List UInt8

def ascii (s : String) : Bytes := s.toList.map fun c => c.toNat.toUInt8

inductive Method
  | get | head | post | put | delete | options | patch
deriving DecidableEq, Repr

def Method.asStr : Method → Bytes
  | .get => ascii "GET"
  | .head => ascii "HEAD"
  | .post => ascii "POST"
  | .put => ascii "PUT"
  | .delete => ascii "DELETE"
  | .options => ascii "OPTIONS"
  | .patch => ascii "PATCH"

def Method.parse (s : Bytes) : Option Method :=
  if s = ascii "GET" then some .get
  else if s = ascii "HEAD" then some .head
  else if s = ascii "POST" then some .post
  else if s = ascii "PUT" then some .put
  else if s = ascii "DELETE" then some .delete
  else if s = ascii "OPTIONS" then some .options
  else if s = ascii "PATCH" then some .patch
  else none

inductive Version
  | http10 | http11
deriving DecidableEq, Repr

def Version.fromHttparse (v : UInt8) : Version := if v = 0 then .http10 else .http11

def toAsciiLowercase (b : UInt8) : UInt8 := if 65 ≤ b ∧ b ≤ 90 then b + 32 else b

def eqIgnoreAsciiCase (a b : Bytes) : Bool :=
  if a.length ≠ b.length then false
  else (a.zip b).all fun p => decide (toAsciiLowercase p.1 = toAsciiLowercase p.2)

def CONTENT_LENGTH : Bytes := ascii "Content-Length"
def CONTENT_TYPE : Bytes := ascii "Content-Type"
def CONNECTION : Bytes := ascii "Connection"

def digit (b : UInt8) : Option Nat := if 48 ≤ b ∧ b ≤ 57 then some (b.toNat - 48) else none

def parseDigits : Nat → Bytes → Option Nat
  | acc, [] => some acc
  | acc, b :: bs =>
    match digit b with
    | none => none
    | some d => if acc * 10 + d < 2 ^ 64 then parseDigits (acc * 10 + d) bs else none

/-- `str::parse::<usize>`: one leading plus sign is accepted. A text that is not UTF-8 has a byte
that is no digit, so the check for it needs no case of its own. -/
def parseUsize : Bytes → Option Nat
  | [] => none
  | b :: bs => if b = 43 ∧ bs ≠ [] then parseDigits 0 bs else parseDigits 0 (b :: bs)

abbrev Headers := List (Bytes × Bytes)

namespace Headers

def get (headers : Headers) (name : Bytes) : Option Bytes :=
  (headers.find? fun h => eqIgnoreAsciiCase h.1 name).map Prod.snd

def contentLength (headers : Headers) : Option Nat :=
  (headers.get CONTENT_LENGTH).bind parseUsize

def isConnectionClose (headers : Headers) : Bool :=
  ((headers.get CONNECTION).map fun v => eqIgnoreAsciiCase v (ascii "close")).getD false

def isConnectionKeepalive (headers : Headers) : Bool :=
  ((headers.get CONNECTION).map fun v => eqIgnoreAsciiCase v (ascii "keep-alive")).getD false

end Headers

structure Request where
  method : Method
  path : Bytes
  version : Version
  headers : Headers
  body : Bytes
deriving DecidableEq, Repr

structure Response where
  status : UInt16
  version : Version
  headers : Headers
  body : Bytes
deriving DecidableEq, Repr

inductive HttpError
  | badRequest | headerTooLarge | payloadTooLarge | connectionClosed | internal
deriving DecidableEq, Repr

/-- The two limits of `ServerConfig` that parsing reads. -/
structure ServerConfig where
  maxHeaderSize : Nat
  maxBodySize : Nat

def ServerConfig.default : ServerConfig := ⟨8192, 1024 * 1024⟩

def Headers.values (headers : Headers) (name : Bytes) : List Bytes :=
  (headers.filter fun h => eqIgnoreAsciiCase h.1 name).map Prod.snd

theorem Headers.get_eq_head? (headers : Headers) (name : Bytes) :
    headers.get name = (headers.values name).head? := by
  simp [Headers.get, Headers.values, List.head?_map, List.head?_filter]

def IsDecimal (v : Bytes) : Prop := v ≠ [] ∧ v.all (fun b => (digit b).isSome)

instance (v : Bytes) : Decidable (IsDecimal v) := inferInstanceAs (Decidable (_ ∧ _))

def decimalFrom (acc : Nat) (v : Bytes) : Nat := v.foldl (fun a b => a * 10 + (digit b).getD 0) acc

def decimalValue (v : Bytes) : Nat := decimalFrom 0 v

theorem le_decimalFrom (acc : Nat) (v : Bytes) : acc ≤ decimalFrom acc v := by
  induction v generalizing acc with
  | nil => exact Nat.le_refl acc
  | cons b bs ih =>
    have hstep := ih (acc * 10 + (digit b).getD 0)
    have hcons : decimalFrom acc (b :: bs) = decimalFrom (acc * 10 + (digit b).getD 0) bs := rfl
    omega

theorem parseDigits_eq_some {acc n : Nat} {v : Bytes} (hacc : acc < 2 ^ 64) :
    parseDigits acc v = some n ↔
      (∀ b ∈ v, (digit b).isSome) ∧ decimalFrom acc v = n ∧ n < 2 ^ 64 := by
  induction v generalizing acc with
  | nil =>
    simp only [parseDigits, decimalFrom, Option.some.injEq, List.not_mem_nil, List.foldl_nil]
    constructor
    · rintro rfl
      exact ⟨by simp, rfl, hacc⟩
    · exact fun h => h.2.1
  | cons b bs ih =>
    have hcons : decimalFrom acc (b :: bs) = decimalFrom (acc * 10 + (digit b).getD 0) bs := rfl
    cases hd : digit b with
    | none => simp [parseDigits, hd]
    | some d =>
      rw [hd, Option.getD_some] at hcons
      simp only [parseDigits, hd, List.forall_mem_cons, Option.isSome_some, true_and, hcons]
      split
      next hlt => exact ih hlt
      next hge =>
        have hle := le_decimalFrom (acc * 10 + d) bs
        simp only [reduceCtorEq, false_iff]
        rintro ⟨-, hval, hn⟩
        omega

theorem parseUsize_of_decimal {v : Bytes} (hv : IsDecimal v) (hlt : decimalValue v < 2 ^ 64) :
    parseUsize v = some (decimalValue v) := by
  have hall : ∀ b ∈ v, (digit b).isSome := List.all_eq_true.mp hv.2
  have hdigits := (parseDigits_eq_some (by decide)).mpr ⟨hall, rfl, hlt⟩
  cases v with
  | nil => exact absurd rfl hv.1
  | cons b bs =>
    have hplus : ¬ (b = 43 ∧ bs ≠ []) := by
      rintro ⟨rfl, -⟩
      exact absurd (hall 43 (by simp)) (by decide)
    simp only [parseUsize, if_neg hplus]
    exact hdigits

theorem parseUsize_lt {v : Bytes} {n : Nat} (h : parseUsize v = some n) : n < 2 ^ 64 := by
  cases v with
  | nil => cases h
  | cons b bs =>
    simp only [parseUsize] at h
    split at h
    · exact ((parseDigits_eq_some (by decide)).mp h).2.2
    · exact ((parseDigits_eq_some (by decide)).mp h).2.2

/-- The first header of a name, in any letter case, is the one that counts. -/
theorem Headers.get_append {before after : Headers} {name key value : Bytes}
    (hbefore : ∀ h ∈ before, eqIgnoreAsciiCase h.1 key = false)
    (hname : eqIgnoreAsciiCase name key = true) :
    Headers.get (before ++ (name, value) :: after) key = some value := by
  have hnone : before.find? (fun h => eqIgnoreAsciiCase h.1 key) = none :=
    List.find?_eq_none.mpr fun h hh => by rw [hbefore h hh]; exact Bool.false_ne_true
  have hfound : ((name, value) :: after).find? (fun h => eqIgnoreAsciiCase h.1 key) =
      some (name, value) := List.find?_cons_of_pos hname
  rw [Headers.get, List.find?_append, hnone, Option.none_or, hfound, Option.map_some]

theorem Headers.contentLength_lt {headers : Headers} {n : Nat}
    (h : headers.contentLength = some n) : n < 2 ^ 64 := by
  obtain ⟨v, -, hv⟩ := Option.bind_eq_some_iff.mp h
  exact parseUsize_lt hv

end Rko
