import Rko.HttpNumerals

namespace Rko

open CallProgram Wire

structure Ipv4Addr where
  octets : Vector UInt8 4
deriving DecidableEq, Repr

structure Ipv6Addr where
  octets : Vector UInt8 16
deriving DecidableEq, Repr

structure SocketAddrV4 where
  ip : Ipv4Addr
  port : UInt16
deriving DecidableEq, Repr

structure SocketAddrV6 where
  ip : Ipv6Addr
  port : UInt16
  flowinfo : UInt32
  scopeId : UInt32
deriving DecidableEq, Repr

inductive SocketAddr
  | v4 (addr : SocketAddrV4)
  | v6 (addr : SocketAddrV6)
deriving DecidableEq, Repr

def SocketAddr.port : SocketAddr → UInt16
  | v4 addr => addr.port
  | v6 addr => addr.port

def SocketAddr.ip : SocketAddr → Ipv4Addr ⊕ Ipv6Addr
  | v4 addr => .inl addr.ip
  | v6 addr => .inr addr.ip

namespace Wire

def writeU8 (buf : Bytes) (val : UInt8) : WireProgram Bytes :=
  extend buf (formatUsize val.toNat 3)

/-- `format_host`. -/
def formatHost (addr : SocketAddr) (buf : Bytes) : WireProgram Bytes :=
  match addr with
  | .v4 v4 => do
    let octets := v4.ip.octets
    let buf ← writeU8 buf octets[0]
    let buf ← extend buf (ascii ".")
    let buf ← writeU8 buf octets[1]
    let buf ← extend buf (ascii ".")
    let buf ← writeU8 buf octets[2]
    let buf ← extend buf (ascii ".")
    let buf ← writeU8 buf octets[3]
    if v4.port ≠ 80 then
      let buf ← extend buf (ascii ":")
      writeU16 buf v4.port
    else return buf
  | .v6 _ => extend buf (ascii "[::1]")

end Wire

/-- Four octets in dotted decimal, without leading zeros. -/
def dottedQuad (octets : Vector UInt8 4) : Bytes :=
  numeral octets[0].toNat ++ ascii "." ++ numeral octets[1].toNat ++ ascii "." ++
    numeral octets[2].toNat ++ ascii "." ++ numeral octets[3].toNat

/-- The port, where it is not the one of HTTP. -/
def portSuffix (port : UInt16) : Bytes :=
  if port = 80 then [] else ascii ":" ++ numeral port.toNat

/-- Up to four hexadecimal digits. -/
def IsHexGroup (text : Bytes) : Prop :=
  1 ≤ text.length ∧ text.length ≤ 4 ∧
    ∀ b ∈ text, (digit b).isSome = true ∨ 65 ≤ b ∧ b ≤ 70 ∨ 97 ≤ b ∧ b ≤ 102

/-- Groups that make up `16 * n` bits of an address; at the end of the text, the last 32 may be in dotted
decimal. -/
inductive Ipv6Groups : (last : Bool) → Nat → Bytes → Prop
  | group {last : Bool} {g : Bytes} : IsHexGroup g → Ipv6Groups last 1 g
  | quad (octets : Vector UInt8 4) : Ipv6Groups true 2 (dottedQuad octets)
  | cons {last : Bool} {n : Nat} {g rest : Bytes} : IsHexGroup g → Ipv6Groups last n rest →
    Ipv6Groups last (n + 1) (g ++ ascii ":" ++ rest)

/-- The text of an IPv6 address; two colons stand for a row of zero groups. -/
inductive IsIpv6Literal : Bytes → Prop
  | full {text : Bytes} : Ipv6Groups true 8 text → IsIpv6Literal text
  | zeros : IsIpv6Literal (ascii "::")
  | before {n : Nat} {text : Bytes} : n ≤ 7 → Ipv6Groups false n text →
    IsIpv6Literal (text ++ ascii "::")
  | after {n : Nat} {text : Bytes} : n ≤ 7 → Ipv6Groups true n text →
    IsIpv6Literal (ascii "::" ++ text)
  | both {m n : Nat} {left right : Bytes} : m + n ≤ 7 → Ipv6Groups false m left →
    Ipv6Groups true n right → IsIpv6Literal (left ++ ascii "::" ++ right)

/-- A `Host` value for the address: the octets in dotted decimal or a literal in brackets, and the port
where it is needed. -/
def SocketAddr.HasHost : SocketAddr → Bytes → Prop
  | .v4 addr, text => text = dottedQuad addr.ip.octets ++ portSuffix addr.port
  | .v6 addr, text => ∃ literal, IsIpv6Literal literal ∧
    text = ascii "[" ++ literal ++ ascii "]" ++ portSuffix addr.port

/-- The bytes of `format_host`. -/
def hostText : SocketAddr → Bytes
  | .v4 addr => dottedQuad addr.ip.octets ++ portSuffix addr.port
  | .v6 _ => ascii "[::1]"

section Text

theorem extend_bind_ensures_iff {α : Type} {buf data : Bytes} {f : Bytes → WireProgram α}
    {Q : α → Prop} : ((extend buf data).bind f).Ensures Q ↔ (f (buf ++ data)).Ensures Q := by
  constructor
  · intro h
    exact h true
  · intro h r
    cases r with
    | false => trivial
    | true => exact h

theorem extend_ensures_iff {buf data : Bytes} {Q : Bytes → Prop} :
    (extend buf data).Ensures Q ↔ Q (buf ++ data) := by
  constructor
  · intro h
    exact h true
  · intro h r
    cases r with
    | false => trivial
    | true => exact h

theorem writeU8_eq (buf : Bytes) (val : UInt8) : writeU8 buf val = extend buf (numeral val.toNat) := by
  have hlt := val.toNat_lt
  rw [writeU8, formatUsize_eq_numeral (by omega)]

theorem writeU16_eq (buf : Bytes) (val : UInt16) :
    writeU16 buf val = extend buf (numeral val.toNat) := by
  have hlt := val.toNat_lt
  rw [writeU16, formatUsize_eq_numeral (by omega)]

/-- If nothing fails, the text is appended. -/
theorem formatHost_ensures (addr : SocketAddr) (buf : Bytes) :
    (formatHost addr buf).Ensures fun r => r = buf ++ hostText addr := by
  cases addr with
  | v6 addr => exact extend_ensures_iff.mpr rfl
  | v4 addr =>
    simp only [formatHost, writeU8_eq, writeU16_eq, Program.bind_eq, extend_bind_ensures_iff]
    by_cases hport : addr.port = 80
    · rw [if_neg (not_not.mpr hport)]
      show _ = buf ++ hostText (.v4 addr)
      rw [hostText, portSuffix, if_pos hport, dottedQuad]
      simp only [List.append_assoc, List.append_nil]
    · rw [if_pos hport, extend_bind_ensures_iff, extend_ensures_iff, hostText, portSuffix,
        if_neg hport, dottedQuad]
      simp only [List.append_assoc]

theorem digit_of_mem_numeral {n : Nat} {b : UInt8} (h : b ∈ numeral n) : (digit b).isSome = true :=
  List.all_eq_true.mp (isDecimal_numeral n).2 b h

theorem not_mem_numeral {b : UInt8} (hb : digit b = none) (n : Nat) : b ∉ numeral n := by
  intro h
  have hsome := digit_of_mem_numeral h
  rw [hb] at hsome
  cases hsome

/-- A text is cut at its first separator in one way. -/
theorem append_cons_inj {sep : UInt8} {x x' y y' : Bytes} (hx : sep ∉ x) (hx' : sep ∉ x')
    (h : x ++ sep :: y = x' ++ sep :: y') : x = x' ∧ y = y' := by
  induction x generalizing x' with
  | nil =>
    cases x' with
    | nil => exact ⟨rfl, (List.cons.inj h).2⟩
    | cons b x' =>
      have hsep := (List.cons.inj h).1
      exact absurd (hsep ▸ List.mem_cons_self) hx'
  | cons a x ih =>
    cases x' with
    | nil =>
      have hsep := (List.cons.inj h).1
      exact absurd (hsep ▸ List.mem_cons_self) hx
    | cons b x' =>
      obtain ⟨hab, hrest⟩ := List.cons.inj h
      obtain ⟨hxx, hyy⟩ := ih (fun hm => hx (List.mem_cons_of_mem _ hm))
        (fun hm => hx' (List.mem_cons_of_mem _ hm)) hrest
      exact ⟨by rw [hab, hxx], hyy⟩

theorem numeral_portSuffix_inj {m n : Nat} {p q : UInt16}
    (h : numeral m ++ portSuffix p = numeral n ++ portSuffix q) : m = n ∧ p = q := by
  have hcolon : ∀ k, (58 : UInt8) ∉ numeral k := not_mem_numeral (by decide)
  have hsuffix : ∀ r : UInt16, r ≠ 80 → portSuffix r = 58 :: numeral r.toNat := by
    intro r hr
    rw [portSuffix, if_neg hr]
    rfl
  by_cases hp : p = 80
  · by_cases hq : q = 80
    · rw [hp, hq] at h ⊢
      exact ⟨numeral_injective (List.append_cancel_right h), rfl⟩
    · rw [hsuffix q hq, hp, portSuffix, if_pos rfl, List.append_nil] at h
      exact absurd (h ▸ List.mem_append_right _ List.mem_cons_self) (hcolon m)
  · by_cases hq : q = 80
    · rw [hsuffix p hp, hq, portSuffix, if_pos rfl, List.append_nil] at h
      exact absurd (h ▸ List.mem_append_right _ List.mem_cons_self) (hcolon n)
    · rw [hsuffix p hp, hsuffix q hq] at h
      obtain ⟨hmn, hpq⟩ := append_cons_inj (hcolon m) (hcolon n) h
      exact ⟨numeral_injective hmn, UInt16.toNat_inj.mp (numeral_injective hpq)⟩

theorem dottedQuad_inj {a b : Vector UInt8 4} {p q : UInt16}
    (h : dottedQuad a ++ portSuffix p = dottedQuad b ++ portSuffix q) : a = b ∧ p = q := by
  have hdot : ∀ k, (46 : UInt8) ∉ numeral k := not_mem_numeral (by decide)
  have hchar : ascii "." = [46] := by decide
  simp only [dottedQuad, hchar, List.append_assoc, List.cons_append, List.nil_append] at h
  obtain ⟨h0, h⟩ := append_cons_inj (hdot _) (hdot _) h
  obtain ⟨h1, h⟩ := append_cons_inj (hdot _) (hdot _) h
  obtain ⟨h2, h⟩ := append_cons_inj (hdot _) (hdot _) h
  obtain ⟨h3, hport⟩ := numeral_portSuffix_inj h
  refine ⟨?_, hport⟩
  apply Vector.ext
  intro i hi
  apply UInt8.toNat_inj.mp
  match i, hi with
  | 0, _ => exact numeral_injective h0
  | 1, _ => exact numeral_injective h1
  | 2, _ => exact numeral_injective h2
  | 3, _ => exact h3

/-- A dotted quad begins with a digit. -/
theorem dottedQuad_ne_bracket (a : Vector UInt8 4) (text text' : Bytes) :
    dottedQuad a ++ text ≠ 91 :: text' := by
  intro h
  obtain ⟨b, bs, hb⟩ := List.exists_cons_of_ne_nil (isDecimal_numeral a[0].toNat).1
  have hdigit : (digit b).isSome = true := digit_of_mem_numeral (hb ▸ List.mem_cons_self)
  simp only [dottedQuad, hb, List.append_assoc, List.cons_append] at h
  rw [(List.cons.inj h).1] at hdigit
  exact absurd hdigit (by decide)

/-- The text for IPv6 has no place for a port. -/
theorem hasHost_v6_iff (addr : SocketAddrV6) :
    (SocketAddr.v6 addr).HasHost (ascii "[::1]") ↔ addr.port = 80 := by
  constructor
  · rintro ⟨literal, -, htext⟩
    by_contra hport
    rw [portSuffix, if_neg hport] at htext
    have hlast := congrArg List.getLast? htext
    obtain ⟨b, hb⟩ := Option.ne_none_iff_exists'.mp
      (fun hnone => (isDecimal_numeral addr.port.toNat).1 (List.getLast?_eq_none_iff.mp hnone))
    rw [← List.append_assoc, List.getLast?_append, hb, Option.some_or] at hlast
    have hdigit := digit_of_mem_numeral (List.mem_of_getLast? hb)
    have hclose : (ascii "[::1]").getLast? = some 93 := by decide
    rw [← Option.some.inj (hclose.symm.trans hlast)] at hdigit
    exact absurd hdigit (by decide)
  · intro hport
    have hone : IsHexGroup (ascii "1") := by
      refine ⟨by decide, by decide, ?_⟩
      intro b hb
      have hb : b = 49 := List.mem_singleton.mp hb
      rw [hb]
      exact Or.inl rfl
    refine ⟨ascii "::1", IsIpv6Literal.after (by decide) (.group hone), ?_⟩
    rw [portSuffix, if_pos hport]
    decide

end Text

/-- The pairs of addresses for which the text of `format_host` is right: an IPv6 address has the port of
HTTP, and a second one is the same. -/
def SocketAddr.Told : SocketAddr → SocketAddr → Prop
  | .v4 _, .v4 _ => True
  | .v4 _, .v6 b => b.port = 80
  | .v6 a, .v4 _ => a.port = 80
  | .v6 a, .v6 b => a.port = 80 ∧ b.port = 80 ∧ a.ip = b.ip

/-- Texts are equal for equal addresses only and are `Host` values of their addresses, whatever the
allocations do, exactly for those pairs. -/
theorem formatHost_identifies_iff (a b : SocketAddr)
    {env env' : Environment WireCall WireCall.Reply} {h h' : List (Event WireCall WireCall.Reply)}
    {s t : Bytes} (ha : ((formatHost a []).run env h).1 = .done s)
    (hb : ((formatHost b []).run env' h').1 = .done t) :
    ((s = t → a.ip = b.ip ∧ a.port = b.port) ∧ a.HasHost s ∧ b.HasHost t) ↔ a.Told b := by
  have hs := (formatHost_ensures a []).run_done ha
  have ht := (formatHost_ensures b []).run_done hb
  rw [List.nil_append] at hs ht
  subst hs ht
  cases a with
  | v4 a =>
    cases b with
    | v4 b =>
      refine iff_of_true ⟨fun heq => ?_, rfl, rfl⟩ trivial
      obtain ⟨hip, hport⟩ := dottedQuad_inj heq
      have hsame : a.ip = b.ip := congrArg Ipv4Addr.mk hip
      exact ⟨congrArg Sum.inl hsame, hport⟩
    | v6 b =>
      have hne : hostText (.v4 a) ≠ hostText (.v6 b) := dottedQuad_ne_bracket a.ip.octets _ _
      constructor
      · rintro ⟨-, -, hhost⟩
        exact (hasHost_v6_iff b).mp hhost
      · intro hport
        exact ⟨fun heq => absurd heq hne, rfl, (hasHost_v6_iff b).mpr hport⟩
  | v6 a =>
    cases b with
    | v4 b =>
      have hne : hostText (.v4 b) ≠ hostText (.v6 a) := dottedQuad_ne_bracket b.ip.octets _ _
      constructor
      · rintro ⟨-, hhost, -⟩
        exact (hasHost_v6_iff a).mp hhost
      · intro hport
        exact ⟨fun heq => absurd heq.symm hne, (hasHost_v6_iff a).mpr hport, rfl⟩
    | v6 b =>
      constructor
      · rintro ⟨hinj, hhost, hhost'⟩
        obtain ⟨hip, -⟩ := hinj rfl
        exact ⟨(hasHost_v6_iff a).mp hhost, (hasHost_v6_iff b).mp hhost', Sum.inr.inj hip⟩
      · rintro ⟨hport, hport', hip⟩
        refine ⟨fun _ => ⟨congrArg Sum.inr hip, hport.trans hport'.symm⟩,
          (hasHost_v6_iff a).mpr hport, (hasHost_v6_iff b).mpr hport'⟩

/-- An allocator that never fails. -/
def steadyWire : Environment WireCall WireCall.Reply := fun _ op => (accept [] op).1

theorem formatHost_identifies_localhost :
    let a := SocketAddr.v4 ⟨⟨#v[127, 0, 0, 1]⟩, 8080⟩
    let b := SocketAddr.v4 ⟨⟨#v[127, 0, 0, 1]⟩, 80⟩
    ((formatHost a []).run steadyWire []).1 = .done (ascii "127.0.0.1:8080") ∧
      ((formatHost b []).run steadyWire []).1 = .done (ascii "127.0.0.1") ∧
      a.HasHost (ascii "127.0.0.1:8080") ∧ b.HasHost (ascii "127.0.0.1") := by
  intro a b
  have ha : ((formatHost a []).run steadyWire []).1 = .done (ascii "127.0.0.1:8080") := by rfl
  have hb : ((formatHost b []).run steadyWire []).1 = .done (ascii "127.0.0.1") := by rfl
  obtain ⟨-, hhost, hhost'⟩ := (formatHost_identifies_iff a b ha hb).mpr trivial
  exact ⟨ha, hb, hhost, hhost'⟩

/-- Every IPv6 address is shown as the loopback address, without a port. -/
theorem formatHost_forgets_ipv6 :
    let a := SocketAddr.v6 ⟨⟨#v[0x20, 1, 0xd, 0xb8, 0, 0, 0, 0, 0, 0, 0, 0, 0, 0, 0, 2]⟩, 443, 0, 0⟩
    let b := SocketAddr.v6 ⟨⟨#v[0, 0, 0, 0, 0, 0, 0, 0, 0, 0, 0, 0, 0, 0, 0, 1]⟩, 8080, 0, 0⟩
    ((formatHost a []).run steadyWire []).1 = .done (ascii "[::1]") ∧
      ((formatHost b []).run steadyWire []).1 = .done (ascii "[::1]") ∧
      a.ip ≠ b.ip ∧ a.port ≠ b.port ∧ ¬ a.HasHost (ascii "[::1]") := by
  intro a b
  refine ⟨by rfl, by rfl, by decide, by decide, fun hhost => ?_⟩
  have hport := (hasHost_v6_iff _).mp hhost
  exact absurd hport (by decide)

end Rko
