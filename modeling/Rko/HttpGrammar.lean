import Rko.HttpHead
import Rko.HttpWire

namespace Rko

open IncrementalParser Wire

def Trimmed (v : Bytes) : Prop :=
  ∀ b : UInt8, v.head? = some b ∨ v.getLast? = some b → b ≠ 32 ∧ b ≠ 9

/-- What `httparse` takes in each place of a head. -/
structure HttpGrammar where
  target : Bytes → Prop
  fieldName : Bytes → Prop
  fieldValue : Bytes → Prop
  phrase : Bytes → Prop
  host_fieldName : fieldName HOST
  contentLength_fieldName : fieldName CONTENT_LENGTH
  decimal_fieldValue : ∀ v, IsDecimal v → fieldValue v
  reason_phrase : ∀ status, phrase (reason status)

structure HttpGrammar.Field (grammar : HttpGrammar) (h : Bytes × Bytes) : Prop where
  name : grammar.fieldName h.1
  value : grammar.fieldValue h.2
  trimmed : Trimmed h.2

def Version.number : Version → UInt8
  | .http10 => 0
  | .http11 => 1

@[simp] theorem Version.fromHttparse_number (version : Version) :
    Version.fromHttparse version.number = version := by cases version <;> rfl

/-- A head of the grammar is accepted at its last byte. That nothing is decided before follows for
every incremental parser. -/
def AcceptsRequests (grammar : HttpGrammar) (httparse : Httparse) : Prop :=
  ∀ (method : Method) (path : Bytes) (version : Version) (headers : Headers), grammar.target path →
    (∀ h ∈ headers, grammar.Field h) → headers.length ≤ 64 →
    httparse.parse (headBytes (requestLine method.asStr path version) headers) =
      .complete (headBytes (requestLine method.asStr path version) headers).length
        ⟨some method.asStr, some path, some version.number, headers⟩

def AcceptsResponses (grammar : HttpGrammar) (httparse : HttparseResponse) : Prop :=
  ∀ (version : Version) (code phrase : Bytes) (headers : Headers), IsDecimal code →
    code.length = 3 → grammar.phrase phrase → (∀ h ∈ headers, grammar.Field h) →
    headers.length ≤ 64 →
    httparse.parse (headBytes (statusLine version code phrase) headers) =
      .complete (headBytes (statusLine version code phrase) headers).length
        ⟨some version.number, some (decimalValue code).toUInt16, headers⟩

theorem cutAt_append {c : UInt8} {x : Bytes} (hx : c ∉ x) (y : Bytes) :
    cutAt c (x ++ c :: y) = some (x, y) := by
  induction x with
  | nil => rw [List.nil_append, cutAt, if_pos rfl]
  | cons a x ih =>
    rw [List.mem_cons, not_or] at hx
    rw [List.cons_append, cutAt, if_neg fun h => hx.1 h.symm, ih hx.2, Option.map_some]

theorem cutLine_append {line : Bytes} (hline : 13 ∉ line) (rest : Bytes) :
    cutLine (line ++ 13 :: 10 :: rest) = some (line, rest) := by
  rw [cutLine, cutAt_append hline]
  rfl

theorem dropWhile_of_head {p : UInt8 → Bool} {v : Bytes}
    (h : ∀ b, v.head? = some b → p b = false) : v.dropWhile p = v := by
  cases v with
  | nil => rfl
  | cons b v => rw [List.dropWhile_cons, h b rfl, if_neg (by decide)]

theorem trimBlanks_of_trimmed {v : Bytes} (h : Trimmed v) : trimBlanks (32 :: v) = v := by
  have hblank : ∀ b : UInt8, b ≠ 32 ∧ b ≠ 9 → (b == 32 || b == 9) = false := by
    intro b hb
    simp [hb.1, hb.2]
  have hhead : v.dropWhile (fun b => b == 32 || b == 9) = v :=
    dropWhile_of_head fun b hb => hblank b (h b (Or.inl hb))
  have hlast : v.reverse.dropWhile (fun b => b == 32 || b == 9) = v.reverse := by
    apply dropWhile_of_head
    intro b hb
    rw [List.head?_reverse] at hb
    exact hblank b (h b (Or.inr hb))
  have hfirst : (32 :: v).dropWhile (fun b : UInt8 => b == 32 || b == 9) =
      v.dropWhile (fun b => b == 32 || b == 9) := rfl
  simp only [trimBlanks, hfirst, hhead, hlast, List.reverse_reverse]

section Lines

variable {lines : List Bytes}

/-- The first empty line of a text with no other empty line is its end. -/
theorem terminator_last (hlines : ∀ l ∈ lines, l ≠ [] ∧ 13 ∉ l) {x y : Bytes}
    (h : x ++ 13 :: 10 :: 13 :: 10 :: y = lines.flatMap (· ++ [13, 10]) ++ [13, 10]) : y = [] := by
  induction lines generalizing x with
  | nil =>
    have hlen := congrArg List.length h
    simp at hlen
    omega
  | cons line lines ih =>
    obtain ⟨-, hcr⟩ := hlines line List.mem_cons_self
    have hlines' : ∀ l ∈ lines, l ≠ [] ∧ 13 ∉ l := fun l hl => hlines l (List.mem_cons_of_mem _ hl)
    -- the text behind this line cannot start with a line end unless it is the last one
    have hnext : 13 :: 10 :: y = lines.flatMap (· ++ [13, 10]) ++ [13, 10] → y = [] := by
      intro heq
      cases lines with
      | nil => simpa using heq
      | cons line' lines =>
        obtain ⟨hne, hcr'⟩ := hlines' line' List.mem_cons_self
        obtain ⟨b, line', rfl⟩ := List.exists_cons_of_ne_nil hne
        simp only [List.flatMap_cons, List.cons_append, List.cons.injEq] at heq
        exact absurd (heq.1 ▸ List.mem_cons_self) hcr'
    simp only [List.flatMap_cons, List.append_assoc] at h
    rcases List.append_eq_append_iff.mp h with ⟨c, hline, htext⟩ | ⟨c, hx, htext⟩
    · cases c with
      | nil =>
        simp only [List.nil_append, List.cons_append, List.cons.injEq, true_and] at htext
        exact hnext htext
      | cons b c =>
        simp only [List.cons_append, List.cons.injEq] at htext
        exact absurd (by rw [hline, ← htext.1]; simp) hcr
    · match c with
      | [] =>
        simp only [List.nil_append, List.cons_append, List.cons.injEq, true_and] at htext
        exact hnext htext.symm
      | [b] =>
        simp only [List.nil_append, List.cons_append, List.cons.injEq] at htext
        exact absurd htext.2.1 (by decide)
      | b :: b' :: c =>
        simp only [List.nil_append, List.cons_append, List.cons.injEq] at htext
        exact ih hlines' htext.2.2.symm

theorem endOf_lines (hlines : ∀ l ∈ lines, l ≠ [] ∧ 13 ∉ l) (hne : lines ≠ []) :
    endOf [13, 10, 13, 10] (lines.flatMap (· ++ [13, 10]) ++ [13, 10]) =
      some (lines.flatMap (· ++ [13, 10]) ++ [13, 10]).length := by
  refine endOf_eq_some.mpr ⟨Nat.le_refl _, ?_, fun j hj ⟨x, hx⟩ => ?_⟩
  · rw [List.take_length, ← List.dropLast_concat_getLast hne, List.flatMap_append]
    exact ⟨lines.dropLast.flatMap (· ++ [13, 10]) ++ lines.getLast hne, by simp⟩
  · have hsplit := List.take_append_drop j (lines.flatMap (· ++ [13, 10]) ++ [13, 10])
    rw [← hx, List.append_assoc] at hsplit
    have hnil : List.drop j _ = [] := terminator_last hlines hsplit
    have hle := List.drop_eq_nil_iff.mp hnil
    omega

end Lines

def fieldLine (h : Bytes × Bytes) : Bytes := h.1 ++ 58 :: 32 :: h.2

theorem headBytes_eq_lines (line : Bytes) (headers : Headers) :
    headBytes line headers =
      (line :: headers.map fieldLine).flatMap (· ++ [13, 10]) ++ [13, 10] := by
  have hcrlf : CRLF = [13, 10] := by decide
  have hcolon : ascii ": " = [58, 32] := by decide
  have hfields : headers.flatMap field = (headers.map fieldLine).flatMap (· ++ [13, 10]) := by
    rw [List.flatMap_map]
    congr 1
    funext h
    simp [field, fieldLine, hcrlf, hcolon]
  rw [headBytes, hfields, hcrlf, List.flatMap_cons]

theorem headBytes_eq_append (line : Bytes) (headers : Headers) :
    headBytes line headers =
      line ++ 13 :: 10 :: ((headers.map fieldLine).flatMap (· ++ [13, 10]) ++ [13, 10]) := by
  rw [headBytes_eq_lines, List.flatMap_cons]
  simp

/-- What the reference parser needs of a field. -/
structure PlainField (h : Bytes × Bytes) : Prop where
  name_ne : h.1 ≠ []
  name_colon : 58 ∉ h.1
  name_cr : 13 ∉ h.1
  value_cr : 13 ∉ h.2
  trimmed : Trimmed h.2

theorem PlainField.fieldLine {h : Bytes × Bytes} (hh : PlainField h) :
    fieldLine h ≠ [] ∧ 13 ∉ fieldLine h := by
  refine ⟨by simp [Rko.fieldLine], ?_⟩
  simp [Rko.fieldLine, hh.name_cr, hh.value_cr]

theorem decodeHeaders_fields {headers : Headers} (hheaders : ∀ h ∈ headers, PlainField h)
    {fuel : Nat} (hfuel : headers.length < fuel) :
    decodeHeaders fuel ((headers.map fieldLine).flatMap (· ++ [13, 10]) ++ [13, 10]) =
      some headers := by
  induction headers generalizing fuel with
  | nil =>
    obtain ⟨fuel, rfl⟩ : ∃ k, fuel = k + 1 := ⟨fuel - 1, by simp at hfuel; omega⟩
    rfl
  | cons h headers ih =>
    obtain ⟨fuel, rfl⟩ : ∃ k, fuel = k + 1 := ⟨fuel - 1, by omega⟩
    rw [List.length_cons] at hfuel
    have hh := hheaders h List.mem_cons_self
    have hrest := ih (fun x hx => hheaders x (List.mem_cons_of_mem _ hx)) (by omega : headers.length < fuel)
    obtain ⟨hne, hcr⟩ := hh.fieldLine
    have hline : cutAt 58 (fieldLine h) = some (h.1, 32 :: h.2) := cutAt_append hh.name_colon _
    rw [List.map_cons, List.flatMap_cons, List.append_assoc, List.append_assoc]
    simp only [decodeHeaders, List.cons_append, List.nil_append, cutLine_append hcr, hline, hrest,
      Option.bind_eq_bind, Option.bind_some, if_neg hne, if_neg hh.name_ne,
      trimBlanks_of_trimmed hh.trimmed]
    rfl

theorem length_fields_lt (headers : Headers) : headers.length <
    ((headers.map fieldLine).flatMap (· ++ [13, 10]) ++ [13, 10]).length := by
  induction headers with
  | nil => decide
  | cons h headers ih =>
    simp only [List.map_cons, List.flatMap_cons, List.length_append, List.length_cons,
      List.length_nil] at ih ⊢
    omega

/-- A head of plain fields ends with its empty line; how it is decoded is a matter of its first line
and its fields. -/
theorem terminated_headBytes {ρ : Type} {decode : Bytes → Option ρ} {raw : ρ} {line : Bytes}
    {headers : Headers} (hline : line ≠ [] ∧ 13 ∉ line) (hheaders : ∀ h ∈ headers, PlainField h)
    (hdecode : ∀ rest, cutLine (headBytes line headers) = some (line, rest) →
      decodeHeaders rest.length rest = some headers → decode (headBytes line headers) = some raw) :
    terminated (ascii "\r\n\r\n") decode (headBytes line headers) =
      .complete (headBytes line headers).length raw := by
  have hlines : ∀ l ∈ line :: headers.map fieldLine, l ≠ [] ∧ 13 ∉ l := by
    intro l hl
    rcases List.mem_cons.mp hl with rfl | hmem
    · exact hline
    · obtain ⟨h, hh, rfl⟩ := List.mem_map.mp hmem
      exact (hheaders h hh).fieldLine
  have hmark : ascii "\r\n\r\n" = [13, 10, 13, 10] := by decide
  have hend := endOf_lines hlines (List.cons_ne_nil _ _)
  rw [← headBytes_eq_lines, ← hmark] at hend
  refine terminated_eq_complete.mpr ⟨hend, ?_⟩
  rw [List.take_length]
  refine hdecode _ ?_ (decodeHeaders_fields hheaders (length_fields_lt headers))
  rw [headBytes_eq_append]
  exact cutLine_append hline.2 _

def isTchar (b : UInt8) : Bool :=
  (48 ≤ b && b ≤ 57) || (65 ≤ b && b ≤ 90) || (97 ≤ b && b ≤ 122) ||
    (ascii "!#$%&'*+-.^_`|~").contains b

def isVisible (b : UInt8) : Bool := 33 ≤ b && b ≤ 126

def isText (b : UInt8) : Bool := b == 9 || (32 ≤ b && b != 127)

theorem isText_of_digit {b : UInt8} (h : (digit b).isSome) : isText b = true := by
  unfold digit at h
  split at h
  next hb =>
    have hlow : (32 : UInt8) ≤ b := by
      have hle := UInt8.le_iff_toNat_le.mp hb.1
      exact UInt8.le_iff_toNat_le.mpr (Nat.le_trans (by decide) hle)
    have hne : b ≠ 127 := by
      rintro rfl
      exact absurd hb.2 (by decide)
    simp [isText, hlow, hne]
  next => cases h

/-- The grammar of the standard, without line folding. -/
def standardGrammar : HttpGrammar where
  target p := p ≠ [] ∧ p.all isVisible
  fieldName n := n ≠ [] ∧ n.all isTchar
  fieldValue v := v.all isText
  phrase v := v.all isText
  host_fieldName := by decide
  contentLength_fieldName := by decide
  decimal_fieldValue v hv :=
    List.all_eq_true.mpr fun b hb => isText_of_digit (List.all_eq_true.mp hv.2 b hb)
  reason_phrase status := by
    unfold reason
    split <;> decide

theorem not_mem_of_all {p : UInt8 → Bool} {v : Bytes} (h : v.all p = true) {b : UInt8}
    (hb : p b = false) : b ∉ v := by
  intro hmem
  have htrue := List.all_eq_true.mp h b hmem
  rw [hb] at htrue
  cases htrue

theorem plainField_of_standard {h : Bytes × Bytes} (hh : standardGrammar.Field h) :
    PlainField h where
  name_ne := hh.name.1
  name_colon := not_mem_of_all hh.name.2 (by decide)
  name_cr := not_mem_of_all hh.name.2 (by decide)
  value_cr := not_mem_of_all hh.value (by decide)
  trimmed := hh.trimmed

theorem acceptsRequests_headParser : AcceptsRequests standardGrammar headParser := by
  intro method path version headers hpath hheaders hcount
  have hversion : decodeVersion version.asStr = some version.number := by cases version <;> decide
  have hcr : 13 ∉ version.asStr := by cases version <;> decide
  have hmethod : method.asStr ≠ [] ∧ 32 ∉ method.asStr ∧ 13 ∉ method.asStr := by
    cases method <;> decide
  have hspace : ascii " " = [32] := by decide
  have hblank : 32 ∉ path := not_mem_of_all hpath.2 (by decide)
  have hpathcr : 13 ∉ path := not_mem_of_all hpath.2 (by decide)
  have hline : requestLine method.asStr path version =
      method.asStr ++ 32 :: (path ++ 32 :: version.asStr) := by simp [requestLine, hspace]
  have hplain : requestLine method.asStr path version ≠ [] ∧
      13 ∉ requestLine method.asStr path version := by
    rw [hline]
    exact ⟨by simp, by simp [hmethod.2.2, hpathcr, hcr]⟩
  have hlimit : ¬ (method.asStr = [] ∨ path = [] ∨ 64 < headers.length) := by
    simp only [hmethod.1, hpath.1, false_or]
    omega
  have hfirst : cutAt 32 (requestLine method.asStr path version) =
      some (method.asStr, path ++ 32 :: version.asStr) := by
    rw [hline]
    exact cutAt_append hmethod.2.1 _
  have hparser : headParser.parse = terminated (ascii "\r\n\r\n") decodeHead := rfl
  rw [hparser]
  apply terminated_headBytes hplain fun h hh => plainField_of_standard (hheaders h hh)
  intro rest hcut hfields
  simp only [decodeHead, hcut, hfirst, cutAt_append hblank, hversion, hfields, if_neg hlimit,
    Option.bind_eq_bind, Option.bind_some]
  rfl

/-- A status code has three digits. -/
def decodeStatus (b : Bytes) : Option RawResponse := do
  let (line, b) ← cutLine b
  let (version, line) ← cutAt 32 line
  let (code, _) ← cutAt 32 line
  let version ← decodeVersion version
  let headers ← decodeHeaders b.length b
  if ¬ IsDecimal code ∨ code.length ≠ 3 ∨ 64 < headers.length then failure
  return ⟨some version, some (decimalValue code).toUInt16, headers⟩

theorem emptyLine_ne_nil : ascii "\r\n\r\n" ≠ [] := by decide

/-- The counterpart of `headParser` for the head of a response. -/
def statusParser : HttparseResponse :=
  IncrementalParser.ofTerminator (ascii "\r\n\r\n") emptyLine_ne_nil decodeStatus

theorem acceptsResponses_statusParser : AcceptsResponses standardGrammar statusParser := by
  intro version code phrase headers hcode hdigits hphrase hheaders hcount
  have hversion : decodeVersion version.asStr = some version.number := by cases version <;> decide
  have hstart : version.asStr ≠ [] ∧ 32 ∉ version.asStr ∧ 13 ∉ version.asStr := by
    cases version <;> decide
  have hspace : ascii " " = [32] := by decide
  have hblank : 32 ∉ code := not_mem_of_all hcode.2 (by decide)
  have hcodecr : 13 ∉ code := not_mem_of_all hcode.2 (by decide)
  have hphrasecr : 13 ∉ phrase := not_mem_of_all hphrase (by decide)
  have hline : statusLine version code phrase =
      version.asStr ++ 32 :: (code ++ 32 :: phrase) := by simp [statusLine, hspace]
  have hplain : statusLine version code phrase ≠ [] ∧ 13 ∉ statusLine version code phrase := by
    rw [hline]
    exact ⟨by simp, by simp [hstart.2.2, hcodecr, hphrasecr]⟩
  have hlimit : ¬ (¬ IsDecimal code ∨ code.length ≠ 3 ∨ 64 < headers.length) := by
    simp only [hcode, hdigits, not_true_eq_false, ne_eq, false_or]
    omega
  have hfirst : cutAt 32 (statusLine version code phrase) =
      some (version.asStr, code ++ 32 :: phrase) := by
    rw [hline]
    exact cutAt_append hstart.2.1 _
  have hparser : statusParser.parse = terminated (ascii "\r\n\r\n") decodeStatus := rfl
  rw [hparser]
  apply terminated_headBytes hplain fun h hh => plainField_of_standard (hheaders h hh)
  intro rest hcut hfields
  simp only [decodeStatus, hcut, hfirst, cutAt_append hblank, hversion, hfields, if_neg hlimit,
    Option.bind_eq_bind, Option.bind_some]
  rfl

end Rko
