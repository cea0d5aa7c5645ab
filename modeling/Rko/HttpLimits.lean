import Rko.HttpHead
import Rko.HttpStream

namespace Rko

open CallProgram IncrementalParser

/-- `httparse` copies nothing: what it reports are slices of the bytes it was given, and the header
array it fills has 64 slots. -/
structure ReturnsSlices (httparse : Httparse) : Prop where
  headers_le : ∀ {b n raw}, httparse.parse b = .complete n raw → raw.headers.length ≤ 64
  path : ∀ {b n raw path}, httparse.parse b = .complete n raw → raw.path = some path → path <:+: b
  header : ∀ {b n raw h}, httparse.parse b = .complete n raw → h ∈ raw.headers →
    h.1 <:+: b ∧ h.2 <:+: b

theorem cutAt_eq {c : UInt8} {b x y : Bytes} (h : cutAt c b = some (x, y)) : b = x ++ c :: y := by
  induction b generalizing x with
  | nil => cases h
  | cons a b ih =>
    rw [cutAt] at h
    split at h
    next hac =>
      cases Option.some.inj h
      rw [hac, List.nil_append]
    next =>
      obtain ⟨⟨x', y'⟩, hcut, heq⟩ := Option.map_eq_some_iff.mp h
      cases heq
      rw [ih hcut, List.cons_append]

theorem cutLine_eq {b line rest : Bytes} (h : cutLine b = some (line, rest)) :
    b = line ++ 13 :: 10 :: rest := by
  unfold cutLine at h
  split at h
  next line' rest' hcut =>
    cases Option.some.inj h
    exact cutAt_eq hcut
  next => cases h

theorem trimBlanks_slice (v : Bytes) : trimBlanks v <:+: v := by
  have hback : ∀ (w : Bytes) (blank : UInt8 → Bool), (w.reverse.dropWhile blank).reverse <+: w := by
    intro w blank
    rw [← List.reverse_suffix, List.reverse_reverse]
    exact List.dropWhile_suffix blank
  exact (hback _ _).isInfix.trans (List.dropWhile_suffix _).isInfix

theorem decodeHeaders_slices {fuel : Nat} {b : Bytes} {headers : Headers}
    (h : decodeHeaders fuel b = some headers) :
    ∀ x ∈ headers, x.1 <:+: b ∧ x.2 <:+: b := by
  induction fuel generalizing b headers with
  | zero => cases h
  | succ fuel ih =>
    simp only [decodeHeaders, Option.bind_eq_bind, Option.bind_eq_some_iff] at h
    obtain ⟨⟨line, rest⟩, hline, h⟩ := h
    have hb := cutLine_eq hline
    simp only at h
    split at h
    next =>
      cases Option.some.inj h
      exact fun x hx => by cases hx
    next =>
      simp only [Option.bind_eq_some_iff] at h
      obtain ⟨⟨name, value⟩, hcut, h⟩ := h
      have hl := cutAt_eq hcut
      simp only at h
      split at h
      next => simp [failure] at h
      next =>
        simp only [Option.bind_eq_some_iff] at h
        obtain ⟨hs, hrest, h⟩ := h
        cases Option.some.inj h
        have hline' : line <:+: b := ⟨[], 13 :: 10 :: rest, by simp [hb]⟩
        have hrest' : rest <:+: b := ⟨line ++ [13, 10], [], by simp [hb]⟩
        intro x hx
        rcases List.mem_cons.mp hx with rfl | hmem
        · have hname : name <:+: line := ⟨[], 58 :: value, by simp [hl]⟩
          have hvalue : value <:+: line := ⟨name ++ [58], [], by simp [hl]⟩
          exact ⟨hname.trans hline', ((trimBlanks_slice value).trans hvalue).trans hline'⟩
        · obtain ⟨hname, hvalue⟩ := ih hrest x hmem
          exact ⟨hname.trans hrest', hvalue.trans hrest'⟩

theorem returnsSlices_headParser : ReturnsSlices headParser := by
  have hslices : ∀ {b n raw}, headParser.parse b = .complete n raw →
      raw.headers.length ≤ 64 ∧ (∀ path, raw.path = some path → path <:+: b) ∧
        ∀ h ∈ raw.headers, h.1 <:+: b ∧ h.2 <:+: b := by
    intro b n raw h
    have htake : b.take n <:+: b := (List.take_prefix n b).isInfix
    have hdec := (terminated_eq_complete.mp h).2
    simp only [decodeHead, Option.bind_eq_bind, Option.bind_eq_some_iff] at hdec
    obtain ⟨⟨line, rest⟩, hline, ⟨method, line'⟩, hmethod, ⟨path, version⟩, hpath, v, -, headers,
      hheaders, hdec⟩ := hdec
    have hb := cutLine_eq hline
    have hl := cutAt_eq hmethod
    have hl' := cutAt_eq hpath
    simp only at hb hl hl' hheaders hdec
    split at hdec
    next => simp [failure] at hdec
    next hok =>
      cases Option.some.inj hdec
      have hrest : rest <:+: b.take n := ⟨line ++ [13, 10], [], by simp [hb]⟩
      have hinline : path <:+: b.take n :=
        ⟨method ++ [32], 32 :: version ++ 13 :: 10 :: rest, by simp [hb, hl, hl']⟩
      refine ⟨Nat.le_of_not_lt fun hlt => hok (Or.inr (Or.inr hlt)), fun path' hp => ?_,
        fun h hh => ?_⟩
      · cases Option.some.inj hp
        exact hinline.trans htake
      · obtain ⟨hname, hvalue⟩ := decodeHeaders_slices hheaders h hh
        exact ⟨(hname.trans hrest).trans htake, (hvalue.trans hrest).trans htake⟩
  exact ⟨fun h => (hslices h).1, fun h => (hslices h).2.1 _, fun h => (hslices h).2.2 _⟩

structure WithinLimits (config : ServerConfig) (request : Request) : Prop where
  headers_le : request.headers.length ≤ 64
  path_le : request.path.length ≤ config.maxHeaderSize
  name_le : ∀ h ∈ request.headers, h.1.length ≤ config.maxHeaderSize
  value_le : ∀ h ∈ request.headers, h.2.length ≤ config.maxHeaderSize
  body_le : request.body.length ≤ config.maxBodySize

theorem BufReader.fill_ensures (r : BufReader) :
    r.fill.Ensures fun x => x.2.capacity = r.capacity ∧
      ∀ n, x.1 = .ok n → r.data.length < x.2.data.length := by
  unfold BufReader.fill
  simp only
  split
  next => exact ⟨r.compact_capacity, fun n hn => by cases hn⟩
  next =>
    intro reply
    cases reply with
    | error e => exact ⟨r.compact_capacity, fun n hn => by cases hn⟩
    | ok read =>
      obtain ⟨bytes, hbytes⟩ := read
      simp only [Program.done_bind]
      split
      next => exact ⟨r.compact_capacity, fun n hn => by cases hn⟩
      next hsome =>
        refine ⟨(r.compact.push_capacity bytes hbytes).trans r.compact_capacity, fun n _ => ?_⟩
        have hpos : 0 < bytes.length := List.length_pos_iff.mpr hsome
        rw [BufReader.push_data, List.length_append, r.compact_data]
        omega

theorem allocate_ensures : HttpProgram.allocate.Ensures fun _ => True := by
  intro r
  cases r <;> trivial

theorem Headers.insertAll_ensures (headers : Headers) (hs : List (Bytes × Bytes)) :
    (headers.insertAll hs).Ensures fun headers' => headers' = headers ++ hs := by
  induction hs generalizing headers with
  | nil => exact (List.append_nil headers).symm
  | cons h hs ih =>
    have hinsert : (headers.insert h.1 h.2).Ensures fun o =>
        ∀ headers', o = some headers' → headers' = headers ++ [h] := by
      intro a
      cases a with
      | false => exact fun headers' hh => by cases hh
      | true =>
        intro a
        cases a with
        | false => exact fun headers' hh => by cases hh
        | true =>
          intro a
          cases a with
          | false => exact fun headers' hh => by cases hh
          | true => exact fun headers' hh => (Option.some.inj hh).symm
    apply hinsert.bind
    intro o ho
    cases o with
    | none => trivial
    | some headers' =>
      have heq := ho headers' rfl
      refine (ih headers').mono fun headers'' hend => ?_
      rw [hend, heq, List.append_assoc, List.singleton_append]

theorem readRest_ensures (body : Bytes) {fuel remaining : Nat} (hfuel : remaining ≤ fuel) :
    (readRest fuel remaining body).Ensures fun b => b.length = body.length + remaining := by
  induction fuel generalizing remaining body with
  | zero =>
    have hzero : remaining = 0 := by omega
    subst hzero
    exact rfl
  | succ fuel ih =>
    cases remaining with
    | zero => exact rfl
    | succ remaining =>
      apply allocate_ensures.bind
      intro _ _ reply
      cases reply with
      | error e => trivial
      | ok read =>
        obtain ⟨bytes, hbytes⟩ := read
        simp only [Program.done_bind]
        split
        next => trivial
        next hsome =>
          have hpos : 0 < bytes.length := List.length_pos_iff.mpr hsome
          apply allocate_ensures.bind
          intro _ _
          refine (ih (body ++ bytes) (by omega)).mono fun b hb => ?_
          rw [hb, List.length_append]
          omega

theorem readBody_ensures (reader : BufReader) (contentLength maxBodySize : Nat) :
    (readBody reader contentLength maxBodySize).Ensures fun x => x.1.length ≤ maxBodySize := by
  unfold readBody
  split
  next => exact Nat.zero_le _
  next =>
    split
    next => trivial
    next hmax =>
      apply allocate_ensures.bind
      intro _ _
      apply allocate_ensures.bind
      intro _ _
      apply (readRest_ensures _ (Nat.le_refl _)).bind
      intro body hbody
      have htake : (reader.data.take (min reader.data.length contentLength)).length =
          min reader.data.length contentLength := by
        rw [List.length_take]
        omega
      show body.length ≤ maxBodySize
      omega

theorem acceptRequest_ensures (config : ServerConfig) {r : BufReader} {n : Nat} (raw : RawRequest)
    (hn : n ≤ r.data.length) :
    (acceptRequest config r n raw).Ensures fun x =>
      x.1.path = raw.path.getD (ascii "/") ∧ x.1.headers = raw.headers ∧
        x.1.body.length ≤ config.maxBodySize := by
  unfold acceptRequest
  cases Method.parse (raw.method.getD []) with
  | none => trivial
  | some method =>
    apply allocate_ensures.bind
    intro _ _
    apply (Headers.insertAll_ensures [] raw.headers).bind
    intro headers hheaders
    simp only [dif_pos hn]
    split
    next => trivial
    next =>
      apply (readBody_ensures _ _ _).bind
      intro x hx
      exact ⟨rfl, hheaders, hx⟩

section Loop

variable {ρ γ : Type} {parser : IncrementalParser UInt8 ρ} {maxHeaderSize capacity : Nat}
  {accept : BufReader → Nat → ρ → HttpProgram γ} {Q : γ → Prop}

/-- The rounds of the loop are enough, and it returns what it makes of a complete head. -/
theorem parseLoop_ensures {fuel : Nat} {r : BufReader} (hcap : r.capacity = capacity)
    (hfuel : capacity < r.data.length + fuel)
    (haccept : ∀ r n raw, r.capacity = capacity → parser.parse r.data = .complete n raw →
      (accept r n raw).Ensures Q) :
    (parseLoop parser maxHeaderSize accept fuel r).Ensures Q := by
  induction fuel generalizing r with
  | zero =>
    have hlen := r.length_data_le
    omega
  | succ fuel ih =>
    apply r.fill_ensures.bind
    rintro ⟨filled, r'⟩ ⟨hcap', hgrow⟩
    cases filled with
    | error e => trivial
    | ok count =>
      have hlt := hgrow count rfl
      simp only at hcap' hlt ⊢
      cases hverdict : parser.parse r'.data with
      | invalid => trivial
      | complete n raw => exact haccept r' n raw (hcap'.trans hcap) hverdict
      | needMore =>
        rw [onVerdict]
        split
        next => trivial
        next => exact ih (hcap'.trans hcap) (by omega)

end Loop

theorem parseRequest_ensures {httparse : Httparse} (hslices : ReturnsSlices httparse)
    {config : ServerConfig} {reader : BufReader} (hcap : reader.capacity = config.maxHeaderSize) :
    (parseRequest httparse config reader).Ensures fun x => WithinLimits config x.1 := by
  apply parseLoop_ensures hcap (by omega)
  intro r n raw hr hparse
  have hn := httparse.complete_le hparse
  have hpos := httparse.complete_pos hparse
  have hle := r.length_data_le
  refine (acceptRequest_ensures config raw hn).mono fun x ⟨hpath, hheaders, hbody⟩ => ?_
  refine ⟨hheaders ▸ hslices.headers_le hparse, ?_, fun h hh => ?_, fun h hh => ?_, hbody⟩
  · rw [hpath]
    cases hraw : raw.path with
    | none =>
      have hone : (ascii "/").length = 1 := rfl
      rw [Option.getD_none, hone]
      omega
    | some path =>
      have hslice := (hslices.path hparse hraw).length_le
      rw [Option.getD_some]
      omega
  · have hslice := (hslices.header hparse (hheaders ▸ hh)).1.length_le
    omega
  · have hslice := (hslices.header hparse (hheaders ▸ hh)).2.length_le
    omega

end Rko
