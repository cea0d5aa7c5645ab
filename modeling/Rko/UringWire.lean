import Mathlib.Algebra.Order.BigOperators.Group.List
import Rko.Decoder
import Rko.HttpFraming
import Rko.HttpLimits
import Rko.Uring

namespace Rko

open CallProgram Decoder

def leValue : Bytes → Nat
  | [] => 0
  | b :: bs => b.toNat + 256 * leValue bs

@[simp] theorem length_leBytes (n v : Nat) : (leBytes n v).length = n := by
  induction n generalizing v with
  | zero => rfl
  | succ n ih => rw [leBytes, List.length_cons, ih]

theorem leValue_leBytes {n v : Nat} (h : v < 256 ^ n) : leValue (leBytes n v) = v := by
  induction n generalizing v with
  | zero =>
    have hv : v = 0 := by simpa using h
    rw [hv]
    rfl
  | succ n ih =>
    have hdiv : v / 256 < 256 ^ n := by
      rw [Nat.pow_succ] at h
      omega
    have hlow : v.toUInt8.toNat = v % 256 := by simp
    rw [leBytes, leValue, ih hdiv, hlow]
    omega

/-- A little-endian number of `n` bytes. -/
def le (n : Nat) : Decoder UInt8 Nat := leValue <$> take n

theorem decodes_le {n v : Nat} (h : v < 256 ^ n) : Decodes (le n) (leBytes n v) v := by
  have htake := (decodes_take (leBytes n v)).map leValue
  rwa [length_leBytes, leValue_leBytes h] at htake

structure RequestHdr where
  reqId : Nat
  method : Nat
  version : Nat
  headerCount : Nat
  pathLen : Nat
  bodyLen : Nat
  totalLen : Nat
deriving DecidableEq, Repr

/-- The request buffer as user space finds it. -/
structure RequestBuffer where
  hdr : RequestHdr
  version : Version
  path : Bytes
  headers : Headers
  body : Bytes
deriving DecidableEq, Repr

def versionOfU8 : Nat → Option Version
  | 10 => some .http10
  | 11 => some .http11
  | _ => none

def decodeHdr : Decoder UInt8 RequestHdr := do
  let reqId ← le 8
  let method ← le 1
  let version ← le 1
  let headerCount ← le 2
  let pathLen ← le 4
  let bodyLen ← le 4
  let totalLen ← le 4
  return ⟨reqId, method, version, headerCount, pathLen, bodyLen, totalLen⟩

def decodeHeaderEntry : Decoder UInt8 (Bytes × Bytes) := do
  let nameLen ← le 2
  let valueLen ← le 2
  let name ← take nameLen
  let value ← take valueLen
  return (name, value)

/-- The layout that is documented for user space. -/
def decodeRequest : Decoder UInt8 RequestBuffer := do
  let hdr ← decodeHdr
  let version ← ofOption (versionOfU8 hdr.version)
  let path ← take hdr.pathLen
  let headers ← times decodeHeaderEntry hdr.headerCount
  let body ← take hdr.bodyLen
  return ⟨hdr, version, path, headers, body⟩

/-- Every number that `serialize_request` casts fits the field it is cast to. -/
structure FieldsFit (request : Request) : Prop where
  headerCount : request.headers.length < 2 ^ 16
  nameLen : ∀ h ∈ request.headers, h.1.length < 2 ^ 16
  valueLen : ∀ h ∈ request.headers, h.2.length < 2 ^ 16
  pathLen : request.path.length < 2 ^ 32
  bodyLen : request.body.length < 2 ^ 32
  totalLen : serializedLen request < 2 ^ 32

def requestHdr (reqId : UInt64) (request : Request) : RequestHdr where
  reqId := reqId.toNat
  method := methodToU8 request.method
  version := versionToU8 request.version
  headerCount := request.headers.length
  pathLen := request.path.length
  bodyLen := request.body.length
  totalLen := serializedLen request

theorem length_serializeHeaders (headers : Headers) :
    (serializeHeaders headers).length =
      (headers.map fun h => headerEntrySize + h.1.length + h.2.length).sum := by
  induction headers with
  | nil => rfl
  | cons h headers ih =>
    have hcons : serializeHeaders (h :: headers) =
        leBytes 2 h.1.length ++ leBytes 2 h.2.length ++ h.1 ++ h.2 ++ serializeHeaders headers := rfl
    simp only [hcons, List.length_append, length_leBytes, ih, List.map_cons, List.sum_cons,
      headerEntrySize]

theorem length_serializeRequest (reqId : UInt64) (request : Request) :
    (serializeRequest reqId request).length = serializedLen request := by
  simp only [serializeRequest, List.length_append, length_leBytes, length_serializeHeaders,
    serializedLen, requestHdrSize]

theorem decodes_headerEntry {h : Bytes × Bytes} (hname : h.1.length < 2 ^ 16)
    (hvalue : h.2.length < 2 ^ 16) :
    Decodes decodeHeaderEntry (leBytes 2 h.1.length ++ leBytes 2 h.2.length ++ h.1 ++ h.2) h := by
  simp only [List.append_assoc]
  apply (decodes_le hname).bind
  apply (decodes_le hvalue).bind
  apply (decodes_take h.1).bind
  exact (decodes_take h.2).last (Decodes.pure h)

theorem decodes_hdr (reqId : UInt64) {request : Request} (h : FieldsFit request) :
    Decodes decodeHdr
      (leBytes 8 reqId.toNat ++ leBytes 1 (methodToU8 request.method) ++
        leBytes 1 (versionToU8 request.version) ++ leBytes 2 request.headers.length ++
        leBytes 4 request.path.length ++ leBytes 4 request.body.length ++
        leBytes 4 (serializedLen request)) (requestHdr reqId request) := by
  have hid : reqId.toNat < 256 ^ 8 := reqId.toNat_lt
  have hmethod : methodToU8 request.method < 256 ^ 1 := by cases request.method <;> decide
  have hversion : versionToU8 request.version < 256 ^ 1 := by cases request.version <;> decide
  simp only [List.append_assoc]
  apply (decodes_le hid).bind
  apply (decodes_le hmethod).bind
  apply (decodes_le hversion).bind
  apply (decodes_le h.headerCount).bind
  apply (decodes_le h.pathLen).bind
  apply (decodes_le h.bodyLen).bind
  exact (decodes_le h.totalLen).last (Decodes.pure (requestHdr reqId request))

/-- A request whose numbers fit is read back whole, and nothing is left of the buffer. -/
theorem decodes_request (reqId : UInt64) {request : Request} (h : FieldsFit request) :
    Decodes decodeRequest (serializeRequest reqId request)
      ⟨requestHdr reqId request, request.version, request.path, request.headers, request.body⟩ := by
  have hversion : versionOfU8 (versionToU8 request.version) = some request.version := by
    cases request.version <;> rfl
  have hheaders : Decodes (times decodeHeaderEntry request.headers.length)
      (serializeHeaders request.headers) request.headers :=
    decodes_times fun x hx => decodes_headerEntry (h.nameLen x hx) (h.valueLen x hx)
  rw [serializeRequest, List.append_assoc, List.append_assoc]
  apply (decodes_hdr reqId h).bind
  apply (decodes_ofOption hversion).bind
  apply (decodes_take request.path).bind
  apply hheaders.bind
  exact (decodes_take request.body).last (Decodes.pure _)

theorem fieldsFit_of_limits {request : Request} (h : WithinLimits .default request) :
    FieldsFit request := by
  have hcount := h.headers_le
  have hpath : request.path.length ≤ 8192 := h.path_le
  have hbody : request.body.length ≤ 1024 * 1024 := h.body_le
  have hname : ∀ x ∈ request.headers, x.1.length ≤ 8192 := h.name_le
  have hvalue : ∀ x ∈ request.headers, x.2.length ≤ 8192 := h.value_le
  have hsum : (request.headers.map fun x => headerEntrySize + x.1.length + x.2.length).sum ≤
      request.headers.length * 16388 := by
    have hle := List.sum_le_card_nsmul
      (request.headers.map fun x => headerEntrySize + x.1.length + x.2.length) 16388
    rw [List.length_map] at hle
    apply hle
    intro n hn
    obtain ⟨x, hx, rfl⟩ := List.mem_map.mp hn
    have h1 := hname x hx
    have h2 := hvalue x hx
    simp only [headerEntrySize]
    omega
  refine ⟨by omega, fun x hx => ?_, fun x hx => ?_, by omega, by omega, ?_⟩
  · have := hname x hx
    omega
  · have := hvalue x hx
    omega
  · simp only [serializedLen, requestHdrSize]
    omega

/-- What `parse_request` returns reaches user space unchanged: the limits of the parser are what
makes the casts of the serializer lossless. -/
theorem decodeRequest_serializeRequest {httparse : Httparse} (hslices : ReturnsSlices httparse)
    {reader reader' : BufReader} (hcap : reader.capacity = ServerConfig.default.maxHeaderSize)
    {σ : Type} {answer : Responder σ HttpCall HttpCall.Reply} {s s' : σ} {request : Request}
    (hparse : (parseRequest httparse .default reader).exec answer s =
      (.done (request, reader'), s')) (reqId : UInt64) :
    FieldsFit request ∧ ∃ buffer,
      decodeRequest.run (serializeRequest reqId request) = some (buffer, []) ∧
      buffer.hdr.reqId = reqId.toNat ∧ buffer.hdr.method = methodToU8 request.method ∧
      buffer.version = request.version ∧ buffer.path = request.path ∧
      buffer.headers = request.headers ∧ buffer.body = request.body ∧
      buffer.hdr.totalLen = (serializeRequest reqId request).length := by
  have hlimits : WithinLimits .default request := (parseRequest_ensures hslices hcap).exec hparse
  have hfit := fieldsFit_of_limits hlimits
  refine ⟨hfit, _, (decodes_request reqId hfit).run, rfl, rfl, rfl, rfl, rfl, rfl, ?_⟩
  exact (length_serializeRequest reqId request).symm

def postedBytes : Bytes := ascii "POST /a HTTP/1.1\r\nContent-Length: 2\r\n\r\nhi"

def posted : Request :=
  ⟨.post, ascii "/a", .http11, [(ascii "Content-Length", ascii "2")], ascii "hi"⟩

theorem decodeRequest_serializeRequest_posted :
    FieldsFit posted ∧ ∃ buffer,
      decodeRequest.run (serializeRequest 7 posted) = some (buffer, []) ∧
      buffer.hdr.reqId = 7 ∧ buffer.hdr.method = 2 ∧ buffer.version = .http11 ∧
      buffer.path = ascii "/a" ∧ buffer.headers = [(ascii "Content-Length", ascii "2")] ∧
      buffer.body = ascii "hi" ∧ buffer.hdr.totalLen = (serializeRequest 7 posted).length := by
  have hframe : frame headParser .default 8192 postedBytes = .ok (posted, []) := by rfl
  obtain ⟨r', p', hrun, -⟩ := (parseRequest_of_frame (fun _ _ => ⟨200, .http11, [], []⟩) [] []
    (by decide) (by decide : 0 < ServerConfig.default.maxHeaderSize) hframe).of_ok
  exact decodeRequest_serializeRequest returnsSlices_headParser (BufReader.empty_capacity 8192)
    hrun 7

end Rko
