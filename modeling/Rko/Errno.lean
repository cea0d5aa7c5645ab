import Mathlib.Tactic.Ring
import Rko.CallProgram

namespace Rko

open CallProgram

abbrev CInt := BitVec 32

abbrev Ptr := BitVec 64

structure Error where
  val : CInt
deriving DecidableEq, Repr

namespace Error

/-- The crate is built in release mode, so the negation wraps. -/
def new (errno : CInt) : Error := ⟨-errno⟩

def toErrno (e : Error) : CInt := e.val

def EPERM : Error := new 1
def ENOENT : Error := new 2
def EIO : Error := new 5
def ENXIO : Error := new 6
def E2BIG : Error := new 7
def EAGAIN : Error := new 11
def ENOMEM : Error := new 12
def EFAULT : Error := new 14
def EBUSY : Error := new 16
def EEXIST : Error := new 17
def EINVAL : Error := new 22
def ERANGE : Error := new 34
def ENAMETOOLONG : Error := new 36
def ECONNRESET : Error := new 104
def ESTALE : Error := new 116

/-- Zero and positive values fall back to `EINVAL`. -/
def fromErrno (errno : CInt) : Error := if errno.msb then ⟨errno⟩ else EINVAL

end Error

structure Errno where
  num : Nat
  pos : 1 ≤ num
  le : num ≤ 4095
deriving DecidableEq, Repr

def errPtr (error : BitVec 64) : Ptr := error

def ptrErr (p : Ptr) : BitVec 64 := p

def isErr (p : Ptr) : Bool := decide (2 ^ 64 - 4095 ≤ p.toNat)

def Errno.ptr (e : Errno) : Ptr := errPtr (-(BitVec.ofNat 64 e.num))

def Errno.int (e : Errno) : CInt := -(BitVec.ofNat 32 e.num)

theorem Errno.ptr_toNat (e : Errno) : e.ptr.toNat = 2 ^ 64 - e.num := by
  have hp := e.pos
  have hl := e.le
  simp only [Errno.ptr, errPtr, BitVec.toNat_neg, BitVec.toNat_ofNat]
  omega

theorem Errno.isErr_ptr (e : Errno) : isErr e.ptr = true := by
  have hl := e.le
  simp only [isErr, e.ptr_toNat, decide_eq_true_eq]
  omega

theorem Errno.truncate_ptr (e : Errno) : (ptrErr e.ptr).truncate 32 = e.int := by
  have hp := e.pos
  have hl := e.le
  apply BitVec.eq_of_toNat_eq
  simp only [ptrErr, BitVec.truncate, BitVec.toNat_setWidth, e.ptr_toNat, Errno.int,
    BitVec.toNat_neg, BitVec.toNat_ofNat]
  omega

/-- Negating a negative errno once more makes it positive. -/
theorem Error.new_int (e : Errno) : (Error.new e.int).toErrno = BitVec.ofNat 32 e.num := by
  simp [Error.new, Error.toErrno, Errno.int]

theorem ofNat_toInt {n : Nat} (hn : n < 2 ^ 31) : (BitVec.ofNat 32 n).toInt = n := by
  rw [BitVec.toInt_eq_toNat_cond, BitVec.toNat_ofNat]
  split <;> omega

theorem Errno.ofNat_toInt (e : Errno) : (BitVec.ofNat 32 e.num).toInt = e.num := by
  have hl := e.le
  exact Rko.ofNat_toInt (by omega)

theorem Errno.int_toInt (e : Errno) : e.int.toInt = -e.num := by
  have hp := e.pos
  have hl := e.le
  rw [Errno.int, BitVec.toInt_neg, e.ofNat_toInt]
  simp only [Int.bmod_def]
  omega

/-- `from_result`: what a trampoline returns for an `int`; a panic returns nothing. -/
def fromResult : Outcome Error Unit → Option CInt
  | .done _ => some 0
  | .failed e => some e.toErrno
  | .aborted => none

def toErrPtr : Outcome Error Ptr → Option Ptr
  | .done p => some p
  | .failed e => some (errPtr (e.toErrno.signExtend 64))
  | .aborted => none

end Rko
