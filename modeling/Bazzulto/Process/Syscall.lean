/-
  Process/Syscall.lean --- what all system calls share.

  Embeds the error numbers and `validate_user_pointer` (kernel/src/systemcalls/mod.rs) and
  `USER_ADDR_LIMIT` (kernel/src/process/mod.rs).
-/
import Mathlib.Data.BitVec

set_option autoImplicit false

namespace Bazzulto

def EPERM : Int := -1
def ENOENT : Int := -2
def EINTR : Int := -4
def EBADF : Int := -9
def EAGAIN : Int := -11
def ENOMEM : Int := -12
def EACCES : Int := -13
def EFAULT : Int := -14
def EEXIST : Int := -17
def ENODEV : Int := -19
def ENOTDIR : Int := -20
def EINVAL : Int := -22
def EMFILE : Int := -24
def ESPIPE : Int := -29
def EPIPE : Int := -32
def EMSGSIZE : Int := -90
def ESOCKTNOSUPPORT : Int := -94
def EAFNOSUPPORT : Int := -97
def ECONNREFUSED : Int := -111

/-- `USER_ADDR_LIMIT`: the first address past the user half. -/
def userAddrLimit : BitVec 64 := 0x0001000000000000#64

/-- `validate_user_pointer`: an end that wraps around is below the pointer, and is
rejected like one above the limit. -/
def validateUserPointer (pointer length : Nat) : Bool :=
  4096 ≤ pointer && pointer + length ≤ userAddrLimit.toNat

end Bazzulto
