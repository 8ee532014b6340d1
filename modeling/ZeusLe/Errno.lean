import Mathlib.Data.Int.Notation

/-! The error codes of `errno.h` that the firmware returns. -/

namespace ZeusLe

def enoent : Int := 2
def ebadf : Int := 9
def ebusy : Int := 16
def enodev : Int := 19
def einval : Int := 22
def enospc : Int := 28
def erange : Int := 34
def enomsg : Int := 35
def enametoolong : Int := 91
def econnreset : Int := 104
def ealready : Int := 120
def enotsup : Int := 134
def eoverflow : Int := 139
def ecanceled : Int := 140

theorem neg_einval : -einval < 0 := by decide

end ZeusLe
