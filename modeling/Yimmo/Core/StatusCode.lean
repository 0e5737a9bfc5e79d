import Mathlib.Init

/-!
# Status codes

`ymo_status_t` is an `errno` value or `YMO_OKAY`.  Only the codes that the
library itself returns or inspects are named; a user callback may return any
other non-zero value.
-/

namespace Yimmo.Core.StatusCode

/-- The non-zero values of `ymo_status_t`. -/
inductive Errno where
  | eagain
  | ewouldblock
  | ebadmsg
  | einval
  | efbig
  | enomem
  | epipe
  | eproto
  | enotsup
  | eprotonosupport
  | enoprotoopt
  | eprototype
  | other (code : Nat)
deriving DecidableEq, Repr

/-- `ymo_status_t`. -/
inductive Status where
  | okay
  | err (errno : Errno)
deriving DecidableEq, Repr

/-- `YMO_WOULDBLOCK`. -/
def ymoWouldblock : Status :=
  .err .ewouldblock

/-- `YMO_IS_BLOCKED`. -/
def ymoIsBlocked : Status → Bool
  | .err .eagain => true
  | .err .ewouldblock => true
  | _ => false

@[simp]
theorem ymoIsBlocked_okay : ymoIsBlocked .okay = false :=
  rfl

@[simp]
theorem ymoIsBlocked_ymoWouldblock : ymoIsBlocked ymoWouldblock = true :=
  rfl

end Yimmo.Core.StatusCode
