/-!
# Error codes

The codes of `dt_err.h`. C returns them as integers, and some handlers return integers that are
not among the enumerators, so `raw` carries any other value.
-/

namespace DirtieNode

/-- `DT_ERR_E`. -/
inductive DtErr where
  | ok
  | flashmemsize
  | invalidkey
  | corrupt
  | malloc
  | valsize
  | keynotfound
  | macaddr
  | lwiperr
  | openserver
  | i2cinit
  | tooManyLogs
  | offline
  | raw (value : Int)
  deriving DecidableEq, Repr

/-- The integer that C passes around. -/
def DtErr.code : DtErr → Int
  | .ok => 0
  | .flashmemsize => 1
  | .invalidkey => 2
  | .corrupt => 3
  | .malloc => 4
  | .valsize => 5
  | .keynotfound => 6
  | .macaddr => 7
  | .lwiperr => 8
  | .openserver => 9
  | .i2cinit => 10
  | .tooManyLogs => 11
  | .offline => 12
  | .raw value => value

/-- An integer returned where a code is expected. -/
def DtErr.ofInt (value : Int) : DtErr :=
  match value with
  | 0 => .ok
  | 1 => .flashmemsize
  | 2 => .invalidkey
  | 3 => .corrupt
  | 4 => .malloc
  | 5 => .valsize
  | 6 => .keynotfound
  | 7 => .macaddr
  | 8 => .lwiperr
  | 9 => .openserver
  | 10 => .i2cinit
  | 11 => .tooManyLogs
  | 12 => .offline
  | value => .raw value

/-- The enumerators and the integers agree. -/
theorem DtErr.ofInt_code (err : DtErr) (h : ∀ value, err ≠ .raw value) :
    DtErr.ofInt err.code = err := by
  cases err with
  | raw value => exact absurd rfl (h value)
  | _ => rfl

end DirtieNode
