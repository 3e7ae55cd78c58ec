import Mathlib.Data.Int.Notation

/-! # Strings and instants

Go's `string` and `time` values. Durations are exact numbers of nanoseconds and
do not saturate.
-/

namespace Go

abbrev Str := List Char

abbrev Time := ℤ

abbrev Duration := ℤ

def second : Duration := 1000000000

def minute : Duration := 60 * second

def hour : Duration := 60 * minute

/-- The conversion of a signed number to `uint32`. -/
def toUint32 (x : ℤ) : UInt32 := UInt32.ofNat (x % 4294967296).toNat

theorem toNat_toUint32 (x : ℤ) : ((toUint32 x).toNat : ℤ) = x % 4294967296 := by
  rw [toUint32, UInt32.toNat_ofNat']
  omega

/-- The zero value of `time.Time`, the first instant of the year 1. -/
def zeroTime : Time := -62135596800 * second

/-- `Time.Unix`: the whole seconds since the epoch, where the instants start. -/
def unix (t : Time) : ℤ := t / second

theorem unix_le_unix {s t : Time} (h : s ≤ t) : unix s ≤ unix t :=
  Int.ediv_le_ediv (by decide) h

end Go
