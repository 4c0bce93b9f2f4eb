/-!
# Timestamps

Points in time as seconds since the Unix epoch and nanoseconds on top of them. The nanoseconds of a
leap second run on past a whole second, so that `23:59:60.5` is the last second of its day with
1.5 · 10⁹ nanoseconds. Any second may be followed by a leap second, as the minutes of a place need not
end with those of the epoch; a point in time given by its parts has it at the end of a minute only.
-/

namespace Tabular

/-- A point in time of the supported range. -/
@[ext]
structure Timestamp where
  /-- Whole seconds since the epoch, rounded down. -/
  seconds : Int
  nanos : Nat
  seconds_ge : -8334601228800 ≤ seconds
  seconds_le : seconds ≤ 8210266876799
  nanos_lt : nanos < 2000000000
deriving DecidableEq, Repr

namespace Timestamp

/-- The point in time with these parts, if there is one whose leap second ends a minute. -/
def ofParts? (seconds : Int) (nanos : Nat) : Option Timestamp :=
  if h : (-8334601228800 ≤ seconds ∧ seconds ≤ 8210266876799) ∧
      nanos < 2000000000 ∧ (1000000000 ≤ nanos → seconds % 60 = 59) then
    some ⟨seconds, nanos, h.1.1, h.1.2, h.2.1⟩
  else none

/-- Whole milliseconds since the epoch; a leap second counts like the time just after it. -/
def millis (t : Timestamp) : Int :=
  t.seconds * 1000 + (t.nanos / 1000000 : Nat)

/-- The point in time with this many milliseconds since the epoch, never a leap second. -/
def ofMillis? (m : Int) : Option Timestamp :=
  ofParts? (m / 1000) ((m % 1000).toNat * 1000000)

def truncate (t : Timestamp) : Timestamp where
  seconds := t.seconds
  nanos := t.nanos - t.nanos % 1000000
  seconds_ge := t.seconds_ge
  seconds_le := t.seconds_le
  nanos_lt := Nat.lt_of_le_of_lt (Nat.sub_le _ _) t.nanos_lt

@[simp]
theorem truncate_truncate (t : Timestamp) : t.truncate.truncate = t.truncate := by
  ext
  · rfl
  · simp only [truncate]; omega

@[simp]
theorem millis_truncate (t : Timestamp) : t.truncate.millis = t.millis := by
  simp only [millis, truncate]; omega

end Timestamp

end Tabular
