/-!
Spans of time: whole seconds in 64 bits and nanoseconds below one second. A product too
long for that is the longest span.
-/

namespace Upkeep

structure Duration where
  seconds : UInt64
  nanos : Nat
  nanos_lt : nanos < 1000000000 := by omega
  deriving DecidableEq, Repr

namespace Duration

def nanosPerSecond : Nat := 1000000000

def toNanos (d : Duration) : Nat := d.seconds.toNat * nanosPerSecond + d.nanos

/-- The longest span. -/
def max : Duration := ⟨UInt64.ofNat (Nat.pow 2 64 - 1), 999999999, by omega⟩

def zero : Duration := ⟨0, 0, by omega⟩

def ofSeconds (s : UInt64) : Duration := ⟨s, 0, by omega⟩

def ofMillis (ms : UInt64) : Duration :=
  ⟨ms / 1000, (ms % 1000).toNat * 1000000, by
    have h : (ms % 1000).toNat < 1000 := by
      have := UInt64.toNat_mod ms 1000
      have h1000 : (1000 : UInt64).toNat = 1000 := rfl
      rw [this, h1000]
      exact Nat.mod_lt _ (by decide)
    omega⟩

/-- `d` taken `n` times: nanoseconds carry into seconds, and the longest span is the limit. -/
def saturatingMul (d : Duration) (n : Nat) : Duration :=
  let nanos := d.nanos * n
  let seconds := d.seconds.toNat * n + nanos / nanosPerSecond
  if seconds < Nat.pow 2 64 then
    ⟨UInt64.ofNat seconds, nanos % nanosPerSecond, Nat.mod_lt _ (by decide)⟩
  else max

def isZero (d : Duration) : Bool := d.seconds == 0 && d.nanos == 0

end Duration

/-- The sum of two 64-bit counts, the greatest count when it has no room. -/
def saturatingAdd (a b : UInt64) : UInt64 :=
  if a.toNat + b.toNat < Nat.pow 2 64 then a + b else UInt64.ofNat (Nat.pow 2 64 - 1)

end Upkeep
