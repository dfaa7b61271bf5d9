import Upkeep.Time.Duration

/-!
Start delays by place in an enumeration. Each is one stagger longer than the one before, until places no
longer add to a delay or the longest delay is reached.
-/

namespace Upkeep

/-- The greatest place that still adds to a delay. -/
def maxPlace : Nat := Nat.pow 2 32 - 1

/-- The start delay at a place in an enumeration. -/
def startDelay (stagger : Duration) (index : Nat) : Duration :=
  stagger.saturatingMul (min index maxPlace)

end Upkeep
