/-!
# Powers of two and ten
-/

namespace MetricBoard

/-- Two to a power. -/
abbrev twoTo (n : Nat) : Nat := Nat.pow 2 n

/-- Ten to a power. -/
abbrev tenTo (n : Nat) : Nat := Nat.pow 10 n

end MetricBoard
