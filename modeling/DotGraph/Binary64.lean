namespace DotGraph.Binary64

/-! The natural numbers among the floating point numbers of 64 bits, which have 53 significant
bits. -/

/-- From here on a number is rounded beyond the largest floating point number. -/
def bound : Nat :=
  Nat.pow 2 1024 - Nat.pow 2 970

/-- The last of the significant bits of a number. -/
def unit (n : Nat) : Nat :=
  Nat.pow 2 (n.log2 + 1 - 53)

/-- The nearest number of 53 significant bits; a number halfway goes to the even one. -/
def nearest (n : Nat) : Nat :=
  let quotient := n / unit n
  let remainder := n % unit n
  if 2 * remainder < unit n ∨ 2 * remainder = unit n ∧ quotient % 2 = 0 then quotient * unit n
  else (quotient + 1) * unit n

end DotGraph.Binary64
