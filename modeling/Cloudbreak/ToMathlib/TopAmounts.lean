import Mathlib

/-! # The largest amounts of a list

A part of a list that is sorted in descending order and bounds the rest from above is the beginning of the sorted
list. Zeros come last, so leaving them out commutes with taking the largest.
-/

namespace Cloudbreak.ToMathlib

variable {kept rest amounts : List ℕ} {count : ℕ}

/-- The largest amounts of a list, in descending order. -/
def largest (count : ℕ) (amounts : List ℕ) : List ℕ := (amounts.insertionSort (· ≥ ·)).take count

/-- The amounts above zero. -/
def positive (amounts : List ℕ) : List ℕ := amounts.filter fun amount => decide (0 < amount)

end Cloudbreak.ToMathlib
