import Cloudbreak.ToMathlib.WhileLoop

/-! # Numerals with the most significant digit first

Digits are read from the left by multiplying and adding, and written from the right by a loop that divides. Reading
forgets leading zeros, and so writing what was read leaves the digits without them.
-/

namespace Cloudbreak.ToMathlib.Positional

variable {α : Type*} {base number : ℕ} {digits : List ℕ}

/-- The number that digits stand for. -/
def value (base : ℕ) (digits : List ℕ) : ℕ := digits.foldl (fun number digit => number * base + digit) 0

/-- The digits of a number, without leading zeros. -/
def numeral (base number : ℕ) : List ℕ := (Nat.digits base number).reverse

theorem value_eq_ofDigits (base : ℕ) (digits : List ℕ) : value base digits = Nat.ofDigits base digits.reverse := by
  rw [value, Nat.ofDigits_eq_foldr, List.foldr_reverse]
  refine congrFun (congrFun (congrArg List.foldl ?_) 0) digits
  funext number digit
  rw [Nat.cast_id, Nat.mul_comm, Nat.add_comm]

theorem value_numeral (base number : ℕ) : value base (numeral base number) = number := by
  rw [value_eq_ofDigits, numeral, List.reverse_reverse, Nat.ofDigits_digits]

theorem value_zero_cons (base : ℕ) (digits : List ℕ) : value base (0 :: digits) = value base digits := by
  rw [value, List.foldl_cons, Nat.zero_mul]
  rfl

theorem value_replicate_zero_append (base count : ℕ) (digits : List ℕ) :
    value base (List.replicate count 0 ++ digits) = value base digits := by
  induction count with
  | zero => rfl
  | succ count ih => rw [List.replicate_succ, List.cons_append, value_zero_cons, ih]

theorem lt_of_mem_numeral (one_lt : 1 < base) {digit : ℕ} (member : digit ∈ numeral base number) : digit < base :=
  Nat.digits_lt_base one_lt (List.mem_reverse.mp member)

theorem head?_numeral (base number : ℕ) : (numeral base number).head? ≠ some 0 := by
  rw [numeral, List.head?_reverse]
  intro leading
  rcases Nat.eq_zero_or_pos number with rfl | positive
  · rw [Nat.digits_zero] at leading
    cases leading
  · have filled : Nat.digits base number ≠ [] := Nat.digits_ne_nil_iff_ne_zero.mpr (Nat.ne_of_gt positive)
    rw [List.getLast?_eq_some_getLast filled] at leading
    exact Nat.getLast_digit_ne_zero base (Nat.ne_of_gt positive) (Option.some.inj leading)

/-- The last digit is the remainder. -/
theorem numeral_eq_append (one_lt : 1 < base) (positive : number ≠ 0) :
    numeral base number = numeral base (number / base) ++ [number % base] := by
  rw [numeral, Nat.digits_eq_cons_digits_div one_lt positive, List.reverse_cons]
  rfl

theorem numeral_of_lt (positive : number ≠ 0) (small : number < base) : numeral base number = [number] := by
  rw [numeral, Nat.digits_of_lt base number positive small]
  rfl

/-- Reading and writing drops the leading zeros. -/
theorem numeral_value (one_lt : 1 < base) (small : ∀ digit ∈ digits, digit < base) :
    numeral base (value base digits) = digits.dropWhile (· = 0) := by
  induction digits with
  | nil => rw [value, List.foldl_nil, numeral, Nat.digits_zero, List.reverse_nil, List.dropWhile_nil]
  | cons digit rest ih =>
    rw [List.forall_mem_cons] at small
    by_cases zero : digit = 0
    · rw [zero, value_zero_cons, ih small.2, List.dropWhile_cons_of_pos (by simp)]
    · rw [List.dropWhile_cons_of_neg (by simpa using zero), value_eq_ofDigits, numeral,
        Nat.digits_ofDigits base one_lt _ (fun other member => ?_) fun filled => ?_, List.reverse_reverse]
      · rcases List.mem_cons.mp (List.mem_reverse.mp member) with rfl | later
        · exact small.1
        · exact small.2 other later
      · rw [List.getLast_reverse]
        exact zero

/-! ## The division loop -/

/-- One turn: the remainder is written in front of what was written before. -/
def divide (base : ℕ) (write : ℕ → List α) (state : ℕ × List α) : ℕ × List α :=
  ((state.1 - state.1 % base) / base, write (state.1 % base) ++ state.2)

theorem sub_mod_div (number : ℕ) (positive : 0 < base) : (number - number % base) / base = number / base := by
  have split := Nat.div_add_mod number base
  have whole : number - number % base = base * (number / base) := by omega
  rw [whole, Nat.mul_div_cancel_left _ positive]

/-- The loop ends below its threshold with the digits of what is left still to write. -/
theorem exists_whileLoop_divide (one_lt : 1 < base) (write : ℕ → List α) {threshold : ℕ} (positive : 0 < threshold)
    {turns : ℕ} (enough : number < turns) :
    ∃ last, whileLoop (fun state : ℕ × List α => decide (threshold ≤ state.1)) (divide base write) turns
        (number, []) = some last ∧
      last.1 < threshold ∧
      (numeral base last.1).flatMap write ++ last.2 = (numeral base number).flatMap write := by
  have filled : ∀ state : ℕ × List α, decide (threshold ≤ state.1) = true → state.1 ≠ 0 := fun state again =>
    Nat.ne_of_gt (positive.trans_le (of_decide_eq_true again))
  have kept : ∀ state : ℕ × List α, decide (threshold ≤ state.1) = true →
      (numeral base state.1).flatMap write ++ state.2 = (numeral base number).flatMap write →
      (numeral base (divide base write state).1).flatMap write ++ (divide base write state).2 =
        (numeral base number).flatMap write := by
    intro state again same
    rw [numeral_eq_append one_lt (filled state again), List.flatMap_append, List.flatMap_singleton,
      List.append_assoc] at same
    rw [divide, sub_mod_div _ (Nat.zero_lt_of_lt one_lt)]
    exact same
  have lowers : ∀ state : ℕ × List α, decide (threshold ≤ state.1) = true → (divide base write state).1 < state.1 := by
    intro state again
    rw [divide, sub_mod_div _ (Nat.zero_lt_of_lt one_lt)]
    exact Nat.div_lt_self (Nat.pos_of_ne_zero (filled state again)) one_lt
  obtain ⟨last, ended, stopped, same⟩ := exists_whileLoop
    (fun state => (numeral base state.1).flatMap write ++ state.2 = (numeral base number).flatMap write) Prod.fst kept
    lowers (List.append_nil _) (show (number, ([] : List α)).1 < turns from enough)
  exact ⟨last, ended, Nat.lt_of_not_le (of_decide_eq_false stopped), same⟩

end Cloudbreak.ToMathlib.Positional
