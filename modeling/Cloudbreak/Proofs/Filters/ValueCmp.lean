import Cloudbreak.Model.Filters.ValueCmp

/-! # When value comparisons are exact

The bounds check of a read adds the width less one to the offset, so an offset at the end of the `usize`
range overflows before the check is made. Everything else about a comparison is exact. A comparison is
described here by mathematical integers, and the model's reads, parses and comparisons are shown to
compute that description wherever the addition stays in range.
-/

namespace Cloudbreak.Model.Filters

/-- The number that a run of digits stands for, after the digits read so far. -/
def decimalFrom (value : ℕ) (digits : List Char) : ℕ :=
  digits.foldl (fun value digit => value * 10 + (digit.toNat - '0'.toNat)) value

/-- The text of an unsigned number: at least one digit, after an optional plus sign. -/
def Numeral (text : String) (value : ℕ) : Prop :=
  ∃ digits : List Char, (text.toList = digits ∨ text.toList = '+' :: digits) ∧ digits ≠ [] ∧
    (∀ digit ∈ digits, digit.isDigit = true) ∧ decimalFrom 0 digits = value

/-- The relation that a comparator names. -/
def Comparator.Relates : Comparator → ℕ → ℕ → Prop
  | .eq, left, right => left = right
  | .ne, left, right => left ≠ right
  | .gt, left, right => right < left
  | .ge, left, right => right ≤ left
  | .lt, left, right => left < right
  | .le, left, right => left ≤ right

/-- The number that an operand stands for beside a value of the given type. -/
def Operand.Denotes (data : Slice) (valueType : ValueType) : Operand → ℕ → Prop
  | .mem offset ownType, value => ownType = valueType ∧ offset.val + ownType.width ≤ data.val.length ∧
      value = LittleEndian.ofBytes ((data.val.drop offset).take ownType.width)
  | .constant text, value => Numeral text value ∧ value < 256 ^ valueType.width

def Operand.IsMem : Operand → Prop
  | .mem _ _ => True
  | .constant _ => False

/-- What a comparison says of the data, in mathematical integers. -/
def ValueCmp.Holds (cmp : ValueCmp) (data : Slice) : Prop :=
  cmp.left.IsMem ∧ ∃ valueType left right, cmp.left.Denotes data valueType left ∧
    cmp.right.Denotes data valueType right ∧ cmp.comparator.Relates left right

/-- The addition in the operand's bounds check stays in range. -/
def Operand.Addressable : Operand → Prop
  | .mem offset valueType => offset.val + (valueType.width - 1) < 2 ^ 64
  | .constant _ => True

def Operand.InBounds (data : Slice) : Operand → Prop
  | .mem offset valueType => offset.val + valueType.width ≤ data.val.length
  | .constant _ => False

/-- Every bounds check that evaluating the comparison makes stays in range: the left operand's when it
is memory, and then the right operand's when the left one is in bounds. -/
def ValueCmp.Addressable (cmp : ValueCmp) (data : Slice) : Prop :=
  cmp.left.IsMem → cmp.left.Addressable ∧ (cmp.left.InBounds data → cmp.right.Addressable)

variable {Memcmp : Type}

/-- Every comparison that `all` reaches, past comparisons that hold, stays in range. -/
def Addressable (data : Slice) (filters : List (RpcFilterType Memcmp)) : Prop :=
  ∀ passed cmp rest, filters = passed ++ .valueCmp cmp :: rest →
    (∀ other, .valueCmp other ∈ passed → ValueCmp.Holds other data) → cmp.Addressable data

/-! ## Parsing -/

private theorem le_decimalFrom (value : ℕ) (digits : List Char) : value ≤ decimalFrom value digits := by
  induction digits generalizing value with
  | nil => exact le_refl value
  | cons digit digits ih =>
    have step := ih (value * 10 + (digit.toNat - '0'.toNat))
    simp only [decimalFrom, List.foldl_cons] at step ⊢
    omega

private theorem foldlM_takeDigit {limit value : ℕ} (small : value < limit) (digits : List Char) (result : ℕ) :
    digits.foldlM (takeDigit limit) value = some result ↔
      (∀ digit ∈ digits, digit.isDigit = true) ∧ decimalFrom value digits = result ∧ result < limit := by
  induction digits generalizing value with
  | nil =>
    simp only [List.foldlM_nil, Option.pure_def, Option.some.injEq, List.not_mem_nil, false_implies,
      implies_true, true_and, decimalFrom, List.foldl_nil]
    constructor
    · rintro rfl
      exact ⟨rfl, small⟩
    · exact fun reads => reads.1
  | cons digit digits ih =>
    rw [List.foldlM_cons, takeDigit]
    split
    · next taken =>
      rw [Option.bind_eq_bind, Option.bind_some, ih taken.2]
      simp only [List.forall_mem_cons, taken.1, true_and]
      rfl
    · next refused =>
      simp only [Option.bind_eq_bind, Option.bind_none, reduceCtorEq, List.forall_mem_cons, false_iff]
      rintro ⟨⟨isDigit, -⟩, rfl, below⟩
      -- the parsed number is at least its own first digits, which already reach the limit
      have reached := le_decimalFrom (value * 10 + (digit.toNat - '0'.toNat)) digits
      exact refused ⟨isDigit, lt_of_le_of_lt reached below⟩

private theorem numeral_iff (text : String) (value : ℕ) :
    Numeral text value ↔ digitsOf text.toList ≠ [] ∧
      (∀ digit ∈ digitsOf text.toList, digit.isDigit = true) ∧
      decimalFrom 0 (digitsOf text.toList) = value := by
  constructor
  · rintro ⟨digits, written, nonempty, areDigits, rfl⟩
    have read : digitsOf text.toList = digits := by
      rcases written with plain | signed
      · rw [plain]
        cases digits with
        | nil => exact absurd rfl nonempty
        | cons digit digits =>
          have notSign : digit ≠ '+' := by
            rintro rfl
            exact absurd (areDigits '+' (List.mem_cons_self ..)) (by decide)
          rw [digitsOf]
          rintro rest same
          exact notSign (List.cons.inj same).1
      · rw [signed, digitsOf]
    rw [read]
    exact ⟨nonempty, areDigits, rfl⟩
  · rintro ⟨nonempty, areDigits, rfl⟩
    refine ⟨digitsOf text.toList, ?_, nonempty, areDigits, rfl⟩
    generalize text.toList = characters
    rw [digitsOf.eq_def]
    split
    · exact Or.inr rfl
    · exact Or.inl rfl

private theorem parseUnsigned_eq_some {limit : ℕ} (positive : 0 < limit) (text : String) (value : ℕ) :
    parseUnsigned limit text = some value ↔ Numeral text value ∧ value < limit := by
  rw [numeral_iff, parseUnsigned]
  split
  · next empty => simp [empty]
  · next nonempty =>
    rw [foldlM_takeDigit positive]
    simp only [ne_eq, nonempty, not_false_eq_true, true_and, and_assoc]

private theorem parseConstant_eq_ok (width : ℕ) (text : String) (value : Unsigned width) :
    parseConstant width text = .ok value ↔ Numeral text value ∧ value.val < 256 ^ width := by
  have parsed := parseUnsigned_eq_some (Nat.pow_pos (by omega) : 0 < 256 ^ width) text
  rw [← parsed value.val, parseConstant]
  split
  · next number found =>
    have bound := ((parsed number).mp found).2
    simp only [bound, ↓reduceDIte, Except.ok.injEq, found, Option.some.injEq, Fin.ext_iff]
  · next missing => simp [missing]

/-! ## Reads -/

def WrappedValueType.valueType : WrappedValueType → ValueType
  | .u8 _ => .u8
  | .u16 _ => .u16
  | .u32 _ => .u32
  | .u64 _ => .u64
  | .u128 _ => .u128

def WrappedValueType.number : WrappedValueType → ℕ
  | .u8 value => value
  | .u16 value => value
  | .u32 value => value
  | .u64 value => value
  | .u128 value => value

theorem checkedAdd_of_lt {left right : ℕ} (ranged : left + right < 2 ^ 64) :
    checkedAdd left right = some (left + right) := if_pos ranged

private theorem checkedAdd_of_le {left right : ℕ} (overflow : 2 ^ 64 ≤ left + right) :
    checkedAdd left right = none := if_neg (Nat.not_lt.mpr overflow)

private theorem slice_of_le {data : Slice} {start width : ℕ} (bound : start + width ≤ data.val.length) :
    slice data start (start + width) = some ((data.val.drop start).take width) := by
  rw [slice, if_pos ⟨by omega, bound⟩, Nat.add_sub_cancel_left]

private theorem fromLeBytes_slice {data : Slice} {start width : ℕ} (bound : start + width ≤ data.val.length) :
    ∃ value : Unsigned width, fromLeBytes width ((data.val.drop start).take width) = some value ∧
      value.val = LittleEndian.ofBytes ((data.val.drop start).take width) := by
  have length : ((data.val.drop start).take width).length = width := by
    rw [List.length_take, List.length_drop]
    omega
  exact ⟨_, dif_pos length, rfl⟩

private theorem parseWide_spec (data : Slice) (offset : U64) {width : ℕ} (positive : 0 < width) :
    (2 ^ 64 ≤ offset.val + (width - 1) ∧ parseWide data offset width = none) ∨
    (offset.val + (width - 1) < 2 ^ 64 ∧ data.val.length < offset.val + width ∧
      parseWide data offset width = some (.error .invalidValueCmp)) ∨
    (offset.val + (width - 1) < 2 ^ 64 ∧ offset.val + width ≤ data.val.length ∧
      ∃ value : Unsigned width, parseWide data offset width = some (.ok value) ∧
        value.val = LittleEndian.ofBytes ((data.val.drop offset).take width)) := by
  have shorter := data.property
  rcases lt_or_ge (offset.val + (width - 1)) (2 ^ 64) with ranged | overflow
  · right
    rcases lt_or_ge data.val.length (offset.val + width) with outside | inside
    · left
      have past : offset.val + (width - 1) ≥ data.val.length := by omega
      refine ⟨ranged, outside, ?_⟩
      simp [parseWide, checkedAdd_of_lt ranged, past]
    · right
      have before : ¬ data.val.length ≤ offset.val + (width - 1) := by omega
      have stop : offset.val + width < 2 ^ 64 := by omega
      obtain ⟨value, read, exact_value⟩ := fromLeBytes_slice inside
      refine ⟨ranged, inside, value, ?_, exact_value⟩
      simp [parseWide, checkedAdd_of_lt ranged, checkedAdd_of_lt stop, before, slice_of_le inside, read]
  · left
    refine ⟨overflow, ?_⟩
    simp [parseWide, checkedAdd_of_le overflow]

private theorem parseByte_spec (data : Slice) (offset : U64) :
    (data.val.length < offset.val + 1 ∧ parseByte data offset = some (.error .invalidValueCmp)) ∨
    (offset.val + 1 ≤ data.val.length ∧
      ∃ value : Unsigned 1, parseByte data offset = some (.ok value) ∧
        value.val = LittleEndian.ofBytes ((data.val.drop offset).take 1)) := by
  rcases lt_or_ge data.val.length (offset.val + 1) with outside | inside
  · left
    refine ⟨outside, ?_⟩
    rw [parseByte, if_pos (by omega)]
  · right
    obtain ⟨value, read, exact_value⟩ := fromLeBytes_slice inside
    refine ⟨inside, value, ?_, exact_value⟩
    rw [parseByte, if_neg (by omega)]
    simp [slice_of_le inside, read]

/-- Reading memory panics exactly when its bounds check overflows, and otherwise is exact. -/
def ReadsExactly (data : Slice) (offset : U64) (valueType : ValueType) : Prop :=
  (¬ (Operand.mem offset valueType).Addressable ∧
    parseMemIntoValueType data (.mem offset valueType) = none) ∨
  ((Operand.mem offset valueType).Addressable ∧ ¬ (Operand.mem offset valueType).InBounds data ∧
    parseMemIntoValueType data (.mem offset valueType) = some (.error .invalidValueCmp)) ∨
  ((Operand.mem offset valueType).Addressable ∧ (Operand.mem offset valueType).InBounds data ∧
    ∃ value, parseMemIntoValueType data (.mem offset valueType) = some (.ok value) ∧
      value.valueType = valueType ∧
      value.number = LittleEndian.ofBytes ((data.val.drop offset).take valueType.width))

theorem readsExactly_of_wide {data : Slice} {offset : U64} {valueType : ValueType}
    (wrap : Unsigned valueType.width → WrappedValueType) (positive : 0 < valueType.width)
    (reads : parseMemIntoValueType data (.mem offset valueType) =
      (parseWide data offset valueType.width).map (Except.map wrap))
    (ofType : ∀ value, (wrap value).valueType = valueType) (number : ∀ value, (wrap value).number = value.val) :
    ReadsExactly data offset valueType := by
  rw [ReadsExactly, reads]
  rcases parseWide_spec data offset positive with ⟨overflow, read⟩ | ⟨ranged, outside, read⟩ |
      ⟨ranged, inside, value, read, exact_value⟩
  · exact Or.inl ⟨Nat.not_lt.mpr overflow, by rw [read]; rfl⟩
  · exact Or.inr (Or.inl ⟨ranged, Nat.not_le.mpr outside, by rw [read]; rfl⟩)
  · exact Or.inr (Or.inr ⟨ranged, inside, wrap value, by rw [read]; rfl, ofType value,
      (number value).trans exact_value⟩)

theorem parseMemIntoValueType_spec (data : Slice) (offset : U64) (valueType : ValueType) :
    ReadsExactly data offset valueType := by
  cases valueType with
  | u8 =>
    have ranged : (Operand.mem offset .u8).Addressable := offset.isLt
    rcases parseByte_spec data offset with ⟨outside, read⟩ | ⟨inside, value, read, exact_value⟩
    · refine Or.inr (Or.inl ⟨ranged, Nat.not_le.mpr outside, ?_⟩)
      rw [parseMemIntoValueType, read]
      rfl
    · refine Or.inr (Or.inr ⟨ranged, inside, .u8 value, ?_, rfl, exact_value⟩)
      rw [parseMemIntoValueType, read]
      rfl
  | u16 => exact readsExactly_of_wide .u16 (by decide) rfl (fun _ => rfl) (fun _ => rfl)
  | u32 => exact readsExactly_of_wide .u32 (by decide) rfl (fun _ => rfl) (fun _ => rfl)
  | u64 => exact readsExactly_of_wide .u64 (by decide) rfl (fun _ => rfl) (fun _ => rfl)
  | u128 => exact readsExactly_of_wide .u128 (by decide) rfl (fun _ => rfl) (fun _ => rfl)

/-! ## Comparisons -/

theorem compare_eq_true {width : ℕ} (comparator : Comparator) (left right : Unsigned width) :
    comparator.compare left right = true ↔ comparator.Relates left right := by
  cases comparator <;>
    simp [Comparator.compare, Comparator.Relates, Fin.ext_iff]

private theorem compareMem_eq_true (comparator : Comparator) (left right : WrappedValueType) :
    ValueCmp.compareMem comparator left right = .ok true ↔
      right.valueType = left.valueType ∧ comparator.Relates left.number right.number := by
  cases left <;> cases right <;>
    simp [ValueCmp.compareMem, WrappedValueType.valueType, WrappedValueType.number, compare_eq_true]

private theorem map_parseConstant {width : ℕ} (comparator : Comparator) (text : String) (left : Unsigned width) :
    (parseConstant width text).map (comparator.compare left) = .ok true ↔
      ∃ right, (Numeral text right ∧ right < 256 ^ width) ∧ comparator.Relates left right := by
  constructor
  · intro holds
    rcases parsed : parseConstant width text with error | value
    · rw [parsed] at holds
      cases holds
    · rw [parsed] at holds
      refine ⟨value, (parseConstant_eq_ok width text value).mp parsed, ?_⟩
      rw [← compare_eq_true]
      exact Except.ok.inj holds
  · rintro ⟨right, denoted, relates⟩
    rw [(parseConstant_eq_ok width text ⟨right, denoted.2⟩).mpr denoted]
    exact congrArg Except.ok ((compare_eq_true comparator left ⟨right, denoted.2⟩).mpr relates)

private theorem compareConstant_eq_true (data : Slice) (comparator : Comparator) (text : String)
    (left : WrappedValueType) :
    ValueCmp.compareConstant comparator text left = .ok true ↔
      ∃ right, (Operand.constant text).Denotes data left.valueType right ∧
        comparator.Relates left.number right := by
  cases left <;> exact map_parseConstant comparator text _

private theorem Operand.Denotes.inBounds {data : Slice} {offset : U64} {ownType valueType : ValueType} {value : ℕ}
    (denotes : (Operand.mem offset ownType).Denotes data valueType value) :
    (Operand.mem offset ownType).InBounds data := denotes.2.1

/-- A comparison that stays in range returns, and returns true exactly when it holds. -/
theorem valuesMatch_of_addressable {cmp : ValueCmp} {data : Slice} (addressable : cmp.Addressable data) :
    ∃ result, cmp.valuesMatch data = some result ∧ (result = .ok true ↔ cmp.Holds data) := by
  obtain ⟨left, comparator, right⟩ := cmp
  cases left with
  | constant text =>
    refine ⟨.error .invalidValueCmp, rfl, ?_⟩
    simp [ValueCmp.Holds, Operand.IsMem]
  | mem offset valueType =>
    obtain ⟨leftRanged, rightRanged⟩ := addressable trivial
    rcases parseMemIntoValueType_spec data offset valueType with ⟨overflow, -⟩ | ⟨-, outside, read⟩ |
        ⟨-, inside, value, read, ofType, number⟩
    · exact absurd leftRanged overflow
    · refine ⟨.error .invalidValueCmp, ?_, ?_⟩
      · cases right <;> simp [ValueCmp.valuesMatch, read]
      · simp only [reduceCtorEq, false_iff]
        rintro ⟨-, _, _, _, denotes, -⟩
        exact outside denotes.inBounds
    · cases right with
      | constant text =>
        refine ⟨_, by simp only [ValueCmp.valuesMatch, read, Option.bind_eq_bind, Option.bind_some]; rfl, ?_⟩
        rw [compareConstant_eq_true data]
        constructor
        · rintro ⟨right, denotes, relates⟩
          exact ⟨trivial, value.valueType, value.number, right, ⟨ofType.symm, inside, number⟩, denotes, relates⟩
        · rintro ⟨-, _, _, right, ⟨rfl, -, rfl⟩, denotes, relates⟩
          rw [ofType, number]
          exact ⟨right, denotes, relates⟩
      | mem offset' valueType' =>
        rcases parseMemIntoValueType_spec data offset' valueType' with ⟨overflow, -⟩ |
            ⟨-, outside', read'⟩ | ⟨-, inside', value', read', ofType', number'⟩
        · exact absurd (rightRanged inside) overflow
        · refine ⟨.error .invalidValueCmp, by simp [ValueCmp.valuesMatch, read, read'], ?_⟩
          simp only [reduceCtorEq, false_iff]
          rintro ⟨-, _, _, _, -, denotes, -⟩
          exact outside' denotes.inBounds
        · refine ⟨ValueCmp.compareMem comparator value value', by simp [ValueCmp.valuesMatch, read, read'], ?_⟩
          rw [compareMem_eq_true, ofType, ofType', number, number']
          constructor
          · rintro ⟨rfl, relates⟩
            exact ⟨trivial, valueType', _, _, ⟨rfl, inside, rfl⟩, ⟨rfl, inside', rfl⟩, relates⟩
          · rintro ⟨-, _, _, _, ⟨rfl, -, rfl⟩, ⟨same, -, rfl⟩, relates⟩
            exact ⟨same, relates⟩

private theorem valuesMatch_eq_none {cmp : ValueCmp} {data : Slice} (overflows : ¬ cmp.Addressable data) :
    cmp.valuesMatch data = none := by
  obtain ⟨left, comparator, right⟩ := cmp
  rw [ValueCmp.Addressable, Classical.not_imp] at overflows
  obtain ⟨isMem, overflows⟩ := overflows
  cases left with
  | constant text => exact isMem.elim
  | mem offset valueType =>
    rcases parseMemIntoValueType_spec data offset valueType with ⟨-, read⟩ | ⟨ranged, outside, -⟩ |
        ⟨ranged, inside, value, read, -, -⟩
    · cases right <;> simp [ValueCmp.valuesMatch, read]
    · exact absurd ⟨ranged, fun inside => absurd inside outside⟩ overflows
    · cases right with
      | constant text => exact absurd ⟨ranged, fun _ => trivial⟩ overflows
      | mem offset' valueType' =>
        rcases parseMemIntoValueType_spec data offset' valueType' with ⟨-, read'⟩ | ⟨ranged', -⟩ | ⟨ranged', -⟩
        · simp [ValueCmp.valuesMatch, read, read']
        · exact absurd ⟨ranged, fun _ => ranged'⟩ overflows
        · exact absurd ⟨ranged, fun _ => ranged'⟩ overflows

/-! ## Lists of filters -/

private theorem accountMatches_holds {data : Slice} {cmp : ValueCmp} (filters : List (RpcFilterType Memcmp))
    (addressable : cmp.Addressable data) (holds : cmp.Holds data) :
    accountMatchesValueCmps data (.valueCmp cmp :: filters) = accountMatchesValueCmps data filters := by
  obtain ⟨result, returns, exact_result⟩ := valuesMatch_of_addressable addressable
  obtain rfl := exact_result.mpr holds
  simp only [accountMatchesValueCmps, returns]

private theorem accountMatches_fails {data : Slice} {cmp : ValueCmp} (filters : List (RpcFilterType Memcmp))
    (addressable : cmp.Addressable data) (fails : ¬ cmp.Holds data) :
    accountMatchesValueCmps data (.valueCmp cmp :: filters) = some false := by
  obtain ⟨result, returns, exact_result⟩ := valuesMatch_of_addressable addressable
  rw [← exact_result] at fails
  rw [accountMatchesValueCmps, returns]
  rcases result with error | answer
  · rfl
  · cases answer with
    | false => rfl
    | true => exact absurd rfl fails

private theorem accountMatches_overflows {data : Slice} {cmp : ValueCmp} (filters : List (RpcFilterType Memcmp))
    (overflows : ¬ cmp.Addressable data) :
    accountMatchesValueCmps data (.valueCmp cmp :: filters) = none := by
  rw [accountMatchesValueCmps, valuesMatch_eq_none overflows]

private theorem addressable_nil (data : Slice) : Addressable data ([] : List (RpcFilterType Memcmp)) := by
  intro passed cmp rest split
  exact absurd split.symm (by simp)

private theorem addressable_valueCmp (data : Slice) (cmp : ValueCmp) (filters : List (RpcFilterType Memcmp)) :
    Addressable data (.valueCmp cmp :: filters) ↔
      cmp.Addressable data ∧ (cmp.Holds data → Addressable data filters) := by
  constructor
  · intro reached
    refine ⟨reached [] cmp filters rfl (fun other member => by simp at member), ?_⟩
    rintro holds passed other rest rfl allHold
    refine reached (.valueCmp cmp :: passed) other rest rfl ?_
    intro earlier member
    rcases List.mem_cons.mp member with same | member
    · obtain rfl := RpcFilterType.valueCmp.inj same
      exact holds
    · exact allHold earlier member
  · rintro ⟨ranged, later⟩ passed other rest split allHold
    cases passed with
    | nil =>
      obtain rfl := RpcFilterType.valueCmp.inj (List.cons.inj split).1
      exact ranged
    | cons first passed =>
      obtain ⟨rfl, rfl⟩ := List.cons.inj split
      exact later (allHold cmp (List.mem_cons_self ..)) passed other rest rfl
        (fun earlier member => allHold earlier (List.mem_cons_of_mem _ member))

theorem addressable_other (data : Slice) {filter : RpcFilterType Memcmp} (filters : List (RpcFilterType Memcmp))
    (other : ∀ cmp, filter ≠ .valueCmp cmp) :
    Addressable data (filter :: filters) ↔ Addressable data filters := by
  constructor
  · rintro reached passed cmp rest rfl allHold
    refine reached (filter :: passed) cmp rest rfl ?_
    intro earlier member
    rcases List.mem_cons.mp member with same | member
    · exact absurd same.symm (other earlier)
    · exact allHold earlier member
  · intro reached passed cmp rest split allHold
    cases passed with
    | nil => exact absurd (List.cons.inj split).1 (other cmp)
    | cons first passed =>
      obtain ⟨rfl, rfl⟩ := List.cons.inj split
      exact reached passed cmp rest rfl (fun earlier member => allHold earlier (List.mem_cons_of_mem _ member))

private theorem accountMatches_of_addressable {data : Slice} {filters : List (RpcFilterType Memcmp)}
    (addressable : Addressable data filters) :
    ∃ result, accountMatchesValueCmps data filters = some result ∧
      (result = true ↔ ∀ cmp, .valueCmp cmp ∈ filters → ValueCmp.Holds cmp data) := by
  induction filters with
  | nil => exact ⟨true, rfl, by simp⟩
  | cons filter filters ih =>
    cases filter with
    | valueCmp cmp =>
      obtain ⟨ranged, later⟩ := (addressable_valueCmp data cmp filters).mp addressable
      rcases Classical.em (cmp.Holds data) with holds | fails
      · obtain ⟨result, returns, exact_result⟩ := ih (later holds)
        refine ⟨result, (accountMatches_holds filters ranged holds).trans returns, ?_⟩
        simpa [holds] using exact_result
      · refine ⟨false, accountMatches_fails filters ranged fails, ?_⟩
        simp only [Bool.false_eq_true, false_iff]
        exact fun all => fails (all cmp (List.mem_cons_self ..))
    | dataSize size =>
      obtain ⟨result, returns, exact_result⟩ := ih ((addressable_other data filters (by simp)).mp addressable)
      exact ⟨result, returns, by simpa using exact_result⟩
    | memcmp memcmp =>
      obtain ⟨result, returns, exact_result⟩ := ih ((addressable_other data filters (by simp)).mp addressable)
      exact ⟨result, returns, by simpa using exact_result⟩
    | tokenAccountState =>
      obtain ⟨result, returns, exact_result⟩ := ih ((addressable_other data filters (by simp)).mp addressable)
      exact ⟨result, returns, by simpa using exact_result⟩

private theorem accountMatches_eq_none {data : Slice} {filters : List (RpcFilterType Memcmp)}
    (overflows : ¬ Addressable data filters) : accountMatchesValueCmps data filters = none := by
  induction filters with
  | nil => exact absurd (addressable_nil data) overflows
  | cons filter filters ih =>
    cases filter with
    | valueCmp cmp =>
      rw [addressable_valueCmp] at overflows
      rcases Classical.em (cmp.Addressable data) with ranged | unranged
      · rcases Classical.em (cmp.Holds data) with holds | fails
        · rw [accountMatches_holds filters ranged holds]
          exact ih (fun later => overflows ⟨ranged, fun _ => later⟩)
        · exact absurd ⟨ranged, fun holds => absurd holds fails⟩ overflows
      · exact accountMatches_overflows filters unranged
    | dataSize size => exact ih (fun later => overflows ((addressable_other data filters (by simp)).mpr later))
    | memcmp memcmp => exact ih (fun later => overflows ((addressable_other data filters (by simp)).mpr later))
    | tokenAccountState => exact ih (fun later => overflows ((addressable_other data filters (by simp)).mpr later))

/-- A comparison, and a list of filters, is evaluated without a panic and exactly if and only if every
bounds check it reaches adds a width to an offset within the `usize` range. -/
theorem value_comparisons_are_exact_iff (data : Slice) :
    (∀ cmp : ValueCmp,
      (∃ result, cmp.valuesMatch data = some result ∧ (result = .ok true ↔ cmp.Holds data)) ↔
        cmp.Addressable data) ∧
    (∀ filters : List (RpcFilterType Memcmp),
      (∃ result, accountMatchesValueCmps data filters = some result ∧
        (result = true ↔ ∀ cmp, .valueCmp cmp ∈ filters → ValueCmp.Holds cmp data)) ↔
        Addressable data filters) := by
  refine ⟨fun cmp => ⟨?_, valuesMatch_of_addressable⟩, fun filters => ⟨?_, accountMatches_of_addressable⟩⟩
  · rintro ⟨result, returns, -⟩
    by_contra overflows
    rw [valuesMatch_eq_none overflows] at returns
    cases returns
  · rintro ⟨result, returns, -⟩
    by_contra overflows
    rw [accountMatches_eq_none overflows] at returns
    cases returns

/-- Two bytes at the last offset: the check adds one to it and overflows. -/
theorem comparison_at_the_last_offset_panics :
    ¬ ∀ (data : Slice) (filters : List (RpcFilterType Unit)),
      ∃ result, accountMatchesValueCmps data filters = some result ∧
        (result = true ↔ ∀ cmp, .valueCmp cmp ∈ filters → ValueCmp.Holds cmp data) := by
  intro exact_everywhere
  obtain ⟨result, returns, -⟩ := exact_everywhere ⟨[1, 2, 3], by decide⟩
    [.valueCmp ⟨.mem (Fin.last (2 ^ 64 - 1)) .u16, .eq, .constant "0"⟩]
  have panics : @accountMatchesValueCmps Unit ⟨[1, 2, 3], by decide⟩
      [.valueCmp ⟨.mem (Fin.last (2 ^ 64 - 1)) .u16, .eq, .constant "0"⟩] = none := by decide +kernel
  rw [panics] at returns
  cases returns

/-- The third byte is larger than the first two together, and a constant with a plus sign is a number. -/
example : @accountMatchesValueCmps Unit ⟨[1, 2, 9], by decide⟩
    [.valueCmp ⟨.mem 2 .u8, .gt, .mem 1 .u8⟩, .valueCmp ⟨.mem 0 .u16, .eq, .constant "+513"⟩] = some true := by
  decide +kernel

end Cloudbreak.Model.Filters
