import Cloudbreak.Model.Filters.SqlFilters

/-! # What the SQL of the filters means

A predicate says what its filter says, with two exceptions. PostgreSQL has no `substring` at a position beyond
the range of `integer`, so such an offset makes the whole statement fail; and a clipped substring equals an empty
byte filter at any offset, where the filter itself must lie inside the data.
-/

namespace Cloudbreak.Model.Filters

open Cloudbreak.ToMathlib
open Processed (isTokenProgram)

variable {Memcmp : Type} {client : MemcmpClient Memcmp} {filter : RpcFilterType Memcmp}
  {filters : List (RpcFilterType Memcmp)} {table : Table} {tokenProgram : Bool} {data : List UInt8}
  {params : List (List UInt8)} {param : ℕ} {clause : SqlClause} {value : Option (List UInt8)}

/-- What the client library documents: a filter made of an offset and bytes has them, and one that verifies
decodes to at most 128 bytes. -/
structure MemcmpClient.Documented (client : MemcmpClient Memcmp) : Prop where
  offset_new : ∀ offset bytes, client.offset (client.newRawBytes offset bytes) = offset
  bytes_new : ∀ offset bytes, client.bytes (client.newRawBytes offset bytes) = some bytes
  decodes : ∀ memcmp, client.verify memcmp = .ok () →
    ∃ bytes, client.bytes memcmp = some bytes ∧ bytes.val.length ≤ 128

/-! ## The reference -/

/-- The state byte of a token account is set. -/
def initialized (data : List UInt8) : Bool := data.getD 108 0 ≠ 0

/-- `valid_account_data` of the token program: a plain account, or a longer one marked as an account that is not
as long as a multisig. -/
def validAccountData (data : List UInt8) : Bool :=
  initialized data &&
    (decide (data.length = 165) ||
      decide (data.length > 165) && decide (data.length ≠ 355) && decide (data.getD 165 0 = 2))

/-- The filter as the reference node applies it. Value comparisons are applied after the query. -/
def allows (client : MemcmpClient Memcmp) (data : List UInt8) : RpcFilterType Memcmp → Bool
  | .dataSize size => data.length = size
  | .memcmp memcmp =>
    (client.bytes memcmp).any fun bytes =>
      decide ((client.offset memcmp).val + bytes.val.length ≤ data.length) &&
        decide ((data.drop (client.offset memcmp)).take bytes.val.length = bytes.val)
  | .tokenAccountState => validAccountData data
  | .valueCmp _ => true

/-- An empty byte filter behind the end of the data. -/
def emptyPastEnd (client : MemcmpClient Memcmp) (data : List UInt8) : RpcFilterType Memcmp → Bool
  | .memcmp memcmp =>
    (client.bytes memcmp).any fun bytes =>
      decide (bytes.val = []) && decide ((client.offset memcmp).val > data.length)
  | _ => false

/-- The position after the offset is an `integer`. -/
def offsetFits (client : MemcmpClient Memcmp) : RpcFilterType Memcmp → Bool
  | .memcmp memcmp => (client.offset memcmp).val + 1 < 2 ^ 31
  | _ => true

/-- A filter that has a predicate. -/
def hasClause : RpcFilterType Memcmp → Bool
  | .valueCmp _ => false
  | _ => true

/-- A byte filter that decodes, to a short value. -/
def Decodes (client : MemcmpClient Memcmp) : RpcFilterType Memcmp → Prop
  | .memcmp memcmp => ∃ bytes, client.bytes memcmp = some bytes ∧ bytes.val.length ≤ 128
  | _ => True

/-! ## One predicate -/

theorem eval_bytes_param {column : Column} {bytes : List UInt8} (bound : params[param - 1]? = some bytes)
    (positive : param ≠ 0) :
    (SqlClause.bytes table column true (.param param)).eval table params data =
      (column.value data).map fun left => decide (left = bytes) := by
  rw [SqlClause.eval, if_pos rfl, BytesValue.value, if_neg positive, bound]
  cases column.value data with
  | none => rfl
  | some left => simp

/-- A substring of the filter's length equals its bytes where they lie in the data, or are empty. -/
theorem decide_substring (offset : ℕ) (bytes : List UInt8) :
    decide (Bytea.substring data (offset + 1) bytes.length = bytes) =
      (decide (offset + bytes.length ≤ data.length) && decide ((data.drop offset).take bytes.length = bytes) ||
        decide (bytes = []) && decide (offset > data.length)) := by
  rw [Bool.eq_iff_iff]
  simp only [decide_eq_true_eq, Bool.or_eq_true, Bool.and_eq_true, Bytea.substring_eq_iff]
  constructor
  · rintro (rfl | inside)
    · by_cases within : offset ≤ data.length
      · exact Or.inl ⟨within, rfl⟩
      · exact Or.inr ⟨rfl, by omega⟩
    · exact Or.inl inside
  · rintro (inside | ⟨empty, -⟩)
    · exact Or.inr inside
    · exact Or.inl empty

/-- The first byte at an index is what the substring of one byte there shows. -/
theorem substring_one_eq (offset : ℕ) (byte : UInt8) :
    Bytea.substring data (offset + 1) 1 = [byte] ↔ data[offset]? = some byte := by
  rw [Bytea.substring_succ]
  cases found : data[offset]? with
  | none =>
    have beyond := List.getElem?_eq_none_iff.mp found
    rw [List.drop_eq_nil_of_le beyond]
    simp
  | some held =>
    obtain ⟨within, same⟩ := List.getElem?_eq_some_iff.mp found
    rw [List.drop_eq_getElem_cons within, same]
    simp

private theorem eval_tokenAccountState :
    (tokenAccountStateClause table).eval table params data = some (validAccountData data) := by
  have state : decide (Bytea.substring data 109 1 = [0]) = decide (data[108]? = some 0) :=
    decide_eq_decide.mpr (substring_one_eq 108 0)
  have kind : decide (Bytea.substring data 166 1 = [2]) = decide (data[165]? = some 2) :=
    decide_eq_decide.mpr (substring_one_eq 165 2)
  simp only [tokenAccountStateClause, SqlClause.eval, Column.value, BytesValue.value, LengthRelation.holds, if_true,
    show (109 : ℕ) < 2 ^ 31 ∧ (1 : ℕ) < 2 ^ 31 from by decide,
    show (166 : ℕ) < 2 ^ 31 ∧ (1 : ℕ) < 2 ^ 31 from by decide,
    and_self, Option.bind_some, Option.map_some, state, kind]
  refine congrArg some ?_
  unfold validAccountData initialized
  rw [List.getD_eq_getElem?_getD, List.getD_eq_getElem?_getD]
  rcases Nat.lt_or_ge 165 data.length with longer | short
  · rw [List.getElem?_eq_getElem longer, List.getElem?_eq_getElem (show 108 < data.length by omega)]
    simp
  · rcases Nat.lt_or_ge 108 data.length with middle | shorter
    · rw [List.getElem?_eq_none short, List.getElem?_eq_getElem middle]
      simp
    · rw [List.getElem?_eq_none short, List.getElem?_eq_none shorter]
      have differs : data.length ≠ 165 := by omega
      simp [differs]

/-- A byte filter and the substring it becomes. -/
theorem substring_eq_allows {memcmp : Memcmp} {bytes : Slice} (decoded : client.bytes memcmp = some bytes) :
    decide (Bytea.substring data ((client.offset memcmp).val + 1) bytes.val.length = bytes.val) =
      (allows client data (.memcmp memcmp) || emptyPastEnd client data (.memcmp memcmp)) := by
  rw [decide_substring, allows, emptyPastEnd, decoded, Option.any_some, Option.any_some]

/-- The two halves of the delegate tag are the tag. -/
theorem eval_delegateTag :
    (delegateTagClause table).eval table params data =
      some (decide (Bytea.substring data (72 + 1) delegateTagBytes.val.length = delegateTagBytes.val)) := by
  have halves := @Bytea.substring_append_iff data [1] [0, 0, 0] 72 (by decide)
  simp only [delegateTagClause, SqlClause.eval, Column.value, BytesValue.value, if_true,
    show (73 : ℕ) < 2 ^ 31 ∧ (1 : ℕ) < 2 ^ 31 from by decide,
    show (74 : ℕ) < 2 ^ 31 ∧ (3 : ℕ) < 2 ^ 31 from by decide,
    and_self, Option.bind_some, Option.map_some]
  refine congrArg some ?_
  rw [Bool.eq_iff_iff]
  simpa [delegateTagBytes] using halves

private theorem eq_add_of_checkedAdd {left right sum : ℕ} (added : checkedAdd left right = some sum) :
    sum = left + right := by
  unfold checkedAdd at added
  split_ifs at added
  exact (Option.some.inj added).symm

/-- A byte filter that is not one of the expressions of a token program. -/
def Plain (client : MemcmpClient Memcmp) (tokenProgram : Bool) (memcmp : Memcmp) (bytes : Slice) : Prop :=
  tokenProgram = true →
    ¬ (client.offset memcmp = tokenAccountOwnerOffset ∧ bytes.val.length = 32) ∧
      ¬ (client.offset memcmp = tokenAccountMintOffset ∧ bytes.val.length = 32) ∧
      ¬ (client.offset memcmp = tokenAccountDelegateTagOffset ∧ bytes = delegateTagBytes)

/-- The forms that a filter can take as a predicate, each with the value it binds. -/
inductive Form (client : MemcmpClient Memcmp) (table : Table) (tokenProgram : Bool) (param : ℕ) :
    RpcFilterType Memcmp → SqlClause → Option (List UInt8) → Prop
  | dataSize (size : U64) : Form client table tokenProgram param (.dataSize size) (.length table .eq size) none
  | tokenAccountState :
    Form client table tokenProgram param .tokenAccountState (tokenAccountStateClause table) none
  | tokenOwner {memcmp : Memcmp} {bytes : Slice} (decoded : client.bytes memcmp = some bytes)
    (place : client.offset memcmp = tokenAccountOwnerOffset) (size : bytes.val.length = 32)
    (token : tokenProgram = true) :
    Form client table tokenProgram param (.memcmp memcmp) (.bytes table .tokenOwner true (.param param))
      (some bytes.val)
  | tokenMint {memcmp : Memcmp} {bytes : Slice} (decoded : client.bytes memcmp = some bytes)
    (place : client.offset memcmp = tokenAccountMintOffset) (size : bytes.val.length = 32)
    (token : tokenProgram = true) :
    Form client table tokenProgram param (.memcmp memcmp) (.bytes table .tokenMint true (.param param))
      (some bytes.val)
  | delegateTag {memcmp : Memcmp} (decoded : client.bytes memcmp = some delegateTagBytes)
    (place : client.offset memcmp = tokenAccountDelegateTagOffset) (token : tokenProgram = true) :
    Form client table tokenProgram param (.memcmp memcmp) (delegateTagClause table) none
  | plain {memcmp : Memcmp} {bytes : Slice} (decoded : client.bytes memcmp = some bytes)
    (plain : Plain client tokenProgram memcmp bytes) :
    Form client table tokenProgram param (.memcmp memcmp)
      (.bytes table (.substring ((client.offset memcmp).val + 1) bytes.val.length) true (.param param))
      (some bytes.val)

theorem form_of_filterSql
    (translated : filterSql client filter table tokenProgram param = some (some (clause, value))) :
    Form client table tokenProgram param filter clause value := by
  cases filter with
  | dataSize size =>
    simp only [filterSql, Option.some.injEq, Prod.mk.injEq] at translated
    obtain ⟨rfl, rfl⟩ := translated
    exact .dataSize size
  | tokenAccountState =>
    simp only [filterSql, Option.some.injEq, Prod.mk.injEq] at translated
    obtain ⟨rfl, rfl⟩ := translated
    exact .tokenAccountState
  | valueCmp comparison => simp [filterSql] at translated
  | memcmp memcmp =>
    cases decoded : client.bytes memcmp with
    | none => simp [filterSql, decoded] at translated
    | some bytes =>
      simp only [filterSql, decoded] at translated
      split_ifs at translated with owner mint tag
      · simp only [Bool.and_eq_true, decide_eq_true_eq] at owner
        simp only [Option.some.injEq, Prod.mk.injEq] at translated
        obtain ⟨rfl, rfl⟩ := translated
        exact .tokenOwner decoded owner.2.1 owner.2.2 owner.1
      · simp only [Bool.and_eq_true, decide_eq_true_eq] at mint
        simp only [Option.some.injEq, Prod.mk.injEq] at translated
        obtain ⟨rfl, rfl⟩ := translated
        exact .tokenMint decoded mint.2.1 mint.2.2 mint.1
      · simp only [Bool.and_eq_true, decide_eq_true_eq] at tag
        simp only [Option.some.injEq, Prod.mk.injEq] at translated
        obtain ⟨rfl, rfl⟩ := translated
        exact .delegateTag (decoded.trans (congrArg some tag.2.2)) tag.2.1 tag.1
      · simp only [Option.map_eq_some_iff, Option.some.injEq, Prod.mk.injEq] at translated
        obtain ⟨start, added, rfl, rfl⟩ := translated
        rw [eq_add_of_checkedAdd added]
        refine .plain decoded fun token => ?_
        simp only [token, Bool.true_and, Bool.and_eq_true, decide_eq_true_eq] at owner mint tag
        exact ⟨owner, mint, tag⟩

/-- What a predicate says about its row, once its value is bound. -/
theorem eval_filterSql (decodes : Decodes client filter)
    (translated : filterSql client filter table tokenProgram param = some (some (clause, value)))
    (positive : param ≠ 0) (bound : ∀ bytes ∈ value, params[param - 1]? = some bytes) :
    clause.eval table params data =
      if offsetFits client filter then some (allows client data filter || emptyPastEnd client data filter)
      else none := by
  cases form_of_filterSql translated with
  | dataSize size => simp [SqlClause.eval, LengthRelation.holds, allows, emptyPastEnd, offsetFits]
  | tokenAccountState =>
    rw [eval_tokenAccountState]
    simp [allows, emptyPastEnd, offsetFits]
  | tokenOwner decoded place size =>
    rw [← substring_eq_allows decoded, eval_bytes_param (bound _ rfl) positive,
      if_pos (by rw [offsetFits, place]; decide), place, size]
    rfl
  | tokenMint decoded place size =>
    rw [← substring_eq_allows decoded, eval_bytes_param (bound _ rfl) positive,
      if_pos (by rw [offsetFits, place]; decide), place, size]
    rfl
  | delegateTag decoded place =>
    rw [← substring_eq_allows decoded, eval_delegateTag, if_pos (by rw [offsetFits, place]; decide), place]
    rfl
  | @plain memcmp bytes decoded =>
    obtain ⟨other, found, short⟩ := decodes
    obtain rfl := Option.some.inj (decoded.symm.trans found)
    rw [← substring_eq_allows decoded, eval_bytes_param (bound _ rfl) positive, Column.value, offsetFits]
    have lengthFits : bytes.val.length < 2 ^ 31 := by omega
    by_cases fits : (client.offset memcmp).val + 1 < 2 ^ 31
    · rw [if_pos ⟨fits, lengthFits⟩, if_pos (decide_eq_true fits)]
      rfl
    · rw [if_neg fun both => fits both.1, if_neg fun holds => fits (of_decide_eq_true holds)]
      rfl

/-! ## The whole list -/

/-- The predicate of a filter under some number whose value is the one it binds. -/
def Translated (client : MemcmpClient Memcmp) (tokenProgram : Bool) (table : Table) (params : List (List UInt8))
    (filter : RpcFilterType Memcmp) (clause : SqlClause) : Prop :=
  ∃ param value, filterSql client filter table tokenProgram param = some (some (clause, value)) ∧ param ≠ 0 ∧
    ∀ bytes ∈ value, params[param - 1]? = some bytes

/-- No offset of the list overflows. -/
def offsetAdds (client : MemcmpClient Memcmp) : RpcFilterType Memcmp → Prop
  | .memcmp memcmp => (client.offset memcmp).val + 1 < 2 ^ 64
  | _ => True

/-- Where the offset can be added to, both tables get a predicate with the same value, and only a value comparison
gets none. -/
theorem filterSql_cases (tokenProgram : Bool) (param : ℕ) (decodes : Decodes client filter)
    (adds : offsetAdds client filter) :
    hasClause filter = false ∧ (∀ table, filterSql client filter table tokenProgram param = some none) ∨
      hasClause filter = true ∧ ∃ (clauses : Table → SqlClause) (value : Option (List UInt8)),
        ∀ table, filterSql client filter table tokenProgram param = some (some (clauses table, value)) := by
  cases filter with
  | dataSize size => exact Or.inr ⟨rfl, _, _, fun table => rfl⟩
  | tokenAccountState => exact Or.inr ⟨rfl, _, _, fun table => rfl⟩
  | valueCmp comparison => exact Or.inl ⟨rfl, fun table => rfl⟩
  | memcmp memcmp =>
    obtain ⟨bytes, decoded, -⟩ := decodes
    have added : checkedAdd (client.offset memcmp).val 1 = some ((client.offset memcmp).val + 1) := if_pos adds
    refine Or.inr ⟨rfl, ?_⟩
    simp only [filterSql, decoded, added]
    split_ifs
    · exact ⟨_, _, fun table => rfl⟩
    · exact ⟨_, _, fun table => rfl⟩
    · exact ⟨_, _, fun table => rfl⟩
    · exact ⟨_, _, fun table => rfl⟩

/-- Translating a list adds the predicates of its filters to both tables, in order and with the numbers of the
values they bind. -/
theorem foldlM_addFilter (tokenProgram : Bool) (decodes : ∀ filter ∈ filters, Decodes client filter)
    (adds : ∀ filter ∈ filters, offsetAdds client filter) (sql : SqlFilters) :
    ∃ (added : Table → List SqlClause) (values : List (List UInt8)),
      filters.foldlM (addFilter client tokenProgram) sql =
          some ⟨sql.accounts ++ added .accounts, sql.snapshot ++ added .snapshotAccounts, sql.params ++ values,
            sql.label⟩ ∧
        ∀ table, List.Forall₂ (Translated client tokenProgram table (sql.params ++ values))
          (filters.filter hasClause) (added table) := by
  induction filters generalizing sql with
  | nil =>
    refine ⟨fun _ => [], [], ?_, fun table => List.Forall₂.nil⟩
    rw [List.foldlM_nil, List.append_nil, List.append_nil, List.append_nil]
    rfl
  | cons filter rest inductive_step =>
    rw [List.forall_mem_cons] at decodes adds
    rw [List.foldlM_cons]
    rcases filterSql_cases tokenProgram (sql.params.length + 1) decodes.1 adds.1 with
      ⟨without, skipped⟩ | ⟨present, clauses, value, translated⟩
    · have unchanged : addFilter client tokenProgram sql filter = some sql := by
        rw [addFilter, skipped]
        rfl
      rw [unchanged, List.filter_cons_of_neg (by simp [without])]
      exact inductive_step decodes.2 adds.2 sql
    · have step : addFilter client tokenProgram sql filter =
          some { sql with
            accounts := sql.accounts ++ [clauses .accounts]
            snapshot := sql.snapshot ++ [clauses .snapshotAccounts]
            params := sql.params ++ value.toList } := by
        rw [addFilter, translated, translated]
        rfl
      rw [step, List.filter_cons_of_pos present]
      obtain ⟨added, values, folded, all⟩ := inductive_step decodes.2 adds.2
        { sql with
          accounts := sql.accounts ++ [clauses .accounts]
          snapshot := sql.snapshot ++ [clauses .snapshotAccounts]
          params := sql.params ++ value.toList }
      refine ⟨fun table => clauses table :: added table, value.toList ++ values, ?_, fun table => ?_⟩
      · refine folded.trans ?_
        simp only [List.append_assoc, List.singleton_append]
      · refine List.Forall₂.cons
          ⟨sql.params.length + 1, value, translated table, Nat.succ_ne_zero _, fun bytes held => ?_⟩ ?_
        · rw [Option.mem_def.mp held]
          simp
        · rw [← List.append_assoc]
          exact all table

/-- An offset that cannot be added to is at none of the indexed places, so its filter is not translated. -/
theorem offsetAdds_of_addFilter {sql result : SqlFilters} (decodes : Decodes client filter)
    (added : addFilter client tokenProgram sql filter = some result) : offsetAdds client filter := by
  cases filter with
  | dataSize | tokenAccountState | valueCmp => trivial
  | memcmp memcmp =>
    obtain ⟨bytes, decoded, -⟩ := decodes
    by_contra overflow
    have most : (client.offset memcmp).val = 2 ^ 64 - 1 := by
      have bounded := (client.offset memcmp).isLt
      unfold offsetAdds at overflow
      omega
    have elsewhere : ∀ place : U64, place.val < 2 ^ 64 - 1 → client.offset memcmp ≠ place := by
      rintro place early rfl
      omega
    have overflows : checkedAdd (client.offset memcmp).val 1 = none := if_neg overflow
    rw [addFilter, filterSql, decoded] at added
    simp [elsewhere tokenAccountOwnerOffset (by decide), elsewhere tokenAccountMintOffset (by decide),
      elsewhere tokenAccountDelegateTagOffset (by decide), overflows] at added

private theorem offsetAdds_of_foldlM {sql result : SqlFilters} (decodes : ∀ filter ∈ filters, Decodes client filter)
    (folded : filters.foldlM (addFilter client tokenProgram) sql = some result) :
    ∀ filter ∈ filters, offsetAdds client filter := by
  induction filters generalizing sql with
  | nil => simp
  | cons filter rest inductive_step =>
    rw [List.forall_mem_cons] at decodes ⊢
    rw [List.foldlM_cons] at folded
    obtain ⟨next, added, others⟩ := Option.bind_eq_some_iff.mp folded
    exact ⟨offsetAdds_of_addFilter decodes.1 added, inductive_step decodes.2 others⟩

/-- The conjunction of the predicates. -/
theorem evalAll_of_translated {clauses : List SqlClause} (decodes : ∀ filter ∈ filters, Decodes client filter)
    (translated : List.Forall₂ (Translated client tokenProgram table params) filters clauses) :
    evalAll table params data clauses =
      if filters.all (offsetFits client) then
        some (filters.all fun filter => allows client data filter || emptyPastEnd client data filter)
      else none := by
  induction translated with
  | nil => rfl
  | @cons filter clause rest others this _ inductive_step =>
    rw [List.forall_mem_cons] at decodes
    obtain ⟨param, value, same, positive, bound⟩ := this
    rw [evalAll, eval_filterSql decodes.1 same positive bound, inductive_step decodes.2, List.all_cons, List.all_cons]
    cases offsetFits client filter with
    | false => rfl
    | true =>
      cases rest.all (offsetFits client) with
      | false => rfl
      | true => rfl

/-- Without its value comparisons a list says the same. -/
theorem all_filter_hasClause (test : RpcFilterType Memcmp → Bool)
    (otherwise : ∀ comparison, test (.valueCmp comparison) = true) :
    (filters.filter hasClause).all test = filters.all test := by
  induction filters with
  | nil => rfl
  | cons filter rest inductive_step =>
    cases filter with
    | dataSize | memcmp | tokenAccountState =>
      rw [List.filter_cons_of_pos rfl, List.all_cons, List.all_cons, inductive_step]
    | valueCmp comparison =>
      rw [List.filter_cons_of_neg (by simp [hasClause]), List.all_cons, otherwise, inductive_step, Bool.true_and]

/-! ## Placeholders -/

/-- A placeholder is bound to the bytes of its filter. -/
def Bound (client : MemcmpClient Memcmp) (params : List (List UInt8)) (filter : RpcFilterType Memcmp)
    (clause : SqlClause) : Prop :=
  ∀ number ∈ clause.placeholders, number ≠ 0 ∧
    ∃ memcmp bytes, filter = .memcmp memcmp ∧ client.bytes memcmp = some bytes ∧
      params[number - 1]? = some bytes.val

theorem Translated.bound (translated : Translated client tokenProgram table params filter clause) :
    Bound client params filter clause := by
  obtain ⟨param, value, same, positive, bound⟩ := translated
  intro number mentioned
  cases form_of_filterSql same with
  | dataSize | tokenAccountState | delegateTag => cases mentioned
  | tokenOwner decoded | tokenMint decoded | plain decoded =>
    obtain rfl := List.mem_singleton.mp mentioned
    exact ⟨positive, _, _, rfl, decoded, bound _ rfl⟩

/-! ## Building -/

variable {program : Pubkey} {label : String}

/-- The request is not turned away. -/
def Accepts (client : MemcmpClient Memcmp) (program : Pubkey) (filters : List (RpcFilterType Memcmp))
    (label : String) : Prop :=
  ∀ error, SqlFilters.build client program filters label ≠ some (.error error)

private theorem verifyFilter_of_verifyAll (verified : verifyAll client filters = .ok ()) :
    ∀ filter ∈ filters, verifyFilter client filter = .ok () := by
  induction filters with
  | nil => simp
  | cons filter rest inductive_step =>
    rw [verifyAll] at verified
    cases this : verifyFilter client filter with
    | error text => simp [this] at verified
    | ok =>
      simp only [this] at verified
      exact List.forall_mem_cons.mpr ⟨this, inductive_step verified⟩

/-- What is not turned away verifies, and is translated. -/
theorem build_of_accepts (accepts : Accepts client program filters label) :
    (∀ filter ∈ filters, verifyFilter client filter = .ok ()) ∧
      ∃ label', SqlFilters.build client program filters label =
        ((withDelegateTag client program filters).foldlM (addFilter client (isTokenProgram program))
          ⟨[], [], [], label'⟩).map .ok := by
  unfold Accepts at accepts
  unfold SqlFilters.build at accepts ⊢
  cases verified : verifyAll client filters with
  | error error => exact absurd (by rw [verified]) (accepts error)
  | ok =>
    simp only [verified] at accepts
    refine ⟨verifyFilter_of_verifyAll verified, ?_⟩
    cases key : (if isTokenProgram program then (isValidTokenQuery client filters).map (labelFor label)
        else .ok label : Except BuildError String) with
    | error error => exact absurd (by rw [key]) (accepts error)
    | ok label' => exact ⟨label', rfl⟩

theorem decodes_withDelegateTag (program : Pubkey) (documented : client.Documented)
    (verified : ∀ filter ∈ filters, verifyFilter client filter = .ok ()) :
    ∀ filter ∈ withDelegateTag client program filters, Decodes client filter := by
  intro filter mentioned
  rw [withDelegateTag, List.mem_append] at mentioned
  rcases mentioned with given | added
  · have this := verified filter given
    cases filter with
    | memcmp memcmp => exact documented.decodes memcmp this
    | dataSize | tokenAccountState | valueCmp => trivial
  · split_ifs at added with adds
    · rw [List.mem_singleton.mp added]
      exact ⟨delegateTagBytes, documented.bytes_new _ _, by decide⟩
    · cases added

/-- What holds of the delegate tag holds of all filters to translate when it holds of the request's. -/
theorem forall_withDelegateTag (program : Pubkey) (test : RpcFilterType Memcmp → Prop)
    (tag : test (.memcmp (client.newRawBytes tokenAccountDelegateTagOffset delegateTagBytes))) :
    (∀ filter ∈ withDelegateTag client program filters, test filter) ↔ ∀ filter ∈ filters, test filter := by
  rw [withDelegateTag, List.forall_mem_append]
  constructor
  · exact fun both => both.1
  · refine fun given => ⟨given, fun filter added => ?_⟩
    split_ifs at added with adds
    · rw [List.mem_singleton.mp added]
      exact tag
    · cases added

/-- The predicates of a request that is built. -/
theorem build_translated (documented : client.Documented) (accepts : Accepts client program filters label)
    (adds : ∀ filter ∈ withDelegateTag client program filters, offsetAdds client filter) :
    ∃ sql, SqlFilters.build client program filters label = some (.ok sql) ∧
      ∀ table, List.Forall₂ (Translated client (isTokenProgram program) table sql.params)
        ((withDelegateTag client program filters).filter hasClause) (sql.clauses table) := by
  obtain ⟨verified, label', built⟩ := build_of_accepts accepts
  obtain ⟨added, values, folded, all⟩ := foldlM_addFilter (isTokenProgram program)
    (decodes_withDelegateTag program documented verified) adds ⟨[], [], [], label'⟩
  rw [folded] at built
  refine ⟨_, built, fun table => ?_⟩
  cases table with
  | accounts => exact all .accounts
  | snapshotAccounts => exact all .snapshotAccounts

theorem offsetAdds_of_build {sql : SqlFilters} (documented : client.Documented)
    (accepts : Accepts client program filters label)
    (built : SqlFilters.build client program filters label = some (.ok sql)) :
    ∀ filter ∈ withDelegateTag client program filters, offsetAdds client filter := by
  obtain ⟨verified, label', same⟩ := build_of_accepts accepts
  rw [same, Option.map_eq_some_iff] at built
  obtain ⟨result, folded, -⟩ := built
  exact offsetAdds_of_foldlM (decodes_withDelegateTag program documented verified) folded

theorem offsetFits_delegateTag (documented : client.Documented) :
    offsetFits client (.memcmp (client.newRawBytes tokenAccountDelegateTagOffset delegateTagBytes)) = true := by
  rw [offsetFits, documented.offset_new]
  decide

theorem emptyPastEnd_delegateTag (documented : client.Documented) :
    emptyPastEnd client data (.memcmp (client.newRawBytes tokenAccountDelegateTagOffset delegateTagBytes)) = false := by
  rw [emptyPastEnd, documented.bytes_new]
  rfl

theorem offsetAdds_of_offsetFits (fits : offsetFits client filter = true) : offsetAdds client filter := by
  cases filter with
  | memcmp memcmp =>
    have small : (client.offset memcmp).val + 1 < 2 ^ 31 := of_decide_eq_true fits
    exact small.trans (by decide)
  | dataSize | tokenAccountState | valueCmp => trivial

/-- What the predicates of a request say about a row, on either table. -/
theorem evalAll_of_build {sql : SqlFilters} (documented : client.Documented)
    (built : SqlFilters.build client program filters label = some (.ok sql)) :
    evalAll table sql.params data (sql.clauses table) =
      if (withDelegateTag client program filters).all (offsetFits client) then
        some ((withDelegateTag client program filters).all fun filter =>
          allows client data filter || emptyPastEnd client data filter)
      else none := by
  have accepts : Accepts client program filters label := fun error rejected => by
    rw [built] at rejected
    cases rejected
  have decodes := decodes_withDelegateTag program documented (build_of_accepts accepts).1
  obtain ⟨sql', same, all⟩ := build_translated documented accepts (offsetAdds_of_build documented accepts built)
  obtain rfl : sql = sql' := by
    rw [built, Option.some.injEq, Except.ok.injEq] at same
    exact same
  rw [evalAll_of_translated (fun filter held => decodes filter (List.mem_of_mem_filter held)) (all table),
    all_filter_hasClause _ fun _ => rfl, all_filter_hasClause _ fun _ => rfl]

/-- A list whose tests are weakened by an exception that fails the test says the same where there is no exception,
or where another element fails anyway. -/
theorem all_or_eq_all_iff {α : Type} {items : List α} {test exception : α → Bool}
    (fails : ∀ item ∈ items, exception item = true → test item = false) :
    (items.all fun item => test item || exception item) = items.all test ↔
      (∀ item ∈ items, exception item = false) ∨
        ∃ item ∈ items, exception item = false ∧ test item = false := by
  constructor
  · intro same
    by_contra neither
    push Not at neither
    obtain ⟨⟨item, held, excepted⟩, others⟩ := neither
    have weak : (items.all fun item => test item || exception item) = true := by
      rw [List.all_eq_true]
      intro other mentioned
      cases exceptional : exception other with
      | true => rw [Bool.or_true]
      | false => rw [Bool.or_false, Bool.eq_true_of_not_eq_false (others other mentioned exceptional)]
    have strong := List.all_eq_true.mp (same.symm.trans weak) item held
    rw [fails item held (Bool.eq_true_of_not_eq_false excepted)] at strong
    cases strong
  · rintro (ordinary | ⟨item, held, plain, failing⟩)
    · rw [Bool.eq_iff_iff, List.all_eq_true, List.all_eq_true]
      refine forall₂_congr fun item held => ?_
      rw [ordinary item held, Bool.or_false]
    · rw [List.all_eq_false.mpr ⟨item, held, by simp [plain, failing]⟩,
        List.all_eq_false.mpr ⟨item, held, by simp [failing]⟩]

theorem allows_of_emptyPastEnd (filter : RpcFilterType Memcmp) (behind : emptyPastEnd client data filter = true) :
    allows client data filter = false := by
  cases filter with
  | dataSize | tokenAccountState | valueCmp => cases behind
  | memcmp memcmp =>
    obtain ⟨bytes, decoded, both⟩ := (Option.any_eq_true _ _).mp behind
    simp only [Bool.and_eq_true, decide_eq_true_eq] at both
    rw [allows, decoded, Option.any_some, both.1]
    simp only [List.length_nil, Nat.add_zero, List.take_zero, decide_true, Bool.and_true, decide_eq_false_iff_not]
    omega

/-! ## The request as a whole -/

/-- Building succeeds, on either table the predicates say without an error what the filters say, and every
placeholder has the value of its filter. -/
def Faithful (client : MemcmpClient Memcmp) (program : Pubkey) (filters : List (RpcFilterType Memcmp))
    (label : String) (data : List UInt8) : Prop :=
  ∃ sql, SqlFilters.build client program filters label = some (.ok sql) ∧ ∀ table,
    evalAll table sql.params data (sql.clauses table) =
        some ((withDelegateTag client program filters).all (allows client data)) ∧
      List.Forall₂ (Bound client sql.params) ((withDelegateTag client program filters).filter hasClause)
        (sql.clauses table)

/-- A filter that is no exception rejects the row. -/
def Rejects (client : MemcmpClient Memcmp) (data : List UInt8) (filters : List (RpcFilterType Memcmp)) : Prop :=
  ∃ filter ∈ filters, emptyPastEnd client data filter = false ∧ allows client data filter = false

/-- The predicates of a request mean what its filters mean exactly when every offset leaves room in an `integer`,
and no empty byte filter lies behind the end of a row that nothing else rejects. -/
theorem SqlFilters.build_faithful_iff (documented : client.Documented)
    (accepts : Accepts client program filters label) :
    Faithful client program filters label data ↔
      (∀ filter ∈ filters, offsetFits client filter = true) ∧
        ((∀ filter ∈ filters, emptyPastEnd client data filter = false) ∨
          Rejects client data (withDelegateTag client program filters)) := by
  rw [← forall_withDelegateTag program (fun filter => offsetFits client filter = true)
      (offsetFits_delegateTag documented),
    ← forall_withDelegateTag program (fun filter => emptyPastEnd client data filter = false)
      (emptyPastEnd_delegateTag documented),
    Rejects, ← all_or_eq_all_iff fun filter _ => allows_of_emptyPastEnd filter]
  constructor
  · rintro ⟨sql, built, evaluates⟩
    have value := (evaluates .accounts).1
    rw [evalAll_of_build documented built] at value
    split_ifs at value with fits
    exact ⟨List.all_eq_true.mp fits, Option.some.inj value⟩
  · rintro ⟨fits, same⟩
    have adds : ∀ filter ∈ withDelegateTag client program filters, offsetAdds client filter := fun filter held =>
      offsetAdds_of_offsetFits (fits filter held)
    obtain ⟨sql, built, all⟩ := build_translated documented accepts adds
    refine ⟨sql, built, fun table => ⟨?_, (all table).imp fun _ _ => Translated.bound⟩⟩
    rw [evalAll_of_build documented built, if_pos (List.all_eq_true.mpr fits), same]

/-- A client whose byte filters are pairs of an offset and bytes. -/
def pairClient : MemcmpClient (U64 × Slice) where
  offset := Prod.fst
  bytes := fun memcmp => some memcmp.2
  verify := fun memcmp => if memcmp.2.val.length ≤ 128 then .ok () else .error "filter size is too large"
  newRawBytes := Prod.mk

theorem pairClient_documented : pairClient.Documented where
  offset_new := fun _ _ => rfl
  bytes_new := fun _ _ => rfl
  decodes := fun memcmp verified => by
    refine ⟨memcmp.2, rfl, ?_⟩
    by_contra longer
    simp [pairClient, longer] at verified

/-- A delegate is looked for with the tag before it, and a filter that ends an offset too high fails. -/
theorem SqlFilters.build_faithful_iff_delegate :
    Faithful pairClient tokenProgramId
        [.memcmp (76, ⟨List.replicate 32 7, by decide⟩), .dataSize 165] "gpa" (List.replicate 165 0) ∧
      ¬ Faithful pairClient 0 [.memcmp (2 ^ 31 - 1, ⟨[7], by decide⟩), .dataSize 165] "gpa" (List.replicate 165 0) := by
  constructor
  · refine (SqlFilters.build_faithful_iff pairClient_documented fun error rejected => by cases rejected).mpr
      ⟨?_, Or.inl ?_⟩
    · decide
    · decide
  · intro faithful
    have fits := ((SqlFilters.build_faithful_iff pairClient_documented
      fun error rejected => by cases rejected).mp faithful).1
    exact absurd fits (by decide)

/-- An offset beyond an `integer` fails in the database, the last offset of all cannot be added to, and an empty
filter at offset one accepts a row without data. -/
theorem SqlFilters.build_not_faithful :
    ¬ (∀ (program : Pubkey) (filters : List (RpcFilterType (U64 × Slice))) (label : String) (data : List UInt8),
        Accepts pairClient program filters label → Faithful pairClient program filters label data) ∧
      ¬ Faithful pairClient 0 [.memcmp (2 ^ 31 - 1, ⟨[7], by decide⟩)] "gpa" [] ∧
      ¬ Faithful pairClient 0 [.memcmp (2 ^ 64 - 1, ⟨[7], by decide⟩)] "gpa" [] := by
  refine ⟨fun faithful => ?_, ?_, ?_⟩
  · obtain ⟨sql, built, evaluates⟩ := faithful 0 [.memcmp (1, ⟨[], by decide⟩)] "gpa" []
      fun error rejected => by cases rejected
    cases built
    exact absurd (evaluates .accounts).1 (by decide +kernel)
  · rintro ⟨sql, built, evaluates⟩
    cases built
    exact absurd (evaluates .accounts).1 (by decide +kernel)
  · rintro ⟨_, built, -⟩
    cases built

end Cloudbreak.Model.Filters
