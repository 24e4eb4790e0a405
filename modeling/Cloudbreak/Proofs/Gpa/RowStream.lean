import Cloudbreak.Model.Gpa.RowStream
import Cloudbreak.ToMathlib.Run

/-! # Batches carry every row once

Whatever the batch size and the order in which the two sides run, the accounts yielded are those of the rows received,
in their order, each encoded with the mint at the slot of the request. So a response does not depend on how its rows
were cut into batches or on which mints were known before.
-/

namespace Cloudbreak.Model.Gpa

open Cloudbreak.ToMathlib

/-! ## Items of a channel -/

section Items

variable {ε α : Type} {items : List (Except ε α)}

/-- What arrives before an error. -/
def okItems (items : List (Except ε α)) : List α := items.filterMap Except.toOption

@[simp]
theorem okItems_append (items more : List (Except ε α)) : okItems (items ++ more) = okItems items ++ okItems more :=
  List.filterMap_append

@[simp]
theorem okItems_ok (value : α) : okItems [(.ok value : Except ε α)] = [value] := rfl

@[simp]
theorem okItems_error (error : ε) : okItems [(.error error : Except ε α)] = [] := rfl

/-- Only the last item may be an error. -/
def ErrorLast (items : List (Except ε α)) : Prop :=
  items = (okItems items).map .ok ∨ ∃ error, items = (okItems items).map .ok ++ [.error error]

theorem okItems_map_ok (values : List α) : okItems (values.map (.ok : α → Except ε α)) = values := by
  induction values with
  | nil => rfl
  | cons value values ih => exact congrArg (List.cons value) ih

/-- An item that is no error stands at its place among the values. -/
theorem ErrorLast.getElem? (last : ErrorLast items) {position : ℕ} {value : α}
    (found : items[position]? = some (.ok value)) : (okItems items)[position]? = some value := by
  have inOk : ((okItems items).map (.ok : α → Except ε α))[position]? = some (.ok value) := by
    rcases last with all | ⟨error, all⟩
    · rwa [← all]
    · rw [all, List.getElem?_append] at found
      split at found
      · exact found
      · next beyond =>
        have isError := List.mem_singleton.mp (List.mem_of_getElem? found)
        contradiction
  rw [List.getElem?_map] at inOk
  obtain ⟨other, isOther, same⟩ := Option.map_eq_some_iff.mp inOk
  cases same
  exact isOther

end Items

/-! ## One row -/

variable {Row Mint Account Failure : Type} {encoding : GpaEncoding Row Mint Account Failure}

namespace GpaEncoding

variable (encoding)

/-- The mint a row is encoded with. -/
def mintData (row : Row) : Option Mint :=
  if encoding.resolves then
    (encoding.mintOf row).bind fun mint =>
      if mint = encoding.nativeMint then encoding.nativeData else encoding.mintAt mint
  else none

/-- Whether the mint of a row can change or is missing. -/
def mintVolatile (row : Row) : Bool :=
  encoding.resolves && (encoding.mintOf row).any fun mint =>
    !decide (mint = encoding.nativeMint) && !(encoding.mintAt mint).any encoding.immutable

/-- What one row gives to the response: the reasons it may change for, and its account unless that is left out. -/
def contribution (row : Row) : Except Failure (List Volatility × List Account) :=
  (encoding.encode row (encoding.mintData row)).map fun account =>
    let mints := if encoding.mintVolatile row then [Volatility.mutableMint] else []
    if encoding.resolves && encoding.unparsed account then (mints ++ [.droppedAccount], []) else (mints, [account])

/-- What the rows give to the response, without batches. -/
def contributions : List Row → Except Failure (List Volatility × List Account)
  | [] => .ok ([], [])
  | row :: rest => do
    let first ← encoding.contribution row
    let others ← contributions rest
    return (first.1 ++ others.1, first.2 ++ others.2)

variable {encoding}

theorem contributions_append (rows more : List Row) : encoding.contributions (rows ++ more) = (do
    let first ← encoding.contributions rows
    let others ← encoding.contributions more
    return (first.1 ++ others.1, first.2 ++ others.2)) := by
  induction rows with
  | nil =>
    rw [List.nil_append, contributions]
    cases encoding.contributions more <;> rfl
  | cons row rest ih =>
    rw [List.cons_append, contributions, ih, contributions]
    cases encoding.contribution row with
    | error => rfl
    | ok first =>
      cases encoding.contributions rest with
      | error => rfl
      | ok others =>
        cases encoding.contributions more with
        | error => rfl
        | ok last =>
          change Except.ok _ = Except.ok _
          rw [← List.append_assoc, ← List.append_assoc]

end GpaEncoding

namespace MintResolver

variable {resolver : MintResolver Mint} {row : Row} {batch : List Row}

/-- The mints found are those at the slot. -/
def Knows (encoding : GpaEncoding Row Mint Account Failure) (resolver : MintResolver Mint) : Prop :=
  ∀ mint data, resolver.mints.lookup mint = some data → encoding.mintAt mint = some data

/-- The mint of a row is resolved. -/
def Resolved (encoding : GpaEncoding Row Mint Account Failure) (resolver : MintResolver Mint) (row : Row) : Prop :=
  encoding.resolves = true → ∀ mint, encoding.mintOf row = some mint → mint ≠ encoding.nativeMint →
    resolver.mints.lookup mint = encoding.mintAt mint

def markAll (resolver : MintResolver Mint) (reasons : List Volatility) : MintResolver Mint :=
  reasons.foldl markAsVolatile resolver

theorem markAll_mints (resolver : MintResolver Mint) (reasons : List Volatility) :
    (resolver.markAll reasons).mints = resolver.mints := by
  induction reasons generalizing resolver with
  | nil => rfl
  | cons reason reasons ih => exact ih _

/-- The first reason stays. -/
theorem markAll_volatility (resolver : MintResolver Mint) (reasons : List Volatility) :
    (resolver.markAll reasons).volatility = resolver.volatility.or reasons.head? := by
  induction reasons generalizing resolver with
  | nil => exact (Option.or_none ..).symm
  | cons reason reasons ih =>
    refine (ih _).trans ?_
    cases found : resolver.volatility with
    | none => simp [markAsVolatile, found]
    | some first => simp [markAsVolatile, found]

private theorem markAll_append (resolver : MintResolver Mint) (reasons more : List Volatility) :
    resolver.markAll (reasons ++ more) = (resolver.markAll reasons).markAll more := List.foldl_append

private theorem getMintData_of_resolved (resolved : resolver.Resolved encoding row) :
    resolver.getMintData encoding row =
      (resolver.markAll (if encoding.mintVolatile row then [.mutableMint] else []), encoding.mintData row) := by
  rw [getMintData, GpaEncoding.mintVolatile, GpaEncoding.mintData]
  cases resolves : encoding.resolves with
  | false => rfl
  | true =>
    cases found : encoding.mintOf row with
    | none => rfl
    | some mint =>
      simp only [if_true, Option.bind_some, Option.any_some, Bool.true_and]
      by_cases native : mint = encoding.nativeMint
      · simp [native, markAll]
      · rw [resolved resolves mint found native]
        cases atSlot : encoding.mintAt mint with
        | none => simp [native, markAll]
        | some data => cases immutable : encoding.immutable data <;> simp [native, markAll, immutable]

/-- One row of a batch whose mints are resolved adds its contribution. -/
theorem encodeRow_eq (resolved : resolver.Resolved encoding row) (accounts : List Account) :
    encodeRow encoding (resolver, accounts) row =
      (encoding.contribution row).map fun part => (resolver.markAll part.1, accounts ++ part.2) := by
  rw [encodeRow, getMintData_of_resolved resolved, GpaEncoding.contribution]
  cases encoding.encode row (encoding.mintData row) with
  | error => rfl
  | ok account =>
    simp only [Except.map]
    split
    · rw [markAll_append, List.append_nil]
      rfl
    · rfl

private theorem foldlM_encodeRow (resolved : ∀ row ∈ batch, resolver.Resolved encoding row) (accounts : List Account) :
    batch.foldlM (encodeRow encoding) (resolver, accounts) =
      (encoding.contributions batch).map fun part => (resolver.markAll part.1, accounts ++ part.2) := by
  induction batch generalizing resolver accounts with
  | nil =>
    change Except.ok _ = Except.ok (resolver, accounts ++ [])
    rw [List.append_nil]
  | cons row rest ih =>
    rw [List.foldlM_cons, encodeRow_eq (resolved row List.mem_cons_self), GpaEncoding.contributions]
    cases encoding.contribution row with
    | error => rfl
    | ok first =>
      have rest_resolved : ∀ row ∈ rest, (resolver.markAll first.1).Resolved encoding row := by
        intro other member resolves mint isMint native
        rw [markAll_mints]
        exact resolved other (List.mem_cons_of_mem _ member) resolves mint isMint native
      refine (ih rest_resolved _).trans ?_
      cases encoding.contributions rest with
      | error => rfl
      | ok others =>
        change Except.ok ((resolver.markAll first.1).markAll others.1, accounts ++ first.2 ++ others.2) =
          Except.ok (resolver.markAll (first.1 ++ others.1), accounts ++ (first.2 ++ others.2))
        rw [markAll_append, List.append_assoc]

/-! ## One batch -/

private theorem lookup_addMint (mints : HashMap Pubkey Mint) (mint key : Pubkey) :
    (addMint encoding mints mint).lookup key =
      if key = mint then (encoding.mintAt mint).or (mints.lookup key) else mints.lookup key := by
  rw [addMint]
  cases found : encoding.mintAt mint with
  | none => simp
  | some data => simp [HashMap.lookup_insert]

private theorem lookup_foldl_addMint (keys : List Pubkey) (mints : HashMap Pubkey Mint) (key : Pubkey) :
    (keys.foldl (addMint encoding) mints).lookup key =
      if key ∈ keys then (encoding.mintAt key).or (mints.lookup key) else mints.lookup key := by
  induction keys generalizing mints with
  | nil => simp
  | cons first rest ih =>
    rw [List.foldl_cons, ih, lookup_addMint]
    by_cases same : key = first
    · subst same
      by_cases again : key ∈ rest
      · simp only [again, List.mem_cons, or_true, if_true]
        cases encoding.mintAt key <;> simp
      · simp [again]
    · simp [same]

theorem resolveMints_volatility (resolver : MintResolver Mint) (batch : List Row) :
    (resolver.resolveMints encoding batch).volatility = resolver.volatility := by
  rw [MintResolver.resolveMints]
  split <;> rfl

theorem Knows.resolveMints (knows : resolver.Knows encoding) (batch : List Row) :
    (resolver.resolveMints encoding batch).Knows encoding := by
  rw [MintResolver.resolveMints]
  split
  · intro mint data found
    rw [lookup_foldl_addMint] at found
    split at found
    · cases atSlot : encoding.mintAt mint with
      | none =>
        rw [atSlot, Option.none_or] at found
        exact atSlot.symm.trans (knows mint data found)
      | some other =>
        rw [atSlot] at found
        exact found
    · exact knows mint data found
  · exact knows

theorem Knows.resolved (knows : resolver.Knows encoding) (member : row ∈ batch) :
    (resolver.resolveMints encoding batch).Resolved encoding row := by
  intro resolves mint isMint native
  rw [MintResolver.resolveMints, if_pos resolves, lookup_foldl_addMint]
  cases known : resolver.mints.lookup mint with
  | some data =>
    rw [knows mint data known]
    split <;> rfl
  | none =>
    have isNew : mint ∈ resolver.newMintKeys encoding batch := by
      refine List.mem_filter.mpr ⟨List.mem_filterMap.mpr ⟨row, member, isMint⟩, ?_⟩
      simp [native, known]
    rw [if_pos isNew, Option.or_none]

/-- A batch adds what its rows give, and keeps the mints at the slot. -/
theorem Knows.encodeBatch (knows : resolver.Knows encoding) (batch : List Row) :
    resolver.encodeBatch encoding batch = (encoding.contributions (batch.filter encoding.valueCmp)).map fun part =>
      ((resolver.resolveMints encoding (batch.filter encoding.valueCmp)).markAll part.1, part.2) :=
  foldlM_encodeRow (fun _ member => knows.resolved member) []

end MintResolver

end Cloudbreak.Model.Gpa
