import Cloudbreak.Model.MintCache.Api
import Cloudbreak.Proofs.MintCache.ChangeHistory
import Cloudbreak.Proofs.SelfHealing.Chain

/-! # The newest write of a mint on the confirmed chain

The confirmed chain with its mint writes is what every answer is compared with. A mint keeps its state between
its writes, and from an immutable one on for good.
-/

namespace Cloudbreak.Model.MintCache

open Cloudbreak.ToMathlib
open SelfHealing (ChainBlock SingleChain)
open SelfHealing.SingleChain (IsParent lowest_or_parent)

/-- A live write of an immutable mint. -/
def MintChange.Immutable : MintChange → Prop
  | .live state => state.immutable = true
  | .closed => False

instance : DecidablePred MintChange.Immutable
  | .live state => inferInstanceAs (Decidable (state.immutable = true))
  | .closed => inferInstanceAs (Decidable False)

/-- What a row of the table says of its mint. -/
def MintRow.change (row : MintRow) : MintChange := row.state.elim .closed .live

/-- After an immutable write a mint is written the same again. -/
def AccountWrite.Seals (early late : AccountWrite) : Prop :=
  early.pubkey = late.pubkey → early.change.Immutable → late.change = early.change

instance (early late : AccountWrite) : Decidable (early.Seals late) :=
  inferInstanceAs (Decidable (early.pubkey = late.pubkey → early.change.Immutable → late.change = early.change))

/-- The confirmed blocks with the writes of their mints and closes, in block order. The table is never published
below its first slot, and the system program is no mint. -/
structure ConfirmedChain extends SingleChain where
  writes : List AccountWrite
  firstDbSlot : ℕ
  reaches : ∃ block ∈ blocks, block.slot ≤ firstDbSlot
  onChain : ∀ write ∈ writes, ∃ block ∈ blocks, block.slot = write.slot
  sealed : ∀ early ∈ writes, ∀ late ∈ writes, early.slot < late.slot → early.Seals late
  sealedWithin : writes.Pairwise fun early late => early.slot = late.slot → early.Seals late
  systemNotMint : ∀ write ∈ writes, write.pubkey = systemProgramId → write.change = .closed

namespace ConfirmedChain

variable {chain : ConfirmedChain} {key : Pubkey} {slot since last : ℕ} {change : MintChange}

/-- The writes of one block. -/
def changesAt (chain : ConfirmedChain) (slot : ℕ) : List (Pubkey × MintChange) :=
  (chain.writes.filter fun write => decide (write.slot = slot)).map fun write => (write.pubkey, write.change)

/-- The writes of one key in a list of changes. -/
def ofKey (key : Pubkey) (changes : List (Pubkey × MintChange)) : List MintChange :=
  (changes.filter fun change => decide (change.1 = key)).map Prod.snd

/-- The newest write of a key at or below a slot. -/
def newest (chain : ConfirmedChain) (key : Pubkey) : ℕ → Option MintChange
  | 0 => (ofKey key (chain.changesAt 0)).getLast?
  | slot + 1 => (ofKey key (chain.changesAt (slot + 1))).getLast?.or (chain.newest key slot)

/-- One write is the newest one through a range of slots. -/
def Lasts (chain : ConfirmedChain) (key : Pubkey) (since last : ℕ) (change : MintChange) : Prop :=
  ∀ slot, since ≤ slot → slot ≤ last → chain.newest key slot = some change

instance (chain : ConfirmedChain) (key : Pubkey) (since last : ℕ) (change : MintChange) :
    Decidable (chain.Lasts key since last change) :=
  decidable_of_iff (∀ slot < last + 1, since ≤ slot → chain.newest key slot = some change)
    ⟨fun lasts slot low high => lasts slot (Nat.lt_succ_of_le high) low,
      fun lasts slot high low => lasts slot low (Nat.le_of_lt_succ high)⟩

/-- A mint that is not live in a range of slots. -/
def NotLive (chain : ConfirmedChain) (key : Pubkey) (since last : ℕ) : Prop :=
  ∀ slot, since ≤ slot → slot ≤ last → ∀ state, chain.newest key slot ≠ some (.live state)

instance (chain : ConfirmedChain) (key : Pubkey) (since last : ℕ) : Decidable (chain.NotLive key since last) :=
  decidable_of_iff (∀ slot < last + 1, since ≤ slot → (chain.newest key slot).getD .closed = .closed) (by
    have isClosed : ∀ slot, (chain.newest key slot).getD .closed = .closed ↔
        ∀ state, chain.newest key slot ≠ some (.live state) := by
      intro slot
      rcases chain.newest key slot with _ | (state | _) <;> simp
    simp only [isClosed, Nat.lt_succ_iff]
    exact ⟨fun notLive slot low high => notLive slot high low, fun notLive slot high low => notLive slot low high⟩)

theorem mem_ofKey {changes : List (Pubkey × MintChange)} : change ∈ ofKey key changes ↔ (key, change) ∈ changes := by
  simp [ofKey]

theorem mem_ofKey_changesAt : change ∈ ofKey key (chain.changesAt slot) ↔ ⟨key, slot, change⟩ ∈ chain.writes := by
  rw [mem_ofKey, changesAt, List.mem_map]
  constructor
  · rintro ⟨⟨pubkey, at_, written⟩, member, same⟩
    obtain ⟨inside, isSlot⟩ := List.mem_filter.mp member
    cases same
    cases of_decide_eq_true isSlot
    exact inside
  · intro inside
    exact ⟨⟨key, slot, change⟩, List.mem_filter.mpr ⟨inside, decide_eq_true rfl⟩, rfl⟩

theorem newest_of_changes (isLast : (ofKey key (chain.changesAt slot)).getLast? = some change) :
    chain.newest key slot = some change := by
  cases slot with
  | zero => exact isLast
  | succ slot => rw [newest, isLast, Option.some_or]

/-- Without writes of a key its newest write stays. -/
theorem newest_of_quiet (low : since ≤ slot)
    (quiet : ∀ between, since < between → between ≤ slot → ofKey key (chain.changesAt between) = []) :
    chain.newest key slot = chain.newest key since := by
  induction slot, low using Nat.le_induction with
  | base => rfl
  | succ slot low ih =>
    rw [newest, quiet (slot + 1) (Nat.lt_succ_of_le low) le_rfl, List.getLast?_nil, Option.none_or]
    exact ih fun between above below => quiet between above (below.trans (Nat.le_succ slot))

/-- A slot without a block changes nothing. -/
theorem quiet_of_no_block (noBlock : ∀ block ∈ chain.blocks, block.slot ≠ slot) :
    ofKey key (chain.changesAt slot) = [] := by
  refine List.eq_nil_iff_forall_not_mem.mpr fun change member => ?_
  obtain ⟨block, isBlock, same⟩ := chain.onChain _ (mem_ofKey_changesAt.mp member)
  exact noBlock block isBlock same

theorem exists_newest (isNewest : chain.newest key since = some change) (low : since ≤ slot) :
    ∃ later, chain.newest key slot = some later := by
  induction slot, low using Nat.le_induction with
  | base => exact ⟨change, isNewest⟩
  | succ slot low ih =>
    obtain ⟨before, isBefore⟩ := ih
    rw [newest, isBefore]
    cases (ofKey key (chain.changesAt (slot + 1))).getLast? with
    | none => exact ⟨before, rfl⟩
    | some later => exact ⟨later, rfl⟩

theorem exists_write_of_newest (isNewest : chain.newest key slot = some change) :
    ∃ at_ ≤ slot, ⟨key, at_, change⟩ ∈ chain.writes := by
  induction slot with
  | zero => exact ⟨0, le_rfl, mem_ofKey_changesAt.mp (List.mem_of_getLast? isNewest)⟩
  | succ slot ih =>
    rw [newest] at isNewest
    rcases Option.or_eq_some_iff.mp isNewest with isLast | ⟨_, before⟩
    · exact ⟨slot + 1, le_rfl, mem_ofKey_changesAt.mp (List.mem_of_getLast? isLast)⟩
    · obtain ⟨at_, low, isWrite⟩ := ih before
      exact ⟨at_, low.trans (Nat.le_succ slot), isWrite⟩

/-- An immutable write of a block is the block's last of its key. -/
theorem newest_of_immutable (member : change ∈ ofKey key (chain.changesAt slot)) (immutable : change.Immutable) :
    chain.newest key slot = some change := by
  have sorted : (ofKey key (chain.changesAt slot)).Pairwise fun early late => early.Immutable → late = early := by
    rw [ofKey, changesAt, List.filter_map, List.map_map]
    refine List.pairwise_map.mpr ?_
    refine (chain.sealedWithin.sublist (List.filter_sublist.trans List.filter_sublist)).imp_of_mem ?_
    intro early late isEarly isLate seals
    obtain ⟨isEarlyAt, isEarlyKey⟩ := List.mem_filter.mp isEarly
    obtain ⟨isLateAt, isLateKey⟩ := List.mem_filter.mp isLate
    have sameSlot : early.slot = late.slot :=
      (of_decide_eq_true (List.mem_filter.mp isEarlyAt).2).trans (of_decide_eq_true (List.mem_filter.mp isLateAt).2).symm
    have sameKey : early.pubkey = late.pubkey :=
      (of_decide_eq_true isEarlyKey).trans (of_decide_eq_true isLateKey).symm
    exact seals sameSlot sameKey
  refine newest_of_changes ?_
  rcases List.eq_nil_or_concat (ofKey key (chain.changesAt slot)) with none_ | ⟨before, final, whole⟩
  · rw [none_] at member
    contradiction
  · rw [List.concat_eq_append] at whole
    rw [whole] at member sorted ⊢
    rw [List.getLast?_concat]
    rcases List.mem_append.mp member with early | isFinal
    · exact congrArg some ((List.pairwise_append.mp sorted).2.2 change early final (List.mem_singleton_self final) immutable)
    · rw [List.mem_singleton.mp isFinal]

/-- An immutable mint is written the same for good. -/
theorem newest_sealed (isNewest : chain.newest key since = some change) (immutable : change.Immutable)
    (low : since ≤ slot) : chain.newest key slot = some change := by
  obtain ⟨at_, below, isWrite⟩ := exists_write_of_newest isNewest
  induction slot, low using Nat.le_induction with
  | base => exact isNewest
  | succ slot low ih =>
    rw [newest]
    cases isLast : (ofKey key (chain.changesAt (slot + 1))).getLast? with
    | none => exact ih
    | some final =>
      have isLate := mem_ofKey_changesAt.mp (List.mem_of_getLast? isLast)
      have seals := chain.sealed _ isWrite _ isLate (Nat.lt_succ_of_le (below.trans low))
      exact congrArg some (seals rfl immutable)

/-- The system program's key is never live. -/
theorem newest_system (state : MintState) : chain.newest systemProgramId slot ≠ some (.live state) := by
  intro isNewest
  obtain ⟨_, _, isWrite⟩ := exists_write_of_newest isNewest
  have := chain.systemNotMint _ isWrite rfl
  contradiction

/-- No write between a chain block and its parent, for any parent at or above the first slot of the table. -/
theorem parent_of_block {block : ChainBlock} (isBlock : block ∈ chain.blocks) (older : block.parentSlot < block.slot)
    (high : chain.firstDbSlot ≤ block.parentSlot) :
    (∃ parent ∈ chain.blocks, parent.slot = block.parentSlot ∧ parent.blockhash = block.parentBlockhash) ∧
    ∀ key between, block.parentSlot < between → between < block.slot → ofKey key (chain.changesAt between) = [] := by
  rcases lowest_or_parent isBlock with lowest | ⟨parent, isParent, below, link, nearest⟩
  · obtain ⟨first, isFirst, low⟩ := chain.reaches
    have := lowest first isFirst
    omega
  · refine ⟨⟨parent, isParent, link.1.symm, link.2.symm⟩, fun key between above under => quiet_of_no_block ?_⟩
    rintro other isOther rfl
    have := nearest other isOther under
    have := link.1
    omega

end ConfirmedChain

end Cloudbreak.Model.MintCache
