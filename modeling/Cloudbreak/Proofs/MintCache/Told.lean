import Cloudbreak.Proofs.MintCache.ConfirmedChain

/-! # What the store tells of a mint

Through the slot the cache knows, an entry is the newest write at every slot from its own on, and a missing
mint is not live. The blocks of the confirmed chain keep that, also those that a load or a reload has
overtaken.
-/

namespace Cloudbreak.Model.MintCache

open Cloudbreak.ToMathlib
open ConfirmedChain (ofKey mem_ofKey mem_ofKey_changesAt newest_of_changes newest_of_quiet newest_of_immutable
  exists_newest newest_sealed)

namespace StoredMint

variable {held : StoredMint} {slot : ℕ} {change : MintChange}

/-- The slot and the write that a mint with a slot is served with. -/
def version : StoredMint → Option (ℕ × MintChange)
  | .mutable entry => some (entry.slot, .live entry.state)
  | .tombstone slot => some (slot, .closed)
  | .immutable _ | .missing => none

/-- A row of the table on the stored value alone. -/
def applyRow (slot : ℕ) (held : StoredMint) : Option MintState → StoredMint
  | some state => held.applyLive slot state
  | none => held.close slot false

/-- A write that leaves its mint as it is. -/
def Skips (slot : ℕ) (change : MintChange) (held : StoredMint) : Prop :=
  (∃ decimals, held = .immutable decimals) ∨
  (∃ version, held.version = some version ∧ (slot < version.1 ∨ change = version.2)) ∨
  held = .missing ∧ change = .closed

theorem apply_cases (held : StoredMint) (slot : ℕ) (change : MintChange) :
    held.apply slot change = held ∧ held.Skips slot change ∨
    held.apply slot change = changed slot change ∧
      ((∃ version, held.version = some version ∧ version.1 ≤ slot ∧ change ≠ version.2) ∨
        held = .missing ∧ change ≠ .closed) := by
  cases held with
  | immutable decimals =>
    left
    refine ⟨?_, Or.inl ⟨decimals, rfl⟩⟩
    cases change <;> rfl
  | missing =>
    cases change with
    | live state => exact Or.inr ⟨rfl, Or.inr ⟨rfl, MintChange.noConfusion⟩⟩
    | closed => exact Or.inl ⟨rfl, Or.inr (Or.inr ⟨rfl, rfl⟩)⟩
  | mutable entry =>
    cases change with
    | live state =>
      by_cases kept : entry.slot > slot ∨ entry.state = state
      · exact Or.inl ⟨if_pos kept, Or.inr (Or.inl ⟨_, rfl, kept.imp_right fun same => congrArg MintChange.live same.symm⟩)⟩
      · obtain ⟨late, differs⟩ := not_or.mp kept
        refine Or.inr ⟨if_neg kept, Or.inl ⟨_, rfl, Nat.le_of_not_lt late, fun same => differs ?_⟩⟩
        exact (MintChange.live.inj same).symm
    | closed =>
      by_cases newer : entry.slot > slot
      · exact Or.inl ⟨if_pos newer, Or.inr (Or.inl ⟨_, rfl, Or.inl newer⟩)⟩
      · exact Or.inr ⟨if_neg newer, Or.inl ⟨_, rfl, Nat.le_of_not_lt newer, MintChange.noConfusion⟩⟩
  | tombstone closed =>
    cases change with
    | live state =>
      by_cases newer : closed > slot
      · exact Or.inl ⟨if_pos newer, Or.inr (Or.inl ⟨_, rfl, Or.inl newer⟩)⟩
      · exact Or.inr ⟨if_neg newer, Or.inl ⟨_, rfl, Nat.le_of_not_lt newer, MintChange.noConfusion⟩⟩
    | closed => exact Or.inl ⟨rfl, Or.inr (Or.inl ⟨_, rfl, Or.inr rfl⟩)⟩

/-- A row is a write, except that a close of an unknown mint is kept. -/
theorem applyRow_eq (held : StoredMint) (slot : ℕ) (state : Option MintState) :
    held.applyRow slot state =
      if held = .missing then changed slot (state.elim .closed .live) else held.apply slot (state.elim .closed .live) := by
  cases state with
  | some state =>
    split
    · next missing => exact missing ▸ rfl
    · rfl
  | none =>
    cases held with
    | missing => rfl
    | _ => rfl

private theorem version_changed (slot : ℕ) (change : MintChange) :
    (∃ decimals, changed slot change = .immutable decimals ∧ change.Immutable) ∨
      (changed slot change).version = some (slot, change) := by
  cases change with
  | closed => exact Or.inr rfl
  | live state =>
    by_cases sealed : state.immutable = true
    · exact Or.inl ⟨state.decimals, if_pos sealed, sealed⟩
    · right
      change (written slot state).version = _
      rw [written, if_neg sealed]
      rfl

/-- The writes of one mint in one block. -/
def applySlot (slot : ℕ) (held : StoredMint) (changes : List MintChange) : StoredMint :=
  changes.foldl (fun current change => current.apply slot change) held

/-- A block leaves a mint, or the mint ends with the block's last write of it, unless it became immutable
before. -/
theorem applySlot_cases (held : StoredMint) (slot : ℕ) (changes : List MintChange) :
    held.applySlot slot changes = held ∧ (∀ change ∈ changes, held.Skips slot change) ∨
    ∃ change ∈ changes, held.applySlot slot changes = changed slot change ∧
      (change.Immutable ∨ changes.getLast? = some change) ∧
      ((∃ version, held.version = some version ∧ version.1 ≤ slot) ∨
        held = .missing ∧ ∃ other ∈ changes, other ≠ .closed) := by
  induction changes using List.reverseRecOn with
  | nil => exact Or.inl ⟨rfl, by simp⟩
  | append_singleton before final ih =>
    have unfolds : held.applySlot slot (before ++ [final]) = (held.applySlot slot before).apply slot final := by
      rw [applySlot, List.foldl_append]
      rfl
    rw [unfolds]
    have isFinal : final ∈ before ++ [final] := List.mem_append_right _ (List.mem_singleton_self final)
    rcases ih with ⟨same, skips⟩ | ⟨change, member, is_, isLast, open_⟩
    · rw [same]
      rcases apply_cases held slot final with ⟨kept, skip⟩ | ⟨is_, open_⟩
      · refine Or.inl ⟨kept, fun change member => ?_⟩
        rcases List.mem_append.mp member with early | late
        · exact skips change early
        · exact List.mem_singleton.mp late ▸ skip
      · refine Or.inr ⟨final, isFinal, is_, Or.inr List.getLast?_concat, ?_⟩
        rcases open_ with ⟨version, isVersion, low, _⟩ | ⟨missing, opens⟩
        · exact Or.inl ⟨version, isVersion, low⟩
        · exact Or.inr ⟨missing, final, isFinal, opens⟩
    · have open' : (∃ version, held.version = some version ∧ version.1 ≤ slot) ∨
          held = .missing ∧ ∃ other ∈ before ++ [final], other ≠ .closed := by
        rcases open_ with isVersion | ⟨missing, other, early, opens⟩
        · exact Or.inl isVersion
        · exact Or.inr ⟨missing, other, List.mem_append_left _ early, opens⟩
      rw [is_]
      rcases version_changed slot change with ⟨decimals, sealed, immutable⟩ | isVersion
      · refine Or.inr ⟨change, List.mem_append_left _ member, ?_, Or.inl immutable, open'⟩
        rw [sealed]
        cases final <;> rfl
      · rcases apply_cases (changed slot change) slot final with ⟨kept, skip⟩ | ⟨is_, _⟩
        · have same : final = change := by
            rcases skip with ⟨decimals, sealed⟩ | ⟨version, isOther, late⟩ | ⟨missing, _⟩
            · rw [sealed] at isVersion
              contradiction
            · rw [isVersion, Option.some.injEq] at isOther
              subst isOther
              exact late.resolve_left (lt_irrefl slot)
            · rw [missing] at isVersion
              contradiction
          exact Or.inr ⟨final, isFinal, kept.trans (same ▸ rfl), Or.inr List.getLast?_concat, open'⟩
        · exact Or.inr ⟨final, isFinal, is_, Or.inr List.getLast?_concat, open'⟩

end StoredMint

namespace ConfirmedChain

variable {chain : ConfirmedChain} {key : Pubkey} {known slot : ℕ} {change : MintChange} {held : StoredMint}

/-- A stored value that is right for the slots up to a known one. -/
def Told (chain : ConfirmedChain) (known : ℕ) (key : Pubkey) : StoredMint → Prop
  | .immutable decimals => ∃ slot state, state.immutable = true ∧ state.decimals = decimals ∧
      chain.newest key slot = some (.live state)
  | .mutable entry => chain.Lasts key entry.slot (max known entry.slot) (.live entry.state)
  | .tombstone slot => chain.Lasts key slot (max known slot) .closed
  | .missing => chain.NotLive key chain.firstDbSlot known

theorem told_of_version {version : ℕ × MintChange} (isVersion : held.version = some version) :
    chain.Told known key held ↔ chain.Lasts key version.1 (max known version.1) version.2 := by
  cases held with
  | mutable entry =>
    cases isVersion
    exact Iff.rfl
  | tombstone closed =>
    cases isVersion
    exact Iff.rfl
  | immutable decimals => contradiction
  | missing => contradiction

/-- What a write leaves is right when it stays the newest. -/
theorem told_changed (lasts : chain.Lasts key slot (max known slot) change) :
    chain.Told known key (StoredMint.changed slot change) := by
  rcases StoredMint.version_changed slot change with ⟨decimals, sealed, immutable⟩ | isVersion
  · cases change with
    | closed => contradiction
    | live state =>
      have isDecimals : StoredMint.changed slot (.live state) = .immutable state.decimals := if_pos immutable
      rw [isDecimals]
      exact ⟨slot, state, immutable, rfl, lasts slot le_rfl (le_max_right _ _)⟩
  · exact (told_of_version isVersion).mpr lasts

/-- A mint that is not live in a range and had a write before it is closed there. -/
theorem closed_of_not_live {since last : ℕ} (isNewest : chain.newest key since = some .closed)
    (notLive : chain.NotLive key since last) : chain.Lasts key since last .closed := by
  intro slot low high
  obtain ⟨later, isLater⟩ := exists_newest isNewest low
  cases later with
  | closed => exact isLater
  | live state => exact absurd isLater (notLive slot low high state)

section Block

variable (quiet : ∀ between, known < between → between < slot → ofKey key (chain.changesAt between) = [])
include quiet

/-- A version that a block does not change. -/
theorem lasts_of_skipped {version : ℕ × MintChange} (lasts : chain.Lasts key version.1 (max known version.1) version.2)
    (skips : ∀ change ∈ ofKey key (chain.changesAt slot), slot < version.1 ∨ change = version.2) :
    chain.Lasts key version.1 (max (max known slot) version.1) version.2 := by
  intro other low high
  by_cases within : other ≤ max known version.1
  · exact lasts other low within
  · have before := lasts (max known version.1) (le_max_right _ _) le_rfl
    have still : ∀ last, max known version.1 ≤ last → last < slot → chain.newest key last = some version.2 :=
      fun last above under => (newest_of_quiet above fun between higher lower =>
        quiet between (by omega) (by omega)).trans before
    by_cases reached : other < slot
    · exact still other (by omega) reached
    · obtain rfl : other = slot := by omega
      cases isLast : (ofKey key (chain.changesAt other)).getLast? with
      | none =>
        have none_ := List.getLast?_eq_none_iff.mp isLast
        refine (newest_of_quiet (le_of_lt (Nat.lt_of_not_le within)) fun between higher lower => ?_).trans before
        rcases lower.lt_or_eq with under | rfl
        · exact quiet between (by omega) under
        · exact none_
      | some final =>
        have same := (skips final (List.mem_of_getLast? isLast)).resolve_left (by omega)
        exact newest_of_changes (same ▸ isLast)

variable (first : chain.firstDbSlot ≤ known)
include first

/-- A missing mint that a block only closes. -/
theorem notLive_of_skipped (notLive : chain.NotLive key chain.firstDbSlot known)
    (skips : ∀ change ∈ ofKey key (chain.changesAt slot), change = .closed) :
    chain.NotLive key chain.firstDbSlot (max known slot) := by
  intro other low high state isNewest
  by_cases within : other ≤ known
  · exact notLive other low within state isNewest
  · by_cases reached : other < slot
    · have same : chain.newest key other = chain.newest key known :=
        newest_of_quiet (by omega) fun between above under => quiet between above (by omega)
      exact notLive known first le_rfl state (same.symm.trans isNewest)
    · obtain rfl : other = slot := by omega
      cases isLast : (ofKey key (chain.changesAt other)).getLast? with
      | none =>
        have none_ := List.getLast?_eq_none_iff.mp isLast
        have same : chain.newest key other = chain.newest key known := by
          refine newest_of_quiet (by omega) fun between above under => ?_
          rcases under.lt_or_eq with below | rfl
          · exact quiet between above below
          · exact none_
        exact notLive known first le_rfl state (same.symm.trans isNewest)
      | some final =>
        have closed := skips final (List.mem_of_getLast? isLast)
        have isClosed := (newest_of_changes isLast).symm.trans isNewest
        rw [closed, Option.some.injEq] at isClosed
        contradiction

/-- The next block of the chain, or one already known. -/
theorem Told.applySlot (told : chain.Told known key held) (above : chain.firstDbSlot ≤ slot) :
    chain.Told (max known slot) key (held.applySlot slot (ofKey key (chain.changesAt slot))) := by
  rcases StoredMint.applySlot_cases held slot (ofKey key (chain.changesAt slot)) with
    ⟨same, skips⟩ | ⟨change, member, is_, isLast, open_⟩
  · rw [same]
    cases held with
    | immutable decimals => exact told
    | missing =>
      refine notLive_of_skipped quiet first told fun change member => ?_
      rcases skips change member with ⟨_, sealed⟩ | ⟨_, isVersion, _⟩ | ⟨_, closed⟩
      · contradiction
      · contradiction
      · exact closed
    | mutable entry =>
      refine @lasts_of_skipped _ _ _ _ quiet (entry.slot, .live entry.state) told fun change member => ?_
      rcases skips change member with ⟨_, sealed⟩ | ⟨_, isVersion, late⟩ | ⟨missing, _⟩
      · contradiction
      · cases isVersion
        exact late
      · contradiction
    | tombstone closed =>
      refine @lasts_of_skipped _ _ _ _ quiet (closed, .closed) told fun change member => ?_
      rcases skips change member with ⟨_, sealed⟩ | ⟨_, isVersion, late⟩ | ⟨missing, _⟩
      · contradiction
      · cases isVersion
        exact late
      · contradiction
  · have isNewest : chain.newest key slot = some change := by
      rcases isLast with immutable | isLast
      · exact newest_of_immutable member immutable
      · exact newest_of_changes isLast
    rw [is_]
    refine told_changed ?_
    rw [max_eq_left (le_max_right known slot)]
    rcases open_ with ⟨version, isVersion, low⟩ | ⟨rfl, _⟩
    · -- a block already known repeats what the entry says
      intro other atLeast high
      rcases atLeast.eq_or_lt with rfl | later
      · exact isNewest
      · have lasts := (told_of_version isVersion).mp told
        have same : some change = some version.2 := isNewest.symm.trans (lasts slot low (by omega))
        rw [same]
        exact lasts other (by omega) (by omega)
    · by_cases ahead : known ≤ slot
      · rw [max_eq_right ahead]
        intro other atLeast high
        rw [le_antisymm high atLeast]
        exact isNewest
      · rw [max_eq_left (Nat.le_of_not_le ahead)]
        cases change with
        | live state => exact absurd isNewest (told slot above (Nat.le_of_not_le ahead) state)
        | closed =>
          exact closed_of_not_live isNewest fun other low high => told other (above.trans low) high

end Block

end ConfirmedChain

end Cloudbreak.Model.MintCache
