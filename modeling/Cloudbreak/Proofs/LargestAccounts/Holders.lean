import Cloudbreak.Model.LargestAccounts.Holders
import Cloudbreak.Proofs.LargestAccounts.Emission
import Cloudbreak.Proofs.LargestAccounts.Reservoir

/-! # A block keeps every top on its holders

A state holds a family of holder maps, one for each mint, when every top follows its own and the reverse index lists
the entries of the token mints. A removal and a live update each change one holder of one mint.
-/

namespace Cloudbreak.Model.LargestAccounts

open Cloudbreak.ToMathlib

variable {shared : Shared} {state next : TrackerState} {mint pubkey other : Pubkey} {top : MintTop}
  {holders : Pubkey → Pubkey → Option Entry}

/-- The entry of an account in a top. -/
def TrackerState.entry (state : TrackerState) (mint pubkey : Pubkey) : Option Entry :=
  (state.mints.lookup mint).bind fun top => top.entries.lookup pubkey

/-- One holder of one mint changes. -/
def setHolder (holders : Pubkey → Pubkey → Option Entry) (mint pubkey : Pubkey) (held : Option Entry) :
    Pubkey → Pubkey → Option Entry :=
  Function.update holders mint (Function.update (holders mint) pubkey held)

theorem setHolder_apply (held : Option Entry) (mint' pubkey' : Pubkey) : setHolder holders mint pubkey held mint' pubkey' =
    if mint' = mint ∧ pubkey' = pubkey then held else holders mint' pubkey' := by
  unfold setHolder
  by_cases same : mint' = mint
  · subst same
    rw [Function.update_self]
    by_cases samePubkey : pubkey' = pubkey
    · subst samePubkey
      rw [Function.update_self, if_pos ⟨rfl, rfl⟩]
    · rw [Function.update_of_ne samePubkey, if_neg fun both => samePubkey both.2]
  · rw [Function.update_of_ne same, if_neg fun both => same both.1]

/-- The reverse index lists the entries of the token mints. -/
def TrackerState.Indexed (state : TrackerState) : Prop :=
  ∀ pubkey mint, state.memberIndex.lookup pubkey = some mint ↔
    isSentinel mint = false ∧ (state.entry mint pubkey).isSome

/-- Every top follows its holders. -/
structure TrackerState.Holds (shared : Shared) (holders : Pubkey → Pubkey → Option Entry) (state : TrackerState) :
    Prop where
  tops : ∀ mint top, state.mints.lookup mint = some top → top.Follows (holders mint) (shared.kFor mint)
  indexed : state.Indexed
  sized : ∀ mint top, state.mints.lookup mint = some top → 0 < shared.kFor mint

namespace TrackerState

theorem entry_of_present (present : state.mints.lookup mint = some top) (pubkey : Pubkey) :
    state.entry mint pubkey = top.entries.lookup pubkey := by
  rw [entry, present, Option.bind_some]

/-- The tops of the next state are those of this one, except for one mint. -/
def Replaces (state next : TrackerState) (mint : Pubkey) (top : MintTop) : Prop :=
  ∀ other, next.mints.lookup other = if other = mint then some top else state.mints.lookup other

theorem Replaces.of_setTop (mints : next.mints = (state.setTop mint top).mints) : state.Replaces next mint top := by
  intro other
  rw [mints, setTop, HashMap.lookup_insert]

theorem Replaces.congr {before : TrackerState} (replaces : state.Replaces next mint top)
    (mints : before.mints = state.mints) : before.Replaces next mint top := by
  intro other
  rw [replaces other, mints]

theorem Replaces.same (present : state.mints.lookup mint = some top) : state.Replaces state mint top := by
  intro other
  split
  · next same => rw [same, present]
  · rfl

theorem Replaces.entry (replaces : state.Replaces next mint top) (other pubkey : Pubkey) :
    next.entry other pubkey = if other = mint then top.entries.lookup pubkey else state.entry other pubkey := by
  rw [TrackerState.entry, replaces other]
  split <;> rfl

private theorem memberIndex_unindex (state : TrackerState) (mint pubkey other : Pubkey) :
    (state.unindex mint pubkey).memberIndex.lookup other =
      if isSentinel mint = false ∧ other = pubkey then none else state.memberIndex.lookup other := by
  unfold unindex
  by_cases sentinel : isSentinel mint
  · simp [sentinel]
  · simp [sentinel, HashMap.lookup_erase]

private theorem memberIndex_index (state : TrackerState) (mint pubkey other : Pubkey) :
    (state.index mint pubkey).memberIndex.lookup other =
      if isSentinel mint = false ∧ other = pubkey then some mint else state.memberIndex.lookup other := by
  unfold index
  by_cases sentinel : isSentinel mint
  · simp [sentinel]
  · simp [sentinel, HashMap.lookup_insert]

theorem unindex_congr (same : next.memberIndex = state.memberIndex) (mint pubkey : Pubkey) :
    (next.unindex mint pubkey).memberIndex = (state.unindex mint pubkey).memberIndex := by
  unfold unindex
  split
  · exact same
  · exact congrArg (AList.erase pubkey) same

private theorem index_congr (same : next.memberIndex = state.memberIndex) (mint pubkey : Pubkey) :
    (next.index mint pubkey).memberIndex = (state.index mint pubkey).memberIndex := by
  unfold index
  split
  · exact same
  · exact congrArg (AList.insert pubkey mint) same

theorem index_mints (state : TrackerState) (mint pubkey : Pubkey) : (state.index mint pubkey).mints = state.mints := by
  unfold index
  split <;> rfl

/-! ## The reverse index -/

namespace Indexed

/-- An account is an entry of at most one token mint. -/
theorem only_mint (indexed : state.Indexed) (first : isSentinel mint = false)
    (isEntry : (state.entry mint pubkey).isSome) (second : isSentinel other = false)
    (otherEntry : (state.entry other pubkey).isSome) : other = mint := by
  have index := (indexed pubkey mint).mpr ⟨first, isEntry⟩
  rw [(indexed pubkey other).mpr ⟨second, otherEntry⟩] at index
  exact Option.some.inj index

/-- The replaced top has the same accounts. -/
theorem same (indexed : state.Indexed) (present : state.mints.lookup mint = some top) {changed : MintTop}
    (replaces : state.Replaces next mint changed) (index : next.memberIndex = state.memberIndex)
    (accounts : ∀ pubkey, (changed.entries.lookup pubkey).isSome = (top.entries.lookup pubkey).isSome) :
    next.Indexed := by
  intro pubkey other
  rw [index, indexed pubkey other, replaces.entry]
  split
  · next same => rw [accounts, same, entry_of_present present]
  · rfl

/-- One account leaves the top and the index. -/
theorem erase (indexed : state.Indexed) (present : state.mints.lookup mint = some top)
    (isEntry : (top.entries.lookup pubkey).isSome) {changed : MintTop} (replaces : state.Replaces next mint changed)
    (entries : changed.entries = top.entries.erase pubkey)
    (index : next.memberIndex = (state.unindex mint pubkey).memberIndex) :
    next.Indexed := by
  intro account other
  rw [index, memberIndex_unindex, replaces.entry, entries, HashMap.lookup_erase]
  by_cases isAccount : account = pubkey
  · subst isAccount
    by_cases sentinel : isSentinel mint = false
    · rw [if_pos ⟨sentinel, rfl⟩, if_pos rfl]
      refine ⟨fun none => absurd none (Option.some_ne_none _).symm, fun ⟨token, otherEntry⟩ => ?_⟩
      split at otherEntry
      · contradiction
      · next differs =>
        exact absurd (indexed.only_mint sentinel (by rwa [entry_of_present present]) token otherEntry) differs
    · rw [if_neg fun both => sentinel both.1, indexed account other]
      refine and_congr_right fun token => ?_
      rw [if_neg fun same : other = mint => sentinel (same ▸ token)]
  · rw [if_neg fun both => isAccount both.2, if_neg isAccount, indexed account other]
    split
    · next same => rw [same, entry_of_present present]
    · rfl

/-- One account enters the top and the index. -/
theorem insert (indexed : state.Indexed) (present : state.mints.lookup mint = some top)
    (free : isSentinel mint = false → ∀ other, state.memberIndex.lookup pubkey = some other → other = mint)
    {changed : MintTop} {entry : Entry} (replaces : state.Replaces next mint changed)
    (entries : changed.entries = top.entries.insert pubkey entry)
    (index : next.memberIndex = (state.index mint pubkey).memberIndex) :
    next.Indexed := by
  intro account other
  rw [index, memberIndex_index, replaces.entry, entries, HashMap.lookup_insert]
  by_cases isAccount : account = pubkey
  · subst isAccount
    by_cases sentinel : isSentinel mint = false
    · rw [if_pos ⟨sentinel, rfl⟩, if_pos rfl]
      constructor
      · intro same
        cases same
        exact ⟨sentinel, by rw [if_pos rfl]; rfl⟩
      · rintro ⟨token, otherEntry⟩
        split at otherEntry
        · next same => rw [same]
        · rw [free sentinel other ((indexed account other).mpr ⟨token, otherEntry⟩)]
    · rw [if_neg fun both => sentinel both.1, indexed account other]
      refine and_congr_right fun token => ?_
      rw [if_neg fun same : other = mint => sentinel (same ▸ token)]
  · rw [if_neg fun both => isAccount both.2, if_neg isAccount, indexed account other]
    split
    · next same => rw [same, entry_of_present present]
    · rfl

end Indexed

end TrackerState

namespace TrackerState.Holds

theorem entry_holder (holds : state.Holds shared holders) {entry : Entry} (present : state.entry mint pubkey = some entry) :
    holders mint pubkey = some entry := by
  obtain ⟨top, isTop, isEntry⟩ := Option.bind_eq_some_iff.mp present
  exact (holds.tops mint top isTop).held pubkey entry isEntry

/-- One top is replaced by one that follows other holders. -/
theorem replace (holds : state.Holds shared holders) (present : state.mints.lookup mint = some top) {changed : MintTop}
    {holder : Pubkey → Option Entry} (follows : changed.Follows holder (shared.kFor mint))
    (replaces : state.Replaces next mint changed)
    (indexed : next.Indexed) : next.Holds shared (Function.update holders mint holder) where
  tops other otherTop isTop := by
    rw [replaces other] at isTop
    split at isTop
    · next same =>
      cases isTop
      rw [same, Function.update_self]
      exact follows
    · next differs =>
      rw [Function.update_of_ne differs]
      exact holds.tops other otherTop isTop
  indexed := indexed
  sized other otherTop isTop := by
    rw [replaces other] at isTop
    split at isTop
    · next same => rw [same]; exact holds.sized mint top present
    · exact holds.sized other otherTop isTop

/-- A mint without a top has any holders. -/
theorem untracked (holds : state.Holds shared holders) (absent : state.mints.lookup mint = none)
    (holder : Pubkey → Option Entry) : state.Holds shared (Function.update holders mint holder) where
  tops other top present := by
    have differs : other ≠ mint := fun same => by
      rw [same, absent] at present
      contradiction
    rw [Function.update_of_ne differs]
    exact holds.tops other top present
  indexed := holds.indexed
  sized := holds.sized

/-- Holders that their top left out may be forgotten. -/
theorem weaken {fewer : Pubkey → Pubkey → Option Entry} (holds : state.Holds shared holders)
    (forgotten : ∀ mint pubkey, fewer mint pubkey = holders mint pubkey ∨
      fewer mint pubkey = none ∧ state.entry mint pubkey = none) : state.Holds shared fewer where
  tops mint top present := by
    have follows := holds.tops mint top present
    refine ⟨follows.toCovers.weaken fun pubkey => (forgotten mint pubkey).imp id fun gone => ?_, follows.bounded,
      follows.cached⟩
    exact ⟨gone.1, (TrackerState.entry_of_present present pubkey).symm.trans gone.2⟩
  indexed := holds.indexed
  sized := holds.sized

end TrackerState.Holds

/-! ## One removal -/

namespace Touching

variable {touching : Touching} {stamp : Stamp} {entry : Entry}

/-- A state at least as new as the stamp is not removed. -/
theorem removeMember_of_newer (newer : ∀ entry, touching.state.entry mint pubkey = some entry → ¬entry.stamp < stamp) :
    touching.removeMember mint pubkey stamp = touching := by
  unfold removeMember
  split
  · rfl
  · next top present =>
    split
    · rfl
    · next entry isEntry =>
      rw [if_neg (newer entry ((TrackerState.entry_of_present present pubkey).trans isEntry))]

/-- An older holder of a mint is gone. -/
theorem removeMember_holds (holds : touching.state.Holds shared holders)
    (older : ∀ entry, touching.state.entry mint pubkey = some entry → entry.stamp < stamp) :
    (touching.removeMember mint pubkey stamp).state.Holds shared (setHolder holders mint pubkey none) := by
  -- Where the account is no entry, its holder is forgotten.
  have forget (absent : touching.state.entry mint pubkey = none) :
      touching.state.Holds shared (setHolder holders mint pubkey none) := by
    refine holds.weaken fun other otherPubkey => ?_
    rw [setHolder_apply]
    split
    · next both => exact Or.inr ⟨rfl, both.1 ▸ both.2 ▸ absent⟩
    · exact Or.inl rfl
  unfold removeMember
  split
  · next absent => exact forget (by rw [TrackerState.entry, absent, Option.bind_none])
  · next top present =>
    have isEntry := TrackerState.entry_of_present present pubkey
    split
    · next absent => exact forget (isEntry.trans absent)
    · next entry found =>
      rw [if_pos (older entry (isEntry.trans found))]
      have follows := holds.tops mint top present
      have replaces (changed : MintTop) : touching.state.Replaces
          ((touching.state.setTop mint changed).unindex mint pubkey) mint changed :=
        .of_setTop (TrackerState.unindex_mints _ _ _)
      refine holds.replace present ?_ (replaces _) ?_
      · refine ⟨follows.toCovers.erase ?_ ?_, ?_, ?_⟩
        · split <;> rfl
        · split <;> exact le_rfl
        · refine le_trans (le_of_eq ?_) ((HashMap.size_erase_le top.entries pubkey).trans follows.bounded)
          split <;> rfl
        · split
          · rfl
          · next notMin =>
            refine follows.cached.trans (MintTop.minEntry_erase rfl fun item isMin same => notMin ?_).symm
            rw [follows.cached, isMin]
            exact decide_eq_true same
      · refine holds.indexed.erase present (by rw [found]; rfl) (replaces _) ?_ ?_
        · split <;> rfl
        · exact @TrackerState.unindex_congr touching.state (touching.state.setTop mint _) rfl mint pubkey

/-! ## One update of a live tracker -/

/-- Only the floor rises: the holders are any that the raised top covers. -/
theorem dropAmount_holds (holds : touching.state.Holds shared holders)
    (present : touching.state.mints.lookup mint = some top) (amount : ℕ) {holder : Pubkey → Option Entry}
    (covers : ∀ floor, top.droppedFloor ≤ floor → amount ≤ floor →
      MintTop.Covers { top with droppedFloor := floor } holder) :
    (touching.dropAmount mint top amount).state.Holds shared (Function.update holders mint holder) := by
  have follows := holds.tops mint top present
  unfold dropAmount
  split
  · next above =>
    exact holds.replace present ⟨covers amount above.le le_rfl, follows.bounded, follows.cached⟩ (.of_setTop rfl)
      (holds.indexed.same present (.of_setTop rfl) rfl fun _ => rfl)
  · next notAbove =>
    exact holds.replace present ⟨covers top.droppedFloor le_rfl (not_lt.mp notAbove), follows.bounded, follows.cached⟩
      (.same present) holds.indexed

/-- An entry is overwritten by a newer state. -/
theorem updateMember_holds (holds : touching.state.Holds shared holders)
    (present : touching.state.mints.lookup mint = some top) {old : Entry}
    (isEntry : top.entries.lookup pubkey = some old) (newer : old.stamp < entry.stamp) :
    (touching.updateMember mint pubkey top old entry).state.Holds shared
      (setHolder holders mint pubkey (some entry)) := by
  have follows := holds.tops mint top present
  have size : (top.entries.insert pubkey entry).entries.length = top.entries.entries.length := by
    rw [HashMap.size_insert, HashMap.size_erase_add_one isEntry]
  have accounts : ∀ other,
      ((top.entries.insert pubkey entry).lookup other).isSome = (top.entries.lookup other).isSome := by
    intro other
    rw [HashMap.lookup_insert]
    split
    · next same => rw [same, isEntry]; rfl
    · rfl
  let updated : MintTop := { top with entries := top.entries.insert pubkey entry }
  unfold updateMember
  rw [if_pos newer]
  dsimp only
  split
  · have refreshed : updated.refreshCachedMin.Follows (Function.update (holders mint) pubkey (some entry))
        (shared.kFor mint) :=
      ⟨follows.toCovers.insert rfl le_rfl, size.le.trans follows.bounded, rfl⟩
    exact holds.replace present refreshed (.of_setTop rfl) (holds.indexed.same present (.of_setTop rfl) rfl accounts)
  · next notMin =>
    have entries := @MintTop.entries_lowerCachedMin updated pubkey entry.amount
    have floor := @MintTop.droppedFloor_lowerCachedMin updated pubkey entry.amount
    have lowered : (updated.lowerCachedMin pubkey entry.amount).Follows
        (Function.update (holders mint) pubkey (some entry)) (shared.kFor mint) := by
      refine ⟨follows.toCovers.insert entries floor.ge, ?_, ?_⟩
      · rw [entries]
        exact size.le.trans follows.bounded
      · refine MintTop.cachedMin_lower follows.cached rfl rfl fun item isMin same => notMin ?_
        rw [follows.cached, isMin]
        exact decide_eq_true same
    exact holds.replace present lowered (.of_setTop rfl)
      (holds.indexed.same present (.of_setTop rfl) rfl fun other => by rw [entries]; exact accounts other)

/-- A new entry where there is room. -/
theorem insertMember_holds (holds : touching.state.Holds shared holders)
    (present : touching.state.mints.lookup mint = some top) (absent : top.entries.lookup pubkey = none)
    (room : top.entries.entries.length < shared.kFor mint)
    (free : isSentinel mint = false → ∀ other, touching.state.memberIndex.lookup pubkey = some other → other = mint) :
    (touching.insertMember mint pubkey top entry false).state.Holds shared
      (setHolder holders mint pubkey (some entry)) := by
  have follows := holds.tops mint top present
  let inserted : MintTop := { top with entries := top.entries.insert pubkey entry }
  have entries := @MintTop.entries_lowerCachedMin inserted pubkey entry.amount
  have floor := @MintTop.droppedFloor_lowerCachedMin inserted pubkey entry.amount
  have replaces (changed : MintTop) :
      touching.state.Replaces ((touching.state.setTop mint changed).index mint pubkey) mint changed :=
    .of_setTop (TrackerState.index_mints _ _ _)
  have lowered : (inserted.lowerCachedMin pubkey entry.amount).Follows
      (Function.update (holders mint) pubkey (some entry)) (shared.kFor mint) := by
    refine ⟨follows.toCovers.insert entries floor.ge, ?_, ?_⟩
    · rw [entries, HashMap.size_insert, HashMap.size_erase_of_absent absent]
      exact room
    · refine MintTop.cachedMin_lower follows.cached rfl rfl fun item isMin same => ?_
      obtain ⟨held, isEntry, -⟩ := MintTop.mem_amounts.mp (MintTop.minEntry_eq_some.mp isMin).1
      rw [same, absent] at isEntry
      contradiction
  exact holds.replace present lowered (replaces _) (holds.indexed.insert present free (replaces _) entries
    (@TrackerState.index_congr touching.state (touching.state.setTop mint _) rfl mint pubkey))

/-- A new entry in the place of the minimum. -/
theorem evictMember_holds (holds : touching.state.Holds shared holders)
    (present : touching.state.mints.lookup mint = some top) (absent : top.entries.lookup pubkey = none)
    {victim : Pubkey × ℕ} (isMin : top.minEntry = some victim)
    (free : isSentinel mint = false → ∀ other, touching.state.memberIndex.lookup pubkey = some other → other = mint) :
    (insertMember { touching with state := touching.state.unindex mint victim.1 } mint pubkey (top.dropVictim victim)
      entry true).state.Holds shared (setHolder holders mint pubkey (some entry)) := by
  have follows := holds.tops mint top present
  have member := (MintTop.minEntry_eq_some.mp isMin).1
  obtain ⟨held, isEntry, -⟩ := MintTop.mem_amounts.mp member
  have size := HashMap.size_erase_add_one isEntry
  have differs : pubkey ≠ victim.1 := fun same => by
    rw [← same, absent] at isEntry
    contradiction
  have stillAbsent : (top.dropVictim victim).entries.lookup pubkey = none := by
    rw [MintTop.dropVictim, HashMap.lookup_erase, if_neg differs, absent]
  -- The state after the eviction alone.
  let evicted := (touching.state.setTop mint (top.dropVictim victim)).unindex mint victim.1
  have evicts : touching.state.Replaces evicted mint (top.dropVictim victim) :=
    .of_setTop (TrackerState.unindex_mints _ _ _)
  have evictedIndexed : evicted.Indexed := holds.indexed.erase present (by rw [isEntry]; rfl) evicts rfl
    (@TrackerState.unindex_congr touching.state (touching.state.setTop mint _) rfl mint victim.1)
  have evictedTop : evicted.mints.lookup mint = some (top.dropVictim victim) := (evicts mint).trans (if_pos rfl)
  have evictedFree : isSentinel mint = false → ∀ other, evicted.memberIndex.lookup pubkey = some other →
      other = mint := by
    intro token other indexed
    rw [TrackerState.memberIndex_unindex, if_neg fun both => differs both.2] at indexed
    exact free token other indexed
  let inserted : MintTop :=
    { top.dropVictim victim with entries := (top.dropVictim victim).entries.insert pubkey entry }
  have refreshed : inserted.refreshCachedMin.Follows (Function.update (holders mint) pubkey (some entry))
      (shared.kFor mint) := by
    refine ⟨(follows.toCovers.dropVictim member).insert rfl le_rfl, (HashMap.size_insert _ _ _).le.trans ?_, rfl⟩
    rw [HashMap.size_erase_of_absent stillAbsent]
    exact size.le.trans follows.bounded
  let last := ((touching.state.unindex mint victim.1).setTop mint inserted.refreshCachedMin).index mint pubkey
  have replaces : touching.state.Replaces last mint inserted.refreshCachedMin := by
    intro other
    rw [TrackerState.index_mints, TrackerState.setTop, HashMap.lookup_insert, TrackerState.unindex_mints]
  have lastReplaces : evicted.Replaces last mint inserted.refreshCachedMin := by
    intro other
    rw [replaces other, evicts other]
    split <;> rfl
  have sameIndex : ((touching.state.unindex mint victim.1).setTop mint inserted.refreshCachedMin).memberIndex =
      evicted.memberIndex :=
    (@TrackerState.unindex_congr touching.state (touching.state.setTop mint _) rfl mint victim.1).symm
  exact holds.replace present refreshed replaces (evictedIndexed.insert evictedTop evictedFree lastReplaces rfl
    (TrackerState.index_congr sameIndex mint pubkey))

/-- An update that is newer than the account's entry makes the account a holder of the mint. -/
theorem applyUpdate_holds (holds : touching.state.Holds shared holders)
    (older : ∀ old, touching.state.entry mint pubkey = some old → old.stamp < entry.stamp)
    (free : isSentinel mint = false → ∀ other, touching.state.memberIndex.lookup pubkey = some other → other = mint)
    (oldBlock : Bool) : (touching.applyUpdate mint pubkey entry false oldBlock (shared.kFor mint)).state.Holds shared
      (setHolder holders mint pubkey (some entry)) := by
  unfold applyUpdate
  rw [if_neg (by simp)]
  split
  · next absent => exact holds.untracked absent _
  next top present =>
  have follows := holds.tops mint top present
  have isEntry := TrackerState.entry_of_present present pubkey
  split
  · next old found => exact updateMember_holds holds present found (older old (isEntry.trans found))
  next absent =>
  have drops : (touching.dropAmount mint top entry.amount).state.Holds shared
      (setHolder holders mint pubkey (some entry)) :=
    dropAmount_holds holds present entry.amount fun floor raised above =>
      (@MintTop.Covers.raise top (holders mint) { top with droppedFloor := floor } follows.toCovers rfl raised).leaveOut
        absent above
  split
  · exact drops
  split
  · next full =>
    have size : shared.kFor mint ≤ top.entries.entries.length := of_decide_eq_true (by simpa using full)
    split
    · next noMin =>
      -- A full reservoir has a minimum.
      obtain ⟨account, held, found⟩ := HashMap.exists_of_size_pos ((holds.sized mint top present).trans_le size)
      rw [follows.cached] at noMin
      rw [MintTop.minEntry_eq_none.mp noMin] at found
      contradiction
    · next minPubkey minAmount isMin =>
      split
      · exact drops
      · exact evictMember_holds holds present absent (follows.cached.symm.trans isMin) free
  · next room =>
    refine insertMember_holds holds present absent (not_le.mp fun size => room ?_) free
    simpa using size

/-- An old block that is no newer than the account's entries changes no holder. -/
theorem applyUpdate_of_newer (holds : touching.state.Holds shared holders)
    (newer : ∀ old, touching.state.entry mint pubkey = some old → ¬old.stamp < entry.stamp) (k : ℕ) :
    (touching.applyUpdate mint pubkey entry false true k).state.Holds shared holders := by
  unfold applyUpdate
  rw [if_neg (by simp)]
  split
  · exact holds
  next top present =>
  have isEntry := TrackerState.entry_of_present present pubkey
  split
  · next old found =>
    rw [updateMember, if_neg (newer old (isEntry.trans found))]
    exact holds
  · next absent =>
    have dropped := dropAmount_holds holds present entry.amount fun floor raised _ =>
      @MintTop.Covers.raise top (holders mint) { top with droppedFloor := floor }
        (holds.tops mint top present).toCovers rfl raised
    rw [Function.update_eq_self] at dropped
    rw [if_pos rfl]
    exact dropped

/-! ## What an update touches -/

/-- Only the top of one mint changes, and then the mint is touched. -/
structure Changes (before after : Touching) (mint : Pubkey) : Prop where
  touched : before.touched ⊆ after.touched
  others : ∀ other, after.state.mints.lookup other = before.state.mints.lookup other ∨
    other = mint ∧ other ∈ after.touched

namespace Changes

variable {after : Touching}

theorem refl (touching : Touching) (mint : Pubkey) : Changes touching touching mint := ⟨subset_rfl, fun _ => Or.inl rfl⟩

theorem replace {changed : MintTop} (replaces : touching.state.Replaces after.state mint changed)
    (touched : after.touched = insert mint touching.touched) : Changes touching after mint where
  touched := touched ▸ Finset.subset_insert _ _
  others other := by
    rw [touched, replaces other]
    split
    · next same => exact Or.inr ⟨same, same ▸ Finset.mem_insert_self _ _⟩
    · exact Or.inl rfl

theorem entry_of_ne (changes : Changes touching after mint) (differs : other ≠ mint) (pubkey : Pubkey) :
    after.state.entry other pubkey = touching.state.entry other pubkey := by
  rw [TrackerState.entry, TrackerState.entry, (changes.others other).resolve_right fun both => differs both.1]

end Changes

theorem removeMember_changes (touching : Touching) (mint pubkey : Pubkey) (stamp : Stamp) :
    Changes touching (touching.removeMember mint pubkey stamp) mint := by
  unfold removeMember
  split
  · exact .refl _ _
  · split
    · exact .refl _ _
    · split
      · exact .replace (.of_setTop (TrackerState.unindex_mints _ _ _)) rfl
      · exact .refl _ _

private theorem dropAmount_changes (touching : Touching) (mint : Pubkey) (top : MintTop) (amount : ℕ) :
    Changes touching (touching.dropAmount mint top amount) mint := by
  unfold dropAmount
  split
  · exact .replace (.of_setTop rfl) rfl
  · exact .refl _ _

theorem applyUpdate_changes (touching : Touching) (mint pubkey : Pubkey) (entry : Entry) (bootstrapping oldBlock : Bool)
    (k : ℕ) : Changes touching (touching.applyUpdate mint pubkey entry bootstrapping oldBlock k) mint := by
  unfold applyUpdate
  split
  · exact .refl _ _
  split
  · exact .refl _ _
  split
  · unfold updateMember
    split
    · exact .replace (.of_setTop rfl) rfl
    · exact .refl _ _
  split
  · exact dropAmount_changes _ _ _ _
  split
  · split
    · exact .refl _ _
    · split
      · exact dropAmount_changes _ _ _ _
      · exact .replace (TrackerState.Replaces.congr (.of_setTop (TrackerState.index_mints _ _ _))
          (TrackerState.unindex_mints _ _ _).symm) rfl
  · exact .replace (.of_setTop (TrackerState.index_mints _ _ _)) rfl

end Touching

end Cloudbreak.Model.LargestAccounts
