import Cloudbreak.Model.LargestAccounts.Pending
import Cloudbreak.Proofs.LargestAccounts.Holders

/-! # A block moves every holder to its newest write

An account that is newer than its stored write leaves the mints it no longer holds and enters those it holds; one
that is not newer comes in an old block and changes no holder. Over the accounts of a block the tops follow the
newest writes.
-/

namespace Cloudbreak.Model.LargestAccounts

open Cloudbreak.ToMathlib

variable {shared : Shared} {state : TrackerState} {mint pubkey other : Pubkey} {accounts : Accounts} {slot : ℕ}
  {update : PendingLargestAccount} {stamp : Stamp} {oldBlock : Bool}

/-- What the pending accounts of a block look like: one update an account, balances of tracked mints, and no balance
of a closed account. -/
structure PendingBlock (shared : Shared) (pending : List (Pubkey × PendingLargestAccount)) : Prop where
  distinct : (pending.map Prod.fst).Nodup
  tracked : ∀ item ∈ pending, ∀ token, item.2.token = some token → isSentinel token.1 = false
  closed : ∀ item ∈ pending, item.2.lamports = 0 → item.2.token = none

/-! ## The pending accounts of a block -/

/-- Balances of tracked mints only, and none of a closed account. -/
def Pending.Sound (trackedMints : List Pubkey) (pending : Pending) : Prop :=
  ∀ pubkey update, pending.lookup pubkey = some update →
    (∀ token, update.token = some token → token.1 ∈ trackedMints) ∧ (update.lamports = 0 → update.token = none)

namespace Pending.Sound

variable {trackedMints : List Pubkey} {pending : Pending}

theorem insert (sound : pending.Sound trackedMints) (tracked : ∀ token, update.token = some token → token.1 ∈ trackedMints)
    (closed : update.lamports = 0 → update.token = none) : Sound trackedMints (pending.insert pubkey update) := by
  intro other found isFound
  rw [HashMap.lookup_insert] at isFound
  split at isFound
  · cases isFound
    exact ⟨tracked, closed⟩
  · exact sound other found isFound

theorem observe (sound : pending.Sound trackedMints) (isNonCirculating : Pubkey → Bool)
    {account : SubscribeUpdateAccountInfo} (empty : account.lamports = 0 → account.data.length < 72) :
    Sound trackedMints (pending.observe trackedMints isNonCirculating account) := by
  have tracked : ∀ token, account.token trackedMints = some token → token.1 ∈ trackedMints := by
    intro token isToken
    unfold SubscribeUpdateAccountInfo.token at isToken
    dsimp only at isToken
    split at isToken
    · obtain ⟨mint, found, rfl⟩ := Option.map_eq_some_iff.mp isToken
      exact List.contains_iff_mem.mp (Option.filter_eq_some_iff.mp found).2
    · contradiction
  have closed : account.lamports = 0 → account.token trackedMints = none := fun isClosed => by
    unfold SubscribeUpdateAccountInfo.token
    exact if_neg fun both => absurd both.2 (not_le.mpr (empty isClosed))
  unfold Pending.observe
  split
  · exact sound
  · dsimp only
    split
    · exact sound.insert tracked closed
    · split
      · exact sound.insert tracked closed
      · exact sound

theorem expire (sound : pending.Sound trackedMints) (member : Pubkey × ℕ) :
    Sound trackedMints (pending.expire member) := by
  unfold Pending.expire
  split
  · exact sound
  · exact sound.insert (fun token isToken => absurd isToken (Option.some_ne_none token).symm) fun _ => rfl

end Pending.Sound

namespace Accounts

theorem holder_eq_some {entry : Entry} : accounts.holder mint pubkey = some entry ↔
    ∃ newest, accounts.lookup pubkey = some newest ∧ newest.2.balance mint = some entry.amount ∧
      newest.1 = entry.stamp := by
  rw [holder, Option.bind_eq_some_iff]
  constructor
  · rintro ⟨newest, found, held⟩
    obtain ⟨amount, balance, rfl⟩ := Option.map_eq_some_iff.mp held
    exact ⟨newest, found, balance, rfl⟩
  · rintro ⟨newest, found, balance, stamp⟩
    refine ⟨newest, found, Option.map_eq_some_iff.mpr ⟨entry.amount, balance, ?_⟩⟩
    rw [stamp]
    rfl

theorem lookup_write_of_ne (differs : other ≠ pubkey) :
    (accounts.write slot (pubkey, update)).lookup other = accounts.lookup other := by
  unfold write
  dsimp only
  split
  · rw [HashMap.lookup_insert, if_neg differs]
  · rfl

private theorem holder_write_of_ne (differs : other ≠ pubkey) :
    (accounts.write slot (pubkey, update)).holder mint other = accounts.holder mint other := by
  rw [holder, holder, lookup_write_of_ne differs]

private theorem holder_write (newer : (accounts.lookup pubkey).all fun newest =>
    decide (newest.1 < toLex (slot, update.writeVersion))) :
    (accounts.write slot (pubkey, update)).holder mint pubkey =
      (update.balance mint).map fun amount => ⟨amount, slot, update.writeVersion⟩ := by
  unfold write
  dsimp only
  rw [if_pos newer, holder, HashMap.lookup_insert, if_pos rfl]
  rfl

end Accounts

/-! ## The balances of one write -/

namespace PendingLargestAccount

private theorem balance_closed (closed : update.lamports = 0) (mint : Pubkey) :
    update.balance mint = none := if_pos closed

private theorem balance_sol (live : update.lamports ≠ 0) : update.balance solSentinelMint = some update.lamports := by
  rw [balance, if_neg live, if_pos rfl]

/-- The class sentinel of a live account and the other one. -/
def classMints (update : PendingLargestAccount) : Pubkey × Pubkey :=
  if update.nonCirculating then (nonCirculatingSentinelMint, circulatingSentinelMint)
  else (circulatingSentinelMint, nonCirculatingSentinelMint)

theorem classMints_cases : update.classMints = (nonCirculatingSentinelMint, circulatingSentinelMint) ∧
      update.nonCirculating = true ∨
    update.classMints = (circulatingSentinelMint, nonCirculatingSentinelMint) ∧ update.nonCirculating = false := by
  unfold classMints
  cases update.nonCirculating with
  | true => exact Or.inl ⟨rfl, rfl⟩
  | false => exact Or.inr ⟨rfl, rfl⟩

private theorem balance_class (live : update.lamports ≠ 0) :
    update.balance update.classMints.1 = some update.lamports ∧ update.balance update.classMints.2 = none := by
  rcases @classMints_cases update with ⟨classes, flag⟩ | ⟨classes, flag⟩ <;> rw [classes] <;>
    simp [balance, live, flag, solSentinelMint, circulatingSentinelMint, nonCirculatingSentinelMint]

private theorem balance_token (live : update.lamports ≠ 0) (token : isSentinel mint = false) :
    update.balance mint = (update.token.filter fun token => decide (token.1 = mint)).map Prod.snd := by
  simp only [isSentinel, decide_eq_false_iff_not, not_or] at token
  rw [balance, if_neg live, if_neg token.1, if_neg token.2.1, if_neg token.2.2]

end PendingLargestAccount

private theorem classMints_apart (update : PendingLargestAccount) : update.classMints.1 ≠ solSentinelMint ∧
    update.classMints.2 ≠ solSentinelMint ∧ update.classMints.1 ≠ update.classMints.2 := by
  rcases @PendingLargestAccount.classMints_cases update with ⟨classes, -⟩ | ⟨classes, -⟩ <;> rw [classes] <;>
    decide +kernel

theorem isSentinel_iff : isSentinel mint = true ↔ mint = solSentinelMint ∨ mint = update.classMints.1 ∨
    mint = update.classMints.2 := by
  rw [isSentinel, decide_eq_true_eq]
  rcases @PendingLargestAccount.classMints_cases update with ⟨classes, -⟩ | ⟨classes, -⟩ <;> rw [classes]
  exact or_congr_right or_comm

namespace Touching

variable {touching : Touching} {holders : Pubkey → Pubkey → Option Entry}

/-! ## A write that is not newer -/

private theorem foldl_removeMember_of_newer (mints : List Pubkey)
    (newer : ∀ mint entry, touching.state.entry mint pubkey = some entry → ¬entry.stamp < stamp) :
    mints.foldl (fun touching mint => touching.removeMember mint pubkey stamp) touching = touching := by
  induction mints with
  | nil => rfl
  | cons mint rest ih =>
    rw [List.foldl_cons, removeMember_of_newer (newer mint)]
    exact ih

private theorem leaveMint_of_newer
    (newer : ∀ mint entry, touching.state.entry mint pubkey = some entry → ¬entry.stamp < stamp)
    (updateMint : Option Pubkey) : touching.leaveMint pubkey updateMint stamp = touching := by
  unfold leaveMint
  split
  · split
    · rfl
    · exact removeMember_of_newer (newer _)
  · rfl

/-- A stale account of an old block changes no holder. -/
theorem applyPending_of_newer (holds : touching.state.Holds shared holders)
    (newer : ∀ mint entry, holders mint pubkey = some entry → ¬entry.stamp < toLex (slot, update.writeVersion)) :
    (touching.applyPending shared slot false true (pubkey, update)).state.Holds shared holders := by
  have entries {touching : Touching} (holds : touching.state.Holds shared holders) (mint : Pubkey) (entry : Entry)
      (present : touching.state.entry mint pubkey = some entry) :
      ¬entry.stamp < toLex (slot, update.writeVersion) := newer mint entry (holds.entry_holder present)
  have applied {touching : Touching} (holds : touching.state.Holds shared holders) (mint : Pubkey) (amount : ℕ) :
      (touching.applyUpdate mint pubkey ⟨amount, slot, update.writeVersion⟩ false true
        (shared.kFor mint)).state.Holds shared holders :=
    applyUpdate_of_newer holds (entries holds mint) _
  unfold applyPending
  dsimp only
  rw [leaveMint_of_newer (entries holds)]
  split
  · rw [if_neg (by simp), removeFromSentinels, foldl_removeMember_of_newer _ (entries holds)]
    exact holds
  · have held : (update.token.elim touching fun token => touching.applyUpdate token.1 pubkey
        ⟨token.2, slot, update.writeVersion⟩ false true (shared.kFor token.1)).state.Holds shared holders := by
      cases update.token with
      | none => exact holds
      | some token => exact applied holds token.1 token.2
    have sol := applied held solSentinelMint update.lamports
    rw [removeMember_of_newer (entries sol _)]
    exact applied sol _ update.lamports

/-! ## A newer write -/

/-- The account's entries are older than the stamp. -/
def Older (touching : Touching) (pubkey : Pubkey) (stamp : Stamp) : Prop :=
  ∀ mint entry, touching.state.entry mint pubkey = some entry → entry.stamp < stamp

/-- A removal takes the account out of one mint. -/
theorem removeMember_older (holds : touching.state.Holds shared holders) (older : touching.Older pubkey stamp)
    (mint : Pubkey) :
    (touching.removeMember mint pubkey stamp).state.Holds shared (setHolder holders mint pubkey none) ∧
      (touching.removeMember mint pubkey stamp).state.entry mint pubkey = none ∧
      (touching.removeMember mint pubkey stamp).Older pubkey stamp ∧
      ∀ other, other ≠ mint →
        (touching.removeMember mint pubkey stamp).state.entry other pubkey = touching.state.entry other pubkey := by
  have removed := removeMember_holds holds (older mint)
  have others : ∀ other, other ≠ mint → _ := fun other differs =>
    (removeMember_changes touching mint pubkey stamp).entry_of_ne differs pubkey
  have gone : (touching.removeMember mint pubkey stamp).state.entry mint pubkey = none := by
    by_contra present
    obtain ⟨entry, found⟩ := Option.ne_none_iff_exists'.mp present
    have held := removed.entry_holder found
    rw [setHolder_apply, if_pos ⟨rfl, rfl⟩] at held
    contradiction
  refine ⟨removed, gone, fun other entry present => ?_, others⟩
  by_cases same : other = mint
  · rw [same, gone] at present
    contradiction
  · exact older other entry ((others other same).symm.trans present)

/-- After leaving, the account is an entry of no token mint but the one the update names. -/
theorem leaveMint_holds (holds : touching.state.Holds shared holders) (older : touching.Older pubkey stamp)
    (updateMint : Option Pubkey) : ∃ left : Pubkey → Pubkey → Option Entry,
      (touching.leaveMint pubkey updateMint stamp).state.Holds shared left ∧
      (touching.leaveMint pubkey updateMint stamp).Older pubkey stamp ∧
      (∀ mint other, other ≠ pubkey → left mint other = holders mint other) ∧
      ∀ mint, isSentinel mint = false → updateMint ≠ some mint →
        (touching.leaveMint pubkey updateMint stamp).state.entry mint pubkey = none := by
  unfold leaveMint
  cases indexed : touching.state.memberIndex.lookup pubkey with
  | none =>
    refine ⟨holders, holds, older, fun _ _ _ => rfl, fun mint token _ => ?_⟩
    by_contra present
    have index := (holds.indexed pubkey mint).mpr ⟨token, Option.isSome_iff_ne_none.mpr present⟩
    rw [indexed] at index
    contradiction
  | some current =>
    have only : ∀ mint, isSentinel mint = false → mint ≠ current → touching.state.entry mint pubkey = none := by
      intro mint token differs
      by_contra present
      have index := (holds.indexed pubkey mint).mpr ⟨token, Option.isSome_iff_ne_none.mpr present⟩
      rw [indexed] at index
      exact differs (Option.some.inj index).symm
    dsimp only
    split
    · next stays =>
      exact ⟨holders, holds, older, fun _ _ _ => rfl, fun mint token leaves =>
        only mint token fun same => leaves (same ▸ stays)⟩
    · obtain ⟨removed, gone, stillOlder, others⟩ := removeMember_older holds older current
      refine ⟨_, removed, stillOlder, fun mint other differs => ?_, fun mint token _ => ?_⟩
      · rw [setHolder_apply, if_neg fun both => differs both.2]
      · by_cases same : mint = current
        · rw [same, gone]
        · rw [others mint same, only mint token same]

/-- A closed account is an entry of no sentinel. -/
theorem removeFromSentinels_holds (holds : touching.state.Holds shared holders) (older : touching.Older pubkey stamp)
    (gone : ∀ mint, isSentinel mint = false → touching.state.entry mint pubkey = none) :
    (touching.removeFromSentinels pubkey stamp).state.Holds shared fun mint other =>
      if other = pubkey then none else holders mint other := by
  obtain ⟨holdsSol, -, olderSol, othersSol⟩ := removeMember_older holds older solSentinelMint
  obtain ⟨holdsCirculating, -, olderCirculating, othersCirculating⟩ :=
    removeMember_older holdsSol olderSol circulatingSentinelMint
  obtain ⟨holdsAll, -, -, othersAll⟩ := removeMember_older holdsCirculating olderCirculating nonCirculatingSentinelMint
  refine TrackerState.Holds.weaken holdsAll fun mint account => ?_
  simp only [setHolder_apply]
  by_cases isAccount : account = pubkey
  · subst isAccount
    by_cases token : isSentinel mint = false
    · refine Or.inr ⟨if_pos rfl, ?_⟩
      have apart : mint ≠ solSentinelMint ∧ mint ≠ circulatingSentinelMint ∧ mint ≠ nonCirculatingSentinelMint := by
        simpa [isSentinel, not_or] using token
      exact (othersAll mint apart.2.2).trans ((othersCirculating mint apart.2.1).trans
        ((othersSol mint apart.1).trans (gone mint token)))
    · left
      have sentinel : mint = solSentinelMint ∨ mint = circulatingSentinelMint ∨ mint = nonCirculatingSentinelMint :=
        of_decide_eq_true (Bool.eq_true_of_not_eq_false token)
      rcases sentinel with rfl | rfl | rfl <;> simp
  · left
    simp [isAccount]

section LiveUpdate

variable {left : Pubkey → Pubkey → Option Entry}

/-- The holders after the token update. -/
private def tokenHolders (left : Pubkey → Pubkey → Option Entry) (pubkey : Pubkey) (slot : ℕ)
    (update : PendingLargestAccount) : Pubkey → Pubkey → Option Entry :=
  update.token.elim left fun token => setHolder left token.1 pubkey (some ⟨token.2, slot, update.writeVersion⟩)

/-- The holders after the token update and the three of the sentinels. -/
private def movedHolders (left : Pubkey → Pubkey → Option Entry) (pubkey : Pubkey) (slot : ℕ)
    (update : PendingLargestAccount) : Pubkey → Pubkey → Option Entry :=
  let holding : Option Entry := some ⟨update.lamports, slot, update.writeVersion⟩
  setHolder (setHolder (setHolder (tokenHolders left pubkey slot update) solSentinelMint pubkey holding)
    update.classMints.2 pubkey none) update.classMints.1 pubkey holding

private theorem movedHolders_other {account : Pubkey} (differs : account ≠ pubkey) :
    movedHolders left pubkey slot update mint account = left mint account := by
  rw [movedHolders, setHolder_apply, setHolder_apply, setHolder_apply, if_neg fun both => differs both.2,
    if_neg fun both => differs both.2, if_neg fun both => differs both.2, tokenHolders]
  cases update.token with
  | none => rfl
  | some token => rw [Option.elim_some, setHolder_apply, if_neg fun both => differs both.2]

/-- A live account holds its balance of every sentinel and of the mint its token is of. -/
private theorem movedHolders_self (live : update.lamports ≠ 0)
    (concerns : isSentinel mint = true ∨ update.token.map Prod.fst = some mint) :
    movedHolders left pubkey slot update mint pubkey =
      (update.balance mint).map fun amount => ⟨amount, slot, update.writeVersion⟩ := by
  rw [movedHolders, setHolder_apply, setHolder_apply, setHolder_apply]
  by_cases isClass : mint = update.classMints.1
  · rw [if_pos ⟨isClass, rfl⟩, isClass, (PendingLargestAccount.balance_class live).1]
    rfl
  rw [if_neg fun both => isClass both.1]
  by_cases isOther : mint = update.classMints.2
  · rw [if_pos ⟨isOther, rfl⟩, isOther, (PendingLargestAccount.balance_class live).2]
    rfl
  rw [if_neg fun both => isOther both.1]
  by_cases isSol : mint = solSentinelMint
  · rw [if_pos ⟨isSol, rfl⟩, isSol, PendingLargestAccount.balance_sol live]
    rfl
  rw [if_neg fun both => isSol both.1]
  have token : isSentinel mint = false := Bool.eq_false_iff.mpr fun sentinel => by
    rcases (@isSentinel_iff mint update).mp sentinel with same | same | same <;> contradiction
  have named := concerns.resolve_left (Bool.eq_false_iff.mp token)
  obtain ⟨held, isToken, rfl⟩ := Option.map_eq_some_iff.mp named
  rw [PendingLargestAccount.balance_token live token, tokenHolders, isToken, Option.filter_some,
    if_pos (decide_eq_true rfl), Option.elim_some, setHolder_apply, if_pos ⟨rfl, rfl⟩]
  rfl

private theorem balance_unnamed (live : update.lamports ≠ 0) (token : isSentinel mint = false)
    (unnamed : ¬update.token.map Prod.fst = some mint) : update.balance mint = none := by
  rw [PendingLargestAccount.balance_token live token]
  cases isToken : update.token with
  | none => rfl
  | some held =>
    have differs : held.1 ≠ mint := fun same => unnamed (by rw [isToken, ← same]; rfl)
    rw [Option.filter_some, if_neg fun same => differs (of_decide_eq_true same)]
    rfl

variable {leaving : Touching}

/-- The update of the token mint. The account is an entry of no other one. -/
private theorem applyToken_holds (holds : leaving.state.Holds shared left)
    (older : leaving.Older pubkey (toLex (slot, update.writeVersion)))
    (gone : ∀ mint, isSentinel mint = false → update.token.map Prod.fst ≠ some mint →
      leaving.state.entry mint pubkey = none) (oldBlock : Bool) :
    ∃ held, (update.token.elim leaving fun token => leaving.applyUpdate token.1 pubkey
        ⟨token.2, slot, update.writeVersion⟩ false oldBlock (shared.kFor token.1)) = held ∧
      held.state.Holds shared (tokenHolders left pubkey slot update) ∧
      ∀ mint, update.token.map Prod.fst ≠ some mint →
        held.state.entry mint pubkey = leaving.state.entry mint pubkey := by
  refine ⟨_, rfl, ?_⟩
  unfold tokenHolders
  cases isToken : update.token with
  | none => exact ⟨holds, fun _ _ => rfl⟩
  | some token =>
    have free : isSentinel token.1 = false →
        ∀ other, leaving.state.memberIndex.lookup pubkey = some other → other = token.1 := by
      intro _ other indexed
      obtain ⟨isTokenMint, present⟩ := (holds.indexed pubkey other).mp indexed
      by_contra differs
      have absent := gone other isTokenMint (by
        rw [isToken]
        exact fun same => differs (Option.some.inj same).symm)
      rw [absent] at present
      contradiction
    refine ⟨applyUpdate_holds holds (older token.1) free oldBlock, fun mint apart => ?_⟩
    exact (applyUpdate_changes leaving token.1 pubkey _ false oldBlock _).entry_of_ne
      (fun same => apart (congrArg some same.symm)) pubkey

/-- The updates of the three sentinels. -/
private theorem applySentinels_holds {held : Touching} {holders : Pubkey → Pubkey → Option Entry}
    (holds : held.state.Holds shared holders)
    (older : ∀ mint, isSentinel mint = true → ∀ old, held.state.entry mint pubkey = some old →
      old.stamp < toLex (slot, update.writeVersion)) (oldBlock : Bool) :
    let holding : Entry := ⟨update.lamports, slot, update.writeVersion⟩
    let sol := held.applyUpdate solSentinelMint pubkey holding false oldBlock (shared.kFor solSentinelMint)
    let moved := (sol.removeMember update.classMints.2 pubkey (toLex (slot, update.writeVersion))).applyUpdate
      update.classMints.1 pubkey holding false oldBlock (shared.kFor update.classMints.1)
    moved.state.Holds shared (setHolder (setHolder (setHolder holders solSentinelMint pubkey (some holding))
        update.classMints.2 pubkey none) update.classMints.1 pubkey (some holding)) ∧
      ∀ mint, isSentinel mint = false → moved.state.entry mint pubkey = held.state.entry mint pubkey := by
  intro holding sol moved
  obtain ⟨classSol, otherSol, classOther⟩ := classMints_apart update
  have classSentinels : isSentinel update.classMints.1 = true ∧ isSentinel update.classMints.2 = true :=
    ⟨isSentinel_iff.mpr (Or.inr (Or.inl rfl)), isSentinel_iff.mpr (Or.inr (Or.inr rfl))⟩
  have notFree {state : TrackerState} {mint : Pubkey} (sentinel : isSentinel mint = true) :
      isSentinel mint = false → ∀ other, state.memberIndex.lookup pubkey = some other → other = mint := by
    intro token
    rw [sentinel] at token
    contradiction
  have solHolds := applyUpdate_holds holds (fun old present =>
    show old.stamp < holding.stamp from older solSentinelMint rfl old present) (notFree rfl) oldBlock
  have solEntry {mint : Pubkey} (differs : mint ≠ solSentinelMint) := (applyUpdate_changes held solSentinelMint pubkey
    holding false oldBlock (shared.kFor solSentinelMint)).entry_of_ne differs pubkey
  have otherHolds := removeMember_holds solHolds fun old present =>
    older update.classMints.2 classSentinels.2 old ((solEntry otherSol).symm.trans present)
  have otherEntry {mint : Pubkey} (differs : mint ≠ update.classMints.2) := (removeMember_changes sol
    update.classMints.2 pubkey (toLex (slot, update.writeVersion))).entry_of_ne differs pubkey
  have classHolds := applyUpdate_holds otherHolds (fun old present =>
    show old.stamp < holding.stamp from older update.classMints.1 classSentinels.1 old
      ((solEntry classSol).symm.trans ((otherEntry classOther).symm.trans present))) (notFree classSentinels.1) oldBlock
  refine ⟨classHolds, fun mint token => ?_⟩
  have apart : ∀ other, isSentinel other = true → mint ≠ other := by
    rintro other sentinel rfl
    rw [token] at sentinel
    contradiction
  exact ((applyUpdate_changes _ _ pubkey _ false oldBlock _).entry_of_ne (apart _ classSentinels.1) pubkey).trans
    ((otherEntry (apart _ classSentinels.2)).trans (solEntry (apart _ rfl)))

end LiveUpdate

/-- The holders after every update of one account that is newer than its entries. -/
theorem applyPending_newer (holds : touching.state.Holds shared holders)
    (older : touching.Older pubkey (toLex (slot, update.writeVersion)))
    (tracked : ∀ token, update.token = some token → isSentinel token.1 = false)
    (closed : update.lamports = 0 → update.token = none) :
    (touching.applyPending shared slot false oldBlock (pubkey, update)).state.Holds shared fun mint other =>
      if other = pubkey then (update.balance mint).map fun amount => ⟨amount, slot, update.writeVersion⟩
      else holders mint other := by
  obtain ⟨left, leftHolds, leftOlder, others, gone⟩ := leaveMint_holds holds older (update.token.map Prod.fst)
  unfold applyPending
  dsimp only
  generalize touching.leaveMint pubkey (update.token.map Prod.fst) (toLex (slot, update.writeVersion)) = leaving
    at leftHolds leftOlder gone
  split
  · next isClosed =>
    rw [if_neg (by simp)]
    refine TrackerState.Holds.weaken (removeFromSentinels_holds leftHolds leftOlder fun mint token =>
      gone mint token (by rw [closed isClosed]; exact (Option.some_ne_none mint).symm)) fun mint account => Or.inl ?_
    split
    · rw [PendingLargestAccount.balance_closed isClosed]
      rfl
    · next differs => exact (others mint account differs).symm
  · next live =>
    obtain ⟨held, isHeld, heldHolds, heldEntry⟩ := applyToken_holds leftHolds leftOlder gone oldBlock
    rw [isHeld]
    have notNamed : ∀ mint, isSentinel mint = true → update.token.map Prod.fst ≠ some mint := by
      intro mint sentinel named
      obtain ⟨token, isToken, rfl⟩ := Option.map_eq_some_iff.mp named
      rw [tracked token isToken] at sentinel
      contradiction
    obtain ⟨movedHolds, movedEntry⟩ := applySentinels_holds heldHolds (fun mint sentinel old present =>
      leftOlder mint old ((heldEntry mint (notNamed mint sentinel)).symm.trans present)) oldBlock
    refine TrackerState.Holds.weaken (show TrackerState.Holds shared (movedHolders left pubkey slot update) _ from
      movedHolds) fun mint account => ?_
    by_cases isAccount : account = pubkey
    · subst isAccount
      rw [if_pos rfl]
      by_cases concerns : isSentinel mint = true ∨ update.token.map Prod.fst = some mint
      · exact Or.inl (movedHolders_self live concerns).symm
      · rw [not_or, Bool.not_eq_true] at concerns
        refine Or.inr ⟨by rw [balance_unnamed live concerns.1 concerns.2]; rfl, ?_⟩
        exact (movedEntry mint concerns.1).trans ((heldEntry mint concerns.2).trans (gone mint concerns.1 concerns.2))
    · rw [if_neg isAccount, movedHolders_other isAccount]
      exact Or.inl (others mint account isAccount).symm

/-- One account of a block moves its holders to its newest write. -/
theorem applyPending_holds (holds : touching.state.Holds shared accounts.holder)
    (fresh : oldBlock = false → (accounts.lookup pubkey).all fun newest =>
      decide (newest.1 < toLex (slot, update.writeVersion)))
    (tracked : ∀ token, update.token = some token → isSentinel token.1 = false)
    (closed : update.lamports = 0 → update.token = none) :
    (touching.applyPending shared slot false oldBlock (pubkey, update)).state.Holds shared
      (accounts.write slot (pubkey, update)).holder := by
  by_cases newer : (accounts.lookup pubkey).all fun newest => decide (newest.1 < toLex (slot, update.writeVersion))
  · have older : touching.Older pubkey (toLex (slot, update.writeVersion)) := by
      intro mint entry present
      obtain ⟨newest, found, -, stamp⟩ := Accounts.holder_eq_some.mp (holds.entry_holder present)
      rw [found, Option.all_some] at newer
      exact stamp ▸ of_decide_eq_true newer
    refine (applyPending_newer holds older tracked closed).weaken fun mint other => Or.inl ?_
    split
    · next same => rw [same, Accounts.holder_write newer]
    · next differs => exact Accounts.holder_write_of_ne differs
  · have old : oldBlock = true := Bool.eq_true_of_not_eq_false fun live => newer (fresh live)
    have same : accounts.write slot (pubkey, update) = accounts := if_neg newer
    rw [old, same]
    refine applyPending_of_newer holds fun mint entry held => ?_
    obtain ⟨newest, found, -, stamp⟩ := Accounts.holder_eq_some.mp held
    rw [found, Option.all_some, decide_eq_true_eq] at newer
    rwa [← stamp]

private theorem foldl_applyPending_holds {pending : List (Pubkey × PendingLargestAccount)}
    (block : PendingBlock shared pending) (holds : touching.state.Holds shared accounts.holder)
    (fresh : oldBlock = false → ∀ item ∈ pending, (accounts.lookup item.1).all fun newest =>
      decide (newest.1 < toLex (slot, item.2.writeVersion))) :
    (pending.foldl (Touching.applyPending shared slot false oldBlock) touching).state.Holds shared
      (pending.foldl (Accounts.write slot) accounts).holder := by
  induction pending generalizing touching accounts with
  | nil => exact holds
  | cons item rest ih =>
    obtain ⟨pubkey, update⟩ := item
    have first : (pubkey, update) ∈ (pubkey, update) :: rest := List.mem_cons_self
    obtain ⟨absent, distinct⟩ := List.nodup_cons.mp block.distinct
    have applied := applyPending_holds holds (fun live => fresh live _ first) (block.tracked _ first)
      (block.closed _ first)
    refine ih ⟨distinct, fun item member => block.tracked item (List.mem_cons_of_mem _ member),
      fun item member => block.closed item (List.mem_cons_of_mem _ member)⟩ applied fun live item member => ?_
    have differs : item.1 ≠ pubkey := fun same => absent (List.mem_map.mpr ⟨item, member, same⟩)
    rw [Accounts.lookup_write_of_ne differs]
    exact fresh live item (List.mem_cons_of_mem _ member)

end Touching

namespace Accounts

/-- No write is above a slot. -/
def Until (accounts : Accounts) (slot : ℕ) : Prop :=
  ∀ pubkey newest, accounts.lookup pubkey = some newest → (ofLex newest.1).1 ≤ slot

theorem Until.write {last : ℕ} (written : accounts.Until last) (le : slot ≤ last)
    (item : Pubkey × PendingLargestAccount) : (accounts.write slot item).Until last := by
  intro pubkey newest found
  by_cases same : pubkey = item.1
  · unfold Accounts.write at found
    dsimp only at found
    split at found
    · rw [HashMap.lookup_insert, if_pos same] at found
      cases found
      exact le
    · exact written pubkey newest found
  · rw [show item = (item.1, item.2) from rfl, lookup_write_of_ne same] at found
    exact written pubkey newest found

theorem Until.foldl {last : ℕ} (written : accounts.Until last) (le : slot ≤ last)
    (pending : List (Pubkey × PendingLargestAccount)) : (pending.foldl (Accounts.write slot) accounts).Until last := by
  induction pending generalizing accounts with
  | nil => exact written
  | cons item rest ih => exact ih (written.write le item)

end Accounts

/-- A block of a live tracker, before anything is emitted. -/
theorem TrackerState.applyAccounts_holds (live : state.status = .live) (holds : state.Holds shared accounts.holder)
    (written : accounts.Until state.maxAppliedSlot) {pending : List (Pubkey × PendingLargestAccount)}
    (block : PendingBlock shared pending) :
    (state.applyAccounts shared slot pending).state.Holds shared
      (pending.foldl (Accounts.write slot) accounts).holder := by
  unfold applyAccounts
  rw [live, show decide (Status.live = Status.bootstrapping) = false from rfl]
  refine Touching.foldl_applyPending_holds block (show Holds shared accounts.holder _ from ⟨holds.tops, holds.indexed, holds.sized⟩)
    fun notOld item _ => ?_
  have above : state.maxAppliedSlot < slot := by simpa using notOld
  cases found : accounts.lookup item.1 with
  | none => rfl
  | some newest =>
    rw [Option.all_some, decide_eq_true_eq]
    exact Prod.Lex.toLex_lt_toLex.mpr (Or.inl ((written _ newest found).trans_lt above))

end Cloudbreak.Model.LargestAccounts
