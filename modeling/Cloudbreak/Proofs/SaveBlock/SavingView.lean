import Cloudbreak.Model.SaveBlock.OwnerMap
import Cloudbreak.ToMathlib.KeyedFold

/-! # What a block holds of one account

What a block stores for an account depends on its own writes, on its entry in the owner map and on the moves that
wait for the slot alone.
-/

namespace Cloudbreak.Model.SaveBlock

open Cloudbreak.ToMathlib
open Snapshot (AccountSelectorConfig)

variable {programs : AccountSelectorConfig} {slot : ℕ} {accounts : List AccountInfo}

/-! ## One account -/

/-- What the loop over a block holds of one account. -/
@[ext] structure SavingView where
  item : Option AccountOwnerItem
  changed : List ChangedOwner
  updated : List AccountRow
  closed : List Pubkey

def Saving.view (slot : ℕ) (saving : Saving) (key : Pubkey) : SavingView where
  item := saving.ownerMap.accounts.lookup key
  changed := ((saving.ownerMap.changedOwners.lookup slot).getD []).filter fun changed => decide (changed.pubkey = key)
  updated := saving.updated.filter fun row => decide (row.pubkey = key)
  closed := saving.closed.filter fun pubkey => decide (pubkey = key)

/-- Whether an account is tracked under another owner since a lower slot. -/
def SavingView.moved (view : SavingView) (slot : ℕ) (account : AccountInfo) : Bool :=
  view.item.any fun item => item.owner ≠ account.owner ∧ item.slot < slot

/-- Whether a write is stored as a row. -/
def stores (programs : AccountSelectorConfig) (account : AccountInfo) : Bool :=
  decide (account.lamports ≠ 0) && isOwnerIncluded programs account.owner

/-- Whether a write closes the account for the owner it is tracked under. -/
def SavingView.closes (programs : AccountSelectorConfig) (slot : ℕ) (account : AccountInfo) (view : SavingView) : Bool :=
  decide (account.lamports = 0) || (view.moved slot account && !isOwnerIncluded programs account.owner)

/-- One account on its own view. -/
def SavingView.save (programs : AccountSelectorConfig) (slot : ℕ) (account : AccountInfo) (view : SavingView) :
    SavingView where
  item := if stores programs account && (view.moved slot account || view.item.isNone) then
      some ⟨account.owner, slot⟩
    else view.item
  changed := view.changed ++ if stores programs account && view.moved slot account then
      view.item.toList.map fun item => ⟨account.pubkey, item.owner⟩
    else []
  updated := view.updated ++ if stores programs account then
      [⟨account.pubkey, account.owner, account.lamports, slot, account.data⟩]
    else []
  closed := view.closed ++ if view.closes programs slot account then [account.pubkey] else []

theorem upsertAccount_lookup (ownerMap : AccountOwnerMap) (pubkey owner other : Pubkey) :
    (ownerMap.upsertAccount pubkey owner slot).accounts.lookup other =
      if other = pubkey then
        if ownerMap.checkUpdatedAccountOwner pubkey owner slot || (ownerMap.accounts.lookup pubkey).isNone then
          some ⟨owner, slot⟩
        else ownerMap.accounts.lookup pubkey
      else ownerMap.accounts.lookup other := by
  unfold AccountOwnerMap.upsertAccount AccountOwnerMap.checkUpdatedAccountOwner
  cases present : ownerMap.accounts.lookup pubkey with
  | none =>
    simp only [HashMap.lookup_insert, Option.any_none, Option.isNone_none, Bool.or_true, if_true]
  | some existing =>
    simp only [Option.any_some, Option.isNone_some, Bool.or_false, decide_eq_true_eq]
    split
    · exact HashMap.lookup_insert ..
    · split
      · next same => rw [same, present]
      · rfl

private theorem upsertAccount_changed (ownerMap : AccountOwnerMap) (pubkey owner : Pubkey) :
    ((ownerMap.upsertAccount pubkey owner slot).changedOwners.lookup slot).getD [] =
      (ownerMap.changedOwners.lookup slot).getD [] ++
        if ownerMap.checkUpdatedAccountOwner pubkey owner slot then
          (ownerMap.accounts.lookup pubkey).toList.map fun item => ⟨pubkey, item.owner⟩
        else [] := by
  unfold AccountOwnerMap.upsertAccount AccountOwnerMap.checkUpdatedAccountOwner
  cases present : ownerMap.accounts.lookup pubkey with
  | none => simp
  | some existing =>
    simp only [Option.any_some, decide_eq_true_eq]
    split
    · simp only [HashMap.lookup_insert, if_true, Option.getD_some]
      rfl
    · exact (List.append_nil _).symm

/-- What an account adds to the loop, uniformly in its cases. -/
theorem saveAccount_eq (programs : AccountSelectorConfig) (slot : ℕ) (saving : Saving) (account : AccountInfo) :
    let moved := saving.ownerMap.checkUpdatedAccountOwner account.pubkey account.owner slot
    saveAccount programs slot saving account =
      { ownerMap := if stores programs account then
            saving.ownerMap.upsertAccount account.pubkey account.owner slot
          else saving.ownerMap
        updated := saving.updated ++ if stores programs account then
            [⟨account.pubkey, account.owner, account.lamports, slot, account.data⟩]
          else []
        closed := saving.closed ++
          if decide (account.lamports = 0) || (moved && !isOwnerIncluded programs account.owner) then [account.pubkey]
          else [] } := by
  intro moved
  unfold saveAccount stores AccountOwnerMap.accountToBeDeleted
  by_cases closes : account.lamports = 0
  · simp [closes]
  · cases included : isOwnerIncluded programs account.owner with
    | true => simp [closes]
    | false =>
      cases tracked : saving.ownerMap.checkUpdatedAccountOwner account.pubkey account.owner slot with
      | true => simp [closes, moved, tracked]
      | false => simp [closes, moved, tracked]

theorem filter_append_own {α : Type*} (items added : List α) (key : α → Pubkey) (pubkey other : Pubkey)
    (own : ∀ item ∈ added, key item = pubkey) :
    (items ++ added).filter (fun item => decide (key item = other)) =
      items.filter (fun item => decide (key item = other)) ++ if other = pubkey then added else [] := by
  rw [List.filter_append]
  congr 1
  split
  · next same => exact List.filter_eq_self.mpr fun item member => decide_eq_true ((own item member).trans same.symm)
  · next differs =>
    exact List.filter_eq_nil_iff.mpr fun item member equal =>
      differs ((of_decide_eq_true equal).symm.trans (own item member))

theorem saveAccount_local (programs : AccountSelectorConfig) (slot : ℕ) :
    KeyLocal (saveAccount programs slot) AccountInfo.pubkey (Saving.view slot) (SavingView.save programs slot)
      fun _ => True where
  keeps _ _ _ := trivial
  acts saving account other _ := by
    have ownRow : ∀ row ∈ (if stores programs account then
        [(⟨account.pubkey, account.owner, account.lamports, slot, account.data⟩ : AccountRow)] else []),
        row.pubkey = account.pubkey := by
      intro row member
      split at member
      · rw [List.mem_singleton.mp member]
      · contradiction
    have ownKey : ∀ (closes : Bool), ∀ pubkey ∈ (if closes then [account.pubkey] else []),
        pubkey = account.pubkey := by
      intro closes pubkey member
      cases closes with
      | true => exact List.mem_singleton.mp member
      | false => contradiction
    have ownChange : ∀ (moved : Bool) (item : Option AccountOwnerItem), ∀ changed ∈ (if moved then
        item.toList.map fun item => (⟨account.pubkey, item.owner⟩ : ChangedOwner) else []),
        changed.pubkey = account.pubkey := by
      intro moved item changed member
      cases moved with
      | true =>
        obtain ⟨_, _, rfl⟩ := List.mem_map.mp member
        rfl
      | false => contradiction
    rw [saveAccount_eq]
    apply SavingView.ext
    · cases stored : stores programs account with
      | true =>
        simp only [Saving.view, if_true, upsertAccount_lookup]
        split
        · next same =>
          subst same
          simp only [SavingView.save, stored, Bool.true_and]
          rfl
        · rfl
      | false =>
        simp only [Saving.view, Bool.false_eq_true, if_false]
        split
        · next same =>
          subst same
          simp only [SavingView.save, stored, Bool.false_and, Bool.false_eq_true, if_false]
        · rfl
    · cases stored : stores programs account with
      | true =>
        simp only [Saving.view, if_true, upsertAccount_changed]
        rw [filter_append_own _ _ ChangedOwner.pubkey account.pubkey other (ownChange _ _)]
        split
        · next same =>
          subst same
          simp only [SavingView.save, stored, Bool.true_and]
          rfl
        · exact List.append_nil _
      | false =>
        simp only [Saving.view, Bool.false_eq_true, if_false]
        split
        · next same =>
          subst same
          simp only [SavingView.save, stored, Bool.false_and, Bool.false_eq_true, if_false, List.append_nil]
        · rfl
    · change List.filter _ (saving.updated ++ _) = _
      rw [filter_append_own _ _ AccountRow.pubkey account.pubkey other ownRow]
      split
      · next same => subst same; rfl
      · exact List.append_nil _
    · change List.filter _ (saving.closed ++ _) = _
      rw [filter_append_own _ _ (fun pubkey => pubkey) account.pubkey other (ownKey _)]
      split
      · next same => subst same; rfl
      · exact List.append_nil _

/-! ## The masks of one account -/

/-- The masks for one account's closes, and its entry after them. -/
def takeOwn (slot : ℕ) (pubkey : Pubkey) (taken : Option AccountOwnerItem × List AccountRow) :
    Option AccountOwnerItem × List AccountRow :=
  taken.1.elim taken fun item => (none, taken.2 ++ [closedMask slot pubkey item.owner])

theorem takeClosed_local (slot : ℕ) :
    KeyLocal (AccountOwnerMap.takeClosed slot) (fun pubkey => pubkey)
      (fun taken key => (taken.1.lookup key, taken.2.filter fun row => decide (row.pubkey = key))) (takeOwn slot)
      fun _ => True where
  keeps _ _ _ := trivial
  acts taken pubkey other _ := by
    unfold AccountOwnerMap.takeClosed takeOwn
    cases present : taken.1.lookup pubkey with
    | none =>
      dsimp only
      split
      · next same => rw [same, present, Option.elim_none]
      · rfl
    | some item =>
      have own : ∀ row ∈ [closedMask slot pubkey item.owner], row.pubkey = pubkey := by
        intro row member
        rw [List.mem_singleton.mp member]
        rfl
      simp only [HashMap.lookup_erase, filter_append_own _ _ AccountRow.pubkey pubkey other own]
      split
      · next same => rw [same, present, Option.elim_some]
      · rw [List.append_nil]

/-- The masks of one account, from what the loop holds of it. -/
def SavingView.masks (slot : ℕ) (view : SavingView) : List AccountRow :=
  (view.closed.foldl (fun taken pubkey => takeOwn slot pubkey taken) (view.item, [])).2 ++
    view.changed.map fun changed => closedMask slot changed.pubkey changed.owner

theorem filter_saveClosedAccounts (slot : ℕ) (saving : Saving) (key : Pubkey) :
    (saving.ownerMap.saveClosedAccounts saving.closed slot).2.filter (fun row => decide (row.pubkey = key)) =
      (saving.view slot key).masks slot := by
  have taken : (fun (taken : HashMap Pubkey AccountOwnerItem × List AccountRow) (key : Pubkey) =>
      (taken.1.lookup key, taken.2.filter fun row => decide (row.pubkey = key)))
      (saving.closed.foldl (AccountOwnerMap.takeClosed slot) (saving.ownerMap.accounts, [])) key = _ :=
    (takeClosed_local slot).view_foldl trivial saving.closed key
  have masks := congrArg Prod.snd taken
  dsimp only at masks
  simp only [AccountOwnerMap.saveClosedAccounts, List.filter_append, List.filter_map, masks]
  rfl

/-- The write of an account is its only one. -/
theorem filter_own (distinct : (accounts.map AccountInfo.pubkey).Nodup) {account : AccountInfo}
    (member : account ∈ accounts) :
    accounts.filter (fun other => decide (other.pubkey = account.pubkey)) = [account] := by
  induction accounts with
  | nil => contradiction
  | cons first rest ih =>
    obtain ⟨fresh, distinctRest⟩ := List.nodup_cons.mp distinct
    rw [List.filter_cons]
    rcases List.mem_cons.mp member with rfl | member
    · have none : rest.filter (fun other => decide (other.pubkey = account.pubkey)) = [] :=
        List.filter_eq_nil_iff.mpr fun other later equal =>
          fresh (List.mem_map.mpr ⟨other, later, of_decide_eq_true equal⟩)
      rw [if_pos (decide_eq_true rfl), none]
    · have differs : first.pubkey ≠ account.pubkey := fun same => fresh (List.mem_map.mpr ⟨account, member, same.symm⟩)
      rw [if_neg fun equal => differs (of_decide_eq_true equal)]
      exact ih distinctRest member

end Cloudbreak.Model.SaveBlock
