import Cloudbreak.Model.Supply.Ledger
import Cloudbreak.Proofs.Supply.Exact

/-! # How the ledger moves

One more block changes the delivered versions of the accounts it writes and nothing else. Versions carry
the slots they were delivered at, which is what the order of the blocks is compared with.
-/

namespace Cloudbreak.Model.Supply

open NonCirculating (Version versionAt)
open Indexer (Event)

section Delivered

variable (events : List Event)

@[simp] theorem delivered_nil (key : Pubkey) : delivered [] key = none := rfl

@[simp] theorem blockSlots_nil : blockSlots [] = [] := rfl

@[simp] theorem seeded_nil : seeded [] = [] := rfl

@[simp] theorem delivered_block (slot : ℕ) (isRepaired : Bool) (accounts : List AccountInfo) (ok : Bool) :
    delivered (events ++ [.block slot isRepaired accounts ok]) = (delivered events).record slot accounts := by
  simp [delivered]

@[simp] theorem blockSlots_block (slot : ℕ) (isRepaired : Bool) (accounts : List AccountInfo) (ok : Bool) :
    blockSlots (events ++ [.block slot isRepaired accounts ok]) = blockSlots events ++ [slot] := by
  simp [blockSlots]

@[simp] theorem seeded_seed (slot : ℕ) (account : AccountInfo) :
    seeded (events ++ [.seed slot account]) = seeded events ++ [(slot, account)] := by
  simp [seeded]

/-- An event that is not a block delivers nothing. -/
theorem delivered_other {event : Event} (other : ∀ slot isRepaired accounts ok,
    event ≠ .block slot isRepaired accounts ok) :
    delivered (events ++ [event]) = delivered events ∧ blockSlots (events ++ [event]) = blockSlots events := by
  cases event with
  | block slot isRepaired accounts ok => exact absurd rfl (other slot isRepaired accounts ok)
  | _ => simp [delivered, blockSlots]

theorem seeded_other {event : Event} (other : ∀ slot account, event ≠ .seed slot account) :
    seeded (events ++ [event]) = seeded events := by
  cases event with
  | seed slot account => exact absurd rfl (other slot account)
  | _ => simp [seeded]

end Delivered

section Record

variable {ledger : Ledger} {slot : ℕ} {accounts : List AccountInfo}

private theorem find_written (distinct : (accounts.map AccountInfo.pubkey).Nodup) {account : AccountInfo}
    (member : account ∈ accounts) : (accounts.find? fun other => other.pubkey = account.pubkey) = some account := by
  cases found : accounts.find? fun other => other.pubkey = account.pubkey with
  | none =>
    have absent := List.find?_eq_none.mp found account member
    simp at absent
  | some other =>
    have same : other.pubkey = account.pubkey := by simpa using List.find?_some found
    exact congrArg some (List.inj_on_of_nodup_map distinct (List.mem_of_find?_eq_some found) member same)

theorem record_of_mem (distinct : (accounts.map AccountInfo.pubkey).Nodup) {account : AccountInfo}
    (member : account ∈ accounts) :
    ledger.record slot accounts account.pubkey = newer (ledger account.pubkey) (versionAt slot account) := by
  unfold Ledger.record
  rw [find_written distinct member]

theorem record_of_not_mem {key : Pubkey} (absent : key ∉ accounts.map AccountInfo.pubkey) :
    ledger.record slot accounts key = ledger key := by
  unfold Ledger.record
  rw [List.find?_eq_none.mpr]
  intro account member
  simp only [decide_eq_true_eq]
  rintro rfl
  exact absent (List.mem_map_of_mem member)

theorem newer_later {known : Option Version} {version : Version}
    (later : ∀ old, known = some old → old.slot < version.slot) : newer known version = some version := by
  cases known with
  | none => rfl
  | some old => exact if_pos (later old rfl)

theorem newer_older {old version : Version} (older : version.slot ≤ old.slot) :
    newer (some old) version = some old :=
  if_neg (Nat.not_lt.mpr older)

theorem newer_eq {known : Option Version} {version result : Version} (same : newer known version = some result) :
    result = version ∨ known = some result := by
  unfold newer at same
  split at same
  · exact Or.inl (Option.some.inj same).symm
  · split at same
    · exact Or.inl (Option.some.inj same).symm
    · exact Or.inr same

end Record

/-- A delivered version was delivered by a block at its slot. -/
theorem slot_mem_of_delivered (events : List Event) {key : Pubkey} {version : Version}
    (wasDelivered : delivered events key = some version) : version.slot ∈ blockSlots events := by
  induction events using List.reverseRecOn with
  | nil => simp at wasDelivered
  | append_singleton events event ih =>
    by_cases isBlock : ∃ slot isRepaired accounts ok, event = .block slot isRepaired accounts ok
    · obtain ⟨slot, isRepaired, accounts, ok, rfl⟩ := isBlock
      rw [delivered_block] at wasDelivered
      rw [blockSlots_block, List.mem_append]
      unfold Ledger.record at wasDelivered
      split at wasDelivered
      · exact Or.inl (ih wasDelivered)
      · rcases newer_eq wasDelivered with rfl | known
        · exact Or.inr (List.mem_singleton_self _)
        · exact Or.inl (ih known)
    · simp only [not_exists] at isBlock
      have other := delivered_other events isBlock
      rw [other.1] at wasDelivered
      rw [other.2]
      exact ih wasDelivered

/-- An account that no block wrote has no delivered version. -/
theorem delivered_of_not_written {events : List Event} {key : Pubkey} (unwritten : key ∉ writtenKeys events) :
    delivered events key = none := by
  induction events using List.reverseRecOn with
  | nil => rfl
  | append_singleton events event ih =>
    have parts : key ∉ writtenKeys events ∧ key ∉ writtenKeys [event] := by
      simpa [writtenKeys] using unwritten
    by_cases isBlock : ∃ slot isRepaired accounts ok, event = .block slot isRepaired accounts ok
    · obtain ⟨slot, isRepaired, accounts, ok, rfl⟩ := isBlock
      rw [delivered_block, record_of_not_mem (by simpa [writtenKeys] using parts.2), ih parts.1]
    · simp only [not_exists] at isBlock
      rw [(delivered_other events isBlock).1, ih parts.1]

private theorem newest_of_not_known {startup : Startup} {events : List Event} {key : Pubkey}
    (unknown : key ∉ startup.accounts.map (fun account => account.2.pubkey) ++ writtenKeys events) :
    newest startup events key = none := by
  rw [List.mem_append, not_or] at unknown
  have absent : startup.ledger key = none := by
    unfold Startup.ledger Startup.ledgerOf
    rw [Option.map_eq_none_iff, List.find?_eq_none]
    intro account member same
    exact unknown.1 (List.mem_map.mpr ⟨account, member, by simpa using same⟩)
  rw [newest, absent, delivered_of_not_written unknown.2]
  rfl

/-- The true supply, summed over the accounts that were ever seen. -/
theorem trueSupply_eq_sum (startup : Startup) (events : List Event) :
    trueSupply startup events =
      (((startup.accounts.map fun account => account.2.pubkey) ++ writtenKeys events).dedup.map fun key =>
        balance (newest startup events key)).sum := by
  rw [← List.sum_toFinset _ (List.nodup_dedup _)]
  refine (Finset.sum_subset (Finset.subset_univ _) fun key _ outside => ?_).symm
  rw [List.mem_toFinset, List.mem_dedup] at outside
  rw [newest_of_not_known outside]
  rfl

section NewestOf

variable {atStartup wasDelivered : Option Version}

theorem newestOf_none_right (atStartup : Option Version) : newestOf atStartup none = atStartup := by
  cases atStartup <;> rfl

theorem newestOf_eq (version : Version) (isNewest : newestOf atStartup wasDelivered = some version) :
    atStartup = some version ∨ wasDelivered = some version := by
  unfold newestOf at isNewest
  split at isNewest
  · exact Or.inr isNewest
  · exact Or.inl isNewest
  · split at isNewest
    · exact Or.inr isNewest
    · exact Or.inl isNewest

/-- A delivered version at least as new as the startup one is the newest. -/
theorem newestOf_delivered {version : Version} (bound : ∀ first, atStartup = some first → first.slot ≤ version.slot) :
    newestOf atStartup (some version) = some version := by
  cases atStartup with
  | none => rfl
  | some first => exact if_pos (bound first rfl)

/-- A startup version above the delivered one is the newest. -/
theorem newestOf_startup {first : Version} (bound : ∀ version, wasDelivered = some version → version.slot < first.slot) :
    newestOf (some first) wasDelivered = some first := by
  cases wasDelivered with
  | none => rfl
  | some version => exact if_neg (Nat.not_le.mpr (bound version rfl))

/-- A write above every delivered one becomes the newest version, unless the startup version is at least
as new. -/
theorem newestOf_write {written : Version} (later : ∀ version, wasDelivered = some version → version.slot < written.slot)
    (equal : ∀ first, atStartup = some first → first.slot = written.slot → first = written)
    (nonempty : ∀ first, atStartup = some first → first.lamports ≠ 0) :
    newestOf atStartup (some written) = some written ∧
        (∀ version, newestOf atStartup wasDelivered = some version → version.slot < written.slot) ∨
      newestOf atStartup (some written) = newestOf atStartup wasDelivered ∧
        ∃ version, newestOf atStartup wasDelivered = some version ∧ version.lamports ≠ 0 ∧
          written.slot ≤ version.slot ∧ (written.slot = version.slot → version = written) := by
  cases isStartup : atStartup with
  | none => exact Or.inl ⟨rfl, later⟩
  | some first =>
    by_cases below : first.slot < written.slot
    · refine Or.inl ⟨newestOf_delivered fun other same => ?_, fun version isNewest => ?_⟩
      · cases same
        exact below.le
      · rcases newestOf_eq version isNewest with same | isDelivered
        · cases same
          exact below
        · exact later version isDelivered
    · have reached : written.slot ≤ first.slot := not_lt.mp below
      have before : newestOf (some first) wasDelivered = some first :=
        newestOf_startup fun version isDelivered => (later version isDelivered).trans_le reached
      refine Or.inr ⟨?_, first, before, nonempty first isStartup, reached, fun same => equal first isStartup same.symm⟩
      rw [before]
      rcases Nat.lt_or_eq_of_le reached with above | same
      · exact newestOf_startup fun version isWritten => by cases isWritten; exact above
      · rw [equal first isStartup same.symm]
        exact newestOf_delivered fun other isOther => by cases isOther; exact le_rfl

end NewestOf

namespace Startup

theorem ledgerOf_eq_some {accounts : List (ℕ × AccountInfo)} {key : Pubkey} {version : Version}
    (found : ledgerOf accounts key = some version) :
    ∃ account ∈ accounts, account.2.pubkey = key ∧ versionAt account.1 account.2 = version := by
  obtain ⟨account, isFound, rfl⟩ := Option.map_eq_some_iff.mp found
  exact ⟨account, List.mem_of_find?_eq_some isFound, by simpa using List.find?_some isFound, rfl⟩

theorem ledgerOf_of_mem {accounts : List (ℕ × AccountInfo)}
    (distinct : (accounts.map fun account => account.2.pubkey).Nodup) {account : ℕ × AccountInfo}
    (member : account ∈ accounts) :
    ledgerOf accounts account.2.pubkey = some (versionAt account.1 account.2) := by
  unfold ledgerOf
  cases found : accounts.find? fun other => other.2.pubkey = account.2.pubkey with
  | none =>
    have absent := List.find?_eq_none.mp found account member
    simp at absent
  | some other =>
    have same : other.2.pubkey = account.2.pubkey := by simpa using List.find?_some found
    rw [List.inj_on_of_nodup_map distinct (List.mem_of_find?_eq_some found) member same]
    rfl

theorem ledgerOf_eq_none {accounts : List (ℕ × AccountInfo)} {key : Pubkey} :
    ledgerOf accounts key = none ↔ ∀ account ∈ accounts, account.2.pubkey ≠ key := by
  unfold ledgerOf
  rw [Option.map_eq_none_iff, List.find?_eq_none]
  simp only [decide_eq_true_eq, ne_eq]

theorem ledger_bounds (startup : Startup) {key : Pubkey} {version : Version}
    (found : startup.ledger key = some version) : version.slot ≤ startup.slot ∧ version.lamports ≠ 0 := by
  obtain ⟨account, member, _, rfl⟩ := ledgerOf_eq_some found
  exact ⟨startup.atOrBelow account member, startup.nonempty account member⟩

/-- The capitalization is the sum of the startup balances over all keys. -/
theorem sum_balance (startup : Startup) :
    ∑ key, (balance (startup.ledger key) : ℤ) = (startup.accounts.map fun account => (account.2.lamports : ℤ)).sum := by
  have outside : ∀ key, key ∉ startup.accounts.map (fun account => account.2.pubkey) →
      (balance (startup.ledger key) : ℤ) = 0 := by
    intro key absent
    have none_ : startup.ledger key = none :=
      ledgerOf_eq_none.mpr fun account member same => absent (List.mem_map.mpr ⟨account, member, same⟩)
    rw [none_, balance_none, Nat.cast_zero]
  rw [ToMathlib.sum_eq_add_of_changed startup.distinct outside, Finset.sum_const_zero, zero_add, List.map_map]
  refine congrArg List.sum (List.map_congr_left fun account member => ?_)
  simp only [Function.comp, sub_zero, ledger, ledgerOf_of_mem startup.distinct member, balance_some, versionAt]

end Startup

end Cloudbreak.Model.Supply
