import Cloudbreak.Proofs.Supply.Window

/-! # Going live

The stake map flips first, once every snapshot account is seeded. Then the tracker folds the touches above
the startup slot onto the capitalization: each of them changes the balance from the startup one to the
touched one, and the accounts the window closed are marked. What the window knew of an account becomes the
exactness of its sources.
-/

namespace Cloudbreak.Model.Supply

open Cloudbreak.ToMathlib
open NonCirculating (Shared Version)
open Indexer (Event)

section Fold

variable {startupSlot : ℕ} {balances : HashMap Pubkey ℕ}

/-- What one touch adds to the window delta. -/
def touchGain (startupSlot : ℕ) (balances : HashMap Pubkey ℕ) (pubkey : Pubkey) (account : TouchedAccount) : ℤ :=
  if startupSlot < account.slot then account.lamports - ((balances.lookup pubkey).getD 0 : ℕ) else 0

private theorem foldTouched_spec {before after : SupplyState.Window} {pubkey : Pubkey} {account : TouchedAccount}
    (folded : SupplyState.foldTouched startupSlot balances before pubkey account = some after) :
    after.delta = before.delta + touchGain startupSlot balances pubkey account ∧
      before.maxSlot ≤ after.maxSlot ∧ (after.maxSlot = before.maxSlot ∨ after.maxSlot = account.slot) ∧
      ∀ key, key ∈ after.zeroPrev ↔ key ∈ before.zeroPrev ∨ key = pubkey ∧ account.lamports = 0 := by
  have zeroPrev : ∀ key, key ∈ (if account.lamports = 0 then insert pubkey before.zeroPrev else before.zeroPrev) ↔
      key ∈ before.zeroPrev ∨ key = pubkey ∧ account.lamports = 0 := by
    intro key
    by_cases empty : account.lamports = 0
    · simp [empty, or_comm]
    · simp [empty]
  have marked : (if account.lamports = 0 then { before with zeroPrev := insert pubkey before.zeroPrev }
      else before : SupplyState.Window) =
        ⟨before.delta, before.maxSlot, if account.lamports = 0 then insert pubkey before.zeroPrev
          else before.zeroPrev⟩ := by
    split <;> rfl
  unfold SupplyState.foldTouched at folded
  simp only [marked] at folded
  split at folded
  · next below =>
    cases folded
    exact ⟨by simp [touchGain, not_lt.mpr below], le_rfl, Or.inl rfl, zeroPrev⟩
  · next above =>
    obtain ⟨balance, resolved, same⟩ := Option.bind_eq_some_iff.mp folded
    cases same
    refine ⟨?_, le_max_left _ _, max_choice _ _, zeroPrev⟩
    simp [touchGain, not_le.mp above, resolved]

/-- The whole fold: the gains add up, and the marks are the accounts last touched empty. -/
theorem foldlM_touched {entries : List ((_ : Pubkey) × TouchedAccount)} {before after : SupplyState.Window}
    (folded : entries.foldlM
      (fun window item => SupplyState.foldTouched startupSlot balances window item.1 item.2) before = some after) :
    after.delta = before.delta + (entries.map fun item => touchGain startupSlot balances item.1 item.2).sum ∧
      before.maxSlot ≤ after.maxSlot ∧
      (after.maxSlot = before.maxSlot ∨ ∃ item ∈ entries, after.maxSlot = item.2.slot) ∧
      ∀ key, key ∈ after.zeroPrev ↔ key ∈ before.zeroPrev ∨ ∃ item ∈ entries, key = item.1 ∧ item.2.lamports = 0 := by
  induction entries generalizing before with
  | nil =>
    cases folded
    simp
  | cons first rest ih =>
    rw [List.foldlM_cons] at folded
    obtain ⟨window, one, others⟩ := Option.bind_eq_some_iff.mp folded
    obtain ⟨delta, bound, choice, zeroPrev⟩ := foldTouched_spec one
    obtain ⟨restDelta, restBound, restChoice, restZeroPrev⟩ := ih others
    refine ⟨by rw [restDelta, delta, List.map_cons, List.sum_cons, add_assoc], bound.trans restBound, ?_, fun key => ?_⟩
    · rcases restChoice with same | ⟨item, member, same⟩
      · rw [same]
        exact choice.imp id fun isFirst => ⟨first, List.mem_cons_self, isFirst⟩
      · exact Or.inr ⟨item, List.mem_cons_of_mem _ member, same⟩
    · rw [restZeroPrev, zeroPrev, or_assoc]
      simp only [List.mem_cons, exists_eq_or_imp]

/-- A finished bootstrap went through the fold of its touches. -/
theorem finishBootstrap_eq {state supply : SupplyState} {commit : SupplyCommit}
    (finished : state.finishBootstrap balances = some (supply, commit)) :
    ∃ window : SupplyState.Window, state.startupTouched.entries.foldlM
        (fun window item => SupplyState.foldTouched state.startupSlot balances window item.1 item.2)
        (⟨0, state.startupSlot, ∅⟩ : SupplyState.Window) = some window ∧
      supply = { state with
        total := addDelta state.total window.delta
        slot := max state.slot window.maxSlot
        startupTouched := ∅
        startupZeroPrev := window.zeroPrev
        status := .live } := by
  unfold SupplyState.finishBootstrap at finished
  split at finished
  · contradiction
  · obtain ⟨window, folded, same⟩ := Option.bind_eq_some_iff.mp finished
    cases same
    exact ⟨window, folded, rfl⟩

end Fold

section Balances

variable {indexer : Indexer}

/-- Every touched account is resolved, whether or not it has a row. -/
theorem lookup_fetchStartupBalances {key : Pubkey} (touched : key ∈ indexer.supply.startupTouched) :
    indexer.fetchStartupBalances.lookup key = some (indexer.fetchStartupBalance indexer.supply.startupSlot key) := by
  have folded : ∀ (keys : List Pubkey) (balances : HashMap Pubkey ℕ),
      (keys.foldl (fun balances pubkey =>
        balances.insert pubkey (indexer.fetchStartupBalance indexer.supply.startupSlot pubkey)) balances).lookup key =
        if key ∈ keys then some (indexer.fetchStartupBalance indexer.supply.startupSlot key)
        else balances.lookup key := by
    intro keys
    induction keys with
    | nil => simp
    | cons first rest ih =>
      intro balances
      rw [List.foldl_cons, ih, HashMap.lookup_insert]
      by_cases inRest : key ∈ rest
      · simp [inRest]
      · by_cases same : key = first
        · simp [same]
        · simp [inRest, same]
  unfold Indexer.fetchStartupBalances
  rw [folded, if_pos (AList.mem_keys.mp touched)]

/-- Once every snapshot account is stored, the startup balance of an account is the snapshot's. -/
theorem fetchStartupBalance_eq {startup : Startup} {events : List Event}
    (inside : ∀ account ∈ seeded events, account ∈ startup.accounts)
    (complete : ∀ account ∈ startup.accounts, account ∈ seeded events)
    (stored : indexer.snapshotAccounts =
      (seeded events).map fun account => ⟨account.2.pubkey, account.1, account.2.lamports⟩) (key : Pubkey) :
    indexer.fetchStartupBalance startup.slot key = balance (startup.ledger key) := by
  have isRow : ((latestRow (indexer.snapshotAccounts.filter fun row => row.slot ≤ startup.slot) key).map
      StoredRow.lamports) = (rowOf (indexer.snapshotAccounts.filter fun row => row.slot ≤ startup.slot) key).map
        PrevRow.lamports := by
    rw [rowOf, Option.map_map]
    rfl
  have member : ∀ row : StoredRow, row ∈ indexer.snapshotAccounts.filter (fun row => row.slot ≤ startup.slot) ↔
      ∃ account ∈ startup.accounts, row = ⟨account.2.pubkey, account.1, account.2.lamports⟩ := by
    intro row
    rw [List.mem_filter, stored, List.mem_map]
    constructor
    · rintro ⟨⟨account, isSeeded, rfl⟩, _⟩
      exact ⟨account, inside account isSeeded, rfl⟩
    · rintro ⟨account, isStartup, rfl⟩
      exact ⟨⟨account, complete account isStartup, rfl⟩, decide_eq_true (startup.atOrBelow account isStartup)⟩
  rw [Indexer.fetchStartupBalance, isRow]
  cases isStartup : startup.ledger key with
  | none =>
    have absent : rowOf (indexer.snapshotAccounts.filter fun row => row.slot ≤ startup.slot) key = none := by
      rw [rowOf_eq_none]
      intro row inRows
      obtain ⟨account, inStartup, rfl⟩ := (member row).mp inRows
      exact Startup.ledgerOf_eq_none.mp isStartup account inStartup
    rw [absent]
    rfl
  | some first =>
    obtain ⟨account, inStartup, rfl, rfl⟩ := Startup.ledgerOf_eq_some isStartup
    have latest : rowOf (indexer.snapshotAccounts.filter fun row => row.slot ≤ startup.slot) account.2.pubkey =
        some ⟨account.2.lamports, account.1⟩ := by
      rw [rowOf_eq_some]
      refine ⟨(member _).mpr ⟨account, inStartup, rfl⟩, fun row inRows same => ?_⟩
      obtain ⟨other, otherStartup, rfl⟩ := (member row).mp inRows
      rw [List.inj_on_of_nodup_map startup.distinct otherStartup inStartup same]
    rw [latest]
    rfl

end Balances

namespace Window

variable {shared : Shared} {startup : Startup} {events : List Event} {indexer : Indexer}

/-- An event that delivers and seeds nothing and leaves the trackers' records alone. -/
theorem transfer (window : Window shared startup events indexer) {next : Indexer} {event : Event}
    (noBlock : ∀ slot isRepaired accounts ok, event ≠ .block slot isRepaired accounts ok)
    (noSeed : ∀ slot account, event ≠ .seed slot account)
    (sameMap : next.nonCirculating = indexer.nonCirculating)
    (sameAccounts : next.accounts = indexer.accounts) (sameSnapshot : next.snapshotAccounts = indexer.snapshotAccounts)
    (booting : next.supply.status = .bootstrapping)
    (sameStartup : next.supply.startupSlot = indexer.supply.startupSlot)
    (sameTotal : next.supply.total = indexer.supply.total) (sameSlot : next.supply.slot = indexer.supply.slot)
    (sameTouched : next.supply.startupTouched = indexer.supply.startupTouched)
    (unmarked : ∀ key, supplyView next.supply key = ⟨none, false, none⟩) :
    Window shared startup (events ++ [event]) next := by
  obtain ⟨sameDelivered, sameSlots⟩ := delivered_other events noBlock
  have sameSeeded := seeded_other events noSeed
  have sameRow : ∀ key, next.row key = indexer.row key := by
    intro key
    unfold Indexer.row Indexer.rows
    rw [sameAccounts, sameSnapshot]
  have sameNewest : newest startup (events ++ [event]) = newest startup events := by
    unfold newest
    rw [sameDelivered]
  constructor
  case booting => exact booting
  case startupIs => exact sameStartup.trans window.startupIs
  case anchor => exact sameTotal.trans window.anchor
  case unmoved => exact sameSlot.trans window.unmoved
  case unmarked => exact unmarked
  case touched => rw [sameTouched, sameDelivered]; exact window.touched
  case mapSlot => rw [sameMap, sameSlots]; exact window.mapSlot
  case inside => rw [sameSeeded]; exact window.inside
  case snapshotRows => rw [sameSnapshot, sameSeeded]; exact window.snapshotRows
  case rows =>
    intro key
    rw [sameRow, sameSeeded, sameDelivered]
    exact window.rows key
  case agrees => rw [sameDelivered]; exact window.agrees
  case closesPlain => rw [sameDelivered]; exact window.closesPlain
  case settled => rw [sameDelivered, sameSlots]; exact window.settled
  case map => rw [sameMap, sameSeeded, sameDelivered, sameNewest]; exact window.map

/-- The stake map goes live once every snapshot account is seeded. -/
theorem finishNonCirculating (window : Window shared startup events indexer)
    (complete : ∀ account ∈ startup.accounts, account ∈ seeded events) {next : Indexer}
    (moves : indexer.step shared .finishNonCirculating = some next) :
    Window shared startup (events ++ [.finishNonCirculating]) next := by
  obtain ⟨nonCirculating, finished, same⟩ := Option.bind_eq_some_iff.mp moves
  cases same
  obtain ⟨sameDelivered, sameSlots⟩ := @delivered_other events .finishNonCirculating nofun
  have sameSeeded := @seeded_other events .finishNonCirculating nofun
  rcases window.map with ⟨_, flags, seeding⟩ | ⟨live, _⟩
  · obtain ⟨live, sameSlot, held⟩ := NonCirculating.State.finishBootstrap_held finished flags
    refine { window with
      touched := sameDelivered ▸ window.touched
      mapSlot := ?_
      inside := sameSeeded ▸ window.inside
      snapshotRows := sameSeeded ▸ window.snapshotRows
      rows := sameSeeded ▸ sameDelivered ▸ window.rows
      agrees := sameDelivered ▸ window.agrees
      closesPlain := sameDelivered ▸ window.closesPlain
      settled := sameDelivered ▸ sameSlots ▸ window.settled
      map := Or.inr ⟨live, sameSeeded ▸ complete, fun key => ?_⟩ }
    · rw [sameSlot, sameSlots]
      exact window.mapSlot
    · rw [held key, newest, sameDelivered, ← ledgerOf_whole window.inside complete key]
      exact heldExact_of_seeding (seeding key) fun first version isSeed =>
        window.agrees key first version (ledgerOf_part window.inside isSeed)
  · rw [NonCirculating.State.finishBootstrap, if_pos live] at finished
    contradiction

/-- What the window knows of an account is what its sources are exact for, once the closes are marked. -/
theorem exact_key (window : Window shared startup events indexer)
    (complete : ∀ account ∈ startup.accounts, account ∈ seeded events) {key : Pubkey} {view : SupplyView}
    (held : HeldExact (decide (key ∈ shared.pinned)) (newest startup events key) (delivered events key)
      (indexer.nonCirculating.held key))
    (uncached : view.cached = none) (noGap : view.gapClose = none)
    (marks : view.zeroPrev = true ↔ ∃ version, delivered events key = some version ∧ version.lamports = 0) :
    Exact (decide (key ∈ shared.pinned)) (newest startup events key) (delivered events key)
      (indexer.nonCirculating.held key) view (indexer.row key) := by
  have shown := window.rows key
  rw [ledgerOf_whole window.inside complete key] at shown
  refine { held with
    zeroPrev := fun marked => ?_
    cached := fun entry cached => by rw [uncached] at cached; contradiction
    gapClose := fun closed gap => by rw [noGap] at gap; contradiction
    rowExact := fun _ unmarked _ => Or.inl ?_
    rowBound := shown.bound }
  · obtain ⟨version, isDelivered, empty⟩ := marks.mp marked
    exact ⟨version, isDelivered, empty, window.closesPlain key version isDelivered empty⟩
  · have full : ∀ version, newest startup events key = some version → version.lamports ≠ 0 := by
      intro version isNewest empty
      rcases newestOf_eq version isNewest with isStartup | isDelivered
      · exact (startup.ledger_bounds isStartup).2 empty
      · rw [marks.mpr ⟨version, isDelivered, empty⟩] at unmarked
        contradiction
    cases isNewest : newest startup events key with
    | some version =>
      rw [shown.shows version isNewest (full version isNewest)]
      exact ⟨version, rfl, rfl, rfl⟩
    | none =>
      cases isRow : indexer.row key with
      | none => rfl
      | some latest =>
        obtain ⟨version, isVersion, _⟩ := shown.bound latest isRow
        rw [show newestOf (startup.ledger key) (delivered events key) = none from isNewest] at isVersion
        contradiction

/-- The touches above the startup slot are the counted changes. -/
theorem countedSupply_touched (window : Window shared startup events indexer)
    (complete : ∀ account ∈ startup.accounts, account ∈ seeded events) :
    countedSupply startup (delivered events) =
      (startup.accounts.map fun account => (account.2.lamports : ℤ)).sum +
        (indexer.supply.startupTouched.entries.map fun item =>
          touchGain startup.slot indexer.fetchStartupBalances item.1 item.2).sum := by
  have outside : ∀ key, key ∉ indexer.supply.startupTouched.keys →
      (balance (countedOf startup.slot (startup.ledger key) (delivered events key)) : ℤ) =
        balance (startup.ledger key) := by
    intro key absent
    have untouched : indexer.supply.startupTouched.lookup key = none := AList.lookup_eq_none.mpr absent
    rw [window.touched, Option.map_eq_none_iff] at untouched
    rw [untouched]
    rfl
  rw [← startup.sum_balance]
  refine (sum_eq_add_of_changed indexer.supply.startupTouched.keys_nodup outside).trans (congrArg (_ + ·) ?_)
  rw [AList.keys, List.keys, List.map_map]
  refine congrArg List.sum (List.map_congr_left fun item member => ?_)
  have isTouched : indexer.supply.startupTouched.lookup item.1 = some item.2 :=
    HashMap.lookup_eq_some_iff.mpr member
  have resolved : indexer.fetchStartupBalances.lookup item.1 = some (balance (startup.ledger item.1)) := by
    rw [lookup_fetchStartupBalances (AList.lookup_isSome.mp (by rw [isTouched]; rfl)), window.startupIs,
      fetchStartupBalance_eq window.inside complete window.snapshotRows]
  rw [window.touched] at isTouched
  obtain ⟨version, isDelivered, isItem⟩ := Option.map_eq_some_iff.mp isTouched
  simp only [Function.comp, touchGain, resolved, isDelivered, countedOf, Option.any_some, decide_eq_true_eq,
    Option.getD_some, ← isItem]
  split
  · rfl
  · exact sub_self _

/-- Finishing the bootstrap leaves a live tracker whose total and sources are exact. -/
theorem finishSupply (window : Window shared startup events indexer)
    (complete : ∀ account ∈ startup.accounts, account ∈ seeded events)
    (mapLive : indexer.nonCirculating.status = .live) {next : Indexer}
    (moves : indexer.step shared .finishSupply = some next) :
    Counting shared startup { key | (delivered events key).isSome } (events ++ [.finishSupply]) next := by
  obtain ⟨⟨supply, commit⟩, finished, same⟩ := Option.bind_eq_some_iff.mp moves
  cases same
  obtain ⟨sameDelivered, sameSlots⟩ := @delivered_other events .finishSupply nofun
  have held : ∀ key, HeldExact (decide (key ∈ shared.pinned)) (newest startup events key) (delivered events key)
      (indexer.nonCirculating.held key) := by
    rcases window.map with ⟨booting, _⟩ | ⟨_, _, held⟩
    · rw [mapLive] at booting
      contradiction
    · exact held
  obtain ⟨fold, folded, rfl⟩ := finishBootstrap_eq finished
  obtain ⟨delta, bound, choice, zeroPrev⟩ := foldlM_touched folded
  have cached : ∀ key, indexer.supply.cache.map.lookup key = none :=
    fun key => congrArg SupplyView.cached (window.unmarked key)
  have gapless : ∀ key, indexer.supply.gapCloses.lookup key = none :=
    fun key => congrArg SupplyView.gapClose (window.unmarked key)
  have marks : ∀ key, decide (key ∈ fold.zeroPrev) = true ↔
      ∃ version, delivered events key = some version ∧ version.lamports = 0 := by
    intro key
    rw [decide_eq_true_eq, zeroPrev]
    simp only [Finset.notMem_empty, false_or]
    constructor
    · rintro ⟨item, member, rfl, empty⟩
      have isTouched := HashMap.lookup_eq_some_iff.mpr member
      rw [window.touched] at isTouched
      obtain ⟨version, isDelivered, same⟩ := Option.map_eq_some_iff.mp isTouched
      exact ⟨version, isDelivered, by rw [← empty, ← same]⟩
    · rintro ⟨version, isDelivered, empty⟩
      have isTouched := window.touched key
      rw [isDelivered, Option.map_some] at isTouched
      exact ⟨_, HashMap.lookup_eq_some_iff.mp isTouched, rfl, empty⟩
  have slotIs : max indexer.supply.slot fold.maxSlot = fold.maxSlot := by rw [window.unmoved, Nat.zero_max]
  constructor
  case running => exact Or.inl rfl
  case startupIs => exact window.startupIs
  case mapLive => exact mapLive
  case mapSlot => exact sameSlots ▸ window.mapSlot
  case supplySlot =>
    rw [sameSlots, slotIs]
    rcases choice with same | ⟨item, member, same⟩
    · exact Or.inl (same.trans window.startupIs)
    · have isTouched := HashMap.lookup_eq_some_iff.mpr member
      rw [window.touched] at isTouched
      obtain ⟨version, isDelivered, isItem⟩ := Option.map_eq_some_iff.mp isTouched
      refine Or.inr ?_
      rw [same, ← isItem]
      exact slot_mem_of_delivered events isDelivered
  case ahead =>
    rw [slotIs, ← window.startupIs]
    exact bound
  case sources =>
    intro key
    rw [newest, sameDelivered]
    exact window.exact_key complete (held key) (cached key) (gapless key) (marks key)
  case counted =>
    rw [sameDelivered, window.countedSupply_touched complete, addDelta_cast, window.anchor, delta, zero_add,
      window.startupIs, Startup.capitalization]
    push_cast
    rw [Int.emod_add_emod, List.map_map]
    rfl
  case quiet => exact fun _ key => ⟨cached key, gapless key⟩
  case settled => exact sameDelivered ▸ sameSlots ▸ window.settled
  case marks =>
    intro key marked
    obtain ⟨version, isDelivered, _⟩ := (marks key).mp marked
    simp [isDelivered]

end Window

end Cloudbreak.Model.Supply
