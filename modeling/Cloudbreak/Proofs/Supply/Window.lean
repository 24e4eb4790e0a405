import Cloudbreak.Proofs.NonCirculating.Seeding
import Cloudbreak.Proofs.Supply.LiveRun

/-! # The bootstrap window

Before the tracker is live, snapshot accounts are seeded and blocks are observed in any interleaving. The
tracker only remembers the last touch of each account; the stake map and the rows merge the snapshot with
the blocks. Finishing the bootstrap folds the touches above the startup slot onto the capitalization, and
from then on every source is exact.
-/

namespace Cloudbreak.Model.Supply

open Cloudbreak.ToMathlib
open NonCirculating (Shared Version StakeView stakeView versionAt stakeProgramId clockSysvarId Seeding)
open NonCirculating.State (PinFlags)
open Indexer (Event)

/-- The latest row of an account while the snapshot is stored: it is never above the newest version, and
shows it unless that version is a close. -/
structure WindowRow (seed delivered : Option Version) (row : Option PrevRow) : Prop where
  bound : ∀ latest, row = some latest → ∃ version, newestOf seed delivered = some version ∧ latest.slot ≤ version.slot
  shows : ∀ version, newestOf seed delivered = some version → version.lamports ≠ 0 →
    row = some ⟨version.lamports, version.slot⟩

namespace WindowRow

variable {seed delivered : Option Version} {row : Option PrevRow}

theorem start : WindowRow none none none := ⟨nofun, nofun⟩

theorem write (shown : WindowRow seed delivered row) {written : Version}
    (later : ∀ version, delivered = some version → version.slot < written.slot)
    (equal : ∀ first, seed = some first → first.slot = written.slot → first = written)
    (nonempty : ∀ first, seed = some first → first.lamports ≠ 0) (snapshotFinished : Bool) :
    WindowRow seed (some written) (rowAfter snapshotFinished written row) := by
  rcases newestOf_write later equal nonempty with ⟨isWritten, older⟩ | ⟨same, version, isNewest, full, reached, again⟩
  · have below : ∀ latest, row = some latest → latest.slot < written.slot := by
      intro latest isLatest
      obtain ⟨version, isNewest, bound⟩ := shown.bound latest isLatest
      have := older version isNewest
      omega
    constructor
    · intro latest after
      refine ⟨written, isWritten, ?_⟩
      rcases rowAfter_bound after with rfl | before
      · exact le_rfl
      · exact (below latest before).le
    · intro version isNewest full
      rw [isWritten, Option.some.injEq] at isNewest
      subst isNewest
      rw [rowAfter, if_pos (Or.inl full), pushRow_newer below]
  · -- the snapshot's version stays newest, and its row stays latest
    have isRow := shown.shows version isNewest full
    have kept : rowAfter snapshotFinished written row = row := by
      unfold rowAfter
      split
      · rw [isRow]
        rcases Nat.lt_or_eq_of_le reached with above | atSlot
        · exact pushRow_older above
        · rw [again atSlot]
          exact pushRow_same _
      · rfl
    rw [kept]
    exact ⟨fun latest isLatest => same ▸ shown.bound latest isLatest, fun other isOther => shown.shows other (same ▸ isOther)⟩

theorem seeded (shown : WindowRow none delivered row) {first : Version}
    (equal : ∀ version, delivered = some version → version.slot = first.slot → version = first) :
    WindowRow (some first) delivered (pushRow row ⟨first.lamports, first.slot⟩) := by
  cases isDelivered : delivered with
  | none =>
    have absent : row = none := by
      cases isRow : row with
      | none => rfl
      | some latest =>
        obtain ⟨version, isNewest, _⟩ := shown.bound latest isRow
        rw [isDelivered] at isNewest
        contradiction
    rw [absent]
    refine ⟨fun latest isLatest => ⟨first, rfl, ?_⟩, fun version isNewest _ => ?_⟩
    · rw [← Option.some.inj isLatest]
    · rw [← Option.some.inj isNewest]
      rfl
  | some version =>
    rw [isDelivered] at shown equal
    have isNewest : newestOf none (some version) = some version := rfl
    by_cases below : version.slot < first.slot
    · have becomes : newestOf (some first) (some version) = some first :=
        newestOf_startup fun other same => by cases same; exact below
      have pushed : pushRow row ⟨first.lamports, first.slot⟩ = some ⟨first.lamports, first.slot⟩ := by
        refine pushRow_newer fun latest isLatest => ?_
        obtain ⟨other, isOther, bound⟩ := shown.bound latest isLatest
        cases isOther
        exact bound.trans_lt below
      rw [pushed]
      refine ⟨fun latest isLatest => ⟨first, becomes, ?_⟩, fun other isOther _ => ?_⟩
      · rw [← Option.some.inj isLatest]
      · rw [becomes, Option.some.injEq] at isOther
        rw [isOther]
    · have becomes : newestOf (some first) (some version) = some version :=
        newestOf_delivered fun other same => by cases same; exact not_lt.mp below
      refine ⟨fun latest isLatest => ⟨version, becomes, ?_⟩, fun other isOther full => ?_⟩
      · rcases pushRow_bound isLatest with rfl | before
        · exact not_lt.mp below
        · obtain ⟨other, isOther, bound⟩ := shown.bound latest before
          cases isOther
          exact bound
      · rw [becomes, Option.some.injEq] at isOther
        subst isOther
        have isRow := shown.shows version isNewest full
        rw [isRow]
        rcases Nat.lt_or_eq_of_le (not_lt.mp below) with above | same
        · exact pushRow_older above
        · rw [equal version rfl same.symm]
          exact pushRow_same _

end WindowRow

/-- The flip leaves an exact map: an entry is the newest version or the newest write, and an account
without one is none of the map's. -/
theorem heldExact_of_seeding {pinned : Bool} {seed delivered held : Option Version} {shadow : Option ℕ}
    (seeding : Seeding pinned seed delivered held shadow)
    (equal : ∀ first version, seed = some first → delivered = some version → version.slot = first.slot →
      version = first) :
    HeldExact pinned (newestOf seed delivered) delivered
      (held.filter fun version => version.stakeOwned || pinned) := by
  -- a seed that a block write reached or passed is not the newest version any more
  have passed : ∀ first last, seed = some first → delivered = some last → first.slot ≤ last.slot →
      newestOf seed delivered = some last := by
    intro first last isSeed isDelivered reached
    rw [isSeed, isDelivered]
    exact newestOf_delivered fun other same => by cases same; exact reached
  constructor
  · intro version kept
    obtain ⟨isHeld, _⟩ := Option.filter_eq_some_iff.mp kept
    rcases seeding.known version isHeld with ⟨isSeed, _⟩ | isDelivered
    · cases isDelivered : delivered with
      | none => exact Or.inl (isSeed ▸ newestOf_none_right _)
      | some last =>
        rcases Nat.lt_or_eq_of_le (seeding.aboveWrite version last isHeld isDelivered) with below | same
        · refine Or.inl ?_
          rw [isSeed]
          exact newestOf_startup fun other isOther => by cases isOther; exact below
        · exact Or.inr (congrArg some (equal version last isSeed isDelivered same))
    · exact Or.inr isDelivered
  · intro gone version isVersion
    suffices irrelevant : (version.stakeOwned || pinned) = false from Bool.or_eq_false_iff.mp irrelevant
    cases isHeld : held with
    | none =>
      have plain := fun last isLast => (seeding.dropped isHeld last isLast).1
      rcases isVersion with isNewest | isDelivered
      · rcases newestOf_eq version isNewest with isSeed | isDelivered
        · by_contra relevant
          obtain ⟨seen, isShadow, bound⟩ := seeding.shadowed isHeld version isSeed ((Bool.not_eq_false _).mp relevant)
          obtain ⟨last, isDelivered, rfl⟩ := seeding.shadowSlot isHeld seen isShadow
          rw [passed version last isSeed isDelivered bound, Option.some.injEq] at isNewest
          exact relevant (isNewest ▸ plain last isDelivered)
        · exact plain version isDelivered
      · exact plain version isDelivered
    | some old =>
      have irrelevant : (old.stakeOwned || pinned) = false := by
        rw [isHeld, Option.filter_some] at gone
        simpa using gone
      have isDelivered := (seeding.known old isHeld).resolve_left fun seeded => by
        rw [seeded.2] at irrelevant
        contradiction
      rcases isVersion with isNewest | isLast
      · rcases newestOf_eq version isNewest with isSeed | isLast
        · by_contra relevant
          have bound := seeding.aboveSeed old version isHeld isSeed ((Bool.not_eq_false _).mp relevant)
          rw [passed version old isSeed isDelivered bound, Option.some.injEq] at isNewest
          exact relevant (isNewest ▸ irrelevant)
        · rw [isDelivered, Option.some.injEq] at isLast
          exact isLast ▸ irrelevant
      · rw [isDelivered, Option.some.injEq] at isLast
        exact isLast ▸ irrelevant

section Seeds

variable {startup : Startup} {events : List Event}

private theorem ledgerOf_append {seeds : List (ℕ × AccountInfo)} {slot : ℕ} {account : AccountInfo}
    (unseeded : Startup.ledgerOf seeds account.pubkey = none) (key : Pubkey) :
    Startup.ledgerOf (seeds ++ [(slot, account)]) key =
      if key = account.pubkey then some (versionAt slot account) else Startup.ledgerOf seeds key := by
  unfold Startup.ledgerOf at unseeded ⊢
  rw [List.find?_append]
  by_cases same : key = account.pubkey
  · subst same
    rw [Option.map_eq_none_iff] at unseeded
    simp [unseeded]
  · have other : ¬account.pubkey = key := fun equal => same equal.symm
    simp [same, other]

/-- A part of the snapshot knows each account as the whole does, or not at all. -/
theorem ledgerOf_part (inside : ∀ account ∈ seeded events, account ∈ startup.accounts) {key : Pubkey} {first : Version}
    (isSeed : Startup.ledgerOf (seeded events) key = some first) : startup.ledger key = some first := by
  obtain ⟨account, member, rfl, rfl⟩ := Startup.ledgerOf_eq_some isSeed
  exact Startup.ledgerOf_of_mem startup.distinct (inside account member)

theorem ledgerOf_whole (inside : ∀ account ∈ seeded events, account ∈ startup.accounts)
    (complete : ∀ account ∈ startup.accounts, account ∈ seeded events) (key : Pubkey) :
    Startup.ledgerOf (seeded events) key = startup.ledger key := by
  cases isSeed : Startup.ledgerOf (seeded events) key with
  | some first => exact (ledgerOf_part inside isSeed).symm
  | none =>
    rw [Startup.ledgerOf_eq_none] at isSeed
    exact (Startup.ledgerOf_eq_none.mpr fun account member => isSeed account (complete account member)).symm

private theorem unseeded_of_not_mem (inside : ∀ account ∈ seeded events, account ∈ startup.accounts) {slot : ℕ}
    {account : AccountInfo} (member : (slot, account) ∈ startup.accounts) (fresh : (slot, account) ∉ seeded events) :
    Startup.ledgerOf (seeded events) account.pubkey = none := by
  rw [Startup.ledgerOf_eq_none]
  intro other isSeeded same
  have equal := List.inj_on_of_nodup_map startup.distinct (inside other isSeeded) member same
  exact fresh (equal ▸ isSeeded)

end Seeds

/-- What holds until the tracker goes live. -/
structure Window (shared : Shared) (startup : Startup) (events : List Event) (indexer : Indexer) : Prop where
  booting : indexer.supply.status = .bootstrapping
  startupIs : indexer.supply.startupSlot = startup.slot
  anchor : indexer.supply.total = startup.capitalization
  unmoved : indexer.supply.slot = 0
  unmarked : ∀ key, supplyView indexer.supply key = ⟨none, false, none⟩
  touched : ∀ key, indexer.supply.startupTouched.lookup key =
    (delivered events key).map fun version => ⟨version.slot, version.lamports⟩
  mapSlot : indexer.nonCirculating.slot = 0 ∨ indexer.nonCirculating.slot ∈ blockSlots events
  inside : ∀ account ∈ seeded events, account ∈ startup.accounts
  snapshotRows : indexer.snapshotAccounts =
    (seeded events).map fun account => ⟨account.2.pubkey, account.1, account.2.lamports⟩
  rows : ∀ key, WindowRow (Startup.ledgerOf (seeded events) key) (delivered events key) (indexer.row key)
  agrees : ∀ key first version, startup.ledger key = some first → delivered events key = some version →
    version.slot = first.slot → version = first
  closesPlain : ∀ key version, delivered events key = some version → version.lamports = 0 →
    version.stakeOwned = false
  settled : (∃ slot ∈ blockSlots events, startup.slot < slot) → SettledLedger startup (delivered events)
  map : indexer.nonCirculating.status = .bootstrapping ∧ PinFlags shared indexer.nonCirculating ∧
      (∀ key, Seeding (decide (key ∈ shared.pinned)) (Startup.ledgerOf (seeded events) key) (delivered events key)
        (indexer.nonCirculating.held key) (indexer.nonCirculating.seedShadow.lookup key)) ∨
    indexer.nonCirculating.status = .live ∧ (∀ account ∈ startup.accounts, account ∈ seeded events) ∧
      ∀ key, HeldExact (decide (key ∈ shared.pinned)) (newest startup events key) (delivered events key)
        (indexer.nonCirculating.held key)

namespace Window

variable {shared : Shared} {startup : Startup} {events : List Event} {indexer : Indexer}

theorem start (shared : Shared) (startup : Startup) (cap failPinCap : ℕ) :
    Window shared startup [] (.start shared cap failPinCap startup.slot startup.capitalization) := by
  have anchored : (Indexer.start shared cap failPinCap startup.slot startup.capitalization).supply =
      { SupplyState.new cap failPinCap with startupSlot := startup.slot, total := startup.capitalization } :=
    if_pos ⟨rfl, startup.started⟩
  constructor
  case booting => rw [anchored]; rfl
  case startupIs => rw [anchored]
  case anchor => rw [anchored]
  case unmoved => rw [anchored]; rfl
  case unmarked =>
    intro key
    rw [anchored]
    simp [supplyView, SupplyState.new, HotAccounts.withCapacity]
  case touched =>
    intro key
    rw [anchored]
    exact HashMap.lookup_empty key
  case mapSlot => exact Or.inl rfl
  case inside => simp
  case snapshotRows => rfl
  case rows => exact fun key => .start
  case agrees => simp
  case closesPlain => simp
  case settled => simp
  case map =>
    refine Or.inl ⟨rfl, NonCirculating.State.pinFlags_new shared, fun key => ?_⟩
    have untouched : (Indexer.start shared cap failPinCap startup.slot startup.capitalization).nonCirculating.held key =
        none := by simp [Indexer.start, NonCirculating.State.held, NonCirculating.State.new]
    have unshadowed : (Indexer.start shared cap failPinCap startup.slot startup.capitalization).nonCirculating.seedShadow.lookup
        key = none := by simp [Indexer.start, NonCirculating.State.new]
    rw [untouched, unshadowed]
    exact .start _

/-- One more snapshot account reaches the stake map and the rows. -/
theorem seed (window : Window shared startup events indexer) {slot : ℕ} {account : AccountInfo}
    (booting : indexer.nonCirculating.status = .bootstrapping) (member : (slot, account) ∈ startup.accounts)
    (fresh : (slot, account) ∉ seeded events) {next : Indexer}
    (moves : indexer.step shared (.seed slot account) = some next) :
    Window shared startup (events ++ [.seed slot account]) next := by
  cases moves
  have unseeded := unseeded_of_not_mem window.inside member fresh
  have isStartup : startup.ledger account.pubkey = some (versionAt slot account) :=
    Startup.ledgerOf_of_mem startup.distinct member
  obtain ⟨sameDelivered, sameSlots⟩ := @delivered_other events (.seed slot account) nofun
  have fixed := @NonCirculating.State.seedAccount_fixed shared indexer.nonCirculating account slot
  constructor
  case booting => exact window.booting
  case startupIs => exact window.startupIs
  case anchor => exact window.anchor
  case unmoved => exact window.unmoved
  case unmarked => exact window.unmarked
  case touched => exact sameDelivered ▸ window.touched
  case mapSlot => exact sameSlots ▸ fixed.2.2 ▸ window.mapSlot
  case inside =>
    intro other isSeeded
    rw [seeded_seed, List.mem_append, List.mem_singleton] at isSeeded
    rcases isSeeded with before | rfl
    · exact window.inside other before
    · exact member
  case snapshotRows => simp [window.snapshotRows]
  case rows =>
    intro key
    rw [seeded_seed, ledgerOf_append unseeded, sameDelivered]
    have before := window.rows key
    by_cases same : key = account.pubkey
    · subst same
      rw [if_pos rfl]
      have pushed : Indexer.row { indexer with
            nonCirculating := indexer.nonCirculating.seedAccount shared account slot
            snapshotAccounts := indexer.snapshotAccounts ++ [⟨account.pubkey, slot, account.lamports⟩] }
          account.pubkey = pushRow (indexer.row account.pubkey) ⟨account.lamports, slot⟩ := by
        refine rowOf_push fun row _ => ?_
        simp only [Indexer.rows, List.mem_append, List.mem_singleton]
        tauto
      rw [pushed]
      rw [unseeded] at before
      exact before.seeded fun version isDelivered equal =>
        window.agrees account.pubkey _ version isStartup isDelivered equal
    · rw [if_neg same]
      have kept : Indexer.row { indexer with
            nonCirculating := indexer.nonCirculating.seedAccount shared account slot
            snapshotAccounts := indexer.snapshotAccounts ++ [⟨account.pubkey, slot, account.lamports⟩] } key =
          indexer.row key := by
        refine rowOf_congr fun row isKey => ?_
        simp only [Indexer.rows, List.mem_append, List.mem_singleton]
        constructor
        · rintro (inAccounts | inSnapshot | rfl)
          · exact Or.inl inAccounts
          · exact Or.inr inSnapshot
          · exact absurd isKey.symm same
        · tauto
      rw [kept]
      exact before
  case agrees => exact sameDelivered ▸ window.agrees
  case closesPlain => exact sameDelivered ▸ window.closesPlain
  case settled => exact sameDelivered ▸ sameSlots ▸ window.settled
  case map =>
    refine Or.inl ?_
    rcases window.map with ⟨_, flags, seeding⟩ | ⟨live, _⟩
    · refine ⟨fixed.2.1.trans booting, flags.seedAccount account slot, fun key => ?_⟩
      rw [seeded_seed, ledgerOf_append unseeded, sameDelivered]
      refine NonCirculating.State.seeding_seedAccount (seeding key) (startup.clockOwner _ member) ?_
      rintro rfl
      exact unseeded
    · rw [booting] at live
      contradiction

section Block

variable {slot : ℕ} {accounts : List AccountInfo}

/-- A state that differs from another one in the recorded touches alone. -/
def OnlyTouched (before after : SupplyState) : Prop :=
  after = { before with startupTouched := after.startupTouched }

theorem OnlyTouched.refl (state : SupplyState) : OnlyTouched state state := rfl

/-- The newest touch of an account. -/
def touchAfter (slot : ℕ) (p : Pending) (touched : Option TouchedAccount) : Option TouchedAccount :=
  if touched.all fun touched => touched.slot ≤ slot then some ⟨slot, p.lamports⟩ else touched

/-- While the cache is empty a touch records the write and nothing else. -/
theorem touch_local {before : SupplyState} (empty : ∀ key, before.cache.map.lookup key = none) (slot : ℕ) :
    KeyLocal (SupplyState.touch slot) Pending.pubkey (fun state key => state.startupTouched.lookup key)
      (touchAfter slot) (OnlyTouched before) := by
  have missed : ∀ (state : SupplyState) (p : Pending), OnlyTouched before state →
      (state.cache.probe p.pubkey p.lamports slot p.owner false).1 = state.cache := by
    intro state p only
    have absent : state.cache.map.lookup p.pubkey = none := by rw [only]; exact empty _
    simp [HotAccounts.probe, absent]
  constructor
  · intro state p only
    unfold SupplyState.touch
    rw [missed state p only]
    dsimp only
    split
    · unfold OnlyTouched
      dsimp only
      rw [only]
    · exact only
  · intro state p key only
    unfold SupplyState.touch touchAfter
    rw [missed state p only]
    dsimp only
    by_cases same : key = p.pubkey
    · subst same
      rw [if_pos rfl]
      split
      · rw [HashMap.lookup_insert, if_pos rfl]
      · rfl
    · rw [if_neg same]
      split
      · rw [HashMap.lookup_insert, if_neg same]
      · rfl

/-- A stored block of the window records its touches. -/
theorem saveBlock_supply (window : Window shared startup events indexer) (isRepaired : Bool) :
    (indexer.saveBlock shared slot isRepaired accounts true).supply =
      (SupplyState.buildBlockPending accounts).foldl (SupplyState.touch slot) indexer.supply := by
  simp only [Indexer.saveBlock, SupplyState.applyBlock, SupplyState.probeBlock, window.booting,
    SupplyState.finishBlock, if_true]

/-- What a block of the window is allowed to do to one account. -/
structure WindowOk (atStartup : Option Version) (slot : ℕ) (account : AccountInfo) : Prop where
  consistent : ∀ first, atStartup = some first → first.slot = slot → first = versionAt slot account
  plainClose : account.lamports = 0 → account.owner ≠ stakeProgramId

private theorem mapSlot_lt (window : Window shared startup events indexer) (positive : 0 < slot)
    (ordered : ∀ earlier ∈ blockSlots events, earlier < slot) : indexer.nonCirculating.slot < slot := by
  rcases window.mapSlot with zero | inBlock
  · omega
  · exact ordered _ inBlock

private theorem delivered_below (ordered : ∀ earlier ∈ blockSlots events, earlier < slot) {key : Pubkey}
    (version : Version) (isDelivered : delivered events key = some version) : version.slot < slot :=
  ordered _ (slot_mem_of_delivered events isDelivered)

private theorem record_written (distinct : (accounts.map AccountInfo.pubkey).Nodup)
    (ordered : ∀ earlier ∈ blockSlots events, earlier < slot) {account : AccountInfo} (member : account ∈ accounts) :
    (delivered events).record slot accounts account.pubkey = some (versionAt slot account) := by
  rw [record_of_mem distinct member]
  exact newer_later (delivered_below ordered)

/-- The touches follow the versions that the blocks delivered. -/
private theorem touched_block (window : Window shared startup events indexer)
    (distinct : (accounts.map AccountInfo.pubkey).Nodup) (ordered : ∀ earlier ∈ blockSlots events, earlier < slot)
    (key : Pubkey) :
    (indexer.saveBlock shared slot false accounts true).supply.startupTouched.lookup key =
      ((delivered events).record slot accounts key).map fun version => ⟨version.slot, version.lamports⟩ := by
  have touches := touch_local (fun key => congrArg SupplyView.cached (window.unmarked key)) slot
  rw [@saveBlock_supply _ _ _ _ slot accounts window false]
  by_cases written : key ∈ accounts.map AccountInfo.pubkey
  · obtain ⟨account, member, rfl⟩ := List.mem_map.mp written
    have touched := touches.view_foldl_of_mem (.refl _) (by rw [map_pubkey_pending]; exact distinct)
      (mem_pending.mpr ⟨account, member, rfl⟩)
    refine touched.trans ?_
    rw [record_written distinct ordered member]
    refine (if_pos ?_).trans rfl
    dsimp only [pendingOf]
    rw [window.touched]
    cases isDelivered : delivered events account.pubkey with
    | none => rfl
    | some version => simpa using (delivered_below ordered version isDelivered).le
  · have untouched := touches.view_foldl_of_not_mem (.refl _)
      (show key ∉ (SupplyState.buildBlockPending accounts).map Pending.pubkey by rwa [map_pubkey_pending])
    rw [record_of_not_mem written]
    exact untouched.trans (window.touched key)

/-- Before the map is live a block keeps its seeding. -/
private theorem seeding_block (freshMap : false = true ∨ indexer.nonCirculating.slot < slot)
    (booting : indexer.nonCirculating.status = .bootstrapping) (distinct : (accounts.map AccountInfo.pubkey).Nodup)
    (ordered : ∀ earlier ∈ blockSlots events, earlier < slot) {key : Pubkey} {seed : Option Version}
    (before : Seeding (decide (key ∈ shared.pinned)) seed (delivered events key) (indexer.nonCirculating.held key)
      (indexer.nonCirculating.seedShadow.lookup key)) :
    Seeding (decide (key ∈ shared.pinned)) seed ((delivered events).record slot accounts key)
      ((indexer.saveBlock shared slot false accounts true).nonCirculating.held key)
      ((indexer.saveBlock shared slot false accounts true).nonCirculating.seedShadow.lookup key) := by
  by_cases written : key ∈ accounts.map AccountInfo.pubkey
  · obtain ⟨account, member, rfl⟩ := List.mem_map.mp written
    have view := indexer.nonCirculating.applyBlock_view_of_mem shared slot freshMap distinct member
    rw [NonCirculating.State.stakeView_default, booting] at view
    have heldIs : (indexer.saveBlock shared slot false accounts true).nonCirculating.held account.pubkey = _ :=
      congrArg StakeView.held view
    have shadowIs : (indexer.saveBlock shared slot false accounts true).nonCirculating.seedShadow.lookup
        account.pubkey = _ := congrArg StakeView.shadow view
    rw [record_written distinct ordered member, heldIs, shadowIs]
    exact before.write (delivered_below ordered)
  · have view := indexer.nonCirculating.applyBlock_view_of_not_mem shared slot freshMap written
    rw [NonCirculating.State.stakeView_default] at view
    have heldIs : (indexer.saveBlock shared slot false accounts true).nonCirculating.held key = _ :=
      congrArg StakeView.held view
    have shadowIs : (indexer.saveBlock shared slot false accounts true).nonCirculating.seedShadow.lookup key = _ :=
      congrArg StakeView.shadow view
    rw [record_of_not_mem written, heldIs, shadowIs]
    exact before

/-- Once the map is live a block keeps it exact. -/
private theorem held_block (freshMap : false = true ∨ indexer.nonCirculating.slot < slot)
    (distinct : (accounts.map AccountInfo.pubkey).Nodup) (ordered : ∀ earlier ∈ blockSlots events, earlier < slot)
    (allowed : ∀ account ∈ accounts, WindowOk (startup.ledger account.pubkey) slot account) {key : Pubkey}
    (held : HeldExact (decide (key ∈ shared.pinned)) (newest startup events key) (delivered events key)
      (indexer.nonCirculating.held key)) :
    HeldExact (decide (key ∈ shared.pinned))
      (newestOf (startup.ledger key) ((delivered events).record slot accounts key))
      ((delivered events).record slot accounts key)
      ((indexer.saveBlock shared slot false accounts true).nonCirculating.held key) := by
  by_cases written : key ∈ accounts.map AccountInfo.pubkey
  · obtain ⟨account, member, rfl⟩ := List.mem_map.mp written
    have heldIs : (indexer.saveBlock shared slot false accounts true).nonCirculating.held account.pubkey =
        heldAfter (decide (account.pubkey ∈ shared.pinned)) (versionAt slot account)
          (indexer.nonCirculating.held account.pubkey) := held_applyBlock_of_mem freshMap distinct member
    rw [record_written distinct ordered member, heldIs]
    refine held.write (delivered_below ordered) ?_
    rcases @newestOf_write (startup.ledger account.pubkey) _ (versionAt slot account) (delivered_below ordered)
      (allowed account member).consistent (fun first isFirst => (startup.ledger_bounds isFirst).2)
      with ⟨isWritten, older⟩ | ⟨same, version, isNewest, _, reached, _⟩
    · refine Or.inl ⟨isWritten, fun version isNewest => ?_⟩
      have below := older version isNewest
      exact ⟨below.le, fun equal => absurd equal (Nat.ne_of_lt below)⟩
    · exact Or.inr ⟨same, version, isNewest, reached⟩
  · have heldIs : (indexer.saveBlock shared slot false accounts true).nonCirculating.held key =
        indexer.nonCirculating.held key := held_applyBlock_of_not_mem freshMap written
    rw [record_of_not_mem written, heldIs]
    exact held

/-- What a block delivers is one of its accounts, or was delivered before. -/
private theorem record_cases (distinct : (accounts.map AccountInfo.pubkey).Nodup)
    (ordered : ∀ earlier ∈ blockSlots events, earlier < slot) {key : Pubkey} {version : Version}
    (isDelivered : (delivered events).record slot accounts key = some version) :
    (∃ account ∈ accounts, account.pubkey = key ∧ versionAt slot account = version) ∨
      delivered events key = some version := by
  by_cases written : key ∈ accounts.map AccountInfo.pubkey
  · obtain ⟨account, member, rfl⟩ := List.mem_map.mp written
    rw [record_written distinct ordered member, Option.some.injEq] at isDelivered
    exact Or.inl ⟨account, member, rfl, isDelivered⟩
  · rw [record_of_not_mem written] at isDelivered
    exact Or.inr isDelivered

theorem block (window : Window shared startup events indexer) (positive : 0 < slot)
    (distinct : (accounts.map AccountInfo.pubkey).Nodup) (ordered : ∀ earlier ∈ blockSlots events, earlier < slot)
    (settled : startup.slot < slot → SettledLedger startup (delivered events))
    (allowed : ∀ account ∈ accounts, WindowOk (startup.ledger account.pubkey) slot account) :
    Window shared startup (events ++ [.block slot false accounts true])
      (indexer.saveBlock shared slot false accounts true) := by
  have freshMap : false = true ∨ indexer.nonCirculating.slot < slot := Or.inr (window.mapSlot_lt positive ordered)
  have only : OnlyTouched indexer.supply (indexer.saveBlock shared slot false accounts true).supply := by
    rw [@saveBlock_supply _ _ _ _ slot accounts window false]
    exact (touch_local (fun key => congrArg SupplyView.cached (window.unmarked key)) slot).valid_foldl (.refl _) _
  have sameSeeds : seeded (events ++ [.block slot false accounts true]) = seeded events := seeded_other events nofun
  constructor
  case booting => rw [only]; exact window.booting
  case startupIs => rw [only]; exact window.startupIs
  case anchor => rw [only]; exact window.anchor
  case unmoved => rw [only]; exact window.unmoved
  case unmarked => rw [only]; exact window.unmarked
  case touched =>
    intro key
    rw [delivered_block]
    exact window.touched_block distinct ordered key
  case mapSlot =>
    have slotIs : (indexer.saveBlock shared slot false accounts true).nonCirculating.slot =
        max indexer.nonCirculating.slot slot := indexer.nonCirculating.applyBlock_slot shared slot freshMap
    have below : indexer.nonCirculating.slot ≤ slot := (freshMap.resolve_left (by decide)).le
    exact Or.inr (by simp [slotIs, max_eq_right below])
  case inside => exact sameSeeds ▸ window.inside
  case snapshotRows => exact sameSeeds ▸ window.snapshotRows
  case rows =>
    intro key
    rw [sameSeeds, delivered_block]
    by_cases written : key ∈ accounts.map AccountInfo.pubkey
    · obtain ⟨account, member, rfl⟩ := List.mem_map.mp written
      rw [record_written distinct ordered member, Counting.row_saveBlock_of_mem distinct member]
      exact (window.rows account.pubkey).write (delivered_below ordered)
        (fun first isSeed => (allowed account member).consistent first (ledgerOf_part window.inside isSeed))
        (fun first isSeed => (startup.ledger_bounds (ledgerOf_part window.inside isSeed)).2) _
    · rw [record_of_not_mem written, Counting.row_saveBlock_of_not_mem written]
      exact window.rows key
  case agrees =>
    intro key first version isStartup isDelivered same
    rw [delivered_block] at isDelivered
    rcases record_cases distinct ordered isDelivered with ⟨account, member, rfl, rfl⟩ | before
    · exact ((allowed account member).consistent first isStartup same.symm).symm
    · exact window.agrees key first version isStartup before same
  case closesPlain =>
    intro key version isDelivered emptied
    rw [delivered_block] at isDelivered
    rcases record_cases distinct ordered isDelivered with ⟨account, member, rfl, rfl⟩ | before
    · exact decide_eq_false ((allowed account member).plainClose emptied)
    · exact window.closesPlain key version before emptied
  case settled =>
    rintro ⟨other, inBlock, above⟩
    rw [delivered_block]
    rw [blockSlots_block, List.mem_append, List.mem_singleton] at inBlock
    rcases inBlock with earlier | rfl
    · have aboveSlot := above.trans (ordered other earlier)
      exact (settled aboveSlot).record aboveSlot distinct
    · exact (settled above).record above distinct
  case map =>
    rcases window.map with ⟨booting, flags, seeding⟩ | ⟨live, complete, held⟩
    · refine Or.inl ⟨(indexer.nonCirculating.applyBlock_status shared slot freshMap).trans booting,
        flags.applyBlock booting freshMap accounts, fun key => ?_⟩
      rw [sameSeeds, delivered_block]
      exact seeding_block freshMap booting distinct ordered (seeding key)
    · refine Or.inr ⟨(indexer.nonCirculating.applyBlock_status shared slot freshMap).trans live,
        sameSeeds ▸ complete, fun key => ?_⟩
      rw [newest, delivered_block]
      exact held_block freshMap distinct ordered allowed (held key)

end Block

end Window

end Cloudbreak.Model.Supply
