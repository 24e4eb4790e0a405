import Cloudbreak.Proofs.NonCirculating.Held

/-! # The stake map while it is seeded

Until the bootstrap is finished, snapshot accounts and blocks reach the map in any order. `Seeding` says
what the map then knows of one account: an entry is the newer of the seed and the block write, and an
account without an entry remembers the block write that an older seed must not undo. Every seed and every
block keeps it, and the flip keeps the entries the map is for.
-/

namespace Cloudbreak.Model.NonCirculating

open Cloudbreak.ToMathlib

/-- What the map knows of one account, relative to its seed and its newest block write. -/
structure Seeding (pinned : Bool) (seed delivered held : Option Version) (shadow : Option ℕ) : Prop where
  known : ∀ version, held = some version →
    seed = some version ∧ (version.stakeOwned || pinned) = true ∨ delivered = some version
  aboveSeed : ∀ version first, held = some version → seed = some first →
    (first.stakeOwned || pinned) = true → first.slot ≤ version.slot
  aboveWrite : ∀ version last, held = some version → delivered = some last → last.slot ≤ version.slot
  dropped : held = none → ∀ last, delivered = some last →
    (last.stakeOwned || pinned) = false ∧ shadow = some last.slot
  shadowed : held = none → ∀ first, seed = some first → (first.stakeOwned || pinned) = true →
    ∃ seen, shadow = some seen ∧ first.slot ≤ seen
  shadowSlot : held = none → ∀ seen, shadow = some seen → ∃ last, delivered = some last ∧ last.slot = seen

namespace Seeding

variable {pinned : Bool} {seed delivered held : Option Version} {shadow : Option ℕ}

theorem start (pinned : Bool) : Seeding pinned none none none none where
  known := nofun
  aboveSeed := nofun
  aboveWrite := nofun
  dropped := fun _ => nofun
  shadowed := fun _ => nofun
  shadowSlot := fun _ => nofun

/-- A block write newer than every delivered one. -/
theorem write (seeding : Seeding pinned seed delivered held shadow) {slot : ℕ} {account : AccountInfo}
    {handled : Bool} (later : ∀ version, delivered = some version → version.slot < slot) :
    let after := StakeView.write false pinned slot account ⟨held, shadow, handled⟩
    Seeding pinned seed (some (versionAt slot account)) after.held after.shadow := by
  intro after
  cases isHeld : held with
  | none =>
    cases drops : !decide (account.owner = stakeProgramId) && !pinned with
    | true =>
      have heldIs : after.held = none := by simp only [after, StakeView.write, isHeld, drops, if_true]
      have shadowIs : after.shadow = some slot := by
        simp only [after, StakeView.write, isHeld, drops, if_true, Bool.false_eq_true, if_false]
        cases isShadow : shadow with
        | none => rfl
        | some seen =>
          obtain ⟨last, isDelivered, same⟩ := seeding.shadowSlot isHeld seen isShadow
          have := later last isDelivered
          simp only [Option.elim]
          congr
          omega
      rw [heldIs, shadowIs]
      refine ⟨by simp, by simp, by simp, fun _ last isLast => ?_, fun _ first isSeed relevant => ?_, fun _ seen isSeen => ?_⟩
      · cases isLast
        exact ⟨by simpa [versionAt] using drops, rfl⟩
      · obtain ⟨seen, isShadow, bound⟩ := seeding.shadowed isHeld first isSeed relevant
        obtain ⟨last, isDelivered, same⟩ := seeding.shadowSlot isHeld seen isShadow
        have := later last isDelivered
        exact ⟨slot, rfl, by omega⟩
      · exact ⟨_, rfl, Option.some.inj isSeen⟩
    | false =>
      have heldIs : after.held = some (versionAt slot account) := by
        simp only [after, StakeView.write, isHeld, drops, Bool.false_eq_true, if_false]
      rw [heldIs]
      refine ⟨fun version isVersion => Or.inr isVersion, ?_, ?_, by simp, by simp, by simp⟩
      · intro version first isVersion isSeed relevant
        cases isVersion
        obtain ⟨seen, isShadow, bound⟩ := seeding.shadowed isHeld first isSeed relevant
        obtain ⟨last, isDelivered, same⟩ := seeding.shadowSlot isHeld seen isShadow
        have := later last isDelivered
        simp only [versionAt]
        omega
      · intro version last isVersion isLast
        cases isVersion
        cases isLast
        exact le_rfl
  | some old =>
    have heldIs : after.held = some (if old.slot ≥ slot then old else versionAt slot account) := by
      simp only [after, StakeView.write, isHeld]
    rw [heldIs]
    by_cases stale : old.slot ≥ slot
    · rw [if_pos stale]
      refine ⟨?_, ?_, ?_, by simp, by simp, by simp⟩
      · intro version isVersion
        cases isVersion
        rcases seeding.known old isHeld with isSeed | isDelivered
        · exact Or.inl isSeed
        · have := later old isDelivered
          omega
      · intro version first isVersion
        cases isVersion
        exact seeding.aboveSeed old first isHeld
      · intro version last isVersion isLast
        cases isVersion
        cases isLast
        exact stale
    · rw [if_neg stale]
      refine ⟨fun version isVersion => Or.inr isVersion, ?_, ?_, by simp, by simp, by simp⟩
      · intro version first isVersion isSeed relevant
        cases isVersion
        have := seeding.aboveSeed old first isHeld isSeed relevant
        simp only [versionAt]
        omega
      · intro version last isVersion isLast
        cases isVersion
        cases isLast
        exact le_rfl

/-- A seed that is not the map's business leaves its account alone. -/
theorem seed_irrelevant (seeding : Seeding pinned none delivered held shadow) {first : Version}
    (irrelevant : (first.stakeOwned || pinned) = false) : Seeding pinned (some first) delivered held shadow := by
  refine { seeding with known := ?_, aboveSeed := ?_, shadowed := ?_ }
  · intro version isVersion
    exact Or.inr ((seeding.known version isVersion).resolve_left fun seeded => nomatch seeded.1)
  · intro version other _ isSeed relevant
    cases isSeed
    rw [irrelevant] at relevant
    contradiction
  · intro _ other isSeed relevant
    cases isSeed
    rw [irrelevant] at relevant
    contradiction

/-- The entry an account has after it was seeded. -/
def seededHeld (first : Version) (shadow : Option ℕ) : Option Version → Option Version
  | none => if shadow.all fun seen => seen < first.slot then some first else none
  | some old => some (if old.slot < first.slot then first else old)

/-- A seed that no delivered write is above becomes the entry. -/
theorem seedTaken {first : Version} (relevant : (first.stakeOwned || pinned) = true)
    (newer : ∀ last, delivered = some last → last.slot ≤ first.slot) :
    Seeding pinned (some first) delivered (some first) shadow := by
  refine ⟨fun version isVersion => Or.inl ⟨isVersion, ?_⟩, ?_, ?_, nofun, nofun, nofun⟩
  · cases isVersion
    exact relevant
  · intro version other isVersion isSeed _
    cases isVersion
    cases isSeed
    exact le_rfl
  · intro version last isVersion isLast
    cases isVersion
    exact newer last isLast

/-- The map keeps the newer of the seed and what it already has or has dropped. -/
theorem seed_relevant (seeding : Seeding pinned none delivered held shadow) {first : Version}
    (relevant : (first.stakeOwned || pinned) = true) :
    Seeding pinned (some first) delivered (seededHeld first shadow held) shadow := by
  cases isHeld : held with
  | none =>
    by_cases fresh : (shadow.all fun seen => seen < first.slot) = true
    · rw [seededHeld, if_pos fresh]
      refine seedTaken relevant fun last isLast => ?_
      have shadowIs := (seeding.dropped isHeld last isLast).2
      rw [shadowIs] at fresh
      exact (by simpa using fresh : last.slot < first.slot).le
    · rw [seededHeld, if_neg fresh]
      refine ⟨nofun, nofun, nofun, fun _ => seeding.dropped isHeld, fun _ other isSeed _ => ?_,
        fun _ => seeding.shadowSlot isHeld⟩
      cases isSeed
      cases isShadow : shadow with
      | none =>
        rw [isShadow] at fresh
        exact absurd rfl fresh
      | some seen =>
        rw [isShadow] at fresh
        exact ⟨seen, rfl, by simpa using fresh⟩
  | some old =>
    rw [seededHeld]
    have isDelivered := (seeding.known old isHeld).resolve_left fun seeded => nomatch seeded.1
    by_cases older : old.slot < first.slot
    · rw [if_pos older]
      refine seedTaken relevant fun last isLast => ?_
      have notNewer := seeding.aboveWrite old last isHeld isLast
      omega
    · rw [if_neg older]
      refine ⟨fun version isVersion => ?_, ?_, ?_, nofun, nofun, nofun⟩
      · cases isVersion
        exact Or.inr isDelivered
      · intro version other isVersion isSeed _
        cases isVersion
        cases isSeed
        exact not_lt.mp older
      · intro version last isVersion
        cases isVersion
        exact seeding.aboveWrite old last isHeld

end Seeding

namespace State

variable {shared : Shared} {state : State}

/-- The accounts a seed stores: stake-owned or pinned, and not the clock. -/
def seeds (shared : Shared) (account : AccountInfo) : Bool :=
  decide (account.pubkey ≠ clockSysvarId) &&
    (decide (account.owner = stakeProgramId) || decide (account.pubkey ∈ shared.pinned))

theorem seedAccount_fixed (account : AccountInfo) (slot : ℕ) :
    (state.seedAccount shared account slot).seedShadow = state.seedShadow ∧
      (state.seedAccount shared account slot).status = state.status ∧
      (state.seedAccount shared account slot).slot = state.slot := by
  unfold seedAccount
  dsimp only
  repeat' split
  all_goals exact ⟨rfl, rfl, rfl⟩

/-- A seed writes the entry of its own account only. -/
theorem seedAccount_held (account : AccountInfo) (slot : ℕ) (key : Pubkey) :
    (state.seedAccount shared account slot).held key =
      if key = account.pubkey ∧ seeds shared account = true then
        Seeding.seededHeld (versionAt slot account) (state.seedShadow.lookup key) (state.held key)
      else state.held key := by
  by_cases clock : account.pubkey = clockSysvarId
  · have ignored : ¬(key = account.pubkey ∧ seeds shared account = true) := by simp [seeds, clock]
    rw [if_neg ignored]
    unfold seedAccount
    rw [if_pos clock]
    split <;> rfl
  have stored : seeds shared account =
      (decide (account.owner = stakeProgramId) || decide (account.pubkey ∈ shared.pinned)) := by
    simp [seeds, clock]
  have inserted : ∀ entry : StakeEntry, ({ state with accounts := state.accounts.insert account.pubkey entry } : State).held
      key = if key = account.pubkey then some entry.version else state.held key := by
    intro entry
    simp only [held, HashMap.lookup_insert]
    split <;> rfl
  unfold seedAccount
  rw [if_neg clock, stored]
  dsimp only
  cases relevant : decide (account.owner = stakeProgramId) || decide (account.pubkey ∈ shared.pinned) with
  | false =>
    rw [Bool.or_eq_false_iff] at relevant
    simp [relevant.1, relevant.2]
  | true =>
    have kept : (!decide (account.owner = stakeProgramId) && !decide (account.pubkey ∈ shared.pinned)) = false := by
      rw [← Bool.not_or, relevant]
      rfl
    rw [kept]
    simp only [Bool.false_eq_true, if_false, and_true]
    by_cases same : key = account.pubkey
    · subst same
      rw [if_pos rfl]
      cases present : state.accounts.lookup account.pubkey with
      | none =>
        have absent : state.held account.pubkey = none := by rw [held, present, Option.map_none]
        rw [absent]
        dsimp only
        split
        · next fresh =>
          rw [inserted, if_pos rfl, version_entryFromAccount]
          exact (if_pos fresh).symm
        · next shadowed => exact absent.trans (if_neg shadowed).symm
      | some old =>
        have here : state.held account.pubkey = some old.version := by rw [held, present, Option.map_some]
        rw [here]
        dsimp only
        split
        · next older =>
          rw [inserted, if_pos rfl, version_entryFromAccount]
          exact congrArg some (if_pos older).symm
        · next newer => exact here.trans (congrArg some (if_neg newer).symm)
    · rw [if_neg same]
      repeat' split
      all_goals first
        | rfl
        | rw [inserted, if_neg same]

/-- One seed keeps what the map knows of every account it could concern. -/
theorem seeding_seedAccount {slot : ℕ} {account : AccountInfo} {seed delivered : Option Version} {key : Pubkey}
    (seeding : Seeding (decide (key ∈ shared.pinned)) seed delivered (state.held key) (state.seedShadow.lookup key))
    (plainClock : account.pubkey = clockSysvarId → account.owner ≠ stakeProgramId)
    (unseeded : key = account.pubkey → seed = none) :
    Seeding (decide (key ∈ shared.pinned)) (if key = account.pubkey then some (versionAt slot account) else seed)
      delivered ((state.seedAccount shared account slot).held key)
      ((state.seedAccount shared account slot).seedShadow.lookup key) := by
  rw [seedAccount_held, (seedAccount_fixed account slot).1]
  by_cases same : key = account.pubkey
  · have none_ := unseeded same
    subst same
    rw [none_] at seeding
    rw [if_pos rfl]
    cases relevant : seeds shared account with
    | true =>
      rw [if_pos ⟨rfl, rfl⟩]
      refine seeding.seed_relevant ?_
      exact ((Bool.and_eq_true _ _).mp relevant).2
    | false =>
      rw [if_neg (by simp)]
      refine seeding.seed_irrelevant ?_
      by_cases clock : account.pubkey = clockSysvarId
      · have plain := plainClock clock
        have unpinned : account.pubkey ∉ shared.pinned := clock ▸ shared.clockNotPinned
        simp [versionAt, plain, unpinned]
      · simpa [seeds, clock, versionAt] using relevant
  · rw [if_neg same, if_neg fun both => same both.1]
    exact seeding

section Finish

private theorem placeAll_version (entries : List ((_ : Pubkey) × StakeEntry)) (membership : Membership)
    (accounts : HashMap Pubkey StakeEntry)
    (present : ∀ item ∈ entries, (accounts.lookup item.1).map StakeEntry.version = some item.2.version) (key : Pubkey) :
    ((entries.foldl
        (fun placed item =>
          let next := placed.1.place item.1 item.2
          (next.1, placed.2.insert item.1 next.2.1))
        (membership, accounts)).2.lookup key).map StakeEntry.version =
      (accounts.lookup key).map StakeEntry.version := by
  induction entries generalizing membership accounts with
  | nil => rfl
  | cons first rest ih =>
    have one : ∀ key, (((accounts.insert first.1 (membership.place first.1 first.2).2.1) :
        HashMap Pubkey StakeEntry).lookup key).map StakeEntry.version =
          (accounts.lookup key).map StakeEntry.version := by
      intro key
      rw [HashMap.lookup_insert]
      split
      · next same => rw [same, present first List.mem_cons_self, Option.map_some, version_place]
      · rfl
    rw [List.foldl_cons, ih _ _ fun item member => (one item.1).trans (present item (List.mem_cons_of_mem _ member)), one]

/-- Before the flip every entry carries the pin of its own key. -/
def PinFlags (shared : Shared) (state : State) : Prop :=
  ∀ key entry, state.accounts.lookup key = some entry → entry.pinned = decide (key ∈ shared.pinned)

theorem entryFromAccount_pinned (stakeOwned pinned : Bool) (lamports : ℕ) (data : List UInt8) (slot : ℕ) :
    (shared.entryFromAccount stakeOwned pinned lamports data slot).pinned = pinned := by
  unfold Shared.entryFromAccount
  dsimp only
  split
  · rfl
  · split <;> rfl

private theorem PinFlags.insert (flags : PinFlags shared state) {account : AccountInfo} {entry : StakeEntry}
    (own : entry.pinned = decide (account.pubkey ∈ shared.pinned)) :
    PinFlags shared { state with accounts := state.accounts.insert account.pubkey entry } := by
  intro key other present
  simp only [HashMap.lookup_insert] at present
  split at present
  · next same =>
    cases present
    rw [same, own]
  · exact flags key other present

theorem PinFlags.seedAccount (flags : PinFlags shared state) (account : AccountInfo) (slot : ℕ) :
    PinFlags shared (state.seedAccount shared account slot) := by
  unfold State.seedAccount
  dsimp only
  repeat' split
  all_goals first
    | exact flags
    | exact flags.insert (entryFromAccount_pinned ..)

private theorem PinFlags.applyAccount {current : State × StakeBlock} (flags : PinFlags shared current.1)
    (booting : current.1.status = .bootstrapping) (slot : ℕ) (account : AccountInfo) :
    PinFlags shared (State.applyAccount shared slot current account).1 := by
  have put : ∀ block before, PinFlags shared (putEntry (current.1, block) account.pubkey before
      (shared.entryFromAccount (decide (account.owner = stakeProgramId)) (decide (account.pubkey ∈ shared.pinned))
        account.lamports account.data slot)).1 := by
    intro block before
    simp only [putEntry, booting, reduceCtorEq, if_false]
    exact flags.insert (entryFromAccount_pinned ..)
  unfold State.applyAccount
  dsimp only
  split
  · split
    · split <;> exact flags
    · exact put _ _
  · split
    · exact flags
    · exact put _ _

theorem PinFlags.applyBlock (flags : PinFlags shared state) (booting : state.status = .bootstrapping) {slot : ℕ}
    {isRepaired : Bool} (fresh : isRepaired = true ∨ state.slot < slot) (accounts : List AccountInfo) :
    PinFlags shared (state.applyBlock shared slot isRepaired accounts).1 := by
  have folded : ∀ current : State × StakeBlock, PinFlags shared current.1 → current.1.status = .bootstrapping →
      PinFlags shared (accounts.foldl (State.applyAccount shared slot) current).1 := by
    induction accounts with
    | nil => exact fun _ flags _ => flags
    | cons account rest ih =>
      intro current flags booting
      rw [List.foldl_cons]
      exact ih _ (flags.applyAccount booting slot account) ((applyAccount_status shared slot current account).trans booting)
  rw [applyBlock_eq shared slot fresh]
  refine folded _ ?_ ((advanceClock_same shared _ accounts .default).1.trans booting)
  unfold advanceClock
  split
  · exact flags
  · simp only [booting, reduceCtorEq, decide_false, Bool.and_false, Bool.false_eq_true, if_false]
    exact flags

/-- The flip keeps the entries that are stake-owned or pinned, and nothing else. -/
theorem finishBootstrap_held {next : State} (finished : state.finishBootstrap = some next)
    (flags : PinFlags shared state) :
    next.status = .live ∧ next.slot = state.slot ∧ ∀ key,
      next.held key = (state.held key).filter fun version => version.stakeOwned || decide (key ∈ shared.pinned) := by
  unfold finishBootstrap at finished
  split at finished
  · contradiction
  · split at finished
    · contradiction
    · cases finished
      refine ⟨rfl, rfl, fun key => ?_⟩
      have placed := placeAll_version (state.accounts.retain fun _ entry => entry.stakeOwned || entry.pinned).entries
        state.membership (state.accounts.retain fun _ entry => entry.stakeOwned || entry.pinned)
        (fun item member => by rw [HashMap.lookup_eq_some_iff.mpr member, Option.map_some]) key
      refine placed.trans ?_
      rw [HashMap.lookup_retain, held]
      cases present : state.accounts.lookup key with
      | none => rfl
      | some entry =>
        simp only [Option.filter_some, Option.map_some, StakeEntry.version, flags key entry present]
        split <;> rfl

theorem pinFlags_new (shared : Shared) : PinFlags shared (.new shared) := by
  intro key entry present
  simp [State.new] at present

end Finish

end State

end Cloudbreak.Model.NonCirculating
