import Cloudbreak.Proofs.NonCirculating.Membership

/-! # Which write of an account the stake map keeps

For one account the map holds at most a record and, before the flip, a shadow. As long as every version that
left the stake program is either recorded or never followed by an older stake-owned one, the record is that
of the newest delivery. The conditions on a delivery are read off the deliveries before it and the tracker's
state before it.
-/

namespace Cloudbreak.Model.NonCirculating

open Cloudbreak.ToMathlib

/-- A record no other one of the list exceeds in its slot. -/
def NewestOf (records : List StakeEntry) (record : StakeEntry) : Prop :=
  record ∈ records ∧ ∀ other ∈ records, other.slot ≤ record.slot

instance (records : List StakeEntry) : DecidablePred (NewestOf records) := fun record =>
  inferInstanceAs (Decidable (record ∈ records ∧ ∀ other ∈ records, other.slot ≤ record.slot))

theorem exists_newestOf {records : List StakeEntry} {record : StakeEntry} (member : record ∈ records) :
    ∃ newest, records.argmax StakeEntry.slot = some newest ∧ NewestOf records newest := by
  cases found : records.argmax StakeEntry.slot with
  | none => rw [List.argmax_eq_none.mp found] at member; contradiction
  | some newest =>
    exact ⟨newest, rfl, List.argmax_mem found, fun other present => List.le_of_mem_argmax present found⟩

/-- The record of an account against everything delivered for it. -/
structure Latest (pinnedKey : Bool) (records : List StakeEntry) (record : Option StakeEntry)
    (shadow : Option ℕ) : Prop where
  pins : ∀ other ∈ records, other.pinned = pinnedKey
  oneEach : ∀ first ∈ records, ∀ second ∈ records, first.slot = second.slot → first = second
  origin : ∀ held ∈ record, held ∈ records
  shadowed : ∀ seen ∈ shadow, pinnedKey = false ∧ ∃ other ∈ records, seen ≤ other.slot
  kept : ∀ newest, NewestOf records newest → newest.stakeOwned ∨ pinnedKey → record = some newest
  left : ∀ newest, NewestOf records newest → newest.stakeOwned = false → pinnedKey = false →
    ∀ held ∈ record, held.stakeOwned = false

namespace Latest

variable {pinnedKey : Bool} {records : List StakeEntry} {record : Option StakeEntry} {shadow after : Option ℕ}
  {new held : StakeEntry}

theorem start (pinnedKey : Bool) : Latest pinnedKey [] none none where
  pins _ member := absurd member List.not_mem_nil
  oneEach _ member := absurd member List.not_mem_nil
  origin _ member := absurd member (Option.not_mem_none _)
  shadowed _ member := absurd member (Option.not_mem_none _)
  kept _ newest := absurd newest.1 List.not_mem_nil
  left _ newest := absurd newest.1 List.not_mem_nil

/-- What a new delivery adds to the bookkeeping, whatever becomes of the record. -/
theorem extend (latest : Latest pinnedKey records record shadow) (pinned : new.pinned = pinnedKey)
    (agrees : ∀ other ∈ records, other.slot = new.slot → other = new)
    (shadowed : ∀ seen ∈ after, pinnedKey = false ∧ ∃ other ∈ records ++ [new], seen ≤ other.slot)
    {next : Option StakeEntry} (origin : ∀ held ∈ next, held ∈ records ++ [new])
    (kept : ∀ newest, NewestOf (records ++ [new]) newest → newest.stakeOwned ∨ pinnedKey → next = some newest)
    (left : ∀ newest, NewestOf (records ++ [new]) newest → newest.stakeOwned = false → pinnedKey = false →
      ∀ held ∈ next, held.stakeOwned = false) : Latest pinnedKey (records ++ [new]) next after := by
  refine ⟨fun other member => ?_, fun first member second otherMember same => ?_, origin, shadowed, kept, left⟩
  · rcases List.mem_append.mp member with member | member
    · exact latest.pins other member
    · rw [List.mem_singleton.mp member, pinned]
  · rcases List.mem_append.mp member with member | member
    · rcases List.mem_append.mp otherMember with otherMember | otherMember
      · exact latest.oneEach first member second otherMember same
      · rw [List.mem_singleton.mp otherMember] at same ⊢
        exact agrees first member same
    · rw [List.mem_singleton.mp member] at same ⊢
      rcases List.mem_append.mp otherMember with otherMember | otherMember
      · exact (agrees second otherMember same.symm).symm
      · exact (List.mem_singleton.mp otherMember).symm

theorem shadowed_append (latest : Latest pinnedKey records record shadow) (new : StakeEntry) :
    ∀ seen ∈ shadow, pinnedKey = false ∧ ∃ other ∈ records ++ [new], seen ≤ other.slot := by
  intro seen held
  obtain ⟨notPinned, other, member, le⟩ := latest.shadowed seen held
  exact ⟨notPinned, other, List.mem_append_left _ member, le⟩

/-- A newest record of a longer list is the new one or a newest record before. -/
theorem newestOf_append (newest : NewestOf (records ++ [new]) held) :
    held = new ∧ (∀ other ∈ records, other.slot ≤ new.slot) ∨ NewestOf records held ∧ new.slot ≤ held.slot := by
  obtain ⟨member, top⟩ := newest
  rcases List.mem_append.mp member with member | member
  · exact Or.inr ⟨⟨member, fun other present => top other (List.mem_append_left _ present)⟩,
      top new (List.mem_append_right _ (List.mem_singleton_self _))⟩
  · rw [List.mem_singleton.mp member] at top ⊢
    exact Or.inl ⟨rfl, fun other present => top other (List.mem_append_left _ present)⟩

/-- A delivery that an earlier one already reaches leaves the record. -/
theorem stale (latest : Latest pinnedKey records record shadow) (pinned : new.pinned = pinnedKey)
    (agrees : ∀ other ∈ records, other.slot = new.slot → other = new)
    (reached : ∃ other ∈ records, new.slot ≤ other.slot) : Latest pinnedKey (records ++ [new]) record shadow := by
  have before : ∀ newest, NewestOf (records ++ [new]) newest → NewestOf records newest := by
    intro newest holds
    rcases newestOf_append holds with ⟨rfl, top⟩ | ⟨holds, -⟩
    · obtain ⟨other, member, le⟩ := reached
      have same := agrees other member (le_antisymm (top other member) le)
      exact ⟨same ▸ member, top⟩
    · exact holds
  exact latest.extend pinned agrees (latest.shadowed_append new)
    (fun held present => List.mem_append_left _ (latest.origin held present))
    (fun newest holds => latest.kept newest (before newest holds))
    fun newest holds => latest.left newest (before newest holds)

/-- A dropped delivery is outside the stake program, and no stake-owned version was the newest below it. -/
theorem drop (latest : Latest pinnedKey records record shadow) (pinned : new.pinned = pinnedKey)
    (agrees : ∀ other ∈ records, other.slot = new.slot → other = new) (outside : new.stakeOwned = false)
    (notPinned : pinnedKey = false)
    (leaves : ∀ newest, NewestOf records newest → newest.slot < new.slot → newest.stakeOwned = false)
    (shadowed : ∀ seen ∈ after, seen ≤ new.slot ∨ seen ∈ shadow) :
    Latest pinnedKey (records ++ [new]) record after := by
  refine latest.extend pinned agrees (fun seen held => ?_)
    (fun held present => List.mem_append_left _ (latest.origin held present)) (fun newest holds tracked => ?_)
    fun newest holds out _ held present => ?_
  · rcases shadowed seen held with le | held
    · exact ⟨notPinned, new, List.mem_append_right _ (List.mem_singleton_self _), le⟩
    · exact latest.shadowed_append new seen held
  · rcases newestOf_append holds with ⟨rfl, -⟩ | ⟨holds, -⟩
    · simp [outside, notPinned] at tracked
    · exact latest.kept newest holds tracked
  · rcases newestOf_append holds with ⟨rfl, top⟩ | ⟨holds, -⟩
    · obtain ⟨best, -, bestNewest⟩ := exists_newestOf (latest.origin held present)
      have bestOut : best.stakeOwned = false := by
        rcases (top best bestNewest.1).lt_or_eq with lt | same
        · exact leaves best bestNewest lt
        · rw [agrees best bestNewest.1 same, outside]
      exact latest.left best bestNewest bestOut notPinned held present
    · exact latest.left newest holds out notPinned held present

/-- A delivery above the record replaces it. A stake-owned one is not below a version that left. -/
theorem take (latest : Latest pinnedKey records record shadow) (pinned : new.pinned = pinnedKey)
    (agrees : ∀ other ∈ records, other.slot = new.slot → other = new) (above : ∀ held ∈ record, held.slot < new.slot)
    (tracked : record = none → new.stakeOwned ∨ pinnedKey)
    (returns : new.stakeOwned → pinnedKey = false → ∀ newest, NewestOf records newest → newest.slot > new.slot →
      newest.stakeOwned) : Latest pinnedKey (records ++ [new]) (some new) shadow := by
  have older : ∀ newest, NewestOf records newest → new.slot < newest.slot →
      newest.stakeOwned = false ∧ pinnedKey = false := by
    intro newest holds lt
    by_contra keeps
    have held := latest.kept newest holds (by
      cases owned : newest.stakeOwned with
      | true => exact Or.inl rfl
      | false =>
        cases pinnedHere : pinnedKey with
        | true => exact Or.inr rfl
        | false => exact absurd ⟨owned, pinnedHere⟩ keeps)
    exact absurd (above newest held) (by omega)
  refine latest.extend pinned agrees (latest.shadowed_append new) (fun held present => ?_)
    (fun newest holds tracks => ?_) fun newest holds out notPinned held present => ?_
  · cases present
    exact List.mem_append_right _ (List.mem_singleton_self _)
  · rcases newestOf_append holds with ⟨rfl, -⟩ | ⟨holds, le⟩
    · rfl
    · rcases le.lt_or_eq with lt | same
      · obtain ⟨out, notPinned⟩ := older newest holds lt
        simp [out, notPinned] at tracks
      · rw [agrees newest holds.1 same.symm]
  · cases present
    rcases newestOf_append holds with ⟨rfl, -⟩ | ⟨holds, le⟩
    · exact out
    · rcases le.lt_or_eq with lt | same
      · by_contra owned
        rw [Bool.not_eq_false] at owned
        exact absurd (out.symm.trans (returns owned notPinned newest holds lt)) Bool.false_ne_true
      · rw [← agrees newest holds.1 same.symm, out]

/-- The flip drops records outside the stake program and every shadow. -/
theorem retain (latest : Latest pinnedKey records record shadow) :
    Latest pinnedKey records (record.filter fun held => held.stakeOwned || pinnedKey) none where
  pins := latest.pins
  oneEach := latest.oneEach
  origin held present := latest.origin held (Option.filter_eq_some_iff.mp present).1
  shadowed _ member := absurd member (Option.not_mem_none _)
  kept newest holds tracked := by
    rw [latest.kept newest holds tracked]
    exact Option.filter_eq_some_iff.mpr ⟨rfl, by simpa using tracked⟩
  left newest holds out notPinned held present :=
    latest.left newest holds out notPinned held (Option.filter_eq_some_iff.mp present).1

end Latest

/-! ## One block, seen through one account -/

variable {shared : Shared} {slot : ℕ} {account : AccountInfo}

/-- The record a write of an account builds. -/
def recordAt (shared : Shared) (slot : ℕ) (account : AccountInfo) : StakeEntry :=
  shared.entryFromAccount (decide (account.owner = stakeProgramId)) (decide (account.pubkey ∈ shared.pinned))
    account.lamports account.data slot

theorem recordAt_pinned : (recordAt shared slot account).pinned = decide (account.pubkey ∈ shared.pinned) :=
  State.entryFromAccount_pinned ..

private theorem recordAt_version : (recordAt shared slot account).version = versionAt slot account :=
  version_entryFromAccount ..

theorem recordAt_slot : (recordAt shared slot account).slot = slot :=
  congrArg Version.slot recordAt_version

theorem recordAt_stakeOwned : (recordAt shared slot account).stakeOwned = decide (account.owner = stakeProgramId) :=
  congrArg Version.stakeOwned recordAt_version

/-- The record the map holds for an account, without its placement. -/
def State.record (state : State) (key : Pubkey) : Option StakeEntry :=
  (state.accounts.lookup key).map StakeEntry.written

theorem written_place (membership : Membership) (key : Pubkey) (entry : StakeEntry) :
    (membership.place key entry).2.1.written = entry.written := by
  unfold Membership.place
  split <;> rfl

/-- What a block's accounts see of one key: its record and its seed shadow. -/
def recordView (current : State × StakeBlock) (key : Pubkey) : Option StakeEntry × Option ℕ :=
  (current.1.record key, current.1.seedShadow.lookup key)

/-- One write on the view of its account. -/
def recordWrite (shared : Shared) (live : Bool) (slot : ℕ) (account : AccountInfo)
    (view : Option StakeEntry × Option ℕ) : Option StakeEntry × Option ℕ :=
  match view.1 with
  | none =>
    if !decide (account.owner = stakeProgramId) && !decide (account.pubkey ∈ shared.pinned) then
      (none, if live then view.2 else some (view.2.elim slot fun seen => max seen slot))
    else (some (recordAt shared slot account), view.2)
  | some old => (some (if old.slot ≥ slot then old else recordAt shared slot account), view.2)

namespace State

private theorem putEntry_record (current : State × StakeBlock) (pubkey : Pubkey) (before : Option StakeEntry)
    (entry : StakeEntry) (key : Pubkey) :
    (putEntry current pubkey before entry).1.record key =
      if key = pubkey then some entry.written else current.1.record key := by
  unfold putEntry record
  dsimp only
  split
  · rw [HashMap.lookup_insert]
    split
    · rw [Option.map_some, written_place]
    · rfl
  · rw [HashMap.lookup_insert]
    split <;> rfl

/-- A write acts on the view of its own account only. -/
theorem recordView_applyAccount (current : State × StakeBlock) (account : AccountInfo) (other : Pubkey) :
    recordView (applyAccount shared slot current account) other =
      if other = account.pubkey then
        recordWrite shared (decide (current.1.status = .live)) slot account (recordView current other)
      else recordView current other := by
  obtain ⟨state, block⟩ := current
  have written : (shared.entryFromAccount (decide (account.owner = stakeProgramId))
      (decide (account.pubkey ∈ shared.pinned)) account.lamports account.data slot).written =
        recordAt shared slot account := written_entryFromAccount ..
  cases present : state.accounts.lookup account.pubkey with
  | none =>
    have absent : state.record account.pubkey = none := by rw [record, present, Option.map_none]
    simp only [applyAccount, present]
    by_cases dropped : (!decide (account.owner = stakeProgramId) && !decide (account.pubkey ∈ shared.pinned)) = true
    · rw [if_pos dropped]
      by_cases same : other = account.pubkey
      · subst same
        simp only [recordView, recordWrite, absent, dropped, if_true]
        split
        · rw [absent]
        · rw [shadowSeed_lookup, if_pos rfl]
          exact congrArg (Prod.mk · _) absent
      · rw [if_neg same]
        split
        · rfl
        · simp only [recordView, shadowSeed_lookup, if_neg same]
          rfl
    · rw [if_neg dropped]
      simp only [recordView, putEntry_record, putEntry_seedShadow, written]
      split
      · next same =>
        subst same
        simp only [recordWrite, absent, if_neg dropped]
      · rfl
  | some old =>
    have here : state.record account.pubkey = some old.written := by rw [record, present, Option.map_some]
    simp only [applyAccount, present]
    split
    · next stale =>
      simp only [recordView]
      split
      · next same =>
        subst same
        simp only [recordWrite, here]
        exact congrArg (fun held => (some held, _)) (if_pos stale).symm
      · rfl
    · next fresh =>
      simp only [recordView, putEntry_record, putEntry_seedShadow, written]
      split
      · next same =>
        subst same
        simp only [recordWrite, here]
        exact congrArg (fun held => (some held, _)) (if_neg fresh).symm
      · rfl

private theorem recordView_local (status : Status) :
    KeyLocal (applyAccount shared slot) AccountInfo.pubkey recordView
      (fun account => recordWrite shared (decide (status = .live)) slot account)
      (fun current => current.1.status = status) where
  keeps current account valid := (applyAccount_status shared slot current account).trans valid
  acts current account other valid := by rw [recordView_applyAccount, valid]

variable {state : State} {isRepaired : Bool} {accounts : List AccountInfo}

/-- The clock and its expiries leave every record as it was. -/
theorem advanceClock_record (kept : Kept shared state)
    (advances : state.status = .live → state.ClockAdvances shared accounts) (key : Pubkey) :
    recordView (advanceClock shared state accounts .default) key = recordView (state, .default) key := by
  have shadow : (advanceClock shared state accounts .default).1.seedShadow = state.seedShadow := by
    unfold advanceClock
    split
    · rfl
    · dsimp only
      split <;> rfl
  refine Prod.ext ?_ (congrArg (fun map => AList.lookup key map) shadow)
  rcases kept with unplaced | ⟨live, clock, placed⟩
  · change ((advanceClock shared state accounts .default).1.accounts.lookup key).map StakeEntry.written = _
    unfold advanceClock
    split
    · rfl
    · have idle : decide (state.status = .live) = false := by rw [unplaced.booting]; rfl
      simp only [idle, Bool.and_false, Bool.false_eq_true, if_false]
      rfl
  · obtain ⟨now, -, -, -, records⟩ := advanceClock_placed state live placed (advances live)
    exact records key

/-- A block acts once on every account it writes. -/
theorem applyBlock_record_of_mem (kept : Kept shared state)
    (advances : state.status = .live → state.ClockAdvances shared accounts) (fresh : isRepaired = true ∨ state.slot < slot)
    (distinct : (accounts.map AccountInfo.pubkey).Nodup) (member : account ∈ accounts) :
    recordView (state.applyBlock shared slot isRepaired accounts) account.pubkey =
      recordWrite shared (decide (state.status = .live)) slot account (recordView (state, .default) account.pubkey) := by
  have same := advanceClock_same shared { state with slot := max state.slot slot } accounts .default
  have kept' : Kept shared { state with slot := max state.slot slot } := by
    rcases kept with unplaced | placed
    · exact Or.inl { unplaced with }
    · exact Or.inr placed
  rw [applyBlock_eq shared slot fresh, (recordView_local state.status).view_foldl_of_mem same.1 distinct member,
    advanceClock_record kept' advances]
  rfl

theorem applyBlock_record_of_not_mem (kept : Kept shared state)
    (advances : state.status = .live → state.ClockAdvances shared accounts) (fresh : isRepaired = true ∨ state.slot < slot)
    {key : Pubkey} (absent : key ∉ accounts.map AccountInfo.pubkey) :
    recordView (state.applyBlock shared slot isRepaired accounts) key = recordView (state, .default) key := by
  have same := advanceClock_same shared { state with slot := max state.slot slot } accounts .default
  have kept' : Kept shared { state with slot := max state.slot slot } := by
    rcases kept with unplaced | placed
    · exact Or.inl { unplaced with }
    · exact Or.inr placed
  rw [applyBlock_eq shared slot fresh, (recordView_local state.status).view_foldl_of_not_mem same.1 absent,
    advanceClock_record kept' advances]
  rfl

end State

/-! ## Deliveries -/

/-- The versions a delivery carries. -/
def Feed.delivered : Feed → List (ℕ × AccountInfo)
  | .seed slot account => [(slot, account)]
  | .block slot _ accounts => accounts.map fun account => (slot, account)
  | .finishBootstrap => []

/-- The records delivered for an account. -/
def recordsOf (shared : Shared) (events : List Feed) (key : Pubkey) : List StakeEntry :=
  (events.flatMap Feed.delivered).filterMap fun version =>
    if version.2.pubkey = key then some (recordAt shared version.1 version.2) else none

theorem recordsOf_append (events : List Feed) (event : Feed) (key : Pubkey) :
    recordsOf shared (events ++ [event]) key = recordsOf shared events key ++ recordsOf shared [event] key := by
  simp [recordsOf]

theorem recordsOf_seed (key : Pubkey) :
    recordsOf shared [.seed slot account] key =
      if account.pubkey = key then [recordAt shared slot account] else [] := by
  simp only [recordsOf, List.flatMap_cons, List.flatMap_nil, Feed.delivered, List.append_nil, List.filterMap_cons,
    List.filterMap_nil]
  split
  · next none => split at none <;> simp_all
  · next some => split at some <;> simp_all

theorem recordsOf_block_of_not_mem {isRepaired : Bool} {accounts : List AccountInfo} {key : Pubkey}
    (absent : key ∉ accounts.map AccountInfo.pubkey) : recordsOf shared [.block slot isRepaired accounts] key = [] := by
  simp only [recordsOf, List.flatMap_cons, List.flatMap_nil, Feed.delivered, List.append_nil]
  rw [List.filterMap_map, List.filterMap_eq_nil_iff]
  intro account member
  have differ : account.pubkey ≠ key := fun same => absent (same ▸ List.mem_map_of_mem member)
  rw [Function.comp_apply, if_neg differ]

theorem recordsOf_block_of_mem {isRepaired : Bool} {accounts : List AccountInfo}
    (distinct : (accounts.map AccountInfo.pubkey).Nodup) (member : account ∈ accounts) :
    recordsOf shared [.block slot isRepaired accounts] account.pubkey = [recordAt shared slot account] := by
  simp only [recordsOf, List.flatMap_cons, List.flatMap_nil, Feed.delivered, List.append_nil, List.filterMap_map]
  induction accounts with
  | nil => contradiction
  | cons other rest ih =>
    rw [List.map_cons, List.nodup_cons] at distinct
    rw [List.filterMap_cons]
    rcases List.mem_cons.mp member with rfl | later
    · have nothing : rest.filterMap ((fun version : ℕ × AccountInfo =>
          if version.2.pubkey = account.pubkey then some (recordAt shared version.1 version.2) else none) ∘
          fun account => (slot, account)) = [] := by
        rw [List.filterMap_eq_nil_iff]
        intro other present
        have differ : other.pubkey ≠ account.pubkey := fun same => distinct.1 (same ▸ List.mem_map_of_mem present)
        rw [Function.comp_apply, if_neg differ]
      rw [nothing, Function.comp_apply, if_pos rfl]
    · have differ : other.pubkey ≠ account.pubkey := fun same => distinct.1 (same ▸ List.mem_map_of_mem later)
      rw [Function.comp_apply, if_neg differ]
      exact ih distinct.2 later

/-! ## What the tracker can put in sequence -/

/-- The tracker holds a stamp at or above the slot, so it ignores a stake-owned write there. A shadow stops
seeds only. -/
def State.rejects (state : State) (isSeed : Bool) (slot : ℕ) (key : Pubkey) : Bool :=
  (state.accounts.lookup key).elim (isSeed && (state.seedShadow.lookup key).any fun seen => decide (slot ≤ seen))
    fun old => decide (slot ≤ old.slot)

/-- A delivery against the earlier ones of its account: one version for a slot, no dropped seed with which the
account leaves the stake program, and no stake-owned version from before it left, unless a stamp rejects it. -/
structure InSequence (shared : Shared) (earlier : List StakeEntry) (state : State) (isSeed : Bool) (slot : ℕ)
    (account : AccountInfo) : Prop where
  agrees : ∀ other ∈ earlier, other.slot = slot → other = recordAt shared slot account
  leaves : isSeed → account.owner ≠ stakeProgramId → account.pubkey ∉ shared.pinned →
    ∀ newest ∈ earlier, NewestOf earlier newest → newest.slot < slot → newest.stakeOwned = false
  returns : account.owner = stakeProgramId → account.pubkey ∉ shared.pinned →
    ∀ newest ∈ earlier, NewestOf earlier newest → slot < newest.slot → newest.stakeOwned = false →
      state.rejects isSeed slot account.pubkey
  sysvar : isSeed → account.pubkey = clockSysvarId → account.owner ≠ stakeProgramId

private theorem inSequence_iff {earlier : List StakeEntry} {state : State} {isSeed : Bool} :
    InSequence shared earlier state isSeed slot account ↔
      (∀ other ∈ earlier, other.slot = slot → other = recordAt shared slot account) ∧
      (isSeed → account.owner ≠ stakeProgramId → account.pubkey ∉ shared.pinned →
        ∀ newest ∈ earlier, NewestOf earlier newest → newest.slot < slot → newest.stakeOwned = false) ∧
      (account.owner = stakeProgramId → account.pubkey ∉ shared.pinned →
        ∀ newest ∈ earlier, NewestOf earlier newest → slot < newest.slot → newest.stakeOwned = false →
          state.rejects isSeed slot account.pubkey) ∧
      (isSeed → account.pubkey = clockSysvarId → account.owner ≠ stakeProgramId) :=
  ⟨fun sequence => ⟨sequence.agrees, sequence.leaves, sequence.returns, sequence.sysvar⟩,
    fun parts => ⟨parts.1, parts.2.1, parts.2.2.1, parts.2.2.2⟩⟩

set_option synthInstance.maxSize 400 in
instance {earlier : List StakeEntry} {state : State} {isSeed : Bool} :
    Decidable (InSequence shared earlier state isSeed slot account) := decidable_of_iff _ inSequence_iff.symm

/-- The record of every account follows what was delivered for it. -/
def Follows (shared : Shared) (records : Pubkey → List StakeEntry) (state : State) : Prop :=
  ∀ key, Latest (decide (key ∈ shared.pinned)) (records key) (state.record key) (state.seedShadow.lookup key)

section Steps

variable {records : List StakeEntry} {record : Option StakeEntry} {shadow : Option ℕ} {state : State}

private theorem recordAt_outside (outside : account.owner ≠ stakeProgramId) :
    (recordAt shared slot account).stakeOwned = false := recordAt_stakeOwned.trans (decide_eq_false outside)

/-- A record is absent or has the slot of its entry. -/
theorem State.rejects_eq (state : State) (isSeed : Bool) (slot : ℕ) (key : Pubkey) :
    state.rejects isSeed slot key =
      (state.record key).elim (isSeed && (state.seedShadow.lookup key).any fun seen => decide (slot ≤ seen))
        fun old => decide (slot ≤ old.slot) := by
  unfold State.rejects State.record
  cases state.accounts.lookup key <;> rfl

/-- One write of a block keeps an account's record in line. -/
theorem Latest.write (live : Bool)
    (latest : Latest (decide (account.pubkey ∈ shared.pinned)) records (state.record account.pubkey)
      (state.seedShadow.lookup account.pubkey))
    (sequence : InSequence shared records state false slot account) :
    Latest (decide (account.pubkey ∈ shared.pinned)) (records ++ [recordAt shared slot account])
      (recordWrite shared live slot account (recordView (state, .default) account.pubkey)).1
      (recordWrite shared live slot account (recordView (state, .default) account.pubkey)).2 := by
  have agrees : ∀ other ∈ records, other.slot = (recordAt shared slot account).slot →
      other = recordAt shared slot account := by
    intro other member same
    exact sequence.agrees other member (same.trans recordAt_slot)
  have rejects := state.rejects_eq false slot account.pubkey
  change Latest _ _ (recordWrite shared live slot account (state.record account.pubkey, _)).1
    (recordWrite shared live slot account (state.record account.pubkey, _)).2
  generalize state.record account.pubkey = record at latest rejects
  cases record with
  | none =>
    by_cases dropped : (!decide (account.owner = stakeProgramId) && !decide (account.pubkey ∈ shared.pinned)) = true
    · simp only [recordWrite, if_pos dropped]
      rw [Bool.and_eq_true, Bool.not_eq_true', decide_eq_false_iff_not, Bool.not_eq_true'] at dropped
      refine latest.drop recordAt_pinned agrees (recordAt_outside dropped.1) dropped.2 (fun newest holds _ => ?_)
        fun seen held => ?_
      · by_contra owned
        rw [Bool.not_eq_false] at owned
        exact absurd (latest.kept newest holds (Or.inl owned)) (by simp)
      · rw [recordAt_slot]
        cases live with
        | true => exact Or.inr held
        | false =>
          cases before : state.seedShadow.lookup account.pubkey with
          | none =>
            simp only [before, Option.elim_none] at held
            cases held
            exact Or.inl le_rfl
          | some old =>
            simp only [before, Option.elim_some] at held
            cases held
            rcases le_total old slot with le | le
            · rw [max_eq_right le]
              exact Or.inl le_rfl
            · rw [max_eq_left le]
              exact Or.inr rfl
    · simp only [recordWrite, if_neg dropped]
      refine latest.take recordAt_pinned agrees (fun held present => by cases present) (fun _ => ?_)
        fun owned notPinned newest holds above => ?_
      · rw [recordAt_stakeOwned]
        by_cases owner : account.owner = stakeProgramId
        · exact Or.inl (decide_eq_true owner)
        · simpa [owner] using dropped
      · by_contra out
        rw [Bool.not_eq_true] at out
        rw [recordAt_slot] at above
        rw [recordAt_stakeOwned, decide_eq_true_eq] at owned
        rw [decide_eq_false_iff_not] at notPinned
        have rejected := sequence.returns owned notPinned newest holds.1 holds above out
        rw [rejects] at rejected
        contradiction
  | some old =>
    simp only [recordWrite]
    split
    · next reached =>
      exact latest.stale recordAt_pinned agrees ⟨old, latest.origin old rfl, recordAt_slot.trans_le reached⟩
    · next above =>
      refine latest.take recordAt_pinned agrees (fun held present => ?_) (fun none => by cases none)
        fun owned notPinned newest holds higher => ?_
      · cases present
        rw [recordAt_slot]
        exact not_le.mp above
      · by_contra out
        rw [Bool.not_eq_true] at out
        rw [recordAt_slot] at higher
        rw [recordAt_stakeOwned, decide_eq_true_eq] at owned
        rw [decide_eq_false_iff_not] at notPinned
        have rejected := sequence.returns owned notPinned newest holds.1 holds higher out
        rw [rejects] at rejected
        exact above (of_decide_eq_true rejected)

/-- What a seed does to the record of its account. -/
theorem seedAccount_record (state : State) (account : AccountInfo) (slot : ℕ) :
    (state.seedAccount shared account slot).seedShadow = state.seedShadow ∧ ∀ key,
      (state.seedAccount shared account slot).record key =
        if key = account.pubkey ∧ account.pubkey ≠ clockSysvarId ∧
            (account.owner = stakeProgramId ∨ account.pubkey ∈ shared.pinned) ∧
            (state.record key).elim ((state.seedShadow.lookup key).all fun seen => decide (seen < slot))
              (fun old => decide (old.slot < slot)) then some (recordAt shared slot account)
        else state.record key := by
  have written : (shared.entryFromAccount (decide (account.owner = stakeProgramId))
      (decide (account.pubkey ∈ shared.pinned)) account.lamports account.data slot).written =
        recordAt shared slot account := State.written_entryFromAccount ..
  unfold State.seedAccount
  by_cases isClock : account.pubkey = clockSysvarId
  · rw [if_pos isClock]
    refine ⟨by split <;> rfl, fun key => ?_⟩
    rw [if_neg fun accepted => accepted.2.1 isClock]
    split <;> rfl
  · rw [if_neg isClock]
    dsimp only
    by_cases outside : (!decide (account.owner = stakeProgramId) && !decide (account.pubkey ∈ shared.pinned)) = true
    · rw [if_pos outside]
      refine ⟨rfl, fun key => (if_neg fun accepted => ?_).symm⟩
      simp only [Bool.and_eq_true, Bool.not_eq_true', decide_eq_false_iff_not] at outside
      exact accepted.2.2.1.elim outside.1 outside.2
    · rw [if_neg outside]
      have selected : account.owner = stakeProgramId ∨ account.pubkey ∈ shared.pinned := by
        by_contra neither
        rw [not_or] at neither
        exact outside (by simp [neither])
      have inserted : ∀ key, ({ state with accounts := state.accounts.insert account.pubkey (shared.entryFromAccount
          (decide (account.owner = stakeProgramId)) (decide (account.pubkey ∈ shared.pinned)) account.lamports
          account.data slot) } : State).record key =
          if key = account.pubkey then some (recordAt shared slot account) else state.record key := by
        intro key
        rw [State.record, HashMap.lookup_insert]
        split
        · rw [Option.map_some, written]
        · rfl
      cases present : state.accounts.lookup account.pubkey with
      | none =>
        have absent : state.record account.pubkey = none := by rw [State.record, present, Option.map_none]
        dsimp only
        split
        · next admitted =>
          refine ⟨rfl, fun key => ?_⟩
          rw [inserted]
          by_cases same : key = account.pubkey
          · rw [if_pos same, if_pos ⟨same, isClock, selected, by rw [same, absent]; exact admitted⟩]
          · rw [if_neg same, if_neg fun accepted => same accepted.1]
        · next shadowed =>
          refine ⟨rfl, fun key => (if_neg ?_).symm⟩
          rintro ⟨rfl, -, -, admitted⟩
          rw [absent] at admitted
          exact shadowed admitted
      | some old =>
        have here : state.record account.pubkey = some old.written := by rw [State.record, present, Option.map_some]
        dsimp only
        split
        · next newer =>
          refine ⟨rfl, fun key => ?_⟩
          rw [inserted]
          by_cases same : key = account.pubkey
          · rw [if_pos same, if_pos ⟨same, isClock, selected, by rw [same, here]; exact decide_eq_true newer⟩]
          · rw [if_neg same, if_neg fun accepted => same accepted.1]
        · next notNewer =>
          refine ⟨rfl, fun key => (if_neg ?_).symm⟩
          rintro ⟨rfl, -, -, admitted⟩
          rw [here] at admitted
          exact notNewer (of_decide_eq_true admitted)

/-- One seed keeps its account's record in line. -/
theorem Latest.seed
    (latest : Latest (decide (account.pubkey ∈ shared.pinned)) records (state.record account.pubkey)
      (state.seedShadow.lookup account.pubkey))
    (sequence : InSequence shared records state true slot account) :
    Latest (decide (account.pubkey ∈ shared.pinned)) (records ++ [recordAt shared slot account])
      ((state.seedAccount shared account slot).record account.pubkey)
      ((state.seedAccount shared account slot).seedShadow.lookup account.pubkey) := by
  have agrees : ∀ other ∈ records, other.slot = (recordAt shared slot account).slot →
      other = recordAt shared slot account := by
    intro other member same
    exact sequence.agrees other member (same.trans recordAt_slot)
  have rejects := state.rejects_eq true slot account.pubkey
  rw [(seedAccount_record state account slot).2, (seedAccount_record state account slot).1]
  by_cases outside : account.owner ≠ stakeProgramId ∧ account.pubkey ∉ shared.pinned
  · rw [if_neg fun accepted => accepted.2.2.1.elim outside.1 outside.2]
    exact latest.drop recordAt_pinned agrees (recordAt_outside outside.1) (decide_eq_false outside.2)
      (fun newest holds below => sequence.leaves rfl outside.1 outside.2 newest holds.1 holds
        (below.trans_eq recordAt_slot)) fun seen held => Or.inr held
  · have selected : account.owner = stakeProgramId ∨ account.pubkey ∈ shared.pinned := by
      by_contra neither
      exact outside (not_or.mp neither)
    have notClock : account.pubkey ≠ clockSysvarId := by
      intro isClock
      rcases selected with owned | pinned
      · exact sequence.sysvar rfl isClock owned
      · exact shared.clockNotPinned (isClock ▸ pinned)
    have returned : account.pubkey ∉ shared.pinned → account.owner = stakeProgramId := selected.resolve_right
    cases held : state.record account.pubkey with
    | none =>
      rw [held] at latest rejects
      split
      · next accepted =>
        refine latest.take recordAt_pinned agrees (fun _ present => by cases present) (fun _ => ?_)
          fun owned notPinned newest holds above => ?_
        · rw [recordAt_stakeOwned, decide_eq_true_eq, decide_eq_true_eq]
          exact selected
        · by_contra out
          rw [Bool.not_eq_true] at out
          rw [recordAt_slot] at above
          rw [decide_eq_false_iff_not] at notPinned
          have rejected := sequence.returns (returned notPinned) notPinned newest holds.1 holds above out
          obtain ⟨-, -, -, admitted⟩ := accepted
          rw [rejects] at rejected
          cases shadow : state.seedShadow.lookup account.pubkey with
          | none => simp [shadow] at rejected
          | some seen =>
            simp only [shadow, Option.elim_none, Option.any_some, Option.all_some, Bool.true_and,
              decide_eq_true_eq] at rejected admitted
            omega
      · next refused =>
        have shadowed : ∃ seen ∈ state.seedShadow.lookup account.pubkey, slot ≤ seen := by
          cases shadow : state.seedShadow.lookup account.pubkey with
          | none => exact absurd ⟨rfl, notClock, selected, by simp [shadow]⟩ refused
          | some seen =>
            refine ⟨seen, rfl, ?_⟩
            by_contra below
            exact refused ⟨rfl, notClock, selected, by simpa [shadow] using below⟩
        obtain ⟨seen, present, le⟩ := shadowed
        obtain ⟨-, other, member, reaches⟩ := latest.shadowed seen present
        exact latest.stale recordAt_pinned agrees ⟨other, member, recordAt_slot.trans_le (le.trans reaches)⟩
    | some old =>
      rw [held] at latest rejects
      split
      · next accepted =>
        have newer : old.slot < slot := of_decide_eq_true accepted.2.2.2
        refine latest.take recordAt_pinned agrees (fun _ present => ?_) (fun none => by cases none)
          fun owned notPinned newest holds above => ?_
        · cases present
          rw [recordAt_slot]
          exact newer
        · by_contra out
          rw [Bool.not_eq_true] at out
          rw [recordAt_slot] at above
          rw [decide_eq_false_iff_not] at notPinned
          have rejected := sequence.returns (returned notPinned) notPinned newest holds.1 holds above out
          rw [rejects] at rejected
          exact absurd (of_decide_eq_true rejected) (not_le.mpr newer)
      · next refused =>
        have reached : slot ≤ old.slot := by
          by_contra below
          exact refused ⟨rfl, notClock, selected, decide_eq_true (not_le.mp below)⟩
        exact latest.stale recordAt_pinned agrees ⟨old, latest.origin old rfl, recordAt_slot.trans_le reached⟩

end Steps

end Cloudbreak.Model.NonCirculating
