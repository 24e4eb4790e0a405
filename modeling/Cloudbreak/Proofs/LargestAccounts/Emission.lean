import Cloudbreak.Model.LargestAccounts.Persist

/-! # What an update and an emission do to the last records

Updating the tops changes neither the last record nor the staleness of any mint. An emission changes them for
the mints it names, and there they become what it names: a record, or nothing.
-/

namespace Cloudbreak.Model.LargestAccounts

open Cloudbreak.ToMathlib

variable {state next : TrackerState} {mint pubkey other : Pubkey} {top : MintTop}

namespace MintTop

/-- What a top has told: its last record, unless it is stale or empty. -/
def told (top : MintTop) : Option (List (Pubkey × ℕ)) :=
  if top.lastRecord = [] then none else some top.lastRecord

@[simp] theorem told_lowerCachedMin (amount : ℕ) : (top.lowerCachedMin pubkey amount).told = top.told := by
  unfold lowerCachedMin
  split
  · split <;> rfl
  · rfl

@[simp] theorem told_latchStale : top.latchStale.1.told = none := by
  unfold latchStale
  split
  · next stale => exact if_pos (top.staleEmpty stale)
  · rfl

/-- Cutting a top changes its entries and its floor. -/
theorem told_foldl_drop (victims : List (Pubkey × ℕ)) (top : MintTop) :
    (victims.foldl dropVictim top).told = top.told := by
  induction victims generalizing top with
  | nil => rfl
  | cons victim rest ih => exact ih (top.dropVictim victim)

end MintTop

/-- What the tracker last emitted for a mint that is neither stale nor cleared. -/
def TrackerState.told (state : TrackerState) (mint : Pubkey) : Option (List (Pubkey × ℕ)) :=
  (state.mints.lookup mint).bind MintTop.told

theorem TrackerState.told_setTop (state : TrackerState) (mint other : Pubkey) (top : MintTop) :
    (state.setTop mint top).told other = if other = mint then top.told else state.told other := by
  unfold told setTop
  rw [HashMap.lookup_insert]
  split <;> rfl

/-- An update that emits nothing. -/
structure Quiet (before after : TrackerState) : Prop where
  told : ∀ mint, after.told mint = before.told mint
  status : after.status = before.status
  ascends : before.maxAppliedSlot ≤ after.maxAppliedSlot

namespace Quiet

theorem refl (state : TrackerState) : Quiet state state := ⟨fun _ => rfl, rfl, le_rfl⟩

theorem trans {last : TrackerState} (first : Quiet state next) (second : Quiet next last) : Quiet state last where
  told mint := (second.told mint).trans (first.told mint)
  status := second.status.trans first.status
  ascends := first.ascends.trans second.ascends

/-- The tops and the slot are all that matters. -/
theorem of_eq (mints : next.mints = state.mints) (status : next.status = state.status)
    (slot : state.maxAppliedSlot ≤ next.maxAppliedSlot) : Quiet state next where
  told mint := by rw [TrackerState.told, TrackerState.told, mints]
  status := status
  ascends := slot

theorem setTop {changed : MintTop} (present : state.mints.lookup mint = some top) (same : changed.told = top.told) :
    Quiet state (state.setTop mint changed) where
  told other := by
    rw [TrackerState.told_setTop]
    split
    · next equal => rw [equal, TrackerState.told, present, Option.bind_some, same]
    · rfl
  status := rfl
  ascends := le_rfl

theorem foldl {ι : Type} {step : TrackerState → ι → TrackerState} (each : ∀ state item, Quiet state (step state item))
    (items : List ι) (state : TrackerState) : Quiet state (items.foldl step state) := by
  induction items generalizing state with
  | nil => exact refl state
  | cons item rest ih => exact (each state item).trans (ih _)

theorem foldl_touching {ι : Type} {step : Touching → ι → Touching}
    (each : ∀ touching item, Quiet touching.state (step touching item).state) (items : List ι) (touching : Touching) :
    Quiet touching.state (items.foldl step touching).state := by
  induction items generalizing touching with
  | nil => exact refl touching.state
  | cons item rest ih => exact (each touching item).trans (ih _)

end Quiet

/-! ## Updates are quiet -/

theorem TrackerState.unindex_quiet (state : TrackerState) (mint pubkey : Pubkey) :
    Quiet state (state.unindex mint pubkey) := by
  unfold unindex
  split
  · exact .refl state
  · exact .of_eq rfl rfl le_rfl

theorem TrackerState.unindex_mints (state : TrackerState) (mint pubkey : Pubkey) :
    (state.unindex mint pubkey).mints = state.mints := by
  unfold unindex
  split <;> rfl

private theorem TrackerState.index_quiet (state : TrackerState) (mint pubkey : Pubkey) :
    Quiet state (state.index mint pubkey) := by
  unfold index
  split
  · exact .refl state
  · exact .of_eq rfl rfl le_rfl

namespace Touching

variable {touching : Touching}

theorem removeMember_quiet (touching : Touching) (mint pubkey : Pubkey) (stamp : Stamp) :
    Quiet touching.state (touching.removeMember mint pubkey stamp).state := by
  unfold removeMember
  split
  · exact .refl _
  · next top present =>
    split
    · exact .refl _
    · split
      · refine Quiet.trans (.setTop present ?_) (TrackerState.unindex_quiet _ _ _)
        split <;> rfl
      · exact .refl _

private theorem dropAmount_quiet (present : touching.state.mints.lookup mint = some top) (amount : ℕ) :
    Quiet touching.state (touching.dropAmount mint top amount).state := by
  unfold dropAmount
  split
  · exact .setTop present rfl
  · exact .refl _

private theorem insertMember_quiet (touching : Touching) {old : MintTop}
    (present : touching.state.mints.lookup mint = some old)
    (same : top.told = old.told) (entry : Entry) (minEvicted : Bool) :
    Quiet touching.state (touching.insertMember mint pubkey top entry minEvicted).state := by
  refine Quiet.trans (.setTop present ?_) (TrackerState.index_quiet _ _ _)
  split
  · exact same
  · exact (MintTop.told_lowerCachedMin _).trans same

private theorem updateMember_quiet (present : touching.state.mints.lookup mint = some top) (old entry : Entry) :
    Quiet touching.state (touching.updateMember mint pubkey top old entry).state := by
  unfold updateMember
  split
  · refine .setTop present ?_
    split
    · rfl
    · exact MintTop.told_lowerCachedMin _
  · exact .refl _

theorem applyUpdate_quiet (touching : Touching) (mint pubkey : Pubkey) (entry : Entry) (bootstrapping oldBlock : Bool)
    (k : ℕ) : Quiet touching.state (touching.applyUpdate mint pubkey entry bootstrapping oldBlock k).state := by
  unfold applyUpdate
  split
  · exact .refl _
  split
  · exact .refl _
  next top present =>
  split
  · exact updateMember_quiet present _ _
  split
  · exact dropAmount_quiet present _
  split
  · split
    · exact .refl _
    · next minPubkey minAmount _ =>
      split
      · exact dropAmount_quiet present _
      · refine Quiet.trans (TrackerState.unindex_quiet _ mint minPubkey) ?_
        have kept : (touching.state.unindex mint minPubkey).mints.lookup mint = some top := by
          rw [TrackerState.unindex_mints, present]
        refine insertMember_quiet ⟨touching.state.unindex mint minPubkey, touching.touched⟩ kept ?_ entry true
        rfl
  · exact insertMember_quiet touching present rfl entry false

private theorem removeFromSentinels_quiet (touching : Touching) (pubkey : Pubkey) (stamp : Stamp) :
    Quiet touching.state (touching.removeFromSentinels pubkey stamp).state :=
  Quiet.foldl_touching (fun touching sentinel => removeMember_quiet touching sentinel pubkey stamp) _ _

private theorem leaveMint_quiet (touching : Touching) (pubkey : Pubkey) (updateMint : Option Pubkey) (stamp : Stamp) :
    Quiet touching.state (touching.leaveMint pubkey updateMint stamp).state := by
  unfold leaveMint
  split
  · split
    · exact .refl _
    · exact removeMember_quiet _ _ _ _
  · exact .refl _

theorem applyPending_quiet (shared : Shared) (slot : ℕ) (bootstrapping oldBlock : Bool) (touching : Touching)
    (item : Pubkey × PendingLargestAccount) :
    Quiet touching.state (touching.applyPending shared slot bootstrapping oldBlock item).state := by
  obtain ⟨pubkey, update⟩ := item
  refine (leaveMint_quiet touching pubkey (update.token.map Prod.fst) (toLex (slot, update.writeVersion))).trans ?_
  unfold applyPending
  dsimp only
  split
  · refine Quiet.trans ?_ (removeFromSentinels_quiet _ _ _)
    split
    · exact .of_eq rfl rfl le_rfl
    · exact .refl _
  · refine Quiet.trans ?_ ((applyUpdate_quiet _ solSentinelMint _ _ _ _ _).trans
      ((removeMember_quiet _ _ _ _).trans (applyUpdate_quiet _ _ _ _ _ _ _)))
    cases update.token with
    | none => exact .refl _
    | some token => exact applyUpdate_quiet _ _ _ _ _ _ _

private theorem seedMember_quiet (k : ℕ) (touching : Touching) (balance : NonCirculatingBalance) :
    Quiet touching.state (touching.seedMember k balance).state := by
  unfold seedMember
  dsimp only
  split
  · exact removeMember_quiet _ _ _ _
  · exact (removeMember_quiet _ _ _ _).trans (applyUpdate_quiet _ _ _ _ _ _ _)

private theorem seedClassSentinels_quiet (touching : Touching) (balances : List NonCirculatingBalance) (k : ℕ) :
    Quiet touching.state (touching.seedClassSentinels balances k).state := by
  have seeded : Quiet touching.state (balances.foldl (seedMember k) touching).state :=
    Quiet.foldl_touching (seedMember_quiet k) _ _
  unfold seedClassSentinels
  dsimp only
  refine seeded.trans ?_
  split
  · exact .refl _
  · refine Quiet.trans ?_ (Quiet.foldl_touching (fun _ _ => applyUpdate_quiet _ _ _ _ _ _ _) _ _)
    split
    · exact .refl _
    · next top present => exact .setTop present rfl

end Touching

namespace TrackerState

private theorem trim_quiet (state : TrackerState) (mint : Pubkey) (k : ℕ) : Quiet state (state.trim mint k) := by
  unfold trim
  split
  · exact .refl _
  next top present =>
  split
  · exact .refl _
  · refine (Quiet.setTop present ?_).trans
      (Quiet.foldl (fun state (victim : Pubkey × ℕ) => unindex_quiet state mint victim.1) _ _)
    exact MintTop.told_foldl_drop _ top

private theorem applyAccounts_quiet (shared : Shared) (state : TrackerState) (slot : ℕ)
    (pending : List (Pubkey × PendingLargestAccount)) : Quiet state (state.applyAccounts shared slot pending).state := by
  unfold applyAccounts
  refine Quiet.trans ?_ (Quiet.foldl_touching (Touching.applyPending_quiet shared slot _ _) pending _)
  exact .of_eq rfl rfl (le_max_left _ _)

private theorem applyReservoir_quiet (shared : Shared) (state : TrackerState) :
    Quiet state (state.applyReservoir shared).state := by
  unfold applyReservoir
  refine Quiet.trans ?_ (Quiet.foldl_touching (fun _ _ =>
    Quiet.foldl_touching (fun _ _ => Touching.applyUpdate_quiet _ _ _ _ _ _ _) _ _) _ _)
  exact .of_eq rfl rfl le_rfl

private theorem le_foldl_max (slots : List ℕ) (start : ℕ) : start ≤ slots.foldl max start := by
  induction slots generalizing start with
  | nil => exact le_rfl
  | cons slot rest ih => exact (le_max_left _ _).trans (ih _)

theorem mergeSeed_quiet (shared : Shared) (state : TrackerState) (seed : LargestAccountsSeed) :
    Quiet state (state.mergeSeed shared seed) := by
  unfold mergeSeed
  split
  · exact .refl _
  · refine Quiet.trans (Quiet.foldl_touching ?_ seed.closes ⟨state, ∅⟩) (Quiet.foldl ?_ _ _)
    · rintro touching ⟨pubkey, stamp⟩
      have recorded : Quiet touching.state
          (recordTombstone { touching.state with
            maxAppliedSlot := max touching.state.maxAppliedSlot (ofLex stamp).1 } pubkey stamp) :=
        .of_eq rfl rfl (le_max_left _ _)
      refine recorded.trans (Quiet.trans ?_ (Touching.removeFromSentinels_quiet _ _ _))
      cases AList.lookup pubkey (recordTombstone { touching.state with
          maxAppliedSlot := max touching.state.maxAppliedSlot (ofLex stamp).1 } pubkey stamp).memberIndex with
      | none => exact .refl _
      | some mint => exact Touching.removeMember_quiet ⟨_, touching.touched⟩ mint pubkey stamp
    · rintro state ⟨mint, entries⟩
      exact .of_eq rfl rfl (le_foldl_max _ _)

theorem markMintStale_told (state : TrackerState) (mint other : Pubkey) :
    (state.markMintStale mint).told other = if other = mint then none else state.told other := by
  unfold markMintStale
  split
  · next absent =>
    split
    · next same => rw [same, told, absent, Option.bind_none]
    · rfl
  · next top present => rw [told_setTop, MintTop.told_latchStale]

theorem markMintStale_fields (state : TrackerState) (mint : Pubkey) :
    (state.markMintStale mint).status = state.status ∧
      (state.markMintStale mint).maxAppliedSlot = state.maxAppliedSlot := by
  unfold markMintStale
  split <;> exact ⟨rfl, rfl⟩

end TrackerState

/-! ## What an outcome leaves of a mint -/

namespace BlockOutcome

variable {outcome : BlockOutcome}

/-- The rows an outcome leaves of a mint, where it names the mint. -/
def leaves (outcome : BlockOutcome) (mint : Pubkey) : Option (Option (List (Pubkey × ℕ))) :=
  if (outcome.newlyStale ++ outcome.cleared).contains mint then some none
  else (outcome.records.find? fun record => record.mint = mint).map fun record => some record.rows

/-- The mints an outcome names. -/
def named (outcome : BlockOutcome) : List Pubkey :=
  outcome.newlyStale ++ outcome.cleared ++ outcome.records.map MintRecord.mint

private theorem leaves_stale (outcome : BlockOutcome) (mint other : Pubkey) :
    leaves { outcome with newlyStale := outcome.newlyStale ++ [mint] } other =
      if other = mint then some none else outcome.leaves other := by
  rcases eq_or_ne other mint with same | differs
  · simp [leaves, same]
  · simp [leaves, differs]

private theorem leaves_cleared (outcome : BlockOutcome) (mint other : Pubkey) :
    leaves { outcome with cleared := outcome.cleared ++ [mint] } other =
      if other = mint then some none else outcome.leaves other := by
  rcases eq_or_ne other mint with same | differs
  · simp [leaves, same]
  · simp [leaves, differs]

private theorem leaves_record {record : MintRecord} (unnamed : record.mint ∉ outcome.named) (other : Pubkey) :
    leaves { outcome with records := outcome.records ++ [record] } other =
      if other = record.mint then some (some record.rows) else outcome.leaves other := by
  rw [named, List.mem_append, not_or] at unnamed
  have none : outcome.records.find? (fun item => item.mint = record.mint) = none := by
    refine List.find?_eq_none.mpr fun item member same => unnamed.2 ?_
    exact List.mem_map.mpr ⟨item, member, of_decide_eq_true same⟩
  rw [leaves, List.find?_append, List.find?_singleton]
  rcases eq_or_ne other record.mint with rfl | differs
  · rw [if_neg (mt List.contains_iff_mem.mp unnamed.1), if_pos rfl, none]
    simp
  · rw [if_neg differs, leaves]
    simp [differs.symm]

end BlockOutcome

/-- An emission so far: what was told of the mints it names, in one hold of the mutex. -/
structure Emitted (start : TrackerState) (handled : List Pubkey) (emitting : TrackerState × BlockOutcome) : Prop where
  told : ∀ mint, emitting.1.told mint = (emitting.2.leaves mint).getD (start.told mint)
  status : emitting.1.status = start.status
  slot : emitting.1.maxAppliedSlot = start.maxAppliedSlot
  named : emitting.2.named ⊆ handled
  nodup : emitting.2.named.Nodup
  slots : ∀ record ∈ emitting.2.records, record.slot = start.maxAppliedSlot

namespace Emitted

variable {start : TrackerState} {handled : List Pubkey} {outcome : BlockOutcome}

theorem default (start : TrackerState) : Emitted start [] (start, .default) where
  told _ := rfl
  status := rfl
  slot := rfl
  named := List.Subset.refl _
  nodup := List.nodup_nil
  slots _ member := absurd member List.not_mem_nil

theorem quiet (emitted : Emitted start handled (state, outcome)) (still : Quiet state next)
    (same : next.maxAppliedSlot = state.maxAppliedSlot) : Emitted start handled (next, outcome) where
  told mint := (still.told mint).trans (emitted.told mint)
  status := still.status.trans emitted.status
  slot := same.trans emitted.slot
  named := emitted.named
  nodup := emitted.nodup
  slots := emitted.slots

/-- One more mint is named: its top becomes what the outcome leaves of it. -/
theorem name (emitted : Emitted start handled (state, outcome)) {grown : BlockOutcome} (fresh : mint ∉ handled)
    (named : grown.named.Perm (mint :: outcome.named))
    (left : ∀ other, grown.leaves other = if other = mint then some top.told else outcome.leaves other)
    (slots : ∀ record ∈ grown.records, record ∈ outcome.records ∨ record.slot = start.maxAppliedSlot) :
    Emitted start (mint :: handled) (state.setTop mint top, grown) where
  told other := by
    rw [TrackerState.told_setTop, left]
    split
    · rfl
    · exact emitted.told other
  status := emitted.status
  slot := emitted.slot
  named _ member := by
    rcases List.mem_cons.mp (named.mem_iff.mp member) with same | member
    · exact List.mem_cons.mpr (Or.inl same)
    · exact List.mem_cons_of_mem _ (emitted.named member)
  nodup := named.nodup_iff.mpr (List.nodup_cons.mpr ⟨fun member => fresh (emitted.named member), emitted.nodup⟩)
  slots record member := (slots record member).elim (emitted.slots record) id

theorem mono (emitted : Emitted start handled (state, outcome)) (mint : Pubkey) :
    Emitted start (mint :: handled) (state, outcome) :=
  { emitted with named := fun _ member => List.mem_cons_of_mem _ (emitted.named member) }

/-- A mint that is not named leaves its top where it was told. -/
theorem keep (emitted : Emitted start handled (state, outcome)) (present : state.mints.lookup mint = some top)
    {changed : MintTop} (same : changed.told = top.told) :
    Emitted start (mint :: handled) (state.setTop mint changed, outcome) :=
  (emitted.quiet (.setTop present same) rfl).mono mint

theorem emit (emitted : Emitted start handled (state, outcome)) (fresh : mint ∉ handled) :
    Emitted start (mint :: handled) (TrackerState.emit start.maxAppliedSlot (state, outcome) mint) := by
  have unnamed : mint ∉ outcome.named := fun member => fresh (emitted.named member)
  unfold TrackerState.emit
  dsimp only
  split
  · exact emitted.mono mint
  next top present =>
  split
  · by_cases stale : top.stale
    · rw [MintTop.latchStale, if_pos stale]
      exact emitted.keep present rfl
    · rw [if_pos (by rw [MintTop.latchStale, if_neg stale])]
      refine emitted.name fresh ?_ (fun other => ?_) fun record member => Or.inl member
      · simp only [BlockOutcome.named, List.append_assoc, List.singleton_append]
        exact List.perm_middle
      · rw [BlockOutcome.leaves_stale, MintTop.told_latchStale]
  · next rows sound =>
    split
    · exact emitted.keep present rfl
    · split
      · next empty =>
        refine emitted.name fresh ?_ (fun other => ?_) fun record member => Or.inl member
        · simp only [BlockOutcome.named, ← List.append_assoc, List.append_assoc _ [mint], List.singleton_append]
          exact List.perm_middle
        · rw [BlockOutcome.leaves_cleared, MintTop.told, if_pos empty]
      · next full =>
        refine emitted.name fresh ?_ (fun other => ?_) fun record member => ?_
        · simp only [BlockOutcome.named, List.map_append, List.map_cons, List.map_nil, ← List.append_assoc]
          exact List.perm_append_singleton _ _
        · rw [BlockOutcome.leaves_record unnamed, MintTop.told, if_neg full]
        · rcases List.mem_append.mp member with member | member
          · exact Or.inl member
          · rw [List.mem_singleton.mp member]
            exact Or.inr rfl

/-- The mints of a block, one after another. -/
theorem foldl {order : List Pubkey} (distinct : order.Nodup) (disjoint : ∀ mint ∈ order, mint ∉ handled)
    {between : TrackerState → Pubkey → TrackerState}
    (still : ∀ state mint, Quiet state (between state mint) ∧ (between state mint).maxAppliedSlot = state.maxAppliedSlot)
    {emitting : TrackerState × BlockOutcome} (emitted : Emitted start handled emitting) :
    ∃ all, Emitted start all (order.foldl (fun emitting mint =>
      TrackerState.emit start.maxAppliedSlot (between emitting.1 mint, emitting.2) mint) emitting) := by
  induction order generalizing handled emitting with
  | nil => exact ⟨handled, emitted⟩
  | cons mint rest ih =>
    obtain ⟨fresh, distinct⟩ := List.nodup_cons.mp distinct
    rw [List.foldl_cons]
    have quiet := emitted.quiet (still emitting.1 mint).1 (still emitting.1 mint).2
    refine ih distinct (fun other member => ?_) (quiet.emit (disjoint mint List.mem_cons_self))
    rintro handledBefore
    rcases List.mem_cons.mp handledBefore with rfl | before
    · exact fresh member
    · exact disjoint other (List.mem_cons_of_mem _ member) before

end Emitted

/-! ## Blocks and the flip -/

namespace TrackerState

variable {shared : Shared} {slot : ℕ} {pending : List (Pubkey × PendingLargestAccount)} {order : List Pubkey}
  {outcome : BlockOutcome}

/-- A block emits nothing before the flip, and after it what its touched mints have to tell. -/
theorem applyBlock_emitted (applied : state.applyBlock shared slot pending order = some (next, outcome)) :
    (state.status = .bootstrapping ∧ Quiet state next ∧ outcome = .default) ∨
      (state.status ≠ .bootstrapping ∧ ∃ start all, Quiet state start ∧ Emitted start all (next, outcome)) := by
  have quiet := applyAccounts_quiet shared state slot pending
  unfold applyBlock at applied
  dsimp only at applied
  split at applied
  · next enumerated =>
    have same := Option.some.inj applied
    split at same
    · next booting =>
      cases same
      exact Or.inl ⟨booting, quiet, rfl⟩
    · next live =>
      obtain ⟨all, emitted⟩ := (Emitted.default (applyAccounts shared state slot pending).state).foldl enumerated.1
        (fun _ _ => List.not_mem_nil) (fun state _ => ⟨.refl state, rfl⟩)
      rw [← same]
      exact Or.inr ⟨live, _, all, quiet, emitted⟩
  · contradiction

private theorem trim_slot (state : TrackerState) (mint : Pubkey) (k : ℕ) :
    (state.trim mint k).maxAppliedSlot = state.maxAppliedSlot := by
  have unindexed : ∀ (victims : List (Pubkey × ℕ)) (start : TrackerState),
      (victims.foldl (fun state victim => state.unindex mint victim.1) start).maxAppliedSlot = start.maxAppliedSlot := by
    intro victims
    induction victims with
    | nil => exact fun _ => rfl
    | cons victim rest ih =>
      intro start
      rw [List.foldl_cons, ih]
      unfold unindex
      split <;> rfl
  unfold trim
  split
  · rfl
  split
  · rfl
  · exact unindexed _ _

/-- The flip keeps what was told, which is nothing, and the slot. -/
theorem goLive_told (shared : Shared) (state : TrackerState) (balances : List NonCirculatingBalance) :
    (∀ mint, (state.goLive shared balances).told mint = state.told mint) ∧
      state.maxAppliedSlot ≤ (state.goLive shared balances).maxAppliedSlot := by
  have classed : Quiet state (shared.solK.elim (state.applyReservoir shared)
      ((state.applyReservoir shared).seedClassSentinels balances)).state := by
    cases shared.solK with
    | none => exact applyReservoir_quiet shared state
    | some k => exact (applyReservoir_quiet shared state).trans (Touching.seedClassSentinels_quiet _ _ _)
  exact ⟨classed.told, classed.ascends⟩

/-- The flip tells of every mint, and only once. -/
theorem finishBootstrap_emitted (shared : Shared) (state : TrackerState) (balances : List NonCirculatingBalance) :
    (state.status ≠ .bootstrapping ∧ state.finishBootstrap shared balances = (state, .default)) ∨
      (state.status = .bootstrapping ∧ ∃ all,
        Emitted (state.goLive shared balances) all (state.finishBootstrap shared balances)) := by
  unfold finishBootstrap
  split
  · next live => exact Or.inl ⟨live, rfl⟩
  · next booting =>
    exact Or.inr ⟨not_not.mp booting, (Emitted.default (state.goLive shared balances)).foldl (AList.keys_nodup _)
      (fun _ _ => List.not_mem_nil)
      (fun state mint => ⟨trim_quiet state mint (shared.kFor mint), trim_slot state mint (shared.kFor mint)⟩)⟩

theorem told_new (shared : Shared) (mint : Pubkey) : (new shared).told mint = none := by
  have folded : ∀ (mints : List Pubkey) (start : HashMap Pubkey MintTop),
      (∀ top ∈ start.lookup mint, MintTop.told top = none) →
      ∀ top ∈ (mints.foldl (fun tops other => tops.insert other MintTop.default) start).lookup mint,
        MintTop.told top = none := by
    intro mints
    induction mints with
    | nil => exact fun _ untold => untold
    | cons first rest ih =>
      refine fun start untold => ih _ fun top present => ?_
      rw [HashMap.lookup_insert] at present
      split at present
      · cases present
        rfl
      · exact untold top present
  cases present : (new shared).mints.lookup mint with
  | none => rw [told, present, Option.bind_none]
  | some top =>
    rw [told, present, Option.bind_some]
    refine folded shared.allMints ∅ (fun top empty => ?_) top present
    rw [HashMap.lookup_empty] at empty
    cases empty

end TrackerState

end Cloudbreak.Model.LargestAccounts
