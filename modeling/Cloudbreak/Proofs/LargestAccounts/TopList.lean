import Cloudbreak.Proofs.LargestAccounts.BlockHolders

/-! # The rows of a sound top are the true top list

The rows of a top bound every entry they leave out, and a sound top's rows bound its floor, which bounds every
holder without an entry. What was emitted for a mint stays right while its top is not touched.
-/

namespace Cloudbreak.Model.LargestAccounts

open Cloudbreak.ToMathlib

variable {shared : Shared} {state : TrackerState} {mint pubkey other : Pubkey} {accounts : Accounts} {top : MintTop}
  {rows : List (Pubkey × ℕ)}

/-! ## The order of the rows -/

/-- Larger amounts come first, and of equal ones the larger keys. -/
def rowOrder (first second : Pubkey × ℕ) : Prop := MintTop.rank second ≤ MintTop.rank first

instance : DecidableRel rowOrder := fun _ _ => inferInstanceAs (Decidable (_ ≤ _))

instance : Std.Total rowOrder := ⟨fun first second => le_total (MintTop.rank second) (MintTop.rank first)⟩

instance : IsTrans (Pubkey × ℕ) rowOrder := ⟨fun _ _ _ first second => second.trans first⟩

namespace MintTop

/-- All entries in the order of the rows. -/
def sorted (top : MintTop) : List (Pubkey × ℕ) := top.amounts.insertionSort rowOrder

end MintTop

/-! ## The list of all holders -/

namespace Accounts

end Accounts

/-! ## A sound top -/

/-- A top that is not stale last told its sound rows. -/
def MintTop.Settled (top : MintTop) : Prop := top.stale = false → top.computeTop = .sound top.lastRecord

private theorem MintTop.settled_latchStale (top : MintTop) : top.latchStale.1.Settled := by
  intro fresh
  unfold latchStale at fresh
  split at fresh
  · next stale =>
    rw [fresh] at stale
    contradiction
  · contradiction

/-- The tops with the holders of the newest writes, and what was told of them. -/
structure TrackerState.Truthful (shared : Shared) (accounts : Accounts) (state : TrackerState) : Prop where
  live : state.status = .live
  holds : state.Holds shared accounts.holder
  written : accounts.Until state.maxAppliedSlot
  settled : ∀ mint top, state.mints.lookup mint = some top → top.Settled

namespace TrackerState

variable {next : TrackerState} {outcome : BlockOutcome}

/-- Only what was told of one mint changes, and it is settled. -/
def Retells (state next : TrackerState) (mint : Pubkey) : Prop :=
  ∃ top changed, state.mints.lookup mint = some top ∧ changed.entries = top.entries ∧
    changed.cachedMin = top.cachedMin ∧ changed.droppedFloor = top.droppedFloor ∧ changed.Settled ∧
    next = state.setTop mint changed

private theorem emit_retells (slot : ℕ) (state : TrackerState) (outcome : BlockOutcome) (mint : Pubkey) :
    (emit slot (state, outcome) mint).1 = state ∧ state.mints.lookup mint = none ∨
      state.Retells (emit slot (state, outcome) mint).1 mint := by
  unfold emit
  dsimp only
  cases present : state.mints.lookup mint with
  | none => exact Or.inl ⟨rfl, rfl⟩
  | some top =>
    right
    dsimp only
    cases computed : top.computeTop with
    | unsound =>
      refine ⟨top, top.latchStale.1, present, ?_, ?_, ?_, top.settled_latchStale, rfl⟩ <;>
        · unfold MintTop.latchStale
          split <;> rfl
    | sound rows =>
      dsimp only
      split
      · next same =>
        exact ⟨top, { top with stale := false, staleEmpty := MintTop.staleEmpty_false _ }, present, rfl, rfl, rfl,
          fun _ => same ▸ computed, rfl⟩
      · exact ⟨top, { top with stale := false, lastRecord := rows, staleEmpty := MintTop.staleEmpty_false rows },
          present, rfl, rfl, rfl, fun _ => computed, rfl⟩

namespace Retells

theorem holds {holders : Pubkey → Pubkey → Option Entry} (retells : state.Retells next mint)
    (holds : state.Holds shared holders) : next.Holds shared holders := by
  obtain ⟨top, changed, present, entries, cachedMin, floor, -, rfl⟩ := retells
  have follows := holds.tops mint top present
  have changedFollows : changed.Follows (holders mint) (shared.kFor mint) := by
    refine ⟨follows.toCovers.raise entries floor.ge, entries ▸ follows.bounded, ?_⟩
    rw [cachedMin, MintTop.minEntry_congr entries]
    exact follows.cached
  have replaced := holds.replace present changedFollows (.of_setTop rfl)
    (holds.indexed.same present (.of_setTop rfl) rfl fun pubkey => by rw [entries])
  rwa [Function.update_eq_self] at replaced

private theorem lookup_of_ne (retells : state.Retells next mint) (differs : other ≠ mint) :
    next.mints.lookup other = state.mints.lookup other := by
  obtain ⟨top, changed, -, -, -, -, -, rfl⟩ := retells
  rw [setTop, HashMap.lookup_insert, if_neg differs]

theorem settled (retells : state.Retells next mint) (present : next.mints.lookup mint = some top) : top.Settled := by
  obtain ⟨_, changed, -, -, -, -, settled, rfl⟩ := retells
  rw [setTop, HashMap.lookup_insert, if_pos rfl] at present
  cases present
  exact settled

theorem fields (retells : state.Retells next mint) :
    next.status = state.status ∧ next.maxAppliedSlot = state.maxAppliedSlot := by
  obtain ⟨_, changed, -, -, -, -, -, rfl⟩ := retells
  exact ⟨rfl, rfl⟩

theorem truthful (retells : state.Retells next mint) (truthful : state.Truthful shared accounts) :
    next.Truthful shared accounts where
  live := retells.fields.1.trans truthful.live
  holds := retells.holds truthful.holds
  written := retells.fields.2 ▸ truthful.written
  settled other top present := by
    by_cases same : other = mint
    · exact retells.settled (same ▸ present)
    · exact truthful.settled other top ((retells.lookup_of_ne same).symm.trans present)

end Retells

/-- After the emissions of a block every mint is settled that was settled before or is emitted. -/
theorem foldl_emit_truthful {order : List Pubkey} {slot : ℕ} (live : state.status = .live)
    (holds : state.Holds shared accounts.holder) (written : accounts.Until state.maxAppliedSlot)
    (settled : ∀ mint top, state.mints.lookup mint = some top → mint ∉ order → top.Settled) :
    (order.foldl (emit slot) (state, outcome)).1.Truthful shared accounts := by
  induction order generalizing state outcome with
  | nil => exact ⟨live, holds, written, fun mint top present => settled mint top present List.not_mem_nil⟩
  | cons mint rest ih =>
    rw [List.foldl_cons]
    generalize emitted : emit slot (state, outcome) mint = emitting
    obtain ⟨next, grown⟩ := emitting
    rcases emit_retells slot state outcome mint with ⟨same, absent⟩ | retells
    · rw [emitted] at same
      cases same
      refine ih live holds written fun other top present unhandled => settled other top present fun member => ?_
      rcases List.mem_cons.mp member with rfl | later
      · rw [absent] at present
        contradiction
      · exact unhandled later
    · rw [emitted] at retells
      refine ih (retells.fields.1.trans live) (retells.holds holds) (retells.fields.2 ▸ written)
        fun other top present unhandled => ?_
      by_cases same : other = mint
      · exact retells.settled (same ▸ present)
      · refine settled other top ((retells.lookup_of_ne same).symm.trans present) fun member => ?_
        rcases List.mem_cons.mp member with rfl | later
        · exact same rfl
        · exact unhandled later

end TrackerState

/-! ## One block -/

/-- Every top that changes is touched. -/
structure Touches (before after : Touching) : Prop where
  touched : before.touched ⊆ after.touched
  others : ∀ other, after.state.mints.lookup other = before.state.mints.lookup other ∨ other ∈ after.touched

namespace Touches

variable {before after last : Touching}

theorem refl (touching : Touching) : Touches touching touching := ⟨subset_rfl, fun _ => Or.inl rfl⟩

theorem of_changes (changes : Touching.Changes before after mint) : Touches before after :=
  ⟨changes.touched, fun other => (changes.others other).imp id And.right⟩

theorem trans (first : Touches before after) (second : Touches after last) : Touches before last where
  touched := first.touched.trans second.touched
  others other := by
    rcases second.others other with same | touched
    · exact (first.others other).imp same.trans (second.touched ·)
    · exact Or.inr touched

theorem foldl {ι : Type} {step : Touching → ι → Touching} (each : ∀ touching item, Touches touching (step touching item))
    (items : List ι) (touching : Touching) : Touches touching (items.foldl step touching) := by
  induction items generalizing touching with
  | nil => exact refl touching
  | cons item rest ih => exact (each touching item).trans (ih _)

end Touches

namespace Touching

private theorem leaveMint_touches (touching : Touching) (pubkey : Pubkey) (updateMint : Option Pubkey) (stamp : Stamp) :
    Touches touching (touching.leaveMint pubkey updateMint stamp) := by
  unfold leaveMint
  split
  · split
    · exact .refl _
    · exact .of_changes (removeMember_changes _ _ _ _)
  · exact .refl _

private theorem applyPending_touches (slot : ℕ) (bootstrapping oldBlock : Bool) (touching : Touching)
    (item : Pubkey × PendingLargestAccount) :
    Touches touching (touching.applyPending shared slot bootstrapping oldBlock item) := by
  obtain ⟨pubkey, update⟩ := item
  refine (leaveMint_touches touching pubkey (update.token.map Prod.fst) (toLex (slot, update.writeVersion))).trans ?_
  unfold applyPending
  dsimp only
  split
  · refine Touches.trans ?_ (Touches.foldl (fun touching sentinel =>
      .of_changes (removeMember_changes touching sentinel pubkey _)) sentinels _)
    split
    · exact ⟨subset_rfl, fun _ => Or.inl rfl⟩
    · exact .refl _
  · refine Touches.trans ?_ ((Touches.of_changes (applyUpdate_changes _ solSentinelMint _ _ _ _ _)).trans
      ((Touches.of_changes (removeMember_changes _ _ _ _)).trans (.of_changes (applyUpdate_changes _ _ _ _ _ _ _))))
    cases update.token with
    | none => exact .refl _
    | some token => exact .of_changes (applyUpdate_changes _ _ _ _ _ _ _)

end Touching

namespace TrackerState

/-- A block of a live tracker keeps every top on the newest writes, and what is told is right. -/
theorem Truthful.applyBlock (truthful : state.Truthful shared accounts) {slot : ℕ}
    {pending : List (Pubkey × PendingLargestAccount)} {order : List Pubkey} {next : TrackerState}
    {outcome : BlockOutcome} (block : PendingBlock shared pending)
    (applied : state.applyBlock shared slot pending order = some (next, outcome)) :
    next.Truthful shared (pending.foldl (Accounts.write slot) accounts) := by
  have quiet : Quiet { state with maxAppliedSlot := max state.maxAppliedSlot slot }
      (state.applyAccounts shared slot pending).state :=
    Quiet.foldl_touching (Touching.applyPending_quiet shared slot _ _) pending
      ⟨{ state with maxAppliedSlot := max state.maxAppliedSlot slot }, ∅⟩
  have touches : Touches ⟨{ state with maxAppliedSlot := max state.maxAppliedSlot slot }, ∅⟩
      (state.applyAccounts shared slot pending) :=
    Touches.foldl (Touching.applyPending_touches slot _ _) pending _
  have holds := @applyAccounts_holds _ _ _ slot truthful.live truthful.holds truthful.written _ block
  have written : (pending.foldl (Accounts.write slot) accounts).Until
      (state.applyAccounts shared slot pending).state.maxAppliedSlot := by
    refine Accounts.Until.foldl (fun pubkey newest found => ?_) ((le_max_right _ _).trans quiet.ascends) pending
    exact (truthful.written pubkey newest found).trans ((le_max_left _ _).trans quiet.ascends)
  unfold TrackerState.applyBlock at applied
  dsimp only at applied
  split at applied
  · next schedule =>
    rw [if_neg (by rw [truthful.live]; decide)] at applied
    rw [show next = _ from (congrArg Prod.fst (Option.some.inj applied)).symm]
    refine foldl_emit_truthful (quiet.status.trans truthful.live) holds written fun mint top present unhandled => ?_
    have untouched : mint ∉ (state.applyAccounts shared slot pending).touched := fun touched =>
      unhandled (List.mem_toFinset.mp (schedule.2 ▸ touched))
    exact truthful.settled mint top (((touches.others mint).resolve_right untouched).symm.trans present)
  · contradiction

end TrackerState

end Cloudbreak.Model.LargestAccounts
