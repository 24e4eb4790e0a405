import Cloudbreak.ToMathlib.Run
import Cloudbreak.Proofs.Processed.Chain

/-! # Conflicts take their descendants and stop the serving

The ascending sweep meets every parent before its children, so it dooms exactly the stored descendants. The
latch keeps the greatest disputed slot, and only an anchor above it lets a chain be served again.
-/

namespace Cloudbreak.Model.Processed

open Cloudbreak.ToMathlib

namespace BlockStore

variable {store : BlockStore} {slot other : ℕ} {block : SlotBlock}

/-- The stored block at a slot has the stored block at another in its ancestry. -/
def Descends (store : BlockStore) (other slot : ℕ) : Prop :=
  ∃ block top, store.blocks.lookup other = some block ∧ store.blocks.lookup slot = some top ∧
    Relation.ReflTransGen store.Parent block top

/-- The slot whose stored block an arriving block contradicts: its own, or its parent's when it is new. -/
def disagreement (store : BlockStore) (block : SlotBlock) : Option ℕ :=
  match store.blocks.lookup block.slot with
  | some stored => if stored.blockhash ≠ block.blockhash then some block.slot else none
  | none =>
    match store.blocks.lookup block.parentSlot with
    | some parent => if parent.blockhash ≠ block.parentBlockhash then some block.parentSlot else none
    | none => none

theorem Descends.le (descends : store.Descends other slot) : slot ≤ other := by
  obtain ⟨block, top, isBlock, isTop, reaches⟩ := descends
  rw [← store.keyed _ _ isBlock, ← store.keyed _ _ isTop]
  exact slot_le_of_reaches reaches

/-- A block above a slot descends from it exactly when its stored parent does. -/
theorem descends_iff_parent (isBlock : store.blocks.lookup other = some block) (above : slot < other) :
    store.Descends other slot ↔ ∃ parent, store.parentOf block = some parent ∧ store.Descends parent.slot slot := by
  constructor
  · rintro ⟨found, top, isFound, isTop, reaches⟩
    rw [isBlock, Option.some.injEq] at isFound
    subst isFound
    rcases Relation.ReflTransGen.cases_head reaches with rfl | ⟨parent, isParent, rest⟩
    · rw [← store.keyed _ _ isBlock, ← store.keyed _ _ isTop] at above
      exact absurd above (lt_irrefl _)
    · have isStored := (parentOf_eq_some.mp isParent).2.1
      rw [← slot_parentOf isParent] at isStored
      exact ⟨parent, isParent, parent, top, isStored, isTop, rest⟩
  · rintro ⟨parent, isParent, found, top, isFound, isTop, reaches⟩
    have isStored := (parentOf_eq_some.mp isParent).2.1
    rw [← slot_parentOf isParent, isFound, Option.some.injEq] at isStored
    subst isStored
    exact ⟨block, top, isBlock, isTop, reaches.head isParent⟩

/-- The sweep over the remaining slots dooms the descendants among them. -/
theorem mem_foldl_doom {doomed remaining : List ℕ} (sorted : remaining.Pairwise (· < ·))
    (stored : ∀ next ∈ remaining, slot < next ∧ ∃ block, store.blocks.lookup next = some block)
    (swept : ∀ other, other ∈ doomed ↔ store.Descends other slot ∧ other ∉ remaining) :
    ∀ other, other ∈ remaining.foldl store.doom doomed ↔ store.Descends other slot := by
  induction remaining generalizing doomed with
  | nil => simpa using swept
  | cons next rest ih =>
    obtain ⟨least, sorted⟩ := List.pairwise_cons.mp sorted
    obtain ⟨above, block, isBlock⟩ := stored next List.mem_cons_self
    refine ih sorted (fun other member => stored other (List.mem_cons_of_mem _ member)) fun other => ?_
    have fresh : next ∉ rest := fun member => lt_irrefl _ (least next member)
    have decided : store.doom doomed next = if decide (block.parentSlot ∈ doomed) && (store.parentOf block).isSome
        then doomed ++ [next] else doomed := by
      rw [doom, isBlock, Option.any_some]
    have doomedIff : (decide (block.parentSlot ∈ doomed) && (store.parentOf block).isSome) = true ↔
        store.Descends next slot := by
      rw [descends_iff_parent isBlock above, Bool.and_eq_true, decide_eq_true_iff, Option.isSome_iff_exists]
      constructor
      · rintro ⟨member, parent, isParent⟩
        refine ⟨parent, isParent, ?_⟩
        rw [slot_parentOf isParent]
        exact ((swept _).mp member).1
      · rintro ⟨parent, isParent, descends⟩
        refine ⟨(swept _).mpr ⟨slot_parentOf isParent ▸ descends, fun member => ?_⟩, parent, isParent⟩
        -- the parent lies below every slot still to be swept
        have below := parentOf_lt isParent
        rw [slot_parentOf isParent, store.keyed _ _ isBlock] at below
        rcases List.mem_cons.mp member with same | later
        · omega
        · have := least _ later
          omega
    rw [decided]
    by_cases isDoomed : store.Descends next slot
    · rw [if_pos (doomedIff.mpr isDoomed), List.mem_append, List.mem_singleton, swept, List.mem_cons, not_or]
      constructor
      · rintro (⟨descends, _, outside⟩ | rfl)
        · exact ⟨descends, outside⟩
        · exact ⟨isDoomed, fresh⟩
      · rintro ⟨descends, outside⟩
        by_cases same : other = next
        · exact Or.inr same
        · exact Or.inl ⟨descends, same, outside⟩
    · rw [if_neg (mt doomedIff.mp isDoomed), swept, List.mem_cons, not_or]
      constructor
      · exact fun ⟨descends, _, outside⟩ => ⟨descends, outside⟩
      · exact fun ⟨descends, outside⟩ => ⟨descends, fun same => isDoomed (same ▸ descends), outside⟩

private theorem mem_slotsAbove :
    other ∈ store.slotsAbove slot ↔ slot < other ∧ ∃ block, store.blocks.lookup other = some block := by
  rw [slotsAbove, List.mem_insertionSort, List.mem_filter, decide_eq_true_iff, and_comm, ← AList.mem_keys,
    ← AList.lookup_isSome, Option.isSome_iff_exists]

private theorem sorted_slotsAbove (store : BlockStore) (slot : ℕ) : (store.slotsAbove slot).Pairwise (· < ·) := by
  have distinct : (store.slotsAbove slot).Nodup :=
    (List.perm_insertionSort _ _).nodup_iff.mpr (store.blocks.keys_nodup.filter _)
  exact ((List.pairwise_insertionSort (· ≤ ·) _).and distinct).imp fun ⟨le, ne⟩ => lt_of_le_of_ne le ne

/-- A conflict removes exactly the block at the slot and its stored descendants. -/
theorem lookup_conflict {top : SlotBlock} (isTop : store.blocks.lookup slot = some top) (other : ℕ) :
    (store.Descends other slot → (store.conflict slot).blocks.lookup other = none) ∧
      (¬store.Descends other slot → (store.conflict slot).blocks.lookup other = store.blocks.lookup other) := by
  have swept : ∀ other, other ∈ (store.slotsAbove slot).foldl store.doom [slot] ↔ store.Descends other slot := by
    refine mem_foldl_doom (store.sorted_slotsAbove slot) (fun next member => mem_slotsAbove.mp member) fun other => ?_
    rw [List.mem_singleton, mem_slotsAbove]
    constructor
    · rintro rfl
      exact ⟨⟨top, top, isTop, isTop, .refl⟩, fun above => lt_irrefl _ above.1⟩
    · rintro ⟨descends, outside⟩
      have reaches := descends.le
      obtain ⟨block, _, isBlock, _⟩ := descends
      by_contra differ
      exact outside ⟨lt_of_le_of_ne reaches (Ne.symm differ), block, isBlock⟩
  constructor
  · intro descends
    have doomed := (swept other).mpr descends
    rw [conflict, HashMap.lookup_retain]
    simp [doomed]
  · intro survives
    have spared := mt (swept other).mp survives
    rw [conflict, HashMap.lookup_retain]
    cases store.blocks.lookup other <;> simp [spared]

/-- The stored block a disagreement is about. -/
theorem stored_of_disagreement (disagrees : store.disagreement block = some slot) :
    ∃ top, store.blocks.lookup slot = some top := by
  rw [disagreement] at disagrees
  cases isStored : store.blocks.lookup block.slot with
  | some stored =>
    rw [isStored] at disagrees
    dsimp only at disagrees
    split at disagrees
    · cases disagrees
      exact ⟨stored, isStored⟩
    · contradiction
  | none =>
    rw [isStored] at disagrees
    dsimp only at disagrees
    cases isParent : store.blocks.lookup block.parentSlot with
    | some parent =>
      rw [isParent] at disagrees
      dsimp only at disagrees
      split at disagrees
      · cases disagrees
        exact ⟨parent, isParent⟩
      · contradiction
    | none =>
      rw [isParent] at disagrees
      contradiction

/-- A disagreement at or below the anchor drops the newcomer, one above it is a conflict. -/
theorem onBlock_of_disagreement (disagrees : store.disagreement block = some slot) :
    store.onBlock block = if store.confirmed slot = false then store.conflict slot else store := by
  rw [disagreement] at disagrees
  rw [onBlock]
  cases isStored : store.blocks.lookup block.slot with
  | some stored =>
    rw [isStored] at disagrees
    dsimp only at disagrees ⊢
    split at disagrees
    · next differ =>
      cases disagrees
      simp only [differ, ne_eq, not_false_eq_true, true_and]
    · contradiction
  | none =>
    rw [isStored] at disagrees
    dsimp only at disagrees ⊢
    cases isParent : store.blocks.lookup block.parentSlot with
    | some parent =>
      rw [isParent] at disagrees
      dsimp only at disagrees ⊢
      split at disagrees
      · next differ =>
        cases disagrees
        rw [if_pos differ]
      · contradiction
    | none =>
      rw [isParent] at disagrees
      contradiction

/-- Without a disagreement a block changes neither the latch nor the anchor. -/
theorem onBlock_of_agreement (agrees : store.disagreement block = none) :
    (store.onBlock block).conflictUntil = store.conflictUntil ∧ (store.onBlock block).anchor = store.anchor := by
  rw [disagreement] at agrees
  rw [onBlock]
  cases isStored : store.blocks.lookup block.slot with
  | some stored =>
    rw [isStored] at agrees
    dsimp only at agrees ⊢
    split at agrees
    · contradiction
    · next same =>
      rw [if_neg fun differ => same differ.1]
      exact ⟨rfl, rfl⟩
  | none =>
    rw [isStored] at agrees
    dsimp only at agrees ⊢
    cases isParent : store.blocks.lookup block.parentSlot with
    | some parent =>
      rw [isParent] at agrees
      dsimp only at agrees ⊢
      split at agrees
      · contradiction
      · next same =>
        rw [if_neg same]
        exact ⟨rfl, rfl⟩
    | none => exact ⟨rfl, rfl⟩

/-- The latch holds a slot at or above a disputed one that no anchor has passed. -/
structure Latched (store : BlockStore) (slot : ℕ) : Prop where
  until_ : ∃ until_, store.conflictUntil = some until_ ∧ slot ≤ until_
  unpassed : ∀ until_ anchor, store.conflictUntil = some until_ → store.anchor = some anchor →
    anchor.confirmedSlot ≤ until_

private theorem Latched.not_served (latched : store.Latched slot) : store.latestChainedBlocks = none := by
  cases serves : store.latestChainedBlocks with
  | none => rfl
  | some served =>
    obtain ⟨anchor, _, isAnchor, _, passed, _⟩ := latestChainedBlocks_eq_some serves
    obtain ⟨until_, isUntil, _⟩ := latched.until_
    have := latched.unpassed until_ anchor isUntil isAnchor
    have := passed until_ isUntil
    omega

private theorem lt_of_not_confirmed {anchor : Anchor} (open_ : store.confirmed slot = false)
    (isAnchor : store.anchor = some anchor) : anchor.confirmedSlot < slot := by
  rw [confirmed, anchorSlot, isAnchor, Option.map_some, Option.any_some, decide_eq_false_iff_not] at open_
  omega

private theorem latched_conflict (open_ : store.confirmed slot = false) : (store.conflict slot).Latched slot := by
  have isUntil : (store.conflict slot).conflictUntil = some (store.conflictUntil.elim slot (max · slot)) := rfl
  have reaches : slot ≤ store.conflictUntil.elim slot (max · slot) := by
    cases store.conflictUntil with
    | none => exact le_rfl
    | some until_ => exact le_max_right until_ slot
  refine ⟨⟨_, isUntil, reaches⟩, fun until_ anchor found isAnchor => ?_⟩
  rw [isUntil, Option.some.injEq] at found
  have := lt_of_not_confirmed open_ isAnchor
  omega

/-- A conflict keeps a latch, wherever it is. -/
theorem Latched.conflict (latched : store.Latched slot) (other : ℕ) : (store.conflict other).Latched slot := by
  obtain ⟨until_, isUntil, reaches⟩ := latched.until_
  have raised : (store.conflict other).conflictUntil = some (max until_ other) := by
    rw [BlockStore.conflict, isUntil, Option.elim_some]
  refine ⟨⟨_, raised, reaches.trans (le_max_left _ _)⟩, fun found anchor isFound isAnchor => ?_⟩
  rw [raised, Option.some.injEq] at isFound
  have := latched.unpassed until_ anchor isUntil isAnchor
  omega

theorem Latched.onBlock (latched : store.Latched slot) (block : SlotBlock) : (store.onBlock block).Latched slot := by
  cases disagrees : store.disagreement block with
  | none =>
    obtain ⟨sameUntil, sameAnchor⟩ := onBlock_of_agreement disagrees
    exact ⟨sameUntil ▸ latched.until_, sameUntil ▸ sameAnchor ▸ latched.unpassed⟩
  | some disputed =>
    rw [onBlock_of_disagreement disagrees]
    split
    · exact latched.conflict disputed
    · exact latched

/-- An anchor at or below the slot keeps the latch. -/
theorem Latched.setAnchor {anchor : Anchor} (latched : store.Latched slot) (low : anchor.confirmedSlot ≤ slot) :
    (store.setAnchor anchor).Latched slot := by
  obtain ⟨until_, isUntil, reaches⟩ := latched.until_
  have kept : (store.setAnchor anchor).conflictUntil = some until_ := by
    have under : ¬anchor.confirmedSlot > until_ := by omega
    simp [BlockStore.setAnchor, isUntil, under]
  refine ⟨⟨until_, kept, reaches⟩, fun found other isFound isAnchor => ?_⟩
  rw [kept, Option.some.injEq] at isFound
  cases isAnchor
  omega

theorem Latched.prune (latched : store.Latched slot) : store.prune.Latched slot :=
  ⟨latched.until_, latched.unpassed⟩

/-- Nothing is served as long as no anchor passes the slot. -/
theorem Latched.run {later : List Event} {next : BlockStore} (latched : store.Latched slot)
    (run : Run store BlockStore.step
      (fun _ _ event => ∀ anchor, event = .setAnchor anchor → anchor.confirmedSlot ≤ slot) later next) :
    next.Latched slot := by
  refine Run.stateInvariant latched ?_ run
  intro _ state event next latched low moves
  cases event with
  | onBlock block =>
    cases moves
    exact latched.onBlock block
  | setAnchor anchor =>
    cases moves
    exact latched.setAnchor (low anchor rfl)
  | prune =>
    cases moves
    exact latched.prune

end BlockStore

/-- A store with the slots disputed above the anchor since it last passed them. -/
structure Watched where
  store : BlockStore
  disputed : List ℕ

namespace Watched

def new : Watched := ⟨.new, []⟩

def step (watched : Watched) : Event → Option Watched
  | .onBlock block => some {
      store := watched.store.onBlock block
      disputed := (watched.store.disagreement block).elim watched.disputed fun slot =>
        if watched.store.confirmed slot = false then slot :: watched.disputed else watched.disputed }
  | .setAnchor anchor => some {
      store := watched.store.setAnchor anchor
      disputed := watched.disputed.filter fun slot => decide (anchor.confirmedSlot ≤ slot) }
  | .prune => some { watched with store := watched.store.prune }

/-- Every slot in dispute keeps the store latched. -/
theorem latched_run {events : List Event} {watched : Watched}
    (run : Run new step (fun _ _ _ => True) events watched) :
    ∀ slot ∈ watched.disputed, watched.store.Latched slot := by
  refine Run.stateInvariant (by simp [new]) ?_ run
  intro _ state event next latched _ moves
  cases event with
  | onBlock block =>
    cases moves
    intro slot member
    dsimp only at member ⊢
    cases disagrees : state.store.disagreement block with
    | none =>
      rw [disagrees, Option.elim_none] at member
      exact (latched slot member).onBlock block
    | some disputed =>
      rw [disagrees, Option.elim_some] at member
      split at member
      · next open_ =>
        rcases List.mem_cons.mp member with rfl | before
        · rw [BlockStore.onBlock_of_disagreement disagrees, if_pos open_]
          exact BlockStore.latched_conflict open_
        · exact (latched slot before).onBlock block
      · exact (latched slot member).onBlock block
  | setAnchor anchor =>
    cases moves
    intro slot member
    obtain ⟨before, low⟩ := List.mem_filter.mp member
    exact (latched slot before).setAnchor (of_decide_eq_true low)
  | prune =>
    cases moves
    exact fun slot member => (latched slot member).prune

/-- A disagreement at or below the anchor changes nothing. One above it removes exactly the stored block and
its descendants, and nothing is served until an anchor is above the slot; so no served block above the anchor
is in dispute. -/
theorem conflicting_blocks_are_never_served {events : List Event} {watched : Watched}
    (run : Run new step (fun _ _ _ => True) events watched) :
    (∀ block slot, watched.store.disagreement block = some slot →
      (watched.store.confirmed slot = true → watched.store.onBlock block = watched.store) ∧
      (watched.store.confirmed slot = false →
        (∀ other,
          (watched.store.Descends other slot → (watched.store.onBlock block).blocks.lookup other = none) ∧
          (¬watched.store.Descends other slot →
            (watched.store.onBlock block).blocks.lookup other = watched.store.blocks.lookup other)) ∧
        ∀ later next, Run (watched.store.onBlock block) BlockStore.step
            (fun _ _ event => ∀ anchor, event = .setAnchor anchor → anchor.confirmedSlot ≤ slot) later next →
          next.latestChainedBlocks = none)) ∧
    ∀ served, watched.store.latestChainedBlocks = some served → ∀ block ∈ served.blocks,
      served.anchorSlot < block.slot → block.slot ∉ watched.disputed := by
  refine ⟨fun block slot disagrees => ⟨fun low => ?_, fun open_ => ⟨fun other => ?_, fun later next ran => ?_⟩⟩, ?_⟩
  · rw [BlockStore.onBlock_of_disagreement disagrees, if_neg (by simp [low])]
  · obtain ⟨top, isTop⟩ := BlockStore.stored_of_disagreement disagrees
    rw [BlockStore.onBlock_of_disagreement disagrees, if_pos open_]
    exact BlockStore.lookup_conflict isTop other
  · rw [BlockStore.onBlock_of_disagreement disagrees, if_pos open_] at ran
    exact ((BlockStore.latched_conflict open_).run ran).not_served
  · intro served serves block _ _ disputed
    have stopped := (latched_run run _ disputed).not_served
    rw [stopped] at serves
    contradiction

section Examples

private def empty (slot : ℕ) (blockhash : Blockhash) (parentSlot : ℕ) (parentBlockhash : Blockhash) : SlotBlock :=
  ⟨slot, blockhash, parentSlot, parentBlockhash, some 1, ∅, 0⟩

/-- A second blockhash for slot 102, whose child 103 was stored before it. -/
private def disputing : List Event :=
  [.setAnchor ⟨100, "h100"⟩, .onBlock (empty 103 "h103" 102 "h102"), .onBlock (empty 101 "h101" 100 "h100"),
    .onBlock (empty 102 "h102" 101 "h101"), .onBlock (empty 102 "x102" 101 "h101")]

theorem conflicting_blocks_are_never_served_disputing :
    ∃ watched, Run new step (fun _ _ _ => True) disputing watched ∧ 102 ∈ watched.disputed ∧
      (watched.store.disagreement (empty 101 "x101" 100 "h100") = some 101 ∧
        (watched.store.onBlock (empty 101 "x101" 100 "h100")).latestChainedBlocks = none) := by
  have replayed : (Run.replay step (fun _ _ _ => True) [] new disputing).any (fun watched =>
      decide (102 ∈ watched.disputed ∧ watched.store.disagreement (empty 101 "x101" 100 "h100") = some 101 ∧
        watched.store.confirmed 101 = false)) = true := by decide +kernel
  obtain ⟨watched, ran, checked⟩ := (Option.any_eq_true _ _).mp replayed
  obtain ⟨isDisputed, disagrees, open_⟩ := of_decide_eq_true checked
  have run := Run.replayed ran
  refine ⟨watched, run, isDisputed, disagrees, ?_⟩
  exact (((conflicting_blocks_are_never_served run).1 _ _ disagrees).2 open_).2 [] _ .start

end Examples

end Watched

end Cloudbreak.Model.Processed
