import Cloudbreak.ToMathlib.Run
import Cloudbreak.Proofs.Processed.Chain

/-! # Reads over a served chain

A chain history gives every block its account states, each block overlaying its writes on its parent's
states. Over a served chain the first block that wrote a key has its newest state, and where none did the
state is the confirmed one, which the database holds.
-/

namespace Cloudbreak.Model.Processed

open Cloudbreak.ToMathlib

variable {store : BlockStore} {anchor : Anchor} {served : ProcessedBlocks} {blocks : List SlotBlock}
  {head : SlotBlock} {pubkey : Pubkey}

/-- How an entry reads. -/
def AccountEntry.read : AccountEntry → ProcessedAccount
  | live account => .live account
  | closed => .closed

/-- The account an entry leaves. -/
def AccountEntry.account : AccountEntry → Option LiveAccount
  | live account => some account
  | closed => none

/-- The account states after each block of some history. -/
abbrev History := ℕ → Blockhash → Pubkey → Option LiveAccount

/-- A history in which a block overlays its writes on the states after its parent. -/
def History.Replays (history : History) (block : SlotBlock) : Prop :=
  ∀ pubkey, history block.slot block.blockhash pubkey =
    (block.accounts.lookup pubkey).elim (history block.parentSlot block.parentBlockhash pubkey)
      AccountEntry.account

/-- A request's read: memory first, then the database. -/
def ProcessedBlocks.readThrough (blocks : ProcessedBlocks) (database : Pubkey → Option LiveAccount)
    (pubkey : Pubkey) : Option LiveAccount :=
  match blocks.getAccount pubkey with
  | .live account => some account
  | .closed => none
  | .unknown => database pubkey

theorem getAccount_none (unwritten : ∀ block ∈ served.blocks, block.accounts.lookup pubkey = none) :
    served.getAccount pubkey = .unknown := by
  have none_ : (served.blocks.findSome? fun block => block.accounts.lookup pubkey) = none :=
    List.findSome?_eq_none_iff.mpr unwritten
  rw [ProcessedBlocks.getAccount, none_]

theorem getAccount_some {entry : AccountEntry}
    (first : (served.blocks.findSome? fun block => block.accounts.lookup pubkey) = some entry) :
    served.getAccount pubkey = entry.read := by
  cases entry <;> rw [ProcessedBlocks.getAccount, first] <;> rfl

/-- The read of a key that some block wrote is not unknown. -/
theorem getAccount_eq_unknown_iff :
    served.getAccount pubkey = .unknown ↔ ∀ block ∈ served.blocks, block.accounts.lookup pubkey = none := by
  refine ⟨fun unknown => ?_, getAccount_none⟩
  cases first : served.blocks.findSome? fun block => block.accounts.lookup pubkey with
  | none => exact List.findSome?_eq_none_iff.mp first
  | some entry =>
    rw [getAccount_some first] at unknown
    cases entry <;> contradiction

/-- In a descending list the first write found is the one that no higher block follows. -/
theorem findSome?_of_newest (descending : (blocks.map SlotBlock.slot).Pairwise (· > ·)) {block : SlotBlock}
    {entry : AccountEntry} (member : block ∈ blocks) (wrote : block.accounts.lookup pubkey = some entry)
    (newest : ∀ other ∈ blocks, block.slot < other.slot → other.accounts.lookup pubkey = none) :
    (blocks.findSome? fun block => block.accounts.lookup pubkey) = some entry := by
  induction blocks with
  | nil => simp at member
  | cons first rest ih =>
    rw [List.map_cons, List.pairwise_cons] at descending
    rcases List.mem_cons.mp member with rfl | later
    · rw [List.findSome?_cons, wrote]
    · have higher : block.slot < first.slot := descending.1 _ (List.mem_map_of_mem later)
      rw [List.findSome?_cons, newest first List.mem_cons_self higher]
      exact ih descending.2 later fun other inRest => newest other (List.mem_cons_of_mem _ inRest)

section History

variable {history : History}

/-- Along linked blocks that do not write a key its state does not change. -/
theorem history_unwritten
    (linked : blocks.IsChain fun child parent =>
      parent.slot = child.parentSlot ∧ parent.blockhash = child.parentBlockhash)
    (replays : ∀ block ∈ blocks, history.Replays block)
    (unwritten : ∀ block ∈ blocks, block.accounts.lookup pubkey = none) (starts : blocks.head? = some head) :
    ∀ block ∈ blocks, history head.slot head.blockhash pubkey = history block.slot block.blockhash pubkey ∧
      history head.slot head.blockhash pubkey = history block.parentSlot block.parentBlockhash pubkey := by
  induction blocks generalizing head with
  | nil => simp
  | cons first rest ih =>
    obtain rfl : first = head := Option.some.inj starts
    obtain ⟨links, linked⟩ := List.isChain_cons.mp linked
    have below : history first.slot first.blockhash pubkey = history first.parentSlot first.parentBlockhash pubkey := by
      rw [replays first List.mem_cons_self, unwritten first List.mem_cons_self, Option.elim_none]
    intro block member
    rcases List.mem_cons.mp member with rfl | later
    · exact ⟨rfl, below⟩
    · cases isRest : rest.head? with
      | none =>
        rw [List.head?_eq_none_iff.mp isRest] at later
        simp at later
      | some next =>
        obtain ⟨slot, hash⟩ := links next isRest
        rw [below, ← slot, ← hash]
        exact ih linked (fun other inRest => replays other (List.mem_cons_of_mem _ inRest))
          (fun other inRest => unwritten other (List.mem_cons_of_mem _ inRest)) isRest block later

/-- The state at the head is what the first block that wrote the key left. -/
theorem history_first {entry : AccountEntry}
    (linked : blocks.IsChain fun child parent =>
      parent.slot = child.parentSlot ∧ parent.blockhash = child.parentBlockhash)
    (replays : ∀ block ∈ blocks, history.Replays block) (starts : blocks.head? = some head)
    (first : (blocks.findSome? fun block => block.accounts.lookup pubkey) = some entry) :
    history head.slot head.blockhash pubkey = entry.account := by
  induction blocks generalizing head with
  | nil => simp at starts
  | cons top rest ih =>
    obtain rfl : top = head := Option.some.inj starts
    obtain ⟨links, linked⟩ := List.isChain_cons.mp linked
    rw [replays top List.mem_cons_self]
    cases wrote : top.accounts.lookup pubkey with
    | some newest =>
      rw [List.findSome?_cons, wrote] at first
      cases first
      rfl
    | none =>
      rw [List.findSome?_cons, wrote] at first
      cases isRest : rest.head? with
      | none =>
        rw [List.head?_eq_none_iff.mp isRest] at first
        simp at first
      | some next =>
        obtain ⟨slot, hash⟩ := links next isRest
        rw [Option.elim_none, ← slot, ← hash]
        exact ih linked (fun other inRest => replays other (List.mem_cons_of_mem _ inRest)) isRest first

/-- Memory over the confirmed state is the state at the head. -/
theorem BlockStore.Served.readThrough_eq (chain : store.Served anchor served.blocks)
    (starts : served.blocks.head? = some head) (replays : ∀ block ∈ served.blocks, history.Replays block)
    (pubkey : Pubkey) :
    served.readThrough (history anchor.confirmedSlot anchor.confirmedBlockhash) pubkey =
      history head.slot head.blockhash pubkey := by
  cases first : served.blocks.findSome? fun block => block.accounts.lookup pubkey with
  | some entry =>
    rw [history_first chain.linked replays starts first, ProcessedBlocks.readThrough, getAccount_some first]
    cases entry <;> rfl
  | none =>
    have unwritten := List.findSome?_eq_none_iff.mp first
    have same := history_unwritten chain.linked replays unwritten starts
    rw [ProcessedBlocks.readThrough, getAccount_none unwritten]
    rcases chain.anchored with ⟨lowest, isLowest, slot, hash⟩ | ⟨confirmed, isHead, slot, hash⟩
    · have member : lowest ∈ served.blocks := (List.mem_filter.mp (List.mem_of_getLast? isLowest)).1
      rw [(same lowest member).2, slot, hash]
    · rw [starts, Option.some.injEq] at isHead
      rw [isHead, slot, hash]

end History

/-- Every store, so every one that blocks, anchors and pruning lead to: a served chain is exactly the linked blocks from the highest stored
one through the anchor and its stored ancestors; a read over it is the newest write in it; and over a
database that holds the confirmed state it is the state at the head. -/
theorem processed_reads_agree_with_the_chain (serves : store.latestChainedBlocks = some served) :
    ∃ anchor head, store.anchor = some anchor ∧ served.anchorSlot = anchor.confirmedSlot ∧
      served.blocks.head? = some head ∧ served.slot = head.slot ∧ store.Served anchor served.blocks ∧
      (∀ pubkey,
        (served.getAccount pubkey = .unknown ↔
          ∀ block ∈ served.blocks, block.accounts.lookup pubkey = none) ∧
        ∀ block ∈ served.blocks, ∀ entry, block.accounts.lookup pubkey = some entry →
          (∀ other ∈ served.blocks, block.slot < other.slot → other.accounts.lookup pubkey = none) →
          served.getAccount pubkey = entry.read) ∧
      ∀ history : History, (∀ block ∈ served.blocks, history.Replays block) → ∀ pubkey,
        served.readThrough (history anchor.confirmedSlot anchor.confirmedBlockhash) pubkey =
          history head.slot head.blockhash pubkey := by
  obtain ⟨anchor, head, isAnchor, isHighest, _, anchorSlot, slot, chain⟩ :=
    BlockStore.latestChainedBlocks_eq_some serves
  obtain ⟨first, starts, greatest⟩ := chain.highest
  have isHead : first = head := by
    obtain ⟨headStored, headGreatest⟩ := BlockStore.highest_eq_some isHighest
    have firstStored := chain.stored first (List.mem_of_mem_head? starts)
    have keyOf : ∀ block, store.blocks.lookup block.slot = some block → block.slot ∈ store.blocks.keys :=
      fun block isStored => AList.mem_keys.mp (AList.lookup_isSome.mp (by rw [isStored]; rfl))
    have same : first.slot = head.slot :=
      le_antisymm (headGreatest _ (keyOf first firstStored)) (greatest _ (keyOf head headStored))
    rw [same, headStored] at firstStored
    exact (Option.some.inj firstStored).symm
  subst isHead
  refine ⟨anchor, first, isAnchor, anchorSlot, starts, slot, chain, fun pubkey => ⟨getAccount_eq_unknown_iff, ?_⟩, ?_⟩
  · intro block member entry wrote newest
    exact getAccount_some (findSome?_of_newest chain.descending member wrote newest)
  · exact fun history replays pubkey => chain.readThrough_eq starts replays pubkey

section Examples

private def account (lamports : ℕ) : AccountEntry := .live ⟨lamports, 0, false, 0, []⟩

/-- Two blocks over the anchor, the lower of which arrives last. -/
private def linear : List Event :=
  [.onBlock ⟨102, "h102", 101, "h101", some 1, (∅ : HashMap Pubkey AccountEntry).insert 5 (account 2), 0⟩,
    .setAnchor ⟨100, "h100"⟩,
    .onBlock ⟨101, "h101", 100, "h100", some 1, (∅ : HashMap Pubkey AccountEntry).insert 5 (account 1), 0⟩,
    .prune]

theorem processed_reads_agree_with_the_chain_linear :
    ∃ store served head, Run .new BlockStore.step (fun _ _ _ => True) linear store ∧
      store.latestChainedBlocks = some served ∧ served.blocks.head? = some head ∧ served.slot = head.slot := by
  have replayed : (Run.replay BlockStore.step (fun _ _ _ => True) [] .new linear).any
      (fun store => store.latestChainedBlocks.isSome) = true := by decide +kernel
  obtain ⟨store, ran, isServed⟩ := (Option.any_eq_true _ _).mp replayed
  obtain ⟨served, serves⟩ := Option.isSome_iff_exists.mp isServed
  obtain ⟨_, head, _, _, starts, slot, _⟩ := processed_reads_agree_with_the_chain serves
  exact ⟨store, served, head, Run.replayed ran, serves, starts, slot⟩

end Examples

end Cloudbreak.Model.Processed
