import Cloudbreak.Model.MintCache.ApplyChain
import Cloudbreak.Proofs.MintCache.ChainApply

/-! # When chained application is all or nothing

The blocks that the walk follows form a path that the buffer determines. While every followed block names a
parent below itself the walk ends, and it applies the path from its oldest block on, or changes nothing where
a block is missing or does not fit the applied one. A block that names itself or a higher slot breaks this,
unless the walk then still meets a missing block.
-/

namespace Cloudbreak.Model.MintCache

open Cloudbreak.ToMathlib

variable {blocks : SlotBlocks} {applied : Applied} {slot : ℕ} {blockhash : String} {block : BufferedBlock}
  {path : List (ℕ × BufferedBlock)}

/-- The blocks from a slot back to the applied block, along the parent links. -/
inductive Path (blocks : SlotBlocks) (applied : Applied) : ℕ → String → List (ℕ × BufferedBlock) → Prop
  | last {slot : ℕ} {blockhash : String} {block : BufferedBlock} (found : blocks.find slot blockhash = some block)
      (reaches : block.parentSlot = applied.slot) (linked : block.Linked applied) :
      Path blocks applied slot blockhash [(slot, block)]
  | link {slot : ℕ} {blockhash : String} {block : BufferedBlock} {rest : List (ℕ × BufferedBlock)}
      (found : blocks.find slot blockhash = some block) (above : applied.slot < block.parentSlot)
      (path : Path blocks applied block.parentSlot block.parentBlockhash rest) :
      Path blocks applied slot blockhash ((slot, block) :: rest)

/-- The positions the walk can come to. -/
inductive Reached (blocks : SlotBlocks) (applied : Applied) (slot : ℕ) (blockhash : String) : ℕ → String → Prop
  | start : Reached blocks applied slot blockhash slot blockhash
  | link {lower : ℕ} {hash : String} {block : BufferedBlock}
      (reached : Reached blocks applied slot blockhash lower hash) (found : blocks.find lower hash = some block)
      (above : applied.slot < block.parentSlot) :
      Reached blocks applied slot blockhash block.parentSlot block.parentBlockhash

/-- Every block that is followed names a parent below its own slot. -/
def Descends (blocks : SlotBlocks) (applied : Applied) (slot : ℕ) (blockhash : String) : Prop :=
  ∀ lower hash block, Reached blocks applied slot blockhash lower hash → blocks.find lower hash = some block →
    applied.slot < block.parentSlot → block.parentSlot < lower

/-- The block is missing, or leads past the applied slot, or to another block there. -/
def Unfit (blocks : SlotBlocks) (applied : Applied) (slot : ℕ) (blockhash : String) : Prop :=
  ∀ block, blocks.find slot blockhash = some block →
    block.parentSlot < applied.slot ∨ block.parentSlot = applied.slot ∧ ¬ block.Linked applied

/-- The walk comes to an unfit position. -/
def Stops (blocks : SlotBlocks) (applied : Applied) (slot : ℕ) (blockhash : String) : Prop :=
  ∃ lower hash, Reached blocks applied slot blockhash lower hash ∧ Unfit blocks applied lower hash

/-- Positions reached from the parent are reached. -/
theorem Reached.of_parent (found : blocks.find slot blockhash = some block) (above : applied.slot < block.parentSlot)
    {lower : ℕ} {hash : String}
    (reached : Reached blocks applied block.parentSlot block.parentBlockhash lower hash) :
    Reached blocks applied slot blockhash lower hash := by
  induction reached with
  | start => exact .link .start found above
  | link _ foundNext aboveNext ih => exact .link ih foundNext aboveNext

/-- A position is the first, or reached from the first parent. -/
theorem Reached.cases_start {lower : ℕ} {hash : String} (reached : Reached blocks applied slot blockhash lower hash) :
    (lower = slot ∧ hash = blockhash) ∨
      ∃ block, blocks.find slot blockhash = some block ∧ applied.slot < block.parentSlot ∧
        Reached blocks applied block.parentSlot block.parentBlockhash lower hash := by
  induction reached with
  | start => exact Or.inl ⟨rfl, rfl⟩
  | link _ found above ih =>
    rcases ih with ⟨rfl, rfl⟩ | ⟨first, foundFirst, aboveFirst, before⟩
    · exact Or.inr ⟨_, found, above, .start⟩
    · exact Or.inr ⟨first, foundFirst, aboveFirst, .link before found above⟩

theorem Descends.parent (descends : Descends blocks applied slot blockhash)
    (found : blocks.find slot blockhash = some block) (above : applied.slot < block.parentSlot) :
    Descends blocks applied block.parentSlot block.parentBlockhash :=
  fun lower hash next reached => descends lower hash next (reached.of_parent found above)

/-! ## The walk -/

/-- A walk that returns has followed a path, or has met an unfit position. -/
theorem walkChain_cases {fuel : ℕ} {chain : List (ℕ × String)} {result : Option (List (ℕ × String))}
    (walked : walkChain blocks applied fuel slot blockhash chain = some result) :
    (∃ path, Path blocks applied slot blockhash path ∧
        result = some (chain ++ path.map fun entry => (entry.1, entry.2.blockhash))) ∨
      Stops blocks applied slot blockhash ∧ result = none := by
  induction fuel generalizing slot blockhash chain with
  | zero => contradiction
  | succ fuel ih =>
    rw [walkChain] at walked
    cases found : blocks.find slot blockhash with
    | none =>
      rw [found] at walked
      cases walked
      exact Or.inr ⟨⟨slot, blockhash, .start, fun block held => by rw [found] at held; contradiction⟩, rfl⟩
    | some block =>
      rw [found] at walked
      dsimp only at walked
      split at walked
      · next reaches =>
        split at walked
        · next linked =>
          cases walked
          exact Or.inl ⟨_, .last found reaches linked, rfl⟩
        · next unlinked =>
          cases walked
          refine Or.inr ⟨⟨slot, blockhash, .start, fun other held => ?_⟩, rfl⟩
          cases found.symm.trans held
          exact Or.inr ⟨reaches, unlinked⟩
      · next elsewhere =>
        split at walked
        · next below =>
          cases walked
          refine Or.inr ⟨⟨slot, blockhash, .start, fun other held => ?_⟩, rfl⟩
          cases found.symm.trans held
          exact Or.inl below
        · next notBelow =>
          have above : applied.slot < block.parentSlot := by omega
          rcases ih walked with ⟨path, isPath, same⟩ | ⟨⟨lower, hash, reached, unfit⟩, same⟩
          · refine Or.inl ⟨_, .link found above isPath, ?_⟩
            rw [same, List.append_assoc]
            rfl
          · exact Or.inr ⟨⟨lower, hash, reached.of_parent found above, unfit⟩, same⟩

/-- A path is walked with fuel for each of its blocks. -/
theorem walkChain_path (isPath : Path blocks applied slot blockhash path) {fuel : ℕ} (enough : path.length ≤ fuel)
    (chain : List (ℕ × String)) :
    walkChain blocks applied fuel slot blockhash chain =
      some (some (chain ++ path.map fun entry => (entry.1, entry.2.blockhash))) := by
  induction isPath generalizing fuel chain with
  | last found reaches linked =>
    obtain ⟨fuel, rfl⟩ : ∃ less, fuel = less + 1 := ⟨fuel - 1, by rw [List.length_singleton] at enough; omega⟩
    rw [walkChain, found]
    simp only [if_pos reaches, if_pos linked, List.map_cons, List.map_nil]
  | link found above _ ih =>
    rw [List.length_cons] at enough
    obtain ⟨fuel, rfl⟩ : ∃ less, fuel = less + 1 := ⟨fuel - 1, by omega⟩
    rw [walkChain, found]
    simp only [if_neg (Nat.ne_of_gt above), if_neg (Nat.not_lt.mpr above.le)]
    rw [ih (by omega), List.append_assoc]
    rfl

/-- An unfit position is met with fuel for the steps to it. -/
theorem walkChain_stops (stops : Stops blocks applied slot blockhash) :
    ∃ enough, ∀ fuel ≥ enough, ∀ chain, walkChain blocks applied fuel slot blockhash chain = some none := by
  obtain ⟨lower, hash, reached, unfit⟩ := stops
  -- from the unfit position back to the start, one more step of fuel each
  have here : ∃ enough, ∀ fuel ≥ enough, ∀ chain, walkChain blocks applied fuel lower hash chain = some none := by
    refine ⟨1, fun fuel enough chain => ?_⟩
    obtain ⟨fuel, rfl⟩ : ∃ less, fuel = less + 1 := ⟨fuel - 1, by omega⟩
    rw [walkChain]
    cases found : blocks.find lower hash with
    | none => rfl
    | some block =>
      dsimp only
      rcases unfit block found with below | ⟨reaches, unlinked⟩
      · rw [if_neg (Nat.ne_of_lt below), if_pos below]
      · rw [if_pos reaches, if_neg unlinked]
  clear unfit
  induction reached with
  | start => exact here
  | link _ found above ih =>
    obtain ⟨enough, returns⟩ := here
    refine ih ⟨enough + 1, fun fuel more chain => ?_⟩
    obtain ⟨fuel, rfl⟩ : ∃ less, fuel = less + 1 := ⟨fuel - 1, by omega⟩
    rw [walkChain, found]
    simp only [if_neg (Nat.ne_of_gt above), if_neg (Nat.not_lt.mpr above.le)]
    exact returns fuel (by omega) _

/-- Going down from every followed block, the walk comes to the end of a path or to an unfit position. -/
theorem path_or_stops (descends : Descends blocks applied slot blockhash) :
    (∃ path, Path blocks applied slot blockhash path) ∨ Stops blocks applied slot blockhash := by
  induction slot using Nat.strong_induction_on generalizing blockhash with
  | _ slot ih =>
    cases found : blocks.find slot blockhash with
    | none => exact Or.inr ⟨slot, blockhash, .start, fun block held => by rw [found] at held; contradiction⟩
    | some block =>
      rcases Nat.lt_trichotomy block.parentSlot applied.slot with below | reaches | above
      · refine Or.inr ⟨slot, blockhash, .start, fun other held => ?_⟩
        cases found.symm.trans held
        exact Or.inl below
      · by_cases linked : block.Linked applied
        · exact Or.inl ⟨_, .last found reaches linked⟩
        · refine Or.inr ⟨slot, blockhash, .start, fun other held => ?_⟩
          cases found.symm.trans held
          exact Or.inr ⟨reaches, linked⟩
      · have lower := descends slot blockhash block .start found above
        rcases ih block.parentSlot lower (descends.parent found above) with
          ⟨path, isPath⟩ | ⟨last, hash, reached, unfit⟩
        · exact Or.inl ⟨_, .link found above isPath⟩
        · exact Or.inr ⟨last, hash, reached.of_parent found above, unfit⟩

/-! ## Ascending application -/

theorem Path.head (isPath : Path blocks applied slot blockhash path) :
    ∃ block rest, path = (slot, block) :: rest ∧ blocks.find slot blockhash = some block := by
  cases isPath with
  | last found _ _ => exact ⟨_, _, rfl, found⟩
  | link found _ _ => exact ⟨_, _, rfl, found⟩

/-- Each block of a path is found at its slot. -/
theorem Path.found (isPath : Path blocks applied slot blockhash path) :
    ∀ entry ∈ path, ∃ hash, blocks.find entry.1 hash = some entry.2 := by
  induction isPath with
  | last found _ _ =>
    intro entry member
    rw [List.mem_singleton.mp member]
    exact ⟨_, found⟩
  | link found _ _ ih =>
    intro entry member
    rcases List.mem_cons.mp member with rfl | later
    · exact ⟨_, found⟩
    · exact ih entry later

/-- Where every followed block goes down, so do the slots of the path. -/
theorem Path.descending (isPath : Path blocks applied slot blockhash path)
    (descends : Descends blocks applied slot blockhash) :
    (∀ entry ∈ path, entry.1 ≤ slot) ∧ (path.map Prod.fst).Pairwise (· > ·) := by
  induction isPath with
  | last found _ _ =>
    refine ⟨fun entry member => ?_, List.pairwise_singleton _ _⟩
    rw [List.mem_singleton.mp member]
  | link found above _ ih =>
    have lower := descends _ _ _ .start found above
    obtain ⟨below, sorted⟩ := ih (descends.parent found above)
    refine ⟨fun entry member => ?_, ?_⟩
    · rcases List.mem_cons.mp member with rfl | later
      · exact le_rfl
      · exact (below entry later).trans lower.le
    · rw [List.map_cons, List.pairwise_cons]
      refine ⟨fun other member => ?_, sorted⟩
      obtain ⟨entry, later, rfl⟩ := List.mem_map.mp member
      exact (below entry later).trans_lt lower

/-- A path of descending slots is all that is followed. -/
theorem Path.descends (isPath : Path blocks applied slot blockhash path)
    (sorted : (path.map Prod.fst).Pairwise (· > ·)) : Descends blocks applied slot blockhash := by
  induction isPath with
  | last found reaches _ =>
    intro lower hash next reached foundNext aboveNext
    rcases reached.cases_start with ⟨rfl, rfl⟩ | ⟨first, foundFirst, aboveFirst, _⟩
    · cases found.symm.trans foundNext
      omega
    · cases found.symm.trans foundFirst
      omega
  | link found above isRest ih =>
    rw [List.map_cons, List.pairwise_cons] at sorted
    intro lower hash next reached foundNext aboveNext
    rcases reached.cases_start with ⟨rfl, rfl⟩ | ⟨first, foundFirst, aboveFirst, before⟩
    · cases found.symm.trans foundNext
      obtain ⟨parent, rest, rfl, _⟩ := isRest.head
      exact sorted.1 _ List.mem_cons_self
    · cases found.symm.trans foundFirst
      exact ih sorted.2 lower hash next before foundNext aboveNext

/-- The first block found is also the first with its own hash. -/
theorem find_own_hash {slotBlocks : List BufferedBlock}
    (found : slotBlocks.find? (fun block => decide (blockhash = "" ∨ block.blockhash = blockhash)) = some block) :
    slotBlocks.find? (fun other => decide (other.blockhash = block.blockhash)) = some block := by
  induction slotBlocks with
  | nil => contradiction
  | cons first rest ih =>
    rw [List.find?_cons] at found ⊢
    cases fits : decide (blockhash = "" ∨ first.blockhash = blockhash) with
    | true =>
      rw [fits] at found
      cases found
      rw [decide_eq_true rfl]
    | false =>
      rw [fits] at found
      have differs : first.blockhash ≠ block.blockhash := by
        intro same
        have named : blockhash = "" ∨ block.blockhash = blockhash := by simpa using List.find?_some found
        rw [← same] at named
        exact of_decide_eq_false fits named
      rw [decide_eq_false differs]
      exact ih found

private theorem lookup_remove_ne (blocks : SlotBlocks) {other : ℕ} (differs : other ≠ slot) (blockhash : String) :
    (blocks.remove slot blockhash).lookup other = blocks.lookup other := by
  unfold SlotBlocks.remove
  cases blocks.lookup slot with
  | none => rfl
  | some slotBlocks => rw [Option.elim_some, HashMap.lookup_insert, if_neg differs]

/-- The store after blocks are applied in order. -/
def applyBlocks (store : MintStore) (entries : List (ℕ × BufferedBlock)) : MintStore :=
  entries.foldl (fun store entry => store.applyBlock entry.1 entry.2.changes) store

def removeBlocks (blocks : SlotBlocks) (entries : List (ℕ × BufferedBlock)) : SlotBlocks :=
  entries.foldl (fun blocks entry => blocks.remove entry.1 entry.2.blockhash) blocks

/-- Blocks of distinct slots are all there when their turn comes. -/
theorem foldlM_applyWalked {entries : List (ℕ × BufferedBlock)} (distinct : (entries.map Prod.fst).Nodup)
    (blocks : SlotBlocks) (found : ∀ entry ∈ entries, ∃ hash, blocks.find entry.1 hash = some entry.2)
    (store : MintStore) :
    (entries.map fun entry => (entry.1, entry.2.blockhash)).foldlM applyWalked (store, blocks) =
      some (applyBlocks store entries, removeBlocks blocks entries) := by
  induction entries generalizing store blocks with
  | nil => rfl
  | cons first rest ih =>
    obtain ⟨fresh, distinct⟩ := List.nodup_cons.mp distinct
    obtain ⟨hash, foundFirst⟩ := found first List.mem_cons_self
    obtain ⟨slotBlocks, held, isFirst⟩ := Option.bind_eq_some_iff.mp foundFirst
    have applies : applyWalked (store, blocks) (first.1, first.2.blockhash) =
        some (store.applyBlock first.1 first.2.changes, blocks.remove first.1 first.2.blockhash) := by
      simp only [applyWalked, held, Option.bind_some, find_own_hash isFirst, Option.map_some]
    have later := ih distinct (blocks.remove first.1 first.2.blockhash) (fun entry member => by
      obtain ⟨hash, foundEntry⟩ := found entry (List.mem_cons_of_mem _ member)
      have differs : entry.1 ≠ first.1 := fun same => fresh (same ▸ List.mem_map_of_mem member)
      refine ⟨hash, ?_⟩
      rw [SlotBlocks.find, lookup_remove_ne _ differs]
      exact foundEntry) (store.applyBlock first.1 first.2.changes)
    rw [List.map_cons, List.foldlM_cons, applies]
    exact later

private theorem lookup_removeBlocks {entries : List (ℕ × BufferedBlock)} {other : ℕ}
    (absent : other ∉ entries.map Prod.fst) (blocks : SlotBlocks) :
    (removeBlocks blocks entries).lookup other = blocks.lookup other := by
  induction entries generalizing blocks with
  | nil => rfl
  | cons first rest ih =>
    rw [List.map_cons, List.mem_cons, not_or] at absent
    have later := ih absent.2 (blocks.remove first.1 first.2.blockhash)
    rw [lookup_remove_ne _ absent.1] at later
    exact later

/-! ## The whole function -/

/-- The function returns; it leaves everything as it was, or has applied the path to the target in ascending
order, and the target is then the applied position and the buffer holds what is above it. -/
def AllOrNothing (cache : ChainCache) (confirmed applied : Applied) : Prop :=
  ∃ result, (∃ enough, ∀ fuel ≥ enough, applyChain fuel cache confirmed applied = some result) ∧
    (result.1 = none → result.2 = cache) ∧
    ∀ count, result.1 = some count → ∃ path, Path cache.blocks applied confirmed.slot confirmed.blockhash path ∧
      (path.reverse.map Prod.fst).Pairwise (· < ·) ∧ count = path.length ∧
      result.2.store = applyBlocks cache.store path.reverse ∧ result.2.applied = confirmed ∧
      ∀ slot, result.2.blocks.lookup slot = if confirmed.slot < slot then cache.blocks.lookup slot else none

private theorem applyChain_path {cache : ChainCache} {confirmed : Applied}
    (isPath : Path cache.blocks applied confirmed.slot confirmed.blockhash path)
    (descends : Descends cache.blocks applied confirmed.slot confirmed.blockhash) {fuel : ℕ}
    (enough : path.length ≤ fuel) :
    applyChain fuel cache confirmed applied = some (some path.length,
      ⟨applyBlocks cache.store path.reverse, confirmed,
        (removeBlocks cache.blocks path.reverse).prune confirmed.slot⟩) := by
  obtain ⟨-, sorted⟩ := isPath.descending descends
  have distinct : (path.reverse.map Prod.fst).Nodup := by
    rw [List.map_reverse, List.nodup_reverse]
    exact sorted.imp fun above => Nat.ne_of_gt above
  have walked := walkChain_path isPath enough []
  have applies := foldlM_applyWalked distinct cache.blocks
    (fun entry member => isPath.found entry (List.mem_reverse.mp member)) cache.store
  rw [List.map_reverse] at applies
  rw [List.nil_append] at walked
  simp only [applyChain, walked, applies, Option.map_some, List.length_map]

/-- Application is all or nothing exactly when every followed block names a parent below itself, or the walk
meets a missing or unfit block. -/
theorem allOrNothing_iff (cache : ChainCache) (confirmed applied : Applied) :
    AllOrNothing cache confirmed applied ↔
      Descends cache.blocks applied confirmed.slot confirmed.blockhash ∨
        Stops cache.blocks applied confirmed.slot confirmed.blockhash := by
  have stopped : Stops cache.blocks applied confirmed.slot confirmed.blockhash →
      AllOrNothing cache confirmed applied := by
    intro stops
    obtain ⟨enough, returns⟩ := walkChain_stops stops
    refine ⟨(none, cache), ⟨enough, fun fuel more => ?_⟩, fun _ => rfl, fun count isSome => by contradiction⟩
    rw [applyChain, returns fuel more []]
  constructor
  · rintro ⟨⟨result, after⟩, ⟨enough, returns⟩, -, applies⟩
    cases result with
    | some count =>
      obtain ⟨path, isPath, sorted, -⟩ := applies count rfl
      rw [List.map_reverse, List.pairwise_reverse] at sorted
      exact Or.inl (isPath.descends sorted)
    | none =>
      have returned := returns enough le_rfl
      rw [applyChain] at returned
      cases walked : walkChain cache.blocks applied enough confirmed.slot confirmed.blockhash [] with
      | none => rw [walked] at returned; contradiction
      | some chain =>
        rw [walked] at returned
        rcases walkChain_cases walked with ⟨path, -, rfl⟩ | ⟨stops, -⟩
        · obtain ⟨_, _, same⟩ := Option.map_eq_some_iff.mp returned
          have counted := congrArg Prod.fst same
          contradiction
        · exact Or.inr stops
  · rintro (descends | stops)
    · rcases path_or_stops descends with ⟨path, isPath⟩ | stops
      · obtain ⟨below, sorted⟩ := isPath.descending descends
        refine ⟨_, ⟨path.length, fun fuel more => applyChain_path isPath descends more⟩, fun isNone => by contradiction,
          fun count same => ⟨path, isPath, ?_, (Option.some.inj same).symm, rfl, rfl, fun slot => ?_⟩⟩
        · rw [List.map_reverse, List.pairwise_reverse]
          exact sorted
        · dsimp only
          rw [SlotBlocks.prune, HashMap.lookup_retain]
          by_cases above : confirmed.slot < slot
          · have absent : slot ∉ path.reverse.map Prod.fst := by
              intro listed
              obtain ⟨entry, member, rfl⟩ := List.mem_map.mp listed
              have := below entry (List.mem_reverse.mp member)
              omega
            rw [lookup_removeBlocks absent, if_pos above, decide_eq_true above]
            cases cache.blocks.lookup slot <;> rfl
          · rw [if_neg above, decide_eq_false above]
            cases (removeBlocks cache.blocks path.reverse).lookup slot <;> rfl
      · exact stopped stops
    · exact stopped stops

/-- Slot 5 holds one block, which names itself as its parent. -/
def selfParent : SlotBlocks := (∅ : SlotBlocks).insert 5 [⟨"a", 5, "a", []⟩]

private theorem walkChain_selfParent (fuel : ℕ) (chain : List (ℕ × String)) :
    walkChain selfParent ⟨3, ""⟩ fuel 5 "a" chain = none := by
  induction fuel generalizing chain with
  | zero => rfl
  | succ fuel ih =>
    have found : selfParent.find 5 "a" = some ⟨"a", 5, "a", []⟩ := by decide +kernel
    rw [walkChain, found]
    exact ih _

/-- The walk over that block never returns. -/
theorem applyChain_never_returns :
    ¬ ∀ cache confirmed applied, AllOrNothing cache confirmed applied := by
  intro always
  obtain ⟨result, ⟨enough, returns⟩, -⟩ := always ⟨.default, ⟨3, ""⟩, selfParent⟩ ⟨5, "a"⟩ ⟨3, ""⟩
  have returned := returns enough le_rfl
  rw [applyChain, walkChain_selfParent] at returned
  contradiction

end Cloudbreak.Model.MintCache
