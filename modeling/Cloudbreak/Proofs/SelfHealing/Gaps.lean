import Cloudbreak.ToMathlib.Run
import Cloudbreak.Proofs.SelfHealing.Chain

/-! # The gaps list is exact

In a single chain a block names the newest received one as its parent exactly when nothing was missed in
between. So the list holds every missed block, and only ranges that a missed block lies in.
-/

namespace Cloudbreak.Model.SelfHealing

open Cloudbreak.ToMathlib

/-- The blocks that moved the received slot, newest first. A block at slot 0 moves nothing. -/
def inOrder (blocks : List ChainBlock) : List ChainBlock :=
  blocks.foldl
    (fun front block => if front.head?.elim 0 ChainBlock.slot < block.slot then block :: front else front) []

private theorem inOrder_concat (blocks : List ChainBlock) (block : ChainBlock) :
    inOrder (blocks ++ [block]) =
      if (inOrder blocks).head?.elim 0 ChainBlock.slot < block.slot then block :: inOrder blocks
      else inOrder blocks := by
  rw [inOrder, List.foldl_append, List.foldl_cons, List.foldl_nil]
  rfl

theorem received_concat (arrivals : List Arrival) (arrival : Arrival) :
    received (arrivals ++ [arrival]) = received arrivals ++ arrival.block?.toList := by
  rw [received, List.filterMap_append]
  cases arrival <;> rfl

namespace Detector

variable {chain : SingleChain} {arrivals : List Arrival} {detector : Detector} {block : ChainBlock}

/-- The gaps list against what arrived. -/
structure Exact (chain : SingleChain) (arrivals : List Arrival) (detector : Detector) : Prop where
  last : detector.lastSlotReceived = (inOrder (received arrivals)).head?.elim 0 ChainBlock.slot
  newest : ∀ newest, (inOrder (received arrivals)).head? = some newest →
    detector.lastBlockhashReceived = newest.blockhash ∧ newest ∈ received arrivals ∧ 0 < newest.slot
  members : ∀ block ∈ received arrivals, block ∈ chain.blocks
  bound : ∀ block ∈ received arrivals, block.slot ≤ detector.lastSlotReceived
  first : (inOrder (received arrivals)).getLast? = (received arrivals).find? fun block => decide (0 < block.slot)
  below : ∀ slot ∈ detector.gapsList, slot < detector.lastSlotReceived
  distinct : detector.gapsList.Nodup
  absent : ∀ block ∈ received arrivals, block.slot ∉ detector.gapsList
  covered : ∀ first, (inOrder (received arrivals)).getLast? = some first → ∀ block ∈ chain.blocks,
    first.slot < block.slot → block.slot < detector.lastSlotReceived → block ∉ received arrivals →
    .repaired block.slot ∉ arrivals → block.slot ∈ detector.gapsList
  queued : ∀ slot ∈ detector.gapsList, ∃ later earlier, [later, earlier] <:+: inOrder (received arrivals) ∧
    earlier.slot < slot ∧ slot < later.slot ∧
    ∃ block ∈ chain.blocks, earlier.slot < block.slot ∧ block.slot < later.slot

theorem Exact.start (chain : SingleChain) : Exact chain [] new where
  last := rfl
  newest := by simp [received, inOrder]
  members := by simp [received]
  bound := by simp [received]
  first := rfl
  below := by simp [new]
  distinct := List.nodup_nil
  absent := by simp [received]
  covered := by simp [received, inOrder]
  queued := by simp [new]

theorem mem_removeSlotFromGapsList {detector : Detector} {slot other : ℕ} :
    other ∈ (detector.removeSlotFromGapsList slot).gapsList ↔ other ∈ detector.gapsList ∧ other ≠ slot := by
  simp [removeSlotFromGapsList]

theorem Exact.repaired (exact_ : Exact chain arrivals detector) (slot : ℕ) :
    Exact chain (arrivals ++ [.repaired slot]) (detector.removeSlotFromGapsList slot) := by
  have same : received (arrivals ++ [.repaired slot]) = received arrivals := by
    rw [received_concat]
    exact List.append_nil _
  constructor
  case last => rw [same]; exact exact_.last
  case newest => rw [same]; exact exact_.newest
  case members => rw [same]; exact exact_.members
  case bound => rw [same]; exact exact_.bound
  case first => rw [same]; exact exact_.first
  case below => exact fun other member => exact_.below other (mem_removeSlotFromGapsList.mp member).1
  case distinct => exact exact_.distinct.filter _
  case absent =>
    rw [same]
    exact fun block isReceived member => exact_.absent block isReceived (mem_removeSlotFromGapsList.mp member).1
  case covered =>
    rw [same]
    intro first isFirst block isBlock above under missed notRepaired
    rw [List.mem_append, List.mem_singleton, not_or] at notRepaired
    refine mem_removeSlotFromGapsList.mpr
      ⟨exact_.covered first isFirst block isBlock above under missed notRepaired.1, fun isSlot => ?_⟩
    exact notRepaired.2 (congrArg Arrival.repaired isSlot)
  case queued =>
    rw [same]
    exact fun other member => exact_.queued other (mem_removeSlotFromGapsList.mp member).1

/-- A block at or below the last received slot only leaves the list. -/
theorem Exact.late (exact_ : Exact chain arrivals detector) (isBlock : block ∈ chain.blocks)
    (low : block.slot ≤ detector.lastSlotReceived) :
    Exact chain (arrivals ++ [.received block]) (detector.removeSlotFromGapsList block.slot) := by
  have isReceived : received (arrivals ++ [.received block]) = received arrivals ++ [block] := received_concat _ _
  have sameFront : inOrder (received arrivals ++ [block]) = inOrder (received arrivals) := by
    rw [inOrder_concat, if_neg (by rw [← exact_.last]; omega)]
  have cases_ : ∀ other ∈ received arrivals ++ [block], other ∈ received arrivals ∨ other = block :=
    fun other member => (List.mem_append.mp member).imp_right List.mem_singleton.mp
  constructor
  case last => rw [isReceived, sameFront]; exact exact_.last
  case newest =>
    rw [isReceived, sameFront]
    intro newest isNewest
    obtain ⟨hash, member, positive⟩ := exact_.newest newest isNewest
    exact ⟨hash, List.mem_append_left _ member, positive⟩
  case members =>
    rw [isReceived]
    intro other member
    rcases cases_ other member with before | rfl
    · exact exact_.members other before
    · exact isBlock
  case bound =>
    rw [isReceived]
    intro other member
    rcases cases_ other member with before | rfl
    · exact exact_.bound other before
    · exact low
  case first =>
    rw [isReceived, sameFront, exact_.first, List.find?_append]
    cases found : (received arrivals).find? fun block => decide (0 < block.slot) with
    | some first => rfl
    | none =>
      -- nothing above slot 0 arrived, so the last received slot is still 0
      have empty : inOrder (received arrivals) = [] := by
        rw [← List.getLast?_eq_none_iff, exact_.first, found]
      have zero : block.slot = 0 := by
        have := exact_.last
        rw [empty] at this
        simp only [List.head?_nil, Option.elim_none] at this
        omega
      simp [zero]
  case below => exact fun other member => exact_.below other (mem_removeSlotFromGapsList.mp member).1
  case distinct => exact exact_.distinct.filter _
  case absent =>
    rw [isReceived]
    intro other member inList
    obtain ⟨wasThere, differs⟩ := mem_removeSlotFromGapsList.mp inList
    rcases cases_ other member with before | rfl
    · exact exact_.absent other before wasThere
    · exact differs rfl
  case covered =>
    rw [isReceived, sameFront]
    intro first isFirst other isOther above under missed notRepaired
    rw [List.mem_append, List.mem_singleton, not_or] at missed
    refine mem_removeSlotFromGapsList.mpr ⟨exact_.covered first isFirst other isOther above under missed.1
      (fun before => notRepaired (List.mem_append_left _ before)), fun sameSlot => ?_⟩
    exact missed.2 (SingleChain.eq_of_slot_eq isOther isBlock sameSlot)
  case queued =>
    rw [isReceived, sameFront]
    exact fun other member => exact_.queued other (mem_removeSlotFromGapsList.mp member).1

/-- With a first block above slot 0 something has been received. -/
private theorem Exact.last_ne_zero (exact_ : Exact chain arrivals detector) {first : ChainBlock}
    (isFirst : (inOrder (received arrivals)).getLast? = some first) : detector.lastSlotReceived ≠ 0 := by
  rw [exact_.first] at isFirst
  have bound := exact_.bound first (List.mem_of_find?_eq_some isFirst)
  have positive : 0 < first.slot := by simpa using List.find?_some isFirst
  omega

/-- The block of the chain at the last received slot is the one that was received there. -/
private theorem Exact.received_at_last (exact_ : Exact chain arrivals detector)
    (started : detector.lastSlotReceived ≠ 0) {other : ChainBlock} (isOther : other ∈ chain.blocks)
    (level : other.slot = detector.lastSlotReceived) : other ∈ received arrivals := by
  cases isHead : (inOrder (received arrivals)).head? with
  | none =>
    rw [exact_.last, isHead] at started
    exact absurd rfl started
  | some newest =>
    obtain ⟨_, member, _⟩ := exact_.newest newest isHead
    rw [exact_.last, isHead, Option.elim_some] at level
    exact SingleChain.eq_of_slot_eq isOther (exact_.members newest member) level ▸ member

/-- A gap slot that the block shows lies between the block and the one received before it. -/
private theorem Exact.queued_before (exact_ : Exact chain arrivals detector)
    (started : detector.lastSlotReceived ≠ 0) {slot : ℕ} (lower : detector.lastSlotReceived < slot)
    (upper : slot < block.slot)
    (real : ∃ other ∈ chain.blocks, detector.lastSlotReceived < other.slot ∧ other.slot < block.slot) :
    ∃ later earlier, [later, earlier] <:+: block :: inOrder (received arrivals) ∧ earlier.slot < slot ∧
      slot < later.slot ∧ ∃ other ∈ chain.blocks, earlier.slot < other.slot ∧ other.slot < later.slot := by
  have last := exact_.last
  cases isFront : inOrder (received arrivals) with
  | nil =>
    rw [isFront] at last
    exact absurd last started
  | cons newest rest =>
    rw [isFront, List.head?_cons, Option.elim_some] at last
    rw [last] at lower real
    exact ⟨block, newest, ⟨[], rest, rfl⟩, lower, upper, real⟩

/-- The blocks missed since the first one were queued before, or lie in the gap that the block shows. -/
private theorem Exact.missed_queued (exact_ : Exact chain arrivals detector) {slots : List ℕ}
    (missed : detector.lastSlotReceived ≠ 0 → ∀ other ∈ chain.blocks, detector.lastSlotReceived < other.slot →
      other.slot < block.slot → other.slot ∈ slots) {first other : ChainBlock}
    (isFirst : (block :: inOrder (received arrivals)).getLast? = some first) (isOther : other ∈ chain.blocks)
    (above : first.slot < other.slot) (under : other.slot < block.slot) (unseen : other ∉ received arrivals)
    (notRepaired : .repaired other.slot ∉ arrivals) : other.slot ∈ detector.gapsList ++ slots := by
  cases wasFirst : (inOrder (received arrivals)).getLast? with
  | none =>
    rw [List.getLast?_cons, wasFirst, Option.getD_none, Option.some.injEq] at isFirst
    subst isFirst
    omega
  | some oldFirst =>
    rw [List.getLast?_cons, wasFirst, Option.getD_some, Option.some.injEq] at isFirst
    subst isFirst
    have started := exact_.last_ne_zero wasFirst
    rcases lt_trichotomy other.slot detector.lastSlotReceived with lower | level | higher
    · exact List.mem_append_left _ (exact_.covered oldFirst wasFirst other isOther above lower unseen notRepaired)
    · exact absurd (exact_.received_at_last started isOther level) unseen
    · exact List.mem_append_right _ (missed started other isOther higher under)

/-- A block above the last received slot moves it, with the new gap slots queued if it shows a gap. -/
theorem Exact.advance (exact_ : Exact chain arrivals detector) (isBlock : block ∈ chain.blocks)
    (high : detector.lastSlotReceived < block.slot) {next : Detector} (moved : next.lastSlotReceived = block.slot)
    (hash : next.lastBlockhashReceived = block.blockhash) {slots : List ℕ}
    (gaps : next.gapsList = detector.gapsList ++ slots) (fresh : slots.Nodup)
    (within : ∀ slot ∈ slots, detector.lastSlotReceived < slot ∧ slot < block.slot)
    (missed : detector.lastSlotReceived ≠ 0 → ∀ other ∈ chain.blocks, detector.lastSlotReceived < other.slot →
      other.slot < block.slot → other.slot ∈ slots)
    (real : slots ≠ [] → detector.lastSlotReceived ≠ 0 ∧
      ∃ other ∈ chain.blocks, detector.lastSlotReceived < other.slot ∧ other.slot < block.slot) :
    Exact chain (arrivals ++ [.received block]) next := by
  have isReceived : received (arrivals ++ [.received block]) = received arrivals ++ [block] := received_concat _ _
  have newFront : inOrder (received arrivals ++ [block]) = block :: inOrder (received arrivals) := by
    rw [inOrder_concat, if_pos (by rw [← exact_.last]; exact high)]
  have cases_ : ∀ other ∈ received arrivals ++ [block], other ∈ received arrivals ∨ other = block :=
    fun other member => (List.mem_append.mp member).imp_right List.mem_singleton.mp
  constructor
  case last => rw [isReceived, newFront, moved]; rfl
  case newest =>
    rw [isReceived, newFront]
    intro newest isNewest
    cases isNewest
    exact ⟨hash, by simp, by omega⟩
  case members =>
    rw [isReceived]
    intro other member
    rcases cases_ other member with before | rfl
    · exact exact_.members other before
    · exact isBlock
  case bound =>
    rw [isReceived, moved]
    intro other member
    rcases cases_ other member with before | rfl
    · exact (exact_.bound other before).trans high.le
    · exact le_rfl
  case first =>
    rw [isReceived, newFront, List.find?_append, List.getLast?_cons, exact_.first]
    cases found : (received arrivals).find? fun block => decide (0 < block.slot) with
    | some first => rfl
    | none =>
      have positive : 0 < block.slot := by omega
      simp [positive]
  case below =>
    rw [gaps, moved]
    intro slot member
    rcases List.mem_append.mp member with before | isNew
    · exact (exact_.below slot before).trans high
    · exact (within slot isNew).2
  case distinct =>
    rw [gaps]
    refine exact_.distinct.append fresh fun slot before isNew => ?_
    have := exact_.below slot before
    have := (within slot isNew).1
    omega
  case absent =>
    rw [isReceived, gaps]
    intro other member inList
    rcases cases_ other member with before | rfl
    · rcases List.mem_append.mp inList with wasThere | isNew
      · exact exact_.absent other before wasThere
      · have := exact_.bound other before
        have := (within _ isNew).1
        omega
    · rcases List.mem_append.mp inList with wasThere | isNew
      · have := exact_.below _ wasThere
        omega
      · have := (within _ isNew).2
        omega
  case covered =>
    rw [isReceived, newFront, gaps, moved]
    intro first isFirst other isOther above under unseen notRepaired
    rw [List.mem_append, List.mem_singleton, not_or] at unseen
    exact exact_.missed_queued missed isFirst isOther above under unseen.1
      fun before => notRepaired (List.mem_append_left _ before)
  case queued =>
    rw [isReceived, newFront, gaps]
    intro slot member
    rcases List.mem_append.mp member with before | isNew
    · obtain ⟨later, earlier, consecutive, rest⟩ := exact_.queued slot before
      exact ⟨later, earlier, consecutive.trans (List.suffix_cons _ _).isInfix, rest⟩
    · obtain ⟨started, between⟩ := real (List.ne_nil_of_mem isNew)
      exact exact_.queued_before started (within slot isNew).1 (within slot isNew).2 between

theorem Exact.received (exact_ : Exact chain arrivals detector) (isBlock : block ∈ chain.blocks) :
    Exact chain (arrivals ++ [.received block]) (detector.checkSlotGap block) := by
  by_cases low : block.slot ≤ detector.lastSlotReceived
  · rw [checkSlotGap, verdict, if_pos low]
    exact exact_.late isBlock low
  have high : detector.lastSlotReceived < block.slot := Nat.lt_of_not_le low
  -- with the newest received block at hand, a parent link decides whether a block was missed
  have adjacent : detector.lastSlotReceived ≠ 0 →
      ((block.parentSlot = detector.lastSlotReceived ∧ detector.lastBlockhashReceived = block.parentBlockhash) ↔
        ∀ other ∈ chain.blocks, detector.lastSlotReceived < other.slot → block.slot ≤ other.slot) := by
    intro received_
    cases isHead : (inOrder (SelfHealing.received arrivals)).head? with
    | none =>
      rw [exact_.last, isHead] at received_
      exact absurd rfl received_
    | some newest =>
      obtain ⟨hash, member, _⟩ := exact_.newest newest isHead
      have isLast : detector.lastSlotReceived = newest.slot := by rw [exact_.last, isHead, Option.elim_some]
      rw [isLast, hash, ← SingleChain.isParent_iff_adjacent isBlock (exact_.members newest member) (isLast ▸ high)]
      exact and_congr_right fun _ => eq_comm
  by_cases far : detector.lastSlotReceived ≠ 0 ∧ block.slot > detector.lastSlotReceived + 1
  · by_cases builds : block.parentSlot = detector.lastSlotReceived ∧
        detector.lastBlockhashReceived = block.parentBlockhash
    · rw [checkSlotGap, verdict, if_neg low, if_pos far, if_pos builds]
      refine exact_.advance isBlock high rfl rfl (List.append_nil _).symm List.nodup_nil (by simp) ?_ (by simp)
      intro received_ other isOther above under
      have := (adjacent received_).mp builds other isOther above
      omega
    · rw [checkSlotGap, verdict, if_neg low, if_pos far, if_neg builds]
      refine exact_.advance isBlock high rfl rfl rfl List.nodup_range' ?_ ?_ ?_
      · intro slot member
        have := List.mem_range'_1.mp member
        omega
      · intro _ other _ above under
        exact List.mem_range'_1.mpr (by omega)
      · intro _
        have notAdjacent := mt (adjacent far.1).mpr builds
        push Not at notAdjacent
        exact ⟨far.1, notAdjacent⟩
  · rw [checkSlotGap, verdict, if_neg low, if_neg far]
    refine exact_.advance isBlock high rfl rfl (List.append_nil _).symm List.nodup_nil (by simp) ?_ (by simp)
    intro received_ other _ above under
    have := not_and.mp far received_
    omega

/-- Blocks of one chain in any order of arrival, and repairs at any time: every missed block between the first
received slot above 0 and the highest one is queued until it arrives or is repaired, a queued slot lies in a
range in which a real block was missed, no slot is queued twice and no received slot is queued. -/
theorem gaps_list_is_exact
    (run : Run new step (fun _ _ arrival => ∀ block, arrival = .received block → block ∈ chain.blocks)
      arrivals detector) :
    (∀ first, (SelfHealing.received arrivals).find? (fun block => decide (0 < block.slot)) = some first →
      ∀ block ∈ chain.blocks, first.slot < block.slot →
        (∃ highest ∈ SelfHealing.received arrivals, block.slot < highest.slot) →
        block ∉ SelfHealing.received arrivals → .repaired block.slot ∉ arrivals →
        block.slot ∈ detector.gapsList) ∧
    (∀ slot ∈ detector.gapsList, ∃ later earlier,
      [later, earlier] <:+: inOrder (SelfHealing.received arrivals) ∧ earlier.slot < slot ∧ slot < later.slot ∧
      ∃ block ∈ chain.blocks, earlier.slot < block.slot ∧ block.slot < later.slot) ∧
    detector.gapsList.Nodup ∧ ∀ block ∈ SelfHealing.received arrivals, block.slot ∉ detector.gapsList := by
  have exact_ : Exact chain arrivals detector := by
    refine Run.invariant (Exact.start chain) ?_ run
    intro arrivals detector arrival next exact_ isBlock moves
    cases arrival with
    | received block =>
      cases moves
      exact exact_.received (isBlock block rfl)
    | repaired slot =>
      cases moves
      exact exact_.repaired slot
  refine ⟨?_, exact_.queued, exact_.distinct, exact_.absent⟩
  rintro first isFirst block isBlock above ⟨highest, member, under⟩ missed notRepaired
  rw [← exact_.first] at isFirst
  exact exact_.covered first isFirst block isBlock above (under.trans_le (exact_.bound highest member)) missed
    notRepaired

section Examples

private def numbered (slot : ℕ) : ChainBlock := ⟨slot, toString slot, slot - 1, toString (slot - 1)⟩

/-- The blocks from a slot on, each on the slot before it. -/
private def fiveFrom (slot : ℕ) : List ChainBlock := (List.range' slot 5).map numbered

private def fromTen : SingleChain := ⟨fiveFrom 10, by decide +kernel, by decide +kernel, by decide +kernel⟩

private def skipping : List Arrival := [.received (numbered 10), .received (numbered 13), .received (numbered 12)]

theorem gaps_list_is_exact_skipping :
    ∃ detector, Run new step (fun _ _ arrival => ∀ block, arrival = .received block → block ∈ fromTen.blocks)
      skipping detector ∧ 11 ∈ detector.gapsList ∧ detector.gapsList.Nodup := by
  have run : Run new step (fun _ _ arrival => ∀ block, arrival = .received block → block ∈ fromTen.blocks)
      skipping (((new.checkSlotGap (numbered 10)).checkSlotGap (numbered 13)).checkSlotGap (numbered 12)) := by
    refine .step (.step (.step .start ?_ rfl) ?_ rfl) ?_ rfl
    all_goals
      intro block isBlock
      cases isBlock
      decide +kernel
  refine ⟨_, run, ?_, (gaps_list_is_exact run).2.2.1⟩
  exact (gaps_list_is_exact run).1 (numbered 10) (by decide +kernel) (numbered 11) (by decide +kernel)
    (by decide +kernel) ⟨numbered 13, by decide +kernel, by decide +kernel⟩ (by decide +kernel) (by decide +kernel)

private def fromZero : SingleChain := ⟨fiveFrom 0, by decide +kernel, by decide +kernel, by decide +kernel⟩

/-- A block received at slot 0 counts as none received, so a block missed right after it is not queued. -/
theorem first_slot_zero_is_not_seen :
    ¬∀ (chain : SingleChain) (arrivals : List Arrival) (detector : Detector),
      Run new step (fun _ _ arrival => ∀ block, arrival = .received block → block ∈ chain.blocks)
        arrivals detector →
      ∀ first, (SelfHealing.received arrivals).head? = some first →
        ∀ block ∈ chain.blocks, first.slot < block.slot →
          (∃ highest ∈ SelfHealing.received arrivals, block.slot < highest.slot) →
          block ∉ SelfHealing.received arrivals → .repaired block.slot ∉ arrivals →
          block.slot ∈ detector.gapsList := by
  intro claim
  have run : Run new step (fun _ _ arrival => ∀ block, arrival = .received block → block ∈ fromZero.blocks)
      [.received (numbered 0), .received (numbered 2)]
      ((new.checkSlotGap (numbered 0)).checkSlotGap (numbered 2)) := by
    refine .step (.step .start ?_ rfl) ?_ rfl
    all_goals
      intro block isBlock
      cases isBlock
      decide +kernel
  have queued := claim fromZero _ _ run (numbered 0) (by decide +kernel) (numbered 1) (by decide +kernel)
    (by decide +kernel) ⟨numbered 2, by decide +kernel, by decide +kernel⟩ (by decide +kernel) (by decide +kernel)
  exact absurd queued (by decide +kernel)

end Examples

end Detector

end Cloudbreak.Model.SelfHealing
