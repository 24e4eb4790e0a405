import Cloudbreak.Model.Blockhashes.RecentBlockhashes
import Cloudbreak.ToMathlib.Run

/-! # Pruning does not change the answers

The rows within the retention of the newest slot are those of the table without pruning. A read that finds enough of
them up to its slot answers as if nothing had been pruned.
-/

namespace Cloudbreak.Model.Blockhashes

open Cloudbreak.ToMathlib

variable {table whole : List RecentBlockhash} {row other : RecentBlockhash}

private theorem mem_insertRow : other ∈ insertRow table row ↔ other ∈ table ∧ other.slot ≠ row.slot ∨ other = row := by
  rw [insertRow, List.mem_append, List.mem_filter, decide_eq_true_iff, List.mem_singleton]

private theorem nodup_insertRow (distinct : (table.map RecentBlockhash.slot).Nodup) :
    ((insertRow table row).map RecentBlockhash.slot).Nodup := by
  rw [insertRow, List.map_append, List.map_singleton, List.nodup_append_comm, List.singleton_append, List.nodup_cons]
  refine ⟨fun member => ?_, distinct.sublist (List.filter_sublist.map _)⟩
  obtain ⟨other, among, same⟩ := List.mem_map.mp member
  exact of_decide_eq_true (List.mem_filter.mp among).2 same

theorem nodup_filter_slots {keep : RecentBlockhash → Bool} (distinct : (table.map RecentBlockhash.slot).Nodup) :
    ((table.filter keep).map RecentBlockhash.slot).Nodup :=
  distinct.sublist (List.filter_sublist.map _)

private theorem nodup_insertRecentBlockhash (distinct : (table.map RecentBlockhash.slot).Nodup)
    (outcome : InsertOutcome) :
    ((insertRecentBlockhash table row outcome).map RecentBlockhash.slot).Nodup := by
  unfold insertRecentBlockhash
  split
  · exact distinct
  · cases outcome with
    | pruned => exact nodup_filter_slots (nodup_insertRow distinct)
    | inserted => exact nodup_insertRow distinct
    | failed => exact distinct

/-- From the retention of the row on, pruning makes no difference. -/
theorem mem_insertRecentBlockhash_iff {low : ℕ} (reach : row.slot - recentBlockhashRetentionSlots ≤ low)
    (agree : ∀ other, low ≤ other.slot → (other ∈ table ↔ other ∈ whole)) (outcome : InsertOutcome)
    (above : low ≤ other.slot) : other ∈ insertRecentBlockhash table row outcome ↔
      other ∈ insertRecentBlockhash whole row (if outcome = .failed then .failed else .inserted) := by
  have inserted : other ∈ insertRow table row ↔ other ∈ insertRow whole row := by
    rw [mem_insertRow, mem_insertRow, agree other above]
  unfold insertRecentBlockhash
  split
  · exact agree other above
  · cases outcome with
    | pruned =>
      refine (List.mem_filter.trans (and_iff_left ?_)).trans inserted
      exact decide_eq_true (reach.trans above)
    | inserted => exact inserted
    | failed => exact agree other above

namespace BlockhashStore

variable {store : BlockhashStore}

/-- The two tables have distinct slots and agree within the retention of the newest slot. -/
structure Retains (store : BlockhashStore) : Prop where
  distinct : (store.table.map RecentBlockhash.slot).Nodup
  distinctWhole : (store.whole.map RecentBlockhash.slot).Nodup
  agree : ∀ row, store.newest - recentBlockhashRetentionSlots ≤ row.slot →
    (row ∈ store.table ↔ row ∈ store.whole)

theorem Retains.step (retains : store.Retains) {event : BlockhashEvent} {next : BlockhashStore}
    (moves : store.step event = some next) : next.Retains := by
  cases moves
  refine ⟨nodup_insertRecentBlockhash retains.distinct _, nodup_insertRecentBlockhash retains.distinctWhole _, ?_⟩
  intro row above
  have newer : event.row.slot ≤ max store.newest event.row.slot := le_max_right _ _
  have older : store.newest ≤ max store.newest event.row.slot := le_max_left _ _
  exact mem_insertRecentBlockhash_iff (Nat.sub_le_sub_right newer _)
    (fun other within => retains.agree other ((Nat.sub_le_sub_right older _).trans within)) event.outcome above

/-- The latest rows up to a slot, when enough of them are within the retention. -/
theorem Retains.latest_upTo (retains : store.Retains) {slot count : ℕ}
    (enough : count ≤ (store.retained slot).length) :
    latest RecentBlockhash.slot count (upTo store.table slot) =
      latest RecentBlockhash.slot count (upTo store.whole slot) := by
  refine latest_eq_of_agree (nodup_filter_slots retains.distinct) (nodup_filter_slots retains.distinctWhole) ?_ enough
  intro row above
  rw [upTo, upTo, List.mem_filter, List.mem_filter, retains.agree row above]

/-- In every run, with blocks in any order and statements that fail, a transaction's blockhash is judged as if nothing
had been pruned, when 150 blocks up to the slot are within the retention of the newest one. For the latest blockhash
one such block is enough. -/
theorem recent_blockhashes_survive_pruning {events : List BlockhashEvent}
    (run : Run new step (fun _ _ _ => True) events store) (slot : ℕ) :
    (maxProcessingAge ≤ (store.retained slot).length → ∀ blockhash,
      blockhashIsRecent store.table slot blockhash = blockhashIsRecent store.whole slot blockhash) ∧
    (1 ≤ (store.retained slot).length →
      latestBlockhash store.table slot = latestBlockhash store.whole slot) := by
  have retains : store.Retains := by
    refine run.stateInvariant ⟨List.nodup_nil, List.nodup_nil, fun _ _ => Iff.rfl⟩ ?_
    intro _ _ _ _ retains _ moves
    exact retains.step moves
  refine ⟨fun enough blockhash => ?_, fun enough => ?_⟩
  · rw [blockhashIsRecent, blockhashIsRecent, retains.latest_upTo enough]
  · rw [latestBlockhash, latestBlockhash, retains.latest_upTo enough]

/-- The 149 blocks from slot 850 come after block 5, which block 1000 prunes. Block 1001 cannot be stored. -/
private def upToThousand : List BlockhashEvent :=
  ⟨⟨5, "h5", none⟩, .pruned⟩ :: (List.range 149).map (fun slot => ⟨⟨850 + slot, "early", none⟩, .inserted⟩) ++
    [⟨⟨1000, "h1000", some 990⟩, .pruned⟩, ⟨⟨1001, "h1001", none⟩, .failed⟩]

private def atThousand : BlockhashStore :=
  (Run.replay step (fun _ _ _ => True) [] new upToThousand).getD new

theorem latest_blockhash_of_thousand : ∃ store : BlockhashStore,
    Run new step (fun _ _ _ => True) upToThousand store ∧
      store.table.length = 150 ∧ store.whole.length = 151 ∧
      blockhashIsRecent store.table 1002 "early" = blockhashIsRecent store.whole 1002 "early" ∧
      latestBlockhash store.table 1002 = latestBlockhash store.whole 1002 := by
  have run : Run new step (fun _ _ _ => True) upToThousand atThousand :=
    Run.replayed (Option.getD_of_ne_none (by decide +kernel) _).symm
  have shown : atThousand.table.length = 150 ∧ atThousand.whole.length = 151 ∧
      maxProcessingAge ≤ (atThousand.retained 1002).length := by decide +kernel
  have survive := recent_blockhashes_survive_pruning run 1002
  exact ⟨atThousand, run, shown.1, shown.2.1, survive.1 shown.2.2 "early",
    survive.2 (le_trans (by decide) shown.2.2)⟩

end BlockhashStore

end Cloudbreak.Model.Blockhashes
