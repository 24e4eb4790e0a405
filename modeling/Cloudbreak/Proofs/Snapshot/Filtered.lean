import Cloudbreak.Model.Snapshot.Filtered
import Cloudbreak.Proofs.Snapshot.LtHash

/-! # The excluded accounts leave the total once

The newest live versions split into those of the excluded programs and the kept ones. The single pass sums the
excluded ones, so the total without them is the hash of the kept accounts, and the number of the live
accounts without them is the number of the kept ones.
-/

namespace Cloudbreak.Model.Snapshot

open Cloudbreak.ToMathlib

variable {expand : List UInt8 → LtHash} {snapshotFiles : List AccountFileData}
  {programs : AccountSelectorConfig}

/-- The version is live. -/
def live (version : Stamp × StoredAccount) : Bool := decide (version.2.lamports > 0)

/-- The version is live and of an excluded program. -/
def excludes (programs : AccountSelectorConfig) (version : Stamp × StoredAccount) : Bool :=
  !programs.isProgramSelected version.2.owner && live version

/-- The newest versions that satisfy a predicate of their own. -/
def newestOf (keep : Stamp × StoredAccount → Bool) (items : List (Stamp × StoredAccount)) :
    List (Stamp × StoredAccount) :=
  items.filter fun version => keep version && decide (IsNewest versionKey Prod.fst items version)

/-- The accounts whose newest version is live. -/
def livePubkeys (snapshotFiles : List AccountFileData) : Finset Pubkey :=
  ((versions snapshotFiles).map versionKey).toFinset.filter fun pubkey =>
    (newestVersion snapshotFiles pubkey).any fun account => decide (account.lamports > 0)

/-- The hash of every live account at its newest version. -/
def liveLtHash (expand : List UInt8 → LtHash) (snapshotFiles : List AccountFileData) : LtHash :=
  ∑ pubkey ∈ livePubkeys snapshotFiles, (newestVersion snapshotFiles pubkey).elim 0 (ltHashAccount expand)

/-- Without any program listed all are selected. -/
theorem liveLtHash_eq (wellFormed : WellFormed snapshotFiles) :
    liveLtHash expand snapshotFiles = (hashOf expand (newestOf live (versions snapshotFiles))).1 :=
  congrArg Prod.fst (@keptLtHash_eq expand snapshotFiles ⟨[], []⟩ wellFormed)

/-- The live versions are the kept and the excluded ones. -/
theorem hashOf_live (expand : List UInt8 → LtHash) (programs : AccountSelectorConfig)
    (items : List (Stamp × StoredAccount)) :
    hashOf expand (newestOf live items) =
      hashOf expand (kept programs items) + hashOf expand (newestOf (excludes programs) items) := by
  have keptLive : kept programs items =
      (newestOf live items).filter fun version => programs.isProgramSelected version.2.owner := by
    rw [newestOf, List.filter_filter, kept]
    refine List.filter_congr fun version _ => ?_
    rw [counts, live, Bool.and_assoc]
  have excludedLive : newestOf (excludes programs) items =
      (newestOf live items).filter fun version => !programs.isProgramSelected version.2.owner := by
    rw [newestOf, newestOf, List.filter_filter]
    refine List.filter_congr fun version _ => ?_
    rw [excludes, Bool.and_assoc]
  rw [keptLive, excludedLive, ← hashOf_append]
  exact hashOf_perm (List.filter_append_perm _ _).symm

/-- In exclude mode the pass over a descending list of versions sums the excluded ones and counts the live
ones. -/
theorem foldl_visit_excluded (expand : List UInt8 → LtHash) (excluding : programs.includePrograms = [])
    {items : List (Stamp × StoredAccount)}
    (descending : items.Pairwise fun first second => second.1 ≤ first.1)
    (oneEach : OneEach versionKey Prod.fst items) :
    let pass := items.foldl (fun pass version => SinglePass.visit expand programs pass version.2) ⟨∅, 0, 0, 0⟩
    pass.seen = (items.map versionKey).toFinset ∧
      (pass.aggregate, pass.count) = hashOf expand (newestOf (excludes programs) items) ∧
      pass.liveTotal = (newestOf live items).length := by
  induction items using List.reverseRecOn with
  | nil => exact ⟨rfl, rfl, rfl⟩
  | append_singleton items last ih =>
    obtain ⟨before, -, below⟩ := List.pairwise_append.mp descending
    have belowLast : ∀ item ∈ items, last.1 ≤ item.1 := fun item member =>
      below item member last (List.mem_singleton_self _)
    have oneEachBefore : OneEach versionKey Prod.fst items := by
      rw [OneEach, List.map_append] at oneEach
      exact oneEach.of_append_left
    obtain ⟨seen, hashed, total⟩ := ih before oneEachBefore
    have grown : ∀ keep, newestOf keep (items ++ [last]) =
        newestOf keep items ++ if keep last ∧ versionKey last ∉ items.map versionKey then [last] else [] :=
      fun keep => filter_newest_append belowLast oneEach keep
    rw [List.foldl_append, List.foldl_cons, List.foldl_nil, grown, grown, hashOf_append, ← hashed,
      List.length_append, ← total]
    generalize items.foldl (fun pass version => SinglePass.visit expand programs pass version.2)
      ⟨∅, 0, 0, 0⟩ = pass at seen
    have listed : last.2.pubkey ∈ pass.seen ↔ versionKey last ∈ items.map versionKey := by
      rw [seen, List.mem_toFinset]
    rw [SinglePass.visit]
    by_cases known : versionKey last ∈ items.map versionKey
    · rw [if_pos (listed.mpr known), if_neg (by simp [known]), if_neg (by simp [known])]
      refine ⟨?_, by simp [hashOf], rfl⟩
      rw [seen, List.map_append, List.toFinset_append, Finset.union_comm]
      exact (Finset.insert_eq_of_mem (List.mem_toFinset.mpr known)).symm
    · rw [if_neg (mt listed.mp known)]
      have seenNow : insert last.2.pubkey pass.seen = ((items ++ [last]).map versionKey).toFinset := by
        rw [seen, List.map_append, List.toFinset_append, Finset.union_comm]
        rfl
      by_cases closed : last.2.lamports = 0
      · rw [if_pos closed, if_neg (by simp [excludes, live, closed]), if_neg (by simp [live, closed])]
        exact ⟨seenNow, by simp [hashOf], rfl⟩
      · have isLive : live last = true := decide_eq_true (Nat.pos_of_ne_zero closed)
        rw [if_neg closed, decide_eq_true excluding, if_pos (c := live last = true ∧ _) ⟨isLive, known⟩]
        cases selected : programs.isProgramSelected last.2.owner with
        | true =>
          rw [if_pos rfl, if_neg (by simp [excludes, selected])]
          exact ⟨seenNow, by simp [hashOf], rfl⟩
        | false =>
          rw [if_neg (by decide), if_pos ⟨by simp [excludes, selected, isLive], known⟩]
          exact ⟨seenNow, by simp [hashOf], rfl⟩

private theorem newestOf_perm {items others : List (Stamp × StoredAccount)} (permuted : items.Perm others)
    (keep : Stamp × StoredAccount → Bool) : (newestOf keep items).Perm (newestOf keep others) := by
  rw [newestOf, List.filter_congr fun version _ => by
    rw [decide_eq_decide.mpr (IsNewest.perm permuted)]]
  exact permuted.filter _

/-- In exclude mode the single pass returns the hash of the excluded accounts and the number of the kept ones. -/
theorem singlePass_excluded (wellFormed : WellFormed snapshotFiles) (excluding : programs.includePrograms = [])
    (listed : programs.excludePrograms ≠ []) :
    computeSnapshotLtHashFilteredSinglePass expand snapshotFiles programs =
      .ok ((hashOf expand (newestOf (excludes programs) (versions snapshotFiles))).1,
        (kept programs (versions snapshotFiles)).length) := by
  have permuted := perm_newestFirst snapshotFiles
  obtain ⟨-, hashed, total⟩ := foldl_visit_excluded expand excluding pairwise_newestFirst
    (wellFormed.oneEach.perm permuted.symm)
  have sameExcluded := @hashOf_perm expand _ _ (newestOf_perm permuted (excludes programs))
  have sameLive := (newestOf_perm permuted live).length_eq
  have split := congrArg Prod.snd (hashOf_live expand programs (versions snapshotFiles))
  rw [computeSnapshotLtHashFilteredSinglePass, decide_eq_true excluding, decide_eq_false listed]
  simp only [Bool.and_false, Bool.false_eq_true, if_false, if_true, foldl_versions fun _ pass account =>
    SinglePass.visit expand programs pass account]
  rw [sameExcluded] at hashed
  rw [sameLive] at total
  obtain ⟨sameHash, sameCount⟩ := Prod.ext_iff.mp hashed
  dsimp only at sameHash sameCount
  rw [sameHash, sameCount, total]
  refine congrArg Except.ok (Prod.ext rfl ?_)
  change (newestOf live (versions snapshotFiles)).length =
    (kept programs (versions snapshotFiles)).length + (newestOf (excludes programs) (versions snapshotFiles)).length
    at split
  change (newestOf live (versions snapshotFiles)).length -
    (newestOf (excludes programs) (versions snapshotFiles)).length = (kept programs (versions snapshotFiles)).length
  omega

/-- Where the metadata holds the hash of all live accounts, the excluded programs are subtracted exactly. -/
theorem filtered_eq_kept (expand : List UInt8 → LtHash) (snapshotFiles : List AccountFileData)
    (metadata : MetadataFile) (programs : AccountSelectorConfig) (wellFormed : WellFormed snapshotFiles)
    (excluding : programs.includePrograms = []) (listed : programs.excludePrograms ≠ [])
    (withoutSystem : systemProgramId ∉ programs.excludePrograms)
    (total : extractLtHashFromSnapshotMetadata metadata = .ok (liveLtHash expand snapshotFiles)) :
    computeFilteredSnapshotLtHash expand snapshotFiles metadata programs =
      .ok (keptLtHash expand snapshotFiles programs) := by
  have notSystem : ¬ (programs.excludePrograms.any fun program => program = systemProgramId) = true := by
    rw [List.any_eq_true]
    rintro ⟨program, member, same⟩
    exact withoutSystem (of_decide_eq_true same ▸ member)
  have split := congrArg Prod.fst (hashOf_live expand programs (versions snapshotFiles))
  rw [computeFilteredSnapshotLtHash, if_neg (not_not.mpr excluding), if_neg notSystem, total,
    singlePass_excluded wellFormed excluding listed, keptLtHash_eq wellFormed, liveLtHash_eq wellFormed]
  simp only [if_neg listed]
  refine congrArg Except.ok (Prod.ext ?_ rfl)
  dsimp only
  rw [split, Prod.fst_add, add_sub_cancel_right]

/-- One account moved away from the excluded program and one rewritten under it. -/
def movedAndRewritten : List AccountFileData :=
  [⟨2, 0, [⟨7, 3, 6, [], false⟩]⟩, ⟨1, 0, [⟨7, 4, 5, [], false⟩, ⟨8, 4, 5, [], false⟩]⟩,
    ⟨3, 1, [⟨8, 4, 9, [], false⟩]⟩]

/-- The metadata of two live accounts, each hashed to 257 everywhere. -/
def twoAccounts : MetadataFile := ⟨"accounts_db", some (List.replicate 3000 2)⟩

private theorem extract_replicate (path : String) (byte : UInt8) {size : ℕ} (long : 2048 ≤ size) :
    extractLtHashFromSnapshotMetadata ⟨path, some (List.replicate size byte)⟩ =
      .ok fun _ => ((byte.toNat + 256 * byte.toNat : ℕ) : ZMod (2 ^ 16)) := by
  have enough : (List.replicate size byte).length ≥ 2048 := by
    rw [List.length_replicate]
    exact long
  rw [extractLtHashFromSnapshotMetadata]
  simp only [if_pos enough]
  refine congrArg Except.ok (funext fun i => ?_)
  have even : 2 * (i : ℕ) < 2048 := by omega
  have odd : 2 * (i : ℕ) + 1 < 2048 := by omega
  rw [List.length_replicate, List.drop_replicate, List.getD_replicate _ (by omega), List.getD_replicate _ (by omega)]

private theorem extract_twoAccounts :
    extractLtHashFromSnapshotMetadata twoAccounts = .ok (liveLtHash (fun _ _ => 257) movedAndRewritten) := by
  have newest : newestOf live (versions movedAndRewritten) =
      [(toLex (2, 0), ⟨7, 3, 6, [], false⟩), (toLex (3, 1), ⟨8, 4, 9, [], false⟩)] := by decide +kernel
  rw [twoAccounts, extract_replicate _ _ (by decide), liveLtHash_eq ⟨by decide, by decide⟩, newest, hashOf]
  refine congrArg Except.ok (funext fun i => ?_)
  simp only [List.map_cons, List.map_nil, List.sum_cons, List.sum_nil, Pi.add_apply, Pi.zero_apply, ltHashAccount]
  rw [if_neg (by decide), if_neg (by decide)]
  change ((2 + 256 * 2 : ℕ) : ZMod (2 ^ 16)) = 257 + (257 + 0)
  decide

theorem filtered_eq_kept_movedAndRewritten :
    computeFilteredSnapshotLtHash (fun _ _ => 257) movedAndRewritten twoAccounts ⟨[], [4]⟩ =
        .ok (keptLtHash (fun _ _ => 257) movedAndRewritten ⟨[], [4]⟩) ∧
      keptPubkeys movedAndRewritten ⟨[], [4]⟩ = {7} :=
  ⟨filtered_eq_kept _ _ _ _ ⟨by decide, by decide⟩ rfl (by decide) (by decide) extract_twoAccounts,
    by decide +kernel⟩

end Cloudbreak.Model.Snapshot
