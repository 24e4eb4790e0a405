import Cloudbreak.ToMathlib.Newest
import Cloudbreak.Model.Snapshot.LtHash

/-! # What the two snapshot hashes cover

The single pass hashes the accounts whose newest version is live and selected. The two passes open every
file twice, so they fail on any file when dropping its handle removes it. On files that stay they hash the
accounts whose newest version among the selected ones is live: the first pass never sees the version with
which an account left the selected programs. The two agree exactly when there is no file, or when the files
stay and no account left that way.
-/

namespace Cloudbreak.Model.Snapshot

open Cloudbreak.ToMathlib

variable {expand : List UInt8 → LtHash} {dropRemoves : Bool} {snapshotFiles : List AccountFileData}
  {programs : AccountSelectorConfig}

/-- The account versions of all files, each under the stamp of its file. -/
def versions (snapshotFiles : List AccountFileData) : List (Stamp × StoredAccount) :=
  snapshotFiles.flatMap fun file => file.accounts.map fun account => (file.stamp, account)

/-- Distinct stamps, and at most one version of an account in a file. -/
structure WellFormed (snapshotFiles : List AccountFileData) : Prop where
  stamps : (snapshotFiles.map AccountFileData.stamp).Nodup
  accounts : ∀ file ∈ snapshotFiles, (file.accounts.map StoredAccount.pubkey).Nodup

abbrev versionKey (version : Stamp × StoredAccount) : Pubkey := version.2.pubkey

/-- The newest version of an account among given versions. -/
def newestVersion (snapshotFiles : List AccountFileData) (pubkey : Pubkey) : Option StoredAccount :=
  (((versions snapshotFiles).filter fun version => version.2.pubkey = pubkey).argmax Prod.fst).map Prod.snd

/-- The accounts whose newest version is live and of a selected program. -/
def keptPubkeys (snapshotFiles : List AccountFileData) (programs : AccountSelectorConfig) : Finset Pubkey :=
  ((versions snapshotFiles).map versionKey).toFinset.filter fun pubkey =>
    (newestVersion snapshotFiles pubkey).any fun account =>
      programs.isProgramSelected account.owner && decide (account.lamports > 0)

/-- The hash and the number of the kept accounts. -/
def keptLtHash (expand : List UInt8 → LtHash) (snapshotFiles : List AccountFileData)
    (programs : AccountSelectorConfig) : LtHash × ℕ :=
  (∑ pubkey ∈ keptPubkeys snapshotFiles programs,
      (newestVersion snapshotFiles pubkey).elim 0 (ltHashAccount expand),
    (keptPubkeys snapshotFiles programs).card)

theorem foldl_versions {σ : Type} (step : Stamp → σ → StoredAccount → σ) (state : σ) :
    snapshotFiles.foldl (fun state file => file.accounts.foldl (step file.stamp) state) state =
      (versions snapshotFiles).foldl (fun state version => step version.1 state version.2) state := by
  rw [versions, List.foldl_flatMap]
  congr 1
  funext state file
  rw [List.foldl_map]

theorem WellFormed.oneEach (wellFormed : WellFormed snapshotFiles) :
    OneEach versionKey Prod.fst (versions snapshotFiles) := by
  obtain ⟨stamps, accounts⟩ := wellFormed
  induction snapshotFiles with
  | nil => exact List.nodup_nil
  | cons file rest ih =>
    rw [List.map_cons, List.nodup_cons] at stamps
    have later := ih stamps.2 fun other member => accounts other (List.mem_cons_of_mem _ member)
    rw [OneEach, versions, List.flatMap_cons, List.map_append, List.nodup_append]
    refine ⟨?_, later, ?_⟩
    · rw [List.map_map]
      exact List.Nodup.of_map Prod.fst (by
        rw [List.map_map]
        exact accounts file List.mem_cons_self)
    · rintro _ here _ there rfl
      obtain ⟨version, member, rfl⟩ := List.mem_map.mp here
      obtain ⟨account, -, rfl⟩ := List.mem_map.mp member
      obtain ⟨other, present, same⟩ := List.mem_map.mp there
      obtain ⟨file', fileMember, inFile⟩ := List.mem_flatMap.mp present
      obtain ⟨account', -, rfl⟩ := List.mem_map.mp inFile
      have stampsAgree : file'.stamp = file.stamp := congrArg Prod.snd same
      exact stamps.1 (stampsAgree ▸ List.mem_map_of_mem fileMember)

/-! ## The kept accounts as versions -/

/-- The version is live and of a selected program. -/
def counts (programs : AccountSelectorConfig) (version : Stamp × StoredAccount) : Bool :=
  programs.isProgramSelected version.2.owner && decide (version.2.lamports > 0)

/-- The kept versions. -/
def kept (programs : AccountSelectorConfig) (items : List (Stamp × StoredAccount)) :
    List (Stamp × StoredAccount) :=
  items.filter fun version => counts programs version && decide (IsNewest versionKey Prod.fst items version)

/-- The summed hash and the number of a list of versions. -/
def hashOf (expand : List UInt8 → LtHash) (items : List (Stamp × StoredAccount)) : LtHash × ℕ :=
  ((items.map fun version => ltHashAccount expand version.2).sum, items.length)

theorem hashOf_append (first second : List (Stamp × StoredAccount)) :
    hashOf expand (first ++ second) = hashOf expand first + hashOf expand second := by
  simp [hashOf]

theorem hashOf_perm {first second : List (Stamp × StoredAccount)} (permuted : first.Perm second) :
    hashOf expand first = hashOf expand second :=
  Prod.ext (permuted.map _).sum_eq permuted.length_eq

theorem newestVersion_eq (wellFormed : WellFormed snapshotFiles) {version : Stamp × StoredAccount}
    (member : version ∈ versions snapshotFiles)
    (newest : IsNewest versionKey Prod.fst (versions snapshotFiles) version) :
    newestVersion snapshotFiles (versionKey version) = some version.2 := by
  have listed : version ∈ (versions snapshotFiles).filter fun other => other.2.pubkey = versionKey version :=
    List.mem_filter.mpr ⟨member, decide_eq_true rfl⟩
  cases found : ((versions snapshotFiles).filter fun other =>
      other.2.pubkey = versionKey version).argmax Prod.fst with
  | none => rw [List.argmax_eq_none.mp found] at listed; contradiction
  | some best =>
    obtain ⟨present, same⟩ := List.mem_filter.mp (List.argmax_mem found)
    have bestNewest : IsNewest versionKey Prod.fst (versions snapshotFiles) best := by
      intro other otherMember otherSame
      exact (newest other otherMember (otherSame.trans (of_decide_eq_true same))).trans
        (List.le_of_mem_argmax listed found)
    have equal := IsNewest.unique wellFormed.oneEach bestNewest newest present member (of_decide_eq_true same)
    rw [newestVersion, found, equal]
    rfl

theorem exists_newest {pubkey : Pubkey} (listed : pubkey ∈ (versions snapshotFiles).map versionKey) :
    ∃ version ∈ versions snapshotFiles, versionKey version = pubkey ∧
      IsNewest versionKey Prod.fst (versions snapshotFiles) version := by
  obtain ⟨version, member, rfl⟩ := List.mem_map.mp listed
  exact exists_isNewest member

private theorem keptPubkeys_eq (wellFormed : WellFormed snapshotFiles) :
    keptPubkeys snapshotFiles programs = ((kept programs (versions snapshotFiles)).map versionKey).toFinset := by
  ext pubkey
  rw [keptPubkeys, Finset.mem_filter, List.mem_toFinset, List.mem_toFinset]
  constructor
  · rintro ⟨listed, accepted⟩
    obtain ⟨version, member, rfl, newest⟩ := exists_newest listed
    rw [newestVersion_eq wellFormed member newest] at accepted
    refine List.mem_map_of_mem (List.mem_filter.mpr ⟨member, ?_⟩)
    simpa [counts, newest] using accepted
  · intro listed
    obtain ⟨version, member, rfl⟩ := List.mem_map.mp listed
    obtain ⟨present, good⟩ := List.mem_filter.mp member
    rw [Bool.and_eq_true, decide_eq_true_eq] at good
    refine ⟨List.mem_map_of_mem present, ?_⟩
    rw [newestVersion_eq wellFormed present good.2]
    exact good.1

/-- The kept accounts, hashed and counted version by version. -/
theorem keptLtHash_eq (wellFormed : WellFormed snapshotFiles) :
    keptLtHash expand snapshotFiles programs = hashOf expand (kept programs (versions snapshotFiles)) := by
  have distinct : ((kept programs (versions snapshotFiles)).map versionKey).Nodup :=
    wellFormed.oneEach.nodup_newest _
  rw [keptLtHash, keptPubkeys_eq wellFormed, List.sum_toFinset _ distinct, List.toFinset_card_of_nodup distinct,
    List.map_map, List.length_map, hashOf]
  congr 2
  refine List.map_congr_left fun version member => ?_
  obtain ⟨present, good⟩ := List.mem_filter.mp member
  rw [Bool.and_eq_true, decide_eq_true_eq] at good
  rw [Function.comp_apply, newestVersion_eq wellFormed present good.2]
  rfl

/-! ## The single pass -/

theorem perm_newestFirst (snapshotFiles : List AccountFileData) :
    (versions (newestFirst snapshotFiles)).Perm (versions snapshotFiles) :=
  (List.perm_insertionSort _ snapshotFiles).flatMap_right _

theorem pairwise_newestFirst :
    (versions (newestFirst snapshotFiles)).Pairwise fun first second => second.1 ≤ first.1 := by
  have sorted : (newestFirst snapshotFiles).Pairwise fun a b => b.stamp ≤ a.stamp :=
    List.pairwise_insertionSort _ snapshotFiles
  rw [versions, List.pairwise_flatMap]
  refine ⟨fun file _ => ?_, sorted.imp fun le first firstMember second secondMember => ?_⟩
  · rw [List.pairwise_map]
    exact List.pairwise_of_forall fun _ _ => le_rfl
  · obtain ⟨_, -, rfl⟩ := List.mem_map.mp firstMember
    obtain ⟨_, -, rfl⟩ := List.mem_map.mp secondMember
    exact le

/-- The single pass over a descending list of versions covers the kept ones. -/
theorem foldl_visit (expand : List UInt8 → LtHash) (included : programs.includePrograms ≠ [])
    {items : List (Stamp × StoredAccount)}
    (descending : items.Pairwise fun first second => second.1 ≤ first.1)
    (oneEach : OneEach versionKey Prod.fst items) :
    let pass := items.foldl (fun pass version => SinglePass.visit expand programs pass version.2) ⟨∅, 0, 0, 0⟩
    pass.seen = (items.map versionKey).toFinset ∧
      (pass.aggregate, pass.count) = hashOf expand (kept programs items) := by
  induction items using List.reverseRecOn with
  | nil => exact ⟨rfl, rfl⟩
  | append_singleton items last ih =>
    obtain ⟨before, -, below⟩ := List.pairwise_append.mp descending
    have belowLast : ∀ item ∈ items, last.1 ≤ item.1 := fun item member =>
      below item member last (List.mem_singleton_self _)
    have oneEachBefore : OneEach versionKey Prod.fst items := by
      rw [OneEach, List.map_append] at oneEach
      exact oneEach.of_append_left
    obtain ⟨seen, hashed⟩ := ih before oneEachBefore
    have grown : kept programs (items ++ [last]) =
        kept programs items ++ if counts programs last ∧ versionKey last ∉ items.map versionKey then [last] else [] :=
      filter_newest_append belowLast oneEach (counts programs)
    rw [List.foldl_append, List.foldl_cons, List.foldl_nil, grown, hashOf_append, ← hashed]
    generalize items.foldl (fun pass version => SinglePass.visit expand programs pass version.2)
      ⟨∅, 0, 0, 0⟩ = pass at seen
    have listed : last.2.pubkey ∈ pass.seen ↔ versionKey last ∈ items.map versionKey := by
      rw [seen, List.mem_toFinset]
    rw [SinglePass.visit]
    by_cases known : versionKey last ∈ items.map versionKey
    · rw [if_pos (listed.mpr known), if_neg (by simp [known])]
      refine ⟨?_, by simp [hashOf]⟩
      rw [seen, List.map_append, List.toFinset_append, Finset.union_comm]
      exact (Finset.insert_eq_of_mem (List.mem_toFinset.mpr known)).symm
    · rw [if_neg (mt listed.mp known)]
      have seenNow : insert last.2.pubkey pass.seen = ((items ++ [last]).map versionKey).toFinset := by
        rw [seen, List.map_append, List.toFinset_append, Finset.union_comm]
        rfl
      by_cases closed : last.2.lamports = 0
      · rw [if_pos closed, if_neg (by simp [counts, closed])]
        exact ⟨seenNow, by simp [hashOf]⟩
      · rw [if_neg closed, decide_eq_false included]
        cases selected : programs.isProgramSelected last.2.owner with
        | false =>
          rw [if_pos rfl, if_neg (by simp [counts, selected])]
          exact ⟨seenNow, by simp [hashOf]⟩
        | true =>
          rw [if_neg (by decide), if_pos ⟨by simpa [counts, selected] using Nat.pos_of_ne_zero closed, known⟩]
          exact ⟨seenNow, by simp [hashOf]⟩

/-- The single pass returns the hash and the count of the kept accounts. -/
theorem singlePass_eq (wellFormed : WellFormed snapshotFiles) (included : programs.includePrograms ≠ []) :
    computeSnapshotLtHashFilteredSinglePass expand snapshotFiles programs =
      .ok (keptLtHash expand snapshotFiles programs) := by
  have permuted := perm_newestFirst snapshotFiles
  have hashed := (foldl_visit expand included pairwise_newestFirst
    (wellFormed.oneEach.perm permuted.symm)).2
  have same : (kept programs (versions (newestFirst snapshotFiles))).Perm (kept programs (versions snapshotFiles)) := by
    rw [kept, List.filter_congr fun version _ => by
      rw [decide_eq_decide.mpr (IsNewest.perm permuted)]]
    exact permuted.filter _
  rw [computeSnapshotLtHashFilteredSinglePass, decide_eq_false included, keptLtHash_eq wellFormed,
    ← hashOf_perm same, ← hashed]
  simp only [Bool.false_and, Bool.false_eq_true, if_false, foldl_versions fun _ pass account =>
    SinglePass.visit expand programs pass account]

/-! ## The two passes -/

/-- The version is of a selected program. -/
def selects (programs : AccountSelectorConfig) (version : Stamp × StoredAccount) : Bool :=
  programs.isProgramSelected version.2.owner

/-- The stamp the first pass holds for an account is the highest of its selected versions. -/
structure Tracked (programs : AccountSelectorConfig) (items : List (Stamp × StoredAccount)) (pubkey : Pubkey)
    (winning : Option Stamp) : Prop where
  bound : ∀ version ∈ items, selects programs version → versionKey version = pubkey →
    ∃ stamp ∈ winning, version.1 ≤ stamp
  reached : ∀ stamp ∈ winning, ∃ version ∈ items,
    selects programs version ∧ versionKey version = pubkey ∧ version.1 = stamp

theorem Tracked.skip {items : List (Stamp × StoredAccount)} {pubkey : Pubkey} {winning : Option Stamp}
    (tracked : Tracked programs items pubkey winning) {last : Stamp × StoredAccount}
    (skipped : selects programs last → versionKey last ≠ pubkey) :
    Tracked programs (items ++ [last]) pubkey winning := by
  refine ⟨fun version member chosen same => ?_, fun stamp held => ?_⟩
  · rcases List.mem_append.mp member with member | member
    · exact tracked.bound version member chosen same
    · rw [List.mem_singleton.mp member] at chosen same
      exact absurd same (skipped chosen)
  · obtain ⟨version, member, reached⟩ := tracked.reached stamp held
    exact ⟨version, List.mem_append_left _ member, reached⟩

theorem Tracked.raise {items : List (Stamp × StoredAccount)} {winning : Option Stamp}
    {last : Stamp × StoredAccount} (tracked : Tracked programs items last.2.pubkey winning)
    (chosen : selects programs last) :
    Tracked programs (items ++ [last]) last.2.pubkey
      (some (if last.1 > winning.getD (toLex (0, 0)) then last.1 else winning.getD (toLex (0, 0)))) := by
  have here : last ∈ items ++ [last] := List.mem_append_right _ (List.mem_singleton_self _)
  refine ⟨fun version member versionChosen same => ⟨_, rfl, ?_⟩, fun stamp held => ?_⟩
  · rcases List.mem_append.mp member with member | member
    · obtain ⟨stamp, rfl, le⟩ := tracked.bound version member versionChosen same
      rw [Option.getD_some]
      split
      · next higher => exact le.trans higher.le
      · exact le
    · rw [List.mem_singleton.mp member]
      split
      · exact le_rfl
      · next lower => exact not_lt.mp lower
  · rw [Option.mem_some_iff] at held
    split at held
    · exact ⟨last, here, chosen, rfl, held⟩
    · next lower =>
      cases winning with
      | none => exact ⟨last, here, chosen, rfl, (le_antisymm (not_lt.mp lower) bot_le).trans held⟩
      | some best =>
        obtain ⟨version, member, reached⟩ := tracked.reached best rfl
        exact ⟨version, List.mem_append_left _ member, held ▸ reached⟩

private theorem firstPass_tracked (included : programs.includePrograms ≠ []) (items : List (Stamp × StoredAccount))
    (pubkey : Pubkey) :
    Tracked programs items pubkey
      ((items.foldl (fun map version => trackVersion programs version.1 map version.2) ∅).lookup pubkey) := by
  induction items using List.reverseRecOn with
  | nil => exact ⟨fun _ member => absurd member List.not_mem_nil, fun _ held => by simp at held⟩
  | append_singleton items last ih =>
    rw [List.foldl_append, List.foldl_cons, List.foldl_nil]
    generalize items.foldl (fun map version => trackVersion programs version.1 map version.2) ∅ = map at ih
    rw [trackVersion, decide_eq_true included, Bool.true_and]
    cases selected : programs.isProgramSelected last.2.owner with
    | false =>
      simp only [Bool.not_false, if_true]
      exact ih.skip fun chosen => absurd (selected.symm.trans chosen) (by decide)
    | true =>
      simp only [Bool.not_true, Bool.false_eq_true, if_false]
      rw [HashMap.lookup_insert]
      split
      · next same =>
        subst same
        exact ih.raise selected
      · next differ => exact ih.skip fun _ same => differ same.symm

/-- The version is the newest of its account among the selected ones. -/
def NewestSelected (programs : AccountSelectorConfig) (items : List (Stamp × StoredAccount))
    (version : Stamp × StoredAccount) : Prop :=
  IsNewest versionKey Prod.fst (items.filter (selects programs)) version

instance (items : List (Stamp × StoredAccount)) : DecidablePred (NewestSelected programs items) :=
  fun version => inferInstanceAs (Decidable (IsNewest _ _ _ version))

/-- What the two passes hash: the live accounts at their newest selected version. -/
def hashed (programs : AccountSelectorConfig) (items : List (Stamp × StoredAccount)) :
    List (Stamp × StoredAccount) :=
  items.filter fun version => counts programs version && decide (NewestSelected programs items version)

/-- A live selected version is given to the callback exactly when no selected version is newer. -/
theorem visitAccount_eq {σ : Type} (included : programs.includePrograms ≠ []) {items : List (Stamp × StoredAccount)}
    {version : Stamp × StoredAccount} (member : version ∈ items) (onAccount : σ → Pubkey → LtHash → σ) (state : σ) :
    visitAccount expand programs
        (items.foldl (fun map version => trackVersion programs version.1 map version.2) ∅) onAccount version.1
        state version.2 =
      if counts programs version && decide (NewestSelected programs items version) then
        onAccount state version.2.pubkey (ltHashAccount expand version.2)
      else state := by
  have tracked := firstPass_tracked included items version.2.pubkey
  rw [visitAccount]
  cases selected : programs.isProgramSelected version.2.owner with
  | false => simp [counts, selected]
  | true =>
    obtain ⟨winning, found, bound⟩ := tracked.bound version member selected rfl
    have wins : version.1 = winning ↔ NewestSelected programs items version := by
      constructor
      · rintro rfl other otherMember same
        obtain ⟨present, chosen⟩ := List.mem_filter.mp otherMember
        obtain ⟨stamp, held, le⟩ := tracked.bound other present chosen same
        exact le.trans (Option.some.inj (held.symm.trans found)).le
      · intro newest
        obtain ⟨best, bestMember, bestChosen, bestSame, reached⟩ := tracked.reached winning found
        exact le_antisymm bound
          (reached ▸ newest best (List.mem_filter.mpr ⟨bestMember, bestChosen⟩) bestSame)
    rw [Option.mem_def.mp found]
    simp only [Option.any_some, Bool.not_true, Bool.false_eq_true, if_false, ne_eq, decide_not,
      Bool.not_eq_true', decide_eq_false_iff_not, counts, selected, Bool.true_and, Bool.and_eq_true,
      decide_eq_true_eq, wins, gt_iff_lt]
    by_cases newest : NewestSelected programs items version
    · by_cases closed : version.2.lamports = 0
      · simp [newest, closed]
      · simp [newest, closed, Nat.pos_of_ne_zero closed]
    · simp [newest]

/-- A fold that hashes some of the versions. -/
theorem foldl_hashOf (keep : Stamp × StoredAccount → Bool) (items : List (Stamp × StoredAccount))
    (start : LtHash × ℕ) :
    items.foldl (fun state version =>
        if keep version then (state.1 + ltHashAccount expand version.2, state.2 + 1) else state) start =
      start + hashOf expand (items.filter keep) := by
  induction items generalizing start with
  | nil => simp [hashOf]
  | cons version rest ih =>
    rw [List.foldl_cons, ih, List.filter_cons]
    cases keep version with
    | false => rfl
    | true =>
      simp only [if_true, hashOf, List.map_cons, List.sum_cons, List.length_cons]
      ext1
      · exact add_assoc _ _ _
      · exact (add_assoc _ _ _).trans (congrArg _ (add_comm _ _))

/-- A pass over files that are all on the disk, each once. It leaves those it does not remove. -/
theorem scanFiles_eq {σ : Type} (onVersion : Stamp → σ → StoredAccount → σ) {disk : Finset Stamp} (state : σ)
    (distinct : (snapshotFiles.map AccountFileData.stamp).Nodup)
    (present : ∀ file ∈ snapshotFiles, file.stamp ∈ disk) :
    scanFiles dropRemoves onVersion snapshotFiles (disk, state) =
      .ok (if dropRemoves then disk \ (snapshotFiles.map AccountFileData.stamp).toFinset else disk,
        (versions snapshotFiles).foldl (fun state version => onVersion version.1 state version.2) state) := by
  rw [← foldl_versions]
  induction snapshotFiles generalizing disk state with
  | nil =>
    rw [scanFiles]
    simp
  | cons file rest ih =>
    rw [List.map_cons, List.nodup_cons] at distinct
    have later : ∀ other ∈ rest, other.stamp ∈ if dropRemoves then disk.erase file.stamp else disk := by
      intro other member
      have onDisk := present other (List.mem_cons_of_mem _ member)
      have differs : other.stamp ≠ file.stamp := fun same => distinct.1 (same ▸ List.mem_map_of_mem member)
      split
      · exact Finset.mem_erase.mpr ⟨differs, onDisk⟩
      · exact onDisk
    rw [scanFiles, if_pos (present file List.mem_cons_self), ih _ distinct.2 later, List.foldl_cons]
    cases dropRemoves with
    | false => rfl
    | true =>
      simp only [if_true, List.map_cons, List.toFinset_cons, Finset.sdiff_insert, Finset.erase_sdiff_comm]

theorem mem_toFinset_stamp {file : AccountFileData} (member : file ∈ snapshotFiles) :
    file.stamp ∈ (snapshotFiles.map AccountFileData.stamp).toFinset :=
  List.mem_toFinset.mpr (List.mem_map_of_mem member)

/-- Without files to remove, the two passes hash the live accounts at their newest selected version. -/
theorem computeSnapshotLtHash_of_kept (included : programs.includePrograms ≠ [])
    (distinct : (snapshotFiles.map AccountFileData.stamp).Nodup) :
    computeSnapshotLtHash expand false snapshotFiles programs =
      .ok (hashOf expand (hashed programs (versions snapshotFiles))) := by
  rw [computeSnapshotLtHash, forEachDeduplicatedSnapshotAccount,
    scanFiles_eq _ _ distinct fun _ member => mem_toFinset_stamp member]
  change (scanFiles false _ snapshotFiles ((snapshotFiles.map AccountFileData.stamp).toFinset, _) >>=
    fun reached => pure reached.2) = _
  rw [scanFiles_eq _ _ distinct fun _ member => mem_toFinset_stamp member,
    List.foldl_ext _ _ _ fun state version member => visitAccount_eq included member _ state, foldl_hashOf]
  exact congrArg Except.ok (zero_add _)

/-- When dropping a handle removes its file, the second pass cannot open the first file. -/
theorem computeSnapshotLtHash_of_removed (nonempty : snapshotFiles ≠ [])
    (distinct : (snapshotFiles.map AccountFileData.stamp).Nodup) :
    computeSnapshotLtHash expand true snapshotFiles programs = .error "Failed to open account file" := by
  rw [computeSnapshotLtHash, forEachDeduplicatedSnapshotAccount,
    scanFiles_eq _ _ distinct fun _ member => mem_toFinset_stamp member]
  change (scanFiles true _ snapshotFiles (_, _) >>= fun reached => pure reached.2) = _
  obtain ⟨file, rest, rfl⟩ := List.exists_cons_of_ne_nil nonempty
  rw [scanFiles, if_pos rfl, Finset.sdiff_self, if_neg (Finset.notMem_empty _)]
  rfl

/-- An account whose newest selected version is live was not moved or closed away from there later. -/
def NothingLeft (snapshotFiles : List AccountFileData) (programs : AccountSelectorConfig) : Prop :=
  ∀ version ∈ versions snapshotFiles, counts programs version →
    NewestSelected programs (versions snapshotFiles) version →
      IsNewest versionKey Prod.fst (versions snapshotFiles) version

instance : Decidable (NothingLeft snapshotFiles programs) :=
  inferInstanceAs (Decidable (∀ version ∈ versions snapshotFiles, _ → _ → _))

/-- The kept versions are among the hashed ones. -/
theorem kept_sublist_hashed (programs : AccountSelectorConfig) (items : List (Stamp × StoredAccount)) :
    (kept programs items).Sublist (hashed programs items) := by
  refine List.monotone_filter_right _ fun version good => ?_
  rw [Bool.and_eq_true, decide_eq_true_eq] at good ⊢
  exact ⟨good.1, good.2.mono List.filter_sublist.subset⟩

/-- The hashed versions are as many as the kept ones only when they are the same. -/
theorem hashOf_eq_iff (expand : List UInt8 → LtHash) :
    hashOf expand (hashed programs (versions snapshotFiles)) =
        hashOf expand (kept programs (versions snapshotFiles)) ↔
      NothingLeft snapshotFiles programs := by
  have sublist := kept_sublist_hashed programs (versions snapshotFiles)
  constructor
  · intro agree version member counted newest
    have same : kept programs (versions snapshotFiles) = hashed programs (versions snapshotFiles) :=
      sublist.eq_of_length (congrArg Prod.snd agree).symm
    have present : version ∈ hashed programs (versions snapshotFiles) :=
      List.mem_filter.mpr ⟨member, by simp [counted, newest]⟩
    rw [← same] at present
    obtain ⟨-, good⟩ := List.mem_filter.mp present
    rw [Bool.and_eq_true, decide_eq_true_eq] at good
    exact good.2
  · intro nothingLeft
    congr 1
    refine List.filter_congr fun version member => ?_
    cases counted : counts programs version with
    | false => rfl
    | true =>
      rw [Bool.true_and, Bool.true_and, decide_eq_decide]
      exact ⟨nothingLeft version member counted, fun newest => newest.mono List.filter_sublist.subset⟩

/-- Both computations return the hash and the count of the kept accounts exactly when there is no file, or when
the files outlive their handles and no live account left the included programs for good. -/
theorem snapshot_hashes_agree_iff (expand : List UInt8 → LtHash) (dropRemoves : Bool)
    (snapshotFiles : List AccountFileData) (programs : AccountSelectorConfig)
    (included : programs.includePrograms ≠ []) (wellFormed : WellFormed snapshotFiles) :
    (computeSnapshotLtHash expand dropRemoves snapshotFiles programs =
          .ok (keptLtHash expand snapshotFiles programs) ∧
        computeSnapshotLtHashFilteredSinglePass expand snapshotFiles programs =
          .ok (keptLtHash expand snapshotFiles programs)) ↔
      snapshotFiles = [] ∨ dropRemoves = false ∧ NothingLeft snapshotFiles programs := by
  rw [and_iff_left (singlePass_eq wellFormed included)]
  cases dropRemoves with
  | false =>
    rw [computeSnapshotLtHash_of_kept included wellFormed.stamps, Except.ok.injEq, keptLtHash_eq wellFormed,
      hashOf_eq_iff, eq_self, true_and]
    refine ⟨Or.inr, fun agrees => agrees.elim (fun empty => ?_) id⟩
    subst empty
    exact fun _ member => absurd member List.not_mem_nil
  | true =>
    rw [Bool.true_eq_false, false_and, or_false]
    constructor
    · intro agrees
      by_contra nonempty
      rw [computeSnapshotLtHash_of_removed nonempty wellFormed.stamps] at agrees
      cases agrees
    · rintro rfl
      rw [keptLtHash_eq wellFormed]
      rfl

/-- A token program, and an account it owned at slot 1 and that was closed at slot 2. -/
def closedLater : List AccountFileData :=
  [⟨1, 0, [⟨7, 3, 5, [], false⟩]⟩, ⟨2, 0, [⟨7, systemProgramId, 0, [], false⟩]⟩]

/-- The two passes fail where the files go with their handles; where they stay, they still count the closed
account. The single pass returns the hash and the count of no account. -/
theorem two_passes_miss_a_closed_account :
    ∃ snapshotFiles programs, programs.includePrograms ≠ [] ∧ WellFormed snapshotFiles ∧ ∀ expand,
      computeSnapshotLtHash expand true snapshotFiles programs = .error "Failed to open account file" ∧
        (∀ both, computeSnapshotLtHash expand false snapshotFiles programs = .ok both → both.2 = 1) ∧
        computeSnapshotLtHashFilteredSinglePass expand snapshotFiles programs = .ok (0, 0) ∧
        keptLtHash expand snapshotFiles programs = (0, 0) := by
  refine ⟨closedLater, ⟨[3], []⟩, by decide, ⟨by decide, by decide⟩, fun expand => ?_⟩
  have none : keptLtHash expand closedLater ⟨[3], []⟩ = (0, 0) := by
    rw [keptLtHash_eq ⟨by decide, by decide⟩]
    change hashOf expand [] = (0, 0)
    rfl
  refine ⟨computeSnapshotLtHash_of_removed (by decide) (by decide), fun both found => ?_, ?_, none⟩
  · rw [computeSnapshotLtHash_of_kept (by decide) (by decide)] at found
    cases found
    change (hashed ⟨[3], []⟩ (versions closedLater)).length = 1
    decide +kernel
  · rw [singlePass_eq ⟨by decide, by decide⟩ (by decide), none]

/-- An account that stays with its program while its balance changes, in files that outlive their handles. -/
theorem snapshot_hashes_agree_for_a_kept_account :
    ∃ expand snapshotFiles programs,
      computeSnapshotLtHash expand false snapshotFiles programs = .ok (keptLtHash expand snapshotFiles programs) ∧
        computeSnapshotLtHashFilteredSinglePass expand snapshotFiles programs =
          .ok (keptLtHash expand snapshotFiles programs) :=
  ⟨fun _ => 1, [⟨1, 0, [⟨7, 3, 5, [], false⟩]⟩, ⟨2, 0, [⟨7, 3, 6, [], false⟩]⟩], ⟨[3], []⟩,
    (snapshot_hashes_agree_iff _ _ _ _ (by decide) ⟨by decide, by decide⟩).mpr (by decide +kernel)⟩

end Cloudbreak.Model.Snapshot
