import Cloudbreak.Model.Processed.ReadAccounts
import Cloudbreak.Proofs.Processed.Reads

/-! # Reads at the head

The writes of a served chain above the anchor, as further rows of the database, make the newest version at
the head the one that the blocks give, or the database at the anchor. This asks the database to agree with
the chain: it holds the writes of the retained blocks, and no others from the lowest block up to the head.
Every account and every mint then comes out right, whichever source each is taken from.
-/

namespace Cloudbreak.Model.Processed

open Cloudbreak.ToMathlib

variable {store : BlockStore} {served : ProcessedBlocks} {blocks : List SlotBlock} {database : Database}
  {pubkey : Pubkey} {withMint : Bool}

/-! ## Newest versions -/

namespace Database

theorem newest_of_quiet {low high : ℕ} (le : low ≤ high)
    (quiet : ∀ slot, low < slot → slot ≤ high → database pubkey slot = none) :
    database.newest pubkey high = database.newest pubkey low := by
  induction high with
  | zero =>
    obtain rfl : low = 0 := by omega
    rfl
  | succ high ih =>
    rcases Nat.lt_or_eq_of_le le with below | rfl
    · rw [newest, quiet (high + 1) below le_rfl, Option.none_or]
      exact ih (by omega) fun slot above upTo => quiet slot above (by omega)
    · rfl

private theorem newest_of_written {slot : ℕ} {entry : AccountEntry} (written : database pubkey slot = some entry) :
    database.newest pubkey slot = some entry := by
  cases slot with
  | zero => exact written
  | succ slot => rw [newest, written, Option.some_or]

/-- Only the versions up to the bound matter. -/
theorem newest_congr {other : Database} {bound : ℕ}
    (same : ∀ slot ≤ bound, database pubkey slot = other pubkey slot) :
    database.newest pubkey bound = other.newest pubkey bound := by
  induction bound with
  | zero => exact same 0 le_rfl
  | succ bound ih =>
    rw [newest, newest, same (bound + 1) le_rfl, ih fun slot le => same slot (by omega)]

private theorem live_of_newest {entry : AccountEntry} {bound : ℕ} (newest : database.newest pubkey bound = some entry) :
    database.live pubkey bound = entry.account := by
  rw [live, newest]
  cases entry <;> rfl

private theorem live_congr {other : Database} {bound bound' : ℕ}
    (same : database.newest pubkey bound = other.newest pubkey bound') :
    database.live pubkey bound = other.live pubkey bound' := by
  rw [live, live, same]

end Database

/-! ## The chain as rows -/

/-- In a descending list the write that is found has none above it. -/
theorem newest_of_findSome? (descending : (blocks.map SlotBlock.slot).Pairwise (· > ·)) {entry : AccountEntry}
    (first : (blocks.findSome? fun block => block.accounts.lookup pubkey) = some entry) :
    ∃ block ∈ blocks, block.accounts.lookup pubkey = some entry ∧
      ∀ other ∈ blocks, block.slot < other.slot → other.accounts.lookup pubkey = none := by
  induction blocks with
  | nil => cases first
  | cons top rest ih =>
    rw [List.map_cons, List.pairwise_cons] at descending
    cases wrote : top.accounts.lookup pubkey with
    | some newest =>
      rw [List.findSome?_cons, wrote] at first
      obtain rfl := Option.some.inj first
      refine ⟨top, List.mem_cons_self, wrote, fun other member higher => ?_⟩
      rcases List.mem_cons.mp member with rfl | below
      · exact absurd higher (Nat.lt_irrefl _)
      · exact absurd (descending.1 _ (List.mem_map_of_mem below)) (by omega)
    | none =>
      rw [List.findSome?_cons, wrote] at first
      obtain ⟨block, member, wrote', newest⟩ := ih descending.2 first
      refine ⟨block, List.mem_cons_of_mem _ member, wrote', fun other inList higher => ?_⟩
      rcases List.mem_cons.mp inList with rfl | below
      · exact wrote
      · exact newest other below higher

namespace ProcessedBlocks

/-- What a read needs of the blocks: newest first, from the head, which is not below the anchor. -/
structure Headed (blocks : ProcessedBlocks) : Prop where
  descending : (blocks.blocks.map SlotBlock.slot).Pairwise (· > ·)
  head : ∀ block ∈ blocks.blocks, block.slot ≤ blocks.slot
  anchor : blocks.anchorSlot ≤ blocks.slot

theorem writtenAt_eq_some (descending : (served.blocks.map SlotBlock.slot).Pairwise (· > ·)) {slot : ℕ}
    {entry : AccountEntry} :
    served.writtenAt pubkey slot = some entry ↔
      ∃ block ∈ served.blocks, block.slot = slot ∧ block.accounts.lookup pubkey = some entry := by
  rw [writtenAt, Option.bind_eq_some_iff]
  constructor
  · rintro ⟨block, found, wrote⟩
    exact ⟨block, List.mem_of_find?_eq_some found, by simpa using List.find?_some found, wrote⟩
  · rintro ⟨block, member, rfl, wrote⟩
    cases found : served.blocks.find? fun other => other.slot = block.slot with
    | none => exact absurd (List.find?_eq_none.mp found block member) (by simp)
    | some other =>
      have same : other.slot = block.slot := by simpa using List.find?_some found
      have distinct : (served.blocks.map SlotBlock.slot).Nodup := descending.imp fun above => above.ne'
      rw [List.inj_on_of_nodup_map distinct (List.mem_of_find?_eq_some found) member same]
      exact ⟨block, rfl, wrote⟩

private theorem writtenAt_eq_none (descending : (served.blocks.map SlotBlock.slot).Pairwise (· > ·)) {slot : ℕ} :
    served.writtenAt pubkey slot = none ↔
      ∀ block ∈ served.blocks, block.slot = slot → block.accounts.lookup pubkey = none := by
  rw [Option.eq_none_iff_forall_ne_some]
  constructor
  · intro unwritten block member same
    apply Option.eq_none_iff_forall_ne_some.mpr
    exact fun entry wrote => unwritten entry ((writtenAt_eq_some descending).mpr ⟨block, member, same, wrote⟩)
  · rintro quiet entry written
    obtain ⟨block, member, same, wrote⟩ := (writtenAt_eq_some descending).mp written
    exact absurd ((quiet block member same).symm.trans wrote) (by simp)

end ProcessedBlocks

private theorem headed_of_served (serves : store.latestChainedBlocks = some served) : served.Headed := by
  obtain ⟨anchor, head, -, isHighest, -, anchorSlot, slot, chain⟩ := BlockStore.latestChainedBlocks_eq_some serves
  obtain ⟨headStored, headGreatest⟩ := BlockStore.highest_eq_some isHighest
  have below : ∀ block ∈ served.blocks, block.slot ≤ served.slot := by
    intro block member
    rw [slot]
    exact headGreatest _ (AList.mem_keys.mp (AList.lookup_isSome.mp (by rw [chain.stored block member]; rfl)))
  refine ⟨chain.descending, below, ?_⟩
  rw [anchorSlot]
  rcases chain.anchored with ⟨lowest, isLowest, -, -⟩ | ⟨confirmed, isHead, same, -⟩
  · obtain ⟨member, above⟩ := List.mem_filter.mp (List.mem_of_getLast? isLowest)
    exact (of_decide_eq_true above).le.trans (below lowest member)
  · exact same ▸ below confirmed (List.mem_of_mem_head? isHead)

/-- The database agrees with the served chain: it has no row above the anchor, or above a served block, up
to the head that the chain has not, and it has the writes of the blocks at or below the anchor. -/
structure Database.Agrees (database : Database) (served : ProcessedBlocks) : Prop where
  written : ∀ pubkey slot entry, database pubkey slot = some entry → slot ≤ served.slot →
    served.anchorSlot < slot ∨ (∃ block ∈ served.blocks, block.slot < slot) →
      served.writtenAt pubkey slot = some entry
  retained : ∀ pubkey slot entry, served.writtenAt pubkey slot = some entry → slot ≤ served.anchorSlot →
    database pubkey slot = some entry

namespace Database

private theorem withBlocks_of_unwritten {slot : ℕ} (unwritten : served.writtenAt pubkey slot = none) :
    database.withBlocks served pubkey slot = database pubkey slot := by
  rw [withBlocks, unwritten, Option.none_or, ite_self]

private theorem withBlocks_of_written (agrees : database.Agrees served) {slot : ℕ} {entry : AccountEntry}
    (written : served.writtenAt pubkey slot = some entry) :
    database.withBlocks served pubkey slot = some entry := by
  rw [withBlocks]
  split
  · rw [written, Option.some_or]
  · next low => exact agrees.retained pubkey slot entry written (Nat.le_of_not_lt low)

/-- Where the chain did not write, the database has no row either. -/
theorem withBlocks_quiet (agrees : database.Agrees served) {slot : ℕ} (unwritten : served.writtenAt pubkey slot = none)
    (upTo : slot ≤ served.slot) (late : served.anchorSlot < slot ∨ ∃ block ∈ served.blocks, block.slot < slot) :
    database.withBlocks served pubkey slot = none := by
  rw [withBlocks_of_unwritten unwritten]
  apply Option.eq_none_iff_forall_ne_some.mpr
  intro entry row
  exact absurd (unwritten.symm.trans (agrees.written pubkey slot entry row upTo late)) (by simp)

/-- The newest version at the head is the one in memory, or the one at the anchor. -/
theorem live_withBlocks (headed : served.Headed) (agrees : database.Agrees served) (pubkey : Pubkey) :
    (database.withBlocks served).live pubkey served.slot =
      served.readThrough (fun pubkey => database.live pubkey served.anchorSlot) pubkey := by
  cases first : served.blocks.findSome? fun block => block.accounts.lookup pubkey with
  | some entry =>
    obtain ⟨block, member, wrote, newest⟩ := newest_of_findSome? headed.descending first
    have quiet : ∀ slot, block.slot < slot → slot ≤ served.slot → database.withBlocks served pubkey slot = none := by
      intro slot above upTo
      refine withBlocks_quiet agrees ?_ upTo (Or.inr ⟨block, member, above⟩)
      apply (ProcessedBlocks.writtenAt_eq_none headed.descending).mpr
      rintro higher isHigher rfl
      exact newest higher isHigher above
    have written := (ProcessedBlocks.writtenAt_eq_some headed.descending).mpr ⟨block, member, rfl, wrote⟩
    have atHead := (newest_of_quiet (headed.head block member) quiet).trans
      (newest_of_written (withBlocks_of_written agrees written))
    rw [live_of_newest atHead, ProcessedBlocks.readThrough, getAccount_some first]
    cases entry <;> rfl
  | none =>
    have unwritten : ∀ slot, served.writtenAt pubkey slot = none := by
      intro slot
      apply (ProcessedBlocks.writtenAt_eq_none headed.descending).mpr
      exact fun block member _ => List.findSome?_eq_none_iff.mp first block member
    have quiet : ∀ slot, served.anchorSlot < slot → slot ≤ served.slot →
        database.withBlocks served pubkey slot = none :=
      fun slot above upTo => withBlocks_quiet agrees (unwritten slot) upTo (Or.inl above)
    rw [ProcessedBlocks.readThrough, getAccount_none (List.findSome?_eq_none_iff.mp first)]
    exact live_congr ((newest_of_quiet headed.anchor quiet).trans
      (newest_congr fun slot _ => withBlocks_of_unwritten (unwritten slot)))

end Database

/-! ## Rows of a query -/

/-- The row of a template with or without the mint join. -/
def Database.templateRow (database : Database) (withMint : Bool) (pubkey : Pubkey) (bound : ℕ) : Option AccountRow :=
  (database.row pubkey bound).map fun row => { row with mintData := if withMint then row.mintData else none }

/-- The template returns the row of each requested key at the bound, once and in any order. -/
def Database.Answers (database : Database) (withMint : Bool) (query : Query) : Prop :=
  ∀ keys bound, ∃ rows, query keys bound = some rows ∧ (rows.map AccountRow.pubkey).Nodup ∧
    ∀ row, row ∈ rows ↔ row.pubkey ∈ keys ∧ database.templateRow withMint row.pubkey bound = some row

namespace Database

theorem pubkey_of_templateRow {bound : ℕ} {row : AccountRow}
    (found : database.templateRow withMint pubkey bound = some row) : row.pubkey = pubkey := by
  obtain ⟨joined, isJoined, rfl⟩ := Option.map_eq_some_iff.mp found
  obtain ⟨account, -, rfl⟩ := Option.map_eq_some_iff.mp isJoined
  rfl

private theorem read_false (bound : ℕ) :
    database.read false pubkey bound = (database.live pubkey bound).map .fromLive := by
  rw [read, row, Option.map_map]
  rfl

private theorem lookup_found {α : Type} {value : AccountRow → α} {keys : List Pubkey} {bound : ℕ}
    {rows : List AccountRow}
    (distinct : (rows.map AccountRow.pubkey).Nodup)
    (answers : ∀ row, row ∈ rows ↔ row.pubkey ∈ keys ∧ database.templateRow withMint row.pubkey bound = some row)
    (requested : pubkey ∈ keys) :
    (HashMap.insertAll AccountRow.pubkey value ∅ rows).lookup pubkey =
      (database.templateRow withMint pubkey bound).map value := by
  apply Option.ext
  intro found
  rw [HashMap.lookup_insertAll distinct, Option.map_eq_some_iff]
  constructor
  · rintro ⟨row, member, rfl, rfl⟩
    exact ⟨row, ((answers row).mp member).2, rfl⟩
  · rintro ⟨row, isRow, rfl⟩
    have same := pubkey_of_templateRow isRow
    subst same
    exact ⟨row, (answers row).mpr ⟨requested, isRow⟩, rfl, rfl⟩

private theorem templateRow_fromRow (bound : ℕ) :
    (database.templateRow withMint pubkey bound).map (Account.fromRow withMint) =
      database.read withMint pubkey bound := by
  rw [templateRow, read, Option.map_map]
  cases withMint <;> rfl

private theorem templateRow_data (bound : ℕ) :
    ((database.templateRow withMint pubkey bound).map fun row => row.account.data) =
      (database.live pubkey bound).map LiveAccount.data := by
  rw [templateRow, row, Option.map_map, Option.map_map]
  rfl

end Database

/-! ## Positions -/

private theorem modify_append_cons {α : Type} (done : List α) (item : α) (rest : List α) (change : α → α) :
    (done ++ item :: rest).modify done.length change = done ++ change item :: rest := by
  induction done with
  | nil => rfl
  | cons first done ih =>
    rw [List.cons_append, List.length_cons, List.modify_succ_cons, ih, List.cons_append]

/-- The queried mints go back to the positions they came from. -/
theorem foldl_queriedMints (change : Pubkey → Option Account → Option Account)
    (resolved : List (Option Account × Option Pubkey)) (done : List (Option Account)) :
    ((resolved.zipIdx done.length).filterMap fun entry => entry.1.2.map fun mint => (entry.2, mint)).foldl
        (fun accounts entry => accounts.modify entry.1 (change entry.2)) (done ++ resolved.map Prod.fst) =
      done ++ resolved.map fun entry => entry.2.elim entry.1 fun mint => change mint entry.1 := by
  induction resolved generalizing done with
  | nil => rfl
  | cons entry rest ih =>
    have onward := ih (done ++ [entry.2.elim entry.1 fun mint => change mint entry.1])
    rw [List.length_append, List.length_singleton, List.append_assoc, List.append_assoc, List.singleton_append,
      List.singleton_append] at onward
    rw [List.zipIdx_cons, List.map_cons, List.map_cons]
    obtain ⟨account, mint⟩ := entry
    cases mint with
    | none => exact onward
    | some mint =>
      change ((done.length, mint) :: (rest.zipIdx (done.length + 1)).filterMap fun entry =>
        entry.1.2.map fun mint => (entry.2, mint)).foldl _ _ = _
      rw [List.foldl_cons, modify_append_cons]
      exact onward

private theorem mem_queriedMints {resolved : List (Option Account × Option Pubkey)} {account : Option Account}
    {mint : Pubkey} (member : (account, some mint) ∈ resolved) : mint ∈ (queriedMints resolved).map Prod.snd := by
  obtain ⟨index, bound, found⟩ := List.getElem_of_mem member
  apply List.mem_map.mpr
  refine ⟨(index, mint), List.mem_filterMap.mpr ⟨((account, some mint), index), ?_, rfl⟩, rfl⟩
  exact List.mem_zipIdx_iff_getElem?.mpr (by rw [List.getElem?_eq_getElem bound, found])

/-! ## Requests -/

private theorem unknownKeys_map (keys : List Pubkey) (read : Pubkey → ProcessedAccount) :
    unknownKeys keys (keys.map read) = keys.filter fun key => read key = .unknown := by
  induction keys with
  | nil => rfl
  | cons key keys ih =>
    rw [unknownKeys] at ih ⊢
    rw [List.map_cons, List.zip_cons_cons, List.filter_cons, List.filter_cons]
    split
    · rw [List.map_cons, ih]
    · exact ih

/-- The account of a key before the mints: from memory, or from the database at the anchor. -/
def firstRead (database : Database) (served : ProcessedBlocks) (withMint : Bool) (pubkey : Pubkey) : Option Account :=
  match served.getAccount pubkey with
  | .live account => some (.fromLive account)
  | .closed => none
  | .unknown => database.read withMint pubkey served.anchorSlot

private theorem inKeyOrder_map {keys : List Pubkey} {found : HashMap Pubkey Account}
    (reads : ∀ key ∈ keys, served.getAccount key = .unknown →
      found.lookup key = database.read withMint key served.anchorSlot) :
    inKeyOrder keys (keys.map served.getAccount) found = keys.map (firstRead database served withMint) := by
  rw [inKeyOrder, List.zipWith_map_right, List.zipWith_self]
  apply List.map_congr_left
  intro key member
  rw [firstRead]
  cases isRead : served.getAccount key with
  | live account => rfl
  | closed => rfl
  | unknown => exact reads key member isRead

/-- The mint data of an account at the head. -/
def mintAtHead (database : Database) (served : ProcessedBlocks) (account : LiveAccount) : Option (List UInt8) :=
  (tokenMint account.owner account.data).bind fun mint =>
    (served.readThrough (fun pubkey => database.live pubkey served.anchorSlot) mint).map LiveAccount.data

/-- What the second loop makes of an entry, with the mints at the anchor. -/
def stitched (database : Database) (served : ProcessedBlocks) (entry : Option Account × Option Pubkey) :
    Option Account :=
  entry.2.elim entry.1 fun mint =>
    entry.1.map (·.setMintData ((database.live mint served.anchorSlot).map LiveAccount.data))

/-- The three sources of the mint. The account comes with no mint data from memory, and with the joined data
from Postgres. -/
theorem stitched_resolveFromBlocks {fromBlocks : ProcessedAccount} {account : LiveAccount}
    {joined : Option (List UInt8)}
    (unjoined : fromBlocks ≠ .unknown → joined = none)
    (isJoined : fromBlocks = .unknown → joined = (tokenMint account.owner account.data).bind fun mint =>
      (database.live mint served.anchorSlot).map LiveAccount.data) :
    stitched database served
        (resolveFromBlocks served (some ((Account.fromLive account).setMintData joined)) fromBlocks) =
      some ((Account.fromLive account).setMintData (mintAtHead database served account)) := by
  have mintOf : ((Account.fromLive account).setMintData joined).tokenMint = tokenMint account.owner account.data := rfl
  cases isToken : tokenMint account.owner account.data with
  | none =>
    have noMint : joined = none := by
      rcases Classical.em (fromBlocks = .unknown) with unknown | known
      · rw [isJoined unknown, isToken, Option.bind_none]
      · exact unjoined known
    rw [resolveFromBlocks, mintOf, isToken, mintAtHead, isToken, noMint]
    rfl
  | some mint =>
    rw [resolveFromBlocks, mintOf, isToken, mintAtHead, isToken, Option.bind_some, ProcessedBlocks.readThrough]
    cases found : served.getAccount mint with
    | live held =>
      simp only [found]
      rfl
    | closed =>
      simp only [found]
      rfl
    | unknown =>
      simp only [found]
      rcases Classical.em (fromBlocks = .unknown) with unknown | known
      · rw [isToken, Option.bind_some] at isJoined
        rw [if_pos unknown, isJoined unknown]
        rfl
      · rw [if_neg known]
        rfl

namespace Database

/-- The read at the head, in terms of the blocks and the database at the anchor. -/
theorem read_withBlocks (headed : served.Headed) (agrees : database.Agrees served) (withMint : Bool)
    (pubkey : Pubkey) :
    (database.withBlocks served).read withMint pubkey served.slot =
      (served.readThrough (fun pubkey => database.live pubkey served.anchorSlot) pubkey).map fun account =>
        (Account.fromLive account).setMintData (if withMint then mintAtHead database served account else none) := by
  have same : ∀ pubkey, (database.withBlocks served).live pubkey served.slot =
      served.readThrough (fun pubkey => database.live pubkey served.anchorSlot) pubkey :=
    live_withBlocks headed agrees
  rw [read, row, Option.map_map, same]
  simp only [same]
  rfl

private theorem stitched_firstRead (headed : served.Headed) (agrees : database.Agrees served) (pubkey : Pubkey) :
    stitched database served
        (resolveFromBlocks served (firstRead database served true pubkey) (served.getAccount pubkey)) =
      (database.withBlocks served).read true pubkey served.slot := by
  rw [read_withBlocks headed agrees, ProcessedBlocks.readThrough, firstRead]
  cases served.getAccount pubkey with
  | live account => exact stitched_resolveFromBlocks (fun _ => rfl) fun unknown => absurd unknown (by simp)
  | closed => rfl
  | unknown =>
    change stitched database served (resolveFromBlocks served (database.read true pubkey served.anchorSlot) _) =
      (database.live pubkey served.anchorSlot).map _
    rw [read, row]
    cases database.live pubkey served.anchorSlot with
    | none => rfl
    | some account => exact stitched_resolveFromBlocks (fun known => absurd rfl known) fun _ => rfl

private theorem firstRead_plain (headed : served.Headed) (agrees : database.Agrees served) (pubkey : Pubkey) :
    firstRead database served false pubkey = (database.withBlocks served).read false pubkey served.slot := by
  rw [read_withBlocks headed agrees, ProcessedBlocks.readThrough, firstRead]
  cases served.getAccount pubkey with
  | live account => rfl
  | closed => rfl
  | unknown => exact read_false served.anchorSlot

end Database

/-- The mints are looked up once each and stitched back to every account that asked. -/
theorem resolveMints_eq {getMultipleAccounts : Query} (answers : database.Answers false getMultipleAccounts)
    {keys : List Pubkey} {accounts : Pubkey → Option Account} :
    resolveMints getMultipleAccounts served (keys.map accounts) (keys.map served.getAccount) =
      some (keys.map fun key =>
        stitched database served (resolveFromBlocks served (accounts key) (served.getAccount key))) := by
  have zipped : (keys.map accounts).zipWith (resolveFromBlocks served) (keys.map served.getAccount) =
      keys.map fun key => resolveFromBlocks served (accounts key) (served.getAccount key) := by
    rw [List.zipWith_map, List.zipWith_self]
  rw [resolveMints]
  simp only [zipped]
  generalize isResolved : (keys.map fun key => resolveFromBlocks served (accounts key) (served.getAccount key)) =
    resolved
  have whole : (keys.map fun key => stitched database served
      (resolveFromBlocks served (accounts key) (served.getAccount key))) = resolved.map (stitched database served) := by
    rw [← isResolved, List.map_map]
    rfl
  rw [whole]
  split
  · next none_ =>
    rw [List.isEmpty_iff] at none_
    refine congrArg some (List.map_congr_left fun entry member => ?_)
    obtain ⟨account, mint⟩ := entry
    cases mint with
    | none => rfl
    | some mint =>
      have queried := mem_queriedMints member
      rw [none_] at queried
      exact absurd queried List.not_mem_nil
  · obtain ⟨rows, found, distinct, rowsOf⟩ :=
      answers (((queriedMints resolved).map Prod.snd).insertionSort (· ≤ ·)).dedup served.anchorSlot
    rw [found]
    refine congrArg some ((foldl_queriedMints (fun mint account => account.map (·.setMintData
      ((HashMap.insertAll AccountRow.pubkey (fun row => row.account.data) ∅ rows).lookup mint))) resolved []).trans ?_)
    refine List.map_congr_left fun entry member => ?_
    obtain ⟨account, mint⟩ := entry
    cases mint with
    | none => rfl
    | some mint =>
      have queried : mint ∈ (((queriedMints resolved).map Prod.snd).insertionSort (· ≤ ·)).dedup :=
        List.mem_dedup.mpr ((List.mem_insertionSort _).mpr (mem_queriedMints member))
      change account.map _ = account.map _
      rw [Database.lookup_found distinct rowsOf queried, Database.templateRow_data]

/-- Over a database that agrees with the served chain, every position of the answer is the read of its key at
the head slot of the database to which the chain's writes above the anchor are added as rows; with the mint
this includes the data that the mint of the account has there. -/
theorem processed_reads_equal_the_head {sqlTemplate getMultipleAccounts : Query}
    (serves : store.latestChainedBlocks = some served) (agrees : database.Agrees served)
    (rows : database.Answers withMint sqlTemplate) (mintRows : database.Answers false getMultipleAccounts)
    (keys : List Pubkey) (latestSlot : ℕ) :
    readAccounts sqlTemplate getMultipleAccounts (some served) keys latestSlot withMint =
      some (keys.map fun key => (database.withBlocks served).read withMint key served.slot) := by
  have headed := headed_of_served serves
  obtain ⟨unknownRows, fetched, reads⟩ : ∃ unknownRows,
      fetchUnknown sqlTemplate (unknownKeys keys (keys.map served.getAccount)) served.anchorSlot = some unknownRows ∧
      ∀ key ∈ keys, served.getAccount key = .unknown →
        (HashMap.insertAll AccountRow.pubkey (Account.fromRow withMint) ∅ unknownRows).lookup key =
          database.read withMint key served.anchorSlot := by
    have requested : ∀ key ∈ keys, served.getAccount key = .unknown →
        key ∈ unknownKeys keys (keys.map served.getAccount) := by
      intro key member unknown
      rw [unknownKeys_map]
      exact List.mem_filter.mpr ⟨member, by simpa using unknown⟩
    rw [fetchUnknown]
    split
    · next none_ =>
      rw [List.isEmpty_iff] at none_
      exact ⟨[], rfl, fun key member unknown => absurd (none_ ▸ requested key member unknown) List.not_mem_nil⟩
    · obtain ⟨found, isFound, distinct, rowsOf⟩ :=
        rows (unknownKeys keys (keys.map served.getAccount)) served.anchorSlot
      refine ⟨found, isFound, fun key member unknown => ?_⟩
      rw [Database.lookup_found distinct rowsOf (requested key member unknown), Database.templateRow_fromRow]
  have ordered := inKeyOrder_map reads
  simp only [readAccounts, Option.elim_some, fetched, Option.bind_eq_bind, Option.bind_some, ordered]
  cases withMint with
  | false =>
    exact congrArg some (List.map_congr_left fun key _ => Database.firstRead_plain headed agrees key)
  | true =>
    refine (resolveMints_eq mintRows).trans (congrArg some (List.map_congr_left fun key _ => ?_))
    exact Database.stitched_firstRead headed agrees key

section Examples

private def shape (served : ProcessedBlocks) : ℤ × List ℕ :=
  (served.blockTime, served.slot :: served.anchorSlot :: served.storedBlocks :: served.storedBytes ::
    served.blocks.map SlotBlock.slot)

/-- A served chain is known by its slots, since the store holds one block a slot. -/
private theorem serves_of_slots (known : ∀ block ∈ served.blocks, store.blocks.lookup block.slot = some block)
    (slots : store.latestChainedBlocks.map shape = some (shape served)) :
    store.latestChainedBlocks = some served := by
  obtain ⟨found, serves, same⟩ := Option.map_eq_some_iff.mp slots
  obtain ⟨_, _, _, _, _, _, _, chain⟩ := BlockStore.latestChainedBlocks_eq_some serves
  have looked : ∀ {blocks : List SlotBlock}, (∀ block ∈ blocks, store.blocks.lookup block.slot = some block) →
      (blocks.map SlotBlock.slot).map store.blocks.lookup = blocks.map some := by
    intro blocks stored
    rw [List.map_map]
    exact List.map_congr_left stored
  obtain ⟨slot, blockTime, anchorSlot, storedBlocks, storedBytes, blocks⟩ := found
  obtain ⟨slot', blockTime', anchorSlot', storedBlocks', storedBytes', blocks'⟩ := served
  simp only [shape, Prod.mk.injEq, List.cons.injEq] at same
  obtain ⟨rfl, rfl, rfl, rfl, rfl, sameSlots⟩ := same
  have sameBlocks := (looked chain.stored).symm.trans ((congrArg _ sameSlots).trans (looked known))
  obtain rfl := List.map_injective_iff.mpr (Option.some_injective SlotBlock) sameBlocks
  exact serves

/-- A template that answers from a database. -/
private def templateOf (database : Database) (withMint : Bool) : Query := fun keys bound =>
  some (keys.dedup.filterMap fun key => database.templateRow withMint key bound)

private theorem templateOf_answers (database : Database) (withMint : Bool) :
    database.Answers withMint (templateOf database withMint) := by
  intro keys bound
  refine ⟨_, rfl, ?_, fun row => ?_⟩
  · rw [List.map_filterMap]
    refine (List.nodup_dedup keys).filterMap fun key key' pubkey found found' => ?_
    obtain ⟨row, isRow, rfl⟩ := Option.map_eq_some_iff.mp found
    obtain ⟨row', isRow', same⟩ := Option.map_eq_some_iff.mp found'
    rw [← Database.pubkey_of_templateRow isRow, ← same, Database.pubkey_of_templateRow isRow']
  · rw [List.mem_filterMap]
    constructor
    · rintro ⟨key, member, found⟩
      obtain rfl := Database.pubkey_of_templateRow found
      exact ⟨List.mem_dedup.mp member, found⟩
    · rintro ⟨member, found⟩
      exact ⟨row.pubkey, List.mem_dedup.mpr member, found⟩

/-- A token account of a mint. -/
private def holding (mint : Pubkey) : AccountEntry :=
  .live ⟨5, Filters.tokenProgramId, false, 0, Filters.IndexIdentity.programBytes mint⟩

private def mintOf (data : List UInt8) : AccountEntry := .live ⟨1, Filters.tokenProgramId, false, 0, data⟩

private def low : SlotBlock :=
  ⟨101, "h101", 100, "h100", some 1, ((∅ : HashMap Pubkey AccountEntry).insert 8 (mintOf [3])).insert 10 .closed, 0⟩

private def high : SlotBlock :=
  ⟨102, "h102", 101, "h101", some 1, (∅ : HashMap Pubkey AccountEntry).insert 5 (holding 7), 0⟩

private def twoBlocks : BlockStore := ((BlockStore.new.setAnchor ⟨100, "h100"⟩).onBlock low).onBlock high

private def twoServed : ProcessedBlocks := ⟨102, 1, 100, 2, 0, [high, low]⟩

private theorem twoBlocks_serves : twoBlocks.latestChainedBlocks = some twoServed := by
  refine serves_of_slots (fun block member => ?_) (by decide +kernel)
  obtain rfl | rfl : block = high ∨ block = low := by simpa [twoServed] using member
  · rfl
  · rfl

/-- Two token accounts, the mint of one of them, and an account that the blocks close. -/
private def rowsAtNinety : Database := fun pubkey slot =>
  if slot = 90 then
    if pubkey = 6 then some (holding 7)
    else if pubkey = 7 then some (mintOf [1, 2])
    else if pubkey = 9 then some (holding 8)
    else if pubkey = 10 then some (mintOf [4])
    else none
  else none

private theorem rowsAtNinety_agrees : rowsAtNinety.Agrees twoServed := by
  have slots : ∀ pubkey slot entry, rowsAtNinety pubkey slot = some entry → slot = 90 := by
    intro pubkey slot entry row
    rw [rowsAtNinety] at row
    split at row
    · next same => exact same
    · cases row
  have above : ∀ block ∈ twoServed.blocks, 100 < block.slot := by decide +kernel
  constructor
  · intro pubkey slot entry row _ late
    obtain rfl := slots pubkey slot entry row
    rcases late with overAnchor | ⟨block, member, lower⟩
    · exact absurd overAnchor (by decide)
    · exact absurd (above block member) (by omega)
  · intro pubkey slot entry written atAnchor
    have descending : (twoServed.blocks.map SlotBlock.slot).Pairwise (· > ·) := by decide +kernel
    obtain ⟨block, member, rfl, -⟩ := (ProcessedBlocks.writtenAt_eq_some descending).mp written
    exact absurd atAnchor (Nat.not_le_of_lt (above block member))

/-- Key 5 is in memory and its mint in the database, key 6 is joined with its mint, the mint of key 9 is in
memory, key 10 is closed there, and key 11 is nowhere. -/
theorem processed_reads_equal_the_head_of_two_blocks :
    (readAccounts (templateOf rowsAtNinety true) (templateOf rowsAtNinety false) (some twoServed) [5, 6, 9, 10, 5, 11]
      0 true).map (List.map fun account => account.map Account.mintData) =
        some [some (some [1, 2]), some (some [1, 2]), some (some [3]), none, some (some [1, 2]), none] := by
  rw [processed_reads_equal_the_head twoBlocks_serves rowsAtNinety_agrees (templateOf_answers _ _)
    (templateOf_answers _ _)]
  decide +kernel

/-- A block that writes nothing over the anchor. -/
private def quietBlock : SlotBlock := ⟨101, "h101", 100, "h100", some 1, ∅, 0⟩

/-- A retained block below it. -/
private def retainedBlock : SlotBlock :=
  ⟨100, "h100", 99, "h99", some 1, (∅ : HashMap Pubkey AccountEntry).insert 6 (mintOf [1]), 0⟩

private def emptyServed : ProcessedBlocks := ⟨101, 1, 100, 1, 0, [quietBlock]⟩

private def retainedServed : ProcessedBlocks := ⟨101, 1, 100, 2, 0, [quietBlock, retainedBlock]⟩

private theorem empty_serves :
    ((BlockStore.new.setAnchor ⟨100, "h100"⟩).onBlock quietBlock).latestChainedBlocks = some emptyServed := by
  refine serves_of_slots (fun block member => ?_) (by decide +kernel)
  obtain rfl := List.mem_singleton.mp member
  rfl

private theorem retained_serves :
    (((BlockStore.new.setAnchor ⟨100, "h100"⟩).onBlock retainedBlock).onBlock quietBlock).latestChainedBlocks =
      some retainedServed := by
  refine serves_of_slots (fun block member => ?_) (by decide +kernel)
  obtain rfl | rfl : block = quietBlock ∨ block = retainedBlock := by simpa [retainedServed] using member
  · rfl
  · rfl

private def rowAhead : Database := fun pubkey slot => if slot = 101 ∧ pubkey = 6 then some (mintOf [1]) else none

private def noRows : Database := fun _ _ => none

/-- A row above the anchor that the chain has not is not read, and the write of a retained block is answered
though the database has it not. -/
theorem database_may_disagree_with_the_chain :
    (¬ ∀ (store : BlockStore) (served : ProcessedBlocks) (database : Database) (sqlTemplate getMultipleAccounts : Query)
      (keys : List Pubkey) (latestSlot : ℕ) (withMint : Bool), store.latestChainedBlocks = some served →
        database.Answers withMint sqlTemplate → database.Answers false getMultipleAccounts →
        (∀ block ∈ served.blocks, served.anchorSlot < block.slot) →
        readAccounts sqlTemplate getMultipleAccounts (some served) keys latestSlot withMint =
          some (keys.map fun key => (database.withBlocks served).read withMint key served.slot)) ∧
    ¬ ∀ (store : BlockStore) (served : ProcessedBlocks) (database : Database) (sqlTemplate getMultipleAccounts : Query)
      (keys : List Pubkey) (latestSlot : ℕ) (withMint : Bool), store.latestChainedBlocks = some served →
        database.Answers withMint sqlTemplate → database.Answers false getMultipleAccounts →
        (∀ pubkey slot, served.anchorSlot < slot → database pubkey slot = none) →
        readAccounts sqlTemplate getMultipleAccounts (some served) keys latestSlot withMint =
          some (keys.map fun key => (database.withBlocks served).read withMint key served.slot) := by
  constructor
  · intro always
    have equal := always _ emptyServed rowAhead (templateOf rowAhead false) (templateOf rowAhead false) [6] 0 false
      empty_serves (templateOf_answers _ _) (templateOf_answers _ _) (by decide +kernel)
    exact absurd equal (by decide +kernel)
  · intro always
    have equal := always _ retainedServed noRows (templateOf noRows false) (templateOf noRows false) [6] 0 false
      retained_serves (templateOf_answers _ _) (templateOf_answers _ _) fun _ _ _ => rfl
    exact absurd equal (by decide +kernel)

end Examples

end Cloudbreak.Model.Processed
