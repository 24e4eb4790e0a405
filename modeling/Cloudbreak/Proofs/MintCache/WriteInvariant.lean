import Cloudbreak.ToMathlib.Run
import Cloudbreak.Proofs.MintCache.TableWrites

/-! # The state of the mints table while writes run

One write at a time carries everything that waited, so a slot it publishes covers every change made before it
started; later changes have to lie above it. A failed write puts its keys back, next to those that changed
meanwhile.
-/

namespace Cloudbreak.Model.MintCache

open Cloudbreak.ToMathlib

namespace MintIndexer

variable {indexer next : MintIndexer} {write : DbWrite} {slot interval : ℕ} {event : IndexerEvent}
  {events : List IndexerEvent}

/-- The slots published so far, and those that the writes in flight are about to publish. -/
def promisedSlots (indexer : MintIndexer) : List ℕ :=
  indexer.published ++ indexer.inFlight.filterMap DbWrite.newLastDbSlot

/-- Nothing changes the store at or below a promised slot, no gap opens there, and the bootstrap starts its
write while no other runs. -/
def InTime (indexer : MintIndexer) : IndexerEvent → Prop
  | .snapshotAccount write =>
    ∀ row ∈ changedRows (indexer.inner.noteSlot write.slot) [write], ∀ slot ∈ indexer.promisedSlots, slot < row.slot
  | .block slot changes lowestGap =>
    (∀ row ∈ changedRows (indexer.inner.noteBlock slot lowestGap) (Inner.blockWrites slot changes),
      ∀ slot ∈ indexer.promisedSlots, slot < row.slot) ∧
    ∀ gap, lowestGap = some gap → 0 < gap ∧ ∀ slot ∈ indexer.promisedSlots, slot < gap
  | .bootstrapTakes => indexer.inner.dbWriteRunning = false
  | _ => True

instance (indexer : MintIndexer) : DecidablePred indexer.InTime
  | .snapshotAccount write => inferInstanceAs (Decidable (∀ row ∈
      changedRows (indexer.inner.noteSlot write.slot) [write], ∀ slot ∈ indexer.promisedSlots, slot < row.slot))
  | .block slot changes lowestGap => inferInstanceAs (Decidable ((∀ row ∈
      changedRows (indexer.inner.noteBlock slot lowestGap) (Inner.blockWrites slot changes),
        ∀ slot ∈ indexer.promisedSlots, slot < row.slot) ∧
      ∀ gap, lowestGap = some gap → 0 < gap ∧ ∀ slot ∈ indexer.promisedSlots, slot < gap))
  | .bootstrapTakes => inferInstanceAs (Decidable (indexer.inner.dbWriteRunning = false))
  | .bootstrapReady | .upserted _ | .published _ | .succeeded _ | .failed _ => inferInstanceAs (Decidable True)

/-- The write in flight, with the changes it was started with and those that came later. -/
structure Flying (indexer : MintIndexer) (write : DbWrite) (taken later : List MintRow) : Prop where
  whole : indexer.changes = taken ++ later
  writing : Writing taken later indexer.published write.newLastDbSlot (· ∈ indexer.inner.pendingToDb) indexer.table
    write.remaining
  rows : ∀ row ∈ write.rows, latest taken row.pubkey = some row
  remaining : write.remaining ⊆ write.rows
  marked : ∀ row ∈ later, row.pubkey ∈ indexer.inner.pendingToDb
  above : ∀ row ∈ later, ∀ slot ∈ indexer.promisedSlots, slot < row.slot
  announced : write.published = true → ∀ slot, write.newLastDbSlot = some slot → slot ∈ indexer.published

/-- No write in flight: everything is in the table or waits. -/
structure Resting (indexer : MintIndexer) : Prop where
  stored : Stored indexer.table indexer.changes
  complete : ∀ slot ∈ indexer.published, CompleteThrough indexer.table indexer.changes slot
  located : indexer.bootstrap ≠ .failed → ∀ pubkey row, latest indexer.changes pubkey = some row →
    pubkey ∈ indexer.inner.pendingToDb ∨ indexer.table.lookup pubkey = some row

/-- A promised slot is covered by what has been applied, below any gap. -/
def Covered (inner : Inner) (slot : ℕ) : Prop :=
  slot ≤ inner.lastSlot ∧ ∀ gap, inner.lowestGap = some gap → slot < gap

structure Sound (indexer : MintIndexer) : Prop where
  tracks : Tracks indexer.changes indexer.inner
  state : indexer.inFlight = [] ∧ indexer.Resting ∨
    ∃ write taken later, indexer.inFlight = [write] ∧ indexer.Flying write taken later
  idle : indexer.inner.dbWriteRunning = false → indexer.inFlight = []
  covered : ∀ slot ∈ indexer.promisedSlots, Covered indexer.inner slot
  positive : ∀ gap, indexer.inner.lowestGap = some gap → 0 < gap
  ascending : indexer.promisedSlots.Pairwise (· ≤ ·)
  memory : ∀ slot, indexer.inner.lastDbSlot = some slot → slot ∈ indexer.published
  loading : indexer.bootstrap = .loading ∨ indexer.bootstrap = .readyToWrite →
    indexer.promisedSlots = [] ∧ indexer.inner.lastDbSlot = none
  failed : indexer.bootstrap = .failed → indexer.inner.dbWriteRunning = true ∧ indexer.inFlight = []

theorem sound_start (interval : ℕ) : Sound (start interval) where
  tracks := ⟨by simp [start, latest], by simp [start, Inner.new], List.Pairwise.nil⟩
  state := Or.inl ⟨rfl, ⟨by simp [Stored, start], by simp [start], by simp [start, latest]⟩⟩
  idle := fun _ => rfl
  covered := by simp [promisedSlots, start]
  positive := by simp [start, Inner.new]
  ascending := List.Pairwise.nil
  memory := by simp [start, Inner.new]
  loading := fun _ => ⟨rfl, rfl⟩
  failed := by simp [start]

/-- The only write there is. -/
theorem Sound.only (sound : Sound indexer) {index : ℕ} (found : indexer.inFlight[index]? = some write) :
    index = 0 ∧ indexer.inFlight = [write] ∧ ∃ taken later, indexer.Flying write taken later := by
  rcases sound.state with ⟨nothing, _⟩ | ⟨only, taken, later, single, flying⟩
  · rw [nothing] at found
    simp at found
  · rw [single] at found
    cases index with
    | zero =>
      cases found
      exact ⟨rfl, single, taken, later, flying⟩
    | succ index => simp at found

/-- Writes are applied after the books were brought up to date. -/
theorem Sound.apply (sound : Sound indexer) (noted : Inner) (sameStore : noted.store = indexer.inner.store)
    (samePending : noted.pendingToDb = indexer.inner.pendingToDb)
    (sameRunning : noted.dbWriteRunning = indexer.inner.dbWriteRunning)
    (sameDbSlot : noted.lastDbSlot = indexer.inner.lastDbSlot)
    (covered : ∀ slot ∈ indexer.promisedSlots, Covered noted slot)
    (positive : ∀ gap, noted.lowestGap = some gap → 0 < gap) (writes : List AccountWrite)
    (above : ∀ row ∈ changedRows noted writes, ∀ slot ∈ indexer.promisedSlots, slot < row.slot) :
    Sound { indexer with
      inner := noted.applyAll writes
      changes := indexer.changes ++ changedRows noted writes } := by
  have tracks : Tracks indexer.changes noted :=
    ⟨sameStore ▸ sound.tracks.current, samePending ▸ sound.tracks.queued, sound.tracks.ascending⟩
  obtain ⟨applied, rows⟩ := tracks.applyAll writes
  have books := Inner.sameBooks_applyAll noted writes
  have waiting : ∀ pubkey, pubkey ∈ indexer.inner.pendingToDb → pubkey ∈ (noted.applyAll writes).pendingToDb :=
    fun pubkey member => books.waiting pubkey (samePending ▸ member)
  constructor
  case tracks => exact applied
  case state =>
    rcases sound.state with ⟨nothing, resting⟩ | ⟨write, taken, later, single, flying⟩
    · refine Or.inl ⟨nothing, ?_⟩
      constructor
      case stored => exact resting.stored.append _
      case complete =>
        intro slot member
        exact (resting.complete slot member).append fun row isRow =>
          above row isRow slot (List.mem_append_left _ member)
      case located =>
        intro running pubkey row isLatest
        rcases latest_append_cases indexer.changes (changedRows noted writes) pubkey with ⟨changed, inside, rfl⟩ | same
        · exact Or.inl (rows changed inside).1
        · rcases resting.located running pubkey row (same ▸ isLatest) with waits | held
          · exact Or.inl (waiting pubkey waits)
          · exact Or.inr held
    · refine Or.inr ⟨write, taken, later ++ changedRows noted writes, single, ?_⟩
      constructor
      case whole => exact (congrArg (· ++ _) flying.whole).trans (List.append_assoc _ _ _)
      case writing =>
        obtain ⟨stored, rowsOf, complete, promised, located⟩ := flying.writing
        refine ⟨stored, rowsOf, fun slot member => ?_, promised, fun pubkey row isLatest => ?_⟩
        · rw [← List.append_assoc]
          exact (complete slot member).append fun row isRow => above row isRow slot (List.mem_append_left _ member)
        · exact (located pubkey row isLatest).imp_left (waiting pubkey)
      case rows => exact flying.rows
      case remaining => exact flying.remaining
      case marked =>
        intro row member
        rcases List.mem_append.mp member with before | new
        · exact waiting row.pubkey (flying.marked row before)
        · exact (rows row new).1
      case above =>
        intro row member
        rcases List.mem_append.mp member with before | new
        · exact flying.above row before
        · exact above row new
      case announced => exact flying.announced
  case idle => exact fun stopped => sound.idle (sameRunning ▸ books.running ▸ stopped)
  case covered =>
    intro slot member
    obtain ⟨low, under⟩ := covered slot member
    exact ⟨low.trans_eq books.lastSlot.symm, fun gap isGap => under gap (books.lowestGap ▸ isGap)⟩
  case positive => exact fun gap isGap => positive gap (books.lowestGap ▸ isGap)
  case ascending => exact sound.ascending
  case memory => exact fun slot isSlot => sound.memory slot (sameDbSlot ▸ books.lastDbSlot ▸ isSlot)
  case loading =>
    intro isLoading
    obtain ⟨none_, noSlot⟩ := sound.loading isLoading
    exact ⟨none_, books.lastDbSlot.trans (sameDbSlot.trans noSlot)⟩
  case failed =>
    intro isFailed
    obtain ⟨running, nothing⟩ := sound.failed isFailed
    exact ⟨books.running.trans (sameRunning.trans running), nothing⟩

/-- The state once a write has been started. -/
def started (indexer : MintIndexer) (newLastDbSlot : Option ℕ) (ofBootstrap : Bool) (bootstrap : Bootstrap) :
    MintIndexer :=
  { indexer with
    inner := { indexer.inner with dbWriteRunning := true, pendingToDb := ∅ }
    inFlight := [.start indexer.inner.takePendingRows.1 newLastDbSlot ofBootstrap]
    bootstrap }

/-- What `lastDbSlot` may be set to is covered, and no lower than any slot before it. -/
theorem Sound.covered_completeThrough (sound : Sound indexer) : Covered indexer.inner indexer.inner.completeThrough ∧
    ∀ earlier ∈ indexer.promisedSlots, earlier ≤ indexer.inner.completeThrough := by
  rw [Inner.completeThrough]
  split
  · next gap isGap =>
    have := sound.positive gap isGap
    refine ⟨⟨by omega, fun other isOther => ?_⟩, fun earlier member => ?_⟩
    · obtain rfl : gap = other := Option.some.inj (isGap.symm.trans isOther)
      omega
    · obtain ⟨low, under⟩ := sound.covered earlier member
      have := under gap isGap
      omega
  · next noGap =>
    refine ⟨⟨le_rfl, fun other isOther => ?_⟩, fun earlier member => ?_⟩
    · rw [noGap] at isOther
      contradiction
    · exact (sound.covered earlier member).1

/-- A write is started while none is in flight. -/
theorem Sound.start (sound : Sound indexer) (nothing : indexer.inFlight = []) (alive : indexer.bootstrap ≠ .failed)
    (newLastDbSlot : Option ℕ) (ofBootstrap : Bool) (bootstrap : Bootstrap)
    (due : ∀ slot, newLastDbSlot = some slot →
      slot = indexer.inner.completeThrough ∧ bootstrap ≠ .loading ∧ bootstrap ≠ .readyToWrite)
    (follows : bootstrap = indexer.bootstrap ∨ bootstrap = .writing) :
    Sound (indexer.started newLastDbSlot ofBootstrap bootstrap) := by
  obtain ⟨_, resting⟩ | ⟨write, _, _, single, _⟩ := sound.state
  swap
  · rw [nothing] at single
    contradiction
  have promisedBefore : indexer.promisedSlots = indexer.published := by
    rw [promisedSlots, nothing, List.filterMap_nil, List.append_nil]
  have promisedAfter : (indexer.started newLastDbSlot ofBootstrap bootstrap).promisedSlots =
      indexer.published ++ newLastDbSlot.toList := by
    cases newLastDbSlot <;> rfl
  have newCovered : ∀ slot, newLastDbSlot = some slot →
      Covered indexer.inner slot ∧ ∀ earlier ∈ indexer.published, earlier ≤ slot := by
    intro slot isNew
    obtain ⟨isCovered, above⟩ := sound.covered_completeThrough
    rw [(due slot isNew).1]
    exact ⟨isCovered, fun earlier member => above earlier (promisedBefore ▸ member)⟩
  have takes : ∀ row, row ∈ indexer.inner.takePendingRows.1 ↔
      row.pubkey ∈ indexer.inner.pendingToDb ∧ latest indexer.changes row.pubkey = some row :=
    fun row => sound.tracks.mem_takePendingRows
  constructor
  case tracks =>
    refine ⟨sound.tracks.current, fun pubkey slot isQueued => ?_, sound.tracks.ascending⟩
    exact absurd isQueued (by simp [started])
  case state =>
    refine Or.inr ⟨_, indexer.changes, [], rfl, ?_⟩
    have located : ∀ pubkey row, latest indexer.changes pubkey = some row →
        row ∈ indexer.inner.takePendingRows.1 ∨ indexer.table.lookup pubkey = some row := by
      intro pubkey row isLatest
      refine (resting.located alive pubkey row isLatest).imp_left fun waits => (takes row).mpr ?_
      rw [pubkey_of_latest isLatest]
      exact ⟨waits, isLatest⟩
    constructor
    case whole => exact (List.append_nil _).symm
    case writing =>
      refine ⟨resting.stored, fun row member => ((takes row).mp member).2, ?_, ?_, ?_⟩
      · rw [List.append_nil]
        exact resting.complete
      · intro slot _ before row after whole _
        obtain ⟨last, inside, isLatest⟩ := exists_latest_suffix before row after
        rw [← whole] at isLatest
        exact ⟨last, inside, pubkey_of_latest isLatest, located row.pubkey last isLatest⟩
      · exact fun pubkey row isLatest => Or.inr (located pubkey row isLatest)
    case rows => exact fun row member => ((takes row).mp member).2
    case remaining => exact List.Subset.refl _
    case marked => exact fun row member => absurd member List.not_mem_nil
    case above => exact fun row member => absurd member List.not_mem_nil
    case announced => exact fun published => absurd published Bool.false_ne_true
  case idle => exact fun stopped => absurd stopped.symm Bool.false_ne_true
  case covered =>
    intro slot member
    rw [promisedAfter, List.mem_append, Option.mem_toList] at member
    rcases member with before | new
    · exact sound.covered slot (promisedBefore ▸ before)
    · exact (newCovered slot new).1
  case positive => exact sound.positive
  case ascending =>
    rw [promisedAfter, List.pairwise_append]
    refine ⟨promisedBefore ▸ sound.ascending, ?_, fun earlier before slot new => ?_⟩
    · cases newLastDbSlot <;> simp
    · exact (newCovered slot (Option.mem_toList.mp new)).2 earlier before
  case memory => exact sound.memory
  case loading =>
    intro isLoading
    rcases follows with rfl | rfl
    · obtain ⟨none_, noSlot⟩ := sound.loading isLoading
      refine ⟨?_, noSlot⟩
      rw [promisedAfter, ← promisedBefore, none_]
      cases isNew : newLastDbSlot with
      | none => rfl
      | some slot =>
        obtain ⟨_, notLoading, notReady⟩ := due slot isNew
        exact absurd isLoading (not_or.mpr ⟨notLoading, notReady⟩)
    · simp [started] at isLoading
  case failed =>
    intro isFailed
    rcases follows with rfl | rfl
    · exact absurd isFailed alive
    · simp [started] at isFailed

theorem Sound.trySpawnWrite (sound : Sound indexer) : Sound indexer.trySpawnWrite := by
  rw [MintIndexer.trySpawnWrite, Inner.startWriteIfNeeded]
  cases due : indexer.inner.dueWrite with
  | none => exact sound
  | some newLastDbSlot =>
    rw [Inner.dueWrite] at due
    split at due
    · contradiction
    · next stopped =>
      rw [Bool.not_eq_true] at stopped
      have nothing := sound.idle stopped
      have alive : indexer.bootstrap ≠ .failed := fun isFailed =>
        Bool.false_ne_true (stopped.symm.trans (sound.failed isFailed).1)
      have spawned : Sound (indexer.started newLastDbSlot false indexer.bootstrap) := by
        refine sound.start nothing alive newLastDbSlot false indexer.bootstrap (fun slot isNew => ?_) (Or.inl rfl)
        split at due
        · split at due
          · cases due
            contradiction
          · contradiction
        · next lastDbSlot isLast =>
          split at due
          · cases due
            cases isNew
            have past : ∀ bootstrap, indexer.bootstrap = bootstrap →
                bootstrap = .loading ∨ bootstrap = .readyToWrite → False := by
              rintro bootstrap rfl isLoading
              have := (sound.loading isLoading).2
              rw [isLast] at this
              contradiction
            exact ⟨rfl, fun isLoading => past _ isLoading (Or.inl rfl), fun isReady => past _ isReady (Or.inr rfl)⟩
          · contradiction
      rw [started] at spawned
      rw [nothing]
      exact spawned

theorem Sound.snapshotAccount (sound : Sound indexer) {write : AccountWrite}
    (inTime : indexer.InTime (.snapshotAccount write)) : Sound (indexer.onSnapshotAccount write) := by
  refine Sound.trySpawnWrite (sound.apply (indexer.inner.noteSlot write.slot) rfl rfl rfl rfl (fun slot member => ?_)
    sound.positive [write] inTime)
  obtain ⟨low, under⟩ := sound.covered slot member
  exact ⟨low.trans (le_max_left _ _), under⟩

theorem Sound.block (sound : Sound indexer) {changes : List (Pubkey × MintChange)} {lowestGap : Option ℕ}
    (inTime : indexer.InTime (.block slot changes lowestGap)) : Sound (indexer.onBlock slot changes lowestGap) := by
  refine Sound.trySpawnWrite (sound.apply (indexer.inner.noteBlock slot lowestGap) rfl rfl rfl rfl
    (fun promised member => ?_)
    (fun gap isGap => (inTime.2 gap isGap).1) (Inner.blockWrites slot changes) inTime.1)
  exact ⟨(sound.covered promised member).1.trans (le_max_left _ _),
    fun gap isGap => (inTime.2 gap isGap).2 promised member⟩

theorem Sound.bootstrapTakes (sound : Sound indexer) (ready : indexer.bootstrap = .readyToWrite)
    (stopped : indexer.inner.dbWriteRunning = false) : Sound indexer.bootstrapTakes := by
  have nothing := sound.idle stopped
  have noPromise := (sound.loading (Or.inr ready)).1
  have applied := sound.apply indexer.inner.endBootstrap rfl rfl rfl rfl sound.covered sound.positive
    indexer.inner.waitingCloses (by simp [noPromise])
  have taken := applied.start nothing (by simp [ready])
    (some indexer.inner.applyWaitingCloses.completeThrough) true .writing
    (fun slot isNew => ⟨(Option.some.inj isNew).symm, Bootstrap.noConfusion, Bootstrap.noConfusion⟩) (Or.inr rfl)
  rw [MintIndexer.bootstrapTakes]
  dsimp only
  rw [nothing]
  exact taken

theorem Sound.upserted (sound : Sound indexer) {index : ℕ} (found : indexer.inFlight[index]? = some write) :
    Sound (indexer.upserted index write) := by
  obtain ⟨rfl, single, taken, later, flying⟩ := sound.only found
  have samePromises : (indexer.upserted 0 write).promisedSlots = indexer.promisedSlots := by
    rw [promisedSlots, promisedSlots, single]
    simp only [MintIndexer.upserted, single, List.set_cons_zero]
    cases isNew : write.newLastDbSlot <;> simp [isNew]
  have ascending : Ascending taken := by
    have sorted := sound.tracks.ascending
    rw [Ascending, flying.whole, List.pairwise_append] at sorted
    exact sorted.1
  have writing := flying.writing
  rw [← List.take_append_drop upsertChunk write.remaining] at writing
  refine ⟨sound.tracks, Or.inr ⟨{ write with remaining := write.remaining.drop upsertChunk }, taken, later, ?_, ?_⟩, ?_,
    samePromises ▸ sound.covered, sound.positive, samePromises ▸ sound.ascending, sound.memory, ?_, ?_⟩
  · simp only [MintIndexer.upserted, single, List.set_cons_zero]
  · exact {
      whole := flying.whole
      writing := writing.upsertRows ascending fun slot member row isLater =>
        flying.above row isLater slot (List.mem_append_left _ member)
      rows := flying.rows
      remaining := List.Subset.trans (List.drop_subset _ _) flying.remaining
      marked := flying.marked
      above := samePromises ▸ flying.above
      announced := flying.announced }
  · intro stopped
    have := sound.idle stopped
    rw [single] at this
    contradiction
  · exact fun isLoading => samePromises ▸ sound.loading isLoading
  · intro isFailed
    have := (sound.failed isFailed).2
    rw [single] at this
    contradiction

/-- The slot of a write whose rows are all in. -/
theorem Sound.publish (sound : Sound indexer) {index : ℕ} (found : indexer.inFlight[index]? = some write)
    (isNew : write.newLastDbSlot = some slot) (done : write.remaining = []) :
    Sound { indexer with
      inFlight := indexer.inFlight.set index { write with published := true }
      published := indexer.published ++ [slot] } := by
  obtain ⟨rfl, single, taken, later, flying⟩ := sound.only found
  have promised : indexer.promisedSlots = indexer.published ++ [slot] := by
    rw [promisedSlots, single, List.filterMap_cons, isNew, List.filterMap_nil]
  have ofPromised : ∀ other ∈ indexer.published ++ [slot, slot], other ∈ indexer.promisedSlots := by
    intro other member
    rw [promised]
    simpa [or_self] using member
  have promisedAfter : promisedSlots { indexer with
      inFlight := indexer.inFlight.set 0 { write with published := true }
      published := indexer.published ++ [slot] } = indexer.published ++ [slot, slot] := by
    rw [promisedSlots, single]
    simp [isNew]
  have noLoading : ¬(indexer.bootstrap = .loading ∨ indexer.bootstrap = .readyToWrite) := by
    intro isLoading
    have := (sound.loading isLoading).1
    rw [promised] at this
    simp at this
  refine ⟨sound.tracks, Or.inr ⟨{ write with published := true }, taken, later, ?_, ?_⟩, ?_, ?_, sound.positive, ?_,
    fun other isOther => List.mem_append_left _ (sound.memory other isOther), fun isLoading => absurd isLoading noLoading,
    ?_⟩
  · simp only [single, List.set_cons_zero]
  · obtain ⟨stored, rowsOf, complete, promises, located⟩ := flying.writing
    have complete_ : ∀ other ∈ indexer.published ++ [slot], CompleteThrough indexer.table (taken ++ later) other := by
      intro other member
      rcases List.mem_append.mp member with before | new
      · exact complete other before
      · rw [List.mem_singleton.mp new]
        have promise := promises slot isNew
        rw [done] at promise
        exact promise.complete fun row isLater => flying.above row isLater slot (by simp [promised])
    exact {
      whole := flying.whole
      writing := ⟨stored, rowsOf, complete_, promises, located⟩
      rows := flying.rows
      remaining := flying.remaining
      marked := flying.marked
      above := fun row isLater other member => flying.above row isLater other (ofPromised other (promisedAfter ▸ member))
      announced := fun _ other isOther => by
        rw [isNew, Option.some.injEq] at isOther
        simp [isOther] }
  · intro stopped
    have := sound.idle stopped
    rw [single] at this
    contradiction
  · exact fun other member => sound.covered other (ofPromised other (promisedAfter ▸ member))
  · have sorted := sound.ascending
    rw [promised, List.pairwise_append] at sorted
    rw [promisedAfter, List.pairwise_append]
    refine ⟨sorted.1, by simp, fun earlier before other member => ?_⟩
    exact sorted.2.2 earlier before other (by simpa using member)
  · intro isFailed
    have := (sound.failed isFailed).2
    rw [single] at this
    contradiction

/-- Once nothing remains of the write, the table and the waiting keys have everything. -/
theorem Flying.resting {taken later : List MintRow} (flying : indexer.Flying write taken later) (pending : Pubkey → Prop)
    (kept : ∀ pubkey, pubkey ∈ indexer.inner.pendingToDb → pending pubkey)
    (back : ∀ row ∈ write.remaining, pending row.pubkey) :
    Stored indexer.table indexer.changes ∧
    (∀ slot ∈ indexer.published, CompleteThrough indexer.table indexer.changes slot) ∧
    ∀ pubkey row, latest indexer.changes pubkey = some row →
      pending pubkey ∨ indexer.table.lookup pubkey = some row := by
  refine ⟨flying.whole ▸ flying.writing.stored.append later, flying.whole ▸ flying.writing.complete, ?_⟩
  intro pubkey row isLatest
  rw [flying.whole] at isLatest
  rcases latest_append_cases taken later pubkey with ⟨changed, inside, rfl⟩ | same
  · exact Or.inl (kept _ (flying.marked changed inside))
  · rw [same] at isLatest
    rcases flying.writing.located pubkey row isLatest with waits | inside | held
    · exact Or.inl (kept _ waits)
    · exact Or.inl (pubkey_of_latest isLatest ▸ back row inside)
    · exact Or.inr held

theorem Sound.succeeded (sound : Sound indexer) {index : ℕ} (found : indexer.inFlight[index]? = some write)
    (done : write.remaining = []) (announced : write.published = true ∨ write.newLastDbSlot = none) :
    Sound (indexer.succeeded index write) := by
  obtain ⟨rfl, single, taken, later, flying⟩ := sound.only found
  have nothing : (indexer.succeeded 0 write).inFlight = [] := by
    simp only [MintIndexer.succeeded, single, List.eraseIdx_cons_zero]
  have fewer : ∀ slot ∈ (indexer.succeeded 0 write).promisedSlots, slot ∈ indexer.promisedSlots := by
    intro slot member
    rw [promisedSlots, nothing, List.filterMap_nil, List.append_nil] at member
    exact List.mem_append_left _ member
  have alive : indexer.bootstrap ≠ .failed := by
    intro isFailed
    have := (sound.failed isFailed).2
    rw [single] at this
    contradiction
  obtain ⟨stored, complete, located⟩ := flying.resting (· ∈ indexer.inner.pendingToDb) (fun _ => id)
    (by simp [done])
  refine ⟨⟨sound.tracks.current, sound.tracks.queued, sound.tracks.ascending⟩,
    Or.inl ⟨nothing, stored, complete, fun _ => located⟩, fun _ => nothing, fun slot member => sound.covered slot (fewer slot member), sound.positive, ?_, ?_, ?_, ?_⟩
  · rw [promisedSlots, nothing, List.filterMap_nil, List.append_nil]
    exact (List.pairwise_append.mp sound.ascending).1
  · intro slot isSlot
    change write.newLastDbSlot.orElse (fun _ => indexer.inner.lastDbSlot) = some slot at isSlot
    cases isNew : write.newLastDbSlot with
    | none =>
      rw [isNew] at isSlot
      exact sound.memory slot isSlot
    | some new =>
      rw [isNew] at isSlot
      cases isSlot
      exact flying.announced (announced.resolve_right (by simp [isNew])) slot isNew
  · intro isLoading
    change (if write.ofBootstrap then Bootstrap.done else indexer.bootstrap) = _ ∨
      (if write.ofBootstrap then Bootstrap.done else indexer.bootstrap) = _ at isLoading
    split at isLoading
    · simp at isLoading
    · obtain ⟨none_, noSlot⟩ := sound.loading isLoading
      refine ⟨List.eq_nil_iff_forall_not_mem.mpr fun slot member => ?_, ?_⟩
      · have := fewer slot member
        rw [none_] at this
        exact List.not_mem_nil this
      · have noNew : write.newLastDbSlot = none := by
          rw [promisedSlots, single] at none_
          cases isNew : write.newLastDbSlot with
          | none => rfl
          | some slot => simp [isNew] at none_
        change write.newLastDbSlot.orElse (fun _ => indexer.inner.lastDbSlot) = none
        rw [noNew]
        exact noSlot
  · intro isFailed
    change (if write.ofBootstrap then Bootstrap.done else indexer.bootstrap) = _ at isFailed
    split at isFailed
    · contradiction
    · exact absurd isFailed alive

/-- What a failed write puts back. -/
def putBack (inner : Inner) (rows : List MintRow) : Inner :=
  rows.foldl (fun inner row => inner.markPending row.pubkey row.slot) inner

theorem sameBooks_putBack (inner : Inner) (rows : List MintRow) : SameBooks inner (putBack inner rows) := by
  induction rows generalizing inner with
  | nil => exact SameBooks.refl inner
  | cons row rest ih => exact (Inner.sameBooks_markPending inner row.pubkey row.slot).trans (ih _)

private theorem mem_pendingToDb_putBack (inner : Inner) {rows : List MintRow} {row : MintRow} (member : row ∈ rows) :
    row.pubkey ∈ (putBack inner rows).pendingToDb := by
  induction rows generalizing inner with
  | nil => simp at member
  | cons first rest ih =>
    rcases List.mem_cons.mp member with rfl | later
    · exact (sameBooks_putBack _ rest).waiting _ ((AList.mem_insert _).mpr (Or.inl rfl))
    · exact ih _ later

/-- A key that is put back is queued at its last row's slot, also when it changed again meanwhile. -/
theorem tracks_putBack {inner : Inner} {changes rows : List MintRow} (tracks : Tracks changes inner)
    (rows_ : ∀ row ∈ rows, ∃ last, latest changes row.pubkey = some last ∧ row.slot ≤ last.slot ∧
      (row.pubkey ∈ inner.pendingToDb ∨ row.slot = last.slot)) : Tracks changes (putBack inner rows) := by
  induction rows generalizing inner with
  | nil => exact tracks
  | cons row rest ih =>
    obtain ⟨last, isLatest, bound, fresh⟩ := rows_ row (List.mem_cons_self ..)
    have marked : (inner.markPending row.pubkey row.slot).pendingToDb =
        inner.pendingToDb.mergeMax (row.pubkey, row.slot) := rfl
    refine @ih (inner.markPending row.pubkey row.slot) ?_ ?_
    · refine ⟨tracks.current, fun pubkey slot isQueued => ?_, tracks.ascending⟩
      rw [marked, HashMap.mergeMax, HashMap.lookup_insert] at isQueued
      split at isQueued
      · next same =>
        refine ⟨last, same ▸ isLatest, ?_⟩
        rw [Option.some.injEq] at isQueued
        rw [← isQueued]
        cases before : inner.pendingToDb.lookup row.pubkey with
        | none =>
          have absent : row.pubkey ∉ inner.pendingToDb := AList.lookup_eq_none.mp before
          exact (fresh.resolve_left absent).symm
        | some old =>
          obtain ⟨other, isOther, rfl⟩ := tracks.queued row.pubkey old before
          obtain rfl : other = last := Option.some.inj (isOther.symm.trans isLatest)
          exact (max_eq_left bound).symm
      · exact tracks.queued pubkey slot isQueued
    · intro other member
      obtain ⟨top, isTop, low, fresh⟩ := rows_ other (List.mem_cons_of_mem _ member)
      exact ⟨top, isTop, low, fresh.imp_left fun inside => (AList.mem_insert _).mpr (Or.inr inside)⟩

private theorem Sound.failedWrite (sound : Sound indexer) {index : ℕ} (found : indexer.inFlight[index]? = some write)
    (background : write.ofBootstrap = false) : Sound (indexer.failed index write) := by
  obtain ⟨rfl, single, taken, later, flying⟩ := sound.only found
  have after : indexer.failed 0 write = { indexer with
      inFlight := []
      inner := putBack { indexer.inner with dbWriteRunning := false } write.rows } := by
    simp only [MintIndexer.failed, background, Bool.false_eq_true, if_false, single, List.eraseIdx_cons_zero]
    rfl
  rw [after]
  have books := sameBooks_putBack { indexer.inner with dbWriteRunning := false } write.rows
  have alive : indexer.bootstrap ≠ .failed := by
    intro isFailed
    have := (sound.failed isFailed).2
    rw [single] at this
    contradiction
  have tracks : Tracks indexer.changes { indexer.inner with dbWriteRunning := false } :=
    ⟨sound.tracks.current, sound.tracks.queued, sound.tracks.ascending⟩
  have rows_ : ∀ row ∈ write.rows, ∃ last, latest indexer.changes row.pubkey = some last ∧ row.slot ≤ last.slot ∧
      (row.pubkey ∈ indexer.inner.pendingToDb ∨ row.slot = last.slot) := by
    intro row member
    have isLatest := flying.rows row member
    have inside : row ∈ indexer.changes := flying.whole ▸ List.mem_append_left _ (mem_of_latest isLatest)
    obtain ⟨last, isLast, bound⟩ := exists_latest_above sound.tracks.ascending inside
    refine ⟨last, isLast, bound, ?_⟩
    rcases latest_append_cases taken later row.pubkey with ⟨changed, isLater, same⟩ | same
    · exact Or.inl (same ▸ flying.marked changed isLater)
    · rw [flying.whole, same, isLatest, Option.some.injEq] at isLast
      exact Or.inr (isLast ▸ rfl)
  obtain ⟨stored, complete, located⟩ := flying.resting
    (· ∈ (putBack { indexer.inner with dbWriteRunning := false } write.rows).pendingToDb) books.waiting
    (fun row member => mem_pendingToDb_putBack _ (flying.remaining member))
  have promised : promisedSlots { indexer with
      inFlight := []
      inner := putBack { indexer.inner with dbWriteRunning := false } write.rows } = indexer.published :=
    List.append_nil _
  have fewer : ∀ slot ∈ indexer.published, slot ∈ indexer.promisedSlots := fun slot member =>
    List.mem_append_left _ member
  refine ⟨tracks_putBack tracks rows_, Or.inl ⟨rfl, stored, complete, fun _ => located⟩, fun _ => rfl, ?_, ?_, ?_, ?_, ?_, ?_⟩
  · intro slot member
    rw [promised] at member
    obtain ⟨low, under⟩ := sound.covered slot (fewer slot member)
    exact ⟨low.trans_eq books.lastSlot.symm, fun gap isGap => under gap (books.lowestGap ▸ isGap)⟩
  · exact fun gap isGap => sound.positive gap (books.lowestGap ▸ isGap)
  · rw [promised]
    exact (List.pairwise_append.mp sound.ascending).1
  · exact fun slot isSlot => sound.memory slot (books.lastDbSlot ▸ isSlot)
  · intro isLoading
    obtain ⟨none_, noSlot⟩ := sound.loading isLoading
    refine ⟨?_, books.lastDbSlot.trans noSlot⟩
    rw [promised]
    exact List.eq_nil_iff_forall_not_mem.mpr fun slot member => List.not_mem_nil (none_ ▸ fewer slot member)
  · exact fun isFailed => absurd isFailed alive

/-- A bootstrap that fails leaves its write marked as running, so nothing is written or published any more. -/
theorem Sound.failedBootstrap (sound : Sound indexer) {index : ℕ} (found : indexer.inFlight[index]? = some write)
    (ofBootstrap : write.ofBootstrap = true) : Sound (indexer.failed index write) := by
  obtain ⟨rfl, single, taken, later, flying⟩ := sound.only found
  have after : indexer.failed 0 write = { indexer with inFlight := [], bootstrap := .failed } := by
    simp only [MintIndexer.failed, ofBootstrap, if_true, single, List.eraseIdx_cons_zero]
  rw [after]
  have promised : promisedSlots { indexer with inFlight := [], bootstrap := .failed } = indexer.published :=
    List.append_nil _
  have running : indexer.inner.dbWriteRunning = true := by
    by_contra stopped
    have := sound.idle (Bool.not_eq_true _ ▸ stopped)
    rw [single] at this
    contradiction
  refine ⟨sound.tracks, Or.inl ⟨rfl, ?_, ?_, fun alive => absurd rfl alive⟩, fun _ => rfl, ?_, sound.positive, ?_,
    sound.memory, ?_, fun _ => ⟨running, rfl⟩⟩
  · exact flying.whole ▸ flying.writing.stored.append later
  · exact flying.whole ▸ flying.writing.complete
  · intro slot member
    rw [promised] at member
    exact sound.covered slot (List.mem_append_left _ member)
  · rw [promised]
    exact (List.pairwise_append.mp sound.ascending).1
  · rintro (isLoading | isReady)
    · contradiction
    · contradiction

theorem Sound.step (sound : Sound indexer) (inTime : indexer.InTime event) (moves : indexer.step event = some next) :
    Sound next := by
  cases event with
  | snapshotAccount write =>
    cases moves
    exact sound.snapshotAccount inTime
  | block slot changes lowestGap =>
    cases moves
    exact sound.block inTime
  | bootstrapReady =>
    rw [MintIndexer.step] at moves
    split at moves
    · next loads =>
      cases moves
      obtain ⟨nothing, resting⟩ | ⟨write, _, _, single, _⟩ := sound.state
      · exact ⟨sound.tracks, Or.inl ⟨nothing, resting.stored, resting.complete,
          fun _ => resting.located (by simp [loads.1])⟩, sound.idle, sound.covered, sound.positive, sound.ascending,
          sound.memory, fun _ => sound.loading (Or.inl loads.1), fun isFailed => Bootstrap.noConfusion isFailed⟩
      · rw [sound.idle loads.2] at single
        contradiction
    · contradiction
  | bootstrapTakes =>
    rw [MintIndexer.step] at moves
    split at moves
    · next ready =>
      cases moves
      exact sound.bootstrapTakes ready inTime
    · contradiction
  | upserted index =>
    obtain ⟨write, found, moves⟩ := Option.bind_eq_some_iff.mp moves
    split at moves
    · contradiction
    · cases moves
      exact sound.upserted found
  | published index =>
    obtain ⟨write, found, moves⟩ := Option.bind_eq_some_iff.mp moves
    split at moves
    · next slot isNew =>
      split at moves
      · next done =>
        cases moves
        exact sound.publish found isNew done.1
      · contradiction
    · contradiction
  | succeeded index =>
    obtain ⟨write, found, moves⟩ := Option.bind_eq_some_iff.mp moves
    split at moves
    · next done =>
      cases moves
      exact sound.succeeded found done.1 done.2
    · contradiction
  | failed index =>
    obtain ⟨write, found, rfl⟩ := Option.map_eq_some_iff.mp moves
    cases ofBootstrap : write.ofBootstrap with
    | true => exact sound.failedBootstrap found ofBootstrap
    | false => exact sound.failedWrite found ofBootstrap

end MintIndexer

end Cloudbreak.Model.MintCache
