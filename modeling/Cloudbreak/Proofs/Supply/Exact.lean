import Cloudbreak.Proofs.NonCirculating.Held
import Cloudbreak.Proofs.Supply.BlockView
import Cloudbreak.Model.Supply.Indexer

/-! # When the balance sources of one account are exact

The previous balance of an account comes from its stake-map entry, its zero-prev mark, its cache entry or
its latest row. `Exact` says what each of them holds, relative to the newest version of the account: a
source that the next write consults agrees with that version, and a source that lags behind is one the
next write does not consult. The step lemmas follow one write through all four sources.
-/

namespace Cloudbreak.Model.Supply

open Cloudbreak.ToMathlib
open NonCirculating (Version StakeView versionAt stakeProgramId)

/-- The lamports of an account that may never have been written. -/
def balance (version : Option Version) : ℕ := version.elim 0 Version.lamports

@[simp] theorem balance_none : balance none = 0 := rfl

@[simp] theorem balance_some (version : Version) : balance (some version) = version.lamports := rfl

/-- The stake map's entry is the newest version, or the newest delivered one while older blocks than the
snapshot are still arriving; an account without an entry is none of the map's. -/
structure HeldExact (pinned : Bool) (newest delivered held : Option Version) : Prop where
  known : ∀ version, held = some version → newest = some version ∨ delivered = some version
  absent : held = none → ∀ version, newest = some version ∨ delivered = some version →
    version.stakeOwned = false ∧ pinned = false

/-- The latest row carries the newest version; an account without rows has no lamports. -/
def RowExact (newest : Option Version) : Option PrevRow → Prop
  | some row => ∃ version, newest = some version ∧ version.slot = row.slot ∧ version.lamports = row.lamports
  | none => balance newest = 0

/-- A tombstone below a newer close of an account that has no rows. -/
structure Phantom (newest : Option Version) (row : Option PrevRow) (entry : Entry) : Prop where
  empty : entry.lamports = 0
  rowless : row = none
  closed : ∃ version, newest = some version ∧ version.lamports = 0 ∧ version.stakeOwned = false ∧
    entry.slot ≤ version.slot

/-- The tombstone of the newest close. While it is cached it hides rows that still show the account alive. -/
def Tombstone (newest : Option Version) (cached : Option Entry) : Prop :=
  ∃ entry, cached = some entry ∧ newest = some ⟨entry.slot, 0, false⟩

structure Exact (pinned : Bool) (newest delivered held : Option Version) (view : SupplyView)
    (row : Option PrevRow) : Prop extends HeldExact pinned newest delivered held where
  zeroPrev : view.zeroPrev = true →
    ∃ version, delivered = some version ∧ version.lamports = 0 ∧ version.stakeOwned = false
  cached : ∀ entry, view.cached = some entry →
    newest = some ⟨entry.slot, entry.lamports, false⟩ ∨ Phantom newest row entry
  gapClose : ∀ closed, view.gapClose = some closed → ∃ version, newest = some version ∧ closed ≤ version.slot
  rowExact : (∀ version, newest = some version → version.stakeOwned = false) → view.zeroPrev = false →
    (∀ entry, view.cached = some entry → entry.pinned = false) → RowExact newest row ∨ Tombstone newest view.cached
  rowBound : ∀ latest, row = some latest → ∃ version, newest = some version ∧ latest.slot ≤ version.slot

/-- The stake map's entry of an account after a write to it. -/
def heldAfter (pinned : Bool) (version : Version) : Option Version → Option Version
  | none => if !version.stakeOwned && !pinned then none else some version
  | some old => some (if old.slot ≥ version.slot then old else version)

/-- The latest row of an account after a row was stored for it. -/
def pushRow (row : Option PrevRow) (new : PrevRow) : Option PrevRow :=
  match row with
  | none => some new
  | some old => if toLex (old.slot, old.lamports) < toLex (new.slot, new.lamports) then some new else some old

/-- The latest row of an account after the writes of a block were stored. -/
def rowAfter (snapshotFinished : Bool) (version : Version) (row : Option PrevRow) : Option PrevRow :=
  if version.lamports ≠ 0 ∨ (snapshotFinished = true ∧ row.isSome = true) then
    pushRow row ⟨version.lamports, version.slot⟩
  else row

section Rows

theorem pushRow_newer {row : Option PrevRow} {new : PrevRow} (newer : ∀ old, row = some old → old.slot < new.slot) :
    pushRow row new = some new := by
  cases row with
  | none => rfl
  | some old => exact if_pos (Prod.Lex.toLex_lt_toLex.mpr (Or.inl (newer old rfl)))

theorem pushRow_older {old new : PrevRow} (older : new.slot < old.slot) : pushRow (some old) new = some old := by
  refine if_neg fun less => ?_
  rcases Prod.Lex.toLex_lt_toLex.mp less with later | ⟨same, _⟩
  · exact absurd older (Nat.lt_asymm later)
  · exact absurd same (Nat.ne_of_gt older)

theorem pushRow_same (row : PrevRow) : pushRow (some row) row = some row := if_neg (lt_irrefl _)

theorem pushRow_bound {row : Option PrevRow} {new latest : PrevRow} (pushed : pushRow row new = some latest) :
    latest = new ∨ row = some latest := by
  unfold pushRow at pushed
  split at pushed
  · exact Or.inl (Option.some.inj pushed).symm
  · split at pushed
    · exact Or.inl (Option.some.inj pushed).symm
    · exact Or.inr pushed

theorem rowAfter_bound {snapshotFinished : Bool} {version : Version} {row : Option PrevRow} {latest : PrevRow}
    (after : rowAfter snapshotFinished version row = some latest) :
    latest = ⟨version.lamports, version.slot⟩ ∨ row = some latest := by
  unfold rowAfter at after
  split at after
  · exact pushRow_bound after
  · exact Or.inr after

/-- Storing a write newer than every row makes the row exact. A close must be stored, or have no row to
contradict it. -/
theorem rowExact_rowAfter {snapshotFinished : Bool} {version : Version} {row : Option PrevRow}
    (newer : ∀ latest, row = some latest → latest.slot < version.slot)
    (stored : version.lamports = 0 → snapshotFinished = true ∨ row = none) :
    RowExact (some version) (rowAfter snapshotFinished version row) := by
  unfold rowAfter
  split
  · rw [pushRow_newer newer]
    exact ⟨version, rfl, rfl, rfl⟩
  · next skipped =>
    rw [not_or, not_not, not_and] at skipped
    have none : row = none := by
      rcases stored skipped.1 with finished | none
      · simpa using skipped.2 finished
      · exact none
    rw [none]
    exact skipped.1

end Rows

section Held

variable {pinned : Bool} {newest delivered held : Option Version} {written : Version}

/-- A delivered write is newer than every delivered one; it is the newest version unless the snapshot
already had it or a later one. -/
theorem HeldExact.write (exact_ : HeldExact pinned newest delivered held)
    (later : ∀ version, delivered = some version → version.slot < written.slot)
    {newest' : Option Version}
    (becomes : newest' = some written ∧ (∀ version, newest = some version → version.slot ≤ written.slot ∧
        (version.slot = written.slot → version = written)) ∨
      newest' = newest ∧ ∃ version, newest = some version ∧ written.slot ≤ version.slot) :
    HeldExact pinned newest' (some written) (heldAfter pinned written held) := by
  constructor
  · intro version after
    cases held with
    | none =>
      simp only [heldAfter] at after
      split at after
      · contradiction
      · exact Or.inr after
    | some old =>
      simp only [heldAfter, Option.some.injEq] at after
      split at after
      · next stale =>
        subst after
        rcases exact_.known old rfl with isNewest | wasDelivered
        · rcases becomes with ⟨rfl, bound⟩ | ⟨rfl, _⟩
          · have bound := bound old isNewest
            exact Or.inr (congrArg some (bound.2 (by omega)).symm)
          · exact Or.inl isNewest
        · have := later old wasDelivered
          omega
      · exact Or.inr (congrArg some after)
  · intro after version isVersion
    cases held with
    | some old => simp [heldAfter] at after
    | none =>
      simp only [heldAfter, ite_eq_left_iff, reduceCtorEq, imp_false, not_not, Bool.and_eq_true,
        Bool.not_eq_true'] at after
      rcases isVersion with isNewest | isWritten
      · rcases becomes with ⟨rfl, _⟩ | ⟨rfl, _⟩
        · cases isNewest; exact after
        · exact exact_.absent rfl version (Or.inl isNewest)
      · cases isWritten; exact after

end Held

section NewestWrite

variable {pinned : Bool} {newest delivered held : Option Version} {view : SupplyView} {row : Option PrevRow}
  {slot : ℕ} {p : Pending}

/-- The version a pending write leaves. -/
def Pending.version (slot : ℕ) (p : Pending) : Version := ⟨slot, p.lamports, decide (p.owner = stakeProgramId)⟩

/-- What a newest write leaves of an account the map does not own. -/
def SupplyView.wrote (inGap : Bool) (slot : ℕ) (p : Pending) (view : SupplyView) : SupplyView where
  cached := Entry.write p.lamports slot (decide (p.owner = stakeProgramId)) view.cached
  zeroPrev := false
  gapClose := (view.noteGap inGap slot p).gapClose

/-- A failed block pins the entries it touched. -/
def SupplyView.pinIf (failed : Bool) (view : SupplyView) : SupplyView :=
  if failed then { view with cached := view.cached.map Entry.pin } else view

@[simp] theorem noteGap_cached (inGap : Bool) : (view.noteGap inGap slot p).cached = view.cached := by
  unfold SupplyView.noteGap
  split <;> rfl

@[simp] theorem noteGap_zeroPrev (inGap : Bool) : (view.noteGap inGap slot p).zeroPrev = view.zeroPrev := by
  unfold SupplyView.noteGap
  split <;> rfl

private theorem noteGap_gapClose_le {inGap : Bool} {closed : ℕ}
    (before : ∀ closed, view.gapClose = some closed → closed ≤ slot)
    (noted : (view.noteGap inGap slot p).gapClose = some closed) : closed ≤ slot := by
  unfold SupplyView.noteGap at noted
  split at noted
  · cases gap : view.gapClose with
    | none =>
      rw [gap] at noted
      exact (Option.some.inj noted).symm.le
    | some old =>
      have := before old gap
      rw [gap] at noted
      have := Option.some.inj noted
      simp only [Option.elim] at this
      omega
  · exact before closed noted

/-- An account the map does not own has a newest version it does not own. -/
theorem Exact.plain (exact_ : Exact pinned newest delivered held view row)
    (caughtUp : ∀ version, delivered = some version → newest = some version)
    (unowned : held.any Version.stakeOwned = false) :
    ∀ version, newest = some version → version.stakeOwned = false := by
  intro version isNewest
  cases entry : held with
  | none => exact (exact_.absent entry version (Or.inl isNewest)).1
  | some old =>
    have same : newest = some old := (exact_.known old entry).elim id (caughtUp old)
    rw [isNewest, Option.some.injEq] at same
    rw [entry, Option.any_some] at unowned
    rw [same, unowned]

/-- A gap close never skips a write newer than the newest version. -/
theorem Exact.not_skipped (exact_ : Exact pinned newest delivered held view row)
    (later : ∀ version, newest = some version → version.slot < slot) {isRepaired inGap : Bool}
    (liveGap : isRepaired = true → inGap = false) (p : Pending) :
    (view.noteGap inGap slot p).skips slot isRepaired = false := by
  cases isRepaired with
  | false => rfl
  | true =>
    rw [liveGap rfl]
    cases gap : view.gapClose with
    | none => simp [SupplyView.skips, SupplyView.noteGap, gap]
    | some closed =>
      obtain ⟨version, isNewest, bound⟩ := exact_.gapClose closed gap
      have := later version isNewest
      simp only [SupplyView.skips, SupplyView.noteGap, gap, Option.any_some, Bool.false_and,
        Bool.false_eq_true, if_false, Bool.true_and, Bool.and_eq_false_imp]
      intro _
      simp only [ge_iff_le, decide_eq_false_iff_not]
      omega

/-- A write newer than the newest version counts exactly its balance change, from whichever source. -/
theorem Exact.settle_newest (exact_ : Exact pinned newest delivered held view row)
    (caughtUp : ∀ version, delivered = some version → newest = some version)
    (plain : ∀ version, newest = some version → version.stakeOwned = false)
    (later : ∀ version, newest = some version → version.slot < slot) {isRepaired inGap : Bool}
    (liveGap : isRepaired = true → inGap = false) (p : Pending) :
    (view.noteGap inGap slot p).settle slot isRepaired false row p =
      (view.wrote inGap slot p, (p.lamports : ℤ) - balance newest) := by
  have kept := exact_.not_skipped later liveGap p
  simp only [SupplyView.settle, SupplyView.probed, kept, Bool.false_eq_true, if_false, noteGap_zeroPrev,
    noteGap_cached]
  cases zero : view.zeroPrev with
  | true =>
    obtain ⟨version, wasDelivered, empty, _⟩ := exact_.zeroPrev zero
    have none_ : balance newest = 0 := by rw [caughtUp version wasDelivered]; exact empty
    simp only [Entry.probe, if_true, none_, SupplyView.wrote]
    simp
  | false =>
    cases entry : view.cached with
    | some entry_ =>
      have older : entry_.slot < slot ∧ entry_.lamports = balance newest := by
        rcases exact_.cached entry_ entry with same | phantom
        · exact ⟨later _ same, by rw [same]; rfl⟩
        · obtain ⟨version, isNewest, empty, _, bound⟩ := phantom.closed
          have := later version isNewest
          refine ⟨by omega, ?_⟩
          rw [phantom.empty, isNewest]
          exact empty.symm
      simp only [Entry.probe, Bool.false_eq_true, if_false, if_pos older.1, older.2, SupplyView.wrote, entry]
    | none =>
      have exactRow : RowExact newest row := by
        refine (exact_.rowExact plain zero (by simp [entry])).resolve_right ?_
        rintro ⟨_, cached, _⟩
        simp [entry] at cached
      simp only [Entry.probe, Bool.false_eq_true, if_false, SupplyView.resolved, Entry.resolve]
      cases latest : row with
      | none =>
        rw [latest] at exactRow
        simp only [show balance newest = 0 from exactRow, SupplyView.wrote, entry]
        simp
      | some prev =>
        rw [latest] at exactRow
        obtain ⟨version, isNewest, sameSlot, sameLamports⟩ := exactRow
        have older : prev.slot < slot := sameSlot ▸ later version isNewest
        simp only [if_pos older, isNewest, balance_some, sameLamports, SupplyView.wrote, entry]

/-- A cached balance is never above the newest version. -/
theorem Exact.cached_slot (exact_ : Exact pinned newest delivered held view row) {entry : Entry}
    (cached : view.cached = some entry) : ∃ version, newest = some version ∧ entry.slot ≤ version.slot := by
  rcases exact_.cached entry cached with isNewest | phantom
  · exact ⟨_, isNewest, le_rfl⟩
  · obtain ⟨version, isNewest, _, _, bound⟩ := phantom.closed
    exact ⟨version, isNewest, bound⟩

/-- A write at or above the cached slot leaves its own balance and keeps the pin. -/
theorem write_over {cached : Option Entry} (below : ∀ old, cached = some old → old.slot ≤ slot) (lamports : ℕ) :
    Entry.write lamports slot false cached = some ⟨lamports, slot, cached.any Entry.pinned⟩ := by
  cases cached with
  | none => rfl
  | some old => simp [Entry.write, below old rfl]

private theorem pinIf_cached {failed : Bool} {entry : Entry} (cached : (view.pinIf failed).cached = some entry) :
    ∃ held, view.cached = some held ∧ entry.slot = held.slot ∧ entry.lamports = held.lamports := by
  unfold SupplyView.pinIf at cached
  split at cached
  · obtain ⟨held, isHeld, rfl⟩ := Option.map_eq_some_iff.mp cached
    exact ⟨held, isHeld, rfl, rfl⟩
  · exact ⟨entry, cached, rfl, rfl⟩

private theorem pinIf_gapClose (failed : Bool) (view : SupplyView) : (view.pinIf failed).gapClose = view.gapClose := by
  unfold SupplyView.pinIf
  split <;> rfl

private theorem pinIf_zeroPrev (failed : Bool) (view : SupplyView) : (view.pinIf failed).zeroPrev = view.zeroPrev := by
  unfold SupplyView.pinIf
  split <;> rfl

/-- An account that the map holds as stake-owned has no cached balance and no mark. -/
private theorem Exact.owned_newest (exact_ : Exact pinned newest delivered held view row)
    (caughtUp : ∀ version, delivered = some version → newest = some version)
    (owned : held.any Version.stakeOwned = true) : ∃ old, newest = some old ∧ old.stakeOwned = true := by
  obtain ⟨old, isHeld, isOwned⟩ := (Option.any_eq_true _ _).mp owned
  exact ⟨old, (exact_.known old isHeld).elim id (caughtUp old), isOwned⟩

private theorem Exact.owned_uncached (exact_ : Exact pinned newest delivered held view row) {old : Version}
    (isNewest : newest = some old) (isOwned : old.stakeOwned = true) : view.cached = none := by
  by_contra present
  obtain ⟨entry, cached⟩ := Option.ne_none_iff_exists'.mp present
  rcases exact_.cached entry cached with same | phantom
  · rw [isNewest, Option.some.injEq] at same
    rw [same] at isOwned
    contradiction
  · obtain ⟨version, same, _, plain, _⟩ := phantom.closed
    rw [isNewest, Option.some.injEq] at same
    rw [same, plain] at isOwned
    contradiction

/-- What the newest write leaves in the cache is that write. -/
private theorem wrote_cached (below : ∀ old, view.cached = some old → old.slot ≤ slot) {inGap failed : Bool}
    {entry : Entry} (cached : ((view.wrote inGap slot p).pinIf failed).cached = some entry) :
    some (p.version slot) = some ⟨entry.slot, entry.lamports, false⟩ := by
  obtain ⟨held, left, sameSlot, sameLamports⟩ := pinIf_cached cached
  refine congrArg some ?_
  change Entry.write p.lamports slot (decide (p.owner = stakeProgramId)) view.cached = some held at left
  cases owned : decide (p.owner = stakeProgramId) with
  | true => simp [Entry.write, owned] at left
  | false =>
    rw [owned, write_over below, Option.some.injEq] at left
    subst left
    rw [sameSlot, sameLamports, Pending.version, owned]

/-- The latest row is the newest write, or its tombstone is cached. A failed write leaves its entry pinned. -/
private theorem rowExact_written (rowOlder : ∀ latest, row = some latest → latest.slot < slot)
    (below : ∀ old, view.cached = some old → old.slot ≤ slot) (notStake : p.owner ≠ stakeProgramId)
    {inGap ok snapshotFinished owned : Bool}
    (closeStored : owned = true → ok = true → p.lamports = 0 → snapshotFinished = true ∨ row = none)
    (failedStays : ok = false → owned = true → p.owner = stakeProgramId)
    (unpinned : ∀ entry, (if owned then view.noteGap inGap slot p else (view.wrote inGap slot p).pinIf (!ok)).cached =
      some entry → entry.pinned = false) :
    RowExact (some (p.version slot)) (if ok then rowAfter snapshotFinished (p.version slot) row else row) ∨
      Tombstone (some (p.version slot))
        (if owned then view.noteGap inGap slot p else (view.wrote inGap slot p).pinIf (!ok)).cached := by
  have wrote := write_over below p.lamports
  cases ok with
  | true =>
    by_cases isOwned : owned = true
    · exact Or.inl (rowExact_rowAfter rowOlder (closeStored isOwned rfl))
    · by_cases stored : p.lamports = 0 → snapshotFinished = true ∨ row = none
      · exact Or.inl (rowExact_rowAfter rowOlder stored)
      · -- the rows still show the account alive, but the write left its tombstone
        have closed : p.lamports = 0 := by
          by_contra live
          exact stored fun empty => absurd empty live
        refine Or.inr ⟨⟨p.lamports, slot, view.cached.any Entry.pinned⟩, ?_, ?_⟩
        · rw [if_neg isOwned]
          simpa [SupplyView.pinIf, SupplyView.wrote, notStake] using wrote
        · simp [Pending.version, notStake, closed]
  | false =>
    -- a failed write either leaves the map's account owned or pins the entry it left
    exfalso
    by_cases isOwned : owned = true
    · exact notStake (failedStays rfl isOwned)
    · rw [if_neg isOwned] at unpinned
      simp only [SupplyView.pinIf, SupplyView.wrote, Bool.not_false, if_true, notStake, decide_false, wrote,
        Option.map_some] at unpinned
      exact absurd (unpinned _ rfl) (by simp [Entry.pin])

/-- After the newest write every source is exact again. -/
theorem Exact.write_newest (exact_ : Exact pinned newest delivered held view row)
    (caughtUp : ∀ version, delivered = some version → newest = some version)
    (later : ∀ version, newest = some version → version.slot < slot) (p : Pending)
    {snapshotFinished ok : Bool} (inGap : Bool)
    (closeStored : held.any Version.stakeOwned = true → ok = true → p.lamports = 0 →
      snapshotFinished = true ∨ row = none)
    (failedStays : ok = false → held.any Version.stakeOwned = true → p.owner = stakeProgramId) :
    Exact pinned (some (p.version slot)) (some (p.version slot)) (heldAfter pinned (p.version slot) held)
      (if held.any Version.stakeOwned then view.noteGap inGap slot p
        else (view.wrote inGap slot p).pinIf (!ok))
      (if ok then rowAfter snapshotFinished (p.version slot) row else row) := by
  have gapBound : ∀ closed, (view.noteGap inGap slot p).gapClose = some closed → closed ≤ slot := by
    intro closed noted
    refine noteGap_gapClose_le (fun closed gap => ?_) noted
    obtain ⟨version, isNewest, bound⟩ := exact_.gapClose closed gap
    have := later version isNewest
    omega
  have rowOlder : ∀ latest, row = some latest → latest.slot < slot := by
    intro latest isLatest
    obtain ⟨version, isNewest, bound⟩ := exact_.rowBound latest isLatest
    have := later version isNewest
    omega
  have below : ∀ old, view.cached = some old → old.slot ≤ slot := by
    intro old cached
    obtain ⟨version, isNewest, bound⟩ := exact_.cached_slot cached
    exact bound.trans (later version isNewest).le
  have rowBound : ∀ latest, (if ok then rowAfter snapshotFinished (p.version slot) row else row) = some latest →
      latest.slot ≤ slot := by
    intro latest after
    split at after
    · rcases rowAfter_bound after with rfl | before
      · exact le_rfl
      · exact (rowOlder latest before).le
    · exact (rowOlder latest after).le
  refine ⟨exact_.toHeldExact.write (fun version wasDelivered => later version (caughtUp version wasDelivered))
    (Or.inl ⟨rfl, fun version isNewest => ?_⟩), ?_, ?_, ?_, ?_,
    fun latest after => ⟨_, rfl, rowBound latest after⟩⟩
  · have := later version isNewest
    exact ⟨this.le, fun same => absurd same (Nat.ne_of_lt this)⟩
  · -- the mark is consumed, and an owned account never had one
    intro zero
    split at zero
    · next owned =>
      rw [noteGap_zeroPrev] at zero
      obtain ⟨version, wasDelivered, _, plain⟩ := exact_.zeroPrev zero
      obtain ⟨old, same, isOwned⟩ := exact_.owned_newest caughtUp owned
      rw [caughtUp version wasDelivered, Option.some.injEq] at same
      rw [← same, plain] at isOwned
      contradiction
    · rw [pinIf_zeroPrev] at zero
      simp [SupplyView.wrote] at zero
  · intro entry cached
    split at cached
    · next owned =>
      rw [noteGap_cached] at cached
      obtain ⟨old, isNewest, isOwned⟩ := exact_.owned_newest caughtUp owned
      rw [exact_.owned_uncached isNewest isOwned] at cached
      contradiction
    · exact Or.inl (wrote_cached below cached)
  · intro closed gap
    refine ⟨_, rfl, gapBound closed ?_⟩
    split at gap
    · exact gap
    · rwa [pinIf_gapClose] at gap
  · intro plain _ unpinned
    have notStake : p.owner ≠ stakeProgramId := by
      have := plain _ rfl
      simpa [Pending.version] using this
    exact rowExact_written rowOlder below notStake closeStored failedStays unpinned

end NewestWrite

end Cloudbreak.Model.Supply
