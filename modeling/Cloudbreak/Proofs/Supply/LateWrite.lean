import Cloudbreak.Proofs.Supply.Exact

/-! # Writes that are not the newest

A repaired write below the newest version must count zero and leave every source as it was, and a live
write at or below the startup slot is stored and seen by the stake map while the tracker ignores it. Both
keep the sources exact under the conditions stated here.
-/

namespace Cloudbreak.Model.Supply

open Cloudbreak.ToMathlib
open NonCirculating (Version stakeProgramId)

variable {pinned : Bool} {newest delivered held : Option Version} {view : SupplyView} {row : Option PrevRow}
  {slot : ℕ} {p : Pending}

/-- A write below the newest version cannot move the map's entry. -/
theorem heldAfter_older (exact_ : HeldExact pinned newest delivered held)
    (caughtUp : ∀ version, delivered = some version → newest = some version) {last written : Version}
    (isNewest : newest = some last) (older : written.slot < last.slot)
    (known : written.stakeOwned = true → held ≠ none) : heldAfter pinned written held = held := by
  cases held with
  | none =>
    have plain : written.stakeOwned = false := by
      by_contra owned
      exact known (by simpa using owned) rfl
    have free := (exact_.absent rfl last (Or.inl isNewest)).2
    simp only [heldAfter, plain, free, Bool.not_false, Bool.and_true, if_true]
  | some old =>
    have same : newest = some old := (exact_.known old rfl).elim id (caughtUp old)
    rw [isNewest, Option.some.injEq] at same
    have stale : old.slot ≥ written.slot := by rw [← same]; exact older.le
    simp only [heldAfter, if_pos stale]

/-- The latest row stays when an older row is stored, if it was exact. -/
theorem rowExact_rowAfter_older {snapshotFinished : Bool} {last written : Version}
    (exactRow : RowExact (some last) row) (older : written.slot < last.slot)
    (visible : last.lamports = 0 → row = none → written.lamports = 0) :
    rowAfter snapshotFinished written row = row := by
  unfold rowAfter
  split
  · next stored =>
    cases row with
    | none =>
      have empty : written.lamports = 0 := visible exactRow rfl
      rcases stored with nonzero | ⟨_, present⟩
      · exact absurd empty nonzero
      · simp at present
    | some old =>
      obtain ⟨version, same, sameSlot, _⟩ := exactRow
      cases same
      exact pushRow_older (by rw [← sameSlot]; exact older)
  · rfl

private theorem rowAfter_none {snapshotFinished : Bool} {written : Version} (empty : written.lamports = 0) :
    rowAfter snapshotFinished written none = none := by
  simp [rowAfter, empty]

/-- What a repaired write below the newest version leaves of the rows, by bound. -/
theorem Exact.rowBound_older (exact_ : Exact pinned newest delivered held view row) (p : Pending)
    (snapshotFinished : Bool) {last : Version} (isNewest : newest = some last) (older : slot < last.slot) :
    ∀ latest, rowAfter snapshotFinished (p.version slot) row = some latest →
      ∃ version, newest = some version ∧ latest.slot ≤ version.slot := by
  intro latest after
  rcases rowAfter_bound after with rfl | before
  · exact ⟨last, isNewest, older.le⟩
  · exact exact_.rowBound latest before

/-- Below a cached tombstone of the newest close, a write counts nothing whatever it does to the rows. -/
theorem Exact.write_older_hidden (exact_ : Exact pinned newest delivered held view row) (p : Pending)
    (snapshotFinished : Bool) {last : Version} (isNewest : newest = some last) (older : slot < last.slot)
    (hidden : Tombstone newest view.cached) (consumed : view.zeroPrev = false) :
    (view.settle slot true false row p).2 = 0 ∧
      Exact pinned newest delivered held (view.settle slot true false row p).1
        (rowAfter snapshotFinished (p.version slot) row) := by
  obtain ⟨entry, cached, isClose⟩ := hidden
  have empty : entry.lamports = 0 := by
    rcases exact_.cached entry cached with same | phantom
    · rw [same, Option.some.injEq] at isClose
      exact congrArg Version.lamports isClose
    · exact phantom.empty
  have notBefore : ¬entry.slot < slot := by
    rw [isNewest, Option.some.injEq] at isClose
    rw [isClose] at older
    exact Nat.lt_asymm older
  have settled : view.settle slot true false row p = (⟨view.cached, false, view.gapClose⟩, 0) := by
    cases skip : view.skips slot true <;>
      simp [SupplyView.settle, SupplyView.probed, skip, consumed, Entry.probe, cached, notBefore]
  rw [settled]
  refine ⟨rfl, { exact_ with
    zeroPrev := fun zero => by simp at zero
    cached := fun other inCache => Or.inl ?_
    rowExact := fun _ _ _ => Or.inr ⟨entry, cached, isClose⟩
    rowBound := exact_.rowBound_older p snapshotFinished isNewest older }⟩
  have inCache : view.cached = some other := inCache
  rw [cached, Option.some.injEq] at inCache
  rw [← inCache, isClose, empty]

/-- A phantom of the cache stays one, for the row of a write below its close is dropped as well. -/
private theorem Phantom.row_older (isNewest : newest = some last)
    (visible : last.lamports = 0 → row = none → p.lamports = 0) {snapshotFinished : Bool} {entry : Entry}
    (phantom : Phantom newest row entry) :
    Phantom newest (rowAfter snapshotFinished (p.version slot) row) entry := by
  obtain ⟨version, same, empty, plain, bound⟩ := phantom.closed
  rw [isNewest, Option.some.injEq] at same
  have dropped : rowAfter snapshotFinished (p.version slot) row = none := by
    rw [phantom.rowless]
    exact rowAfter_none (visible (same ▸ empty) phantom.rowless)
  exact ⟨phantom.empty, dropped, version, by rw [isNewest, same], empty, plain, bound⟩

/-- A repaired write below the newest version may change the cache entry alone, into an exact one or a phantom. -/
private theorem Exact.recached (exact_ : Exact pinned newest delivered held view row) {snapshotFinished : Bool}
    (isNewest : newest = some last) (older : slot < last.slot) {cached : Option Entry}
    (sound : ∀ entry, cached = some entry → newest = some ⟨entry.slot, entry.lamports, false⟩ ∨
      Phantom newest (rowAfter snapshotFinished (p.version slot) row) entry)
    (rowFine : (∀ entry, cached = some entry → entry.pinned = false) →
      RowExact newest (rowAfter snapshotFinished (p.version slot) row)) :
    Exact pinned newest delivered held ⟨cached, false, view.gapClose⟩
      (rowAfter snapshotFinished (p.version slot) row) :=
  { exact_ with
    zeroPrev := fun zero => by simp at zero
    cached := sound
    rowExact := fun _ _ unpinned => Or.inl (rowFine unpinned)
    rowBound := exact_.rowBound_older p snapshotFinished isNewest older }

/-- A cached balance below the repaired write is a phantom, and the write a close as well. -/
private theorem Exact.write_over_phantom (exact_ : Exact pinned newest delivered held view row)
    {snapshotFinished : Bool} (isNewest : newest = some last) (older : slot < last.slot)
    (consumed : view.zeroPrev = false) (visible : last.lamports = 0 → row = none → p.lamports = 0)
    (skip : view.skips slot true = false) {entry : Entry} (cached : view.cached = some entry)
    (before : entry.slot < slot) :
    (view.settle slot true false row p).2 = 0 ∧
      Exact pinned newest delivered held (view.settle slot true false row p).1
        (rowAfter snapshotFinished (p.version slot) row) := by
  have phantom : Phantom newest row entry := by
    refine (exact_.cached entry cached).resolve_left fun exactEntry => ?_
    rw [isNewest, Option.some.injEq] at exactEntry
    rw [exactEntry] at older
    exact Nat.lt_asymm older before
  obtain ⟨version, same, empty, plainVersion, bound⟩ := phantom.closed
  rw [isNewest, Option.some.injEq] at same
  have silent : p.lamports = 0 := visible (same ▸ empty) phantom.rowless
  have stays : Phantom newest (rowAfter snapshotFinished (p.version slot) row) entry :=
    phantom.row_older isNewest visible
  have settled : view.settle slot true false row p =
      (⟨Entry.write 0 slot (decide (p.owner = stakeProgramId)) (some entry), false, view.gapClose⟩, 0) := by
    simp [SupplyView.settle, SupplyView.probed, skip, consumed, Entry.probe, cached, before, silent, phantom.empty]
  rw [settled]
  refine ⟨rfl, exact_.recached isNewest older (fun moved wrote => ?_) fun _ => ?_⟩
  · unfold Entry.write at wrote
    split at wrote
    · contradiction
    · simp only [if_pos (show slot ≥ entry.slot from before.le), Option.some.injEq] at wrote
      subst wrote
      exact Or.inr ⟨rfl, stays.rowless, version, by rw [isNewest, same], empty, plainVersion,
        by rw [← same]; exact older.le⟩
  · rw [stays.rowless, isNewest, same]
    exact empty

/-- Without a cached balance the row decides: a closed account gets a phantom, any other its newest balance. -/
private theorem Exact.write_uncached (exact_ : Exact pinned newest delivered held view row) {snapshotFinished : Bool}
    (isNewest : newest = some last) (older : slot < last.slot) (consumed : view.zeroPrev = false)
    (plain : last.stakeOwned = false) (visible : last.lamports = 0 → row = none → p.lamports = 0)
    (skip : view.skips slot true = false) (uncached : view.cached = none) (exactRow : RowExact newest row)
    (stays : RowExact newest (rowAfter snapshotFinished (p.version slot) row)) :
    (view.settle slot true false row p).2 = 0 ∧
      Exact pinned newest delivered held (view.settle slot true false row p).1
        (rowAfter snapshotFinished (p.version slot) row) := by
  cases latest : row with
  | none =>
    -- a closed account without rows: the close counts nothing and leaves a phantom
    have empty : last.lamports = 0 := by rw [latest, isNewest] at exactRow; exact exactRow
    have silent : p.lamports = 0 := visible empty latest
    have settled : view.settle slot true false none p =
        (⟨Entry.write 0 slot (decide (p.owner = stakeProgramId)) none, false, view.gapClose⟩, 0) := by
      simp [SupplyView.settle, SupplyView.probed, skip, consumed, Entry.probe, uncached, silent,
        SupplyView.resolved, Entry.resolve]
    rw [settled, ← latest]
    refine ⟨rfl, exact_.recached isNewest older (fun moved wrote => ?_) fun _ => stays⟩
    unfold Entry.write at wrote
    split at wrote
    · contradiction
    · cases wrote
      refine Or.inr ⟨rfl, ?_, last, isNewest, empty, plain, older.le⟩
      rw [latest]
      exact rowAfter_none silent
  | some prev =>
    have again := exactRow
    rw [latest] at again
    obtain ⟨version, same, sameSlot, sameLamports⟩ := again
    have isVersion := same
    rw [isNewest, Option.some.injEq] at isVersion
    have newer : ¬prev.slot < slot := by
      rw [isVersion] at older
      omega
    have settled : view.settle slot true false (some prev) p =
        (⟨Entry.write prev.lamports prev.slot (decide (p.owner = stakeProgramId)) none, false,
          view.gapClose⟩, 0) := by
      simp [SupplyView.settle, SupplyView.probed, skip, consumed, Entry.probe, uncached,
        SupplyView.resolved, Entry.resolve, newer]
    rw [settled, ← latest]
    refine ⟨rfl, exact_.recached isNewest older (fun moved wrote => ?_) fun _ => stays⟩
    unfold Entry.write at wrote
    split at wrote
    · contradiction
    · cases wrote
      refine Or.inl ?_
      rw [same]
      exact congrArg some (Version.ext sameSlot sameLamports (isVersion ▸ plain))

/-- Without that tombstone the latest row is exact, an older row cannot replace it, and the write counts
nothing either. -/
theorem Exact.write_older_shown (exact_ : Exact pinned newest delivered held view row) (p : Pending)
    (snapshotFinished : Bool) {last : Version} (isNewest : newest = some last) (older : slot < last.slot)
    (consumed : view.zeroPrev = false) (plain : ∀ version, newest = some version → version.stakeOwned = false)
    (shown : ¬Tombstone newest view.cached) (visible : last.lamports = 0 → row = none → p.lamports = 0) :
    (view.settle slot true false row p).2 = 0 ∧
      Exact pinned newest delivered held (view.settle slot true false row p).1
        (rowAfter snapshotFinished (p.version slot) row) := by
  have exactRow (unpinned : ∀ entry, view.cached = some entry → entry.pinned = false) : RowExact newest row :=
    (exact_.rowExact plain consumed unpinned).resolve_right shown
  have rowExact : RowExact newest row → RowExact newest (rowAfter snapshotFinished (p.version slot) row) := by
    intro exactRow
    rw [isNewest] at exactRow
    rw [rowExact_rowAfter_older exactRow older visible, isNewest]
    exact exactRow
  have kept : Exact pinned newest delivered held ⟨view.cached, false, view.gapClose⟩
      (rowAfter snapshotFinished (p.version slot) row) :=
    exact_.recached isNewest older
      (fun entry cached => (exact_.cached entry cached).imp id (Phantom.row_older isNewest visible))
      fun unpinned => rowExact (exactRow unpinned)
  cases skip : view.skips slot true with
  | true =>
    have settled : view.settle slot true false row p = (⟨view.cached, false, view.gapClose⟩, 0) := by
      simp [SupplyView.settle, SupplyView.probed, skip]
    rw [settled]
    exact ⟨rfl, kept⟩
  | false =>
    cases cached : view.cached with
    | some entry =>
      by_cases before : entry.slot < slot
      · exact exact_.write_over_phantom isNewest older consumed visible skip cached before
      · have settled : view.settle slot true false row p = (⟨view.cached, false, view.gapClose⟩, 0) := by
          simp [SupplyView.settle, SupplyView.probed, skip, consumed, Entry.probe, cached, before]
        rw [settled]
        exact ⟨rfl, kept⟩
    | none =>
      have isRow := exactRow (by simp [cached])
      exact exact_.write_uncached isNewest older consumed (plain last isNewest) visible skip cached isRow
        (rowExact isRow)

/-- A repaired write below the newest version counts nothing and leaves the account exact. It must not
bring a stake-owned entry to an account the map does not know, nor a row to a closed account that has
none, unless the tombstone of that close is still cached. -/
theorem Exact.write_older (exact_ : Exact pinned newest delivered held view row)
    (caughtUp : ∀ version, delivered = some version → newest = some version) (p : Pending)
    (snapshotFinished : Bool) {last : Version} (isNewest : newest = some last) (older : slot < last.slot)
    (consumed : view.zeroPrev = false) (known : p.owner = stakeProgramId → held ≠ none)
    (visible : last.lamports = 0 → row = none →
      p.lamports = 0 ∨ view.cached.any (fun entry => entry.slot = last.slot) = true) :
    (view.settle slot true (held.any Version.stakeOwned) row p).2 = 0 ∧
      Exact pinned newest delivered (heldAfter pinned (p.version slot) held)
        (view.settle slot true (held.any Version.stakeOwned) row p).1
        (rowAfter snapshotFinished (p.version slot) row) := by
  have heldKept : heldAfter pinned (p.version slot) held = held :=
    heldAfter_older exact_.toHeldExact caughtUp isNewest older (by simpa [Pending.version] using known)
  rw [heldKept]
  cases owned : held.any Version.stakeOwned with
  | true =>
    -- the newest version is the map's, so neither the cache nor the rows have to agree with it
    obtain ⟨old, isHeld, isOwned⟩ := (Option.any_eq_true _ _).mp owned
    have same := (exact_.known old isHeld).elim id (caughtUp old)
    refine ⟨rfl, { exact_ with
      cached := fun entry cached => ?_
      rowExact := fun plain _ _ => ?_
      rowBound := exact_.rowBound_older p snapshotFinished isNewest older }⟩
    · rcases exact_.cached entry cached with exactEntry | phantom
      · rw [exactEntry, Option.some.injEq] at same
        rw [← same] at isOwned
        contradiction
      · obtain ⟨version, isVersion, _, plain, _⟩ := phantom.closed
        rw [isVersion, Option.some.injEq] at same
        rw [← same, plain] at isOwned
        contradiction
    · rw [plain old same] at isOwned
      contradiction
  | false =>
    have plain := exact_.plain caughtUp owned
    by_cases hidden : Tombstone newest view.cached
    · exact exact_.write_older_hidden p snapshotFinished isNewest older hidden consumed
    · refine exact_.write_older_shown p snapshotFinished isNewest older consumed plain hidden fun empty rowless => ?_
      refine (visible empty rowless).resolve_right fun stillCached => hidden ?_
      obtain ⟨entry, cached, sameSlot⟩ := (Option.any_eq_true _ _).mp stillCached
      refine ⟨entry, cached, ?_⟩
      rw [isNewest, of_decide_eq_true sameSlot]
      exact congrArg some (Version.ext rfl empty (plain last isNewest))

section Idle

/-- A live write at or below the startup slot, once the tracker is live: the stake map sees it, its row is
stored, and nothing is counted. The snapshot may already hold it, or a later version. -/
theorem Exact.write_idle (exact_ : Exact pinned newest delivered held view row)
    (later : ∀ version, delivered = some version → version.slot < slot) {newest' : Option Version}
    (becomes : newest' = some (p.version slot) ∧ (∀ version, newest = some version → version.slot < slot) ∨
      newest' = newest ∧ ∃ version, newest = some version ∧ version.lamports ≠ 0 ∧ slot ≤ version.slot ∧
        (slot = version.slot → version = p.version slot))
    (uncached : view.cached = none) (noGap : view.gapClose = none)
    (stillEmpty : view.zeroPrev = true → p.lamports = 0)
    (plainClose : p.lamports = 0 → p.owner ≠ stakeProgramId) {snapshotFinished : Bool}
    (closeStored : p.lamports = 0 → view.zeroPrev = false → newest' = some (p.version slot) →
      snapshotFinished = true ∨ row = none) :
    Exact pinned newest' (some (p.version slot)) (heldAfter pinned (p.version slot) held) view
      (rowAfter snapshotFinished (p.version slot) row) := by
  refine ⟨exact_.toHeldExact.write later ?_, fun zero => ⟨_, rfl, stillEmpty zero, ?_⟩, ?_, ?_, ?_, ?_⟩
  · rcases becomes with ⟨rfl, older⟩ | ⟨same, version, isNewest, _, bound, _⟩
    · refine Or.inl ⟨rfl, fun version isNewest => ?_⟩
      have := older version isNewest
      exact ⟨this.le, fun equal => absurd equal (Nat.ne_of_lt this)⟩
    · exact Or.inr ⟨same, version, isNewest, bound⟩
  · simpa [Pending.version] using plainClose (stillEmpty zero)
  · intro entry cached
    rw [uncached] at cached
    contradiction
  · intro closed gap
    rw [noGap] at gap
    contradiction
  · intro plain zero unpinned
    rcases becomes with ⟨rfl, older⟩ | ⟨rfl, version, isNewest, nonzero, bound, equal⟩
    · refine Or.inl (rowExact_rowAfter (fun latest isLatest => ?_) (fun empty => closeStored empty zero rfl))
      obtain ⟨version, isNewest, bound⟩ := exact_.rowBound latest isLatest
      exact bound.trans_lt (older version isNewest)
    · have exactRow : RowExact newest' row := by
        refine (exact_.rowExact plain zero unpinned).resolve_right ?_
        rintro ⟨_, cached, _⟩
        rw [uncached] at cached
        contradiction
      refine Or.inl ?_
      rw [isNewest] at exactRow ⊢
      rcases Nat.lt_or_eq_of_le bound with older | same
      · rw [rowExact_rowAfter_older exactRow older (fun empty _ => absurd empty nonzero)]
        exact exactRow
      · -- the snapshot's own version arrives again
        have equal := equal same
        cases row with
        | none => exact absurd exactRow nonzero
        | some old =>
          obtain ⟨_, itself, sameSlot, sameLamports⟩ := exactRow
          cases itself
          have again : (⟨(p.version slot).lamports, (p.version slot).slot⟩ : PrevRow) = old := by
            rw [← equal, sameSlot, sameLamports]
          unfold rowAfter
          split
          · rw [again, pushRow_same]
            exact ⟨version, rfl, sameSlot, sameLamports⟩
          · exact ⟨version, rfl, sameSlot, sameLamports⟩
  · intro latest after
    rcases becomes with ⟨rfl, older⟩ | ⟨rfl, version, isNewest, _, bound, _⟩
    · refine ⟨_, rfl, ?_⟩
      rcases rowAfter_bound after with rfl | before
      · exact le_rfl
      · obtain ⟨version, isNewest, bound⟩ := exact_.rowBound latest before
        exact (bound.trans_lt (older version isNewest)).le
    · rcases rowAfter_bound after with rfl | before
      · exact ⟨version, isNewest, bound⟩
      · exact exact_.rowBound latest before

end Idle

end Cloudbreak.Model.Supply
