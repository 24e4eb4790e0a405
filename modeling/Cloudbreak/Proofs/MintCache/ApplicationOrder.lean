import Cloudbreak.Proofs.MintCache.StoredMint

/-! # Which sets of mint writes are safe in any order

The store remembers one slot for a key and compares it with every later arrival. A write that leaves
the remembered state as it is does not advance that slot, and a close of an unknown key is not
remembered at all, so a repaired write can still pass a comparison that the newest write should have
settled. The sets below are exactly those for which no order lets that happen.
-/

namespace Cloudbreak.Model.MintCache

/-- The state a write leaves the mint in. -/
def MintChange.state? : MintChange → Option MintState
  | .live state => some state
  | .closed => none

/-- The write with the highest slot. -/
def newestWrite (writes : List MintWrite) : Option MintWrite := writes.argmax MintWrite.slot

/-- An immutable mint never changes on chain, so its creation is the last write to the key. -/
def NothingFollowsImmutable (writes : List MintWrite) : Prop :=
  ∀ sealing ∈ writes, ∀ state, sealing.change = .live state → state.immutable = true →
    ∀ write ∈ writes, write.slot ≤ sealing.slot

/-- Closed mints were never live; the newest live state, once reached, was never left. -/
def OrderSafe (writes : List MintWrite) : Prop :=
  ∀ top ∈ newestWrite writes,
    match top.change with
    | .closed => ∀ write ∈ writes, write.change = .closed
    | .live state => ∀ early ∈ writes, ∀ late ∈ writes,
        early.slot < late.slot → early.change = .live state → late.change = .live state

/-- The newest write decides what a mint is served with. -/
def ServesNewest (store : MintStore) (mint : Pubkey) (writes : List MintWrite) : Prop :=
  ∀ top ∈ newestWrite writes, (store.get mint).served = top.change.state?

namespace StoredMint

/-- The newest live state has not been applied yet, and nothing held now can block it. -/
def Pending (writes : List MintWrite) (target : MintState) : StoredMint → Prop
  | .immutable _ => False
  | .mutable mint => mint.state ≠ target ∧
      ∀ write ∈ writes, write.change = .live target → mint.slot < write.slot
  | .tombstone closed => ∀ write ∈ writes, write.change = .live target → closed < write.slot
  | .missing => True

/-- The newest live state is held, and no other write can replace it. -/
def Settled (writes : List MintWrite) (target : MintState) : StoredMint → Prop
  | .immutable decimals => target = .ofDecimals decimals
  | .mutable mint => mint.state = target ∧
      ∀ write ∈ writes, write.change ≠ .live target → write.slot < mint.slot
  | .tombstone _ => False
  | .missing => False

theorem Settled.served {writes : List MintWrite} {target : MintState} {held : StoredMint}
    (settled : held.Settled writes target) : held.served = some target := by
  cases held with
  | immutable decimals => exact congrArg some settled.symm
  | mutable mint => exact congrArg some settled.1
  | tombstone closed => exact settled.elim
  | missing => exact settled.elim

theorem Settled.apply {writes : List MintWrite} {target : MintState} {held : StoredMint}
    (settled : held.Settled writes target) {write : MintWrite} (member : write ∈ writes) :
    (held.apply write.slot write.change).Settled writes target := by
  cases held with
  | immutable decimals => cases write.change <;> exact settled
  | tombstone closed => exact settled.elim
  | missing => exact settled.elim
  | mutable mint =>
    cases change : write.change with
    | live state =>
      by_cases same : state = target
      · -- an equal state leaves the entry, and its slot, as they are
        have kept : mint.state = state := by rw [settled.1, same]
        simpa only [StoredMint.apply, applyLive, if_pos (Or.inr kept)] using settled
      · have older := settled.2 write member (by rw [change]; simpa using same)
        simpa only [StoredMint.apply, applyLive, if_pos (Or.inl older)] using settled
    | closed =>
      have older := settled.2 write member (by simp [change])
      simpa only [StoredMint.apply, close, if_pos older] using settled

/-- A close of the set leaves a settled mint alone. -/
theorem Settled.close_eq {writes : List MintWrite} {target : MintState} {held : StoredMint}
    (settled : held.Settled writes target) {slot : ℕ} (member : ⟨slot, .closed⟩ ∈ writes) :
    held.close slot true = held := by
  cases held with
  | immutable decimals => rfl
  | tombstone closed => exact settled.elim
  | missing => exact settled.elim
  | mutable mint => exact if_pos (settled.2 _ member MintChange.noConfusion)

section Sufficiency

variable {writes : List MintWrite} {target : MintState}

/-- What makes a target state survive: its writes are above all others, and only it may be
immutable. -/
structure Reachable (writes : List MintWrite) (target : MintState) : Prop where
  above : ∀ reach ∈ writes, reach.change = .live target →
    ∀ write ∈ writes, write.change ≠ .live target → write.slot < reach.slot
  onlySealed : ∀ write ∈ writes, ∀ state, write.change = .live state → state ≠ target →
    state.immutable = false

private theorem settled_written (reachable : Reachable writes target) {write : MintWrite}
    (member : write ∈ writes) (change : write.change = .live target) :
    (written write.slot target).Settled writes target := by
  unfold written
  split
  · next sealed => exact (MintState.ofDecimals_decimals sealed).symm
  · exact ⟨rfl, reachable.above write member change⟩

/-- The target state is accepted wherever it was still pending. -/
theorem Pending.settle (reachable : Reachable writes target) {held : StoredMint}
    (pending : held.Pending writes target) {write : MintWrite} (member : write ∈ writes)
    (change : write.change = .live target) :
    (held.apply write.slot write.change).Settled writes target := by
  rw [change]
  have reached := settled_written reachable member change
  cases held with
  | immutable decimals => exact pending.elim
  | missing => exact reached
  | tombstone closed =>
    have later : ¬closed > write.slot := by have := pending write member change; omega
    simpa only [StoredMint.apply, applyLive, if_neg later] using reached
  | mutable mint =>
    have later : ¬(mint.slot > write.slot ∨ mint.state = target) := by
      rintro (newer | same)
      · have := pending.2 write member change; omega
      · exact pending.1 same
    simpa only [StoredMint.apply, applyLive, if_neg later] using reached

private theorem pending_written (reachable : Reachable writes target) {write : MintWrite}
    (member : write ∈ writes) {state : MintState} (change : write.change = .live state)
    (other : state ≠ target) : (written write.slot state).Pending writes target := by
  have changeNe : write.change ≠ .live target := by rw [change]; simpa using other
  simp only [written, reachable.onlySealed write member state change other, Bool.false_eq_true, if_false]
  exact ⟨other, fun reach memberReach reaches => reachable.above reach memberReach reaches write member changeNe⟩

theorem Pending.apply (reachable : Reachable writes target) {held : StoredMint}
    (pending : held.Pending writes target) {write : MintWrite} (member : write ∈ writes)
    (other : write.change ≠ .live target) :
    (held.apply write.slot write.change).Pending writes target := by
  cases change : write.change with
  | live state =>
    have stateNe : state ≠ target := fun same => other (by rw [change, same])
    have reached := pending_written reachable member change stateNe
    cases held with
    | immutable decimals => exact pending.elim
    | missing => exact reached
    | tombstone closed =>
      simp only [StoredMint.apply, applyLive]
      split
      · exact pending
      · exact reached
    | mutable mint =>
      simp only [StoredMint.apply, applyLive]
      split
      · exact pending
      · exact reached
  | closed =>
    have below : ∀ reach ∈ writes, reach.change = .live target → write.slot < reach.slot :=
      fun reach memberReach reaches => reachable.above reach memberReach reaches write member other
    cases held with
    | immutable decimals => exact pending.elim
    | missing => exact trivial
    | tombstone closed => exact pending
    | mutable mint =>
      simp only [StoredMint.apply, close]
      split
      · exact pending
      · exact below

theorem Settled.applyAll {held : StoredMint} (settled : held.Settled writes target)
    {order : List MintWrite} (members : ∀ write ∈ order, write ∈ writes) :
    (held.applyAll order).Settled writes target := by
  induction order generalizing held with
  | nil => exact settled
  | cons write rest ih =>
    exact ih (settled.apply (members write (List.mem_cons_self ..)))
      (fun other member => members other (List.mem_cons_of_mem _ member))

/-- One application of the target state anywhere in the run settles it. -/
theorem Pending.applyAll (reachable : Reachable writes target) {held : StoredMint}
    (pending : held.Pending writes target) {order : List MintWrite}
    (members : ∀ write ∈ order, write ∈ writes) (reached : ∃ write ∈ order, write.change = .live target) :
    (held.applyAll order).Settled writes target := by
  induction order generalizing held with
  | nil => simp at reached
  | cons write rest ih =>
    have member := members write (List.mem_cons_self ..)
    have restMembers : ∀ other ∈ rest, other ∈ writes :=
      fun other inside => members other (List.mem_cons_of_mem _ inside)
    by_cases change : write.change = .live target
    · exact (pending.settle reachable member change).applyAll restMembers
    · obtain ⟨reach, inside, reaches⟩ := reached
      rcases List.mem_cons.mp inside with rfl | inside
      · exact absurd reaches change
      · exact ih (pending.apply reachable member change) restMembers ⟨reach, inside, reaches⟩

end Sufficiency

private theorem missing_applyAll_closed {order : List MintWrite}
    (closed : ∀ write ∈ order, write.change = .closed) : StoredMint.missing.applyAll order = .missing := by
  induction order with
  | nil => rfl
  | cons write rest ih =>
    have first := closed write (List.mem_cons_self ..)
    simp only [StoredMint.applyAll, List.foldl_cons, first]
    exact ih fun other member => closed other (List.mem_cons_of_mem _ member)

theorem applyAll_append (held : StoredMint) (first second : List MintWrite) :
    held.applyAll (first ++ second) = (held.applyAll first).applyAll second :=
  List.foldl_append

/-- A live write leaves a live mint live, and makes a missing one live. -/
theorem served_applyAll_live {held : StoredMint} {order : List MintWrite}
    (live : ∀ write ∈ order, ∃ state, write.change = .live state)
    (start : held = .missing ∧ order ≠ [] ∨ held.served ≠ none) :
    (held.applyAll order).served ≠ none := by
  induction order generalizing held with
  | nil => exact start.resolve_left fun empty => empty.2 rfl
  | cons write rest ih =>
    obtain ⟨state, change⟩ := live write (List.mem_cons_self ..)
    suffices served (held.apply write.slot write.change) ≠ none from
      ih (fun other member => live other (List.mem_cons_of_mem _ member)) (Or.inr this)
    have wrote : (written write.slot state).served ≠ none := by simp
    rw [change]
    rcases start with ⟨rfl, _⟩ | present
    · exact wrote
    · cases held with
      | immutable decimals => exact present
      | tombstone closed => exact absurd rfl present
      | missing => exact wrote
      | mutable mint =>
        simp only [StoredMint.apply, applyLive]
        split
        · exact present
        · exact wrote

/-- The key is known and nothing held would block a write at `bound`. -/
def Below (bound : ℕ) : StoredMint → Prop
  | .immutable _ => False
  | .mutable mint => mint.slot < bound
  | .tombstone closed => closed < bound
  | .missing => False

theorem Below.apply {bound : ℕ} {held : StoredMint} (below : held.Below bound) {write : MintWrite}
    (older : write.slot < bound)
    (unsealed : ∀ state, write.change = .live state → state.immutable = false) :
    (held.apply write.slot write.change).Below bound := by
  cases change : write.change with
  | live state =>
    have wrote : (written write.slot state).Below bound := by
      simp only [written, unsealed state change, Bool.false_eq_true, if_false]
      exact older
    cases held with
    | immutable decimals => exact below.elim
    | missing => exact below.elim
    | tombstone closed =>
      simp only [StoredMint.apply, applyLive]
      split
      · exact below
      · exact wrote
    | mutable mint =>
      simp only [StoredMint.apply, applyLive]
      split
      · exact below
      · exact wrote
  | closed =>
    cases held with
    | immutable decimals => exact below.elim
    | missing => exact below.elim
    | tombstone closed => exact below
    | mutable mint =>
      simp only [StoredMint.apply, close]
      split
      · exact below
      · exact older

theorem Below.applyAll {bound : ℕ} {held : StoredMint} (below : held.Below bound)
    {order : List MintWrite} (older : ∀ write ∈ order, write.slot < bound)
    (unsealed : ∀ write ∈ order, ∀ state, write.change = .live state → state.immutable = false) :
    (held.applyAll order).Below bound := by
  induction order generalizing held with
  | nil => exact below
  | cons write rest ih =>
    exact ih (below.apply (older write (List.mem_cons_self ..)) (unsealed write (List.mem_cons_self ..)))
      (fun other member => older other (List.mem_cons_of_mem _ member))
      (fun other member => unsealed other (List.mem_cons_of_mem _ member))

/-- A live write above everything held is stored, or it repeats the state that is held. -/
theorem Below.applyLive_cases {held : StoredMint} {slot : ℕ} (below : held.Below slot) (state : MintState) :
    held.applyLive slot state = written slot state ∨
      held.served = some state ∧ held.applyLive slot state = held := by
  cases held with
  | immutable decimals => exact below.elim
  | missing => exact below.elim
  | tombstone closed =>
    have later : ¬closed > slot := Nat.lt_asymm below
    exact Or.inl (by simp only [applyLive, if_neg later])
  | mutable mint =>
    have later : ¬mint.slot > slot := Nat.lt_asymm below
    simp only [applyLive, later, false_or]
    split
    · next same => exact Or.inr ⟨congrArg some same, rfl⟩
    · exact Or.inl rfl

/-- A close above everything held leaves a tombstone. -/
theorem Below.close_cases {held : StoredMint} {slot : ℕ} (below : held.Below slot) :
    ∃ closed, held.close slot true = .tombstone closed := by
  cases held with
  | immutable decimals => exact below.elim
  | missing => exact below.elim
  | tombstone closed => exact ⟨closed, rfl⟩
  | mutable mint =>
    have later : ¬mint.slot > slot := Nat.lt_asymm below
    exact ⟨slot, by simp only [close, if_neg later]⟩

/-- A write above everything held decides what is served. -/
theorem Below.served_apply {held : StoredMint} {write : MintWrite} (below : held.Below write.slot) :
    (held.apply write.slot write.change).served = write.change.state? := by
  cases change : write.change with
  | live state =>
    rw [StoredMint.apply]
    rcases below.applyLive_cases state with wrote | ⟨same, kept⟩
    · rw [wrote]
      exact served_written _ _
    · rw [kept]
      exact same
  | closed =>
    obtain ⟨closed, isClosed⟩ := below.close_cases
    rw [StoredMint.apply, isClosed]
    rfl

/-- A repeated write changes nothing. -/
theorem Below.apply_again {held : StoredMint} {write : MintWrite} (below : held.Below write.slot) :
    (held.apply write.slot write.change).apply write.slot write.change = held.apply write.slot write.change := by
  cases change : write.change with
  | live state =>
    rw [StoredMint.apply, StoredMint.apply]
    rcases below.applyLive_cases state with wrote | ⟨-, kept⟩
    · rw [wrote, written]
      split
      · rfl
      · simp only [applyLive, or_true, if_true]
    · rw [kept, kept]
  | closed =>
    obtain ⟨closed, isClosed⟩ := below.close_cases
    rw [StoredMint.apply, StoredMint.apply, isClosed]
    rfl

/-- Copies of a write above everything held decide what is served. -/
theorem Below.served_applyAll_copies {held : StoredMint} {write : MintWrite} (below : held.Below write.slot)
    {copies : List MintWrite} (same : ∀ copy ∈ copies, copy = write) (nonempty : copies ≠ []) :
    (held.applyAll copies).served = write.change.state? := by
  have stays : ∀ rest : List MintWrite, (∀ copy ∈ rest, copy = write) →
      (held.apply write.slot write.change).applyAll rest = held.apply write.slot write.change := by
    intro rest same
    induction rest with
    | nil => rfl
    | cons copy rest ih =>
      rw [same copy (List.mem_cons_self ..)]
      change ((held.apply write.slot write.change).apply write.slot write.change).applyAll rest = _
      rw [below.apply_again]
      exact ih fun other member => same other (List.mem_cons_of_mem _ member)
  cases copies with
  | nil => exact absurd rfl nonempty
  | cons copy rest =>
    rw [same copy (List.mem_cons_self ..)]
    change ((held.apply write.slot write.change).applyAll rest).served = _
    rw [stays rest fun other member => same other (List.mem_cons_of_mem _ member)]
    exact below.served_apply

/-- Equal live states never move a mutable entry, whatever their slots. -/
theorem mutable_applyAll_same {mint : MutableMint} {order : List MintWrite}
    (same : ∀ write ∈ order, write.change = .live mint.state) :
    (StoredMint.mutable mint).applyAll order = .mutable mint := by
  induction order with
  | nil => rfl
  | cons write rest ih =>
    have first := same write (List.mem_cons_self ..)
    simp only [StoredMint.applyAll, List.foldl_cons, first, StoredMint.apply, applyLive, or_true, if_true]
    exact ih fun other member => same other (List.mem_cons_of_mem _ member)

end StoredMint

section Orders

variable {writes : List MintWrite}

/-- A mint has one version at a slot, however often it is delivered. -/
def OneVersion (writes : List MintWrite) : Prop :=
  ∀ first ∈ writes, ∀ second ∈ writes, first.slot = second.slot → first = second

private theorem oneVersion_of_nodup (distinct : (writes.map MintWrite.slot).Nodup) : OneVersion writes :=
  fun _ memberFirst _ memberSecond same => List.inj_on_of_nodup_map distinct memberFirst memberSecond same

/-- A close that arrives before its mint is forgotten, so closes delivered first never matter. -/
theorem closes_first_stay_live {early : MintWrite} (member : early ∈ writes)
    (live : early.change ≠ .closed) :
    ∃ order, order.Perm writes ∧ (StoredMint.missing.applyAll order).served ≠ none := by
  refine ⟨writes.filter (fun write => write.change = .closed) ++
    writes.filter (fun write => !decide (write.change = .closed)), List.filter_append_perm _ writes, ?_⟩
  rw [StoredMint.applyAll_append, StoredMint.missing_applyAll_closed (by simp)]
  refine StoredMint.served_applyAll_live ?_ (Or.inl ⟨rfl, ?_⟩)
  · intro write inside
    have notClosed := (List.mem_filter.mp inside).2
    cases change : write.change with
    | live state => exact ⟨state, rfl⟩
    | closed => simp [change] at notClosed
  · exact List.ne_nil_of_mem (List.mem_filter.mpr ⟨member, by simpa using live⟩)

/-- The newest write that is not the target can be made the last one that matters. -/
theorem late_write_wins (oneVersion : OneVersion writes)
    (sealed : NothingFollowsImmutable writes) {early late : MintWrite} {target : MintState}
    (memberEarly : early ∈ writes) (memberLate : late ∈ writes) (older : early.slot < late.slot)
    (reaches : early.change = .live target)
    (newer : ∀ write ∈ writes, late.slot < write.slot → write.change = .live target) :
    ∃ rest, (early :: rest).Perm writes ∧
      (StoredMint.missing.applyAll (early :: rest)).served = late.change.state? := by
  have unsealed : ∀ write ∈ writes, write.slot < late.slot →
      ∀ state, write.change = .live state → state.immutable = false := by
    intro write member below state change
    by_contra immutable
    have := sealed write member state change (by simpa using immutable) late memberLate
    omega
  let others := writes.erase early
  let above := others.filter fun write => decide (late.slot < write.slot)
  let upTo := others.filter fun write => !decide (late.slot < write.slot)
  let below := upTo.filter fun write => decide (write.slot < late.slot)
  let last := upTo.filter fun write => !decide (write.slot < late.slot)
  have others_ : ∀ write ∈ others, write ∈ writes := fun write member => List.mem_of_mem_erase member
  refine ⟨above ++ (below ++ last), ?_, ?_⟩
  · have upToPerm : (below ++ last).Perm upTo := List.filter_append_perm _ _
    have othersPerm : (above ++ upTo).Perm others := List.filter_append_perm _ _
    exact (((upToPerm.append_left above).trans othersPerm).cons early).trans
      (List.perm_cons_erase memberEarly).symm
  · -- the first write pins its slot, the equal ones above cannot advance it, and the rest is below
    have first : StoredMint.missing.apply early.slot early.change = .mutable ⟨early.slot, target⟩ := by
      rw [reaches]
      simp only [StoredMint.apply, StoredMint.applyLive, StoredMint.written,
        unsealed early memberEarly older target reaches, Bool.false_eq_true, if_false]
    have kept : (StoredMint.mutable ⟨early.slot, target⟩).applyAll above = .mutable ⟨early.slot, target⟩ := by
      refine StoredMint.mutable_applyAll_same fun write inside => ?_
      have inside := List.mem_filter.mp inside
      exact newer write (others_ write inside.1) (by simpa using inside.2)
    have start : (StoredMint.mutable ⟨early.slot, target⟩).Below late.slot := older
    have held : ((StoredMint.mutable ⟨early.slot, target⟩).applyAll below).Below late.slot := by
      have under : ∀ write ∈ below, write ∈ writes ∧ write.slot < late.slot := fun write inside =>
        ⟨others_ write (List.mem_filter.mp (List.mem_filter.mp inside).1).1, by simpa using (List.mem_filter.mp inside).2⟩
      exact start.applyAll (fun write inside => (under write inside).2)
        fun write inside => unsealed write (under write inside).1 (under write inside).2
    have copies : ∀ write ∈ last, write = late := by
      intro write inside
      have inUpTo := List.mem_filter.mp (List.mem_filter.mp inside).1
      have notAbove : ¬late.slot < write.slot := by simpa using inUpTo.2
      have notBelow : ¬write.slot < late.slot := by simpa using (List.mem_filter.mp inside).2
      exact oneVersion write (others_ write inUpTo.1) late memberLate (by omega)
    have present : late ∈ last := by
      have inOthers : late ∈ others := (List.mem_erase_of_ne fun same => by subst same; omega).mpr memberLate
      simp only [last, upTo, List.mem_filter, inOthers, lt_irrefl, decide_false, Bool.not_false, and_self]
    change ((StoredMint.missing.apply early.slot early.change).applyAll (above ++ (below ++ last))).served = _
    rw [first, StoredMint.applyAll_append, kept, StoredMint.applyAll_append]
    exact held.served_applyAll_copies copies (List.ne_nil_of_mem present)

/-- A state that was left can be made to lose to the highest write that left it. -/
theorem left_state_can_win (oneVersion : OneVersion writes) (sealed : NothingFollowsImmutable writes)
    {early late : MintWrite} {target : MintState} (memberEarly : early ∈ writes) (memberLate : late ∈ writes)
    (older : early.slot < late.slot) (reaches : early.change = .live target)
    (leaves : late.change ≠ .live target) :
    ∃ rest, (early :: rest).Perm writes ∧
      (StoredMint.missing.applyAll (early :: rest)).served ≠ some target := by
  have remains : (writes.filter fun write => write.change ≠ .live target) ≠ [] :=
    List.ne_nil_of_mem (List.mem_filter.mpr ⟨memberLate, by simpa using leaves⟩)
  obtain ⟨last, lastMax⟩ := Option.ne_none_iff_exists'.mp
    (mt (@List.argmax_eq_none _ _ _ _ MintWrite.slot _).mp remains)
  have inside := List.mem_filter.mp (List.argmax_mem lastMax)
  have lateLe : late.slot ≤ last.slot :=
    List.le_of_mem_argmax (List.mem_filter.mpr ⟨memberLate, by simpa using leaves⟩) lastMax
  have lastLeaves : last.change ≠ .live target := by simpa using inside.2
  obtain ⟨rest, arrival, ends⟩ := late_write_wins oneVersion sealed memberEarly inside.1 (by omega)
    reaches (fun write member above => by
      by_contra other
      have := List.le_of_mem_argmax (List.mem_filter.mpr ⟨member, by simpa using other⟩) lastMax
      omega)
  refine ⟨rest, arrival, fun served => ?_⟩
  rw [ends] at served
  cases final : last.change with
  | closed => simp [final, MintChange.state?] at served
  | live state =>
    rw [final] at served
    exact lastLeaves (by rw [final, Option.some.inj served])

end Orders

section Arrivals

variable {store : MintStore} {mint : Pubkey} {writes : List MintWrite}

private theorem servesNewest_applyAll_iff (missing : store.get mint = .missing) (order : List MintWrite) :
    ServesNewest (store.applyAll mint order) mint writes ↔
      ∀ top ∈ newestWrite writes, (StoredMint.missing.applyAll order).served = top.change.state? := by
  unfold ServesNewest
  rw [MintStore.get_applyAll, if_pos rfl, missing]

/-- A newest live state that was never left survives every order. -/
theorem reachable_of_never_left (oneVersion : OneVersion writes) (sealed : NothingFollowsImmutable writes)
    {top : MintWrite} {target : MintState} (newest : top ∈ newestWrite writes) (change : top.change = .live target)
    (kept : ∀ early ∈ writes, ∀ late ∈ writes, early.slot < late.slot → early.change = .live target →
      late.change = .live target) : StoredMint.Reachable writes target := by
  have memberTop : top ∈ writes := List.argmax_mem newest
  refine ⟨fun reach memberReach reaches write member other => ?_, fun write member state live other => ?_⟩
  · by_contra notBelow
    rcases Nat.lt_or_eq_of_le (Nat.not_lt.mp notBelow) with later | same
    · exact other (kept reach memberReach write member later reaches)
    · exact other (by rw [oneVersion write member reach memberReach same.symm, reaches])
  · by_contra immutable
    have below := sealed write member state live (by simpa using immutable) top memberTop
    have above := List.le_of_mem_argmax member newest
    have same := oneVersion write member top memberTop (by omega)
    rw [same, change, MintChange.live.injEq] at live
    exact other live.symm

private theorem OrderSafe.servesNewest (safe : OrderSafe writes) (missing : store.get mint = .missing)
    (distinct : (writes.map MintWrite.slot).Nodup) (sealed : NothingFollowsImmutable writes)
    {order : List MintWrite} (arrival : order.Perm writes) :
    ServesNewest (store.applyAll mint order) mint writes := by
  rw [servesNewest_applyAll_iff missing]
  intro top newest
  have memberTop : top ∈ writes := List.argmax_mem newest
  have safe := safe top newest
  cases change : top.change with
  | closed =>
    rw [change] at safe
    rw [StoredMint.missing_applyAll_closed fun write member => safe write (arrival.subset member)]
    rfl
  | live target =>
    rw [change] at safe
    have reachable := reachable_of_never_left (oneVersion_of_nodup distinct) sealed newest change safe
    have start : StoredMint.missing.Pending writes target := trivial
    exact (start.applyAll reachable (fun write member => arrival.subset member)
      ⟨top, arrival.symm.subset memberTop, change⟩).served

/-- For a set of writes to a mint the store does not hold, every order of arrival leaves the newest
write's state exactly when the set is safe. -/
theorem newest_write_wins_iff (missing : store.get mint = .missing)
    (distinct : (writes.map MintWrite.slot).Nodup) (sealed : NothingFollowsImmutable writes) :
    (∀ order, order.Perm writes → ServesNewest (store.applyAll mint order) mint writes) ↔
      OrderSafe writes := by
  constructor
  · intro always top newest
    have always : ∀ order, order.Perm writes →
        (StoredMint.missing.applyAll order).served = top.change.state? :=
      fun order arrival => (servesNewest_applyAll_iff missing order).mp (always order arrival) top newest
    cases change : top.change with
    | closed =>
      intro write member
      by_contra live
      obtain ⟨order, arrival, present⟩ := closes_first_stay_live member live
      exact present (by rw [always order arrival, change]; rfl)
    | live target =>
      intro early memberEarly late memberLate older reaches
      by_contra leaves
      obtain ⟨rest, arrival, ends⟩ := left_state_can_win (oneVersion_of_nodup distinct) sealed memberEarly
        memberLate older reaches leaves
      exact ends (by rw [always _ arrival, change]; rfl)
  · intro safe order arrival
    exact safe.servesNewest missing distinct sealed arrival

section Examples

private def decimalsOnly (decimals : UInt8) : MintState := ⟨decimals, none, false, MintState.plain_none false⟩

theorem newest_write_wins_iff_two_updates :
    ServesNewest (MintStore.default.applyAll 7 [⟨20, .live (decimalsOnly 9)⟩, ⟨10, .live (decimalsOnly 6)⟩]) 7
      [⟨10, .live (decimalsOnly 6)⟩, ⟨20, .live (decimalsOnly 9)⟩] := by
  refine (newest_write_wins_iff (MintStore.get_default 7) (by decide) ?_).mpr ?_ _ (by decide)
  · simp [NothingFollowsImmutable, decimalsOnly]
  · intro top newest
    have newest : top = ⟨20, .live (decimalsOnly 9)⟩ := by
      simpa [newestWrite, eq_comm, List.argmax, List.argAux] using newest
    subst newest
    simp [decimalsOnly]

private def repairedWrites : List MintWrite :=
  [⟨10, .live (decimalsOnly 6)⟩, ⟨20, .live (decimalsOnly 9)⟩, ⟨30, .live (decimalsOnly 6)⟩]

/-- The equal write at 30 leaves the entry at slot 10, so the repaired write at 20 replaces it. -/
theorem equal_write_does_not_hold_its_slot :
    (repairedWrites.map MintWrite.slot).Nodup ∧ NothingFollowsImmutable repairedWrites ∧
      ∃ order, order.Perm repairedWrites ∧
        ¬ServesNewest (MintStore.default.applyAll 7 order) 7 repairedWrites := by
  refine ⟨by decide, by simp [NothingFollowsImmutable, repairedWrites, decimalsOnly],
    [⟨10, .live (decimalsOnly 6)⟩, ⟨30, .live (decimalsOnly 6)⟩, ⟨20, .live (decimalsOnly 9)⟩],
    by decide, ?_⟩
  intro serves
  exact absurd (serves ⟨30, .live (decimalsOnly 6)⟩ (by decide)) (by decide)

end Examples

end Arrivals

end Cloudbreak.Model.MintCache
