import Cloudbreak.Proofs.NonCirculating.NewestWrite

/-! # The newest write wins, before and after the flip

A run whose deliveries are in sequence ends with the newest record of every account: the flip keeps it, and
so do the blocks that come after it, repaired or not. Two orders are outside: a snapshot account that left
the stake program after an older version was seeded, and a stake-owned write that comes back after a write
that left no stamp. Both leave the map with a version that is no longer true.
-/

namespace Cloudbreak.Model.NonCirculating

open Cloudbreak.ToMathlib

variable {shared : Shared} {records : Pubkey → List StakeEntry} {state : State}

/-- The conditions on one delivery, given what was delivered before it. -/
def State.Sequential (shared : Shared) (earlier : Pubkey → List StakeEntry) (state : State) : Feed → Prop
  | .seed slot account =>
    state.status = .bootstrapping ∧ InSequence shared (earlier account.pubkey) state true slot account
  | .block slot isRepaired accounts =>
    (isRepaired ∨ state.slot < slot) ∧ (accounts.map AccountInfo.pubkey).Nodup ∧
      (∀ account ∈ accounts, InSequence shared (earlier account.pubkey) state false slot account) ∧
      (state.status = .live → state.ClockAdvances shared accounts)
  | .finishBootstrap => True

instance (earlier : Pubkey → List StakeEntry) : (event : Feed) → Decidable (state.Sequential shared earlier event)
  | .seed _ _ => inferInstanceAs (Decidable (_ ∧ _))
  | .block _ _ _ => inferInstanceAs (Decidable (_ ∧ _))
  | .finishBootstrap => inferInstanceAs (Decidable True)

private theorem State.Sequential.liveFeed {event : Feed} (sequential : state.Sequential shared records event) :
    state.LiveFeed shared event := by
  cases event with
  | seed slot account => exact sequential.1
  | block slot isRepaired accounts => exact sequential.2.2.2
  | finishBootstrap => trivial

/-- A live tracker stays live. -/
theorem State.Sequential.live {event : Feed} {next : State} (sequential : state.Sequential shared records event)
    (live : state.status = .live) (fed : state.feed shared event = some next) : next.status = .live := by
  cases event with
  | seed slot account =>
    have booting := sequential.1
    rw [live] at booting
    contradiction
  | block slot isRepaired accounts =>
    cases fed
    exact (State.applyBlock_status shared slot sequential.1).trans live
  | finishBootstrap =>
    rw [State.feed, State.finishBootstrap, if_pos live] at fed
    contradiction

/-- The flip keeps stake-owned and pinned records and drops the shadows. -/
theorem finishBootstrap_record {next : State} (unplaced : State.Unplaced shared state)
    (finished : state.finishBootstrap = some next) :
    next.seedShadow = ∅ ∧ ∀ key, next.record key =
      (state.record key).filter fun held => held.stakeOwned || decide (key ∈ shared.pinned) := by
  unfold State.finishBootstrap at finished
  split at finished
  · contradiction
  · split at finished
    · contradiction
    · cases finished
      refine ⟨rfl, fun key => ?_⟩
      have placedRecord : ∀ (items : List ((_ : Pubkey) × StakeEntry)) (membership : Membership)
          (accounts : HashMap Pubkey StakeEntry),
          (∀ item ∈ items, (accounts.lookup item.1).map StakeEntry.written = some item.2.written) →
          ((items.foldl (fun placed item =>
            ((placed.1.place item.1 item.2).1, placed.2.insert item.1 (placed.1.place item.1 item.2).2.1))
            (membership, accounts)).2.lookup key).map StakeEntry.written =
              (accounts.lookup key).map StakeEntry.written := by
        intro items
        induction items with
        | nil => exact fun _ _ _ => rfl
        | cons item rest ih =>
          intro membership accounts listed
          have same : ∀ other, ((accounts.insert item.1 (membership.place item.1 item.2).2.1).lookup other).map
              StakeEntry.written = (accounts.lookup other).map StakeEntry.written := by
            intro other
            rw [HashMap.lookup_insert]
            split
            · next equal =>
              rw [equal, listed item List.mem_cons_self, Option.map_some, written_place]
            · rfl
          rw [List.foldl_cons, ih _ _ fun other member => ?_, same]
          rw [same]
          exact listed other (List.mem_cons_of_mem _ member)
      refine (placedRecord _ _ _ fun item member => ?_).trans ?_
      · rw [HashMap.lookup_eq_some_iff.mpr member, Option.map_some]
      · rw [HashMap.lookup_retain, State.record]
        cases present : state.accounts.lookup key with
        | none => rfl
        | some entry =>
          rw [Option.map_some, ← unplaced.pinned key entry present]
          have same : (entry.written.stakeOwned || entry.pinned) = (entry.stakeOwned || entry.pinned) := rfl
          rw [Option.filter_some, Option.filter_some, same]
          split <;> rfl

/-- One delivery in sequence keeps every record in line. -/
theorem Follows.feed (follows : Follows shared records state) (kept : State.Kept shared state) {event : Feed}
    {next : State} (sequential : state.Sequential shared records event) (fed : state.feed shared event = some next) :
    Follows shared (fun key => records key ++ recordsOf shared [event] key) next := by
  intro key
  cases event with
  | seed slot account =>
    cases fed
    dsimp only
    rw [recordsOf_seed]
    split
    · next same =>
      subst same
      exact (follows account.pubkey).seed sequential.2
    · next differ =>
      rw [List.append_nil, (seedAccount_record state account slot).2, (seedAccount_record state account slot).1,
        if_neg fun accepted => differ accepted.1.symm]
      exact follows key
  | block slot isRepaired accounts =>
    cases fed
    dsimp only
    obtain ⟨fresh, distinct, each, advances⟩ := sequential
    by_cases written : key ∈ accounts.map AccountInfo.pubkey
    · obtain ⟨account, member, rfl⟩ := List.mem_map.mp written
      have view := State.applyBlock_record_of_mem kept advances fresh distinct member
      rw [recordsOf_block_of_mem distinct member]
      have after := (follows account.pubkey).write (decide (state.status = .live)) (each account member)
      rw [← view] at after
      exact after
    · have view := State.applyBlock_record_of_not_mem kept advances fresh written
      rw [recordsOf_block_of_not_mem written, List.append_nil]
      have before := follows key
      change Latest _ _ (recordView (state, .default) key).1 (recordView (state, .default) key).2 at before
      rw [← view] at before
      exact before
  | finishBootstrap =>
    have nothing : recordsOf shared [.finishBootstrap] key = [] := rfl
    dsimp only
    rw [nothing, List.append_nil]
    rcases kept with unplaced | ⟨live, -⟩
    · obtain ⟨shadows, record⟩ := finishBootstrap_record unplaced fed
      rw [record, shadows]
      exact (follows key).retain
    · rw [State.feed, State.finishBootstrap, if_pos live] at fed
      contradiction

/-- What a state holds before the events of a run, and what they deliver. -/
def deliveredSince (shared : Shared) (first : State) (events : List Feed) (key : Pubkey) : List StakeEntry :=
  (first.record key).toList ++ recordsOf shared events key

private theorem follows_run {first : State} {events : List Feed} (begin : State.Kept shared first)
    (base : Follows shared (deliveredSince shared first []) first)
    (run : Run first (State.feed shared)
      (fun events state event => state.Sequential shared (deliveredSince shared first events) event) events state) :
    State.Kept shared state ∧ Follows shared (deliveredSince shared first events) state := by
  have both : ∀ events state, Run first (State.feed shared) (fun events state event =>
      state.Sequential shared (deliveredSince shared first events) event) events state →
      State.Kept shared state ∧ Follows shared (deliveredSince shared first events) state := by
    intro events state run
    induction run with
    | start => exact ⟨begin, base⟩
    | step before sequential fed ih =>
      obtain ⟨kept, follows⟩ := ih
      refine ⟨kept.feed sequential.liveFeed fed, ?_⟩
      have after := follows.feed kept sequential fed
      simp only [deliveredSince, List.append_assoc, ← recordsOf_append] at after
      exact after
  exact both events state run

/-! ## Before the flip -/

private theorem follows_new : Follows shared (deliveredSince shared (.new shared) []) (.new shared) := fun key =>
  Latest.start (decide (key ∈ shared.pinned))

private theorem deliveredSince_new (events : List Feed) :
    deliveredSince shared (.new shared) events = recordsOf shared events :=
  rfl

/-- A bootstrap whose deliveries are in sequence holds an entry exactly for the accounts whose newest version is
stake-owned and for the pinned ones, with that version's record. -/
theorem bootstrap_keeps_newest (shared : Shared) {events : List Feed} {next : State}
    (run : Run (.new shared) (State.feed shared)
      (fun events state event => state.Sequential shared (recordsOf shared events) event) events state)
    (finished : state.finishBootstrap = some next) (key : Pubkey) :
    ((next.accounts.lookup key).isSome ↔
        ∃ newest, NewestOf (recordsOf shared events key) newest ∧ (newest.stakeOwned ∨ key ∈ shared.pinned)) ∧
      ∀ entry newest, next.accounts.lookup key = some entry → NewestOf (recordsOf shared events key) newest →
        entry.written = newest := by
  obtain ⟨kept, follows⟩ := follows_run (Or.inl .new) follows_new run
  rw [deliveredSince_new] at follows
  have flips : State.Sequential shared (recordsOf shared events) state .finishBootstrap := trivial
  have after := follows.feed kept flips finished key
  have nothing : recordsOf shared [.finishBootstrap] key = [] := rfl
  dsimp only at after
  rw [nothing, List.append_nil] at after
  have unplaced : State.Unplaced shared state := by
    rcases kept with unplaced | ⟨live, -⟩
    · exact unplaced
    · rw [State.finishBootstrap, if_pos live] at finished
      contradiction
  have retained := (finishBootstrap_record unplaced finished).2 key
  have tracked : ∀ entry newest, next.accounts.lookup key = some entry → NewestOf (recordsOf shared events key) newest →
      newest.stakeOwned ∨ key ∈ shared.pinned := by
    intro entry newest present holds
    by_contra neither
    simp only [not_or, Bool.not_eq_true] at neither
    have held : next.record key = some entry.written := by rw [State.record, present, Option.map_some]
    have out := after.left newest holds neither.1 (decide_eq_false neither.2) entry.written held
    rw [held] at retained
    have keep := (Option.filter_eq_some_iff.mp retained.symm).2
    rw [out, decide_eq_false neither.2] at keep
    contradiction
  refine ⟨⟨fun present => ?_, ?_⟩, fun entry newest present holds => ?_⟩
  · obtain ⟨entry, present⟩ := Option.isSome_iff_exists.mp present
    have held : next.record key = some entry.written := by rw [State.record, present, Option.map_some]
    obtain ⟨newest, -, holds⟩ := exists_newestOf (after.origin entry.written held)
    exact ⟨newest, holds, tracked entry newest present holds⟩
  · rintro ⟨newest, holds, tracks⟩
    have held := after.kept newest holds (by simpa using tracks)
    rw [State.record, Option.map_eq_some_iff] at held
    obtain ⟨entry, present, -⟩ := held
    exact Option.isSome_iff_exists.mpr ⟨entry, present⟩
  · have held := after.kept newest holds (by simpa using tracked entry newest present holds)
    rw [State.record, present, Option.map_some, Option.some.injEq] at held
    exact held

private def oneLiveBlock : List Feed :=
  [.seed 10 ⟨clockSysvarId, 0, 1, encodeClock ⟨10, 5, 1000⟩⟩, .seed 4 ⟨1, stakeProgramId, 100, encodeInitialized 0 6⟩,
    .block 11 false [⟨1, 0, 3, []⟩, ⟨2, stakeProgramId, 50, []⟩], .seed 8 ⟨2, stakeProgramId, 70, []⟩]

theorem bootstrap_keeps_newest_over_a_live_block :
    ∃ shared state next, Run (.new shared) (State.feed shared) (fun events state event =>
        state.Sequential shared (recordsOf shared events) event) oneLiveBlock state ∧
      state.finishBootstrap = some next ∧ (next.accounts.lookup 2).isSome ∧ (next.accounts.lookup 1).isNone := by
  let shared := Shared.ofLayout ∅ ∅ (by decide)
  have replayed : ((Run.replay (State.feed shared) (fun events state event =>
      state.Sequential shared (recordsOf shared events) event) [] (.new shared) oneLiveBlock).bind fun state =>
        state.finishBootstrap.map fun next => (state, next)).isSome = true := by decide +kernel
  obtain ⟨⟨state, next⟩, found⟩ := Option.isSome_iff_exists.mp replayed
  obtain ⟨_, ran, finished⟩ := Option.bind_eq_some_iff.mp found
  obtain ⟨_, flipped, same⟩ := Option.map_eq_some_iff.mp finished
  cases same
  have held := fun key => (bootstrap_keeps_newest shared (Run.replayed ran) flipped key).1
  refine ⟨shared, state, next, Run.replayed ran, flipped, (held 2).mpr ?_, ?_⟩
  · exact ⟨recordAt shared 11 ⟨2, stakeProgramId, 50, []⟩, by decide +kernel, Or.inl (by decide +kernel)⟩
  · rw [Option.isNone_iff_eq_none, ← Option.not_isSome_iff_eq_none, held 1]
    rintro ⟨newest, ⟨member, top⟩, tracked⟩
    have all : ∀ other ∈ recordsOf shared oneLiveBlock 1, 11 ≤ other.slot → other.stakeOwned = false := by decide +kernel
    have reaches := top (recordAt shared 11 ⟨1, 0, 3, []⟩) (by decide +kernel)
    rw [all newest member reaches] at tracked
    exact absurd tracked (by decide +kernel)

/-- The incremental snapshot's version left the stake program, and its seed is dropped before any comparison. -/
private def fullThenIncremental : List Feed :=
  [.seed 10 ⟨clockSysvarId, 0, 1, encodeClock ⟨10, 5, 1000⟩⟩, .seed 5 ⟨1, stakeProgramId, 100, encodeInitialized 0 6⟩,
    .seed 9 ⟨1, 0, 3, []⟩]

theorem dropped_seed_leaves_the_older_version :
    ∃ shared state next, Run (.new shared) (State.feed shared) (fun _ state event => state.LiveFeed shared event)
        fullThenIncremental state ∧ state.finishBootstrap = some next ∧
      (next.accounts.lookup 1).isSome ∧ (1 : Pubkey) ∉ shared.pinned ∧
        ∀ newest, NewestOf (recordsOf shared fullThenIncremental 1) newest → newest.stakeOwned = false := by
  let shared := Shared.ofLayout ∅ ∅ (by decide)
  have replayed : ((Run.replay (State.feed shared) (fun _ state event => state.LiveFeed shared event) [] (.new shared)
      fullThenIncremental).bind fun state => (state.finishBootstrap.filter fun next =>
        (next.accounts.lookup 1).isSome).map fun next => (state, next)).isSome = true := by decide +kernel
  obtain ⟨⟨state, next⟩, found⟩ := Option.isSome_iff_exists.mp replayed
  obtain ⟨_, ran, finished⟩ := Option.bind_eq_some_iff.mp found
  obtain ⟨_, flipped, same⟩ := Option.map_eq_some_iff.mp finished
  cases same
  obtain ⟨flipped, present⟩ := Option.filter_eq_some_iff.mp flipped
  refine ⟨shared, state, next, Run.replayed ran, flipped, present, by decide, ?_⟩
  rintro newest ⟨member, top⟩
  have all : ∀ other ∈ recordsOf shared fullThenIncremental 1, 9 ≤ other.slot → other.stakeOwned = false := by
    decide +kernel
  exact all newest member (top (recordAt shared 9 ⟨1, 0, 3, []⟩) (by decide +kernel))

/-! ## After the flip -/

/-- The map and the membership are those of the newest record of every account. -/
structure NewestWins (shared : Shared) (records : Pubkey → List StakeEntry) (state : State) (clock : BlockClock) :
    Prop where
  entries : ∀ key record, record.stakeOwned → (state.record key = some record ↔ NewestOf (records key) record)
  members : ∀ key, key ∈ state.membership.members ↔
    key ∈ shared.pinned ∨ ∃ newest, NewestOf (records key) newest ∧ newest.evaluate clock
  left : ∀ key newest, NewestOf (records key) newest → newest.stakeOwned = false → key ∉ shared.pinned →
    key ∉ state.membership.members
  total : state.membership.total = ∑ key, ((records key).argmax StakeEntry.slot).elim 0
    fun newest => if newest.evaluate clock then (newest.lamports : ℤ) else 0

section Newest

variable {clock : BlockClock} {key : Pubkey} {newest record : StakeEntry}

/-- The newest record of an account that is a member is in the map. -/
private theorem Follows.evaluates (follows : Follows shared records state) (holds : NewestOf (records key) newest)
    (member : newest.evaluate clock) : state.record key = some newest := by
  refine (follows key).kept newest holds ?_
  have pins := (follows key).pins newest holds.1
  unfold StakeEntry.evaluate at member
  rw [pins] at member
  cases owned : newest.stakeOwned with
  | true => exact Or.inl rfl
  | false =>
    rw [owned] at member
    simpa using member

/-- A record of the map is the newest one, or it has left the stake program and is not pinned. -/
private theorem Follows.recorded (follows : Follows shared records state) (held : state.record key = some record) :
    NewestOf (records key) record ∨ record.stakeOwned = false ∧ decide (key ∈ shared.pinned) = false := by
  obtain ⟨best, -, holds⟩ := exists_newestOf ((follows key).origin record held)
  by_cases tracked : best.stakeOwned ∨ decide (key ∈ shared.pinned)
  · rw [(follows key).kept best holds tracked, Option.some.injEq] at held
    exact Or.inl (held ▸ holds)
  · obtain ⟨out, notPinned⟩ := not_or.mp tracked
    rw [Bool.not_eq_true] at out notPinned
    exact Or.inr ⟨(follows key).left best holds out notPinned record held, notPinned⟩

private theorem Follows.recorded_member (follows : Follows shared records state)
    (held : state.record key = some record) (member : record.evaluate clock) : NewestOf (records key) record := by
  refine (follows.recorded held).resolve_right ?_
  rintro ⟨left, notPinned⟩
  rw [StakeEntry.evaluate, left, (follows key).pins record ((follows key).origin record held), notPinned] at member
  contradiction

private theorem Follows.newest_unique (follows : Follows shared records state) (holds : NewestOf (records key) newest)
    (other : NewestOf (records key) record) : newest = record :=
  (follows key).oneEach newest holds.1 record other.1 (le_antisymm (other.2 newest holds.1) (holds.2 record other.1))

private theorem Follows.member_iff (follows : Follows shared records state)
    (placed : Placed shared clock state.accounts state.membership) (key : Pubkey) :
    (∃ entry, state.accounts.lookup key = some entry ∧ entry.member) ↔
      ∃ newest, NewestOf (records key) newest ∧ newest.evaluate clock := by
  constructor
  · rintro ⟨entry, present, member⟩
    rw [(placed.flags key entry present).member] at member
    have held : state.record key = some entry.written := by rw [State.record, present, Option.map_some]
    exact ⟨entry.written, follows.recorded_member held member, member⟩
  · rintro ⟨newest, holds, member⟩
    obtain ⟨entry, present, rfl⟩ := Option.map_eq_some_iff.mp (follows.evaluates holds member)
    exact ⟨entry, present, (placed.flags key entry present).member.trans member⟩

/-- An account counts in the total what its newest record does. -/
private theorem Follows.counts (follows : Follows shared records state)
    (placed : Placed shared clock state.accounts state.membership) (key : Pubkey) :
    (state.accounts.lookup key).elim 0 (memberLamports key) =
      ((records key).argmax StakeEntry.slot).elim 0
        fun newest => if newest.evaluate clock then (newest.lamports : ℤ) else 0 := by
  cases found : (records key).argmax StakeEntry.slot with
  | none =>
    cases present : state.accounts.lookup key with
    | none => rfl
    | some entry =>
      have held : state.record key = some entry.written := by rw [State.record, present, Option.map_some]
      have member := (follows key).origin entry.written held
      rw [List.argmax_eq_none.mp found] at member
      exact absurd member List.not_mem_nil
  | some newest =>
    have holds : NewestOf (records key) newest :=
      ⟨List.argmax_mem found, fun other member => List.le_of_mem_argmax member found⟩
    cases present : state.accounts.lookup key with
    | none =>
      have out : newest.evaluate clock = false := by
        by_contra member
        rw [Bool.not_eq_false] at member
        have held := follows.evaluates holds member
        rw [State.record, present] at held
        cases held
      simp only [Option.elim_some, Option.elim_none, out, Bool.false_eq_true, if_false]
    | some entry =>
      have held : state.record key = some entry.written := by rw [State.record, present, Option.map_some]
      simp only [Option.elim_some, memberLamports, (placed.flags key entry present).member]
      cases member : newest.evaluate clock with
      | true =>
        rw [follows.evaluates holds member, Option.some.injEq] at held
        rw [held] at member ⊢
        rw [show entry.evaluate clock = true from member]
        rfl
      | false =>
        have out : entry.evaluate clock = false := by
          by_contra evaluated
          rw [Bool.not_eq_false] at evaluated
          rw [follows.newest_unique holds (follows.recorded_member held evaluated)] at member
          exact absurd evaluated (Bool.not_eq_true _ ▸ member)
        simp only [out, Bool.false_eq_true, if_false]

/-- A placed map that follows the deliveries has the newest record of every account. -/
theorem Follows.newestWins (follows : Follows shared records state)
    (placed : Placed shared clock state.accounts state.membership) : NewestWins shared records state clock := by
  have members : ∀ key, key ∈ state.membership.members ↔
      key ∈ shared.pinned ∨ ∃ newest, NewestOf (records key) newest ∧ newest.evaluate clock := by
    intro key
    rw [placed.indexed.members, follows.member_iff placed]
  refine ⟨fun key record owned => ⟨fun held => ?_, fun holds => (follows key).kept record holds (Or.inl owned)⟩,
    members, fun key newest holds out notPinned present => ?_, ?_⟩
  · refine (follows.recorded held).resolve_right fun left => ?_
    rw [left.1] at owned
    contradiction
  · rcases (members key).mp present with pinned | ⟨other, otherHolds, member⟩
    · exact notPinned pinned
    · rw [← follows.newest_unique holds otherHolds, StakeEntry.evaluate, out, (follows key).pins newest holds.1,
        decide_eq_false notPinned] at member
      contradiction
  · rw [placed.indexed.total, HashMap.sum_eq_univ]
    exact Finset.sum_congr rfl fun key _ => follows.counts placed key

end Newest

/-- One record on its own is the newest one. -/
theorem Latest.single {pinnedKey : Bool} {held : StakeEntry} (pinned : held.pinned = pinnedKey) :
    Latest pinnedKey [held] (some held) none where
  pins other member := by rw [List.mem_singleton.mp member, pinned]
  oneEach first member second otherMember _ :=
    (List.mem_singleton.mp member).trans (List.mem_singleton.mp otherMember).symm
  origin other present := List.mem_singleton.mpr (Option.mem_some_iff.mp present).symm
  shadowed _ member := absurd member (Option.not_mem_none _)
  kept newest holds _ := by rw [List.mem_singleton.mp holds.1]
  left newest holds out _ other present := by
    rwa [← Option.mem_some_iff.mp present, ← List.mem_singleton.mp holds.1]

/-- What the map holds at the flip starts the account of what is delivered after it. -/
theorem follows_flip {previous first : State} (kept : State.Kept shared previous)
    (flipped : previous.finishBootstrap = some first) :
    State.Kept shared first ∧ Follows shared (deliveredSince shared first []) first := by
  have flips : State.LiveFeed shared previous .finishBootstrap := trivial
  have live := kept.feed flips flipped
  rcases kept with unplaced | ⟨already, -⟩
  · refine ⟨live, fun key => ?_⟩
    have delivered : deliveredSince shared first [] key = (first.record key).toList := List.append_nil _
    rw [delivered, (finishBootstrap_record unplaced flipped).1]
    cases held : first.record key with
    | none => exact Latest.start _
    | some record =>
      obtain ⟨entry, present, rfl⟩ := Option.map_eq_some_iff.mp held
      refine Latest.single ?_
      rcases live with booting | ⟨-, clock, placed⟩
      · exact booting.pinned key entry present
      · exact placed.pinned key entry present
  · rw [State.finishBootstrap, if_pos already] at flipped
    contradiction

/-- From the flip on, blocks in sequence leave the map and the membership of the newest writes, whatever their order. -/
theorem newest_write_wins_after_live (shared : Shared) {seeds blocks : List Feed} {previous first state : State}
    (bootstrap : Run (.new shared) (State.feed shared) (fun _ state event => state.LiveFeed shared event) seeds previous)
    (flipped : previous.finishBootstrap = some first)
    (run : Run first (State.feed shared)
      (fun events state event => state.Sequential shared (deliveredSince shared first events) event) blocks state) :
    ∃ clock, state.membership.clock = some clock ∧
      NewestWins shared (deliveredSince shared first blocks) state clock := by
  have before : State.Kept shared previous :=
    bootstrap.stateInvariant (Or.inl .new) fun _ _ _ _ kept allowed fed => kept.feed allowed fed
  obtain ⟨begin, base⟩ := follows_flip before flipped
  obtain ⟨kept, follows⟩ := follows_run begin base run
  have live : state.status = .live := by
    refine run.stateInvariant ?_ fun events state event next live sequential fed => ?_
    · unfold State.finishBootstrap at flipped
      split at flipped
      · contradiction
      · split at flipped
        · contradiction
        · cases flipped
          rfl
    · exact sequential.live live fed
  rcases kept with unplaced | ⟨-, clock, placed⟩
  · rw [unplaced.booting] at live
    contradiction
  · exact ⟨clock, placed.clocked, follows.newestWins placed⟩

private def flipSeeds : List Feed := [.seed 10 ⟨clockSysvarId, 0, 1, encodeClock ⟨10, 5, 1000⟩⟩]

/-- The missing block comes as a repaired one, after a newer write of its account. -/
private def repairedInSequence : List Feed :=
  [.block 11 false [⟨1, stakeProgramId, 100, encodeInitialized 0 6⟩], .block 13 false [⟨1, 0, 3, []⟩],
    .block 12 true [⟨1, stakeProgramId, 200, encodeInitialized 0 6⟩]]

theorem newest_write_wins_over_a_repaired_block :
    ∃ shared first state clock, Run first (State.feed shared) (fun events state event =>
        state.Sequential shared (deliveredSince shared first events) event) repairedInSequence state ∧
      NewestWins shared (deliveredSince shared first repairedInSequence) state clock := by
  let shared := Shared.ofLayout ∅ ∅ (by decide)
  have replayed : ((Run.replay (State.feed shared) (fun _ state event => state.LiveFeed shared event) [] (.new shared)
      flipSeeds).bind fun previous => previous.finishBootstrap.bind fun first =>
        (Run.replay (State.feed shared) (fun events state event =>
          state.Sequential shared (deliveredSince shared first events) event) [] first repairedInSequence).map
            fun state => (previous, first, state)).isSome = true := by decide +kernel
  obtain ⟨⟨previous, first, state⟩, found⟩ := Option.isSome_iff_exists.mp replayed
  obtain ⟨_, seeded, found⟩ := Option.bind_eq_some_iff.mp found
  obtain ⟨_, flipped, found⟩ := Option.bind_eq_some_iff.mp found
  obtain ⟨_, ran, same⟩ := Option.map_eq_some_iff.mp found
  cases same
  obtain ⟨clock, -, wins⟩ := newest_write_wins_after_live shared (Run.replayed seeded) flipped (Run.replayed ran)
  exact ⟨shared, first, state, clock, Run.replayed ran, wins⟩

/-- The newer write leaves no stamp, and the repaired block brings the older version back. -/
private def repairedAfterClose : List Feed :=
  [.block 12 false [⟨1, 0, 3, []⟩], .block 11 true [⟨1, stakeProgramId, 200, encodeInitialized 0 6⟩]]

theorem repaired_block_brings_back_an_older_write :
    ∃ shared previous first state, Run (.new shared) (State.feed shared)
        (fun _ state event => state.LiveFeed shared event) flipSeeds previous ∧
      previous.finishBootstrap = some first ∧
      Run first (State.feed shared) (fun _ state event => state.LiveFeed shared event) repairedAfterClose state ∧
      ∀ clock, ¬ NewestWins shared (deliveredSince shared first repairedAfterClose) state clock := by
  let shared := Shared.ofLayout ∅ ∅ (by decide)
  have replayed : ((Run.replay (State.feed shared) (fun _ state event => state.LiveFeed shared event) [] (.new shared)
      flipSeeds).bind fun previous => previous.finishBootstrap.bind fun first =>
        ((Run.replay (State.feed shared) (fun _ state event => state.LiveFeed shared event) [] first
          repairedAfterClose).filter fun state =>
            decide (state.record 1 = some (recordAt shared 11 ⟨1, stakeProgramId, 200, encodeInitialized 0 6⟩) ∧
              recordAt shared 12 ⟨1, 0, 3, []⟩ ∈ deliveredSince shared first repairedAfterClose 1)).map
            fun state => (previous, first, state)).isSome = true := by decide +kernel
  obtain ⟨⟨previous, first, state⟩, found⟩ := Option.isSome_iff_exists.mp replayed
  obtain ⟨_, seeded, found⟩ := Option.bind_eq_some_iff.mp found
  obtain ⟨_, flipped, found⟩ := Option.bind_eq_some_iff.mp found
  obtain ⟨_, filtered, same⟩ := Option.map_eq_some_iff.mp found
  cases same
  obtain ⟨ran, back⟩ := Option.filter_eq_some_iff.mp filtered
  obtain ⟨held, delivered⟩ := of_decide_eq_true back
  refine ⟨shared, previous, first, state, Run.replayed seeded, flipped, Run.replayed ran, fun clock wins => ?_⟩
  have newest := (wins.entries 1 _ (by decide +kernel)).mp held
  have above := newest.2 _ delivered
  rw [recordAt_slot, recordAt_slot] at above
  omega

end Cloudbreak.Model.NonCirculating
