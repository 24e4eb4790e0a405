import Cloudbreak.Model.Grpc.Subscription
import Cloudbreak.ToMathlib.Run

/-! # Reconnecting without a gap and without a hot loop

A reconnect replays from the block after the last one received, and every block received was delivered. The blocks
delivered are therefore an interval of the server's blocks that each stream enters and only grows at its end. While
the window of failed attempts is open two attempts are a backoff apart, and it opens after the last delivered block,
unless the task of a stream panicked.
-/

namespace Cloudbreak.Model.Grpc

open Cloudbreak.ToMathlib

/-- A request or a stream. -/
def GrpcPhase.isOpen : GrpcPhase → Bool
  | .subscribing _ => true
  | .streaming _ => true
  | _ => false

namespace GrpcSubscription

variable {config : GrpcConfig} {chain : ℕ → ℕ} {sub next : GrpcSubscription} {stream counted : GrpcStream}
  {update : GrpcUpdate} {event : GrpcEvent} {events : List GrpcEvent} {calm : Prop}

/-- What one item of the stream can do: the stream ends, and has failed only without a block; it goes on without a
block; or it delivers the server's next block. -/
inductive Received (chain : ℕ → ℕ) (sub : GrpcSubscription) (stream : GrpcStream) : GrpcSubscription → Prop
  | ended (failed : Bool) (noBlock : failed = true → stream.receivedBlock = false) :
    Received chain sub stream (sub.endStream failed)
  | goesOn (after : GrpcStream) (place : after.next = stream.next)
    (same : after.receivedBlock = stream.receivedBlock) :
    Received chain sub stream { sub with phase := .streaming after }
  | block (after : GrpcStream) (place : after.next = stream.next + 1) (received : after.receivedBlock = true) :
    Received chain sub stream
      { sub with
        phase := .streaming after
        channel := sub.channel ++ [chain stream.next]
        delivered := sub.delivered ++ [(chain stream.next, sub.now)] }

theorem breakStream_received (same : counted.receivedBlock = stream.receivedBlock) :
    Received chain sub stream (sub.breakStream counted) := by
  refine .ended _ fun failed => ?_
  rw [Bool.and_eq_true, Bool.not_eq_true'] at failed
  exact same.symm.trans failed.2

private theorem handle_received (place : counted.next = stream.next)
    (same : counted.receivedBlock = stream.receivedBlock) :
    Received chain sub stream (sub.handle config chain counted update) := by
  cases update with
  | other => exact .goesOn counted place same
  | block =>
    rw [handle, place]
    exact .block _ rfl rfl
  | failure =>
    rw [handle]
    split
    · exact breakStream_received same
    · exact .goesOn _ place same

private theorem receive_received : Received chain sub stream (sub.receive config chain stream update) := by
  rw [receive]
  split
  · exact .ended false fun failed => Bool.noConfusion failed
  · split
    · dsimp only
      split
      · exact breakStream_received rfl
      · exact handle_received rfl rfl
    · exact handle_received rfl rfl

/-! ## No gap -/

/-- The blocks delivered are an interval of the server's blocks. An open stream is inside it or at its end, what was
received was delivered, and a replay is asked for from the block after one of them. -/
structure Unbroken (chain : ℕ → ℕ) (sub : GrpcSubscription) : Prop where
  received : sub.lastSlotReceived = 0 ∨ sub.lastSlotReceived ∈ sub.slots
  queued : ∀ slot ∈ sub.channel, slot ∈ sub.slots
  asked : ∀ fromSlot, sub.phase = .subscribing (some fromSlot) → ∃ slot ∈ sub.slots, fromSlot = slot + 1
  interval : ∃ low high, (∀ slot, slot ∈ sub.slots ↔ ∃ position, low ≤ position ∧ position < high ∧
      chain position = slot) ∧
    ∀ stream, sub.phase = .streaming stream → low ≤ stream.next ∧ stream.next ≤ high

theorem Unbroken.start : Unbroken chain new where
  received := Or.inl rfl
  queued := fun _ member => absurd member List.not_mem_nil
  asked := fun _ isAsking => GrpcPhase.noConfusion isAsking
  interval := by
    refine ⟨0, 0, fun slot => ⟨fun member => absurd member List.not_mem_nil, ?_⟩,
      fun _ isStreaming => GrpcPhase.noConfusion isStreaming⟩
    rintro ⟨position, -, below, -⟩
    exact absurd below (Nat.not_lt_zero position)

/-- A step that touches no block and is left without a request or a stream. -/
theorem Unbroken.away (unbroken : sub.Unbroken chain) (sameDelivered : next.delivered = sub.delivered)
    (sameChannel : next.channel = sub.channel) (sameReceived : next.lastSlotReceived = sub.lastSlotReceived)
    (closed : next.phase.isOpen = false) : next.Unbroken chain where
  received := by
    rw [sameReceived, slots, sameDelivered]
    exact unbroken.received
  queued := by
    rw [sameChannel, slots, sameDelivered]
    exact unbroken.queued
  asked := by
    intro fromSlot isAsking
    rw [isAsking] at closed
    exact Bool.noConfusion closed
  interval := by
    obtain ⟨low, high, among, -⟩ := unbroken.interval
    refine ⟨low, high, ?_, fun stream isStreaming => ?_⟩
    · rw [slots, sameDelivered]
      exact among
    · rw [isStreaming] at closed
      exact Bool.noConfusion closed

theorem Unbroken.noteFailure (unbroken : sub.Unbroken chain) : sub.noteFailure.Unbroken chain :=
  unbroken.away rfl rfl rfl rfl

theorem Unbroken.endStream (unbroken : sub.Unbroken chain) (failed : Bool) : (sub.endStream failed).Unbroken chain := by
  cases failed with
  | true => exact unbroken.away rfl rfl rfl rfl
  | false => exact unbroken.away rfl rfl rfl rfl

theorem Unbroken.turn (unbroken : sub.Unbroken chain) : (sub.turn config).Unbroken chain := by
  rw [GrpcSubscription.turn]
  split
  · exact unbroken.away rfl rfl rfl rfl
  · split
    · exact unbroken.away rfl rfl rfl rfl
    · split
      · exact unbroken.away rfl rfl rfl rfl
      · exact unbroken.away rfl rfl rfl rfl

/-- A replay is asked for from the block after the last one received. -/
theorem exists_of_fromSlot (unbroken : sub.Unbroken chain) {fromSlot : ℕ} (asks : sub.fromSlot config = some fromSlot) :
    ∃ slot ∈ sub.slots, fromSlot = slot + 1 := by
  rw [GrpcSubscription.fromSlot] at asks
  rw [Option.ite_none_right_eq_some, Option.ite_none_right_eq_some] at asks
  obtain ⟨-, positive, asks⟩ := asks
  cases asks
  exact ⟨sub.lastSlotReceived, unbroken.received.resolve_left positive, rfl⟩

/-- The server starts a replay inside the interval or at its end. -/
theorem start_mem_interval (strict : StrictMono chain) {low high start slot : ℕ}
    (among : ∃ position, low ≤ position ∧ position < high ∧ chain position = slot)
    (starts : ∀ position, start ≤ position ↔ slot + 1 ≤ chain position) : low ≤ start ∧ start ≤ high := by
  obtain ⟨position, above, below, rfl⟩ := among
  have after : position < start := by
    by_contra early
    have replayed := (starts position).mp (Nat.le_of_not_lt early)
    omega
  have reached : start ≤ position + 1 := (starts (position + 1)).mpr (strict (Nat.lt_succ_self position))
  omega

theorem Unbroken.received_step (unbroken : sub.Unbroken chain) (isStreaming : sub.phase = .streaming stream)
    (received : Received chain sub stream next) : next.Unbroken chain := by
  cases received with
  | ended failed _ => exact unbroken.endStream failed
  | goesOn after place _ =>
    obtain ⟨low, high, among, inside⟩ := unbroken.interval
    refine ⟨unbroken.received, unbroken.queued, fun _ isAsking => GrpcPhase.noConfusion isAsking, low, high, among, ?_⟩
    intro other isOther
    cases isOther
    rw [place]
    exact inside stream isStreaming
  | block after place _ =>
    obtain ⟨low, high, among, inside⟩ := unbroken.interval
    obtain ⟨above, below⟩ := inside stream isStreaming
    have grown : ∀ slot, slot ∈ sub.slots ++ [chain stream.next] ↔
        ∃ position, low ≤ position ∧ position < max high (stream.next + 1) ∧ chain position = slot := by
      intro slot
      rw [List.mem_append, List.mem_singleton, among]
      constructor
      · rintro (⟨position, low, high, same⟩ | rfl)
        · exact ⟨position, low, lt_max_of_lt_left high, same⟩
        · exact ⟨stream.next, above, lt_max_of_lt_right (Nat.lt_succ_self _), rfl⟩
      · rintro ⟨position, low, high, same⟩
        by_cases isLast : position = stream.next
        · exact Or.inr (isLast ▸ same.symm)
        · exact Or.inl ⟨position, low, by omega, same⟩
    have sameSlots : (sub.delivered ++ [(chain stream.next, sub.now)]).map Prod.fst =
        sub.slots ++ [chain stream.next] := List.map_append
    refine ⟨?_, ?_, fun _ isAsking => GrpcPhase.noConfusion isAsking, low, max high (stream.next + 1), ?_, ?_⟩
    · rw [slots, sameSlots]
      exact unbroken.received.imp_right (List.mem_append_left _)
    · rw [slots, sameSlots]
      intro slot member
      rcases List.mem_append.mp member with old | isNew
      · exact List.mem_append_left _ (unbroken.queued slot old)
      · exact List.mem_append_right _ isNew
    · rw [slots, sameSlots]
      exact grown
    · intro other isOther
      cases isOther
      rw [place]
      omega

theorem Unbroken.subscribe {succeeds : Bool} {start : ℕ} (strict : StrictMono chain) (unbroken : sub.Unbroken chain)
    (replays : sub.Replays chain (.subscribe succeeds start))
    (moves : sub.step config chain (.subscribe succeeds start) = some next) : next.Unbroken chain := by
  rw [GrpcSubscription.step] at moves
  split at moves
  · next fromSlot isAsking =>
    cases moves
    cases succeeds with
    | false => exact unbroken.noteFailure
    | true =>
      obtain ⟨low, high, among, -⟩ := unbroken.interval
      have inside : ∃ low high, (∀ slot, slot ∈ sub.slots ↔ ∃ position, low ≤ position ∧ position < high ∧
          chain position = slot) ∧ low ≤ start ∧ start ≤ high := by
        cases fromSlot with
        | none =>
          refine ⟨start, start, fun slot => ?_, Nat.le_refl _, Nat.le_refl _⟩
          rw [replays.2 isAsking]
          refine ⟨fun member => absurd member List.not_mem_nil, ?_⟩
          rintro ⟨position, above, below, -⟩
          omega
        | some fromSlot =>
          obtain ⟨slot, member, rfl⟩ := unbroken.asked fromSlot isAsking
          exact ⟨low, high, among, start_mem_interval strict ((among slot).mp member) (replays.1 _ isAsking)⟩
      obtain ⟨low, high, among, inside⟩ := inside
      refine ⟨unbroken.received, unbroken.queued, fun _ other => GrpcPhase.noConfusion other, low, high, among, ?_⟩
      intro stream isStreaming
      cases isStreaming
      exact inside
  · contradiction

theorem Unbroken.consume (unbroken : sub.Unbroken chain) (moves : sub.step config chain .consume = some next) :
    next.Unbroken chain := by
  rw [GrpcSubscription.step] at moves
  split at moves
  · contradiction
  · next slot rest isChannel =>
    cases moves
    have queued : ∀ slot' ∈ slot :: rest, slot' ∈ sub.slots := isChannel ▸ unbroken.queued
    refine ⟨Or.inr ?_, fun slot' member => queued slot' (List.mem_cons_of_mem _ member), unbroken.asked,
      unbroken.interval⟩
    have here := queued slot List.mem_cons_self
    change max sub.lastSlotReceived slot ∈ sub.slots
    rcases unbroken.received with nothing | member
    · rwa [nothing, Nat.zero_max]
    · rcases max_choice sub.lastSlotReceived slot with same | same
      · rwa [same]
      · rwa [same]

theorem Unbroken.step (strict : StrictMono chain) (unbroken : sub.Unbroken chain) (replays : sub.Replays chain event)
    (moves : sub.step config chain event = some next) : next.Unbroken chain := by
  cases event with
  | tick elapsed =>
    cases moves
    exact ⟨unbroken.received, unbroken.queued, unbroken.asked, unbroken.interval⟩
  | turn =>
    rw [GrpcSubscription.step, Option.ite_none_right_eq_some] at moves
    cases moves.2
    exact unbroken.turn
  | wake =>
    rw [GrpcSubscription.step] at moves
    split at moves
    · rw [Option.ite_none_right_eq_some] at moves
      cases moves.2
      exact unbroken.away rfl rfl rfl rfl
    · contradiction
  | connect succeeds =>
    rw [GrpcSubscription.step, Option.ite_none_right_eq_some] at moves
    obtain ⟨-, moved⟩ := moves
    cases moved
    cases succeeds with
    | false =>
      exact unbroken.away rfl rfl rfl rfl
    | true =>
      obtain ⟨low, high, among, -⟩ := unbroken.interval
      refine ⟨unbroken.received, unbroken.queued, fun fromSlot isAsking => ?_, low, high, among,
        fun _ other => GrpcPhase.noConfusion other⟩
      exact exists_of_fromSlot unbroken (GrpcPhase.subscribing.inj isAsking)
  | subscribe succeeds start => exact unbroken.subscribe strict replays moves
  | update update =>
    rw [GrpcSubscription.step] at moves
    split at moves
    · next stream isStreaming =>
      cases moves
      exact unbroken.received_step isStreaming receive_received
    · contradiction
  | streamEnds =>
    rw [GrpcSubscription.step] at moves
    split at moves
    · next stream isStreaming =>
      cases moves
      exact unbroken.received_step isStreaming (breakStream_received rfl)
    · contradiction
  | taskPanics =>
    rw [GrpcSubscription.step] at moves
    split at moves
    · cases moves
      exact unbroken.endStream true
    · contradiction
  | consume => exact unbroken.consume moves
  | cancelled =>
    cases moves
    exact ⟨unbroken.received, unbroken.queued, unbroken.asked, unbroken.interval⟩

private def everyTen (position : ℕ) : ℕ := 10 * (position + 1)

private def patient : GrpcConfig := ⟨3, 100, 40, 60⟩

/-- What a phase owes to the clock: a backoff ends late enough, an attempt in an open window comes after it, and giving
up takes all of `reconnectGiveUp`. -/
def Timed (config : GrpcConfig) (sub : GrpcSubscription) : Prop :=
  match sub.phase with
  | .backingOff until_ => ∀ time, sub.attemptedAt = some time → time + config.reconnectBackoff ≤ until_
  | .connecting => ∀ started time, sub.reconnectFailedSince = some started → sub.attemptedAt = some time →
    time + config.reconnectBackoff ≤ sub.now
  | .panicked => ∃ started, sub.reconnectFailedSince = some started ∧ started + config.reconnectGiveUp ≤ sub.now
  | _ => True

/-- As long as it is `calm`, the window opened after every delivered block, unless the open stream has delivered one. -/
structure Disciplined (calm : Prop) (config : GrpcConfig) (sub : GrpcSubscription) : Prop where
  attempted : ∀ time, sub.attemptedAt = some time → time ≤ sub.now
  timed : sub.Timed config
  opened : ∀ started, sub.reconnectFailedSince = some started → started ≤ sub.now
  delivered : ∀ entry ∈ sub.delivered, entry.2 ≤ sub.now
  failing : calm → ∀ started, sub.reconnectFailedSince = some started →
    (∀ stream, sub.phase = .streaming stream → stream.receivedBlock = false) →
      ∀ entry ∈ sub.delivered, entry.2 ≤ started

theorem Timed.connecting (timed : sub.Timed config) (isConnecting : sub.phase = .connecting) {started time : ℕ}
    (isOpen : sub.reconnectFailedSince = some started) (attempt : sub.attemptedAt = some time) :
    time + config.reconnectBackoff ≤ sub.now := by
  rw [Timed, isConnecting] at timed
  exact timed started time isOpen attempt

theorem Timed.backingOff (timed : sub.Timed config) {until_ time : ℕ} (isBackingOff : sub.phase = .backingOff until_)
    (attempt : sub.attemptedAt = some time) : time + config.reconnectBackoff ≤ until_ := by
  rw [Timed, isBackingOff] at timed
  exact timed time attempt

theorem Timed.gaveUp (timed : sub.Timed config) (hasPanicked : sub.phase = .panicked) :
    ∃ started, sub.reconnectFailedSince = some started ∧ started + config.reconnectGiveUp ≤ sub.now := by
  rw [Timed, hasPanicked] at timed
  exact timed

theorem Timed.later (timed : sub.Timed config) (elapsed : ℕ) : Timed config { sub with now := sub.now + elapsed } := by
  have later : sub.now ≤ sub.now + elapsed := Nat.le_add_right _ _
  rw [Timed] at timed ⊢
  dsimp only
  split at timed
  · exact timed
  · exact fun started time isOpen attempt => (timed started time isOpen attempt).trans later
  · obtain ⟨started, isOpen, long⟩ := timed
    exact ⟨started, isOpen, long.trans later⟩
  · trivial

theorem Disciplined.start : new.Disciplined calm config where
  attempted := fun _ none => absurd none.symm (Option.some_ne_none _)
  timed := trivial
  opened := fun _ none => absurd none.symm (Option.some_ne_none _)
  delivered := fun _ member => absurd member List.not_mem_nil
  failing := fun _ _ none => absurd none.symm (Option.some_ne_none _)

/-- A phase that is entered without a block from an open stream. -/
theorem Disciplined.withPhase (disciplined : sub.Disciplined calm config)
    (noBlock : ∀ stream, sub.phase = .streaming stream → stream.receivedBlock = false) {phase : GrpcPhase}
    {attemptedAt : Option ℕ} (attempted : ∀ time, attemptedAt = some time → time ≤ sub.now)
    (timed : Timed config { sub with phase, attemptedAt }) : Disciplined calm config { sub with phase, attemptedAt } where
  attempted := attempted
  timed := timed
  opened := disciplined.opened
  delivered := disciplined.delivered
  failing := fun isCalm started isOpen _ => disciplined.failing isCalm started isOpen noBlock

/-- A failed attempt opens the window now, after every delivered block, or leaves it open. -/
theorem Disciplined.noteFailure (disciplined : sub.Disciplined calm config)
    (noBlock : ∀ stream, sub.phase = .streaming stream → stream.receivedBlock = false) {attemptedAt : Option ℕ}
    (attempted : ∀ time, attemptedAt = some time → time ≤ sub.now) :
    Disciplined calm config { sub with attemptedAt }.noteFailure where
  attempted := attempted
  timed := trivial
  opened := by
    intro started isOpen
    change some (sub.reconnectFailedSince.getD sub.now) = some started at isOpen
    cases isOpen
    cases since : sub.reconnectFailedSince with
    | none => exact Nat.le_refl _
    | some earlier => exact disciplined.opened earlier since
  delivered := disciplined.delivered
  failing := by
    intro isCalm started isOpen _
    change some (sub.reconnectFailedSince.getD sub.now) = some started at isOpen
    cases isOpen
    cases since : sub.reconnectFailedSince with
    | none => exact disciplined.delivered
    | some earlier => exact disciplined.failing isCalm earlier since noBlock

theorem Disciplined.endStream (disciplined : sub.Disciplined calm config) {failed : Bool}
    (noBlock : failed = true → ∀ stream, sub.phase = .streaming stream → stream.receivedBlock = false) :
    (sub.endStream failed).Disciplined calm config := by
  have ended : Disciplined calm config { sub with isReconnect := true } :=
    ⟨disciplined.attempted, disciplined.timed, disciplined.opened, disciplined.delivered, disciplined.failing⟩
  cases failed with
  | true => exact ended.noteFailure (noBlock rfl) disciplined.attempted
  | false =>
    exact ⟨disciplined.attempted, trivial, fun _ none => absurd none.symm (Option.some_ne_none _),
      disciplined.delivered, fun _ _ none => absurd none.symm (Option.some_ne_none _)⟩

theorem Disciplined.turn (disciplined : sub.Disciplined calm config) (atHead : sub.phase = .loopHead) :
    (sub.turn config).Disciplined calm config := by
  have noBlock : ∀ stream, sub.phase = .streaming stream → stream.receivedBlock = false := by
    intro stream isStreaming
    rw [atHead] at isStreaming
    contradiction
  rw [GrpcSubscription.turn]
  split
  · exact disciplined.withPhase noBlock disciplined.attempted trivial
  · split
    · next closed =>
      refine disciplined.withPhase noBlock disciplined.attempted fun started _ isOpen => ?_
      rw [closed] at isOpen
      contradiction
    · next started isOpen =>
      split
      · next tooLong =>
        refine disciplined.withPhase noBlock disciplined.attempted ⟨started, isOpen, ?_⟩
        have before := disciplined.opened started isOpen
        change started + config.reconnectGiveUp ≤ sub.now
        omega
      · refine disciplined.withPhase noBlock disciplined.attempted fun time attempt => ?_
        exact Nat.add_le_add_right (disciplined.attempted time attempt) _

theorem Disciplined.received_step (disciplined : sub.Disciplined calm config) (isStreaming : sub.phase = .streaming stream)
    (received : Received chain sub stream next) : next.Disciplined calm config := by
  cases received with
  | ended failed noBlock =>
    refine disciplined.endStream fun hasFailed other isOther => ?_
    cases isStreaming.symm.trans isOther
    exact noBlock hasFailed
  | goesOn after _ same =>
    refine ⟨disciplined.attempted, trivial, disciplined.opened, disciplined.delivered, ?_⟩
    intro isCalm started isOpen noBlock
    refine disciplined.failing isCalm started isOpen fun other isOther => ?_
    cases isStreaming.symm.trans isOther
    exact same.symm.trans (noBlock after rfl)
  | block after _ hasBlock =>
    refine ⟨disciplined.attempted, trivial, disciplined.opened, ?_, ?_⟩
    · intro entry member
      rcases List.mem_append.mp member with old | isNew
      · exact disciplined.delivered entry old
      · cases List.mem_singleton.mp isNew
        exact Nat.le_refl _
    · intro _ _ _ noBlock
      exact absurd hasBlock (by rw [noBlock after rfl]; decide)

/-- A task that panics leaves the window as it is, and nothing is said of its blocks. -/
theorem Disciplined.taskPanics (disciplined : sub.Disciplined calm config) (notCalm : ¬ calm) :
    (sub.endStream true).Disciplined calm config where
  attempted := disciplined.attempted
  timed := trivial
  opened := by
    intro started isOpen
    change some (sub.reconnectFailedSince.getD sub.now) = some started at isOpen
    cases isOpen
    cases since : sub.reconnectFailedSince with
    | none => exact Nat.le_refl _
    | some earlier => exact disciplined.opened earlier since
  delivered := disciplined.delivered
  failing := fun isCalm => absurd isCalm notCalm

theorem Disciplined.step (disciplined : sub.Disciplined calm config) (noPanic : calm → event ≠ .taskPanics)
    (moves : sub.step config chain event = some next) : next.Disciplined calm config := by
  cases event with
  | tick elapsed =>
    cases moves
    have later : sub.now ≤ sub.now + elapsed := Nat.le_add_right _ _
    exact ⟨fun time attempt => (disciplined.attempted time attempt).trans later, disciplined.timed.later elapsed,
      fun started isOpen => (disciplined.opened started isOpen).trans later,
      fun entry member => (disciplined.delivered entry member).trans later, disciplined.failing⟩
  | turn =>
    rw [GrpcSubscription.step, Option.ite_none_right_eq_some] at moves
    obtain ⟨atHead, moved⟩ := moves
    cases moved
    exact disciplined.turn atHead
  | wake =>
    rw [GrpcSubscription.step] at moves
    split at moves
    · next until_ isBackingOff =>
      rw [Option.ite_none_right_eq_some] at moves
      obtain ⟨waited, moved⟩ := moves
      cases moved
      refine disciplined.withPhase ?_ disciplined.attempted fun _ time _ attempt => ?_
      · intro stream isStreaming
        rw [isBackingOff] at isStreaming
        contradiction
      · exact (disciplined.timed.backingOff isBackingOff attempt).trans waited
    · contradiction
  | connect succeeds =>
    rw [GrpcSubscription.step, Option.ite_none_right_eq_some] at moves
    obtain ⟨isConnecting, moved⟩ := moves
    cases moved
    have noBlock : ∀ stream, sub.phase = .streaming stream → stream.receivedBlock = false := by
      intro stream isStreaming
      rw [isConnecting] at isStreaming
      contradiction
    have attempted : ∀ time, some sub.now = some time → time ≤ sub.now := by
      intro time same
      cases same
      exact Nat.le_refl _
    cases succeeds with
    | true =>
      exact disciplined.withPhase noBlock attempted trivial
    | false => exact disciplined.noteFailure noBlock attempted
  | subscribe succeeds start =>
    rw [GrpcSubscription.step] at moves
    split at moves
    · next fromSlot isAsking =>
      cases moves
      have noBlock : ∀ stream, sub.phase = .streaming stream → stream.receivedBlock = false := by
        intro stream isStreaming
        rw [isAsking] at isStreaming
        contradiction
      cases succeeds with
      | true =>
        exact disciplined.withPhase noBlock disciplined.attempted trivial
      | false => exact disciplined.noteFailure noBlock disciplined.attempted
    · contradiction
  | update update =>
    rw [GrpcSubscription.step] at moves
    split at moves
    · next stream isStreaming =>
      cases moves
      exact disciplined.received_step isStreaming receive_received
    · contradiction
  | streamEnds =>
    rw [GrpcSubscription.step] at moves
    split at moves
    · next stream isStreaming =>
      cases moves
      exact disciplined.received_step isStreaming (breakStream_received rfl : Received chain sub stream _)
    · contradiction
  | taskPanics =>
    rw [GrpcSubscription.step] at moves
    split at moves
    · cases moves
      exact disciplined.taskPanics fun isCalm => noPanic isCalm rfl
    · contradiction
  | consume =>
    rw [GrpcSubscription.step] at moves
    split at moves
    · contradiction
    · cases moves
      exact ⟨disciplined.attempted, disciplined.timed, disciplined.opened, disciplined.delivered, disciplined.failing⟩
  | cancelled =>
    cases moves
    exact ⟨disciplined.attempted, disciplined.timed, disciplined.opened, disciplined.delivered, disciplined.failing⟩

theorem Disciplined.weaken (disciplined : sub.Disciplined calm config) {calmer : Prop} (implies : calmer → calm) :
    sub.Disciplined calmer config :=
  ⟨disciplined.attempted, disciplined.timed, disciplined.opened, disciplined.delivered,
    fun isCalm => disciplined.failing (implies isCalm)⟩

private theorem disciplined_run (run : Run new (step config chain) (fun _ _ _ => True) events sub) :
    sub.Disciplined (.taskPanics ∉ events) config := by
  refine @Run.invariant _ _ _ _ _ _ _ (fun events sub => sub.Disciplined (.taskPanics ∉ events) config) .start ?_ run
  intro before _ event _ disciplined _ moves
  have earlier : .taskPanics ∉ before ++ [event] → .taskPanics ∉ before :=
    fun absent member => absent (List.mem_append_left _ member)
  refine (disciplined.weaken earlier).step (fun absent isPanic => ?_) moves
  exact absent (List.mem_append_right _ (List.mem_singleton.mpr isPanic.symm))

/-- While the window is open two attempts to connect are a backoff apart, whatever the server answers, and the task
gives up only when all of `reconnectGiveUp` has passed since an attempt failed. Without a panic of the inner task, no
block has been delivered for all of that time. -/
theorem reconnects_back_off_and_give_up
    (run : Run new (step config chain) (fun _ _ _ => True) events sub) :
    (∀ started time, sub.phase = .connecting → sub.reconnectFailedSince = some started →
      sub.attemptedAt = some time → time + config.reconnectBackoff ≤ sub.now) ∧
    (sub.phase = .panicked → ∃ started, sub.reconnectFailedSince = some started ∧
      started + config.reconnectGiveUp ≤ sub.now ∧
      (.taskPanics ∉ events → ∀ entry ∈ sub.delivered, entry.2 ≤ started)) := by
  have disciplined := disciplined_run run
  refine ⟨fun _ _ isConnecting isOpen attempt => disciplined.timed.connecting isConnecting isOpen attempt,
    fun hasPanicked => ?_⟩
  obtain ⟨started, isOpen, long⟩ := disciplined.timed.gaveUp hasPanicked
  refine ⟨started, isOpen, long, fun noPanic => disciplined.failing noPanic started isOpen fun stream isStreaming => ?_⟩
  rw [hasPanicked] at isStreaming
  contradiction

/-- A block at time 5, a stream that errors before any block, and refused attempts until the task gives up. -/
private def refused : List GrpcEvent :=
  [.turn, .connect true, .subscribe true 3, .tick 5, .update .block, .streamEnds,
    .turn, .tick 15, .connect false, .turn, .tick 40, .wake, .connect true, .subscribe true 3, .update .failure,
    .update .failure, .update .failure, .turn, .tick 60, .wake, .connect false, .turn]

theorem panicked_after_refused_attempts : ∃ sub : GrpcSubscription,
    Run new (step patient everyTen) (fun _ _ _ => True) refused sub ∧ sub.phase = .panicked ∧
      ∃ started, sub.reconnectFailedSince = some started ∧ started + 100 ≤ sub.now ∧
        ∀ entry ∈ sub.delivered, entry.2 ≤ started := by
  have replays : (Run.replay (step patient everyTen) (fun _ _ _ => True) [] new refused).any
      (fun sub => decide (sub.phase = .panicked)) = true := by
    decide +kernel
  obtain ⟨sub, ran, hasPanicked⟩ := Option.any_eq_true _ _ |>.mp replays
  rw [decide_eq_true_iff] at hasPanicked
  have run := Run.replayed ran
  obtain ⟨started, isOpen, long, before⟩ := (reconnects_back_off_and_give_up run).2 hasPanicked
  exact ⟨sub, run, hasPanicked, started, isOpen, long, before (by decide)⟩

end GrpcSubscription

end Cloudbreak.Model.Grpc
