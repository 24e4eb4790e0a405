import Cloudbreak.Proofs.Gpa.RowStream

/-! # Every row is answered once

Over every interleaving of the query and the encoder: what was yielded answers exactly the rows of the batches
received, in their order; a stream that closes has answered every row; an error is the last item; and the query
tracker is told of the query once.
-/

namespace Cloudbreak.Model.Gpa

open Cloudbreak.ToMathlib

variable {Row Mint Account Failure : Type} {encoding : GpaEncoding Row Mint Account Failure}

def GpaStreamEvent.row? : GpaStreamEvent Row → Option Row
  | .row returned => some returned
  | _ => none

/-- The rows the database has returned. -/
def returned (events : List (GpaStreamEvent Row)) : List Row := events.filterMap GpaStreamEvent.row?

namespace GpaDbQuery

variable {query : GpaDbQuery Row Failure} {rows : List Row} {batchSize : Option ℕ}

/-- The batches sent are rows returned, and an ended query has told of itself. -/
structure Sends (rows : List Row) (query : GpaDbQuery Row Failure) : Prop where
  errorLast : ErrorLast query.sent
  isPrefix : (okItems query.sent).flatten <+: rows
  noneEmpty : ∀ batch ∈ okItems query.sent, batch ≠ []
  pending : query.running = true → query.sent = (okItems query.sent).map .ok ∧ query.buffered = [] ∧
    (query.receiver = true → (okItems query.sent).flatten ++ query.batch = rows)
  ended : query.running = false → query.receiver = true →
    (query.sent = (okItems query.sent).map .ok ∧ (okItems query.sent).flatten = rows ∧
      ∃ time, query.buffered = [⟨time, false⟩]) ∨
    ((∃ failure, query.sent = (okItems query.sent).map .ok ++ [.error failure]) ∧
      ∃ time, query.buffered = [⟨time, true⟩])
  once : query.buffered.length ≤ 1

theorem Sends.new : (new : GpaDbQuery Row Failure).Sends [] where
  errorLast := Or.inl rfl
  isPrefix := List.nil_prefix
  noneEmpty := fun _ member => absurd member List.not_mem_nil
  pending := fun _ => ⟨rfl, rfl, fun _ => rfl⟩
  ended := fun stopped => Bool.noConfusion stopped
  once := Nat.zero_le 1

/-- A batch goes out with the rows it took. -/
theorem Sends.sendBatch (sends : query.Sends rows) (running : query.running = true) (receiver : query.receiver = true)
    (more : List Row) (filled : query.batch ++ more ≠ []) :
    let sent := query.sent ++ [.ok (query.batch ++ more)]
    sent = (okItems sent).map .ok ∧ (okItems sent).flatten = rows ++ more ∧ ∀ batch ∈ okItems sent, batch ≠ [] := by
  obtain ⟨sent, -, whole⟩ := sends.pending running
  refine ⟨?_, ?_, ?_⟩
  · rw [okItems_append, okItems_ok, List.map_append, ← sent]
    rfl
  · rw [okItems_append, okItems_ok, List.flatten_append, List.flatten_singleton, ← List.append_assoc, whole receiver]
  · intro batch member
    rw [okItems_append, okItems_ok, List.mem_append, List.mem_singleton] at member
    rcases member with old | rfl
    · exact sends.noneEmpty batch old
    · exact filled

theorem Sends.row (sends : query.Sends rows) (running : query.running = true) (row : Row) :
    (query.row batchSize row).Sends (rows ++ [row]) := by
  obtain ⟨sent, buffered, whole⟩ := sends.pending running
  have longer : (okItems query.sent).flatten <+: rows ++ [row] := sends.isPrefix.trans (List.prefix_append _ _)
  rw [GpaDbQuery.row]
  split
  · split
    · next receiver =>
      obtain ⟨sentNow, wholeNow, filled⟩ :=
        sends.sendBatch running receiver [row] (List.append_ne_nil_of_right_ne_nil _ (List.cons_ne_nil _ _))
      rw [send, if_pos receiver]
      exact ⟨Or.inl sentNow, wholeNow ▸ List.prefix_rfl, filled,
        fun _ => ⟨sentNow, buffered, fun _ => by rw [wholeNow, List.append_nil]⟩,
        fun stopped => absurd running (by rw [stopped]; decide), sends.once⟩
    · next gone =>
      refine ⟨sends.errorLast, longer, sends.noneEmpty, fun still => ?_, fun _ receiver => absurd receiver gone, ?_⟩
      · exact absurd still Bool.false_ne_true
      · exact sends.once
  · refine ⟨sends.errorLast, longer, sends.noneEmpty, fun _ => ⟨sent, buffered, fun receiver => ?_⟩, fun stopped => ?_,
      sends.once⟩
    · rw [← List.append_assoc, whole receiver]
    · exact absurd running (by rw [show query.running = false from stopped]; decide)

theorem Sends.finish (sends : query.Sends rows) (running : query.running = true) (time : ℕ) :
    (query.finish time).Sends rows := by
  obtain ⟨sent, buffered, whole⟩ := sends.pending running
  have once : query.buffered ++ [⟨time, false⟩] = [⟨time, false⟩] := by rw [buffered, List.nil_append]
  rw [GpaDbQuery.finish]
  split
  · next empty =>
    refine ⟨sends.errorLast, sends.isPrefix, sends.noneEmpty, fun still => absurd still Bool.false_ne_true,
      fun _ receiver => Or.inl ⟨sent, ?_, time, once⟩, ?_⟩
    · have all := whole receiver
      rwa [empty, List.append_nil] at all
    · exact (congrArg List.length once).le
  · next filled =>
    by_cases receiver : query.receiver = true
    · obtain ⟨sentNow, wholeNow, filledNow⟩ :=
        sends.sendBatch running receiver [] (by rwa [List.append_nil])
      rw [List.append_nil] at sentNow wholeNow filledNow
      rw [List.append_nil] at wholeNow
      rw [send, if_pos receiver]
      exact ⟨Or.inl sentNow, wholeNow ▸ List.prefix_rfl, filledNow, fun still => absurd still Bool.false_ne_true,
        fun _ _ => Or.inl ⟨sentNow, wholeNow, time, once⟩, (congrArg List.length once).le⟩
    · rw [send, if_neg receiver]
      exact ⟨sends.errorLast, sends.isPrefix, sends.noneEmpty, fun still => absurd still Bool.false_ne_true,
        fun _ back => absurd back receiver, (congrArg List.length once).le⟩

theorem Sends.fail (sends : query.Sends rows) (running : query.running = true) (failure : Failure) (time : ℕ) :
    (query.fail failure time).Sends rows := by
  obtain ⟨sent, buffered, -⟩ := sends.pending running
  have once : query.buffered ++ [⟨time, true⟩] = [⟨time, true⟩] := by rw [buffered, List.nil_append]
  rw [GpaDbQuery.fail, send]
  split
  · have oks : okItems (query.sent ++ [.error failure]) = okItems query.sent := by
      rw [okItems_append, okItems_error, List.append_nil]
    have isLast : query.sent ++ [.error failure] =
        (okItems (query.sent ++ [.error failure])).map .ok ++ [.error failure] := by
      rw [oks, ← sent]
    refine ⟨Or.inr ⟨failure, isLast⟩, ?_, ?_, fun still => absurd still Bool.false_ne_true,
      fun _ _ => Or.inr ⟨⟨failure, isLast⟩, time, once⟩, (congrArg List.length once).le⟩
    · exact oks ▸ sends.isPrefix
    · exact oks ▸ sends.noneEmpty
  · next gone =>
    exact ⟨sends.errorLast, sends.isPrefix, sends.noneEmpty, fun still => absurd still Bool.false_ne_true,
      fun _ receiver => absurd receiver gone, (congrArg List.length once).le⟩

theorem Sends.drop (sends : query.Sends rows) :
    ({ query with receiver := false } : GpaDbQuery Row Failure).Sends rows where
  errorLast := sends.errorLast
  isPrefix := sends.isPrefix
  noneEmpty := sends.noneEmpty
  pending := fun running =>
    ⟨(sends.pending running).1, (sends.pending running).2.1, fun receiver => absurd receiver Bool.false_ne_true⟩
  ended := fun _ receiver => absurd receiver Bool.false_ne_true
  once := sends.once

@[simp]
theorem send_receiver (query : GpaDbQuery Row Failure) (item : Except Failure (List Row)) :
    (query.send item).receiver = query.receiver := by
  rw [send]
  split <;> rfl

private theorem finish_receiver (query : GpaDbQuery Row Failure) (time : ℕ) :
    (query.finish time).receiver = query.receiver := by
  rw [GpaDbQuery.finish]
  split
  · rfl
  · exact query.send_receiver _

private theorem fail_receiver (query : GpaDbQuery Row Failure) (failure : Failure) (time : ℕ) :
    (query.fail failure time).receiver = query.receiver := (query.bufferQuery time true).send_receiver _

@[simp]
theorem row_receiver (query : GpaDbQuery Row Failure) (row : Row) :
    (query.row batchSize row).receiver = query.receiver := by
  rw [GpaDbQuery.row]
  split
  · split
    · exact query.send_receiver _
    · rfl
  · rfl

/-! ## The encoder -/

private theorem row_grows (query : GpaDbQuery Row Failure) (row : Row) :
    ∃ more, (query.row batchSize row).sent = query.sent ++ more := by
  rw [GpaDbQuery.row]
  split
  · split
    · next receiver =>
      rw [send, if_pos receiver]
      exact ⟨_, rfl⟩
    · exact ⟨[], (List.append_nil _).symm⟩
  · exact ⟨[], (List.append_nil _).symm⟩

private theorem send_grows (query : GpaDbQuery Row Failure) (item : Except Failure (List Row)) :
    ∃ more, (query.send item).sent = query.sent ++ more := by
  rw [send]
  split
  · exact ⟨_, rfl⟩
  · exact ⟨[], (List.append_nil _).symm⟩

private theorem finish_grows (query : GpaDbQuery Row Failure) (time : ℕ) :
    ∃ more, (query.finish time).sent = query.sent ++ more := by
  rw [GpaDbQuery.finish]
  split
  · exact ⟨[], (List.append_nil _).symm⟩
  · exact query.send_grows (.ok query.batch)

private theorem fail_grows (query : GpaDbQuery Row Failure) (failure : Failure) (time : ℕ) :
    ∃ more, (query.fail failure time).sent = query.sent ++ more :=
  (query.bufferQuery time true).send_grows (.error failure)

end GpaDbQuery

namespace GpaStream

variable {config : GpaStreamConfig Failure} {stream next : GpaStream Row Mint Account Failure} {rows : List Row}
  {events : List (GpaStreamEvent Row)} {event : GpaStreamEvent Row}

/-- The accounts yielded answer the rows of the batches received. -/
structure Answers (encoding : GpaEncoding Row Mint Account Failure) (rows : List Row)
    (stream : GpaStream Row Mint Account Failure) : Prop where
  sends : stream.query.Sends rows
  knows : stream.resolver.Knows encoding
  received : stream.received ≤ (okItems stream.query.sent).length
  answered : ∃ part, encoding.contributions
      (((okItems stream.query.sent).take stream.received).flatten.filter encoding.valueCmp) = .ok part ∧
    (okItems stream.yielded).flatten = part.2 ∧ stream.resolver.volatility = part.1.head?
  errorLast : ErrorLast stream.yielded
  live : stream.live = true → stream.yielded = (okItems stream.yielded).map .ok
  closed : stream.live = false → stream.query.receiver = true →
    stream.query.running = false ∧ stream.received = stream.query.sent.length

theorem Answers.new {mints : HashMap Pubkey Mint}
    (known : ∀ mint data, mints.lookup mint = some data → encoding.mintAt mint = some data) :
    (new mints : GpaStream Row Mint Account Failure).Answers encoding [] where
  sends := .new
  knows := known
  received := Nat.le_refl 0
  answered := ⟨([], []), rfl, rfl, rfl⟩
  errorLast := Or.inl rfl
  live := fun _ => rfl
  closed := fun closed => Bool.noConfusion closed

/-- The query goes on while the encoder stands. -/
theorem Answers.query (answers : stream.Answers encoding rows) {query : GpaDbQuery Row Failure} {later : List Row}
    (sends : query.Sends later) (running : stream.query.running = true)
    (receiver : query.receiver = stream.query.receiver) (grows : ∃ more, query.sent = stream.query.sent ++ more) :
    ({ stream with query } : GpaStream Row Mint Account Failure).Answers encoding later := by
  obtain ⟨more, grown⟩ := grows
  have taken : (okItems query.sent).take stream.received = (okItems stream.query.sent).take stream.received := by
    rw [grown, okItems_append, List.take_append_of_le_length answers.received]
  refine ⟨sends, answers.knows, ?_, ?_, answers.errorLast, answers.live, fun closed receives => ?_⟩
  · rw [grown, okItems_append, List.length_append]
    exact answers.received.trans (Nat.le_add_right _ _)
  · rw [taken]
    exact answers.answered
  · obtain ⟨stopped, -⟩ := answers.closed closed (receiver ▸ receives)
    exact absurd (running.symm.trans stopped) (by decide)

theorem Answers.failWith (answers : stream.Answers encoding rows) (live : stream.live = true) (failure : Failure) :
    (stream.failWith failure).Answers encoding rows := by
  have oks : okItems (stream.yielded ++ [.error failure]) = okItems stream.yielded := by
    rw [okItems_append, okItems_error, List.append_nil]
  refine ⟨answers.sends.drop, answers.knows, answers.received, ?_, Or.inr ⟨failure, ?_⟩,
    fun still => absurd still Bool.false_ne_true, fun _ receiver => absurd receiver Bool.false_ne_true⟩
  · obtain ⟨part, answered, accounts, volatility⟩ := answers.answered
    exact ⟨part, answered, (congrArg List.flatten oks).trans accounts, volatility⟩
  · change stream.yielded ++ [.error failure] = _
    rw [show (stream.failWith failure).yielded = stream.yielded ++ [.error failure] from rfl, oks,
      ← answers.live live]

/-- A batch received adds what its rows give. -/
theorem Answers.encodeItem (answers : stream.Answers encoding rows) (live : stream.live = true)
    {item : Except Failure (List Row)} (found : stream.query.sent[stream.received]? = some item) :
    (stream.encodeItem encoding item).Answers encoding rows := by
  cases item with
  | error failure => exact answers.failWith live failure
  | ok batch =>
    obtain ⟨part, answered, accounts, volatility⟩ := answers.answered
    have place := answers.sends.errorLast.getElem? found
    have within : stream.received < (okItems stream.query.sent).length := (List.getElem?_eq_some_iff.mp place).1
    rw [GpaStream.encodeItem, answers.knows.encodeBatch]
    cases given : encoding.contributions (batch.filter encoding.valueCmp) with
    | error failure => exact answers.failWith live failure
    | ok more =>
      have taken : ((okItems stream.query.sent).take (stream.received + 1)).flatten =
          ((okItems stream.query.sent).take stream.received).flatten ++ batch := by
        rw [List.take_add_one, place, Option.toList_some, List.flatten_append, List.flatten_singleton]
      have yielded : okItems (stream.yielded ++ [.ok more.2]) = okItems stream.yielded ++ [more.2] := by
        rw [okItems_append, okItems_ok]
      have allOk : stream.yielded ++ [.ok more.2] = (okItems (stream.yielded ++ [.ok more.2])).map .ok := by
        rw [yielded, List.map_append, ← answers.live live]
        rfl
      refine ⟨answers.sends, ?_, within, ⟨(part.1 ++ more.1, part.2 ++ more.2), ?_, ?_, ?_⟩, Or.inl allOk,
        fun _ => allOk, fun closed => absurd (live.symm.trans closed) (by decide)⟩
      · intro mint data known
        change AList.lookup mint (MintResolver.markAll _ more.1).mints = _ at known
        rw [MintResolver.markAll_mints] at known
        exact answers.knows.resolveMints _ mint data known
      · change encoding.contributions (((okItems stream.query.sent).take (stream.received + 1)).flatten.filter _) = _
        rw [taken, List.filter_append, GpaEncoding.contributions_append, answered, given]
        rfl
      · change (okItems (stream.yielded ++ [.ok more.2])).flatten = _
        rw [yielded, List.flatten_append, accounts, List.flatten_singleton]
      · change (MintResolver.markAll _ more.1).volatility = _
        rw [MintResolver.markAll_volatility, MintResolver.resolveMints_volatility, volatility, List.head?_append]

/-- What an event can do: the query takes a row, fails or ends; the encoder takes an item or fails; or the stream closes
or is dropped. -/
inductive Steps (config : GpaStreamConfig Failure) (encoding : GpaEncoding Row Mint Account Failure)
    (stream : GpaStream Row Mint Account Failure) :
    GpaStreamEvent Row → GpaStream Row Mint Account Failure → Prop
  | row (row : Row) (running : stream.query.running = true) :
    Steps config encoding stream (.row row) { stream with query := stream.query.row config.batchSize row }
  | fails {event : GpaStreamEvent Row} (time : ℕ) (silent : event.row? = none)
    (running : stream.query.running = true) :
    Steps config encoding stream event { stream with query := stream.query.fail config.internalError time }
  | finishes (time : ℕ) (running : stream.query.running = true) :
    Steps config encoding stream (.finished time) { stream with query := stream.query.finish time }
  | encodes {item : Except Failure (List Row)} (live : stream.live = true)
    (found : stream.query.sent[stream.received]? = some item) :
    Steps config encoding stream .encode (stream.encodeItem encoding item)
  | failsLookup (live : stream.live = true) :
    Steps config encoding stream .mintLookupFailed (stream.failWith config.internalError)
  | closes (stopped : stream.query.running = false) (all : stream.received = stream.query.sent.length) :
    Steps config encoding stream .closed { stream with live := false }
  | drops : Steps config encoding stream .dropped
      { stream with live := false, query := { stream.query with receiver := false } }

private theorem steps_of_step (moves : stream.step config encoding event = some next) :
    Steps config encoding stream event next := by
  cases event with
  | row row =>
    rw [GpaStream.step, Option.ite_none_right_eq_some] at moves
    obtain ⟨running, moved⟩ := moves
    cases moved
    exact .row row running
  | failed time =>
    rw [GpaStream.step, Option.ite_none_right_eq_some] at moves
    obtain ⟨running, moved⟩ := moves
    cases moved
    exact .fails time rfl running
  | finished time =>
    rw [GpaStream.step, Option.ite_none_right_eq_some] at moves
    obtain ⟨running, moved⟩ := moves
    cases moved
    exact .finishes time running
  | timedOut =>
    rw [GpaStream.step, Option.ite_none_right_eq_some] at moves
    obtain ⟨running, moved⟩ := moves
    cases moved
    exact .fails config.queriesTimeoutUs rfl running
  | encode =>
    rw [GpaStream.step, Option.ite_none_right_eq_some] at moves
    obtain ⟨live, moves⟩ := moves
    obtain ⟨item, found, rfl⟩ := Option.map_eq_some_iff.mp moves
    exact .encodes live found
  | mintLookupFailed =>
    rw [GpaStream.step, Option.ite_none_right_eq_some] at moves
    obtain ⟨live, moves⟩ := moves
    obtain ⟨item, -, failed⟩ := Option.bind_eq_some_iff.mp moves
    cases item with
    | error failure => contradiction
    | ok batch =>
      rw [failLookup, Option.ite_none_right_eq_some] at failed
      cases failed.2
      exact .failsLookup live
  | closed =>
    rw [GpaStream.step, Option.ite_none_right_eq_some] at moves
    obtain ⟨⟨-, stopped, all⟩, moved⟩ := moves
    cases moved
    exact .closes stopped all
  | dropped =>
    rw [GpaStream.step, Option.ite_none_right_eq_some] at moves
    cases moves.2
    exact .drops

theorem append_returned_of_silent (silent : event.row? = none) : rows ++ returned [event] = rows := by
  rw [returned, List.filterMap_cons_none silent, List.filterMap_nil, List.append_nil]

theorem Answers.step (answers : stream.Answers encoding rows) (moves : stream.step config encoding event = some next) :
    next.Answers encoding (rows ++ returned [event]) := by
  cases steps_of_step moves with
  | row row running =>
    exact answers.query (answers.sends.row running row) running (stream.query.row_receiver row)
      (stream.query.row_grows row)
  | fails time silent running =>
    rw [append_returned_of_silent silent]
    exact answers.query (answers.sends.fail running _ _) running (stream.query.fail_receiver _ _)
      (stream.query.fail_grows _ _)
  | finishes time running =>
    rw [append_returned_of_silent rfl]
    exact answers.query (answers.sends.finish running _) running (stream.query.finish_receiver _)
      (stream.query.finish_grows _)
  | encodes live found =>
    rw [append_returned_of_silent rfl]
    exact answers.encodeItem live found
  | failsLookup live =>
    rw [append_returned_of_silent rfl]
    exact answers.failWith live config.internalError
  | closes stopped all =>
    rw [append_returned_of_silent rfl]
    exact ⟨answers.sends, answers.knows, answers.received, answers.answered, answers.errorLast,
      fun still => absurd still Bool.false_ne_true, fun _ _ => ⟨stopped, all⟩⟩
  | drops =>
    rw [append_returned_of_silent rfl]
    exact ⟨answers.sends.drop, answers.knows, answers.received, answers.answered, answers.errorLast,
      fun still => absurd still Bool.false_ne_true, fun _ receiver => absurd receiver Bool.false_ne_true⟩

private theorem run_answers {mints : HashMap Pubkey Mint}
    (known : ∀ mint data, mints.lookup mint = some data → encoding.mintAt mint = some data)
    (run : Run (new mints) (step config encoding) (fun _ _ _ => True) events stream) :
    stream.Answers encoding (returned events) := by
  refine @Run.invariant _ _ _ _ _ _ _ (fun events stream => stream.Answers encoding (returned events)) (.new known)
    (fun events stream event next answers _ moves => ?_) run
  rw [returned, List.filterMap_append]
  exact answers.step moves

/-- A closed stream has received every batch, and none of them was an error. -/
theorem Answers.whole (answers : stream.Answers encoding rows) (closed : stream.live = false)
    (receiver : stream.query.receiver = true) :
    ((okItems stream.query.sent).take stream.received).flatten = rows ∧
      ∃ time, stream.query.buffered = [⟨time, false⟩] := by
  obtain ⟨stopped, all⟩ := answers.closed closed receiver
  rcases answers.sends.ended stopped receiver with ⟨sent, whole, time, buffered⟩ | ⟨⟨failure, sent⟩, -⟩
  · have every : stream.received = (okItems stream.query.sent).length := by
      rw [all, sent, List.length_map, okItems_map_ok]
    rw [every, List.take_length]
    exact ⟨whole, time, buffered⟩
  · have longer := congrArg List.length sent
    rw [List.length_append, List.length_map, List.length_singleton, ← all] at longer
    have within := answers.received
    omega

/-- Without a batch size nothing is sent before the query ends, so no batch comes before its failure. -/
def WholeBatch (config : GpaStreamConfig Failure) (query : GpaDbQuery Row Failure) : Prop :=
  config.batchSize = none → (query.running = true → query.sent = []) ∧
    ∀ failure, .error failure ∈ query.sent → okItems query.sent = []

theorem WholeBatch.fail {query : GpaDbQuery Row Failure} (whole : WholeBatch config query)
    (running : query.running = true) (failure : Failure) (time : ℕ) : WholeBatch config (query.fail failure time) := by
  intro unbounded
  have nothing := (whole unbounded).1 running
  refine ⟨fun still => absurd still Bool.false_ne_true, fun other _ => ?_⟩
  rw [GpaDbQuery.fail, GpaDbQuery.send]
  split
  · change okItems (query.sent ++ [.error failure]) = []
    rw [nothing]
    rfl
  · change okItems query.sent = []
    rw [nothing]
    rfl

theorem WholeBatch.finish {query : GpaDbQuery Row Failure} (whole : WholeBatch config query)
    (running : query.running = true) (time : ℕ) : WholeBatch config (query.finish time) := by
  intro unbounded
  have nothing := (whole unbounded).1 running
  refine ⟨fun still => absurd still Bool.false_ne_true, fun failure member => ?_⟩
  have none_failed : ∀ failure : Failure, .error failure ∉ (query.finish time).sent := by
    intro failure member
    rw [GpaDbQuery.finish] at member
    split at member
    · change _ ∈ query.sent at member
      rw [nothing] at member
      contradiction
    · rw [GpaDbQuery.send] at member
      split at member
      · change _ ∈ query.sent ++ [.ok query.batch] at member
        rw [nothing, List.nil_append, List.mem_singleton] at member
        contradiction
      · change _ ∈ query.sent at member
        rw [nothing] at member
        contradiction
  exact absurd member (none_failed failure)

theorem WholeBatch.step (whole : WholeBatch config stream.query)
    (moves : stream.step config encoding event = some next) : WholeBatch config next.query := by
  cases steps_of_step moves with
  | row row running =>
    intro unbounded
    have sent : (stream.query.row config.batchSize row).sent = [] := by
      rw [GpaDbQuery.row, unbounded]
      exact (whole unbounded).1 running
    rw [sent]
    exact ⟨fun _ => rfl, fun _ _ => rfl⟩
  | fails time _ running => exact whole.fail running _ _
  | finishes time running => exact whole.finish running _
  | @encodes item _ _ =>
    cases item with
    | error failure => exact whole
    | ok batch =>
      rw [GpaStream.encodeItem]
      split
      · exact whole
      · exact whole
  | failsLookup => exact whole
  | closes => exact whole
  | drops => exact whole

/-- Over every interleaving of the query and the encoder, with any batch size: what was yielded answers a first part
of the rows returned, each row once and in order; only the last item is an error; the query tracker is told of the
query at most once. A stream that closes has answered every row, the reason the response may change is the first
one of its rows, and the tracker has been told of one query that did not fail. Without a batch size a failed
query has sent no batch. -/
theorem streamed_rows_are_answered_once {mints : HashMap Pubkey Mint}
    (known : ∀ mint data, mints.lookup mint = some data → encoding.mintAt mint = some data)
    (run : Run (new mints) (step config encoding) (fun _ _ _ => True) events stream) :
    (∃ answered part, answered <+: returned events ∧
      encoding.contributions (answered.filter encoding.valueCmp) = .ok part ∧
      (okItems stream.yielded).flatten = part.2 ∧ stream.resolver.volatility = part.1.head?) ∧
    ErrorLast stream.yielded ∧ stream.query.buffered.length ≤ 1 ∧
    (stream.live = false → stream.query.receiver = true →
      (∃ part, encoding.contributions ((returned events).filter encoding.valueCmp) = .ok part ∧
        (okItems stream.yielded).flatten = part.2 ∧ stream.resolver.volatility = part.1.head?) ∧
      ∃ time, stream.query.buffered = [⟨time, false⟩]) ∧
    (config.batchSize = none → ∀ failure, .error failure ∈ stream.query.sent → okItems stream.query.sent = []) := by
  have answers := run_answers known run
  have wholeBatch : WholeBatch config stream.query := by
    refine run.stateInvariant (fun _ => ⟨fun _ => rfl, fun _ member => absurd member List.not_mem_nil⟩) ?_
    intro _ _ _ _ whole _ moves
    exact whole.step moves
  obtain ⟨part, answered, accounts, volatility⟩ := answers.answered
  refine ⟨⟨_, part, ?_, answered, accounts, volatility⟩, answers.errorLast, answers.sends.once, ?_,
    fun unbounded => (wholeBatch unbounded).2⟩
  · exact ((List.take_prefix _ _).flatten).trans answers.sends.isPrefix
  · intro closed receiver
    obtain ⟨whole, told⟩ := answers.whole closed receiver
    rw [whole] at answered
    exact ⟨⟨part, answered, accounts, volatility⟩, told⟩

/-- Rows are the number of their mint, which is mutable when it is odd and missing from 4 on. Row 0 is native. -/
private def numbered : GpaEncoding ℕ ℕ ℕ String where
  valueCmp row := decide (row ≠ 3)
  resolves := true
  mintOf row := some (Fin.ofNat _ row)
  nativeMint := 0
  nativeData := some 9
  mintAt mint := if mint.val < 4 then some mint.val else none
  immutable data := data % 2 = 0
  encode row data := if row < 8 then .ok (data.getD 100) else .error "account data too long"
  unparsed account := account = 100

private def inPairs : GpaStreamConfig String := ⟨some 2, 60000000, "internal error"⟩

/-- The second batch is encoded before the rows end, and the last row stays alone. -/
private def fiveRows : List (GpaStreamEvent ℕ) :=
  [.row 2, .row 3, .row 5, .encode, .row 0, .encode, .row 2, .finished 70, .encode, .closed]

theorem streamed_rows_of_five_rows : ∃ stream : GpaStream ℕ ℕ ℕ String,
    Run (new ∅) (step inPairs numbered) (fun _ _ _ => True) fiveRows stream ∧
      (okItems stream.yielded).flatten = [2, 9, 2] ∧ stream.resolver.volatility = some .mutableMint ∧
      stream.query.buffered = [⟨70, false⟩] := by
  have replays : (Run.replay (step inPairs numbered) (fun _ _ _ => True) [] (new ∅) fiveRows).any
      (fun stream => !stream.live && stream.query.receiver && decide (stream.query.buffered = [⟨70, false⟩])) =
        true := by
    decide +kernel
  obtain ⟨stream, ran, ended⟩ := Option.any_eq_true _ _ |>.mp replays
  rw [Bool.and_eq_true, Bool.and_eq_true, decide_eq_true_iff, Bool.not_eq_true'] at ended
  have run := Run.replayed ran
  obtain ⟨-, -, -, whole, -⟩ := streamed_rows_are_answered_once (fun mint data found => by simp at found) run
  obtain ⟨⟨part, answered, accounts, volatility⟩, -⟩ := whole ended.1.1 ended.1.2
  have computed : numbered.contributions ((returned fiveRows).filter numbered.valueCmp) =
      .ok ([.mutableMint, .droppedAccount], [2, 9, 2]) := rfl
  cases computed.symm.trans answered
  exact ⟨stream, run, accounts, volatility, ended.2⟩

end GpaStream

end Cloudbreak.Model.Gpa
