import Cloudbreak.Model.Gpa.Streaming

/-! # What the frames add up to

Whatever the batches and the flushes are, the frames sent and the buffer hold the text of the accounts so
far, and the accounts handed to the cache and the pending ones are the accounts so far. Only the first comma
depends on the batches: a later batch writes one even where no account came before.
-/

namespace Cloudbreak.Model.Gpa

/-- The bytes that an emission sends. -/
def Emission.bytes : Emission → List UInt8
  | .frame _ bytes => bytes
  | _ => []

/-- The accounts that an emission hands to the cache. -/
def Emission.accounts : Emission → List (Pubkey × List UInt8)
  | .updateNewAccounts pairs _ => pairs
  | _ => []

/-- The emissions of a body that ends well. -/
def Emission.Closes : Emission → Prop
  | .frame .wrapperEnd _ => True
  | .finalizeQuery => True
  | _ => False

def sentBytes (emitted : List Emission) : List UInt8 := emitted.flatMap Emission.bytes

def handedAccounts (emitted : List Emission) : List (Pubkey × List UInt8) := emitted.flatMap Emission.accounts

/-- No emission closes the body. -/
def Open (emitted : List Emission) : Prop := ∀ emission ∈ emitted, ¬ emission.Closes

/-- The encodings separated by single commas. -/
def separated (pairs : List (Pubkey × List UInt8)) : List UInt8 := [comma].intercalate (pairs.map Prod.snd)

/-- The encodings, each after a comma. -/
def afterCommas (pairs : List (Pubkey × List UInt8)) : List UInt8 := pairs.flatMap fun pair => comma :: pair.2

theorem separated_cons (pair : Pubkey × List UInt8) (pairs : List (Pubkey × List UInt8)) :
    separated (pair :: pairs) = pair.2 ++ afterCommas pairs := by
  induction pairs generalizing pair with
  | nil => simp [separated, afterCommas, List.intercalate]
  | cons next rest ih =>
    have tail := ih next
    unfold separated at tail ⊢
    rw [List.map_cons, List.map_cons, List.intercalate_cons_cons]
    rw [List.map_cons] at tail
    rw [tail]
    simp only [afterCommas, List.flatMap_cons, List.append_assoc, List.nil_append, List.cons_append]

section Accounts

variable {Account RpcError : Type} {serialize : Account → Except String JsonText} {internalError : RpcError}
  {display : RpcError → String}

def MaybeJsonAccount.pubkey : MaybeJsonAccount Account → Pubkey
  | cached pubkey _ => pubkey
  | fresh pubkey _ => pubkey

/-- The encoding of an account. -/
def encode (serialize : Account → Except String JsonText) : MaybeJsonAccount Account → Except String JsonText
  | .cached _ bytes => .ok bytes
  | .fresh _ account => serialize account

/-- The accounts of a batch with their encodings; `none` when one cannot be serialized. -/
def encodeBatch (serialize : Account → Except String JsonText) :
    List (MaybeJsonAccount Account) → Option (List (Pubkey × List UInt8))
  | [] => some []
  | account :: rest =>
    match encode serialize account with
    | .error _ => none
    | .ok bytes => (encodeBatch serialize rest).map ((account.pubkey, bytes.val) :: ·)

/-- The accounts of all batches; `none` also when the stream fails. -/
def encodeItems (serialize : Account → Except String JsonText) :
    List (Except RpcError (List (MaybeJsonAccount Account))) → Option (List (Pubkey × List UInt8))
  | [] => some []
  | .error _ :: _ => none
  | .ok batch :: rest =>
    (encodeBatch serialize batch).bind fun pairs => (encodeItems serialize rest).map (pairs ++ ·)

/-! ## The pending accounts -/

/-- The pending accounts with their bytes. -/
def ProcessedFirstBatch.pending (processed : ProcessedFirstBatch) : List (Pubkey × List UInt8) :=
  processed.pendingCached ++ processed.pendingFresh.map fun fresh => (fresh.1, slice processed.buf fresh.2)

/-- The ranges lie in the buffer, and an empty buffer has no accounts. -/
structure ProcessedFirstBatch.Valid (processed : ProcessedFirstBatch) : Prop where
  ranges : ∀ fresh ∈ processed.pendingFresh, fresh.2.2 ≤ processed.buf.length
  filled : processed.buf = [] → processed.pending = []

/-- Bytes after a range do not change its slice. -/
theorem slice_append (bytes more : List UInt8) {range : ℕ × ℕ} (within : range.2 ≤ bytes.length) :
    slice (bytes ++ more) range = slice bytes range := by
  unfold slice
  rw [List.drop_append, List.take_append_of_le_length]
  rw [List.length_drop]
  omega

private theorem slice_last (bytes more : List UInt8) :
    slice (bytes ++ more) (bytes.length, (bytes ++ more).length) = more := by
  unfold slice
  rw [List.drop_left, List.length_append, Nat.add_sub_cancel_left, List.take_length]

theorem pending_append {processed : ProcessedFirstBatch}
    (ranges : ∀ fresh ∈ processed.pendingFresh, fresh.2.2 ≤ processed.buf.length) (more : List UInt8) :
    (processed.pendingFresh.map fun fresh => (fresh.1, slice (processed.buf ++ more) fresh.2)) =
      processed.pendingFresh.map fun fresh => (fresh.1, slice processed.buf fresh.2) :=
  List.map_congr_left fun fresh member => by rw [slice_append _ _ (ranges fresh member)]

/-- Appending an account adds its bytes and one pending account. -/
theorem appendAccount_ok {processed : ProcessedFirstBatch}
    (ranges : ∀ fresh ∈ processed.pendingFresh, fresh.2.2 ≤ processed.buf.length)
    {account : MaybeJsonAccount Account} {bytes : JsonText} (encoded : encode serialize account = .ok bytes) :
    ∃ appended, appendAccount serialize processed account = .ok appended ∧
      appended.buf = processed.buf ++ bytes.val ∧
      appended.pending.Perm (processed.pending ++ [(account.pubkey, bytes.val)]) ∧ appended.Valid := by
  have nonempty : processed.buf ++ bytes.val ≠ [] := by
    intro empty
    exact bytes.property (List.append_eq_nil_iff.mp empty).2
  cases account with
  | cached pubkey cachedBytes =>
    cases encoded
    refine ⟨_, rfl, rfl, ?_, ⟨fun fresh member => ?_, fun empty => absurd empty nonempty⟩⟩
    · unfold ProcessedFirstBatch.pending
      dsimp only
      rw [pending_append ranges, List.append_assoc, List.append_assoc]
      exact List.perm_append_comm.append_left _
    · have within := ranges fresh member
      dsimp only
      rw [List.length_append]
      omega
  | fresh pubkey account =>
    have serialized : serialize account = .ok bytes := encoded
    simp only [appendAccount, serialized]
    refine ⟨_, rfl, rfl, ?_, ⟨fun fresh member => ?_, fun empty => absurd empty nonempty⟩⟩
    · unfold ProcessedFirstBatch.pending
      dsimp only
      rw [List.map_append, pending_append ranges, List.map_singleton, slice_last, List.append_assoc]
      rfl
    · dsimp only at member ⊢
      rw [List.length_append]
      rcases List.mem_append.mp member with old | new
      · have within := ranges fresh old
        omega
      · rw [List.mem_singleton.mp new, List.length_append]

private theorem appendAccount_error (processed : ProcessedFirstBatch) {account : MaybeJsonAccount Account}
    {error : String}
    (encoded : encode serialize account = .error error) :
    ∃ error, appendAccount serialize processed account = .error error := by
  cases account with
  | cached pubkey bytes => contradiction
  | fresh pubkey account =>
    have failed : serialize account = .error error := encoded
    simp only [appendAccount, failed]
    exact ⟨error, rfl⟩

/-! ## The first batch -/

/-- After its first account the first batch is written like a later one. -/
theorem foldlM_firstBatchAccount {processed : ProcessedFirstBatch} (valid : processed.Valid)
    {batch : List (MaybeJsonAccount Account)} {pairs : List (Pubkey × List UInt8)}
    (encoded : encodeBatch serialize batch = some pairs) :
    ∃ later, batch.foldlM (firstBatchAccount serialize) (false, processed) = .ok (false, later) ∧
      later.buf = processed.buf ++ afterCommas pairs ∧ later.pending.Perm (processed.pending ++ pairs) ∧
        later.Valid := by
  induction batch generalizing processed pairs with
  | nil =>
    cases encoded
    refine ⟨processed, rfl, ?_, ?_, valid⟩
    · rw [afterCommas, List.flatMap_nil, List.append_nil]
    · rw [List.append_nil]
  | cons account rest ih =>
    rw [encodeBatch] at encoded
    cases encodedAccount : encode serialize account with
    | error _ => rw [encodedAccount] at encoded; contradiction
    | ok bytes =>
      rw [encodedAccount] at encoded
      obtain ⟨restPairs, encodedRest, rfl⟩ := Option.map_eq_some_iff.mp encoded
      have ranges : ∀ fresh ∈ processed.pendingFresh, fresh.2.2 ≤ (processed.buf ++ [comma]).length :=
        fun fresh member => (valid.ranges fresh member).trans (by rw [List.length_append]; omega)
      have samePending : ({ processed with buf := processed.buf ++ [comma] } : ProcessedFirstBatch).pending =
          processed.pending := by
        unfold ProcessedFirstBatch.pending
        dsimp only
        rw [pending_append valid.ranges]
      obtain ⟨appended, ran, buf, pending, appendedValid⟩ :=
        @appendAccount_ok _ serialize { processed with buf := processed.buf ++ [comma] } ranges _ _ encodedAccount
      obtain ⟨later, ranRest, laterBuf, laterPending, laterValid⟩ := ih appendedValid encodedRest
      refine ⟨later, ?_, ?_, ?_, laterValid⟩
      · rw [List.foldlM_cons, firstBatchAccount]
        simp only [Bool.false_eq_true, if_false, ran]
        exact ranRest
      · rw [laterBuf, buf]
        simp only [afterCommas, List.flatMap_cons, List.append_assoc, List.nil_append, List.cons_append]
      · rw [samePending] at pending
        refine laterPending.trans ((pending.append_right _).trans ?_)
        rw [List.append_assoc]
        rfl

private theorem processFirst_ok {batch : List (MaybeJsonAccount Account)} {pairs : List (Pubkey × List UInt8)}
    (encoded : encodeBatch serialize batch = some pairs) :
    ∃ processed, processFirstGpaBatch serialize batch = .ok processed ∧ processed.buf = separated pairs ∧
      processed.pending.Perm pairs ∧ processed.Valid := by
  have empty : (⟨[], [], []⟩ : ProcessedFirstBatch).Valid := ⟨fun _ member => by contradiction, fun _ => rfl⟩
  cases batch with
  | nil =>
    cases encoded
    exact ⟨⟨[], [], []⟩, rfl, rfl, List.Perm.nil, empty⟩
  | cons account rest =>
    rw [encodeBatch] at encoded
    cases encodedAccount : encode serialize account with
    | error _ => rw [encodedAccount] at encoded; contradiction
    | ok bytes =>
      rw [encodedAccount] at encoded
      obtain ⟨restPairs, encodedRest, rfl⟩ := Option.map_eq_some_iff.mp encoded
      obtain ⟨appended, ran, buf, pending, valid⟩ := appendAccount_ok empty.ranges encodedAccount
      obtain ⟨later, ranRest, laterBuf, laterPending, laterValid⟩ := foldlM_firstBatchAccount valid encodedRest
      refine ⟨later, ?_, ?_, laterPending.trans (pending.append_right _), laterValid⟩
      · rw [processFirstGpaBatch, List.foldlM_cons, firstBatchAccount]
        simp only [if_true, ran]
        exact congrArg (Except.map Prod.snd) ranRest
      · rw [laterBuf, buf, separated_cons, List.nil_append]

private theorem foldlM_firstBatchAccount_error {batch : List (MaybeJsonAccount Account)}
    (failing : encodeBatch serialize batch = none) (state : Bool × ProcessedFirstBatch) :
    ∃ error, batch.foldlM (firstBatchAccount serialize) state = .error error := by
  induction batch generalizing state with
  | nil => contradiction
  | cons account rest ih =>
    rw [encodeBatch] at failing
    rw [List.foldlM_cons]
    cases moved : firstBatchAccount serialize state account with
    | error error => exact ⟨error, rfl⟩
    | ok next =>
      cases encoded : encode serialize account with
      | error error =>
        obtain ⟨error, failed⟩ := appendAccount_error
          { state.2 with buf := if state.1 then state.2.buf else state.2.buf ++ [comma] } encoded
        rw [firstBatchAccount, failed] at moved
        contradiction
      | ok bytes =>
        rw [encoded] at failing
        exact ih (Option.map_eq_none_iff.mp failing) next

private theorem processFirst_error {batch : List (MaybeJsonAccount Account)}
    (failing : encodeBatch serialize batch = none) :
    ∃ error, processFirstGpaBatch serialize batch = .error error := by
  obtain ⟨error, failed⟩ := foldlM_firstBatchAccount_error failing (true, ⟨[], [], []⟩)
  rw [processFirstGpaBatch, failed]
  exact ⟨error, rfl⟩

/-! ## The later batches -/

/-- The frames and the buffer hold the text, the cache and the pending accounts make up the accounts. -/
structure Body.Holds (body : Body) (text : List UInt8) (pairs : List (Pubkey × List UInt8)) : Prop where
  text : sentBytes body.emitted ++ body.buf = text
  accounts : (handedAccounts body.emitted ++ body.pending).Perm pairs
  valid : body.toProcessedFirstBatch.Valid
  stays : Open body.emitted

theorem open_append {first second : List Emission} (openFirst : Open first) (openSecond : Open second) :
    Open (first ++ second) := by
  intro emission member
  rcases List.mem_append.mp member with early | late
  · exact openFirst emission early
  · exact openSecond emission late

/-- A drain sends nothing and hands over the pending accounts. -/
theorem drain_spec (processed : ProcessedFirstBatch) :
    sentBytes (drainPendingIntoCache processed.buf processed) = [] ∧
      handedAccounts (drainPendingIntoCache processed.buf processed) = processed.pending ∧
      Open (drainPendingIntoCache processed.buf processed) := by
  unfold drainPendingIntoCache ProcessedFirstBatch.pending
  split
  · next nothing =>
    rw [nothing.1, nothing.2]
    exact ⟨rfl, rfl, fun emission member => by contradiction⟩
  · refine ⟨rfl, List.append_nil _, fun emission member => ?_⟩
    rw [List.mem_singleton.mp member]
    exact id

theorem Body.Holds.flush {body : Body} {text : List UInt8} {pairs : List (Pubkey × List UInt8)}
    (holds : body.Holds text pairs) : body.flush.Holds text pairs := by
  obtain ⟨nothingSent, handed, stays⟩ := drain_spec body.toProcessedFirstBatch
  constructor
  · rw [← holds.text]
    unfold Body.flush sentBytes
    unfold sentBytes at nothingSent
    rw [List.flatMap_append, List.flatMap_append, nothingSent, List.append_nil, List.append_nil]
    simp only [List.flatMap_cons, List.flatMap_nil, List.append_nil, Emission.bytes]
  · refine List.Perm.trans (List.Perm.of_eq ?_) holds.accounts
    unfold Body.flush handedAccounts ProcessedFirstBatch.pending
    unfold handedAccounts at handed
    rw [List.flatMap_append, List.flatMap_append, handed]
    simp only [List.flatMap_cons, List.flatMap_nil, List.append_nil, Emission.accounts, List.map_nil]
    rfl
  · exact ⟨fun _ member => by contradiction, fun _ => rfl⟩
  · refine open_append (open_append holds.stays stays) fun emission member => ?_
    rw [List.mem_singleton.mp member]
    exact id

/-- One later account adds a comma and its encoding. -/
theorem laterAccount_ok {body : Body} {text : List UInt8} {pairs : List (Pubkey × List UInt8)}
    (holds : body.Holds text pairs) {account : MaybeJsonAccount Account} {bytes : JsonText}
    (encoded : encode serialize account = .ok bytes) :
    ∃ next, laterAccount serialize body account = .ok next ∧
      next.Holds (text ++ comma :: bytes.val) (pairs ++ [(account.pubkey, bytes.val)]) := by
  have ranges : ∀ fresh ∈ body.pendingFresh, fresh.2.2 ≤ (body.buf ++ [comma]).length :=
    fun fresh member => (holds.valid.ranges fresh member).trans (by rw [List.length_append]; omega)
  obtain ⟨appended, ran, buf, pending, valid⟩ :=
    @appendAccount_ok _ serialize { body.toProcessedFirstBatch with buf := body.buf ++ [comma] } ranges _ _ encoded
  have samePending : ({ body.toProcessedFirstBatch with buf := body.buf ++ [comma] } : ProcessedFirstBatch).pending =
      body.pending := by
    unfold ProcessedFirstBatch.pending
    dsimp only
    rw [pending_append holds.valid.ranges]
  rw [samePending] at pending
  have grown : ({ appended with emitted := body.emitted } : Body).Holds (text ++ comma :: bytes.val)
      (pairs ++ [(account.pubkey, bytes.val)]) := by
    refine ⟨?_, ?_, valid, holds.stays⟩
    · dsimp only
      rw [buf, ← holds.text]
      simp only [List.append_assoc, List.singleton_append]
    · refine ((pending.append_left _).trans ?_)
      rw [← List.append_assoc]
      exact holds.accounts.append_right _
  rw [laterAccount, ran]
  dsimp only
  split
  · exact ⟨_, rfl, grown.flush⟩
  · exact ⟨_, rfl, grown⟩

private theorem open_failure {emitted : List Emission} (stays : Open emitted) (message : String) :
    Open (emitted ++ [.failure message]) := by
  refine open_append stays fun emission member => ?_
  rw [List.mem_singleton.mp member]
  exact id

/-- A later batch adds its accounts, or stops at the first it cannot serialize. -/
theorem laterBatch {body : Body} {text : List UInt8} {pairs : List (Pubkey × List UInt8)}
    (holds : body.Holds text pairs) (batch : List (MaybeJsonAccount Account)) :
    (∃ more next, encodeBatch serialize batch = some more ∧ batch.foldlM (laterAccount serialize) body = .ok next ∧
        next.Holds (text ++ afterCommas more) (pairs ++ more)) ∨
      encodeBatch serialize batch = none ∧
        ∃ emitted, batch.foldlM (laterAccount serialize) body = .error emitted ∧ Open emitted := by
  induction batch generalizing body text pairs with
  | nil =>
    refine Or.inl ⟨[], body, rfl, rfl, ?_⟩
    rw [afterCommas, List.flatMap_nil, List.append_nil, List.append_nil]
    exact holds
  | cons account rest ih =>
    rw [encodeBatch, List.foldlM_cons]
    cases encoded : encode serialize account with
    | error error =>
      obtain ⟨error, failed⟩ := appendAccount_error
        { body.toProcessedFirstBatch with buf := body.buf ++ [comma] } encoded
      rw [laterAccount, failed]
      exact Or.inr ⟨rfl, _, rfl, open_failure holds.stays _⟩
    | ok bytes =>
      obtain ⟨next, ran, nextHolds⟩ := laterAccount_ok holds encoded
      rw [ran]
      rcases ih nextHolds with ⟨more, last, encodedRest, ranRest, lastHolds⟩ | ⟨encodedRest, stopped⟩
      · refine Or.inl ⟨(account.pubkey, bytes.val) :: more, last, ?_, ranRest, ?_⟩
        · rw [encodedRest]
          rfl
        · rw [List.append_assoc, List.append_assoc] at lastHolds
          exact lastHolds
      · refine Or.inr ⟨?_, stopped⟩
        rw [encodedRest]
        rfl

/-- The later items add their accounts, or stop at the first failure. -/
theorem laterItems {body : Body} {text : List UInt8} {pairs : List (Pubkey × List UInt8)}
    (holds : body.Holds text pairs) (items : List (Except RpcError (List (MaybeJsonAccount Account)))) :
    (∃ more next, encodeItems serialize items = some more ∧ items.foldlM (laterItem serialize display) body = .ok next ∧
        next.Holds (text ++ afterCommas more) (pairs ++ more)) ∨
      encodeItems serialize items = none ∧
        ∃ emitted, items.foldlM (laterItem serialize display) body = .error emitted ∧ Open emitted := by
  induction items generalizing body text pairs with
  | nil =>
    refine Or.inl ⟨[], body, rfl, rfl, ?_⟩
    rw [afterCommas, List.flatMap_nil, List.append_nil, List.append_nil]
    exact holds
  | cons item rest ih =>
    rw [List.foldlM_cons]
    cases item with
    | error error => exact Or.inr ⟨rfl, _, rfl, open_failure holds.stays _⟩
    | ok batch =>
      rw [encodeItems, laterItem]
      rcases laterBatch holds batch with ⟨more, next, encoded, ran, nextHolds⟩ | ⟨encoded, emitted, ran, stays⟩
      · rw [encoded, ran]
        rcases ih nextHolds with ⟨others, last, encodedRest, ranRest, lastHolds⟩ | ⟨encodedRest, stopped⟩
        · refine Or.inl ⟨more ++ others, last, ?_, ranRest, ?_⟩
          · rw [encodedRest]
            rfl
          · rw [List.append_assoc, List.append_assoc, afterCommas, afterCommas, ← List.flatMap_append] at lastHolds
            exact lastHolds
        · refine Or.inr ⟨?_, stopped⟩
          rw [encodedRest]
          rfl
      · rw [encoded, ran]
        exact Or.inr ⟨rfl, emitted, rfl, stays⟩

/-! ## The whole body -/

/-- The array of all accounts, each handed to the cache once with the bytes sent for it; on a failure the body
is never closed. -/
def StreamsArray (serialize : Account → Except String JsonText) (internalError : RpcError)
    (display : RpcError → String) (wrapper : StreamingResponseBodyWrapper)
    (items : List (Except RpcError (List (MaybeJsonAccount Account)))) : Prop :=
  match encodeItems serialize items with
  | some pairs =>
    ∃ emitted, gpaStreamingResponseBody serialize internalError display wrapper items = .ok emitted ∧
      sentBytes emitted = wrapper.startText ++ separated pairs ++ wrapper.endText ∧
      (handedAccounts emitted).Perm pairs
  | none =>
    ∀ emitted, gpaStreamingResponseBody serialize internalError display wrapper items = .ok emitted → Open emitted

/-- The body after a first batch without failures. -/
theorem bodyStream_cases (wrapper : StreamingResponseBodyWrapper) {processed : ProcessedFirstBatch}
    {pairs : List (Pubkey × List UInt8)} (buf : processed.buf = separated pairs)
    (pending : processed.pending.Perm pairs) (valid : processed.Valid)
    (items : List (Except RpcError (List (MaybeJsonAccount Account)))) :
    (∃ more, encodeItems serialize items = some more ∧
      sentBytes (bodyStream serialize display wrapper processed items) =
        wrapper.startText ++ (separated pairs ++ afterCommas more) ++ wrapper.endText ∧
      (handedAccounts (bodyStream serialize display wrapper processed items)).Perm (pairs ++ more)) ∨
    encodeItems serialize items = none ∧ Open (bodyStream serialize display wrapper processed items) := by
  have started : ({ processed with emitted := [.frame .wrapperStart wrapper.startText] } : Body).Holds
      (wrapper.startText ++ separated pairs) pairs := by
    refine ⟨?_, pending, valid, fun emission member => ?_⟩
    · rw [← buf]
      simp only [sentBytes, List.flatMap_cons, List.flatMap_nil, List.append_nil, Emission.bytes]
    · rw [List.mem_singleton.mp member]
      exact id
  unfold bodyStream
  rcases laterItems started items with ⟨more, body, encoded, ran, holds⟩ | ⟨encoded, emitted, ran, stays⟩
  · refine Or.inl ⟨more, encoded, ?_⟩
    rw [ran]
    dsimp only
    have ended : ∃ last : Body, body.finish wrapper =
        last.emitted ++ [.finalizeQuery, .frame .wrapperEnd wrapper.endText] ∧ last.buf = [] ∧
          last.Holds (wrapper.startText ++ separated pairs ++ afterCommas more) (pairs ++ more) := by
      unfold Body.finish
      by_cases empty : body.buf = []
      · rw [if_pos empty]
        exact ⟨body, rfl, empty, holds⟩
      · rw [if_neg empty]
        exact ⟨body.flush, rfl, rfl, holds.flush⟩
    obtain ⟨last, finished, nothing, lastHolds⟩ := ended
    have text := lastHolds.text
    have accounts := lastHolds.accounts
    rw [nothing, List.append_nil] at text
    rw [lastHolds.valid.filled nothing, List.append_nil] at accounts
    rw [finished]
    unfold sentBytes at text ⊢
    unfold handedAccounts at accounts ⊢
    rw [List.flatMap_append, List.flatMap_append, text]
    simp only [List.flatMap_cons, List.flatMap_nil, List.append_nil, Emission.bytes, Emission.accounts,
      List.nil_append, List.append_assoc]
    exact ⟨trivial, accounts⟩
  · refine Or.inr ⟨encoded, ?_⟩
    rw [ran]
    exact stays

/-- The later accounts follow their commas right exactly when there is one before them, or none of them. -/
theorem separated_append_iff (pairs more : List (Pubkey × List UInt8)) :
    separated pairs ++ afterCommas more = separated (pairs ++ more) ↔ pairs ≠ [] ∨ more = [] := by
  cases pairs with
  | cons pair pairs =>
    refine iff_of_true ?_ (Or.inl (List.cons_ne_nil _ _))
    rw [List.cons_append, separated_cons, separated_cons, List.append_assoc, afterCommas, afterCommas,
      ← List.flatMap_append]
    rfl
  | nil =>
    cases more with
    | nil => exact iff_of_true rfl (Or.inr rfl)
    | cons pair more =>
      refine iff_of_false (fun same => ?_) (by simp)
      have lengths := congrArg List.length same
      rw [List.nil_append, separated_cons] at lengths
      simp only [separated, afterCommas, List.map_nil, List.intercalate_nil, List.flatMap_cons, List.nil_append,
        List.cons_append, List.length_cons] at lengths
      omega

private theorem encodeBatch_eq_nil_iff {batch : List (MaybeJsonAccount Account)} {pairs : List (Pubkey × List UInt8)}
    (encoded : encodeBatch serialize batch = some pairs) : pairs = [] ↔ batch = [] := by
  cases batch with
  | nil => cases encoded; exact iff_of_true rfl rfl
  | cons account rest =>
    rw [encodeBatch] at encoded
    cases found : encode serialize account with
    | error _ => rw [found] at encoded; contradiction
    | ok bytes =>
      rw [found] at encoded
      obtain ⟨others, -, rfl⟩ := Option.map_eq_some_iff.mp encoded
      exact iff_of_false (List.cons_ne_nil _ _) (List.cons_ne_nil _ _)

/-- The body is the array of the accounts exactly when the stream fails, no batch has an account, or the first
batch has one. -/
theorem streamsArray_iff (serialize : Account → Except String JsonText) (internalError : RpcError)
    (display : RpcError → String) (wrapper : StreamingResponseBodyWrapper)
    (items : List (Except RpcError (List (MaybeJsonAccount Account)))) :
    StreamsArray serialize internalError display wrapper items ↔
      encodeItems serialize items = none ∨ encodeItems serialize items = some [] ∨
        ∃ batch rest, items = .ok batch :: rest ∧ batch ≠ [] := by
  cases items with
  | nil =>
    have empty : (⟨[], [], []⟩ : ProcessedFirstBatch).Valid := ⟨fun _ member => by contradiction, fun _ => rfl⟩
    refine iff_of_true ?_ (Or.inr (Or.inl rfl))
    rcases @bodyStream_cases Account RpcError serialize display wrapper ⟨[], [], []⟩ [] rfl List.Perm.nil empty [] with
      ⟨more, encoded, sent, handed⟩ | ⟨encoded, -⟩
    · cases encoded
      exact ⟨_, rfl, sent, handed⟩
    · contradiction
  | cons item rest =>
    cases item with
    | error error => exact iff_of_true (fun emitted ran => by contradiction) (Or.inl rfl)
    | ok batch =>
      cases encodedBatch : encodeBatch serialize batch with
      | none =>
        have failing : encodeItems serialize (.ok batch :: rest) = none := by
          rw [encodeItems, encodedBatch]
          rfl
        obtain ⟨error, failed⟩ := processFirst_error encodedBatch
        rw [StreamsArray, failing]
        refine iff_of_true (fun emitted ran => ?_) (Or.inl rfl)
        simp only [gpaStreamingResponseBody, List.head?_cons, Option.getD_some, failed] at ran
        contradiction
      | some pairs =>
        obtain ⟨processed, ran, buf, pending, valid⟩ := processFirst_ok encodedBatch
        have body : gpaStreamingResponseBody serialize internalError display wrapper (.ok batch :: rest) =
            .ok (bodyStream serialize display wrapper processed rest) := by
          simp only [gpaStreamingResponseBody, List.head?_cons, Option.getD_some, ran, List.tail_cons]
        have whole : encodeItems serialize (.ok batch :: rest) = (encodeItems serialize rest).map (pairs ++ ·) := by
          rw [encodeItems, encodedBatch]
          rfl
        rw [StreamsArray, whole, body]
        rcases bodyStream_cases wrapper buf pending valid rest with ⟨more, encoded, sent, handed⟩ | ⟨encoded, stays⟩
        · rw [encoded, Option.map_some]
          have first : (∃ batch' rest', (.ok batch :: rest : List (Except RpcError (List (MaybeJsonAccount Account)))) =
              .ok batch' :: rest' ∧ batch' ≠ []) ↔ pairs ≠ [] := by
            rw [Ne, encodeBatch_eq_nil_iff encodedBatch]
            constructor
            · rintro ⟨_, _, same, filled⟩
              cases same
              exact filled
            · exact fun filled => ⟨batch, rest, rfl, filled⟩
          have right : (∃ emitted, Except.ok (bodyStream serialize display wrapper processed rest) =
                (.ok emitted : Except RpcError (List Emission)) ∧
              sentBytes emitted = wrapper.startText ++ separated (pairs ++ more) ++ wrapper.endText ∧
              (handedAccounts emitted).Perm (pairs ++ more)) ↔ pairs ≠ [] ∨ more = [] := by
            rw [← separated_append_iff]
            constructor
            · rintro ⟨emitted, same, text, -⟩
              cases same
              rw [sent] at text
              exact List.append_cancel_left (List.append_cancel_right text)
            · intro same
              exact ⟨_, rfl, same ▸ sent, handed⟩
          refine right.trans ?_
          rw [first]
          constructor
          · rintro (filled | rfl)
            · exact Or.inr (Or.inr filled)
            · cases pairs with
              | nil => exact Or.inr (Or.inl rfl)
              | cons pair pairs => exact Or.inr (Or.inr (List.cons_ne_nil _ _))
          · rintro (failed | nothing | filled)
            · contradiction
            · exact Or.inr (List.append_eq_nil_iff.mp (Option.some.inj nothing)).2
            · exact Or.inl filled
        · rw [encoded]
          refine iff_of_true (fun emitted same => ?_) (Or.inl rfl)
          cases same
          exact stays

end Accounts

/-- A post-filter leaves nothing of the first batch and one cached account of the second. -/
def emptyFirstBatch : List (Except String (List (MaybeJsonAccount Unit))) :=
  [.ok [], .ok [.cached 7 ⟨utf8 "{}", by decide⟩]]

/-- The array of that response starts with a comma. -/
theorem body_starts_with_a_comma :
    ¬ ∀ (wrapper : StreamingResponseBodyWrapper) (items : List (Except String (List (MaybeJsonAccount Unit)))),
      StreamsArray (fun _ => .error "unused") "internal error" id wrapper items := by
  intro streams
  obtain ⟨emitted, ran, text, -⟩ := streams ⟨utf8 "[", utf8 "]"⟩ emptyFirstBatch
  cases ran
  revert text
  decide +kernel

end Cloudbreak.Model.Gpa
