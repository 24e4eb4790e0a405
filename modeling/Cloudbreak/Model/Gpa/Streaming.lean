import Cloudbreak.Model.Account

/-! # The streamed response body

A `getProgramAccounts` response is written as it is encoded. The first batch is serialized before anything is
sent; the accounts of the later ones are appended to a buffer, which is sent as a frame whenever it is long
enough. With every frame the accounts in it are handed to the cache. The body is the list of what it does, in
order; its metrics are left out.
-/

namespace Cloudbreak.Model.Gpa

/-- A serialized value, which is never empty. -/
abbrev JsonText := {bytes : List UInt8 // bytes ≠ []}

def utf8 (text : String) : List UInt8 := text.toList.flatMap String.utf8EncodeChar

def comma : UInt8 := 44

/-- An account of the stream, serialized already or still to serialize. -/
inductive MaybeJsonAccount (Account : Type)
  | cached (pubkey : Pubkey) (bytes : JsonText)
  | fresh (pubkey : Pubkey) (account : Account)

/-- The frames of the wrapper and of the accounts. -/
inductive Site
  | wrapperStart
  | chunk
  | wrapperEnd
deriving DecidableEq, Repr

/-- One thing the body does: it sends a frame or an error, or calls the processor. -/
inductive Emission
  | frame (site : Site) (bytes : List UInt8)
  | failure (message : String)
  | updateNewAccounts (pairs : List (Pubkey × List UInt8)) (cacheHits : ℕ)
  | finalizeQuery
deriving DecidableEq, Repr

/-- What is sent before the accounts and after them. -/
structure StreamingResponseBodyWrapper where
  startText : List UInt8
  endText : List UInt8

def streamFlushThreshold : ℕ := 32 * 1024

/-- The buffer and the accounts in it: the fresh ones by their range, the cached ones by their bytes. -/
structure ProcessedFirstBatch where
  buf : List UInt8
  pendingFresh : List (Pubkey × ℕ × ℕ)
  pendingCached : List (Pubkey × List UInt8)

def slice (bytes : List UInt8) (range : ℕ × ℕ) : List UInt8 := (bytes.drop range.1).take (range.2 - range.1)

/-- The body with what it has done so far. -/
structure Body extends ProcessedFirstBatch where
  emitted : List Emission

/-- Hands the accounts of a frozen buffer to the cache, the cached ones first. -/
def drainPendingIntoCache (frozen : List UInt8) (pending : ProcessedFirstBatch) : List Emission :=
  if pending.pendingFresh = [] ∧ pending.pendingCached = [] then []
  else
    [.updateNewAccounts
      (pending.pendingCached ++ pending.pendingFresh.map fun fresh => (fresh.1, slice frozen fresh.2))
      pending.pendingCached.length]

/-- Sends the buffer as a frame. -/
def Body.flush (body : Body) : Body where
  buf := []
  pendingFresh := []
  pendingCached := []
  emitted := body.emitted ++ drainPendingIntoCache body.buf body.toProcessedFirstBatch ++ [.frame .chunk body.buf]

/-- Closes the array after the last batch. -/
def Body.finish (wrapper : StreamingResponseBodyWrapper) (body : Body) : List Emission :=
  let body := if body.buf = [] then body else body.flush
  body.emitted ++ [.finalizeQuery, .frame .wrapperEnd wrapper.endText]

section Accounts

variable {Account RpcError : Type} (serialize : Account → Except String JsonText) (internalError : RpcError)
  (display : RpcError → String)

/-- Appends one account to the buffer. -/
def appendAccount (processed : ProcessedFirstBatch) :
    MaybeJsonAccount Account → Except String ProcessedFirstBatch
  | .cached pubkey bytes =>
    .ok { processed with
      buf := processed.buf ++ bytes.val
      pendingCached := processed.pendingCached ++ [(pubkey, bytes.val)] }
  | .fresh pubkey account =>
    match serialize account with
    | .error error => .error error
    | .ok bytes =>
      .ok { processed with
        buf := processed.buf ++ bytes.val
        pendingFresh := processed.pendingFresh ++
          [(pubkey, processed.buf.length, (processed.buf ++ bytes.val).length)] }

/-- One account of the first batch; all but the first follow a comma. -/
def firstBatchAccount (state : Bool × ProcessedFirstBatch) (account : MaybeJsonAccount Account) :
    Except String (Bool × ProcessedFirstBatch) :=
  let buf := if state.1 then state.2.buf else state.2.buf ++ [comma]
  (appendAccount serialize { state.2 with buf } account).map fun processed => (false, processed)

def processFirstGpaBatch (batch : List (MaybeJsonAccount Account)) : Except String ProcessedFirstBatch :=
  (batch.foldlM (firstBatchAccount serialize) (true, ⟨[], [], []⟩)).map Prod.snd

/-- One account of a later batch, always after a comma. The error is all that was done until then. -/
def laterAccount (body : Body) (account : MaybeJsonAccount Account) : Except (List Emission) Body :=
  match appendAccount serialize { body.toProcessedFirstBatch with buf := body.buf ++ [comma] } account with
  | .error error => .error (body.emitted ++ [.failure s!"account serialization failed: {error}"])
  | .ok processed =>
    let body : Body := { processed with emitted := body.emitted }
    .ok (if body.buf.length ≥ streamFlushThreshold then body.flush else body)

/-- One item of the stream after the first. -/
def laterItem (body : Body) : Except RpcError (List (MaybeJsonAccount Account)) → Except (List Emission) Body
  | .error error =>
    .error (body.emitted ++ [.failure s!"account stream failed mid-response: {display error}"])
  | .ok batch => batch.foldlM (laterAccount serialize) body

def bodyStream (wrapper : StreamingResponseBodyWrapper) (processed : ProcessedFirstBatch)
    (items : List (Except RpcError (List (MaybeJsonAccount Account)))) : List Emission :=
  match items.foldlM (laterItem serialize display)
      { processed with emitted := [.frame .wrapperStart wrapper.startText] } with
  | .ok body => body.finish wrapper
  | .error emitted => emitted

/-- The response body for a stream of batches. It is an error response up to the first batch. -/
def gpaStreamingResponseBody (wrapper : StreamingResponseBodyWrapper)
    (items : List (Except RpcError (List (MaybeJsonAccount Account)))) : Except RpcError (List Emission) :=
  let first : Except RpcError (List (MaybeJsonAccount Account)) := items.head?.getD (.ok [])
  match first with
  | .error error => .error error
  | .ok batch =>
    match processFirstGpaBatch serialize batch with
    | .error _ => .error internalError
    | .ok processed => .ok (bodyStream serialize display wrapper processed items.tail)

end Accounts

end Cloudbreak.Model.Gpa
