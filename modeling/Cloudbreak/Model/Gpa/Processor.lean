import Cloudbreak.Model.Gpa.Cache
import Cloudbreak.Model.SaveBlock.OwnerMap
import Cloudbreak.ToMathlib.Run

/-! # Program-account requests, with and without the cache

A request picks the slot it reads at, looks its query up in the cache, runs its statement and hands what it
served to a job that installs it later. The statement returns a row without its columns when the row is not
above the slot of the entry that was found; those bytes then come from the entry. Meanwhile blocks are
written above the published slots, and old rows are cleaned up.
-/

namespace Cloudbreak.Model.Gpa

open Cloudbreak.ToMathlib
open SaveBlock (AccountRow)
open GpaCache (FinalizeJob)

/-- What a normalized query selects, and how it encodes an account. Both look at the row only. -/
structure QueryForm (Query : Type) where
  selects : Query → AccountRow → Bool
  encode : Query → AccountRow → Bytes

section Standard

variable {Query : Type} (form : QueryForm Query)

/-- The newest row of an account that a query selects at or below a slot. -/
def newestRow (rows : List AccountRow) (query : Query) (slot : ℕ) (pubkey : Pubkey) : Option AccountRow :=
  (rows.filter fun row => form.selects query row && decide (row.pubkey = pubkey) && decide (row.slot ≤ slot)).argmax
    AccountRow.slot

/-- The newest row, unless it is a mask. -/
def visibleRow (rows : List AccountRow) (query : Query) (slot : ℕ) (pubkey : Pubkey) : Option AccountRow :=
  (newestRow form rows query slot pubkey).filter fun row => row.lamports > 0

/-- The rows of the statement, in the order of their keys. -/
def latestRows (rows : List AccountRow) (query : Query) (slot : ℕ) : List AccountRow :=
  ((rows.map AccountRow.pubkey).dedup.insertionSort (· ≤ ·)).filterMap (visibleRow form rows query slot)

/-- What the standard processor serves. -/
def standardResponse (rows : List AccountRow) (query : Query) (slot : ℕ) : List (Pubkey × Bytes) :=
  (latestRows form rows query slot).map fun row => (row.pubkey, form.encode query row)

/-- One row of the cached statement. `none` is the missing-account error, or the failure to read the columns of a
row that was cut without an entry. -/
def processRow (query : Query) (cachedQuery : Option CachedQuery) (row : AccountRow) : Option (Pubkey × Bytes) :=
  let cachedSlot := (cachedQuery.map CachedQuery.slot).getD 0
  if row.slot ≤ cachedSlot then
    cachedQuery.bind fun cached => (cached.accounts.lookup row.pubkey).map fun bytes => (row.pubkey, bytes)
  else some (row.pubkey, form.encode query row)

/-- What the cached processor serves. -/
def cachedResponse (rows : List AccountRow) (query : Query) (slot : ℕ) (cachedQuery : Option CachedQuery) :
    Option (List (Pubkey × Bytes)) :=
  (latestRows form rows query slot).mapM (processRow form query cachedQuery)

/-- The rows whose bytes came from the entry. -/
def cacheHits (rows : List AccountRow) (query : Query) (slot : ℕ) (cachedQuery : Option CachedQuery) : ℕ :=
  (latestRows form rows query slot).countP fun row => row.slot ≤ (cachedQuery.map CachedQuery.slot).getD 0

end Standard

/-- A request that has picked its slot; loaded once it has looked its query up. -/
structure GpaRequest (Query : Type) where
  query : Query
  slot : ℕ
  loaded : Option (Option CachedQuery)

structure GpaSystem (Query : Type) where
  rows : List AccountRow
  published : ℕ
  readable : ℕ
  cache : GpaCache Query
  requests : HashMap ℕ (GpaRequest Query)
  jobs : List (FinalizeJob Query)

inductive GpaEvent (Query : Type) where
  | writeRows (rows : List AccountRow)
  | publish (slot : ℕ)
  | cleanUp (readable : ℕ) (rows : List AccountRow)
  | pick (task : ℕ) (query : Query) (slot : ℕ)
  | loadSql (task : ℕ)
  | serve (task queryBytes : ℕ) (accepted : Bool)
  | finalize (position : ℕ)

namespace GpaSystem

variable {Query : Type} [DecidableEq Query] (form : QueryForm Query)

def new (config : GpaCacheConfig) : GpaSystem Query := ⟨[], 0, 0, .new config, ∅, []⟩

/-- One event. A failed request removes its query from the cache; a served one that is accepted becomes a job. -/
def step (system : GpaSystem Query) : GpaEvent Query → Option (GpaSystem Query)
  | .writeRows rows => some { system with rows := system.rows ++ rows }
  | .publish slot => some { system with published := slot }
  | .cleanUp readable rows => some { system with readable, rows }
  | .pick task query slot => some { system with requests := system.requests.insert task ⟨query, slot, none⟩ }
  | .loadSql task => (system.requests.lookup task).map fun request =>
      { system with
        requests := system.requests.insert task
          { request with loaded := some (system.cache.queries.lookup request.query) } }
  | .serve task queryBytes accepted => do
    let request ← system.requests.lookup task
    let cachedQuery ← request.loaded
    let requests := system.requests.erase task
    match cachedResponse form system.rows request.query request.slot cachedQuery with
    | none => (system.cache.removeQuery saturating request.query).map fun cache => { system with cache, requests }
    | some accounts =>
      let job := ⟨request.query, accounts, queryBytes, request.slot,
        cacheHits form system.rows request.query request.slot cachedQuery⟩
      return { system with requests, jobs := if accepted then system.jobs ++ [job] else system.jobs }
  | .finalize position => do
    let job ← system.jobs[position]?
    let cache ← system.cache.finalize saturating job
    return { system with cache, jobs := system.jobs.eraseIdx position }

end GpaSystem

end Cloudbreak.Model.Gpa
