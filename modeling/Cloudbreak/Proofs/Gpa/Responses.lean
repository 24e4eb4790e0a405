import Cloudbreak.Model.Gpa.Processor
import Cloudbreak.Proofs.Gpa.Accounting
import Cloudbreak.ToMathlib.InsertAll
import Cloudbreak.ToMathlib.Newest

/-! # The cached path against the standard path

An entry is right for every row at or below its slot that a later read still sees. That survives new blocks
and cleanups, so a request that finds an entry no newer than the slot it reads is served what the standard
path serves, and what it installs is right again.
-/

namespace Cloudbreak.Model.Gpa

open Cloudbreak.ToMathlib
open SaveBlock (AccountRow)
open GpaCache

variable {Query : Type} {form : QueryForm Query} {rows added : List AccountRow} {query : Query} {slot at_ : ℕ}
  {pubkey : Pubkey} {row : AccountRow}

theorem visibleRow_some (visible : visibleRow form rows query slot pubkey = some row) :
    row ∈ rows ∧ form.selects query row ∧ row.pubkey = pubkey ∧ row.slot ≤ slot := by
  have newest := (Option.filter_eq_some_iff.mp visible).1
  obtain ⟨member, selected⟩ := List.mem_filter.mp (List.argmax_mem newest)
  simp only [Bool.and_eq_true, decide_eq_true_eq] at selected
  exact ⟨member, selected.1.1, selected.1.2, selected.2⟩

/-- The visible row at a slot is the visible one at every lower slot that it reaches. -/
theorem visibleRow_lower (visible : visibleRow form rows query slot pubkey = some row) (lower : at_ ≤ slot)
    (reaches : row.slot ≤ at_) : visibleRow form rows query at_ pubkey = some row := by
  obtain ⟨newest, live⟩ := Option.filter_eq_some_iff.mp visible
  have filtered := argmax_filter (fun row => decide (row.slot ≤ at_)) newest (decide_eq_true reaches)
  rw [List.filter_filter] at filtered
  refine Option.filter_eq_some_iff.mpr ⟨?_, live⟩
  rw [newestRow, ← filtered]
  congr 1
  refine List.filter_congr fun other _ => ?_
  rcases le_or_gt other.slot at_ with low | high
  · simp [low, low.trans lower]
  · simp [Nat.not_le.mpr high]

/-- Rows above a slot hide nothing from below. -/
theorem visibleRow_of_append (visible : visibleRow form (rows ++ added) query slot pubkey = some row)
    (above : ∀ other ∈ added, row.slot < other.slot) : visibleRow form rows query slot pubkey = some row := by
  obtain ⟨newest, live⟩ := Option.filter_eq_some_iff.mp visible
  refine Option.filter_eq_some_iff.mpr ⟨?_, live⟩
  have filtered := argmax_filter (fun other => decide (other.slot ≤ row.slot)) newest (decide_eq_true le_rfl)
  have top : ∀ other ∈ (rows ++ added).filter (fun row => form.selects query row && decide (row.pubkey = pubkey) &&
      decide (row.slot ≤ slot)), other.slot ≤ row.slot := fun other member => List.le_of_mem_argmax member newest
  have none : added.filter (fun row => form.selects query row && decide (row.pubkey = pubkey) &&
      decide (row.slot ≤ slot)) = [] := by
    refine List.filter_eq_nil_iff.mpr fun other member selected => ?_
    have le := top other (List.mem_filter.mpr ⟨List.mem_append_right _ member, selected⟩)
    have lt := above other member
    omega
  rw [newestRow, List.filter_append, none, List.append_nil] at newest
  exact newest

/-! ## Entries -/

/-- An entry has the bytes of every visible row that its slot reaches, wherever it is still read. -/
def EntryRight (form : QueryForm Query) (rows : List AccountRow) (readable : ℕ) (query : Query) (entry : CachedQuery) :
    Prop :=
  ∀ slot pubkey row, readable ≤ slot → entry.slot ≤ slot → visibleRow form rows query slot pubkey = some row →
    row.slot ≤ entry.slot → entry.accounts.lookup pubkey = some (form.encode query row)

private theorem mem_latestRows : row ∈ latestRows form rows query slot ↔
    visibleRow form rows query slot row.pubkey = some row := by
  rw [latestRows, List.mem_filterMap]
  constructor
  · rintro ⟨pubkey, -, visible⟩
    rwa [(visibleRow_some visible).2.2.1]
  · intro visible
    refine ⟨row.pubkey, ?_, visible⟩
    rw [List.mem_insertionSort, List.mem_dedup]
    exact List.mem_map.mpr ⟨row, (visibleRow_some visible).1, rfl⟩

private theorem latestRows_nodup (form : QueryForm Query) (rows : List AccountRow) (query : Query) (slot : ℕ) :
    ((latestRows form rows query slot).map AccountRow.pubkey).Nodup := by
  have keys : (latestRows form rows query slot).map AccountRow.pubkey =
      ((rows.map AccountRow.pubkey).dedup.insertionSort (· ≤ ·)).filter fun pubkey =>
        (visibleRow form rows query slot pubkey).isSome := by
    rw [latestRows]
    induction (rows.map AccountRow.pubkey).dedup.insertionSort (· ≤ ·) with
    | nil => rfl
    | cons pubkey rest ih =>
      rw [List.filterMap_cons, List.filter_cons]
      cases visible : visibleRow form rows query slot pubkey with
      | none => exact ih
      | some row =>
        dsimp only
        rw [List.map_cons, ih, (visibleRow_some visible).2.2.1]
        rfl
  rw [keys]
  exact ((List.perm_insertionSort _ _).nodup_iff.mpr (List.nodup_dedup _)).filter _

/-- Whether the entry that a request found lets it be served: it is not above the slot that is read, and without one
no row is of slot 0. -/
def Serves (form : QueryForm Query) (rows : List AccountRow) (query : Query) (slot : ℕ)
    (cachedQuery : Option CachedQuery) : Prop :=
  cachedQuery.elim (∀ row ∈ latestRows form rows query slot, 0 < row.slot) fun entry => entry.slot ≤ slot

instance : (cachedQuery : Option CachedQuery) → Decidable (Serves form rows query slot cachedQuery)
  | none => inferInstanceAs (Decidable (∀ row ∈ latestRows form rows query slot, 0 < row.slot))
  | some entry => inferInstanceAs (Decidable (entry.slot ≤ slot))

/-- A right entry that is not above the read slot serves the standard response. -/
theorem cachedResponse_eq {readable : ℕ} {cachedQuery : Option CachedQuery}
    (right : ∀ entry ∈ cachedQuery, EntryRight form rows readable query entry) (read : readable ≤ slot)
    (serves : Serves form rows query slot cachedQuery) :
    cachedResponse form rows query slot cachedQuery = some (standardResponse form rows query slot) := by
  have each : ∀ row ∈ latestRows form rows query slot,
      processRow form query cachedQuery row = some (row.pubkey, form.encode query row) := by
    intro row member
    have visible := mem_latestRows.mp member
    unfold processRow
    cases cachedQuery with
    | none => exact if_neg (not_le.mpr (serves row member))
    | some entry =>
      dsimp only [Option.map_some, Option.getD_some]
      split
      · next reached =>
        have held := right entry rfl slot row.pubkey row read serves visible reached
        rw [Option.bind_some, held]
        rfl
      · rfl
  unfold cachedResponse standardResponse
  generalize latestRows form rows query slot = served at each ⊢
  induction served with
  | nil => rfl
  | cons row rest ih =>
    rw [List.mapM_cons, each row List.mem_cons_self, ih fun other member => each other (List.mem_cons_of_mem _ member)]
    rfl

/-- The entry built from a standard response is right. -/
theorem entryRight_standard {readable queryBytes hits : ℕ} :
    EntryRight form rows readable query
      (FinalizeJob.entry ⟨query, standardResponse form rows query slot, queryBytes, slot, hits⟩) := by
  intro later pubkey row _ above visible reached
  have here : visibleRow form rows query slot pubkey = some row := visibleRow_lower visible above reached
  have own := (visibleRow_some here).2.2.1
  have member : (row.pubkey, form.encode query row) ∈ standardResponse form rows query slot :=
    List.mem_map.mpr ⟨row, mem_latestRows.mpr (own ▸ here), rfl⟩
  have distinct : ((standardResponse form rows query slot).map Prod.fst).Nodup := by
    rw [standardResponse, List.map_map]
    exact latestRows_nodup form rows query slot
  have found : (HashMap.insertAll Prod.fst Prod.snd ∅ (standardResponse form rows query slot)).lookup row.pubkey =
      some (form.encode query row) := HashMap.lookup_insertAll_of_mem distinct member
  rw [← own]
  exact found

/-! ## Runs -/

namespace GpaSystem

variable [DecidableEq Query] {system next : GpaSystem Query} {event : GpaEvent Query}

/-- How the database changes around the requests, and when a request may be served: blocks are written above every
published slot; a cleanup keeps what is visible at every slot that is still readable, those of the requests under
way among them; and the entry a request found lets it be served. -/
def Allowed (form : QueryForm Query) (system : GpaSystem Query) : GpaEvent Query → Prop
  | .writeRows rows => ∀ row ∈ rows, system.published < row.slot
  | .publish slot => system.published ≤ slot
  | .cleanUp readable rows => rows.Sublist system.rows ∧ system.readable ≤ readable ∧
      (∀ task request, system.requests.lookup task = some request → readable ≤ request.slot) ∧
      ∀ query slot pubkey, readable ≤ slot →
        visibleRow form rows query slot pubkey = visibleRow form system.rows query slot pubkey
  | .pick _ _ slot => system.readable ≤ slot ∧ slot ≤ system.published
  | .serve task _ _ => ∀ request ∈ system.requests.lookup task, ∀ cachedQuery ∈ request.loaded,
      Serves form system.rows request.query request.slot cachedQuery
  | _ => True

/-- A right entry of a published slot. -/
def Holds (form : QueryForm Query) (system : GpaSystem Query) (query : Query) (entry : CachedQuery) : Prop :=
  EntryRight form system.rows system.readable query entry ∧ entry.slot ≤ system.published

/-- Every entry in the cache, in a job and in the hands of a request is right. -/
structure Right (form : QueryForm Query) (system : GpaSystem Query) : Prop where
  accounts : system.cache.Accounts
  cached : ∀ query entry, system.cache.queries.lookup query = some entry → system.Holds form query entry
  jobs : ∀ job ∈ system.jobs, system.Holds form job.normalizedQuery (FinalizeJob.entry job)
  slots : ∀ task request, system.requests.lookup task = some request →
    system.readable ≤ request.slot ∧ request.slot ≤ system.published
  found : ∀ task request cachedQuery, system.requests.lookup task = some request → request.loaded = some cachedQuery →
    ∀ entry ∈ cachedQuery, system.Holds form request.query entry

theorem Right.new (config : GpaCacheConfig) : (new config : GpaSystem Query).Right form where
  accounts := .new config
  cached _ _ present := by simp [GpaSystem.new, GpaCache.new] at present
  jobs _ member := absurd member List.not_mem_nil
  slots _ _ present := by simp [GpaSystem.new] at present
  found _ _ _ present := by simp [GpaSystem.new] at present

/-- The database moves on, and what was right stays right. -/
theorem Right.database (right : system.Right form) {rows : List AccountRow} {published readable : ℕ}
    (raised : system.readable ≤ readable) (later : system.published ≤ published)
    (reads : ∀ task request, system.requests.lookup task = some request → readable ≤ request.slot)
    (seen : ∀ query slot pubkey row, readable ≤ slot → visibleRow form rows query slot pubkey = some row →
      row.slot ≤ system.published → visibleRow form system.rows query slot pubkey = some row) :
    ({ system with rows, published, readable } : GpaSystem Query).Right form := by
  have holds : ∀ {query entry}, system.Holds form query entry →
      ({ system with rows, published, readable } : GpaSystem Query).Holds form query entry := by
    rintro query entry ⟨entryRight, bounded⟩
    refine ⟨fun slot pubkey row read above visible reached => ?_, bounded.trans later⟩
    have before := seen query slot pubkey row read visible (reached.trans bounded)
    exact entryRight slot pubkey row (raised.trans read) above before reached
  exact ⟨right.accounts, fun query entry present => holds (right.cached query entry present),
    fun job member => holds (right.jobs job member),
    fun task request present => ⟨reads task request present, (right.slots task request present).2.trans later⟩,
    fun task request cachedQuery present loaded entry member =>
      holds (right.found task request cachedQuery present loaded entry member)⟩

/-- A loaded request that its entry lets be served is served the standard response. -/
theorem Right.response (right : system.Right form) {task : ℕ} {request : GpaRequest Query}
    {cachedQuery : Option CachedQuery} (present : system.requests.lookup task = some request)
    (loaded : request.loaded = some cachedQuery)
    (serves : Serves form system.rows request.query request.slot cachedQuery) :
    cachedResponse form system.rows request.query request.slot cachedQuery =
      some (standardResponse form system.rows request.query request.slot) :=
  cachedResponse_eq (fun entry member => (right.found task request cachedQuery present loaded entry member).1)
    (right.slots task request present).1 serves

theorem Right.step (right : system.Right form) (allowed : system.Allowed form event)
    (moves : system.step form event = some next) : next.Right form := by
  cases event with
  | writeRows rows =>
    cases moves
    refine right.database le_rfl le_rfl (fun task request present => (right.slots task request present).1) ?_
    intro query slot pubkey row _ visible old
    exact visibleRow_of_append visible fun other member => old.trans_lt (allowed other member)
  | publish slot =>
    cases moves
    exact right.database le_rfl allowed (fun task request present => (right.slots task request present).1)
      fun _ _ _ _ _ visible _ => visible
  | cleanUp readable rows =>
    cases moves
    obtain ⟨-, raised, reads, same⟩ := allowed
    exact right.database raised le_rfl reads fun query slot pubkey row read visible _ =>
      same query slot pubkey read ▸ visible
  | pick task query slot =>
    cases moves
    refine ⟨right.accounts, right.cached, right.jobs, fun other request present => ?_,
      fun other request cachedQuery present loaded => ?_⟩
    · rw [HashMap.lookup_insert] at present
      split at present
      · cases present
        exact allowed
      · exact right.slots other request present
    · rw [HashMap.lookup_insert] at present
      split at present
      · cases present
        contradiction
      · exact right.found other request cachedQuery present loaded
  | loadSql task =>
    obtain ⟨request, here, rfl⟩ := Option.map_eq_some_iff.mp moves
    refine ⟨right.accounts, right.cached, right.jobs, fun other held present => ?_,
      fun other held cachedQuery present loaded entry member => ?_⟩
    · rw [HashMap.lookup_insert] at present
      split at present
      · cases present
        exact right.slots task request here
      · exact right.slots other held present
    · rw [HashMap.lookup_insert] at present
      split at present
      · cases present
        cases loaded
        exact right.cached request.query entry member
      · exact right.found other held cachedQuery present loaded entry member
  | serve task queryBytes accepted =>
    obtain ⟨request, present, moves⟩ := Option.bind_eq_some_iff.mp moves
    obtain ⟨cachedQuery, loaded, moves⟩ := Option.bind_eq_some_iff.mp moves
    dsimp only at moves
    rw [right.response present loaded (allowed request present cachedQuery loaded)] at moves
    cases moves
    have fewer : ∀ other held, (system.requests.erase task).lookup other = some held →
        system.requests.lookup other = some held := by
      intro other held kept
      rw [HashMap.lookup_erase] at kept
      split at kept
      · contradiction
      · exact kept
    refine ⟨right.accounts, right.cached, fun job member => ?_, fun other held kept =>
      right.slots other held (fewer other held kept), fun other held found kept =>
      right.found other held found (fewer other held kept)⟩
    dsimp only at member
    split at member
    · rcases List.mem_append.mp member with member | member
      · exact right.jobs job member
      · rw [List.mem_singleton.mp member]
        exact ⟨entryRight_standard, (right.slots task request present).2⟩
    · exact right.jobs job member
  | finalize position =>
    obtain ⟨job, listed, moves⟩ := Option.bind_eq_some_iff.mp moves
    obtain ⟨cache, installed, moves⟩ := Option.bind_eq_some_iff.mp moves
    cases moves
    have member : job ∈ system.jobs := List.mem_of_getElem? listed
    obtain ⟨after, stepped, origin, ran⟩ := right.accounts.finalize job
    rw [ran saturating rfl exact_saturatingSub, Option.some.injEq] at installed
    subst installed
    refine ⟨stepped.accounts, fun query entry present => ?_, fun other kept =>
      right.jobs other (List.mem_of_mem_eraseIdx kept), right.slots, right.found⟩
    rcases origin query entry present with before | ⟨rfl, rfl⟩
    · exact right.cached query entry before
    · exact right.jobs job member

/-- In every run whose served requests found no entry above the slot they read, a request that may be served is served
exactly the accounts and bytes of the standard path. -/
theorem cached_agrees_with_standard (form : QueryForm Query) (config : GpaCacheConfig) {events : List (GpaEvent Query)}
    {system : GpaSystem Query}
    (run : Run (new config) (step form) (fun _ system event => system.Allowed form event) events system) {task : ℕ}
    {request : GpaRequest Query} {cachedQuery : Option CachedQuery} (present : system.requests.lookup task = some request)
    (loaded : request.loaded = some cachedQuery)
    (serves : Serves form system.rows request.query request.slot cachedQuery) :
    cachedResponse form system.rows request.query request.slot cachedQuery =
      some (standardResponse form system.rows request.query request.slot) := by
  have right : system.Right form :=
    run.stateInvariant (.new config) fun _ _ _ _ right allowed moves => right.step allowed moves
  exact right.response present loaded serves

/-! ## Two schedules -/

/-- The allowed events other than a cleanup, which can be decided. -/
def AllowedPlain (form : QueryForm Query) (system : GpaSystem Query) : GpaEvent Query → Prop
  | .cleanUp _ _ => False
  | event => system.Allowed form event

instance : DecidablePred (system.AllowedPlain form)
  | .writeRows _ => inferInstanceAs (Decidable (∀ row ∈ _, _ < AccountRow.slot row))
  | .publish _ => inferInstanceAs (Decidable (_ ≤ _))
  | .cleanUp _ _ => inferInstanceAs (Decidable False)
  | .pick _ _ _ => inferInstanceAs (Decidable (_ ∧ _))
  | .serve _ _ _ =>
    inferInstanceAs (Decidable (∀ request ∈ _, ∀ cachedQuery ∈ GpaRequest.loaded request, Serves _ _ _ _ _))
  | .loadSql _ | .finalize _ => inferInstanceAs (Decidable True)

omit [DecidableEq Query] in
theorem AllowedPlain.allowed (plain : system.AllowedPlain form event) : system.Allowed form event := by
  cases event with
  | cleanUp readable rows => exact plain.elim
  | _ => exact plain

/-- The accounts of program 9, as their data. -/
private def ownedByNine : QueryForm Unit := ⟨fun _ row => row.owner = 9, fun _ row => row.data⟩

private def roomy : GpaCacheConfig := ⟨100, none, none⟩

/-- A schedule that replays, and a request after it that has looked its query up. -/
private theorem request_of_replay {events : List (GpaEvent Unit)} {task : ℕ}
    {holds : GpaSystem Unit → GpaRequest Unit → Option CachedQuery → Bool}
    (replayed : ((Run.replay (step ownedByNine) (fun _ system event => system.AllowedPlain ownedByNine event) []
      (new roomy) events).any fun system => (system.requests.lookup task).any fun request =>
        request.loaded.any (holds system request)) = true) :
    ∃ system request cachedQuery,
      Run (new roomy) (step ownedByNine) (fun _ system event => system.Allowed ownedByNine event) events system ∧
      system.requests.lookup task = some request ∧ request.loaded = some cachedQuery ∧
      holds system request cachedQuery = true := by
  obtain ⟨system, ran, found⟩ := (Option.any_eq_true _ _).mp replayed
  obtain ⟨request, present, found⟩ := (Option.any_eq_true _ _).mp found
  obtain ⟨cachedQuery, loaded, kept⟩ := (Option.any_eq_true _ _).mp found
  exact ⟨system, request, cachedQuery, (Run.replayed ran).mono fun _ _ _ _ plain => plain.allowed, present, loaded,
    kept⟩

/-- A second request over the entry of the first. -/
private def entryBelow : List (GpaEvent Unit) :=
  [.writeRows [⟨1, 9, 3, 5, [1]⟩], .publish 5, .pick 0 () 5, .loadSql 0, .serve 0 10 true, .finalize 0,
    .writeRows [⟨2, 9, 3, 6, [2]⟩], .publish 6, .pick 1 () 6, .loadSql 1]

theorem cached_agrees_over_an_older_entry :
    ∃ system request cachedQuery,
      Run (new roomy) (step ownedByNine) (fun _ system event => system.Allowed ownedByNine event) entryBelow system ∧
      system.requests.lookup 1 = some request ∧ request.loaded = some (some cachedQuery) ∧
      cachedResponse ownedByNine system.rows request.query request.slot (some cachedQuery) =
        some (standardResponse ownedByNine system.rows request.query request.slot) := by
  have replayed : ((Run.replay (step ownedByNine) (fun _ system event => system.AllowedPlain ownedByNine event) []
      (new roomy) entryBelow).any fun system => (system.requests.lookup 1).any fun request =>
        request.loaded.any fun cachedQuery => cachedQuery.any fun entry => decide (entry.slot ≤ request.slot)) =
          true := by decide +kernel
  obtain ⟨system, request, cachedQuery, run, present, loaded, kept⟩ := request_of_replay replayed
  obtain ⟨entry, rfl, below⟩ := (Option.any_eq_true _ _).mp kept
  exact ⟨system, request, entry, run, present, loaded,
    cached_agrees_with_standard ownedByNine roomy run present loaded (of_decide_eq_true below)⟩

/-- A request picks its slot, and looks its query up once another one has installed it at a higher slot. -/
private def entryAbove : List (GpaEvent Unit) :=
  [.writeRows [⟨1, 9, 3, 5, [1]⟩], .publish 5, .pick 0 () 5, .writeRows [⟨1, 9, 3, 6, [2]⟩], .publish 6, .pick 1 () 6,
    .loadSql 1, .serve 1 10 true, .finalize 0, .loadSql 0]

theorem entry_above_serves_newer_bytes :
    ∃ system request cachedQuery,
      Run (new roomy) (step ownedByNine) (fun _ system event => system.Allowed ownedByNine event) entryAbove system ∧
      system.requests.lookup 0 = some request ∧ request.loaded = some cachedQuery ∧
      cachedResponse ownedByNine system.rows request.query request.slot cachedQuery = some [(1, [2])] ∧
      standardResponse ownedByNine system.rows request.query request.slot = [(1, [1])] := by
  have replayed : ((Run.replay (step ownedByNine) (fun _ system event => system.AllowedPlain ownedByNine event) []
      (new roomy) entryAbove).any fun system => (system.requests.lookup 0).any fun request =>
        request.loaded.any fun cachedQuery =>
          decide (cachedResponse ownedByNine system.rows request.query request.slot cachedQuery = some [(1, [2])] ∧
            standardResponse ownedByNine system.rows request.query request.slot = [(1, [1])])) = true := by
    decide +kernel
  obtain ⟨system, request, cachedQuery, run, present, loaded, kept⟩ := request_of_replay replayed
  exact ⟨system, request, cachedQuery, run, present, loaded, of_decide_eq_true kept⟩

end GpaSystem

end Cloudbreak.Model.Gpa
