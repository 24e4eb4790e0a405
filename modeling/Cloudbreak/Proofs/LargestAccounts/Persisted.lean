import Cloudbreak.Proofs.LargestAccounts.Following

/-! # Every run

The tracker and its table agree on a mint whenever no persist under way concerns it, provided that statements
run in the order of their outcomes, that deletes succeed, and that a mint whose record failed is marked stale
before anything newer is under way for it.
-/

namespace Cloudbreak.Model.LargestAccounts

open Cloudbreak.ToMathlib

variable {shared : Shared} {system next : LargestSystem} {mint : Pubkey} {event : LargestEvent}
  {events : List LargestEvent} {position : ℕ} {succeeds : Bool} {statement : Statement} {rest : List Statement}

/-- What a statement needs besides its turn: a delete does not fail, and nothing newer is under way for a mint that
is marked. -/
def Statement.Careful (succeeds : Bool) (later : List Statement) : Statement → Prop
  | .deleteMintRows _ => succeeds = true
  | .markMintStale mint => ∀ other ∈ later, other.concerns mint = false
  | .persistRecords _ _ => True

namespace LargestSystem

/-- A statement runs after every earlier one about its mints. -/
def InOrder (system : LargestSystem) : LargestEvent → Prop
  | .statement position succeeds =>
    ∀ persist ∈ system.persists[position]?, ∀ statement ∈ persist.head?,
      (∀ earlier ∈ (system.persists.take position).flatten, statement.apart earlier = true) ∧
        statement.Careful succeeds (system.persists.drop (position + 1)).flatten
  | _ => True

/-- The system, seen from one mint. -/
def view (system : LargestSystem) (mint : Pubkey) : MintView where
  told := system.tracker.told mint
  slot := system.tracker.maxAppliedSlot
  rows := system.table.of mint
  plan := system.persists.flatten.filterMap (Statement.about mint)

/-- Every mint follows its tasks. Until the flip nothing is told and nothing stored. -/
structure Tracks (system : LargestSystem) : Prop where
  follows : ∀ mint, (system.view mint).Follows
  shaped : ∀ persist ∈ system.persists, Statement.WellFormed persist
  booting : system.tracker.status = .bootstrapping →
    system.persists.flatten = [] ∧ system.table = [] ∧ ∀ mint, system.tracker.told mint = none

namespace Tracks

theorem start (shared : Shared) : (LargestSystem.new shared).Tracks where
  follows mint := by
    rw [view, show (LargestSystem.new shared).tracker.told mint = none from TrackerState.told_new shared mint]
    exact MintView.Follows.start 0
  shaped _ member := absurd member List.not_mem_nil
  booting _ := ⟨rfl, rfl, TrackerState.told_new shared⟩

/-- The tracker changes without telling anything. -/
theorem quiet {tracker : TrackerState} (tracks : system.Tracks) (quiet : Quiet system.tracker tracker) :
    Tracks { system with tracker } where
  follows mint := by
    rw [view, show ({ system with tracker } : LargestSystem).tracker.told mint = _ from quiet.told mint]
    exact (tracks.follows mint).quiet quiet.ascends
  shaped := tracks.shaped
  booting booting := by
    obtain ⟨idle, empty, untold⟩ := tracks.booting (quiet.status.symm.trans booting)
    exact ⟨idle, empty, fun mint => (quiet.told mint).trans (untold mint)⟩

/-- A persist with nothing to do changes nothing. -/
theorem concat_nil (tracks : system.Tracks) : Tracks { system with persists := system.persists ++ [[]] } where
  follows mint := by
    have same : (system.persists ++ [[]]).flatten = system.persists.flatten := by
      rw [List.flatten_append, List.flatten_singleton, List.append_nil]
    rw [view, same]
    exact tracks.follows mint
  shaped persist member := by
    rcases List.mem_append.mp member with member | member
    · exact tracks.shaped persist member
    · rw [List.mem_singleton.mp member]
      trivial
  booting booting := by
    obtain ⟨idle, empty, untold⟩ := tracks.booting booting
    refine ⟨?_, empty, untold⟩
    rw [List.flatten_append, idle]
    rfl

theorem prune (tracks : system.Tracks) (slot : ℕ) : Tracks { system with table := system.table.prune slot } where
  follows mint := (tracks.follows mint).prune (LargestAccountsTable.of_prune_subset _ slot mint)
    fun _ member newest => LargestAccountsTable.mem_of_prune member newest
  shaped := tracks.shaped
  booting booting := by
    obtain ⟨idle, empty, untold⟩ := tracks.booting booting
    refine ⟨idle, ?_, untold⟩
    rw [show system.table = [] from empty]
    rfl

/-- A live tracker emits an outcome. -/
theorem emit {start tracker : TrackerState} {all : List Pubkey} {outcome : BlockOutcome} (tracks : system.Tracks)
    (live : system.tracker.status ≠ .bootstrapping) (quiet : Quiet system.tracker start)
    (emitted : Emitted start all (tracker, outcome)) :
    Tracks { system with tracker, persists := system.persists ++ [persistLargestOutcome outcome] } where
  follows mint := by
    have follows := tracks.follows mint
    have told := emitted.told mint
    rw [view, List.flatten_append, List.flatten_singleton, List.filterMap_append]
    rcases about_outcome emitted.nodup mint with ⟨none, unnamed⟩ | ⟨task, one, named, noMark, noBootstrap, recorded⟩
    · rw [unnamed, Option.getD_none, quiet.told mint] at told
      rw [none, List.append_nil, show tracker.told mint = _ from told]
      exact follows.quiet (quiet.ascends.trans emitted.slot.ge)
    · rw [named, Option.getD_some] at told
      rw [one, show tracker.told mint = _ from told]
      refine follows.emit task (quiet.ascends.trans emitted.slot.ge) noMark (fun record member => ?_)
        fun record same => absurd same (noBootstrap record)
      rw [emitted.slots record (recorded record member)]
      exact emitted.slot.symm
  shaped persist member := by
    rcases List.mem_append.mp member with member | member
    · exact tracks.shaped persist member
    · rw [List.mem_singleton.mp member]
      exact wellFormed_outcome emitted.nodup
  booting booting := absurd (quiet.status.symm.trans (emitted.status.symm.trans booting)) live

/-- The flip emits the first records. -/
theorem flip {start tracker : TrackerState} {all : List Pubkey} {outcome : BlockOutcome} (tracks : system.Tracks)
    (booting : system.tracker.status = .bootstrapping) (told : ∀ mint, start.told mint = system.tracker.told mint)
    (ascends : system.tracker.maxAppliedSlot ≤ start.maxAppliedSlot) (live : start.status = .live)
    (emitted : Emitted start all (tracker, outcome)) :
    Tracks { system with tracker, persists := system.persists ++ [persistBootstrapOutcome outcome] } where
  follows mint := by
    obtain ⟨idle, empty, untold⟩ := tracks.booting booting
    have follows := tracks.follows mint
    have tells := emitted.told mint
    have nothing : (system.view mint).plan = [] ∧ (system.view mint).rows = [] := by
      rw [view, idle, empty]
      exact ⟨rfl, rfl⟩
    rw [told mint, untold mint, BlockOutcome.leaves] at tells
    rw [view, List.flatten_append, List.flatten_singleton, List.filterMap_append, persistBootstrapOutcome,
      about_records, Statement.about]
    have named := emitted.nodup
    rw [BlockOutcome.named, List.nodup_append] at named
    cases found : outcome.records.find? fun record => record.mint = mint with
    | none =>
      rw [found] at tells
      have untoldAfter : tracker.told mint = none := by
        split at tells <;> exact tells
      rw [untoldAfter, ← untold mint]
      simp only [Option.map_none, Option.toList_none, List.append_nil]
      exact follows.quiet (ascends.trans emitted.slot.ge)
    | some record =>
      have member := List.mem_of_find?_eq_some found
      have same : record.mint = mint := by simpa using List.find?_some found
      have unlisted : ¬(outcome.newlyStale ++ outcome.cleared).contains mint = true := fun listed =>
        named.2.2 mint (List.contains_iff_mem.mp listed) mint (List.mem_map.mpr ⟨record, member, same⟩) rfl
      rw [if_neg unlisted, found] at tells
      rw [show tracker.told mint = some record.rows from tells]
      refine follows.emit (.upsert record true) (ascends.trans emitted.slot.ge) (fun mark => ?_)
        (fun other stamped => ?_) fun _ _ => nothing
      · cases mark
      · rw [← Option.some.inj stamped, emitted.slots record member]
        exact emitted.slot.symm
  shaped persist member := by
    rcases List.mem_append.mp member with member | member
    · exact tracks.shaped persist member
    · rw [List.mem_singleton.mp member]
      exact wellFormed_bootstrap emitted.nodup
  booting still := by
    have status : tracker.status = .live := emitted.status.trans live
    rw [show tracker.status = _ from still] at status
    contradiction

end Tracks

section Statement

variable {persist : List Statement}

/-- The persists before and after one. -/
theorem persists_eq (present : system.persists[position]? = some persist) :
    system.persists = system.persists.take position ++ persist :: system.persists.drop (position + 1) := by
  obtain ⟨less, same⟩ := List.getElem?_eq_some_iff.mp present
  rw [← same, ← List.drop_eq_getElem_cons less, List.take_append_drop]

theorem plan_eq (present : system.persists[position]? = some (statement :: rest))
    (turn : ∀ mint ∈ statement.mints, ∀ earlier ∈ (system.persists.take position).flatten,
      earlier.concerns mint = false) {task : MintTask} (about : statement.about mint = some task) :
    (system.view mint).plan = task :: (rest.filterMap (Statement.about mint) ++
      (system.persists.drop (position + 1)).flatten.filterMap (Statement.about mint)) := by
  have earlier : (system.persists.take position).flatten.filterMap (Statement.about mint) = [] :=
    List.filterMap_eq_nil_iff.mpr fun other member =>
      Statement.about_of_not_concerns (turn mint (Statement.mem_mints_of_about about) other member)
  rw [view]
  conv_lhs => rw [persists_eq present]
  rw [List.flatten_append, List.filterMap_append, earlier, List.nil_append, List.flatten_cons,
    List.filterMap_append, List.filterMap_cons_some about, List.cons_append]

/-- What is left of a mint's tasks once the statement is replaced by what follows it up. -/
theorem plan_set (present : system.persists[position]? = some (statement :: rest))
    (turn : ∀ mint ∈ statement.mints, ∀ earlier ∈ (system.persists.take position).flatten,
      earlier.concerns mint = false) {task : MintTask} (about : statement.about mint = some task)
    (followUp : List Statement) :
    (system.persists.set position (followUp ++ rest)).flatten.filterMap (Statement.about mint) =
      followUp.filterMap (Statement.about mint) ++ (rest.filterMap (Statement.about mint) ++
        (system.persists.drop (position + 1)).flatten.filterMap (Statement.about mint)) := by
  obtain ⟨less, same⟩ := List.getElem?_eq_some_iff.mp present
  have earlier : (system.persists.take position).flatten.filterMap (Statement.about mint) = [] :=
    List.filterMap_eq_nil_iff.mpr fun other member =>
      Statement.about_of_not_concerns (turn mint (Statement.mem_mints_of_about about) other member)
  rw [List.set_eq_take_append_cons_drop, if_pos less, List.flatten_append, List.filterMap_append, earlier,
    List.nil_append, List.flatten_cons, List.filterMap_append, List.filterMap_append, List.append_assoc]

/-- A mint that the statement does not concern keeps its tasks. -/
theorem plan_set_other (present : system.persists[position]? = some (statement :: rest))
    (none : statement.about mint = none) {followUp : List Statement}
    (noFollowUp : followUp.filterMap (Statement.about mint) = []) :
    (system.persists.set position (followUp ++ rest)).flatten.filterMap (Statement.about mint) =
      (system.view mint).plan := by
  obtain ⟨less, same⟩ := List.getElem?_eq_some_iff.mp present
  rw [view]
  dsimp only
  rw [List.set_eq_take_append_cons_drop, if_pos less]
  conv_rhs => rw [persists_eq present]
  simp only [List.flatten_append, List.flatten_cons, List.filterMap_append, List.filterMap_cons_none none, noFollowUp,
    List.nil_append]

end Statement

namespace Tracks

theorem shaped_set (tracks : system.Tracks) {persist : List Statement} (shaped : Statement.WellFormed persist) :
    ∀ other ∈ system.persists.set position persist, Statement.WellFormed other := by
  intro other member
  rcases List.mem_or_eq_of_mem_set member with member | same
  · exact tracks.shaped other member
  · exact same ▸ shaped

theorem not_booting (tracks : system.Tracks) (present : system.persists[position]? = some (statement :: rest)) :
    system.tracker.status ≠ .bootstrapping := by
  intro booting
  have member : statement ∈ system.persists.flatten :=
    List.mem_flatten.mpr ⟨_, List.mem_of_getElem? present, List.mem_cons_self⟩
  rw [(tracks.booting booting).1] at member
  exact absurd member List.not_mem_nil

section InTurn

variable (tracks : system.Tracks) (present : system.persists[position]? = some (statement :: rest))
  (turn : ∀ mint ∈ statement.mints, ∀ earlier ∈ (system.persists.take position).flatten,
    earlier.concerns mint = false)

include tracks present turn

/-- A statement that succeeds is the next task of each of its mints. -/
theorem succeed {table : LargestAccountsTable}
    (rows : ∀ mint, table.of mint = (statement.about mint).elim (system.table.of mint) fun task =>
      task.run (system.table.of mint))
    (noMark : ∀ mint, statement.about mint ≠ some .mark) :
    Tracks { system with table, persists := system.persists.set position rest } where
  follows mint := by
    have follows := tracks.follows mint
    cases about : statement.about mint with
    | none =>
      rw [view, ← List.nil_append rest, plan_set_other present about rfl, rows, about, Option.elim_none]
      exact follows
    | some task =>
      have ran := follows.run (plan_eq present turn about) fun same => noMark mint (about.trans (congrArg some same))
      rw [view, ← List.nil_append rest, plan_set present turn about [], rows, about, Option.elim_some]
      exact ran
  shaped := tracks.shaped_set (tracks.shaped _ (List.mem_of_getElem? present)).tail
  booting booting := absurd booting (tracks.not_booting present)

/-- A transaction that fails leaves its mints to be marked. -/
theorem fail {records : List MintRecord} {bootstrap : Bool} (same : statement = .persistRecords records bootstrap) :
    Tracks { system with persists := system.persists.set position (statement.onFailure ++ rest) } where
  follows mint := by
    subst same
    have follows := tracks.follows mint
    have distinct := (tracks.shaped _ (List.mem_of_getElem? present)).1
    have followUp := Statement.about_onFailure distinct bootstrap mint
    cases about : (Statement.persistRecords records bootstrap).about mint with
    | none =>
      rw [about, Option.elim_none] at followUp
      rw [view, plan_set_other present about followUp]
      exact follows
    | some task =>
      rw [about, Option.elim_some] at followUp
      obtain ⟨record, found, same⟩ := Option.map_eq_some_iff.mp about
      rw [view, plan_set present turn about, followUp, ← same]
      refine follows.fail ?_
      rw [plan_eq present turn about, ← same]
  shaped := by
    subst same
    have shaped := tracks.shaped _ (List.mem_of_getElem? present)
    refine tracks.shaped_set ?_
    rw [shaped.2, List.append_nil]
    exact Statement.wellFormed_of_noRecords Statement.noRecords_onFailure
  booting booting := absurd booting (tracks.not_booting present)

/-- A mint is marked while nothing newer is under way for it. -/
theorem mark {marked : Pubkey} (same : statement = .markMintStale marked)
    (alone : ∀ other ∈ (system.persists.drop (position + 1)).flatten, other.concerns marked = false) :
    Tracks { system with
      tracker := system.tracker.markMintStale marked, persists := system.persists.set position rest } where
  follows mint := by
    subst same
    have follows := tracks.follows mint
    have fields := system.tracker.markMintStale_fields marked
    rw [view, TrackerState.markMintStale_told]
    dsimp only
    rw [fields.2, ← List.nil_append rest]
    rcases eq_or_ne marked mint with rfl | differs
    · have about : (Statement.markMintStale marked).about marked = some .mark := if_pos rfl
      have plan := plan_eq present turn about
      have later : (system.persists.drop (position + 1)).flatten.filterMap (Statement.about marked) = [] :=
        List.filterMap_eq_nil_iff.mpr fun other member => Statement.about_of_not_concerns (alone other member)
      rw [if_pos rfl, plan_set present turn about]
      refine follows.mark plan fun task member => MintTask.eq_delete ?_ ?_
      · rw [later, List.append_nil] at member
        obtain ⟨other, present', about'⟩ := List.mem_filterMap.mp member
        exact Statement.record_of_noRecords ((tracks.shaped _ (List.mem_of_getElem? present)).1 other present') about'
      · have marks := follows.marks
        rw [plan] at marks
        exact fun same => marks (same ▸ member)
    · rw [if_neg differs.symm, plan_set_other present (if_neg differs) rfl]
      exact follows
  shaped := tracks.shaped_set (tracks.shaped _ (List.mem_of_getElem? present)).tail
  booting booting := by
    have status := (system.tracker.markMintStale_fields marked).1
    exact absurd (status.symm.trans booting) (tracks.not_booting present)

end InTurn

/-- One step. -/
theorem step (tracks : system.Tracks) (inOrder : system.InOrder event) (moves : system.step shared event = some next) :
    next.Tracks := by
  cases event with
  | mergeSeed seed =>
    cases moves
    exact tracks.quiet (TrackerState.mergeSeed_quiet shared system.tracker seed)
  | prune slot =>
    cases moves
    exact tracks.prune slot
  | finishBootstrap balances =>
    obtain rfl : { system with
        tracker := (system.tracker.finishBootstrap shared balances).1
        persists := system.persists ++
          [persistBootstrapOutcome (system.tracker.finishBootstrap shared balances).2] } = next := Option.some.inj moves
    rcases TrackerState.finishBootstrap_emitted shared system.tracker balances with ⟨_, same⟩ | ⟨booting, all, emitted⟩
    · rw [same]
      exact tracks.concat_nil
    · have live := TrackerState.goLive_told shared system.tracker balances
      exact tracks.flip booting live.1 live.2 rfl emitted
  | commitBlock slot pending order =>
    obtain ⟨⟨tracker, outcome⟩, applied, same⟩ := Option.map_eq_some_iff.mp moves
    rw [← same]
    rcases TrackerState.applyBlock_emitted applied with ⟨_, quiet, rfl⟩ | ⟨live, start, all, quiet, emitted⟩
    · exact (tracks.quiet quiet).concat_nil
    · exact tracks.emit live quiet emitted
  | statement position succeeds =>
    rw [LargestSystem.step] at moves
    split at moves
    · next statement rest present =>
      obtain ⟨apart, careful⟩ := inOrder _ present _ rfl
      have turn : ∀ mint ∈ statement.mints, ∀ earlier ∈ (system.persists.take position).flatten,
          earlier.concerns mint = false :=
        fun mint member earlier before => Statement.concerns_of_apart (apart earlier before) member
      cases moves
      cases statement with
      | deleteMintRows deleted =>
        rw [show succeeds = true from careful]
        refine tracks.succeed present turn (fun mint => ?_) fun mint about => ?_
        · refine (LargestAccountsTable.of_deleteMintRows system.table deleted mint).trans ?_
          rw [Statement.about]
          split <;> rfl
        · rw [Statement.about] at about
          split at about <;> cases about
      | markMintStale marked => exact tracks.mark present turn rfl careful
      | persistRecords records bootstrap =>
        have distinct := (tracks.shaped _ (List.mem_of_getElem? present)).1
        cases succeeds with
        | false => exact tracks.fail present turn rfl
        | true =>
          refine tracks.succeed present turn (LargestAccountsTable.of_persistRecords distinct _ bootstrap)
            fun mint about => ?_
          obtain ⟨record, _, same⟩ := Option.map_eq_some_iff.mp about
          contradiction
    · contradiction


end Tracks

private theorem tracks_run
    (run : Run (new shared) (step shared) (fun _ system event => system.InOrder event) events system) :
    system.Tracks :=
  run.stateInvariant (Tracks.start shared) fun _ _ _ _ tracks inOrder moves => tracks.step inOrder moves

/-- A mint that no persist under way concerns: its newest row is the tracker's last record and every read from that
slot on returns it; if the mint is stale or cleared it has no row and every read finds none. -/
theorem stored_rows_follow_tracker (shared : Shared) {events : List LargestEvent} {system : LargestSystem}
    (run : Run (new shared) (step shared) (fun _ system event => system.InOrder event) events system)
    {mint : Pubkey} (persisted : ∀ persist ∈ system.persists, ∀ statement ∈ persist, statement.concerns mint = false)
    {top : MintTop} (present : system.tracker.mints.lookup mint = some top) :
    (top.stale = false → top.lastRecord ≠ [] →
      ∃ row ∈ system.table, row.mint = mint ∧ row.rows = top.lastRecord ∧
        (∀ other ∈ system.table, other.mint = mint → other = row ∨ other.slot < row.slot) ∧
        ∀ maxSlot, row.slot ≤ maxSlot → system.table.fetchRecord mint maxSlot = some top.lastRecord) ∧
    (top.stale = true ∨ top.lastRecord = [] →
      (∀ row ∈ system.table, row.mint ≠ mint) ∧ ∀ maxSlot, system.table.fetchRecord mint maxSlot = none) := by
  have follows := (tracks_run run).follows mint
  have idle : (system.view mint).plan = [] := by
    refine List.filterMap_eq_nil_iff.mpr fun statement member => Statement.about_of_not_concerns ?_
    obtain ⟨persist, underWay, inPersist⟩ := List.mem_flatten.mp member
    exact persisted persist underWay statement inPersist
  have stored : Stored (system.table.of mint) (system.tracker.told mint) := follows.idle idle
  have told : system.tracker.told mint = top.told := by
    rw [TrackerState.told, present, Option.bind_some]
  constructor
  · intro _ full
    rw [told, MintTop.told, if_neg full] at stored
    obtain ⟨row, member, same, newest⟩ := stored
    obtain ⟨inTable, ofMint⟩ := List.mem_filter.mp member
    refine ⟨row, inTable, of_decide_eq_true ofMint, same, fun other otherIn otherMint => ?_, fun maxSlot reaches => ?_⟩
    · exact newest other (List.mem_filter.mpr ⟨otherIn, decide_eq_true otherMint⟩)
    · refine LargestAccountsTable.fetchRecord_eq (some top.lastRecord) ⟨row, member, same, newest⟩
        fun other present => ?_
      rcases newest other present with rfl | less
      · exact reaches
      · omega
  · intro gone
    have empty : top.lastRecord = [] := gone.elim top.staleEmpty id
    rw [told, MintTop.told, if_pos empty] at stored
    have none : system.table.of mint = [] := stored
    refine ⟨fun row member same => ?_, fun maxSlot => ?_⟩
    · exact absurd (decide_eq_true same) (List.filter_eq_nil_iff.mp none row member)
    · exact LargestAccountsTable.fetchRecord_eq Option.none none fun row member => by
        rw [none] at member
        exact absurd member List.not_mem_nil

/-! ## Two schedules -/

instance (succeeds : Bool) (later : List Statement) : (statement : Statement) →
    Decidable (statement.Careful succeeds later)
  | .deleteMintRows _ => inferInstanceAs (Decidable (succeeds = true))
  | .markMintStale mint => inferInstanceAs (Decidable (∀ other ∈ later, other.concerns mint = false))
  | .persistRecords _ _ => inferInstanceAs (Decidable True)

instance (system : LargestSystem) : DecidablePred system.InOrder
  | .statement position succeeds => inferInstanceAs (Decidable (∀ persist ∈ system.persists[position]?,
      ∀ statement ∈ List.head? persist,
        (∀ earlier ∈ (system.persists.take position).flatten, Statement.apart statement earlier = true) ∧
          Statement.Careful succeeds (system.persists.drop (position + 1)).flatten statement))
  | .mergeSeed _ | .finishBootstrap _ | .commitBlock _ _ _ | .prune _ => inferInstanceAs (Decidable True)

/-- The tops of mint 7. -/
private def oneMint : Shared := ⟨none, [7], 20⟩

/-- One token account of mint 7 in a block. -/
private def holding (slot : ℕ) (pubkey : Pubkey) (amount : ℕ) : LargestEvent :=
  .commitBlock slot [(pubkey, ⟨1, 10, false, some (7, amount)⟩)] [7]

/-- The late block 4 changes an older holder after block 5, and each persist runs in its turn. -/
private def inTurn : List LargestEvent :=
  [.finishBootstrap [], holding 2 1 100, .statement 1 true, holding 5 2 50, holding 4 1 60, .statement 2 true,
    .statement 3 true]

/-- A schedule that replays, and the top of mint 7 after it. -/
private theorem exists_of_replay {events : List LargestEvent}
    {allowed : List LargestEvent → LargestSystem → LargestEvent → Prop}
    [∀ events system event, Decidable (allowed events system event)] {holds : LargestSystem → MintTop → Bool}
    (replayed : ((Run.replay (step oneMint) allowed [] (new oneMint) events).any fun system =>
      (system.tracker.mints.lookup 7).any (holds system)) = true) :
    ∃ system top, Run (new oneMint) (step oneMint) allowed events system ∧
      system.tracker.mints.lookup 7 = some top ∧ holds system top = true := by
  obtain ⟨system, ran, found⟩ := (Option.any_eq_true _ _).mp replayed
  obtain ⟨top, present, kept⟩ := (Option.any_eq_true _ _).mp found
  exact ⟨system, top, Run.replayed ran, present, kept⟩

theorem stored_rows_follow_a_late_block :
    ∃ system top row, Run (new oneMint) (step oneMint) (fun _ system event => system.InOrder event) inTurn system ∧
      system.tracker.mints.lookup 7 = some top ∧ top.lastRecord = [(1, 60), (2, 50)] ∧ row ∈ system.table ∧
      row.rows = top.lastRecord ∧ system.table.fetchRecord 7 row.slot = some [(1, 60), (2, 50)] := by
  have replayed : ((Run.replay (step oneMint) (fun _ system event => system.InOrder event) [] (new oneMint)
      inTurn).any fun system => (system.tracker.mints.lookup 7).any fun top => decide (top.stale = false ∧
        top.lastRecord = [(1, 60), (2, 50)] ∧ system.persists.flatten = [])) = true := by decide +kernel
  obtain ⟨system, top, run, present, fields⟩ := exists_of_replay replayed
  obtain ⟨fresh, last, idle⟩ := of_decide_eq_true fields
  have persisted : ∀ persist ∈ system.persists, ∀ statement ∈ persist, statement.concerns 7 = false := by
    intro persist underWay statement member
    have inFlatten := List.mem_flatten.mpr ⟨persist, underWay, member⟩
    rw [idle] at inFlatten
    exact absurd inFlatten List.not_mem_nil
  obtain ⟨row, member, _, rows, _, reads⟩ := (stored_rows_follow_tracker oneMint run persisted present).1 fresh
    (by rw [last]; exact List.cons_ne_nil _ _)
  exact ⟨system, top, row, run, present, last, member, rows, last ▸ reads row.slot le_rfl⟩

/-- The same blocks, but the persist of block 5 runs last. -/
private def outOfTurn : List LargestEvent :=
  [.finishBootstrap [], holding 2 1 100, .statement 1 true, holding 5 2 50, holding 4 1 60, .statement 3 true,
    .statement 2 true]

/-- All persists have completed, and the newest row holds the record before the last one. -/
theorem older_record_persisted_last :
    ∃ system top, Run (new oneMint) (step oneMint) (fun _ _ _ => True) outOfTurn system ∧
      system.persists.flatten = [] ∧ system.tracker.mints.lookup 7 = some top ∧ top.stale = false ∧
      top.lastRecord = [(1, 60), (2, 50)] ∧ system.table.fetchRecord 7 5 = some [(1, 100), (2, 50)] ∧
      ∀ row ∈ system.table, row.rows ≠ top.lastRecord := by
  have replayed : ((Run.replay (step oneMint) (fun _ _ _ => True) [] (new oneMint) outOfTurn).any fun system =>
      (system.tracker.mints.lookup 7).any fun top => decide (system.persists.flatten = [] ∧ top.stale = false ∧
        top.lastRecord = [(1, 60), (2, 50)] ∧ system.table.fetchRecord 7 5 = some [(1, 100), (2, 50)] ∧
        ∀ row ∈ system.table, row.rows ≠ top.lastRecord)) = true := by decide +kernel
  obtain ⟨system, top, run, present, fields⟩ := exists_of_replay replayed
  obtain ⟨idle, rest⟩ := of_decide_eq_true fields
  exact ⟨system, top, run, idle, present, rest⟩

end LargestSystem

end Cloudbreak.Model.LargestAccounts
