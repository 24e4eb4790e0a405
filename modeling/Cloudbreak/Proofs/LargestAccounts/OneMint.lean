import Cloudbreak.Model.LargestAccounts.Persist

/-! # One mint and the statements about it

Seen from one mint, the persists under way are one list of tasks, in the order of their outcomes. While the
tasks run in that order, the last of them leaves what the tracker told of the mint, and so do the rows once
no task is left.
-/

namespace Cloudbreak.Model.LargestAccounts

/-- What a persist has left to do for one mint. -/
inductive MintTask where
  | delete
  | upsert (record : MintRecord) (bootstrap : Bool)
  | mark

namespace MintTask

def record : MintTask → Option MintRecord
  | .upsert record _ => some record
  | _ => none

/-- The rows a task leaves for the newest read. -/
def leaves (task : MintTask) : Option (List (Pubkey × ℕ)) := task.record.map MintRecord.rows

def run (rows : List MintRecord) : MintTask → List MintRecord
  | .delete => []
  | .upsert record _ => rows.filter (fun row => row.slot ≠ record.slot) ++ [record]
  | .mark => rows

def onFailure : MintTask → List MintTask
  | .upsert _ false => [.mark, .delete]
  | .upsert _ true => [.mark]
  | _ => []

theorem eq_delete {task : MintTask} (noRecord : task.record = none) (noMark : task ≠ .mark) : task = .delete := by
  cases task with
  | delete => rfl
  | upsert record bootstrap => cases noRecord
  | mark => exact absurd rfl noMark

end MintTask

/-- One mint: what the tracker told of it and up to which slot, its rows, and the tasks left for it. -/
structure MintView where
  told : Option (List (Pubkey × ℕ))
  slot : ℕ
  rows : List MintRecord
  plan : List MintTask

/-- The rows of a mint show what was told of it: the newest of them, or nothing. -/
def Stored (rows : List MintRecord) : Option (List (Pubkey × ℕ)) → Prop
  | none => rows = []
  | some told => ∃ row ∈ rows, row.rows = told ∧ ∀ other ∈ rows, other = row ∨ other.slot < row.slot

namespace MintView

variable {view : MintView} {task : MintTask} {rest : List MintTask} {slot : ℕ}

/-- The last task leaves what was told. A mint whose record failed is marked next, and then deleted unless it never
had a row. The bootstrap's record is the first of all. -/
structure Follows (view : MintView) : Prop where
  idle : view.plan = [] → Stored view.rows view.told
  told : ∀ last ∈ view.plan.getLast?, view.plan.head? ≠ some .mark → last.leaves = view.told
  marks : .mark ∉ view.plan.tail
  marked : view.plan.head? = some .mark → view.plan.tail.head? = some .delete ∨ view.rows = []
  bootstrap : ∀ record, .upsert record true ∉ view.plan.tail
  booting : ∀ record, view.plan.head? = some (.upsert record true) → view.rows = []
  ascending : (view.plan.filterMap MintTask.record).Pairwise fun first second => first.slot ≤ second.slot
  above : ∀ row ∈ view.rows, ∀ record ∈ view.plan.filterMap MintTask.record, row.slot ≤ record.slot
  planBelow : ∀ record ∈ view.plan.filterMap MintTask.record, record.slot ≤ view.slot
  rowsBelow : ∀ row ∈ view.rows, row.slot ≤ view.slot

namespace Follows

theorem start (slot : ℕ) : Follows ⟨none, slot, [], []⟩ where
  idle _ := rfl
  told _ member := by cases member
  marks := List.not_mem_nil
  marked head := by cases head
  bootstrap _ := List.not_mem_nil
  booting _ _ := rfl
  ascending := List.Pairwise.nil
  above _ member := absurd member List.not_mem_nil
  planBelow _ member := absurd member List.not_mem_nil
  rowsBelow _ member := absurd member List.not_mem_nil

theorem quiet (follows : view.Follows) (ascends : view.slot ≤ slot) : Follows { view with slot } :=
  { follows with
    planBelow := fun record member => (follows.planBelow record member).trans ascends
    rowsBelow := fun row member => (follows.rowsBelow row member).trans ascends }

/-- A block emits for the mint: its task comes last. -/
theorem emit (follows : view.Follows) (task : MintTask) (ascends : view.slot ≤ slot) (noMark : task ≠ .mark)
    (stamped : ∀ record ∈ task.record, record.slot = slot)
    (first : ∀ record, task = .upsert record true → view.plan = [] ∧ view.rows = []) :
    Follows { view with told := task.leaves, slot, plan := view.plan ++ [task] } where
  idle empty := absurd empty (by simp)
  told last member _ := by
    rw [List.getLast?_append, List.getLast?_singleton, Option.some_or] at member
    rw [Option.mem_some_iff.mp member]
  marks := by
    cases shape : view.plan with
    | nil => exact List.not_mem_nil
    | cons head rest =>
      have before := follows.marks
      rw [shape] at before
      simp only [List.cons_append, List.tail_cons, List.mem_append, List.mem_singleton, not_or] at before ⊢
      exact ⟨before, noMark.symm⟩
  marked head := by
    have before := follows.marked
    cases shape : view.plan with
    | nil =>
      rw [shape] at head
      exact absurd (Option.some.inj head) noMark
    | cons next rest =>
      rw [shape] at head before
      refine (before head).imp_left fun delete => ?_
      cases rest with
      | nil => cases delete
      | cons second rest => exact delete
  bootstrap record := by
    cases shape : view.plan with
    | nil => exact List.not_mem_nil
    | cons head rest =>
      have before := follows.bootstrap record
      rw [shape] at before
      simp only [List.cons_append, List.tail_cons, List.mem_append, List.mem_singleton, not_or] at before ⊢
      refine ⟨before, fun same => ?_⟩
      rw [(first record same.symm).1] at shape
      cases shape
  booting record head := by
    cases shape : view.plan with
    | nil =>
      rw [shape] at head
      exact (first record (Option.some.inj head)).2
    | cons next rest =>
      refine follows.booting record ?_
      rw [shape] at head ⊢
      exact head
  ascending := by
    rw [List.filterMap_append, List.pairwise_append]
    refine ⟨follows.ascending, ?_, fun earlier member record last => ?_⟩
    · cases same : task.record with
      | none =>
        rw [List.filterMap_cons_none same]
        exact List.Pairwise.nil
      | some record =>
        rw [List.filterMap_cons_some same]
        exact List.pairwise_singleton _ _
    · rw [stamped record (by simpa using last)]
      exact (follows.planBelow earlier member).trans ascends
  above row member record planned := by
    rw [List.filterMap_append] at planned
    rcases List.mem_append.mp planned with planned | last
    · exact follows.above row member record planned
    · rw [stamped record (by simpa using last)]
      exact (follows.rowsBelow row member).trans ascends
  planBelow record planned := by
    rw [List.filterMap_append] at planned
    rcases List.mem_append.mp planned with planned | last
    · exact (follows.planBelow record planned).trans ascends
    · exact (stamped record (by simpa using last)).le
  rowsBelow row member := (follows.rowsBelow row member).trans ascends

/-- The rows after a task are the task's own and older ones. -/
theorem mem_run (follows : view.Follows) (plan : view.plan = task :: rest) (noMark : task ≠ .mark) {row : MintRecord}
    (member : row ∈ task.run view.rows) :
    row ∈ task.record ∨ (row ∈ view.rows ∧ ∀ record ∈ task.record, row.slot < record.slot) := by
  cases task with
  | mark => exact absurd rfl noMark
  | delete => exact absurd member List.not_mem_nil
  | upsert record bootstrap =>
    rcases List.mem_append.mp member with kept | last
    · obtain ⟨before, differs⟩ := List.mem_filter.mp kept
      have le := follows.above row before record (by rw [plan]; exact List.mem_cons_self)
      refine Or.inr ⟨before, fun other same => ?_⟩
      rw [← Option.some.inj same]
      exact lt_of_le_of_ne le (of_decide_eq_true differs)
    · rw [List.mem_singleton.mp last]
      exact Or.inl rfl

/-- The first task runs. -/
theorem run (follows : view.Follows) (plan : view.plan = task :: rest) (noMark : task ≠ .mark) :
    Follows { view with rows := task.run view.rows, plan := rest } := by
  have marks := follows.marks
  have bootstrap := follows.bootstrap
  have ascending := follows.ascending
  have above := follows.above
  have planBelow := follows.planBelow
  have told := follows.told
  rw [plan] at marks bootstrap ascending above planBelow told
  have rest_subset : ∀ record ∈ rest.filterMap MintTask.record, record ∈ (task :: rest).filterMap MintTask.record :=
    fun record member => by
      obtain ⟨other, present, same⟩ := List.mem_filterMap.mp member
      exact List.mem_filterMap.mpr ⟨other, List.mem_cons_of_mem _ present, same⟩
  refine ⟨fun empty => ?_, fun last member _ => ?_, fun member => marks (List.mem_of_mem_tail member),
    fun head => absurd (List.mem_of_head? head) marks, fun record member => bootstrap record (List.mem_of_mem_tail member),
    fun record head => absurd (List.mem_of_head? head) (bootstrap record), ?_, fun row member record planned => ?_,
    fun record planned => planBelow record (rest_subset record planned), fun row member => ?_⟩
  · have leaves := told task (by rw [show rest = [] from empty]; rfl) fun head => noMark (Option.some.inj head)
    cases task with
    | mark => exact absurd rfl noMark
    | delete =>
      rw [← leaves]
      rfl
    | upsert record bootstrap =>
      rw [← leaves]
      refine ⟨record, List.mem_append_right _ (List.mem_singleton_self _), rfl, fun other member => ?_⟩
      rcases follows.mem_run plan noMark member with same | ⟨_, older⟩
      · exact Or.inl (Option.some.inj same).symm
      · exact Or.inr (older record rfl)
  · refine told last ?_ fun head => noMark (Option.some.inj head)
    rw [List.getLast?_cons, Option.mem_def.mp member]
    rfl
  · cases same : task.record with
    | none => rwa [List.filterMap_cons_none same] at ascending
    | some record =>
      rw [List.filterMap_cons_some same] at ascending
      exact ascending.of_cons
  · rcases follows.mem_run plan noMark member with same | ⟨before, _⟩
    · rw [List.filterMap_cons_some same] at ascending
      exact (List.pairwise_cons.mp ascending).1 record planned
    · exact above row before record (rest_subset record planned)
  · rcases follows.mem_run plan noMark member with same | ⟨before, _⟩
    · exact planBelow row (List.mem_filterMap.mpr ⟨task, List.mem_cons_self, same⟩)
    · exact follows.rowsBelow row before

/-- The first task is a record, and fails: the mint is marked next. -/
theorem fail {record : MintRecord} {bootstrap : Bool} (follows : view.Follows)
    (plan : view.plan = .upsert record bootstrap :: rest) :
    Follows { view with plan := (MintTask.upsert record bootstrap).onFailure ++ rest } := by
  have marks := follows.marks
  have first := follows.bootstrap
  have booting := follows.booting
  have ascending := follows.ascending
  have above := follows.above
  have planBelow := follows.planBelow
  rw [plan] at marks first booting ascending above planBelow
  have records : ((MintTask.upsert record bootstrap).onFailure ++ rest).filterMap MintTask.record =
      rest.filterMap MintTask.record := by
    cases bootstrap <;> rfl
  refine ⟨fun empty => ?_, fun last member head => ?_, ?_, fun _ => ?_, fun other => ?_, fun other head => ?_, ?_, ?_, ?_,
    follows.rowsBelow⟩
  · cases bootstrap <;> cases empty
  · cases bootstrap <;> exact absurd rfl head
  · cases bootstrap with
    | true => exact marks
    | false =>
      intro member
      rcases List.mem_cons.mp member with same | member
      · cases same
      · exact marks member
  · cases bootstrap with
    | true => exact Or.inr (booting record rfl)
    | false => exact Or.inl rfl
  · cases bootstrap with
    | true => exact first other
    | false =>
      intro member
      rcases List.mem_cons.mp member with same | member
      · cases same
      · exact first other member
  · cases bootstrap <;> cases head
  · rw [records]
    exact ascending.of_cons
  · intro row member other planned
    rw [records] at planned
    exact above row member other (List.mem_cons_of_mem _ planned)
  · intro other planned
    rw [records] at planned
    exact planBelow other (List.mem_cons_of_mem _ planned)

/-- The mint is marked stale while nothing but its delete is left. -/
theorem mark (follows : view.Follows) (plan : view.plan = .mark :: rest) (deletes : ∀ task ∈ rest, task = .delete) :
    Follows { view with told := none, plan := rest } := by
  have marked := follows.marked
  rw [plan] at marked
  have noRecords : rest.filterMap MintTask.record = [] := by
    refine List.filterMap_eq_nil_iff.mpr fun task member => ?_
    rw [deletes task member]
    rfl
  have noMark : .mark ∉ rest := fun member => by cases deletes _ member
  have noRecord : ∀ record bootstrap, .upsert record bootstrap ∉ rest := fun record bootstrap member => by
    cases deletes _ member
  refine ⟨fun empty => ?_, fun last member _ => ?_, fun member => noMark (List.mem_of_mem_tail member),
    fun head => absurd (List.mem_of_head? head) noMark,
    fun record member => noRecord record true (List.mem_of_mem_tail member),
    fun record head => absurd (List.mem_of_head? head) (noRecord record true), ?_, ?_, ?_, follows.rowsBelow⟩
  · rcases marked rfl with delete | none
    · rw [show rest = [] from empty] at delete
      cases delete
    · exact none
  · rw [deletes last (List.mem_of_getLast? member)]
    rfl
  · rw [noRecords]
    exact List.Pairwise.nil
  · intro row _ record planned
    rw [noRecords] at planned
    exact absurd planned List.not_mem_nil
  · intro record planned
    rw [noRecords] at planned
    exact absurd planned List.not_mem_nil

/-- Generations below the newest are deleted. -/
theorem prune {rows : List MintRecord} (follows : view.Follows) (fewer : rows ⊆ view.rows)
    (newest : ∀ row ∈ view.rows, (∀ other ∈ view.rows, other.slot ≤ row.slot) → row ∈ rows) :
    Follows { view with rows } :=
  { follows with
    idle := fun empty => by
      have stored := follows.idle empty
      change Stored rows view.told
      cases told : view.told with
      | none =>
        rw [told] at stored
        exact List.eq_nil_iff_forall_not_mem.mpr fun row member => by
          have before := fewer member
          rw [show view.rows = [] from stored] at before
          exact absurd before List.not_mem_nil
      | some wanted =>
        rw [told] at stored
        obtain ⟨row, member, same, top⟩ := stored
        refine ⟨row, newest row member fun other present => ?_, same, fun other present => top other (fewer present)⟩
        rcases top other present with rfl | less
        · exact le_rfl
        · exact less.le
    marked := fun head => (follows.marked head).imp_right fun none => by
      exact List.eq_nil_iff_forall_not_mem.mpr fun row member => by
        have before := fewer member
        rw [none] at before
        exact absurd before List.not_mem_nil
    booting := fun record head => List.eq_nil_iff_forall_not_mem.mpr fun row member => by
      have before := fewer member
      rw [follows.booting record head] at before
      exact absurd before List.not_mem_nil
    above := fun row member => follows.above row (fewer member)
    rowsBelow := fun row member => follows.rowsBelow row (fewer member) }

end Follows

end MintView

end Cloudbreak.Model.LargestAccounts
