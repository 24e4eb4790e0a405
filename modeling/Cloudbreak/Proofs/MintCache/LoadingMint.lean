import Cloudbreak.Proofs.MintCache.ApplicationOrder

/-! # One mint during the bootstrap

A close of a mint that is not held waits; everything else is a step of the stored value. A mint whose newest
version is a close ends closed as soon as that close has been delivered, as long as no older close stands
between two live versions.
-/

namespace Cloudbreak.Model.MintCache

open Cloudbreak.ToMathlib

namespace StoredMint

private theorem apply_ne_missing {held : StoredMint} (known : held ≠ .missing) (write : MintWrite) :
    held.apply write.slot write.change ≠ .missing := by
  have wrote : ∀ state, written write.slot state ≠ .missing := by
    intro state
    unfold written
    split <;> exact StoredMint.noConfusion
  cases write.change with
  | live state =>
    cases held with
    | immutable decimals => exact known
    | missing => exact absurd rfl known
    | mutable mint =>
      simp only [StoredMint.apply, applyLive]
      split
      · exact known
      · exact wrote state
    | tombstone closed =>
      simp only [StoredMint.apply, applyLive]
      split
      · exact known
      · exact wrote state
  | closed =>
    cases held with
    | immutable decimals => exact known
    | missing => exact absurd rfl known
    | tombstone closed => exact known
    | mutable mint =>
      simp only [StoredMint.apply, close]
      split <;> exact StoredMint.noConfusion

theorem tombstone_applyAll_closed {closed : ℕ} {order : List MintWrite}
    (closes : ∀ write ∈ order, write.change = .closed) :
    (tombstone closed).applyAll order = .tombstone closed := by
  induction order with
  | nil => rfl
  | cons write rest ih =>
    have first := closes write (List.mem_cons_self ..)
    simp only [StoredMint.applyAll, List.foldl_cons, first]
    exact ih fun other member => closes other (List.mem_cons_of_mem _ member)

/-- Among live writes, one at or above the close brings the mint back. -/
theorem tombstone_applyAll_live {closed : ℕ} {order : List MintWrite}
    (live : ∀ write ∈ order, ∃ state, write.change = .live state)
    (later : ∃ write ∈ order, closed ≤ write.slot) : ((tombstone closed).applyAll order).served ≠ none := by
  induction order with
  | nil => simp at later
  | cons write rest ih =>
    obtain ⟨state, change⟩ := live write (List.mem_cons_self ..)
    have liveRest : ∀ other ∈ rest, ∃ state, other.change = .live state := fun other member =>
      live other (List.mem_cons_of_mem _ member)
    change (((tombstone closed).apply write.slot write.change).applyAll rest).served ≠ none
    rw [change]
    by_cases early : closed > write.slot
    · simp only [StoredMint.apply, applyLive, if_pos early]
      refine ih liveRest ?_
      obtain ⟨other, member, bound⟩ := later
      rcases List.mem_cons.mp member with rfl | inside
      · omega
      · exact ⟨other, inside, bound⟩
    · simp only [StoredMint.apply, applyLive, if_neg early]
      exact served_applyAll_live liveRest (Or.inr (by simp))

/-- Nothing held blocks an immutable state at the highest slot, and only that state is held as immutable. -/
def Admits (bound : ℕ) (target : MintState) : StoredMint → Prop
  | .immutable decimals => target = .ofDecimals decimals
  | .mutable mint => mint.slot ≤ bound ∧ mint.state.immutable = false
  | .tombstone closed => closed ≤ bound
  | .missing => True

variable {bound : ℕ} {target : MintState}

private theorem admits_written {write : MintWrite} (below : write.slot ≤ bound) {state : MintState}
    (only : state.immutable = true → state = target) : (written write.slot state).Admits bound target := by
  unfold written
  split
  · next immutable =>
    rw [← only immutable]
    exact (MintState.ofDecimals_decimals immutable).symm
  · next unsealed => exact ⟨below, Bool.not_eq_true _ ▸ unsealed⟩

theorem Admits.apply {held : StoredMint} (admits : held.Admits bound target) {write : MintWrite}
    (below : write.slot ≤ bound)
    (only : ∀ state, write.change = .live state → state.immutable = true → state = target) :
    (held.apply write.slot write.change).Admits bound target := by
  cases change : write.change with
  | live state =>
    have wrote := admits_written below (only state change)
    cases held with
    | immutable decimals => exact admits
    | missing => exact wrote
    | tombstone closed =>
      simp only [StoredMint.apply, applyLive]
      split
      · exact admits
      · exact wrote
    | mutable mint =>
      simp only [StoredMint.apply, applyLive]
      split
      · exact admits
      · exact wrote
  | closed =>
    cases held with
    | immutable decimals => exact admits
    | missing => exact trivial
    | tombstone closed => exact admits
    | mutable mint =>
      simp only [StoredMint.apply, close]
      split
      · exact admits
      · exact below

/-- The immutable state at the highest slot is stored. -/
theorem Admits.apply_top {held : StoredMint} (admits : held.Admits bound target) (immutable : target.immutable = true) :
    held.apply bound (.live target) = .immutable target.decimals := by
  have wrote : written bound target = .immutable target.decimals := if_pos immutable
  cases held with
  | immutable decimals =>
    obtain rfl : target = .ofDecimals decimals := admits
    rfl
  | missing => exact wrote
  | tombstone closed =>
    have later : ¬closed > bound := Nat.not_lt.mpr admits
    simpa only [StoredMint.apply, applyLive, if_neg later] using wrote
  | mutable mint =>
    have later : ¬(mint.slot > bound ∨ mint.state = target) := by
      rintro (newer | same)
      · exact absurd admits.1 (Nat.not_le.mpr newer)
      · have unsealed := admits.2
        rw [same, immutable] at unsealed
        cases unsealed
    simpa only [StoredMint.apply, applyLive, if_neg later] using wrote

@[simp] theorem immutable_applyAll (decimals : UInt8) (order : List MintWrite) :
    (immutable decimals).applyAll order = .immutable decimals := by
  induction order with
  | nil => rfl
  | cons write rest ih =>
    have step : (immutable decimals).apply write.slot write.change = .immutable decimals := by
      cases write.change <;> rfl
    exact (congrArg (StoredMint.applyAll · rest) step).trans ih

theorem applyAll_live_immutable {write : MintWrite} {state : MintState} (isLive : write.change = .live state)
    (immutable : state.immutable = true) (rest : List MintWrite) :
    missing.applyAll (write :: rest) = .immutable state.decimals := by
  have wrote : missing.apply write.slot write.change = .immutable state.decimals := by
    rw [isLive]
    exact if_pos immutable
  exact (congrArg (StoredMint.applyAll · rest) wrote).trans (immutable_applyAll ..)

/-- In every order the newest immutable state is what is left, where no other is immutable. -/
theorem Admits.applyAll {held : StoredMint} (admits : held.Admits bound target) (immutable : target.immutable = true)
    {order : List MintWrite} (below : ∀ write ∈ order, write.slot ≤ bound)
    (only : ∀ write ∈ order, ∀ state, write.change = .live state → state.immutable = true → state = target)
    (reached : ⟨bound, .live target⟩ ∈ order) : held.applyAll order = .immutable target.decimals := by
  induction order generalizing held with
  | nil => contradiction
  | cons write rest ih =>
    rw [List.forall_mem_cons] at below only
    rcases List.mem_cons.mp reached with rfl | later
    · exact (congrArg (StoredMint.applyAll · rest) (admits.apply_top immutable)).trans (immutable_applyAll ..)
    · exact ih (admits.apply below.1 only.1) below.2 only.2 later

end StoredMint

/-- One mint during the bootstrap: what the store holds, and the close that waits for it. -/
structure LoadingMint where
  held : StoredMint
  waiting : Option ℕ

namespace LoadingMint

variable {mint : LoadingMint} {writes : List MintWrite} {write : MintWrite}

def apply (mint : LoadingMint) (write : MintWrite) : LoadingMint :=
  if write.change = .closed ∧ mint.held = .missing then
    { mint with waiting := some (mint.waiting.elim write.slot (max · write.slot)) }
  else { mint with held := mint.held.apply write.slot write.change }

def applyAll (mint : LoadingMint) (writes : List MintWrite) : LoadingMint := writes.foldl apply mint

def finish (mint : LoadingMint) : StoredMint := mint.waiting.elim mint.held fun slot => mint.held.close slot true

/-- A waiting close does not show in the store, as a close of a missing key does nothing there. -/
theorem held_applyAll (mint : LoadingMint) (writes : List MintWrite) :
    (mint.applyAll writes).held = mint.held.applyAll writes := by
  induction writes generalizing mint with
  | nil => rfl
  | cons write rest ih =>
    refine (ih (mint.apply write)).trans (congrArg (StoredMint.applyAll · rest) ?_)
    rw [apply]
    split
    · next parked =>
      change mint.held = mint.held.apply write.slot write.change
      rw [parked.1, parked.2]
      rfl
    · rfl

/-- A close that waits was delivered. -/
theorem waiting_applyAll {slot : ℕ} (waiting : (mint.applyAll writes).waiting = some slot) :
    mint.waiting = some slot ∨ ⟨slot, .closed⟩ ∈ writes := by
  induction writes generalizing mint with
  | nil => exact Or.inl waiting
  | cons write rest ih =>
    rcases ih waiting with now | later
    · rw [apply] at now
      split at now
      · next parked =>
        have isWrite : (⟨write.slot, .closed⟩ : MintWrite) = write := by rw [← parked.1]
        simp only [Option.some.injEq] at now
        cases before : mint.waiting with
        | none =>
          rw [before, Option.elim_none] at now
          exact Or.inr (List.mem_cons.mpr (Or.inl (now ▸ isWrite)))
        | some first =>
          rw [before, Option.elim_some] at now
          rcases max_choice first write.slot with larger | larger
          · exact Or.inl (congrArg some (larger.symm.trans now))
          · exact Or.inr (List.mem_cons.mpr (Or.inl ((larger.symm.trans now) ▸ isWrite)))
      · exact Or.inl now
    · exact Or.inr (List.mem_cons_of_mem _ later)

/-- Nothing starts to wait for a mint the store holds. -/
theorem waiting_applyAll_of_held (known : mint.held ≠ .missing) (writes : List MintWrite) :
    (mint.applyAll writes).waiting = mint.waiting := by
  induction writes generalizing mint with
  | nil => rfl
  | cons write rest ih =>
    have step : mint.apply write = { mint with held := mint.held.apply write.slot write.change } := by
      rw [apply, if_neg fun parked => known parked.2]
    have stays : (mint.apply write).held ≠ .missing := by
      rw [step]
      exact StoredMint.apply_ne_missing known write
    exact (ih stays).trans (by rw [step])

/-- When the first write is live nothing ever waits. -/
theorem finish_live_first {rest : List MintWrite} {state : MintState} (change : write.change = .live state) :
    (applyAll ⟨.missing, none⟩ (write :: rest)).finish = StoredMint.missing.applyAll (write :: rest) := by
  have step : apply ⟨.missing, none⟩ write = ⟨StoredMint.missing.apply write.slot write.change, none⟩ := by
    rw [apply, change, if_neg fun parked => MintChange.noConfusion parked.1]
  have known : (apply ⟨.missing, none⟩ write).held ≠ .missing := by
    rw [step, change]
    change StoredMint.written write.slot state ≠ .missing
    unfold StoredMint.written
    split <;> exact StoredMint.noConfusion
  have nothing : (applyAll ⟨.missing, none⟩ (write :: rest)).waiting = none :=
    (waiting_applyAll_of_held known rest).trans (by rw [step])
  rw [finish, nothing, Option.elim_none, held_applyAll]

section ClosedLast

/-- A slot above every live version. -/
def AboveLives (writes : List MintWrite) (slot : ℕ) : Prop :=
  ∀ write ∈ writes, write.change ≠ .closed → write.slot < slot

/-- Unknown, or held live at the slot of a live version. -/
def Open (writes : List MintWrite) (held : StoredMint) : Prop :=
  held = .missing ∨ ∃ entry, held = .mutable entry ∧
    ∃ write ∈ writes, write.change ≠ .closed ∧ write.slot = entry.slot

/-- Closed above every live version, or with such a close waiting. -/
def Ending (writes : List MintWrite) (mint : LoadingMint) : Prop :=
  (∃ closed, mint.held = .tombstone closed ∧ AboveLives writes closed) ∨
    Open writes mint.held ∧ ∃ slot, mint.waiting = some slot ∧ AboveLives writes slot

/-- No live version is immutable, and a close is below all of them or above all of them. -/
structure Apart (writes : List MintWrite) : Prop where
  unsealed : ∀ write ∈ writes, ∀ state, write.change = .live state → state.immutable = false
  split : ∀ close ∈ writes, close.change = .closed →
    AboveLives writes close.slot ∨ ∀ write ∈ writes, write.change ≠ .closed → close.slot < write.slot

theorem Open.applyLive (apart : Apart writes) {held : StoredMint} (isOpen : Open writes held)
    (member : write ∈ writes) {state : MintState} (change : write.change = .live state) :
    Open writes (held.applyLive write.slot state) := by
  have wrote : Open writes (StoredMint.written write.slot state) := by
    rw [StoredMint.written, if_neg (by simp [apart.unsealed write member state change])]
    exact Or.inr ⟨⟨write.slot, state⟩, rfl, write, member, by simp [change], rfl⟩
  rcases isOpen with rfl | ⟨entry, rfl, live⟩
  · exact wrote
  · simp only [StoredMint.applyLive]
    split
    · exact Or.inr ⟨entry, rfl, live⟩
    · exact wrote

theorem Ending.apply (apart : Apart writes) (ending : Ending writes mint) (member : write ∈ writes) :
    Ending writes (mint.apply write) := by
  cases change : write.change with
  | live state =>
    have step : mint.apply write = { mint with held := mint.held.applyLive write.slot state } := by
      rw [LoadingMint.apply, change, if_neg fun parked => MintChange.noConfusion parked.1]
      rfl
    rw [step]
    rcases ending with ⟨closed, held, above⟩ | ⟨isOpen, slot, waiting, above⟩
    · have later : closed > write.slot := above write member (by simp [change])
      exact Or.inl ⟨closed, by simp only [held, StoredMint.applyLive, if_pos later], above⟩
    · exact Or.inr ⟨isOpen.applyLive apart member change, slot, waiting, above⟩
  | closed =>
    rcases ending with ⟨closed, held, above⟩ | ⟨rfl_ | ⟨entry, held, live⟩, slot, waiting, above⟩
    · rw [LoadingMint.apply, change, if_neg fun parked => StoredMint.noConfusion (held.symm.trans parked.2)]
      exact Or.inl ⟨closed, by simp only [held, StoredMint.apply, StoredMint.close], above⟩
    · rw [LoadingMint.apply, if_pos ⟨change, rfl_⟩]
      refine Or.inr ⟨Or.inl rfl_, max slot write.slot, by simp only [waiting, Option.elim_some], ?_⟩
      exact fun other inside isLive => lt_max_of_lt_left (above other inside isLive)
    · rw [LoadingMint.apply, change, if_neg fun parked => StoredMint.noConfusion (held.symm.trans parked.2)]
      obtain ⟨source, inside, isLive, same⟩ := live
      rcases apart.split write member change with high | low
      · have later : ¬entry.slot > write.slot := by have := high source inside isLive; omega
        exact Or.inl ⟨write.slot, by simp only [held, StoredMint.apply, StoredMint.close, if_neg later], high⟩
      · have earlier : entry.slot > write.slot := by have := low source inside isLive; omega
        refine Or.inr ⟨Or.inr ⟨entry, ?_, source, inside, isLive, same⟩, slot, waiting, above⟩
        simp only [held, StoredMint.apply, StoredMint.close, if_pos earlier]

theorem Open.apply (apart : Apart writes) (isOpen : Open writes mint.held) (member : write ∈ writes) :
    Open writes (mint.apply write).held ∨ Ending writes (mint.apply write) := by
  cases change : write.change with
  | live state =>
    left
    rw [LoadingMint.apply, change, if_neg fun parked => MintChange.noConfusion parked.1]
    exact isOpen.applyLive apart member change
  | closed =>
    rcases isOpen with missing | ⟨entry, held, source, inside, isLive, same⟩
    · left
      rw [LoadingMint.apply, if_pos ⟨change, missing⟩]
      exact Or.inl missing
    · rw [LoadingMint.apply, change, if_neg fun parked => StoredMint.noConfusion (held.symm.trans parked.2)]
      rcases apart.split write member change with high | low
      · have later : ¬entry.slot > write.slot := by have := high source inside isLive; omega
        exact Or.inr (Or.inl ⟨write.slot, by simp only [held, StoredMint.apply, StoredMint.close, if_neg later], high⟩)
      · have earlier : entry.slot > write.slot := by have := low source inside isLive; omega
        refine Or.inl (Or.inr ⟨entry, ?_, source, inside, isLive, same⟩)
        simp only [held, StoredMint.apply, StoredMint.close, if_pos earlier]

/-- A close above every live version ends an open mint. -/
theorem Open.end (isOpen : Open writes mint.held) (change : write.change = .closed)
    (above : AboveLives writes write.slot) : Ending writes (mint.apply write) := by
  rcases isOpen with missing | ⟨entry, held, source, inside, isLive, same⟩
  · rw [LoadingMint.apply, if_pos ⟨change, missing⟩]
    refine Or.inr ⟨Or.inl missing, _, rfl, fun other member isLive => ?_⟩
    have := above other member isLive
    cases mint.waiting with
    | none => exact this
    | some slot => exact lt_max_of_lt_right this
  · rw [LoadingMint.apply, change, if_neg fun parked => StoredMint.noConfusion (held.symm.trans parked.2)]
    have later : ¬entry.slot > write.slot := by have := above source inside isLive; omega
    exact Or.inl ⟨write.slot, by simp only [held, StoredMint.apply, StoredMint.close, if_neg later], above⟩

theorem Ending.applyAll (apart : Apart writes) (ending : Ending writes mint) {order : List MintWrite}
    (members : ∀ write ∈ order, write ∈ writes) : Ending writes (mint.applyAll order) := by
  induction order generalizing mint with
  | nil => exact ending
  | cons write rest ih =>
    exact ih (ending.apply apart (members write (List.mem_cons_self ..)))
      (fun other member => members other (List.mem_cons_of_mem _ member))

/-- One close above every live version anywhere in the run ends the mint. -/
theorem Open.applyAll (apart : Apart writes) (isOpen : Open writes mint.held) {order : List MintWrite}
    (members : ∀ write ∈ order, write ∈ writes)
    (reached : ∃ write ∈ order, write.change = .closed ∧ AboveLives writes write.slot) :
    Ending writes (mint.applyAll order) := by
  induction order generalizing mint with
  | nil => simp at reached
  | cons write rest ih =>
    have member := members write (List.mem_cons_self ..)
    have restMembers : ∀ other ∈ rest, other ∈ writes :=
      fun other inside => members other (List.mem_cons_of_mem _ inside)
    obtain ⟨last, inside, change, above⟩ := reached
    rcases List.mem_cons.mp inside with rfl | later
    · exact (isOpen.end change above).applyAll apart restMembers
    · rcases isOpen.apply apart member with still | ending
      · exact ih still restMembers ⟨last, later, change, above⟩
      · exact ending.applyAll apart restMembers

theorem Ending.served_finish (ending : Ending writes mint) : mint.finish.served = none := by
  rcases ending with ⟨closed, held, _⟩ | ⟨missing | ⟨entry, held, source, inside, isLive, same⟩, slot, waiting, above⟩
  · rw [finish, held]
    cases mint.waiting <;> rfl
  · rw [finish, waiting, missing]
    rfl
  · have later : ¬entry.slot > slot := by have := above source inside isLive; omega
    rw [finish, waiting, held, Option.elim_some, StoredMint.close, if_neg later]
    rfl

/-- A close that waits below a live version is void at the end. -/
theorem Ending.finish_eq (ending : Ending writes mint) {slot : ℕ} (waiting : mint.waiting = some slot)
    (below : ∃ write ∈ writes, write.change ≠ .closed ∧ slot < write.slot) : mint.finish = mint.held := by
  rcases ending with ⟨closed, held, _⟩ | ⟨_, other, isOther, above⟩
  · rw [finish, held]
    cases mint.waiting <;> rfl
  · obtain ⟨write, member, isLive, under⟩ := below
    rw [waiting, Option.some.injEq] at isOther
    have := above write member isLive
    omega

end ClosedLast

end LoadingMint

end Cloudbreak.Model.MintCache
