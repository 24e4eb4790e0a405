import Cloudbreak.ToMathlib.KeyedFold
import Cloudbreak.Proofs.Supply.CacheEntry
import Cloudbreak.Model.Supply.Tracker

/-! # One block of the supply tracker, account by account

A block writes every account at most once, so its two phases act on each account separately: the probe,
and for a miss the resolution by the row that was read. The block's delta is the sum of what the accounts
contribute. Status, total and slot are not touched before the commit.
-/

namespace Cloudbreak.Model.Supply

open Cloudbreak.ToMathlib
open NonCirculating (stakeProgramId StakeBlock)

/-- What the tracker holds for one account. -/
structure SupplyView where
  cached : Option Entry
  zeroPrev : Bool
  gapClose : Option ℕ
deriving DecidableEq

def supplyView (state : SupplyState) (key : Pubkey) : SupplyView :=
  ⟨state.cache.map.lookup key, decide (key ∈ state.startupZeroPrev), state.gapCloses.lookup key⟩

/-- The fields a block leaves alone until it is committed. -/
structure Frame where
  status : SupplyStatus
  bootstrapFailed : Bool
  total : ℕ
  slot : ℕ
  startupSlot : ℕ
deriving DecidableEq

def SupplyState.frame (state : SupplyState) : Frame :=
  ⟨state.status, state.bootstrapFailed, state.total, state.slot, state.startupSlot⟩

namespace SupplyView

/-- A repaired write at or below a gap close was already absorbed by that close. -/
def skips (slot : ℕ) (isRepaired : Bool) (view : SupplyView) : Bool :=
  isRepaired && !view.zeroPrev && view.gapClose.any fun closed => closed ≥ slot

/-- The probe of one account the stake map did not handle. -/
def probed (slot : ℕ) (isRepaired : Bool) (p : Pending) (view : SupplyView) : SupplyView × Option Probe :=
  if view.skips slot isRepaired then ({ view with zeroPrev := false }, none)
  else
    let result := Entry.probe p.lamports slot (decide (p.owner = stakeProgramId)) view.zeroPrev view.cached
    ({ view with cached := result.1, zeroPrev := false }, some result.2)

/-- The miss of one account, resolved by the row that was read. -/
def resolved (slot : ℕ) (prev : Option PrevRow) (p : Pending) (view : SupplyView) : SupplyView × ℤ :=
  let result := Entry.resolve p.lamports slot (decide (p.owner = stakeProgramId)) view.cached prev
  ({ view with cached := result.1 }, result.2)

/-- Both phases on one account: what it leaves, and what it contributes to the delta. -/
def settle (slot : ℕ) (isRepaired handled : Bool) (prev : Option PrevRow) (p : Pending)
    (view : SupplyView) : SupplyView × ℤ :=
  if handled then (view, 0)
  else
    match view.probed slot isRepaired p with
    | (after, none) => (after, 0)
    | (after, some (.hit delta)) => (after, delta)
    | (after, some .miss) => after.resolved slot prev p

/-- A live close inside a gap is remembered before the probe. -/
def noteGap (inGap : Bool) (slot : ℕ) (p : Pending) (view : SupplyView) : SupplyView :=
  if inGap && decide (p.lamports = 0) then
    { view with gapClose := some (view.gapClose.elim slot fun closed => max closed slot) }
  else view

end SupplyView

namespace SupplyState

variable (slot : ℕ) (isRepaired : Bool) (stake : StakeBlock)

/-- What the probe phase does to the view of an account. -/
def probeAct (p : Pending) (view : SupplyView) : SupplyView :=
  if p.pubkey ∈ stake.handled then view else (view.probed slot isRepaired p).1

/-- What the probe phase reports for an account. -/
def probeResult (p : Pending) (view : SupplyView) : Option Probe :=
  if p.pubkey ∈ stake.handled then none else (view.probed slot isRepaired p).2

/-- The lamports a probe result contributes at once. -/
def hitDelta : Option Probe → ℤ
  | some (.hit delta) => delta
  | _ => 0

/-- The probe of one account, field by field. -/
theorem probeOne_spec (probed : Probed) (p : Pending) :
    let result := probeResult slot isRepaired stake p (supplyView probed.state p.pubkey)
    let after := probeOne slot isRepaired stake probed p
    after.state.frame = probed.state.frame ∧
      (∀ other, supplyView after.state other =
        if other = p.pubkey then probeAct slot isRepaired stake p (supplyView probed.state other)
        else supplyView probed.state other) ∧
      after.delta = probed.delta + hitDelta result ∧
      after.touched = probed.touched ++ (if result.isSome then [p.pubkey] else []) ∧
      after.misses = probed.misses ++ (if result = some .miss then [p] else []) := by
  intro result after
  by_cases handled : p.pubkey ∈ stake.handled
  · have unchanged : after = probed := if_pos handled
    have silent : result = none := if_pos handled
    have kept : ∀ view, probeAct slot isRepaired stake p view = view := fun _ => if_pos handled
    rw [unchanged, silent]
    refine ⟨rfl, fun other => ?_, by simp [hitDelta], by simp, by simp⟩
    rw [kept, ite_self]
  -- the probe consumes the account's zero-prev mark
  have consumed : ∀ other, decide (other ∈ probed.state.startupZeroPrev.erase p.pubkey) =
      if other = p.pubkey then false else decide (other ∈ probed.state.startupZeroPrev) := by
    intro other
    by_cases same : other = p.pubkey <;> simp [same]
  have act : ∀ view, probeAct slot isRepaired stake p view = (view.probed slot isRepaired p).1 :=
    fun _ => if_neg handled
  have reported : result = ((supplyView probed.state p.pubkey).probed slot isRepaired p).2 := if_neg handled
  by_cases skip : (supplyView probed.state p.pubkey).skips slot isRepaired = true
  · have ran : after = { probed with
        state := { probed.state with startupZeroPrev := probed.state.startupZeroPrev.erase p.pubkey } } := by
      simp only [after, probeOne, if_neg handled]
      exact if_pos skip
    have silent : result = none := by rw [reported, SupplyView.probed, if_pos skip]
    rw [ran, silent]
    refine ⟨rfl, fun other => ?_, by simp [hitDelta], by simp, by simp⟩
    rw [act]
    by_cases same : other = p.pubkey
    · subst same
      rw [if_pos rfl, SupplyView.probed, if_pos skip]
      simp only [supplyView, consumed, if_true]
    · rw [if_neg same]
      simp only [supplyView, consumed, if_neg same]
  · have probing : ∀ probe cache', probed.state.cache.probe p.pubkey p.lamports slot p.owner
          (decide (p.pubkey ∈ probed.state.startupZeroPrev)) = (cache', probe) →
        result = some probe ∧
          ∀ other, (⟨cache'.map.lookup other, decide (other ∈ probed.state.startupZeroPrev.erase p.pubkey),
              probed.state.gapCloses.lookup other⟩ : SupplyView) =
            if other = p.pubkey then probeAct slot isRepaired stake p (supplyView probed.state other)
            else supplyView probed.state other := by
      intro probe cache' ran
      have entry := HotAccounts.probe_snd probed.state.cache p.pubkey p.lamports slot p.owner
        (decide (p.pubkey ∈ probed.state.startupZeroPrev))
      have lookup := HotAccounts.lookup_probe probed.state.cache p.pubkey p.lamports slot p.owner
        (decide (p.pubkey ∈ probed.state.startupZeroPrev))
      rw [ran] at entry lookup
      refine ⟨?_, fun other => ?_⟩
      · rw [reported, SupplyView.probed, if_neg skip]
        exact congrArg some entry.symm
      · rw [act, lookup, consumed]
        by_cases same : other = p.pubkey
        · subst same
          simp only [if_true, SupplyView.probed, if_neg skip]
          rfl
        · simp only [if_neg same, supplyView]
    have cond : (isRepaired && !decide (p.pubkey ∈ probed.state.startupZeroPrev) &&
        (probed.state.gapCloses.lookup p.pubkey).any fun closed => closed ≥ slot) ≠ true := skip
    rcases ran : probed.state.cache.probe p.pubkey p.lamports slot p.owner
        (decide (p.pubkey ∈ probed.state.startupZeroPrev)) with ⟨cache', delta | _⟩
    · obtain ⟨hit, views⟩ := probing _ _ ran
      have step : after = { probed with
          state := { probed.state with
            startupZeroPrev := probed.state.startupZeroPrev.erase p.pubkey, cache := cache' }
          delta := probed.delta + delta
          touched := probed.touched ++ [p.pubkey] } := by
        simp only [after, probeOne, if_neg handled, if_neg cond, ran]
      rw [step, hit]
      exact ⟨rfl, views, rfl, by simp, by simp⟩
    · obtain ⟨miss, views⟩ := probing _ _ ran
      have step : after = { probed with
          state := { probed.state with
            startupZeroPrev := probed.state.startupZeroPrev.erase p.pubkey, cache := cache' }
          touched := probed.touched ++ [p.pubkey]
          misses := probed.misses ++ [p] } := by
        simp only [after, probeOne, if_neg handled, if_neg cond, ran]
      rw [step, miss]
      exact ⟨rfl, views, by simp [hitDelta], by simp, by simp⟩

theorem probeOne_local (frame : Frame) :
    KeyLocal (probeOne slot isRepaired stake) Pending.pubkey (fun probed => supplyView probed.state)
      (probeAct slot isRepaired stake) (fun probed => probed.state.frame = frame) where
  keeps probed p valid := (probeOne_spec slot isRepaired stake probed p).1.trans valid
  acts probed p other _ := (probeOne_spec slot isRepaired stake probed p).2.1 other

/-- The resolution of one miss, field by field. -/
theorem resolveMiss_spec (prev : Pubkey → Option PrevRow) (probed : Probed) (p : Pending) :
    let after := resolveMiss slot prev probed p
    after.state.frame = probed.state.frame ∧
      (∀ other, supplyView after.state other =
        if other = p.pubkey then ((supplyView probed.state other).resolved slot (prev p.pubkey) p).1
        else supplyView probed.state other) ∧
      after.delta = probed.delta + ((supplyView probed.state p.pubkey).resolved slot (prev p.pubkey) p).2 ∧
      after.touched = probed.touched ++ [p.pubkey] := by
  refine ⟨rfl, fun other => ?_, ?_, rfl⟩
  · simp only [resolveMiss, supplyView, SupplyView.resolved, HotAccounts.lookup_applyMiss]
    split <;> rfl
  · simp only [resolveMiss, HotAccounts.applyMiss_snd]
    rfl

private theorem resolveMiss_local (prev : Pubkey → Option PrevRow) (frame : Frame) :
    KeyLocal (resolveMiss slot prev) Pending.pubkey (fun probed => supplyView probed.state)
      (fun p view => (view.resolved slot (prev p.pubkey) p).1) (fun probed => probed.state.frame = frame) where
  keeps probed p valid := (resolveMiss_spec slot prev probed p).1.trans valid
  acts probed p other _ := (resolveMiss_spec slot prev probed p).2.1 other

private theorem supplyView_noteGapCloses (state : SupplyState) {pending : List Pending}
    (distinct : (pending.map Pending.pubkey).Nodup) :
    (∀ p ∈ pending, supplyView { state with gapCloses := pending.foldl (noteGapClose slot) state.gapCloses }
        p.pubkey = (supplyView state p.pubkey).noteGap true slot p) ∧
      ∀ key, key ∉ pending.map Pending.pubkey →
        supplyView { state with gapCloses := pending.foldl (noteGapClose slot) state.gapCloses } key =
          supplyView state key := by
  have closes : KeyLocal (noteGapClose slot) Pending.pubkey
      (fun gapCloses key => (gapCloses : HashMap Pubkey ℕ).lookup key)
      (fun p closed => if p.lamports = 0 then some (closed.elim slot fun closed => max closed slot) else closed)
      (fun _ => True) := by
    refine ⟨fun _ _ _ => trivial, fun gapCloses p other _ => ?_⟩
    unfold noteGapClose
    by_cases zero : p.lamports = 0
    · simp only [if_pos zero, HashMap.lookup_insert]
      split
      · next same => rw [same]
      · rfl
    · simp only [if_neg zero, ite_self]
  constructor
  · intro p member
    simp only [supplyView, SupplyView.noteGap, Bool.true_and, decide_eq_true_eq,
      closes.view_foldl_of_mem trivial distinct member]
    split <;> rfl
  · intro key absent
    simp only [supplyView, closes.view_foldl_of_not_mem trivial absent]

/-- The tracker with the closes of a live block inside a gap noted. -/
def noted (state : SupplyState) (pending : List Pending) : SupplyState :=
  { state with
    gapCloses := if !isRepaired && decide (state.status = .gapFilling) then
      pending.foldl (noteGapClose slot) state.gapCloses else state.gapCloses }

/-- The accounts of a block probed one after the other. -/
def probePhase (state : SupplyState) (pending : List Pending) : Probed :=
  pending.foldl (probeOne slot isRepaired stake) ⟨noted slot isRepaired state pending, stake.delta, [], []⟩

/-- The view an account is probed with. -/
def probedView (state : SupplyState) (p : Pending) : SupplyView :=
  (supplyView state p.pubkey).noteGap (!isRepaired && decide (state.status = .gapFilling)) slot p

/-- Both phases on one account of a block. -/
def settled (state : SupplyState) (prev : Pubkey → Option PrevRow) (p : Pending) : SupplyView × ℤ :=
  (probedView slot isRepaired state p).settle slot isRepaired (decide (p.pubkey ∈ stake.handled)) (prev p.pubkey) p

/-- What a whole block does to the tracker before it is committed. -/
structure BlockSpec (state : SupplyState) (prev : Pubkey → Option PrevRow) (pending : List Pending)
    (after : SupplyState) (delta : ℤ) (touched : List Pubkey) : Prop where
  frame : after.frame = state.frame
  written : ∀ p ∈ pending, supplyView after p.pubkey = (settled slot isRepaired stake state prev p).1
  unwritten : ∀ key, key ∉ pending.map Pending.pubkey → supplyView after key = supplyView state key
  deltaSum : delta = stake.delta + (pending.map fun p => (settled slot isRepaired stake state prev p).2).sum
  touchedIff : ∀ key, key ∈ touched ↔ ∃ p ∈ pending, p.pubkey = key ∧ p.pubkey ∉ stake.handled ∧
    (probedView slot isRepaired state p).skips slot isRepaired = false

section Settle

variable {slot isRepaired stake}

private theorem settle_of_not_miss {prev : Option PrevRow} {p : Pending} {view : SupplyView}
    (known : probeResult slot isRepaired stake p view ≠ some .miss) :
    view.settle slot isRepaired (decide (p.pubkey ∈ stake.handled)) prev p =
      (probeAct slot isRepaired stake p view, hitDelta (probeResult slot isRepaired stake p view)) := by
  unfold SupplyView.settle probeAct
  by_cases handled : p.pubkey ∈ stake.handled
  · simp [handled, probeResult, hitDelta]
  · simp only [probeResult, handled, decide_false, Bool.false_eq_true, if_false] at known ⊢
    split
    · next probe => rw [probe]; rfl
    · next probe => rw [probe]; rfl
    · next probe => rw [probe] at known; contradiction

private theorem settle_of_miss {prev : Option PrevRow} {p : Pending} {view : SupplyView}
    (unknown : probeResult slot isRepaired stake p view = some .miss) :
    view.settle slot isRepaired (decide (p.pubkey ∈ stake.handled)) prev p =
      (probeAct slot isRepaired stake p view).resolved slot prev p := by
  unfold SupplyView.settle probeAct
  by_cases handled : p.pubkey ∈ stake.handled
  · simp [handled, probeResult] at unknown
  · simp only [probeResult, handled, decide_false, Bool.false_eq_true, if_false] at unknown ⊢
    split
    · next probe => simp [probe] at unknown
    · next probe => simp [probe] at unknown
    · next probe => rw [probe]

theorem probeResult_isSome (p : Pending) (view : SupplyView) :
    (probeResult slot isRepaired stake p view).isSome = true ↔
      p.pubkey ∉ stake.handled ∧ view.skips slot isRepaired = false := by
  unfold probeResult SupplyView.probed
  by_cases handled : p.pubkey ∈ stake.handled
  · simp [handled]
  · cases skip : view.skips slot isRepaired <;> simp [handled]

end Settle

section ProbePhase

variable {slot isRepaired stake} {state : SupplyState} {pending : List Pending}

private theorem noted_view (distinct : (pending.map Pending.pubkey).Nodup) :
    (∀ p ∈ pending, supplyView (noted slot isRepaired state pending) p.pubkey =
        probedView slot isRepaired state p) ∧
      ∀ key, key ∉ pending.map Pending.pubkey →
        supplyView (noted slot isRepaired state pending) key = supplyView state key := by
  unfold probedView noted
  cases inGap : !isRepaired && decide (state.status = .gapFilling) with
  | true => exact supplyView_noteGapCloses slot state distinct
  | false => exact ⟨fun _ _ => rfl, fun _ _ => rfl⟩

private theorem noted_frame (slot : ℕ) (isRepaired : Bool) (stake : StakeBlock) (state : SupplyState)
    (pending : List Pending) :
    (⟨noted slot isRepaired state pending, stake.delta, [], []⟩ : Probed).state.frame = state.frame := rfl

private theorem probePhase_frame : (probePhase slot isRepaired stake state pending).state.frame = state.frame :=
  (probeOne_local slot isRepaired stake state.frame).valid_foldl rfl pending

theorem probePhase_view (distinct : (pending.map Pending.pubkey).Nodup) {p : Pending} (member : p ∈ pending) :
    supplyView (probePhase slot isRepaired stake state pending).state p.pubkey =
      probeAct slot isRepaired stake p (probedView slot isRepaired state p) := by
  rw [← (noted_view distinct).1 p member]
  exact (probeOne_local slot isRepaired stake state.frame).view_foldl_of_mem
    (noted_frame slot isRepaired stake state pending) distinct member

private theorem probePhase_view_of_not_mem (distinct : (pending.map Pending.pubkey).Nodup) {key : Pubkey}
    (absent : key ∉ pending.map Pending.pubkey) :
    supplyView (probePhase slot isRepaired stake state pending).state key = supplyView state key := by
  rw [← (@noted_view slot isRepaired state pending distinct).2 key absent]
  exact (probeOne_local slot isRepaired stake state.frame).view_foldl_of_not_mem
    (noted_frame slot isRepaired stake state pending) absent

private theorem probePhase_delta (distinct : (pending.map Pending.pubkey).Nodup) :
    (probePhase slot isRepaired stake state pending).delta = stake.delta + (pending.map fun p =>
      hitDelta (probeResult slot isRepaired stake p (probedView slot isRepaired state p))).sum := by
  have sum := (probeOne_local slot isRepaired stake state.frame).acc_foldl Probed.delta (· + ·)
    (fun p view => hitDelta (probeResult slot isRepaired stake p view))
    (fun current p _ => (probeOne_spec slot isRepaired stake current p).2.2.1)
    (noted_frame slot isRepaired stake state pending) distinct
  rw [foldl_add_eq_sum] at sum
  refine sum.trans (congrArg (stake.delta + List.sum ·) (List.map_congr_left fun p member => ?_))
  rw [← (noted_view distinct).1 p member]

private theorem flatMap_ite (items : List Pending) (keep : Pending → Prop) [DecidablePred keep] :
    (items.flatMap fun item => if keep item then [item] else []) = items.filter fun item => keep item := by
  induction items with
  | nil => rfl
  | cons item rest ih => by_cases kept : keep item <;> simp [kept, ih]

theorem probePhase_misses (distinct : (pending.map Pending.pubkey).Nodup) :
    (probePhase slot isRepaired stake state pending).misses = pending.filter fun p =>
      probeResult slot isRepaired stake p (probedView slot isRepaired state p) = some .miss := by
  have out := (probeOne_local slot isRepaired stake state.frame).acc_foldl Probed.misses (· ++ ·)
    (fun p view => if probeResult slot isRepaired stake p view = some .miss then [p] else [])
    (fun current p _ => (probeOne_spec slot isRepaired stake current p).2.2.2.2)
    (noted_frame slot isRepaired stake state pending) distinct
  rw [foldl_append_eq_flatMap, flatMap_ite] at out
  refine out.trans (List.filter_congr fun p member => ?_)
  rw [← (noted_view distinct).1 p member]

private theorem sum_map_filter (items : List Pending) (keep : Pending → Bool) (value : Pending → ℤ) :
    ((items.filter keep).map value).sum = (items.map fun item => if keep item then value item else 0).sum := by
  induction items with
  | nil => rfl
  | cons item rest ih => by_cases kept : keep item <;> simp [kept, ih]

/-- The probe phase touches every account it neither handles nor skips. -/
theorem mem_probePhase_touched (distinct : (pending.map Pending.pubkey).Nodup) (key : Pubkey) :
    key ∈ (probePhase slot isRepaired stake state pending).touched ↔ ∃ p ∈ pending, p.pubkey = key ∧
      p.pubkey ∉ stake.handled ∧ (probedView slot isRepaired state p).skips slot isRepaired = false := by
  have out := (probeOne_local slot isRepaired stake state.frame).acc_foldl Probed.touched (· ++ ·)
    (fun p view => if (probeResult slot isRepaired stake p view).isSome then [p.pubkey] else [])
    (fun current p _ => (probeOne_spec slot isRepaired stake current p).2.2.2.1)
    (noted_frame slot isRepaired stake state pending) distinct
  rw [foldl_append_eq_flatMap] at out
  refine (iff_of_eq (congrArg (key ∈ ·) out)).trans ?_
  rw [List.nil_append, List.mem_flatMap]
  constructor
  · rintro ⟨p, member, inside⟩
    rw [(noted_view distinct).1 p member] at inside
    split at inside
    · next touches =>
      exact ⟨p, member, (List.mem_singleton.mp inside).symm, (probeResult_isSome p _).mp touches⟩
    · simp at inside
  · rintro ⟨p, member, rfl, touches⟩
    refine ⟨p, member, ?_⟩
    rw [(noted_view distinct).1 p member, if_pos ((probeResult_isSome p _).mpr touches)]
    exact List.mem_singleton_self _

end ProbePhase

theorem applyBlock_eq {state : SupplyState} (running : state.status = .live ∨ state.status = .gapFilling)
    (fresh : isRepaired = true ∨ state.slot < slot) (pending : List Pending) (prev : Pubkey → Option PrevRow) :
    state.applyBlock slot isRepaired pending stake (fun _ => some prev) =
      let probed := probePhase slot isRepaired stake state pending
      let resolved := probed.misses.foldl (resolveMiss slot prev) ⟨probed.state, probed.delta, probed.touched, []⟩
      (resolved.state, .delta resolved.delta resolved.touched) := by
  have notReplayed : ¬(!isRepaired && decide (slot ≤ state.slot)) = true := by
    simp only [Bool.and_eq_true, Bool.not_eq_true', decide_eq_true_eq, not_and]
    rintro rfl
    rcases fresh with repaired | later
    · contradiction
    · omega
  have probe : state.probeBlock slot isRepaired pending stake =
      let probed := probePhase slot isRepaired stake state pending
      (probed.state, .delta probed.delta probed.touched, probed.misses) := by
    unfold probeBlock
    rcases running with live | gap
    · simp only [live, if_neg notReplayed, probePhase, noted]
    · simp only [gap, if_neg notReplayed, probePhase, noted]
  simp only [applyBlock, probe]
  split
  · next none_ => rw [none_]; rfl
  · rfl

/-- Both phases of a block that is not skipped as a replay. -/
theorem applyBlock_spec {state : SupplyState} (running : state.status = .live ∨ state.status = .gapFilling)
    (fresh : isRepaired = true ∨ state.slot < slot) {pending : List Pending}
    (distinct : (pending.map Pending.pubkey).Nodup) (prev : Pubkey → Option PrevRow) :
    ∃ after delta touched,
      state.applyBlock slot isRepaired pending stake (fun _ => some prev) = (after, .delta delta touched) ∧
        BlockSpec slot isRepaired stake state prev pending after delta touched := by
  have eq := applyBlock_eq slot isRepaired stake running fresh pending prev
  set probed := probePhase slot isRepaired stake state pending with probedDef
  refine ⟨_, _, _, eq, ?_⟩
  have missing (p : Pending) (member : p ∈ pending) : p ∈ probed.misses ↔
      probeResult slot isRepaired stake p (probedView slot isRepaired state p) = some .miss := by
    rw [probedDef, probePhase_misses distinct, List.mem_filter, decide_eq_true_eq]
    exact and_iff_right member
  have subset : ∀ p ∈ probed.misses, p ∈ pending := by
    intro p member
    rw [probedDef, probePhase_misses distinct] at member
    exact (List.mem_filter.mp member).1
  have missKeys : (probed.misses.map Pending.pubkey).Nodup := by
    rw [probedDef, probePhase_misses distinct]
    exact distinct.sublist (List.filter_sublist.map _)
  have resolves := resolveMiss_local slot prev state.frame
  have valid : (⟨probed.state, probed.delta, probed.touched, []⟩ : Probed).state.frame = state.frame :=
    probePhase_frame
  have hit_or_miss (p : Pending) (member : p ∈ pending) (known : p ∉ probed.misses) :
      p.pubkey ∉ probed.misses.map Pending.pubkey := by
    intro inside
    obtain ⟨other, otherMiss, same⟩ := List.mem_map.mp inside
    rw [List.inj_on_of_nodup_map distinct (subset other otherMiss) member same] at otherMiss
    exact known otherMiss
  refine ⟨resolves.valid_foldl valid _, ?_, ?_, ?_, ?_⟩
  · intro p member
    by_cases miss : p ∈ probed.misses
    · rw [resolves.view_foldl_of_mem valid missKeys miss, settled, settle_of_miss ((missing p member).mp miss)]
      exact congrArg (fun view => (SupplyView.resolved slot (prev p.pubkey) p view).1) (probePhase_view distinct member)
    · rw [resolves.view_foldl_of_not_mem valid (hit_or_miss p member miss), settled,
        settle_of_not_miss (fun result => miss ((missing p member).mpr result))]
      exact probePhase_view distinct member
  · intro key absent
    have notMissed : key ∉ probed.misses.map Pending.pubkey := by
      intro inside
      obtain ⟨p, miss, rfl⟩ := List.mem_map.mp inside
      exact absent (List.mem_map_of_mem (subset p miss))
    rw [resolves.view_foldl_of_not_mem valid notMissed]
    exact probePhase_view_of_not_mem distinct absent
  · have sum := resolves.acc_foldl Probed.delta (· + ·)
      (fun p view => (view.resolved slot (prev p.pubkey) p).2)
      (fun current p _ => (resolveMiss_spec slot prev current p).2.2.1) valid missKeys
    rw [foldl_add_eq_sum] at sum
    refine sum.trans ?_
    rw [probePhase_delta distinct, add_assoc, probePhase_misses distinct, sum_map_filter, ← List.sum_map_add]
    refine congrArg (stake.delta + List.sum ·) (List.map_congr_left fun p member => ?_)
    by_cases miss : probeResult slot isRepaired stake p (probedView slot isRepaired state p) = some .miss
    · rw [settled, settle_of_miss miss, if_pos (by simpa using miss), miss, probePhase_view distinct member]
      exact zero_add _
    · rw [settled, settle_of_not_miss miss, if_neg (by simpa using miss), add_zero]
  · intro key
    have touched := resolves.acc_foldl Probed.touched (· ++ ·) (fun p _ => [p.pubkey])
      (fun current p _ => (resolveMiss_spec slot prev current p).2.2.2) valid missKeys
    rw [foldl_append_eq_flatMap] at touched
    refine (iff_of_eq (congrArg (key ∈ ·) touched)).trans ?_
    rw [List.mem_append, mem_probePhase_touched distinct]
    constructor
    · rintro (probedKey | again)
      · exact probedKey
      · obtain ⟨p, miss, same⟩ := List.mem_flatMap.mp again
        have member := subset p miss
        refine ⟨p, member, (List.mem_singleton.mp same).symm, (probeResult_isSome p _).mp ?_⟩
        rw [(missing p member).mp miss, Option.isSome_some]
    · exact Or.inl

end SupplyState

end Cloudbreak.Model.Supply
