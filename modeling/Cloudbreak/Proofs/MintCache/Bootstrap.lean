import Cloudbreak.Model.MintCache.Indexer
import Cloudbreak.Proofs.MintCache.LoadingMint

/-! # Closes that wait for their mint

While the bootstrap runs, a close of a key the store does not hold waits and is applied at the end. That
repairs the forgotten closes of the plain store, but not its comparison with a slot that an equal write does
not advance, nor a tombstone that a later close does not raise.
-/

namespace Cloudbreak.Model.MintCache

open Cloudbreak.ToMathlib

/-- The writes to one mint. -/
def writesTo (mint : Pubkey) (writes : List AccountWrite) : List MintWrite :=
  writes.filterMap fun write => if write.pubkey = mint then some ⟨write.slot, write.change⟩ else none

theorem writesTo_cons_self {mint : Pubkey} {write : AccountWrite} (rest : List AccountWrite)
    (same : write.pubkey = mint) : writesTo mint (write :: rest) = ⟨write.slot, write.change⟩ :: writesTo mint rest := by
  rw [writesTo, List.filterMap_cons, if_pos same]
  rfl

theorem writesTo_cons_other {mint : Pubkey} {write : AccountWrite} (rest : List AccountWrite)
    (differs : write.pubkey ≠ mint) : writesTo mint (write :: rest) = writesTo mint rest := by
  rw [writesTo, List.filterMap_cons, if_neg differs]
  rfl

namespace Inner

variable {inner : Inner} {write : AccountWrite} {writes : List AccountWrite} {mint : Pubkey} {interval : ℕ}

/-- A mint as the bootstrap sees it. -/
def loadingMint (inner : Inner) (mint : Pubkey) : LoadingMint :=
  ⟨inner.store.get mint, (inner.closedPending.getD ∅).lookup mint⟩

/-- A write that does not wait is a step of its own mint in the store. -/
theorem get_apply_unparked (unparked : inner.parks write = none) (mint : Pubkey) :
    (inner.apply write).1.store.get mint =
      (if mint = write.pubkey then (inner.store.get write.pubkey).apply write.slot write.change
        else inner.store.get mint) ∧
    (inner.apply write).1.closedPending = inner.closedPending := by
  have after := MintStore.get_apply inner.store write.pubkey mint write.slot write.change
  rw [apply, unparked]
  dsimp only
  split
  · next store applied =>
    have unchanged := MintStore.apply_eq_of_skipped (congrArg Prod.snd applied)
    rw [unchanged] at after
    exact ⟨after, rfl⟩
  · next store kind applied =>
    rw [applied] at after
    exact ⟨after, rfl⟩

private theorem loadingMint_apply (loading : inner.closedPending.isSome) (write : AccountWrite) (mint : Pubkey) :
    (inner.apply write).1.closedPending.isSome ∧
    (inner.apply write).1.loadingMint mint =
      if write.pubkey = mint then (inner.loadingMint mint).apply ⟨write.slot, write.change⟩
      else inner.loadingMint mint := by
  obtain ⟨closedPending, isPending⟩ := Option.isSome_iff_exists.mp loading
  by_cases parked : write.change = .closed ∧ inner.store.get write.pubkey = .missing
  · have parks : inner.parks write = some closedPending := by rw [Inner.parks, if_pos parked, isPending]
    rw [apply, parks]
    refine ⟨rfl, ?_⟩
    rw [loadingMint, loadingMint, isPending, Option.getD_some, Option.getD_some, HashMap.mergeMax, HashMap.lookup_insert]
    by_cases same : write.pubkey = mint
    · subst same
      rw [if_pos rfl, if_pos rfl, LoadingMint.apply, if_pos parked]
    · rw [if_neg same, if_neg fun equal => same equal.symm]
  · have unparked : inner.parks write = none := by rw [Inner.parks, if_neg parked]
    obtain ⟨got, kept⟩ := get_apply_unparked unparked mint
    refine ⟨by rw [kept, isPending]; rfl, ?_⟩
    rw [loadingMint, loadingMint, got, kept]
    by_cases same : write.pubkey = mint
    · subst same
      rw [if_pos rfl, if_pos rfl, LoadingMint.apply, if_neg parked]
    · rw [if_neg same, if_neg fun equal => same equal.symm]

/-- Every mint loads on its own. -/
theorem loadingMint_applyAll (loading : inner.closedPending.isSome) (writes : List AccountWrite) (mint : Pubkey) :
    (inner.applyAll writes).loadingMint mint = (inner.loadingMint mint).applyAll (writesTo mint writes) := by
  induction writes generalizing inner with
  | nil => rfl
  | cons write rest ih =>
    obtain ⟨still, after⟩ := loadingMint_apply loading write mint
    refine (ih still).trans ?_
    rw [after]
    by_cases same : write.pubkey = mint
    · rw [if_pos same, writesTo_cons_self rest same]
      rfl
    · rw [if_neg same, writesTo_cons_other rest same]

/-- After the bootstrap a mint of the store takes its writes one by one. -/
theorem get_applyAll_of_ended (ended : inner.closedPending = none) (writes : List AccountWrite) (mint : Pubkey) :
    (inner.applyAll writes).store.get mint = (inner.store.get mint).applyAll (writesTo mint writes) := by
  induction writes generalizing inner with
  | nil => rfl
  | cons write rest ih =>
    have unparked : inner.parks write = none := by
      rw [Inner.parks, ended, ite_self]
    obtain ⟨got, kept⟩ := get_apply_unparked unparked mint
    refine (ih (kept.trans ended)).trans ?_
    rw [got]
    by_cases same : write.pubkey = mint
    · subst same
      rw [if_pos rfl, writesTo_cons_self rest rfl]
      rfl
    · rw [if_neg fun equal => same equal.symm, writesTo_cons_other rest same]

private theorem writesTo_waitingCloses (inner : Inner) (mint : Pubkey) :
    writesTo mint inner.waitingCloses = ((inner.loadingMint mint).waiting.map (⟨·, .closed⟩)).toList := by
  rw [writesTo, waitingCloses, List.filterMap_map, loadingMint, ← HashMap.filterMap_toList]
  rfl

/-- The end of the bootstrap applies to every mint the close that waits for it. -/
theorem get_applyWaitingCloses (inner : Inner) (mint : Pubkey) :
    inner.applyWaitingCloses.store.get mint = (inner.loadingMint mint).finish := by
  rw [applyWaitingCloses, get_applyAll_of_ended (by rfl), writesTo_waitingCloses, LoadingMint.finish]
  cases waits : (inner.loadingMint mint).waiting <;> rfl

/-- What is delivered before the end of the bootstrap, as one mint sees it. -/
theorem loadingMint_new_applyAll (interval : ℕ) (writes : List AccountWrite) (mint : Pubkey) :
    ((new interval).applyAll writes).loadingMint mint = LoadingMint.applyAll ⟨.missing, none⟩ (writesTo mint writes) :=
  loadingMint_applyAll rfl writes mint

end Inner

section Delivered

variable {interval : ℕ} {mint : Pubkey} {deliveries : List AccountWrite} {writes : List MintWrite}

/-- The newest version of the mint decides what is served after the bootstrap. A waiting close ends the mint
when no newer live version was delivered, and leaves it alone when one was. -/
def KeepsNewest (interval : ℕ) (mint : Pubkey) (order : List AccountWrite) : Prop :=
  let loaded := (Inner.new interval).applyAll order
  let finished := loaded.applyWaitingCloses
  (∀ top ∈ newestWrite (writesTo mint order), (finished.store.get mint).served = top.change.state?) ∧
  ∀ slot, (loaded.closedPending.getD ∅).lookup mint = some slot →
    ((∀ write ∈ writesTo mint order, write.change ≠ .closed → write.slot < slot) →
      (finished.store.get mint).served = none) ∧
    ((∃ write ∈ writesTo mint order, write.change ≠ .closed ∧ slot < write.slot) →
      finished.store.get mint = loaded.store.get mint)

/-- The newest live state, once reached, was never left; or the mint is closed, and no close stands between
two of its live versions. -/
def NeverLeft (writes : List MintWrite) : MintChange → Prop
  | .closed => ∀ early ∈ writes, ∀ close ∈ writes, ∀ late ∈ writes,
      early.change ≠ .closed → close.change = .closed → late.change ≠ .closed →
        early.slot < close.slot → ¬close.slot < late.slot
  | .live state => ∀ early ∈ writes, ∀ late ∈ writes,
      early.slot < late.slot → early.change = .live state → late.change = .live state

/-- Every immutable version carries the newest state. Where that is not immutable itself, it was never left. -/
def BootstrapSafe (writes : List MintWrite) : Prop :=
  ∀ top ∈ newestWrite writes,
    (∀ write ∈ writes, ∀ state, write.change = .live state → state.immutable = true → top.change = .live state) ∧
    ((∃ state, top.change = .live state ∧ state.immutable = true) ∨ NeverLeft writes top.change)

theorem exists_newestWrite {write : MintWrite} (member : write ∈ writes) : ∃ top, top ∈ newestWrite writes :=
  Option.ne_none_iff_exists'.mp
    (mt (@List.argmax_eq_none _ _ _ _ MintWrite.slot writes).mp (List.ne_nil_of_mem member))

theorem OneVersion.perm (oneVersion : OneVersion writes) {order : List MintWrite} (arrival : order.Perm writes) :
    OneVersion order := fun left isLeft right isRight =>
  oneVersion left (arrival.subset isLeft) right (arrival.subset isRight)

/-- The newest version does not depend on the order of delivery. -/
theorem newestWrite_of_perm {order : List MintWrite} (oneVersion : OneVersion writes) (arrival : order.Perm writes)
    {top : MintWrite} (newest : top ∈ newestWrite order) : top ∈ newestWrite writes := by
  have member : top ∈ writes := arrival.subset (List.argmax_mem newest)
  obtain ⟨best, isBest⟩ := exists_newestWrite member
  have memberBest : best ∈ writes := List.argmax_mem isBest
  have above := List.le_of_mem_argmax member isBest
  have below := List.le_of_mem_argmax (arrival.symm.subset memberBest) newest
  have same : best = top := oneVersion best memberBest top member (le_antisymm below above)
  exact same ▸ isBest

/-- What the bootstrap has to do for one mint. -/
def LoadingMint.KeepsNewest (order : List MintWrite) : Prop :=
  let loaded := LoadingMint.applyAll ⟨.missing, none⟩ order
  (∀ top ∈ newestWrite order, loaded.finish.served = top.change.state?) ∧
  ∀ slot, loaded.waiting = some slot →
    ((∀ write ∈ order, write.change ≠ .closed → write.slot < slot) → loaded.finish.served = none) ∧
    ((∃ write ∈ order, write.change ≠ .closed ∧ slot < write.slot) → loaded.finish = loaded.held)

private theorem keepsNewest_iff (interval : ℕ) (mint : Pubkey) (order : List AccountWrite) :
    KeepsNewest interval mint order ↔ LoadingMint.KeepsNewest (writesTo mint order) := by
  have loaded := Inner.loadingMint_new_applyAll interval order mint
  rw [KeepsNewest, LoadingMint.KeepsNewest, ← loaded, Inner.get_applyWaitingCloses]
  rfl

/-- A newest version that is immutable is kept, where every immutable version carries its state. -/
theorem keepsNewest_of_immutable {order : List MintWrite} (arrival : order.Perm writes) {top : MintWrite}
    (newest : top ∈ newestWrite order) {target : MintState} (change : top.change = .live target)
    (immutable : target.immutable = true)
    (only : ∀ write ∈ writes, ∀ state, write.change = .live state → state.immutable = true →
      top.change = .live state) : LoadingMint.KeepsNewest order := by
  have memberTop : top ∈ order := List.argmax_mem newest
  have start : StoredMint.missing.Admits top.slot target := trivial
  have held : (LoadingMint.applyAll ⟨.missing, none⟩ order).held = .immutable target.decimals := by
    rw [LoadingMint.held_applyAll]
    refine start.applyAll immutable (fun write member => List.le_of_mem_argmax member newest)
      (fun write member state isLive sealed => ?_) ?_
    · have same := only write (arrival.subset member) state isLive sealed
      rw [change, MintChange.live.injEq] at same
      exact same.symm
    · rwa [← change]
  have finished : (LoadingMint.applyAll ⟨.missing, none⟩ order).finish = .immutable target.decimals := by
    rw [LoadingMint.finish, held]
    cases (LoadingMint.applyAll ⟨.missing, none⟩ order).waiting <;> rfl
  refine ⟨fun other isOther => ?_, fun slot waiting => ⟨fun above => ?_, fun _ => finished.trans held.symm⟩⟩
  · obtain rfl := Option.some.inj (isOther.symm.trans newest)
    rw [finished, change]
    exact congrArg some (MintState.ofDecimals_decimals immutable)
  · have delivered : (⟨slot, .closed⟩ : MintWrite) ∈ order :=
      (LoadingMint.waiting_applyAll waiting).resolve_left (by simp)
    have under := above top memberTop (by simp [change])
    exact absurd (List.le_of_mem_argmax delivered newest) (Nat.not_le.mpr under)

private theorem keepsNewest_of_mutable (oneVersion : OneVersion writes) (sealed : NothingFollowsImmutable writes)
    (safe : ∀ top ∈ newestWrite writes, NeverLeft writes top.change) {order : List MintWrite}
    (arrival : order.Perm writes) : LoadingMint.KeepsNewest order := by
  have members : ∀ write ∈ order, write ∈ writes := fun write member => arrival.subset member
  cases newest : newestWrite order with
  | none =>
    -- nothing was delivered
    have nothing : order = [] := (@List.argmax_eq_none _ _ _ _ MintWrite.slot _).mp newest
    subst nothing
    exact ⟨fun top isTop => absurd (newest.symm.trans isTop) (Option.some_ne_none top).symm,
      fun slot waiting => absurd waiting (Option.some_ne_none slot).symm⟩
  | some top =>
    have isNewest := newestWrite_of_perm oneVersion arrival newest
    have memberTop : top ∈ writes := List.argmax_mem isNewest
    have atTop := safe top isNewest
    have only : ∀ other ∈ newestWrite order, other = top := fun other isOther =>
      Option.some.inj (isOther.symm.trans newest)
    cases change : top.change with
    | live target =>
      rw [change] at atTop
      have reachable := reachable_of_never_left oneVersion sealed isNewest change atTop
      have start : StoredMint.missing.Pending writes target := trivial
      have settled : (LoadingMint.applyAll ⟨.missing, none⟩ order).held.Settled writes target := by
        rw [LoadingMint.held_applyAll]
        exact start.applyAll reachable members ⟨top, arrival.symm.subset memberTop, change⟩
      have delivered : ∀ slot, (LoadingMint.applyAll ⟨.missing, none⟩ order).waiting = some slot →
          (⟨slot, .closed⟩ : MintWrite) ∈ writes := by
        intro slot waiting
        rcases LoadingMint.waiting_applyAll waiting with before | member
        · contradiction
        · exact members _ member
      have unchanged : (LoadingMint.applyAll ⟨.missing, none⟩ order).finish =
          (LoadingMint.applyAll ⟨.missing, none⟩ order).held := by
        rw [LoadingMint.finish]
        cases waiting : (LoadingMint.applyAll ⟨.missing, none⟩ order).waiting with
        | none => rfl
        | some slot => exact settled.close_eq (delivered slot waiting)
      refine ⟨fun other isOther => ?_, fun slot waiting => ⟨fun above => ?_, fun _ => unchanged⟩⟩
      · rw [only other isOther, change, unchanged]
        exact settled.served
      · have under := above top (arrival.symm.subset memberTop) (by simp [change])
        have := List.le_of_mem_argmax (delivered slot waiting) isNewest
        exact absurd this (Nat.not_le.mpr under)
    | closed =>
      rw [change] at atTop
      have below : ∀ write ∈ writes, write.change ≠ .closed → write.slot < top.slot := by
        intro write member isLive
        refine lt_of_le_of_ne (List.le_of_mem_argmax member isNewest) fun same => isLive ?_
        rw [oneVersion write member top memberTop same, change]
      have apart : LoadingMint.Apart writes := by
        refine ⟨fun write member state isLive => ?_, fun close member isClose => ?_⟩
        · by_contra immutable
          have := sealed write member state isLive (by simpa using immutable) top memberTop
          have := below write member (by simp [isLive])
          omega
        · by_cases high : LoadingMint.AboveLives writes close.slot
          · exact Or.inl high
          · right
            intro late memberLate isLate
            have differs : ∀ write ∈ writes, write.change ≠ .closed → write.slot ≠ close.slot :=
              fun write inside isLive same => isLive (oneVersion write inside close member same ▸ isClose)
            rw [LoadingMint.AboveLives] at high
            push Not at high
            obtain ⟨upper, memberUpper, isUpper, above⟩ := high
            have := differs late memberLate isLate
            have := differs upper memberUpper isUpper
            have := atTop late memberLate close member upper memberUpper isLate isClose isUpper
            omega
      have ending : LoadingMint.Ending writes (LoadingMint.applyAll ⟨.missing, none⟩ order) :=
        LoadingMint.Open.applyAll apart (Or.inl rfl) members ⟨top, arrival.symm.subset memberTop, change, below⟩
      refine ⟨fun other isOther => ?_, fun slot waiting => ⟨fun _ => ending.served_finish, fun newer => ?_⟩⟩
      · rw [only other isOther, change]
        exact ending.served_finish
      · obtain ⟨write, member, isLive, later⟩ := newer
        exact ending.finish_eq waiting ⟨write, members write member, isLive, later⟩

private theorem BootstrapSafe.keepsNewest (oneVersion : OneVersion writes) (safe : BootstrapSafe writes)
    {order : List MintWrite} (arrival : order.Perm writes) : LoadingMint.KeepsNewest order := by
  by_cases sealed : ∃ top ∈ newestWrite order, ∃ state, top.change = .live state ∧ state.immutable = true
  · obtain ⟨top, newest, target, change, immutable⟩ := sealed
    exact keepsNewest_of_immutable arrival newest change immutable
      (safe top (newestWrite_of_perm oneVersion arrival newest)).1
  · have unsealed : ∀ top ∈ newestWrite writes,
        ¬∃ state, top.change = .live state ∧ state.immutable = true := fun top newest immutable =>
      sealed ⟨top, newestWrite_of_perm (oneVersion.perm arrival) arrival.symm newest, immutable⟩
    have nothing : NothingFollowsImmutable writes := by
      intro write member state isLive immutable
      obtain ⟨top, newest⟩ := exists_newestWrite member
      exact absurd ⟨state, (safe top newest).1 write member state isLive immutable, immutable⟩ (unsealed top newest)
    exact keepsNewest_of_mutable oneVersion nothing
      (fun top newest => (safe top newest).2.resolve_left (unsealed top newest)) arrival

/-- A close between two live versions can hide the close of the newest slot. -/
theorem close_between_lives_can_win {early close late : MintWrite} (sealed : NothingFollowsImmutable writes)
    (memberEarly : early ∈ writes) (memberClose : close ∈ writes) (memberLate : late ∈ writes)
    {state : MintState} (isEarly : early.change = .live state) (isClose : close.change = .closed)
    (isLate : late.change ≠ .closed) (older : early.slot < close.slot) (newer : close.slot < late.slot) :
    ∃ rest, (early :: rest).Perm writes ∧ (StoredMint.missing.applyAll (early :: rest)).served ≠ none := by
  have unsealed : state.immutable = false := by
    by_contra immutable
    have := sealed early memberEarly state isEarly (by simpa using immutable) close memberClose
    omega
  let others := (writes.erase early).erase close
  let closes := others.filter fun write => decide (write.change = .closed)
  let lives := others.filter fun write => !decide (write.change = .closed)
  have closeLeft : close ∈ writes.erase early :=
    (List.mem_erase_of_ne fun same => by subst same; omega).mpr memberClose
  refine ⟨close :: (closes ++ lives), ?_, ?_⟩
  · have split : (closes ++ lives).Perm others := List.filter_append_perm _ _
    exact (((split.cons close).trans (List.perm_cons_erase closeLeft).symm).cons early).trans
      (List.perm_cons_erase memberEarly).symm
  · have closed : StoredMint.missing.applyAll [early, close] = .tombstone close.slot := by
      have later : ¬early.slot > close.slot := by omega
      simp only [StoredMint.applyAll, List.foldl_cons, List.foldl_nil, isEarly, isClose, StoredMint.apply,
        StoredMint.applyLive, StoredMint.written, unsealed, Bool.false_eq_true, if_false, StoredMint.close, if_neg later]
    change ((StoredMint.missing.applyAll [early, close]).applyAll (closes ++ lives)).served ≠ none
    rw [closed, StoredMint.applyAll_append, StoredMint.tombstone_applyAll_closed (by simp [closes])]
    refine StoredMint.tombstone_applyAll_live ?_ ⟨late, ?_, newer.le⟩
    · intro write inside
      have notClosed := (List.mem_filter.mp inside).2
      cases change : write.change with
      | live state => exact ⟨state, rfl⟩
      | closed => simp [change] at notClosed
    · have inOthers : late ∈ others :=
        (List.mem_erase_of_ne fun same => by subst same; omega).mpr
          ((List.mem_erase_of_ne fun same => by subst same; omega).mpr memberLate)
      exact List.mem_filter.mpr ⟨inOthers, by simpa using isLate⟩

/-- What every order of one mint's writes keeps is safe. -/
theorem bootstrapSafe_of_always (oneVersion : OneVersion writes)
    (always : ∀ order : List MintWrite, order.Perm writes → LoadingMint.KeepsNewest order) :
    BootstrapSafe writes := by
  intro top isTop
  have served : ∀ first rest, (first :: rest : List MintWrite).Perm writes →
      (LoadingMint.applyAll ⟨.missing, none⟩ (first :: rest)).finish.served = top.change.state? := by
    intro first rest arrival
    obtain ⟨best, isBest⟩ := exists_newestWrite (@List.mem_cons_self _ first rest)
    have same := Option.some.inj ((newestWrite_of_perm oneVersion arrival isBest).symm.trans isTop)
    exact same ▸ (always _ arrival).1 best isBest
  have immutables : ∀ write ∈ writes, ∀ state, write.change = .live state → state.immutable = true →
      top.change = .live state := by
    intro write member state isLive immutable
    -- delivered first, it is never replaced
    have kept := served write _ (List.perm_cons_erase member).symm
    rw [LoadingMint.finish_live_first isLive, StoredMint.applyAll_live_immutable isLive immutable] at kept
    cases change : top.change with
    | closed => rw [change] at kept; cases kept
    | live target =>
      rw [change, StoredMint.served, MintState.ofDecimals_decimals immutable] at kept
      exact congrArg MintChange.live (Option.some.inj kept).symm
  refine ⟨immutables, or_iff_not_imp_left.mpr fun unsealed => ?_⟩
  have sealed : NothingFollowsImmutable writes := fun write member state isLive immutable =>
    absurd ⟨state, immutables write member state isLive immutable, immutable⟩ unsealed
  cases change : top.change with
  | live target =>
    intro early memberEarly late memberLate older reaches
    by_contra leaves
    obtain ⟨rest, arrival, ends⟩ := left_state_can_win oneVersion sealed memberEarly memberLate older reaches leaves
    have kept := served early rest arrival
    rw [LoadingMint.finish_live_first reaches, change] at kept
    exact ends kept
  | closed =>
    intro early memberEarly close memberClose late memberLate isEarly isClose isLate older newer
    cases reaches : early.change with
    | closed => exact isEarly reaches
    | live state =>
      obtain ⟨rest, arrival, ends⟩ := close_between_lives_can_win sealed memberEarly memberClose memberLate
        reaches isClose isLate older newer
      have kept := served early rest arrival
      rw [LoadingMint.finish_live_first reaches, change] at kept
      exact ends kept

private theorem map_writesTo (mint : Pubkey) (deliveries : List AccountWrite) :
    (writesTo mint deliveries).map (fun write => ⟨mint, write.slot, write.change⟩) =
      deliveries.filter fun write => decide (write.pubkey = mint) := by
  induction deliveries with
  | nil => rfl
  | cons write rest ih =>
    by_cases same : write.pubkey = mint
    · rw [writesTo_cons_self rest same, List.map_cons, ih, List.filter_cons_of_pos (by simpa using same), ← same]
    · rw [writesTo_cons_other rest same, ih, List.filter_cons_of_neg (by simpa using same)]

/-- Any order of one mint's writes is the order it sees in some order of all deliveries. -/
theorem exists_delivery {order : List MintWrite} (arrival : order.Perm (writesTo mint deliveries)) :
    ∃ all : List AccountWrite, all.Perm deliveries ∧ writesTo mint all = order := by
  let own : List AccountWrite := order.map fun write => ⟨mint, write.slot, write.change⟩
  let foreign := deliveries.filter fun write => !decide (write.pubkey = mint)
  refine ⟨own ++ foreign, ?_, ?_⟩
  · have owned : own.Perm (deliveries.filter fun write => decide (write.pubkey = mint)) := by
      rw [← map_writesTo]
      exact arrival.map _
    exact (owned.append_right foreign).trans (List.filter_append_perm _ _)
  · have ownOnly : writesTo mint own = order := by
      simp [writesTo, own, List.filterMap_map]
    have noForeign : writesTo mint foreign = [] := by
      rw [writesTo, List.filterMap_eq_nil_iff]
      intro write inside
      exact if_neg (by simpa using (List.mem_filter.mp inside).2)
    have split : writesTo mint (own ++ foreign) = writesTo mint own ++ writesTo mint foreign := List.filterMap_append
    rw [split, ownOnly, noForeign, List.append_nil]

/-- Whatever else is delivered, every order of delivery leaves the mint in its newest state at the end of the
bootstrap exactly when its versions are safe. -/
theorem bootstrap_keeps_newest_iff (oneVersion : OneVersion (writesTo mint deliveries)) :
    (∀ order : List AccountWrite, order.Perm deliveries → KeepsNewest interval mint order) ↔
      BootstrapSafe (writesTo mint deliveries) := by
  constructor
  · intro always
    refine bootstrapSafe_of_always oneVersion fun order arrival => ?_
    obtain ⟨all, delivered, same⟩ := exists_delivery arrival
    rw [← same, ← keepsNewest_iff interval]
    exact always all delivered
  · intro safe order arrival
    rw [keepsNewest_iff]
    exact safe.keepsNewest oneVersion (arrival.filterMap _)

section Examples

private def sixDecimals : MintState := ⟨6, none, false, MintState.plain_none false⟩

private def nineDecimals : MintState := ⟨9, none, false, MintState.plain_none false⟩

/-- An immutable mint, before its supply changes and after it. -/
private def frozen : MintState := ⟨6, none, true, MintState.plain_none true⟩

/-- The close of mint 7 at 30 is newer than both live versions. The immutable mint 9 is delivered twice. -/
private def closedLast : List AccountWrite :=
  [⟨7, 10, .live sixDecimals⟩, ⟨9, 10, .live frozen⟩, ⟨8, 15, .closed⟩, ⟨7, 20, .live nineDecimals⟩,
    ⟨7, 30, .closed⟩, ⟨9, 30, .live frozen⟩]

theorem bootstrap_keeps_newest_iff_closed :
    ∃ order : List AccountWrite, order.Perm closedLast ∧ KeepsNewest 10 7 order ∧ KeepsNewest 10 9 order := by
  refine ⟨closedLast.reverse, List.reverse_perm _,
    (bootstrap_keeps_newest_iff ?_).mpr ?_ _ (List.reverse_perm closedLast),
    (bootstrap_keeps_newest_iff ?_).mpr ?_ _ (List.reverse_perm closedLast)⟩
  · simp [OneVersion, writesTo, closedLast]
  · intro top newest
    have isTop : top = ⟨30, .closed⟩ := by
      simpa [newestWrite, writesTo, closedLast, eq_comm, List.argmax, List.argAux] using newest
    subst isTop
    simp [NeverLeft, writesTo, closedLast, sixDecimals, nineDecimals]
  · simp [OneVersion, writesTo, closedLast]
  · intro top newest
    have isTop : top = ⟨30, .live frozen⟩ := by
      simpa [newestWrite, writesTo, closedLast, eq_comm, List.argmax, List.argAux] using newest
    subst isTop
    simp [writesTo, closedLast, frozen]

/-- A close waits, its mint comes, and an equal newer version leaves the entry at the old slot. -/
private def equalAbove : List AccountWrite :=
  [⟨7, 20, .closed⟩, ⟨7, 10, .live sixDecimals⟩, ⟨7, 30, .live sixDecimals⟩]

theorem waiting_close_beats_newer_version :
    OneVersion (writesTo 7 equalAbove) ∧ NothingFollowsImmutable (writesTo 7 equalAbove) ∧
      ¬∀ order : List AccountWrite, order.Perm equalAbove → KeepsNewest 10 7 order := by
  refine ⟨by simp [OneVersion, writesTo, equalAbove],
    by simp [NothingFollowsImmutable, writesTo, equalAbove, sixDecimals], fun always => ?_⟩
  have kept := (always equalAbove (List.Perm.refl _)).1 ⟨30, .live sixDecimals⟩ (by decide +kernel)
  exact absurd kept (by decide +kernel)

end Examples

end Delivered

end Cloudbreak.Model.MintCache
