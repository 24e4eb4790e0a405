import Cloudbreak.Proofs.Supply.CacheEntry
import Cloudbreak.ToMathlib.Run

/-! # Runs of the hot-accounts cache

Any sequence of the public cache operations, with the balances they write back recorded on the side. The
pinned counter is compared with the map after every operation, a sweep is shown to find its cutoff and to
keep the newest entries, and the recorded writes say where each held balance comes from.
-/

namespace Cloudbreak.Model.Supply

open Cloudbreak.ToMathlib
open NonCirculating (stakeProgramId)

/-- One call into the cache. -/
inductive CacheOp where
  | probe (pubkey : Pubkey) (lamports slot : ℕ) (owner : Pubkey) (zeroPrev : Bool)
  | applyMiss (pubkey : Pubkey) (lamports slot : ℕ) (owner : Pubkey) (prev : Option PrevRow)
  | sweep (slot : ℕ)
  | pinFailed (pubkeys : List Pubkey)

/-- The arguments of a `writeBack`. -/
structure Write where
  pubkey : Pubkey
  lamports : ℕ
  slot : ℕ
  owner : Pubkey

namespace CacheOp

/-- A refused pin leaves the cache as it was; a sweep that panics has no next state. -/
def apply (cache : HotAccounts) : CacheOp → Option HotAccounts
  | probe pubkey lamports slot owner zeroPrev => some (cache.probe pubkey lamports slot owner zeroPrev).1
  | applyMiss pubkey lamports slot owner prev => some (cache.applyMiss pubkey lamports slot owner prev).1
  | sweep slot => (cache.sweep slot).map Prod.fst
  | pinFailed pubkeys => some ((cache.pinFailed pubkeys).getD cache)

/-- The write-back the call makes. A probe that misses or finds a slot as new as its own makes none. -/
def write (cache : HotAccounts) : CacheOp → Option Write
  | probe pubkey lamports slot owner zeroPrev =>
    if zeroPrev || (cache.map.lookup pubkey).any (fun entry => decide (entry.slot < slot)) then
      some ⟨pubkey, lamports, slot, owner⟩
    else none
  | applyMiss pubkey lamports slot owner none => some ⟨pubkey, lamports, slot, owner⟩
  | applyMiss pubkey lamports slot owner (some prev) =>
    if prev.slot < slot then some ⟨pubkey, lamports, slot, owner⟩
    else some ⟨pubkey, prev.lamports, prev.slot, owner⟩
  | sweep _ => none
  | pinFailed _ => none

/-- Every call of the pins names distinct accounts. -/
def Distinct : CacheOp → Prop
  | pinFailed pubkeys => pubkeys.Nodup
  | _ => True

instance : DecidablePred Distinct
  | probe .. => inferInstanceAs (Decidable True)
  | applyMiss .. => inferInstanceAs (Decidable True)
  | sweep _ => inferInstanceAs (Decidable True)
  | pinFailed pubkeys => inferInstanceAs (Decidable pubkeys.Nodup)

end CacheOp

/-- The cache with the write-backs made so far, the latest last. -/
structure Journal where
  cache : HotAccounts
  writes : List Write

namespace Journal

def new (cap failPinCap : ℕ) : Journal := ⟨.withCapacity cap failPinCap, []⟩

def step (journal : Journal) (op : CacheOp) : Option Journal :=
  (op.apply journal.cache).map fun cache => ⟨cache, journal.writes ++ (op.write journal.cache).toList⟩

end Journal

namespace HotAccounts

def put (cache : HotAccounts) (write : Write) : HotAccounts :=
  cache.writeBack write.pubkey write.lamports write.slot write.owner

/-- What one call can do to the cache. -/
theorem apply_cases {cache next : HotAccounts} {op : CacheOp} (moves : op.apply cache = some next) :
    (∃ write, op.write cache = some write ∧ next = cache.put write) ∨
    (op.write cache = none ∧ next = cache) ∨
    (∃ slot evicted, op = .sweep slot ∧ cache.sweep slot = some (next, evicted)) ∨
    (∃ pubkeys, op = .pinFailed pubkeys ∧ cache.pinFailed pubkeys = some next) := by
  cases op with
  | probe pubkey lamports slot owner zeroPrev =>
    have reached := Option.some.inj moves
    unfold probe at reached
    cases zeroPrev with
    | true => exact Or.inl ⟨_, rfl, reached.symm⟩
    | false =>
      cases held : cache.map.lookup pubkey with
      | none =>
        rw [held] at reached
        refine Or.inr (Or.inl ⟨?_, reached.symm⟩)
        simp only [CacheOp.write, held, Option.any_none, Bool.or_false, Bool.false_eq_true, if_false]
      | some entry =>
        rw [held] at reached
        simp only [Bool.false_eq_true, if_false] at reached
        by_cases fresh : entry.slot < slot
        · rw [if_pos fresh] at reached
          refine Or.inl ⟨⟨pubkey, lamports, slot, owner⟩, ?_, reached.symm⟩
          simp only [CacheOp.write, held, Option.any_some, fresh, decide_true, Bool.or_true, if_true]
        · rw [if_neg fresh] at reached
          refine Or.inr (Or.inl ⟨?_, reached.symm⟩)
          simp only [CacheOp.write, held, Option.any_some, fresh, decide_false, Bool.or_false, Bool.false_eq_true,
            if_false]
  | applyMiss pubkey lamports slot owner prev =>
    have reached := Option.some.inj moves
    cases prev with
    | none => exact Or.inl ⟨_, rfl, reached.symm⟩
    | some prev =>
      unfold applyMiss at reached
      by_cases older : prev.slot < slot
      · refine Or.inl ⟨_, if_pos older, ?_⟩
        rw [← reached]
        simp only [if_pos older]
        rfl
      · refine Or.inl ⟨_, if_neg older, ?_⟩
        rw [← reached]
        simp only [if_neg older]
        rfl
  | sweep slot =>
    obtain ⟨⟨swept, evicted⟩, ran, rfl⟩ := Option.map_eq_some_iff.mp moves
    exact Or.inr (Or.inr (Or.inl ⟨slot, evicted, rfl, ran⟩))
  | pinFailed pubkeys =>
    have reached := Option.some.inj moves
    cases accepted : cache.pinFailed pubkeys with
    | none =>
      rw [accepted] at reached
      exact Or.inr (Or.inl ⟨rfl, reached.symm⟩)
    | some pinned =>
      rw [accepted] at reached
      exact Or.inr (Or.inr (Or.inr ⟨pubkeys, rfl, accepted.trans (congrArg some reached)⟩))

private theorem lookup_put (cache : HotAccounts) (write : Write) (key : Pubkey) :
    (cache.put write).map.lookup key =
      if key = write.pubkey then
        Entry.write write.lamports write.slot (decide (write.owner = stakeProgramId)) (cache.map.lookup key)
      else cache.map.lookup key :=
  lookup_writeBack ..

/-! ## The capacities -/

private theorem put_caps (cache : HotAccounts) (write : Write) :
    (cache.put write).cap = cache.cap ∧ (cache.put write).failPinCap = cache.failPinCap := by
  unfold put writeBack remove
  split
  · exact ⟨rfl, rfl⟩
  · cases cache.map.lookup write.pubkey with
    | none => exact ⟨rfl, rfl⟩
    | some entry =>
      dsimp only
      split
      · exact ⟨rfl, rfl⟩
      · exact ⟨rfl, rfl⟩

/-- What a sweep keeps: everything, or what is pinned or has reached the cutoff. -/
theorem sweep_cases {cache swept : HotAccounts} {slot evicted : ℕ} (ran : cache.sweep slot = some (swept, evicted)) :
    swept.cap = cache.cap ∧ swept.failPinCap = cache.failPinCap ∧ swept.pinnedCount = cache.pinnedCount ∧
      (swept.map = cache.map ∨
        ∃ cutoff, cache.sweepCutoff (cache.cap - cache.cap / 10) = some cutoff ∧
          swept.map = cache.map.retain fun _ entry => entry.pinned || decide (entry.slot ≥ cutoff)) := by
  unfold sweep at ran
  dsimp only at ran
  split at ran
  · cases ran
    exact ⟨rfl, rfl, rfl, Or.inl rfl⟩
  · obtain ⟨cutoff, found, kept⟩ := Option.map_eq_some_iff.mp ran
    cases kept
    exact ⟨rfl, rfl, rfl, Or.inr ⟨cutoff, found, rfl⟩⟩

theorem pinFailed_cases {cache pinned : HotAccounts} {pubkeys : List Pubkey}
    (accepted : cache.pinFailed pubkeys = some pinned) :
    pinned.cap = cache.cap ∧ pinned.failPinCap = cache.failPinCap ∧ pinned.pinnedCount ≤ cache.failPinCap := by
  unfold pinFailed at accepted
  dsimp only at accepted
  split at accepted
  · contradiction
  · next within =>
    cases accepted
    exact ⟨rfl, rfl, Nat.le_of_not_gt within⟩

/-! ## The pinned counter -/

/-- The pinned entries, counted. -/
def pinnedEntries (map : HashMap Pubkey Entry) : ℕ := (map.values.filter Entry.pinned).length

/-- The unpinned entries, counted. -/
def hotEntries (map : HashMap Pubkey Entry) : ℕ := (map.values.filter fun entry => !entry.pinned).length

theorem pinnedEntries_eq_sum (map : HashMap Pubkey Entry) :
    pinnedEntries map = HashMap.sum (fun _ entry => if entry.pinned then 1 else 0) map := by
  unfold pinnedEntries HashMap.sum HashMap.values
  induction map.entries with
  | nil => rfl
  | cons entry rest ih =>
    rw [List.map_cons, List.filter_cons, List.map_cons, List.sum_cons, ← ih]
    cases flag : entry.2.pinned with
    | true => simp only [if_true, List.length_cons, flag, Nat.add_comm]
    | false => simp only [Bool.false_eq_true, if_false, flag, Nat.zero_add]

theorem pinned_add_hot (map : HashMap Pubkey Entry) :
    pinnedEntries map + hotEntries map = map.entries.length := by
  have hot : hotEntries map = map.values.countP fun entry => decide ¬ entry.pinned = true := by
    rw [hotEntries, ← List.countP_eq_length_filter]
    refine List.countP_congr fun entry _ => ?_
    simp
  rw [hot, pinnedEntries, ← List.countP_eq_length_filter, ← List.length_eq_countP_add_countP Entry.pinned,
    HashMap.values, List.length_map]

private theorem pinnedEntries_erase (map : HashMap Pubkey Entry) (key : Pubkey) :
    (if (map.lookup key).any Entry.pinned then 1 else 0) + pinnedEntries (map.erase key) = pinnedEntries map := by
  rw [pinnedEntries_eq_sum, pinnedEntries_eq_sum, ← HashMap.sum_erase _ map key]
  cases map.lookup key with
  | none => rfl
  | some entry => rfl

/-- A write under a key moves the count only with the flag. -/
theorem pinnedEntries_insert (map : HashMap Pubkey Entry) (key : Pubkey) (entry : Entry) :
    pinnedEntries (map.insert key entry) + (if (map.lookup key).any Entry.pinned then 1 else 0) =
      pinnedEntries map + (if entry.pinned then 1 else 0) := by
  rw [← pinnedEntries_erase map key, pinnedEntries_eq_sum (map.insert key entry), HashMap.sum_insert_erase,
    ← pinnedEntries_eq_sum]
  omega

private theorem pinnedEntries_retain {map : HashMap Pubkey Entry} {keep : Pubkey → Entry → Bool}
    (keeps : ∀ key entry, entry.pinned = true → keep key entry = true) :
    pinnedEntries (map.retain keep) = pinnedEntries map := by
  change (((map.entries.filter fun entry => keep entry.1 entry.2).map fun entry => entry.2).filter _).length = _
  unfold pinnedEntries HashMap.values
  induction map.entries with
  | nil => rfl
  | cons entry rest ih =>
    rw [List.filter_cons]
    cases flag : entry.2.pinned with
    | true =>
      rw [if_pos (keeps entry.1 entry.2 flag), List.map_cons, List.filter_cons_of_pos flag, List.map_cons,
        List.filter_cons_of_pos flag, List.length_cons, List.length_cons, ih]
    | false =>
      have unflagged : ¬ entry.2.pinned = true := by simp [flag]
      rw [List.map_cons, List.filter_cons_of_neg unflagged, ← ih]
      split
      · rw [List.map_cons, List.filter_cons_of_neg unflagged]
      · rfl

/-- Every unpinned account of the list is counted once. -/
private theorem pinnedEntries_foldl (pubkeys : List Pubkey) (distinct : pubkeys.Nodup) (map : HashMap Pubkey Entry) :
    pinnedEntries (pubkeys.foldl
      (fun map pubkey =>
        match map.lookup pubkey with
        | some entry => map.insert pubkey { entry with pinned := true }
        | none => map) map) =
      pinnedEntries map +
        (pubkeys.filter fun pubkey => (map.lookup pubkey).any fun entry => !entry.pinned).length := by
  induction pubkeys generalizing map with
  | nil => rfl
  | cons first rest ih =>
    obtain ⟨fresh, distinct⟩ := List.nodup_cons.mp distinct
    rw [List.foldl_cons, ih distinct, List.filter_cons]
    cases held : map.lookup first with
    | none => simp
    | some entry =>
      have others : (rest.filter fun pubkey =>
            ((map.insert first { entry with pinned := true }).lookup pubkey).any fun entry => !entry.pinned) =
          rest.filter fun pubkey => (map.lookup pubkey).any fun entry => !entry.pinned := by
        refine List.filter_congr fun pubkey member => ?_
        have other : pubkey ≠ first := by
          rintro rfl
          exact fresh member
        rw [HashMap.lookup_insert, if_neg other]
      have moved := pinnedEntries_insert map first { entry with pinned := true }
      rw [held] at moved
      dsimp only
      rw [others]
      cases flag : entry.pinned with
      | true =>
        simp only [Option.any_some, flag, if_true, Bool.not_true, Bool.false_eq_true, if_false] at moved ⊢
        omega
      | false =>
        simp only [Option.any_some, flag, if_true, Bool.not_false, Bool.false_eq_true, if_false,
          List.length_cons] at moved ⊢
        omega

/-- Of a list with repetitions, no more accounts are pinned than are counted. -/
private theorem pinnedEntries_foldl_le (pubkeys : List Pubkey) (map : HashMap Pubkey Entry) :
    pinnedEntries (pubkeys.foldl
      (fun map pubkey =>
        match map.lookup pubkey with
        | some entry => map.insert pubkey { entry with pinned := true }
        | none => map) map) ≤
      pinnedEntries map +
        (pubkeys.filter fun pubkey => (map.lookup pubkey).any fun entry => !entry.pinned).length := by
  induction pubkeys generalizing map with
  | nil => exact Nat.le_refl _
  | cons first rest ih =>
    rw [List.foldl_cons, List.filter_cons]
    refine (ih _).trans ?_
    cases held : map.lookup first with
    | none => simp
    | some entry =>
      have fewer : (rest.filter fun pubkey =>
            ((map.insert first { entry with pinned := true }).lookup pubkey).any fun entry => !entry.pinned).length ≤
          (rest.filter fun pubkey => (map.lookup pubkey).any fun entry => !entry.pinned).length := by
        refine (List.monotone_filter_right rest fun pubkey unpinned => ?_).length_le
        rw [HashMap.lookup_insert] at unpinned
        split at unpinned
        · cases unpinned
        · exact unpinned
      have moved := pinnedEntries_insert map first { entry with pinned := true }
      rw [held] at moved
      dsimp only
      cases flag : entry.pinned with
      | true =>
        simp only [Option.any_some, flag, if_true, Bool.not_true, Bool.false_eq_true, if_false] at moved ⊢
        omega
      | false =>
        simp only [Option.any_some, flag, if_true, Bool.not_false, Bool.false_eq_true, if_false,
          List.length_cons] at moved ⊢
        omega

/-- The counter is ahead of the map by an excess, within the failure-pin cap. -/
structure Counted (cache : HotAccounts) (excess : ℕ) : Prop where
  counts : cache.pinnedCount = pinnedEntries cache.map + excess
  within : cache.pinnedCount ≤ cache.failPinCap

variable {excess : ℕ}

private theorem counted_remove {cache : HotAccounts} (counted : cache.Counted excess) (pubkey : Pubkey) :
    (cache.remove pubkey).Counted excess := by
  have erased := pinnedEntries_erase cache.map pubkey
  have counts := counted.counts
  have within := counted.within
  constructor
  · unfold remove
    dsimp only
    split
    · next flagged =>
      rw [if_pos flagged] at erased
      omega
    · next unflagged =>
      rw [if_neg unflagged] at erased
      omega
  · unfold remove
    dsimp only
    split
    · omega
    · exact within

theorem counted_put {cache : HotAccounts} (counted : cache.Counted excess) (write : Write) :
    (cache.put write).Counted excess := by
  unfold put writeBack
  split
  · exact counted_remove counted write.pubkey
  · cases held : cache.map.lookup write.pubkey with
    | none =>
      have moved := pinnedEntries_insert cache.map write.pubkey ⟨write.lamports, write.slot, false⟩
      rw [held] at moved
      exact ⟨counted.counts.trans (congrArg (· + excess) moved.symm), counted.within⟩
    | some entry =>
      dsimp only
      split
      · have moved := pinnedEntries_insert cache.map write.pubkey
          { entry with lamports := write.lamports, slot := write.slot }
        rw [held, Option.any_some] at moved
        exact ⟨counted.counts.trans (congrArg (· + excess) (Nat.add_right_cancel moved).symm), counted.within⟩
      · exact counted

theorem counted_sweep {cache swept : HotAccounts} (counted : cache.Counted excess) {slot evicted : ℕ}
    (ran : cache.sweep slot = some (swept, evicted)) : swept.Counted excess := by
  obtain ⟨_, sameCap, sameCount, kept⟩ := sweep_cases ran
  have samePinned : pinnedEntries swept.map = pinnedEntries cache.map := by
    rcases kept with same | ⟨cutoff, _, kept⟩
    · rw [same]
    · rw [kept]
      exact pinnedEntries_retain fun _ entry flagged => by rw [flagged, Bool.true_or]
  constructor
  · rw [sameCount, samePinned, counted.counts]
  · rw [sameCount, sameCap]
    exact counted.within

private theorem counted_pinFailed {cache pinned : HotAccounts} (counted : cache.Counted excess) {pubkeys : List Pubkey}
    (distinct : pubkeys.Nodup) (accepted : cache.pinFailed pubkeys = some pinned) : pinned.Counted excess := by
  obtain ⟨_, sameCap, within⟩ := pinFailed_cases accepted
  refine ⟨?_, sameCap ▸ within⟩
  have listed := pinnedEntries_foldl pubkeys distinct cache.map
  unfold pinFailed at accepted
  dsimp only at accepted
  split at accepted
  · contradiction
  · cases accepted
    have counts := counted.counts
    refine Eq.trans ?_ (congrArg (· + excess) listed.symm)
    dsimp only
    omega

/-- Repeated pins let the counter run ahead. -/
theorem counted_pinFailed_repeated {cache pinned : HotAccounts} (counted : cache.Counted excess)
    {pubkeys : List Pubkey} (accepted : cache.pinFailed pubkeys = some pinned) : ∃ more, pinned.Counted more := by
  obtain ⟨_, sameCap, within⟩ := pinFailed_cases accepted
  have listed := pinnedEntries_foldl_le pubkeys cache.map
  unfold pinFailed at accepted
  dsimp only at accepted
  split at accepted
  · contradiction
  · cases accepted
    have counts : pinnedEntries cache.map ≤ cache.pinnedCount := counted.counts ▸ Nat.le_add_right _ _
    obtain ⟨more, split⟩ := Nat.exists_eq_add_of_le (listed.trans (Nat.add_le_add_right counts _))
    exact ⟨more, split, sameCap ▸ within⟩

private theorem counted_apply {cache next : HotAccounts} {op : CacheOp} (counted : cache.Counted excess)
    (distinct : op.Distinct) (moves : op.apply cache = some next) : next.Counted excess := by
  rcases apply_cases moves with
    ⟨write, -, rfl⟩ | ⟨-, rfl⟩ | ⟨slot, evicted, rfl, ran⟩ | ⟨pubkeys, rfl, accepted⟩
  · exact counted_put counted write
  · exact counted
  · exact counted_sweep counted ran
  · exact counted_pinFailed counted distinct accepted

theorem caps_apply {cache next : HotAccounts} {op : CacheOp} (moves : op.apply cache = some next) :
    next.cap = cache.cap ∧ next.failPinCap = cache.failPinCap := by
  rcases apply_cases moves with
    ⟨write, -, rfl⟩ | ⟨-, rfl⟩ | ⟨slot, evicted, rfl, ran⟩ | ⟨pubkeys, rfl, accepted⟩
  · exact put_caps cache write
  · exact ⟨rfl, rfl⟩
  · exact ⟨(sweep_cases ran).1, (sweep_cases ran).2.1⟩
  · exact ⟨(pinFailed_cases accepted).1, (pinFailed_cases accepted).2.1⟩

private theorem hotLen_eq {cache : HotAccounts} (counted : cache.Counted 0) (small : cache.pinnedCount < 2 ^ 64) :
    cache.hotLen = hotEntries cache.map % 2 ^ 64 := by
  have split := pinned_add_hot cache.map
  have counts := counted.counts
  unfold hotLen
  omega

/-! ## Sweeps -/

private theorem length_unpinnedSlots (cache : HotAccounts) : cache.unpinnedSlots.length = hotEntries cache.map := by
  rw [unpinnedSlots, List.length_insertionSort, List.length_map, hotEntries]

/-- The slots of the unpinned entries at or above a cutoff, counted. -/
theorem hotEntries_retain (map : HashMap Pubkey Entry) (cutoff : ℕ) :
    hotEntries (map.retain fun _ entry => entry.pinned || decide (entry.slot ≥ cutoff)) =
      (((map.values.filter fun entry => !entry.pinned).map Entry.slot).filter fun slot =>
        decide (slot ≥ cutoff)).length := by
  change (((map.entries.filter fun entry => entry.2.pinned || decide (entry.2.slot ≥ cutoff)).map
    fun entry => entry.2).filter _).length = _
  unfold HashMap.values
  induction map.entries with
  | nil => rfl
  | cons entry rest ih =>
    rw [List.filter_cons, List.map_cons, List.filter_cons]
    cases flag : entry.2.pinned with
    | true => simp only [Bool.true_or, if_true, List.map_cons, List.filter_cons, flag, Bool.not_true,
        Bool.false_eq_true, if_false, ih]
    | false =>
      by_cases reached : entry.2.slot ≥ cutoff
      · simp only [Bool.false_or, reached, decide_true, if_true, List.map_cons, List.filter_cons, flag,
          Bool.not_false, List.length_cons, ih]
      · simp only [Bool.false_or, reached, decide_false, Bool.false_eq_true, if_false, List.map_cons,
          List.filter_cons, Bool.not_false, if_true, ih]

/-- In ascending order everything from a position on is at least the element there. -/
private theorem le_length_filter_ge {slots : List ℕ} (sorted : slots.Pairwise (· ≤ ·)) {index cutoff : ℕ}
    (found : slots[index]? = some cutoff) :
    slots.length - index ≤ (slots.filter fun slot => decide (slot ≥ cutoff)).length := by
  obtain ⟨within, rfl⟩ := List.getElem?_eq_some_iff.mp found
  have reached : ∀ slot ∈ slots.drop index, slots[index] ≤ slot := by
    rw [List.drop_eq_getElem_cons within]
    intro slot member
    rcases List.mem_cons.mp member with rfl | later
    · exact le_refl _
    · have ordered := sorted.sublist (List.drop_sublist index slots)
      rw [List.drop_eq_getElem_cons within] at ordered
      exact (List.pairwise_cons.mp ordered).1 slot later
  have kept : (slots.drop index).filter (fun slot => decide (slot ≥ slots[index])) = slots.drop index :=
    List.filter_eq_self.mpr fun slot member => decide_eq_true (reached slot member)
  calc slots.length - index = ((slots.drop index).filter fun slot => decide (slot ≥ slots[index])).length := by
        rw [kept, List.length_drop]
    _ ≤ (slots.filter fun slot => decide (slot ≥ slots[index])).length :=
        ((List.drop_sublist index slots).filter _).length_le

/-- The cutoff exists as soon as the target lies within the unpinned entries. -/
theorem sweepCutoff_isSome {cache : HotAccounts} {target : ℕ} (positive : 0 < target)
    (within : target ≤ hotEntries cache.map) : ∃ cutoff, cache.sweepCutoff target = some cutoff := by
  rw [← length_unpinnedSlots] at within
  have inside : cache.unpinnedSlots.length - target < cache.unpinnedSlots.length := by omega
  refine ⟨cache.unpinnedSlots[cache.unpinnedSlots.length - target], ?_⟩
  rw [sweepCutoff, if_neg (Nat.not_lt.mpr within)]
  exact List.getElem?_eq_getElem inside

private theorem sweepCutoff_keeps {cache : HotAccounts} {target cutoff : ℕ}
    (found : cache.sweepCutoff target = some cutoff) :
    target ≤ hotEntries (cache.map.retain fun _ entry => entry.pinned || decide (entry.slot ≥ cutoff)) := by
  unfold sweepCutoff at found
  split at found
  · contradiction
  · next within =>
    have permuted : cache.unpinnedSlots.Perm ((cache.map.values.filter fun entry => !entry.pinned).map Entry.slot) :=
      List.perm_insertionSort _ _
    have ordered : cache.unpinnedSlots.Pairwise (· ≤ ·) := List.pairwise_insertionSort _ _
    have many := le_length_filter_ge ordered found
    rw [hotEntries_retain, ← (permuted.filter _).length_eq]
    omega

/-- The hot length is at most the unpinned entries, unless the counter exceeds the entries. -/
theorem hotLen_le {cache : HotAccounts} (counted : cache.Counted excess) (small : cache.failPinCap < 2 ^ 64)
    (fits : cache.pinnedCount ≤ cache.map.entries.length) : cache.hotLen ≤ hotEntries cache.map := by
  have split := pinned_add_hot cache.map
  have counts := counted.counts
  have within := counted.within
  unfold hotLen
  omega

/-- No sweep panics: past the target the unpinned entries hold a cutoff. -/
theorem sweep_returns {cache : HotAccounts} (counted : cache.Counted excess) (small : cache.failPinCap < 2 ^ 64)
    (positive : 1 ≤ cache.cap) (fits : cache.pinnedCount ≤ cache.map.entries.length) (slot : ℕ) :
    ∃ swept evicted, cache.sweep slot = some (swept, evicted) := by
  have hot := hotLen_le counted small fits
  unfold sweep
  dsimp only
  split
  · exact ⟨_, _, rfl⟩
  · next exceeds =>
    have above : cache.cap - cache.cap / 10 ≤ hotEntries cache.map := by
      change ¬ cache.hotLen ≤ cache.cap - cache.cap / 10 at exceeds
      omega
    obtain ⟨cutoff, found⟩ := sweepCutoff_isSome (by omega) above
    rw [show ({ cache with lastSweepSlot := slot } : HotAccounts).sweepCutoff (cache.cap - cache.cap / 10) =
      some cutoff from found]
    exact ⟨_, _, rfl⟩

/-- An entry a sweep drops is unpinned and no newer than any unpinned entry it keeps. -/
theorem sweep_order {cache swept : HotAccounts} {slot evicted : ℕ} (ran : cache.sweep slot = some (swept, evicted))
    {kept dropped : Pubkey} {keptEntry droppedEntry : Entry} (holds : swept.map.lookup kept = some keptEntry)
    (unpinned : keptEntry.pinned = false) (held : cache.map.lookup dropped = some droppedEntry)
    (gone : swept.map.lookup dropped = none) :
    droppedEntry.pinned = false ∧ droppedEntry.slot ≤ keptEntry.slot := by
  obtain ⟨_, _, _, same | ⟨cutoff, _, retained⟩⟩ := sweep_cases ran
  · rw [same, held] at gone
    contradiction
  · rw [retained, HashMap.lookup_retain] at holds gone
    rw [held, Option.filter_some] at gone
    obtain ⟨-, stays⟩ := Option.filter_eq_some_iff.mp holds
    rw [unpinned, Bool.false_or, decide_eq_true_eq] at stays
    split at gone
    · contradiction
    · next dropped =>
      rw [Bool.or_eq_true, not_or, decide_eq_true_eq] at dropped
      exact ⟨Bool.not_eq_true _ ▸ dropped.1, by omega⟩

/-- At least the target of unpinned entries survives, or all of them. -/
theorem sweep_survivors {cache swept : HotAccounts} {slot evicted : ℕ}
    (ran : cache.sweep slot = some (swept, evicted)) :
    min (hotEntries cache.map) (cache.cap - cache.cap / 10) ≤ hotEntries swept.map := by
  obtain ⟨_, _, _, same | ⟨cutoff, found, retained⟩⟩ := sweep_cases ran
  · rw [same]
    exact Nat.min_le_left _ _
  · rw [retained]
    exact (Nat.min_le_right _ _).trans (sweepCutoff_keeps found)

/-! ## One entry across a call -/

/-- An entry leaves by a stake-owned write or, unpinned, by a sweep. -/
theorem apply_leaves {cache next : HotAccounts} {op : CacheOp} (moves : op.apply cache = some next) {key : Pubkey}
    {entry : Entry} (held : cache.map.lookup key = some entry) (gone : next.map.lookup key = none) :
    (∃ write, op.write cache = some write ∧ write.pubkey = key ∧ write.owner = stakeProgramId) ∨
      (∃ slot, op = .sweep slot) ∧ entry.pinned = false := by
  rcases apply_cases moves with
    ⟨write, wrote, rfl⟩ | ⟨-, rfl⟩ | ⟨slot, evicted, rfl, ran⟩ | ⟨pubkeys, rfl, accepted⟩
  · rw [lookup_put] at gone
    split at gone
    · next same =>
      refine Or.inl ⟨write, wrote, same.symm, ?_⟩
      unfold Entry.write at gone
      split at gone
      · next owned => exact of_decide_eq_true owned
      · rw [held] at gone
        contradiction
    · rw [held] at gone
      contradiction
  · rw [held] at gone
    contradiction
  · rcases lookup_sweep ran key with same | ⟨-, dropped, was, unpinned⟩
    · rw [same, held] at gone
      contradiction
    · cases held.symm.trans was
      exact Or.inr ⟨⟨slot, rfl⟩, unpinned⟩
  · rw [lookup_pinFailed accepted, held] at gone
    split at gone <;> contradiction

/-- A held entry either takes a write at least as new, or keeps its slot and balance past older writes. -/
theorem apply_holds {cache next : HotAccounts} {op : CacheOp} (moves : op.apply cache = some next) {key : Pubkey}
    {later : Entry} (holds : next.map.lookup key = some later) :
    (∃ write, op.write cache = some write ∧ write.pubkey = key ∧ later.lamports = write.lamports ∧
        later.slot = write.slot ∧ ∀ entry, cache.map.lookup key = some entry → entry.slot ≤ later.slot) ∨
      ∃ entry, cache.map.lookup key = some entry ∧ later.lamports = entry.lamports ∧ later.slot = entry.slot ∧
        ∀ write, op.write cache = some write → write.pubkey = key →
          write.owner ≠ stakeProgramId ∧ write.slot < entry.slot := by
  rcases apply_cases moves with
    ⟨write, wrote, rfl⟩ | ⟨quiet, rfl⟩ | ⟨slot, evicted, rfl, ran⟩ | ⟨pubkeys, rfl, accepted⟩
  · rw [lookup_put] at holds
    split at holds
    · next same =>
      unfold Entry.write at holds
      split at holds
      · contradiction
      · next foreign =>
        cases held : cache.map.lookup key with
        | none =>
          rw [held] at holds
          cases holds
          refine Or.inl ⟨write, wrote, same.symm, rfl, rfl, fun entry was => ?_⟩
          contradiction
        | some entry =>
          rw [held] at holds
          dsimp only at holds
          split at holds
          · next reached =>
            cases holds
            refine Or.inl ⟨write, wrote, same.symm, rfl, rfl, fun other was => ?_⟩
            cases was
            exact reached
          · next older =>
            cases holds
            refine Or.inr ⟨later, rfl, rfl, rfl, fun other wrote' _ => ?_⟩
            cases wrote.symm.trans wrote'
            exact ⟨of_decide_eq_false (Bool.not_eq_true _ ▸ foreign), Nat.lt_of_not_ge older⟩
    · next differs =>
      refine Or.inr ⟨later, holds, rfl, rfl, fun other wrote' same => ?_⟩
      cases wrote.symm.trans wrote'
      exact absurd same.symm differs
  · refine Or.inr ⟨later, holds, rfl, rfl, fun write wrote => ?_⟩
    rw [quiet] at wrote
    contradiction
  · refine Or.inr ⟨later, ?_, rfl, rfl, fun write wrote => by contradiction⟩
    rcases lookup_sweep ran key with same | ⟨gone, -⟩
    · exact same ▸ holds
    · rw [gone] at holds
      contradiction
  · rw [lookup_pinFailed accepted] at holds
    cases held : cache.map.lookup key with
    | none =>
      rw [held] at holds
      split at holds <;> contradiction
    | some entry =>
      rw [held] at holds
      refine Or.inr ⟨entry, rfl, ?_, ?_, fun write wrote => by contradiction⟩
      · split at holds
        · cases holds; rfl
        · cases holds; rfl
      · split at holds
        · cases holds; rfl
        · cases holds; rfl

end HotAccounts

/-! ## Runs -/

namespace Journal

/-- The entry of a key comes from the latest write that was not below the entry's slot. -/
def Explained (journal : Journal) (key : Pubkey) (entry : Entry) : Prop :=
  ∃ earlier write rest, journal.writes = earlier ++ write :: rest ∧ write.pubkey = key ∧
    entry.lamports = write.lamports ∧ entry.slot = write.slot ∧
    ∀ later ∈ rest, later.pubkey = key → later.owner ≠ stakeProgramId ∧ later.slot < entry.slot

private theorem step_applies {journal next : Journal} {op : CacheOp} (moves : journal.step op = some next) :
    op.apply journal.cache = some next.cache ∧ next.writes = journal.writes ++ (op.write journal.cache).toList := by
  obtain ⟨cache, applied, rfl⟩ := Option.map_eq_some_iff.mp moves
  exact ⟨applied, rfl⟩

private theorem explained_step {journal next : Journal} {op : CacheOp}
    (explained : ∀ key entry, journal.cache.map.lookup key = some entry → journal.Explained key entry)
    (moves : journal.step op = some next) {key : Pubkey} {later : Entry}
    (holds : next.cache.map.lookup key = some later) : next.Explained key later := by
  obtain ⟨applied, recorded⟩ := step_applies moves
  rcases HotAccounts.apply_holds applied holds with
    ⟨write, wrote, same, lamports, slot, -⟩ | ⟨entry, held, lamports, slot, quiet⟩
  · exact ⟨journal.writes, write, [], by rw [recorded, wrote]; rfl, same, lamports, slot, fun _ member => by contradiction⟩
  · obtain ⟨earlier, write, rest, listed, same, wroteLamports, wroteSlot, after⟩ := explained key entry held
    refine ⟨earlier, write, rest ++ (op.write journal.cache).toList, ?_, same, lamports.trans wroteLamports,
      slot.trans wroteSlot, fun other member => ?_⟩
    · rw [recorded, listed, List.append_assoc, List.cons_append]
    · rw [slot]
      rcases List.mem_append.mp member with old | new
      · exact after other old
      · exact quiet other (Option.mem_toList.mp new)

/-- What every run keeps. -/
structure Kept (cap failPinCap : ℕ) (journal : Journal) : Prop where
  cap : journal.cache.cap = cap
  failPinCap : journal.cache.failPinCap = failPinCap
  counted : journal.cache.Counted 0
  explained : ∀ key entry, journal.cache.map.lookup key = some entry → journal.Explained key entry

theorem kept_run {cap failPinCap : ℕ} {ops : List CacheOp} {journal : Journal}
    (run : Run (Journal.new cap failPinCap) Journal.step (fun _ _ op => op.Distinct) ops journal) :
    Kept cap failPinCap journal := by
  induction run with
  | start =>
    refine ⟨rfl, rfl, ⟨rfl, Nat.zero_le _⟩, fun key entry held => ?_⟩
    rw [show (Journal.new cap failPinCap).cache.map = ∅ from rfl, HashMap.lookup_empty] at held
    contradiction
  | step before distinct moves kept =>
    obtain ⟨applied, -⟩ := step_applies moves
    obtain ⟨sameCap, samePinCap⟩ := HotAccounts.caps_apply applied
    exact ⟨sameCap.trans kept.cap, samePinCap.trans kept.failPinCap,
      HotAccounts.counted_apply kept.counted distinct applied, fun key entry => explained_step kept.explained moves⟩

end Journal

namespace HotAccounts

/-- In every run the counters and the map agree, sweeps return and drop the oldest unpinned entries only, and a
held entry keeps the balance of its newest write. -/
theorem cache_invariant {cap failPinCap : ℕ} (positive : 1 ≤ cap) (fits : failPinCap < 2 ^ 64)
    {ops : List CacheOp} {journal : Journal}
    (run : Run (Journal.new cap failPinCap) Journal.step (fun _ _ op => op.Distinct) ops journal) :
    (journal.cache.pinnedCount = pinnedEntries journal.cache.map ∧ journal.cache.pinnedCount ≤ failPinCap) ∧
    (journal.cache.pinnedCount ≤ journal.cache.map.entries.length ∧
      journal.cache.hotLen = (journal.cache.map.entries.length - journal.cache.pinnedCount) % 2 ^ 64) ∧
    (∀ (op : CacheOp) next, op.apply journal.cache = some next → ∀ key entry, journal.cache.map.lookup key = some entry →
      next.map.lookup key = none →
      (∃ write, op.write journal.cache = some write ∧ write.pubkey = key ∧ write.owner = stakeProgramId) ∨
        (∃ slot, op = .sweep slot) ∧ entry.pinned = false) ∧
    (∀ slot, ∃ swept evicted, journal.cache.sweep slot = some (swept, evicted) ∧
      (∀ kept keptEntry dropped droppedEntry, swept.map.lookup kept = some keptEntry → keptEntry.pinned = false →
        journal.cache.map.lookup dropped = some droppedEntry → swept.map.lookup dropped = none →
        droppedEntry.pinned = false ∧ droppedEntry.slot ≤ keptEntry.slot) ∧
      min (hotEntries journal.cache.map) (cap - cap / 10) ≤ hotEntries swept.map) ∧
    (∀ (op : CacheOp) next, op.apply journal.cache = some next → ∀ key entry later,
      journal.cache.map.lookup key = some entry → next.map.lookup key = some later → entry.slot ≤ later.slot) ∧
    ∀ key entry, journal.cache.map.lookup key = some entry → journal.Explained key entry := by
  have kept := Journal.kept_run run
  have counts := kept.counted.counts
  have within : journal.cache.pinnedCount ≤ failPinCap := kept.failPinCap ▸ kept.counted.within
  have total := pinned_add_hot journal.cache.map
  refine ⟨⟨counts, within⟩, ⟨by omega, ?_⟩, fun op next applied key entry => apply_leaves applied, fun slot => ?_,
    fun op next applied key entry later held holds => ?_, kept.explained⟩
  · rw [hotLen_eq kept.counted (by omega)]
    congr 1
    omega
  · obtain ⟨swept, evicted, ran⟩ :=
      sweep_returns kept.counted (by rw [kept.failPinCap]; exact fits) (by rw [kept.cap]; exact positive) (by omega)
        slot
    refine ⟨swept, evicted, ran, fun _ _ _ _ holds unpinned held gone => sweep_order ran holds unpinned held gone, ?_⟩
    have survivors := sweep_survivors ran
    rwa [kept.cap] at survivors
  · rcases apply_holds applied holds with ⟨_, _, _, _, _, above⟩ | ⟨other, was, _, same, _⟩
    · exact above entry held
    · cases held.symm.trans was
      exact same.ge

/-- Three accounts and a cap of two: one is pinned, and the sweep evicts the older of the others. -/
def sweepPastAPin : List CacheOp :=
  [.applyMiss 1 10 5 0 none, .applyMiss 2 20 6 0 none, .applyMiss 3 30 7 0 (some ⟨9, 4⟩), .applyMiss 4 40 8 0 none,
    .pinFailed [1], .probe 3 31 9 0 false, .sweep 10]

theorem cache_invariant_sweepPastAPin :
    ∃ journal, Run (Journal.new 2 1) Journal.step (fun _ _ op => op.Distinct) sweepPastAPin journal ∧
      journal.cache.map.keys = [3, 1, 4] ∧
      journal.cache.pinnedCount = pinnedEntries journal.cache.map ∧ journal.cache.pinnedCount ≤ 1 := by
  have replayed : (Run.replay Journal.step (fun _ _ op => op.Distinct) [] (Journal.new 2 1) sweepPastAPin).any
      (fun journal => decide (journal.cache.map.keys = [3, 1, 4])) = true := by decide +kernel
  obtain ⟨journal, ran, keys⟩ := (Option.any_eq_true _ _).mp replayed
  have run := Run.replayed ran
  exact ⟨journal, run, of_decide_eq_true keys, (cache_invariant (by decide) (by decide) run).1⟩

end HotAccounts

end Cloudbreak.Model.Supply
