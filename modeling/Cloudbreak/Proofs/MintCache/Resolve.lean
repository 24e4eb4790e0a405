import Cloudbreak.ToMathlib.Run
import Cloudbreak.Proofs.MintCache.ChainApply

/-! # What the mint cache answers from memory

In every interleaving of the feed, the slot syncronizer and the background task, an answer from memory is the
mint's newest write at the request slot, or an immutable mint that is written later.
-/

namespace Cloudbreak.Model.MintCache

open Cloudbreak.ToMathlib
open ConfirmedChain (newest_sealed)

namespace Loader

/-- The slot of the table that a read has to cover. -/
def lastDbSlot : Loader → Option ℕ
  | .loads start _ _ _ => some start
  | .covered _ lastDbSlot => some lastDbSlot
  | _ => none

/-- The rows about to be applied to the shared store. -/
def rows : Loader → List MintRow
  | .applies _ _ rows => rows
  | _ => []

/-- A startup load, right for the keys read so far. -/
def Loads (chain : ConfirmedChain) : Loader → Prop
  | .waits => True
  | .loads start store _ after => chain.firstDbSlot ≤ start ∧ chain.LoadedTo start store after
  | .swaps start store => chain.firstDbSlot ≤ start ∧ ∀ key, chain.Told start key (store.get key)
  | .sleeps | .reloads _ | .covered _ _ | .applies _ _ _ | .prunes _ _ | .clears _ => False

/-- A reload of what changed after a slot the cache knew when it was asked for. -/
def Reloads (chain : ConfirmedChain) (known : ℕ) : Loader → Prop
  | .waits | .loads _ _ _ _ | .swaps _ _ => False
  | .reloads request => request.after ≤ known
  | .covered request lastDbSlot => request.after ≤ known ∧ chain.firstDbSlot ≤ lastDbSlot
  | .applies request lastDbSlot rows => request.after ≤ known ∧ chain.firstDbSlot ≤ lastDbSlot ∧
      ∃ table, chain.Covers lastDbSlot table ∧ rows = readAfter table request.after
  | .sleeps | .prunes _ _ | .clears _ => True

theorem Reloads.mono {chain : ConfirmedChain} {known more : ℕ} {loader : Loader} (reloads : loader.Reloads chain known)
    (grows : known ≤ more) : loader.Reloads chain more := by
  cases loader with
  | waits | loads | swaps => exact reloads.elim
  | reloads request => exact reloads.trans grows
  | covered request lastDbSlot => exact ⟨reloads.1.trans grows, reloads.2⟩
  | applies request lastDbSlot rows => exact ⟨reloads.1.trans grows, reloads.2⟩
  | sleeps | prunes | clears => trivial

end Loader

/-- The slot syncronizer's confirmed block is on the chain, and every slot it read is known. -/
def Confirming.Bounded (chain : ConfirmedChain) (known : ℕ) : Confirming → Prop
  | .idle => True
  | .read confirmed applied _ => chain.Names confirmed ∧ chain.firstDbSlot ≤ applied.slot ∧ applied.slot ≤ known
  | .decided confirmed applied healthRestoredFrom _ =>
    chain.Names confirmed ∧ chain.firstDbSlot ≤ applied.slot ∧ applied.slot ≤ known ∧
      ∀ since ∈ healthRestoredFrom, since ≤ known
  | .finishing _ todo => ∀ reload, Todo.request reload ∈ todo → reload.after ≤ known

theorem Confirming.Bounded.mono {chain : ConfirmedChain} {known more : ℕ} {confirming : Confirming}
    (bounded : confirming.Bounded chain known) (grows : known ≤ more) : confirming.Bounded chain more := by
  cases confirming with
  | idle => trivial
  | read confirmed applied healthy => exact ⟨bounded.1, bounded.2.1, bounded.2.2.trans grows⟩
  | decided confirmed applied healthRestoredFrom reloadPending =>
    exact ⟨bounded.1, bounded.2.1, bounded.2.2.1.trans grows,
      fun since isSince => (bounded.2.2.2 since isSince).trans grows⟩
  | finishing slot todo => exact fun reload member => (bounded reload member).trans grows

namespace MintApi

variable {chain : ConfirmedChain} {api next : MintApi} {known : ℕ} {event : ApiEvent} {events : List ApiEvent}

/-- What the feed, the notifications and the table bring: blocks of the chain under their hashes, confirmed slots
of the chain with the blockhash, and a table complete through the slot read before it. -/
def Genuine (chain : ConfirmedChain) (api : MintApi) : ApiEvent → Prop
  | .onBlock block => chain.Matches block.slot block.block
  | .confirmed slot blockhash _ => blockhash.isSome ∧ chain.Names ⟨slot, blockhash.getD ""⟩
  | .readLastDbSlot lastDbSlot => ∀ slot ∈ lastDbSlot, chain.firstDbSlot ≤ slot
  | .readsPage table | .readsRows table => ∀ slot ∈ api.loader.lastDbSlot, chain.Covers slot table
  | .decides | .chains | .finishes | .loaderActs | .loaderFails => True

/-- No row of a reload repeats the version the store has, with another one in between. -/
def NoRepeats (chain : ConfirmedChain) (api : MintApi) : ApiEvent → Prop
  | .loaderActs => ∀ row ∈ api.loader.rows, ∀ version ∈ (api.state.store.get row.pubkey).version,
      version.2 = row.change → chain.Lasts row.pubkey version.1 row.slot version.2
  | _ => True

instance (chain : ConfirmedChain) (api : MintApi) : DecidablePred (api.Genuine chain)
  | .onBlock block => inferInstanceAs (Decidable (chain.Matches block.slot block.block))
  | .confirmed slot blockhash _ =>
    inferInstanceAs (Decidable (blockhash.isSome ∧ chain.Names ⟨slot, blockhash.getD ""⟩))
  | .readLastDbSlot lastDbSlot => inferInstanceAs (Decidable (∀ slot ∈ lastDbSlot, chain.firstDbSlot ≤ slot))
  | .readsPage table | .readsRows table =>
    inferInstanceAs (Decidable (∀ slot ∈ api.loader.lastDbSlot, chain.Covers slot table))
  | .decides | .chains | .finishes | .loaderActs | .loaderFails => inferInstanceAs (Decidable True)

instance (chain : ConfirmedChain) (api : MintApi) : DecidablePred (api.NoRepeats chain)
  | .loaderActs => inferInstanceAs (Decidable (∀ row ∈ api.loader.rows,
      ∀ version ∈ (api.state.store.get row.pubkey).version,
        version.2 = row.change → chain.Lasts row.pubkey version.1 row.slot version.2))
  | .onBlock _ | .confirmed _ _ _ | .decides | .chains | .finishes | .readLastDbSlot _ | .readsPage _ | .readsRows _
  | .loaderFails => inferInstanceAs (Decidable True)

/-- Before the cache is live nothing but the load goes on. -/
structure Startup (chain : ConfirmedChain) (api : MintApi) : Prop where
  loading : api.state.status = .loading
  pending : api.pending = none
  unhealthy : api.unhealthySince = none
  confirming : api.confirming = .idle ∨ ∃ slot, api.confirming = .finishing slot []
  loader : api.loader.Loads chain

/-- A live cache that knows the chain through a slot. -/
structure Current (chain : ConfirmedChain) (known : ℕ) (api : MintApi) : Prop where
  live : api.state.status = .live
  first : chain.firstDbSlot ≤ api.state.applied.slot
  applied : api.state.applied.slot ≤ known
  told : ∀ key, chain.Told known key (api.state.store.get key)
  pending : ∀ request ∈ api.pending, request.after ≤ known
  unhealthy : ∀ since ∈ api.unhealthySince, since ≤ known
  confirming : api.confirming.Bounded chain known
  loader : api.loader.Reloads chain known

structure Sound (chain : ConfirmedChain) (api : MintApi) : Prop where
  buffered : api.buffer.Faithful chain
  state : api.Startup chain ∨ ∃ known, api.Current chain known

theorem sound_start (chain : ConfirmedChain) : start.Sound chain where
  buffered := SlotBlocks.all_empty
  state := Or.inl ⟨rfl, rfl, rfl, Or.inl rfl, trivial⟩

/-- Events of the slot syncronizer. -/
theorem Sound.confirmed (sound : api.Sound chain) {slot : ℕ} {blockhash : Option String} {healthy : Bool}
    (names : chain.Names ⟨slot, blockhash.getD ""⟩) : (api.confirmed slot blockhash healthy).Sound chain := by
  refine ⟨sound.buffered, ?_⟩
  rcases sound.state with startup | ⟨known, current⟩
  · exact Or.inl ⟨startup.loading, startup.pending, startup.unhealthy, Or.inr ⟨slot, if_pos startup.loading⟩,
      startup.loader⟩
  · refine Or.inr ⟨known, current.live, current.first, current.applied, current.told, current.pending,
      current.unhealthy, ?_, current.loader⟩
    have notLoading : api.state.status ≠ .loading := by
      rw [current.live]
      exact Status.noConfusion
    rw [MintApi.confirmed, if_neg notLoading]
    exact ⟨names, current.first, current.applied⟩

theorem Sound.decides (sound : api.Sound chain) {confirmed applied : Applied} {healthy : Bool}
    (reads : api.confirming = .read confirmed applied healthy) : (api.decides confirmed applied healthy).Sound chain := by
  refine ⟨sound.buffered, ?_⟩
  rcases sound.state with startup | ⟨known, current⟩
  · rcases startup.confirming with idle | ⟨slot, finishing⟩
    · rw [idle] at reads
      contradiction
    · rw [finishing] at reads
      contradiction
  · have bounded := current.confirming
    rw [reads] at bounded
    obtain ⟨names, first, low⟩ := bounded
    have unhealthy : ∀ since ∈ api.unhealthySince, since ≤ known := current.unhealthy
    refine Or.inr ⟨known, current.live, current.first, current.applied, current.told, current.pending, ?_,
      ⟨names, first, low, ?_⟩, current.loader⟩
    · intro since isSince
      change since ∈ (if healthy then none else some (api.unhealthySince.getD applied.slot)) at isSince
      cases healthy with
      | true => contradiction
      | false =>
        cases Option.mem_some_iff.mp isSince
        cases isUnhealthy : api.unhealthySince with
        | none => exact low
        | some since => exact unhealthy since isUnhealthy
    · intro since isSince
      cases healthy with
      | true => exact unhealthy since isSince
      | false => contradiction

theorem Sound.chains (sound : api.Sound chain) {confirmed applied : Applied} {healthRestoredFrom : Option ℕ}
    {reloadPending : Bool} (decided : api.confirming = .decided confirmed applied healthRestoredFrom reloadPending) :
    (api.chains confirmed applied healthRestoredFrom reloadPending).Sound chain := by
  rcases sound.state with startup | ⟨known, current⟩
  · rcases startup.confirming with idle | ⟨slot, finishing⟩
    · rw [idle] at decided
      contradiction
    · rw [finishing] at decided
      contradiction
  · have bounded := current.confirming
    rw [decided] at bounded
    obtain ⟨names, first, low, restoredFrom⟩ := bounded
    have restored : ∀ reload, Todo.request reload ∈ (healthRestoredFrom.map fun since =>
        Todo.request ⟨since, confirmed.slot, .healthRestored⟩).toList → reload.after ≤ known := by
      intro reload member
      obtain ⟨since, isSince, same⟩ := Option.map_eq_some_iff.mp (Option.mem_toList.mp member)
      cases same
      exact restoredFrom since isSince
    rw [MintApi.chains]
    split
    · next goes =>
      split
      · next blocks walked =>
        have told := Buffer.told_walk sound.buffered first low current.told names walked
        refine ⟨sound.buffered.removeAll _, Or.inr ⟨max known confirmed.slot, current.live, ?_, le_max_right _ _, told,
          ?_, ?_, ?_, current.loader.mono (le_max_left _ _)⟩⟩
        · exact (first.trans_lt goes.1).le
        · exact fun request isPending => (current.pending request isPending).trans (le_max_left _ _)
        · exact fun since isSince => (current.unhealthy since isSince).trans (le_max_left _ _)
        · intro reload member
          rcases List.mem_cons.mp member with isPrune | inRest
          · contradiction
          · exact (restored reload inRest).trans (le_max_left _ _)
      · refine ⟨sound.buffered, Or.inr ⟨known, current.live, current.first, current.applied, current.told,
          current.pending, current.unhealthy, ?_, current.loader⟩⟩
        intro reload member
        rcases List.mem_cons.mp member with isMissing | inRest
        · cases isMissing
          exact low
        · exact restored reload inRest
    · exact ⟨sound.buffered, Or.inr ⟨known, current.live, current.first, current.applied, current.told,
        current.pending, current.unhealthy, restored, current.loader⟩⟩

theorem Sound.does (sound : api.Sound chain) {slot : ℕ} {todo : Todo} {rest : List Todo}
    (finishing : api.confirming = .finishing slot (todo :: rest)) :
    Sound chain { api.does todo with confirming := .finishing slot rest } := by
  have buffered : (api.does todo).buffer.Faithful chain := by
    cases todo with
    | prune slot => exact SlotBlocks.All.prune sound.buffered slot
    | request reload => exact sound.buffered
  refine ⟨buffered, ?_⟩
  rcases sound.state with startup | ⟨known, current⟩
  · rcases startup.confirming with idle | ⟨slot, done⟩
    · rw [idle] at finishing
      contradiction
    · rw [done] at finishing
      simp at finishing
  · have bounded := current.confirming
    rw [finishing] at bounded
    have boundedRest : ∀ reload, Todo.request reload ∈ rest → reload.after ≤ known := fun reload member =>
      bounded reload (List.mem_cons_of_mem _ member)
    refine Or.inr ⟨known, ?_⟩
    cases todo with
    | prune slot =>
      exact ⟨current.live, current.first, current.applied, current.told, current.pending, current.unhealthy,
        boundedRest, current.loader⟩
    | request reload =>
      refine ⟨current.live, current.first, current.applied, current.told, ?_, current.unhealthy, boundedRest,
        current.loader⟩
      have low := bounded reload (List.mem_cons_self ..)
      intro request isPending
      cases Option.mem_some_iff.mp isPending
      split
      · exact (min_le_right _ _).trans low
      · exact low

/-- The background task moves on without touching what is shared. -/
theorem Sound.withLoader (sound : api.Sound chain) {loader : Loader} (loads : api.loader.Loads chain → loader.Loads chain)
    (reloads : ∀ known, api.loader.Reloads chain known → api.Current chain known → loader.Reloads chain known) :
    Sound chain { api with loader } := by
  refine ⟨sound.buffered, ?_⟩
  rcases sound.state with startup | ⟨known, current⟩
  · exact Or.inl ⟨startup.loading, startup.pending, startup.unhealthy, startup.confirming, loads startup.loader⟩
  · exact Or.inr ⟨known, current.live, current.first, current.applied, current.told, current.pending,
      current.unhealthy, current.confirming, reloads known current.loader current⟩

theorem Sound.readLastDbSlot (sound : api.Sound chain) {lastDbSlot : Option ℕ}
    (genuine : ∀ slot ∈ lastDbSlot, chain.firstDbSlot ≤ slot) (moves : api.readLastDbSlot lastDbSlot = some next) :
    next.Sound chain := by
  unfold MintApi.readLastDbSlot at moves
  split at moves
  · next slot isWaiting =>
    cases moves
    refine sound.withLoader (fun _ => ⟨genuine slot rfl, ConfirmedChain.loadedTo_start chain slot⟩) fun known reloads _ => ?_
    rw [isWaiting] at reloads
    exact reloads.elim
  · cases moves
    exact sound
  · next request slot isReloading =>
    cases moves
    refine sound.withLoader (fun loads => ?_) fun known reloads _ => ?_
    · rw [isReloading] at loads
      exact loads.elim
    · rw [isReloading] at reloads
      split
      · exact ⟨reloads, genuine slot rfl⟩
      · trivial
  · next request isReloading =>
    cases moves
    refine sound.withLoader (fun loads => ?_) fun known reloads _ => trivial
    rw [isReloading] at loads
    exact loads.elim
  · contradiction

theorem Sound.readsPage (sound : api.Sound chain) {table : HashMap Pubkey MintRow}
    (genuine : ∀ slot ∈ api.loader.lastDbSlot, chain.Covers slot table) (moves : api.readsPage table = some next) :
    next.Sound chain := by
  rw [MintApi.readsPage] at moves
  split at moves
  · next start store rows after isLoading =>
    cases moves
    rw [isLoading] at genuine
    have covers := genuine start rfl
    refine sound.withLoader (fun loads => ?_) fun known reloads _ => ?_
    · rw [isLoading] at loads
      obtain ⟨first, loaded⟩ := loads
      split
      · next last isLast => exact ⟨first, loaded.page covers isLast⟩
      · next isEmpty =>
        split
        · trivial
        · exact ⟨first, loaded.end_ covers isEmpty⟩
    · rw [isLoading] at reloads
      exact reloads.elim
  · contradiction

theorem Sound.readsRows (sound : api.Sound chain) {table : HashMap Pubkey MintRow} {request : Reload} {lastDbSlot : ℕ}
    (isCovered : api.loader = .covered request lastDbSlot) (covers : chain.Covers lastDbSlot table) :
    Sound chain { api with loader := .applies request lastDbSlot (readAfter table request.after) } := by
  refine sound.withLoader (fun loads => ?_) fun known reloads _ => ?_
  · rw [isCovered] at loads
    exact loads.elim
  · rw [isCovered] at reloads
    exact ⟨reloads.1, reloads.2, table, covers, rfl⟩

/-- A reload makes the cache current through the slot that the table was complete through. -/
theorem Sound.applies (sound : api.Sound chain) {request : Reload} {lastDbSlot : ℕ} {rows : List MintRow}
    (isApplying : api.loader = .applies request lastDbSlot rows) (noRepeats : api.NoRepeats chain .loaderActs) :
    (api.applies request lastDbSlot rows).Sound chain := by
  refine ⟨sound.buffered, ?_⟩
  rcases sound.state with startup | ⟨known, current⟩
  · have loads := startup.loader
    rw [isApplying] at loads
    exact loads.elim
  · have reloads := current.loader
    rw [isApplying] at reloads
    obtain ⟨old, firstLast, table, covers, rfl⟩ := reloads
    have known_ := current.first.trans current.applied
    rw [NoRepeats, isApplying] at noRepeats
    have told := ConfirmedChain.told_applyRows current.told known_ firstLast covers old noRepeats
    have grows := le_max_left known lastDbSlot
    refine Or.inr ⟨max known lastDbSlot, current.live, ?_, ?_, told,
      fun request isPending => (current.pending request isPending).trans grows,
      fun since isSince => (current.unhealthy since isSince).trans grows, current.confirming.mono grows, trivial⟩
    · rw [MintApi.applies]
      dsimp only
      split
      · exact firstLast
      · exact current.first
    · rw [MintApi.applies]
      dsimp only
      split
      · exact le_max_right _ _
      · exact current.applied.trans grows

theorem Sound.loaderActs (sound : api.Sound chain) (noRepeats : api.NoRepeats chain .loaderActs)
    (moves : api.loaderActs = some next) : next.Sound chain := by
  rw [MintApi.loaderActs] at moves
  split at moves
  · next start store isSwapping =>
    cases moves
    refine ⟨sound.buffered, ?_⟩
    rcases sound.state with startup | ⟨known, current⟩
    · have loads := startup.loader
      rw [isSwapping] at loads
      refine Or.inr ⟨start, rfl, loads.1, le_rfl, loads.2, ?_, ?_, ?_, trivial⟩
      · intro request isPending
        change request ∈ api.pending at isPending
        rw [startup.pending] at isPending
        contradiction
      · intro since isSince
        change since ∈ api.unhealthySince at isSince
        rw [startup.unhealthy] at isSince
        contradiction
      · change api.confirming.Bounded chain start
        rcases startup.confirming with idle | ⟨slot, finishing⟩
        · rw [idle]
          trivial
        · rw [finishing]
          exact fun reload member => absurd member List.not_mem_nil
    · have reloads := current.loader
      rw [isSwapping] at reloads
      exact reloads.elim
  · next isSleeping =>
    obtain ⟨request, isPending, rfl⟩ := Option.map_eq_some_iff.mp moves
    refine sound.withLoader (fun loads => ?_) fun known _ current => current.pending request isPending
    rw [isSleeping] at loads
    exact loads.elim
  · next request lastDbSlot rows isApplying =>
    cases moves
    exact sound.applies isApplying noRepeats
  · next slot request isPruning =>
    cases moves
    have pruned : Sound chain { api with buffer := api.buffer.prune slot } := by
      refine ⟨SlotBlocks.All.prune sound.buffered slot, ?_⟩
      rcases sound.state with startup | ⟨known, current⟩
      · exact Or.inl ⟨startup.loading, startup.pending, startup.unhealthy, startup.confirming, startup.loader⟩
      · exact Or.inr ⟨known, current.live, current.first, current.applied, current.told, current.pending,
          current.unhealthy, current.confirming, current.loader⟩
    refine pruned.withLoader (fun loads => ?_) fun known _ _ => ?_
    · change api.loader.Loads chain at loads
      rw [isPruning] at loads
      exact loads.elim
    · cases request <;> trivial
  · next request isClearing =>
    cases moves
    refine ⟨sound.buffered, ?_⟩
    rcases sound.state with startup | ⟨known, current⟩
    · have loads := startup.loader
      rw [isClearing] at loads
      exact loads.elim
    · refine Or.inr ⟨known, current.live, current.first, current.applied, current.told, ?_, current.unhealthy,
        current.confirming, trivial⟩
      intro other isPending
      change other ∈ (if api.pending = some request then none else api.pending) at isPending
      split at isPending
      · contradiction
      · exact current.pending other isPending
  all_goals contradiction

theorem Sound.loaderFails (sound : api.Sound chain) (moves : api.loaderFails = some next) : next.Sound chain := by
  rw [MintApi.loaderFails] at moves
  split at moves
  · next isLoading =>
    cases moves
    refine sound.withLoader (fun _ => trivial) fun known reloads _ => ?_
    rw [isLoading] at reloads
    exact reloads.elim
  · next isReloading =>
    cases moves
    refine sound.withLoader (fun loads => ?_) fun _ _ _ => trivial
    rw [isReloading] at loads
    exact loads.elim
  · next isCovered =>
    cases moves
    refine sound.withLoader (fun loads => ?_) fun _ _ _ => trivial
    rw [isCovered] at loads
    exact loads.elim
  all_goals contradiction

theorem Sound.step (sound : api.Sound chain) (genuine : api.Genuine chain event) (noRepeats : api.NoRepeats chain event)
    (moves : api.step event = some next) : next.Sound chain := by
  cases event with
  | onBlock block =>
    cases moves
    refine ⟨sound.buffered.onBlock block.older genuine, ?_⟩
    rcases sound.state with startup | ⟨known, current⟩
    · exact Or.inl ⟨startup.loading, startup.pending, startup.unhealthy, startup.confirming, startup.loader⟩
    · exact Or.inr ⟨known, current.live, current.first, current.applied, current.told, current.pending,
        current.unhealthy, current.confirming, current.loader⟩
  | confirmed slot blockhash healthy =>
    rw [MintApi.step] at moves
    split at moves
    · cases moves
      exact sound.confirmed genuine.2
    · contradiction
  | decides =>
    rw [MintApi.step] at moves
    split at moves
    · next confirmed applied healthy reads =>
      cases moves
      exact sound.decides reads
    · contradiction
  | chains =>
    rw [MintApi.step] at moves
    split at moves
    · next decided =>
      cases moves
      exact sound.chains decided
    · contradiction
  | finishes =>
    rw [MintApi.step] at moves
    split at moves
    · next finishing =>
      cases moves
      exact sound.does finishing
    · next slot finishing =>
      cases moves
      refine ⟨sound.buffered, ?_⟩
      rcases sound.state with startup | ⟨known, current⟩
      · exact Or.inl ⟨startup.loading, startup.pending, startup.unhealthy, Or.inl rfl, startup.loader⟩
      · exact Or.inr ⟨known, current.live, current.first, current.applied, current.told, current.pending,
          current.unhealthy, trivial, current.loader⟩
    · contradiction
  | readLastDbSlot lastDbSlot => exact sound.readLastDbSlot genuine moves
  | readsPage table => exact sound.readsPage genuine moves
  | readsRows table =>
    rw [MintApi.step] at moves
    split at moves
    · next request lastDbSlot isCovered =>
      cases moves
      rw [Genuine, isCovered] at genuine
      exact sound.readsRows isCovered (genuine lastDbSlot rfl)
    · contradiction
  | loaderActs => exact sound.loaderActs noRepeats moves
  | loaderFails => exact sound.loaderFails moves

/-- An answer from memory is the newest write at the request slot, or an immutable mint written later. -/
theorem Sound.lookupOne (sound : api.Sound chain) (key : Pubkey) (requestSlot : ℕ) :
    (∀ state, lookupOne api.state key requestSlot = .found state →
      chain.newest key requestSlot = some (.live state) ∨
        state.immutable = true ∧ ∃ later, requestSlot < later ∧ chain.newest key later = some (.live state)) ∧
    (lookupOne api.state key requestSlot = .closed → chain.newest key requestSlot = some .closed) := by
  rcases sound.state with startup | ⟨known, current⟩
  · have isLoading : MintCache.lookupOne api.state key requestSlot = .postgres .loading := if_pos startup.loading
    rw [isLoading]
    exact ⟨fun state found => MintLookup.noConfusion found, fun closed => MintLookup.noConfusion closed⟩
  · have told := current.told key
    have low := current.applied
    have notLoading : api.state.status ≠ .loading := by
      rw [current.live]
      exact Status.noConfusion
    rw [MintCache.lookupOne, if_neg notLoading]
    cases held : api.state.store.get key with
    | immutable decimals =>
      rw [held] at told
      obtain ⟨slot, state, immutable, rfl, isNewest⟩ := told
      refine ⟨fun answer found => ?_, fun closed => MintLookup.noConfusion closed⟩
      obtain rfl : MintState.ofDecimals state.decimals = answer := MintLookup.found.inj found
      rw [MintState.ofDecimals_decimals immutable]
      by_cases late : requestSlot < slot
      · exact Or.inr ⟨immutable, slot, late, isNewest⟩
      · exact Or.inl (newest_sealed isNewest immutable (Nat.le_of_not_lt late))
    | mutable entry =>
      rw [held] at told
      dsimp only
      split
      · exact ⟨fun state found => MintLookup.noConfusion found, fun closed => MintLookup.noConfusion closed⟩
      · split
        · exact ⟨fun state found => MintLookup.noConfusion found, fun closed => MintLookup.noConfusion closed⟩
        · refine ⟨fun state found => Or.inl ?_, fun closed => MintLookup.noConfusion closed⟩
          cases found
          exact told requestSlot (by omega) (by omega)
    | tombstone closedAt =>
      rw [held] at told
      dsimp only
      split
      · exact ⟨fun state found => MintLookup.noConfusion found, fun closed => MintLookup.noConfusion closed⟩
      · split
        · exact ⟨fun state found => MintLookup.noConfusion found, fun closed => MintLookup.noConfusion closed⟩
        · exact ⟨fun state found => MintLookup.noConfusion found, fun _ => told requestSlot (by omega) (by omega)⟩
    | missing =>
      dsimp only
      split <;> exact ⟨fun state found => MintLookup.noConfusion found, fun closed => MintLookup.noConfusion closed⟩

end MintApi

section Resolve

variable {state : CacheState} {requestSlot : ℕ} {key : Pubkey}

/-- The state that an answer puts in. -/
def MintLookup.state? : MintLookup → Option MintState
  | .found state => some state
  | .closed | .postgres _ => none

private theorem lookup_foldl_resolveOne (keys : List Pubkey) (answers : HashMap Pubkey MintState × List Pubkey) :
    (keys.foldl (resolveOne state requestSlot) answers).1.lookup key =
      if key ∈ keys then (lookupOne state key requestSlot).state?.or (answers.1.lookup key)
      else answers.1.lookup key := by
  induction keys generalizing answers with
  | nil => rfl
  | cons first rest ih =>
    rw [List.foldl_cons, ih]
    by_cases same : key = first
    · subst same
      rw [if_pos (List.mem_cons_self ..), resolveOne]
      cases lookupOne state key requestSlot <;> simp [MintLookup.state?]
    · have kept : (resolveOne state requestSlot answers first).1.lookup key = answers.1.lookup key := by
        rw [resolveOne]
        split
        · exact (HashMap.lookup_insert _ _ _ _).trans (if_neg same)
        · rfl
        · rfl
      simp only [kept, List.mem_cons, same, false_or]

private theorem mem_foldl_resolveOne (keys : List Pubkey) (answers : HashMap Pubkey MintState × List Pubkey) :
    key ∈ (keys.foldl (resolveOne state requestSlot) answers).2 ↔
      key ∈ answers.2 ∨ key ∈ keys ∧ ∃ reason, lookupOne state key requestSlot = .postgres reason := by
  induction keys generalizing answers with
  | nil => simp
  | cons first rest ih =>
    rw [List.foldl_cons, ih]
    have step : key ∈ (resolveOne state requestSlot answers first).2 ↔
        key ∈ answers.2 ∨ key = first ∧ ∃ reason, lookupOne state key requestSlot = .postgres reason := by
      have kept : (∀ reason, lookupOne state first requestSlot ≠ .postgres reason) → (key ∈ answers.2 ↔
          key ∈ answers.2 ∨ key = first ∧ ∃ reason, lookupOne state key requestSlot = .postgres reason) := by
        intro memory
        refine ⟨Or.inl, fun either => either.elim id ?_⟩
        rintro ⟨rfl, reason, postgres⟩
        exact absurd postgres (memory reason)
      rw [resolveOne]
      split
      · next found => exact kept fun reason => by simp [found]
      · next closed => exact kept fun reason => by simp [closed]
      · next reason postgres =>
        rw [List.mem_append, List.mem_singleton]
        refine or_congr_right ⟨fun same => ⟨same, reason, same ▸ postgres⟩, And.left⟩
    rw [step, List.mem_cons]
    tauto

end Resolve

namespace MintApi

/-- A key that is not sent to Postgres is answered with its newest write at the request slot, or with the
immutable mint that its address became later. -/
theorem memory_answers_newest {chain : ConfirmedChain} {events : List ApiEvent} {api : MintApi}
    (run : Run start step (fun _ api event => api.Genuine chain event ∧ api.NoRepeats chain event) events api)
    {keys : List Pubkey} {found : HashMap Pubkey MintState} {key : Pubkey} (requestSlot : ℕ) (asked : key ∈ keys)
    (fresh : found.lookup key = none) :
    key ∈ (resolve api.state keys requestSlot found).2 ∨
    (∃ state, (resolve api.state keys requestSlot found).1.lookup key = some state ∧
      (chain.newest key requestSlot = some (.live state) ∨
        state.immutable = true ∧ ∃ later, requestSlot < later ∧ chain.newest key later = some (.live state))) ∨
    (resolve api.state keys requestSlot found).1.lookup key = none ∧ chain.newest key requestSlot = some .closed := by
  have sound : api.Sound chain := Run.stateInvariant (sound_start chain)
    (fun _ _ _ _ sound guard moves => sound.step guard.1 guard.2 moves) run
  obtain ⟨isFound, isClosed⟩ := sound.lookupOne key requestSlot
  have stored : (resolve api.state keys requestSlot found).1.lookup key =
      (lookupOne api.state key requestSlot).state? := by
    rw [resolve, lookup_foldl_resolveOne, if_pos asked, fresh, Option.or_none]
  cases answer : lookupOne api.state key requestSlot with
  | found state =>
    rw [answer] at stored
    exact Or.inr (Or.inl ⟨state, stored, isFound state answer⟩)
  | closed =>
    rw [answer] at stored
    exact Or.inr (Or.inr ⟨stored, isClosed answer⟩)
  | postgres reason =>
    left
    rw [resolve, mem_foldl_resolveOne]
    exact Or.inr ⟨asked, reason, answer⟩

section Examples

/-- A mint that can be closed, and one that cannot change. -/
private def mutableState : MintState := ⟨6, none, false, MintState.plain_none false⟩

private def immutableState : MintState := ⟨6, none, true, MintState.plain_none true⟩

/-- Mint 7 is live at 10, closed at 20, and immutable from 30 on. -/
private def closedBetween : ConfirmedChain where
  blocks := [⟨10, "h10", 9, "h9"⟩, ⟨20, "h20", 10, "h10"⟩, ⟨30, "h30", 20, "h20"⟩]
  linked := by decide +kernel
  hashed := by decide +kernel
  rooted := by decide +kernel
  writes := [⟨7, 10, .live mutableState⟩, ⟨7, 20, .closed⟩, ⟨7, 30, .live immutableState⟩]
  firstDbSlot := 10
  reaches := by decide +kernel
  onChain := by decide +kernel
  sealed := by decide +kernel
  sealedWithin := by decide +kernel
  systemNotMint := by decide +kernel

private def tableWith (row : MintRow) : HashMap Pubkey MintRow := (∅ : HashMap Pubkey MintRow).insert row.pubkey row

/-- The load at a slot, up to the live cache. -/
private def loading (slot : ℕ) (row : MintRow) : List ApiEvent :=
  [.readLastDbSlot (some slot), .readsPage (tableWith row), .readsPage (tableWith row), .loaderActs, .loaderActs]

private def following (slot : ℕ) (blockhash : String) : List ApiEvent :=
  [.confirmed slot (some blockhash) true, .decides, .chains]

theorem memory_answers_newest_closed :
    ∃ events api, Run start step (fun _ api event => api.Genuine closedBetween event ∧ api.NoRepeats closedBetween event)
      events api ∧ (resolve api.state [7] 20 ∅).2 = [] ∧ (resolve api.state [7] 20 ∅).1.lookup 7 = none ∧
      closedBetween.newest 7 20 = some .closed := by
  have replayed : (Run.replay step
      (fun _ api event => api.Genuine closedBetween event ∧ api.NoRepeats closedBetween event) [] start
      (loading 10 ⟨7, 10, some mutableState⟩ ++ [.onBlock ⟨20, ⟨"h20", 10, "h10", [(7, .closed)]⟩, by decide⟩] ++
        following 20 "h20")).any
      (fun api => decide ((resolve api.state [7] 20 ∅).2 = [] ∧
        (resolve api.state [7] 20 ∅).1.lookup 7 = none)) = true := by
    decide +kernel
  obtain ⟨api, ran, holds⟩ := (Option.any_eq_true _ _).mp replayed
  obtain ⟨noPostgres, isClosed⟩ := of_decide_eq_true holds
  have run := Run.replayed ran
  refine ⟨_, api, run, noPostgres, isClosed, ?_⟩
  rcases memory_answers_newest run 20 (List.mem_singleton_self 7) (HashMap.lookup_empty 7) with
    postgres | ⟨state, isFound, _⟩ | ⟨_, closed⟩
  · rw [noPostgres] at postgres
    contradiction
  · rw [isClosed] at isFound
    contradiction
  · exact closed

/-- A request at slot 20 finds the immutable mint of slot 30, where the mint is closed. -/
theorem immutable_mint_answers_from_the_future :
    ¬∀ (chain : ConfirmedChain) (events : List ApiEvent) (api : MintApi),
      Run start step (fun _ api event => api.Genuine chain event) events api →
      ∀ key requestSlot, requestSlot ≤ api.published →
        (∀ state, lookupOne api.state key requestSlot = .found state →
          chain.newest key requestSlot = some (.live state)) ∧
        (lookupOne api.state key requestSlot = .closed → chain.newest key requestSlot = some .closed) := by
  intro claim
  have replayed : (Run.replay step (fun _ api event => api.Genuine closedBetween event) [] start
      (loading 30 ⟨7, 30, some immutableState⟩ ++ following 30 "h30" ++ [.finishes])).any
      (fun api => decide (20 ≤ api.published ∧ lookupOne api.state 7 20 = .found immutableState)) = true := by
    decide +kernel
  obtain ⟨api, ran, holds⟩ := (Option.any_eq_true _ _).mp replayed
  obtain ⟨published, isFound⟩ := of_decide_eq_true holds
  have answered := (claim closedBetween _ api (Run.replayed ran) 7 20 published).1 _ isFound
  have isClosed : closedBetween.newest 7 20 = some .closed := by decide +kernel
  rw [isClosed] at answered
  contradiction

end Examples

end MintApi

end Cloudbreak.Model.MintCache
