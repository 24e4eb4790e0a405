import Cloudbreak.Model.MintCache.Db
import Cloudbreak.Proofs.Filters.PatternId
import Cloudbreak.Proofs.MintCache.TableReads
import Cloudbreak.ToMathlib.Run

/-! # A store and its rows

The rows of a store go through the columns of the table and back unchanged, except for what a slot loses outside
the `u64` range. Loaded into an empty store, each of them leaves under its key what the store has there: an
immutable mint needs no slot, a mutable one and a tombstone keep theirs.
-/

namespace Cloudbreak.Model.MintCache

open Cloudbreak.ToMathlib
open Filters (toI64 toU64 toU64_toI64 pubkeyTryFrom_programBytes)

variable {sizes : PodSizes} {state : MintState} {store : MintStore}

/-! ## Columns -/

/-- The columns of one row. -/
def PgRow.ofRow (row : MintRow) : PgRow where
  pubkey := Filters.IndexIdentity.programBytes row.pubkey
  slot := toI64 (Fin.ofNat (2 ^ 64) row.slot)
  decimals := row.state.map fun state => (state.decimals.toNat : ℤ)
  mutable := row.mutable
  closed := row.state.isNone
  interestBearingConfig := row.configs.1
  scaledUiAmountConfig := row.configs.2

theorem Columns.of_eq (rows : List MintRow) :
    Columns.of rows =
      ⟨rows.map fun row => (PgRow.ofRow row).pubkey, rows.map fun row => (PgRow.ofRow row).slot,
        rows.map fun row => (PgRow.ofRow row).decimals, rows.map fun row => (PgRow.ofRow row).mutable,
        rows.map fun row => (PgRow.ofRow row).closed, rows.map fun row => (PgRow.ofRow row).interestBearingConfig,
        rows.map fun row => (PgRow.ofRow row).scaledUiAmountConfig⟩ := by
  induction rows using List.reverseRecOn with
  | nil => rfl
  | append_singleton rows row ih =>
    rw [Columns.of, List.foldl_append, List.foldl_cons, List.foldl_nil]
    rw [Columns.of] at ih
    rw [ih, push]
    simp only [List.map_append, List.map_cons, List.map_nil, PgRow.ofRow]

/-- The arrays give back the columns of every row. -/
theorem Columns.unnest_of (rows : List MintRow) : (Columns.of rows).unnest = rows.map PgRow.ofRow := by
  rw [Columns.of_eq, Columns.unnest]
  simp only [List.zip_map', List.map_map]
  rfl

/-! ## States -/

/-- The configs that are there have the sizes of their structures, and a state without any has no pair of them. -/
structure MintState.Encodable (sizes : PodSizes) (state : MintState) : Prop where
  interestBearing : ∀ configs ∈ state.configs, ∀ bytes ∈ configs.interestBearing,
    bytes.length = sizes.interestBearing
  scaledUiAmount : ∀ configs ∈ state.configs, ∀ bytes ∈ configs.scaledUiAmount,
    bytes.length = sizes.scaledUiAmount
  filled : ∀ configs ∈ state.configs, configs.interestBearing.isSome ∨ configs.scaledUiAmount.isSome

private theorem encodable_ofDecimals (decimals : UInt8) : (MintState.ofDecimals decimals).Encodable sizes where
  interestBearing := fun _ held => by cases held
  scaledUiAmount := fun _ held => by cases held
  filled := fun _ held => by cases held

private theorem bind_readPod {size : ℕ} {config : Option (List UInt8)} (fits : ∀ bytes ∈ config, bytes.length = size) :
    config.bind (readPod size) = config := by
  cases config with
  | none => rfl
  | some bytes => exact if_pos (fits bytes rfl)

private theorem ofNat_emod_decimals (decimals : UInt8) :
    UInt8.ofNat (((decimals.toNat : ℤ) % 2 ^ 8).toNat) = decimals := by
  have bound := decimals.toNat_lt
  have kept : ((decimals.toNat : ℤ) % 2 ^ 8).toNat = decimals.toNat := by omega
  rw [kept, UInt8.ofNat_toNat]

/-- A state comes back from its columns. -/
theorem MintState.ofColumns_configs (encodable : state.Encodable sizes) :
    MintState.ofColumns state.decimals.toNat
        ((state.configs.bind MintConfigs.interestBearing).bind (readPod sizes.interestBearing))
        ((state.configs.bind MintConfigs.scaledUiAmount).bind (readPod sizes.scaledUiAmount)) (!state.immutable) =
      state := by
  obtain ⟨decimals, configs, immutable, plain⟩ := state
  rw [bind_readPod fun bytes held => ?interest, bind_readPod fun bytes held => ?scaled]
  case interest =>
    obtain ⟨pair, present, found⟩ := Option.bind_eq_some_iff.mp held
    exact encodable.interestBearing pair present bytes found
  case scaled =>
    obtain ⟨pair, present, found⟩ := Option.bind_eq_some_iff.mp held
    exact encodable.scaledUiAmount pair present bytes found
  rw [MintState.mk.injEq]
  refine ⟨ofNat_emod_decimals decimals, ?_, Bool.not_not immutable⟩
  cases configs with
  | none => exact if_neg (by simp)
  | some pair =>
    have unsealed : immutable = false := by
      rw [← Bool.not_eq_true]
      exact fun sealed => by cases plain sealed
    have present : (pair.interestBearing.isSome || pair.scaledUiAmount.isSome) = true :=
      Bool.or_eq_true_iff.mpr (encodable.filled pair rfl)
    exact if_pos (Bool.and_eq_true_iff.mpr ⟨(Bool.not_eq_true' _).mpr unsealed, present⟩)

/-- A row comes back from its columns, its slot within the `u64` range. -/
theorem fromPgRow_ofRow {row : MintRow} (encodable : ∀ state ∈ row.state, state.Encodable sizes) :
    MintRow.fromPgRow sizes (PgRow.ofRow row) = some { row with slot := row.slot % 2 ^ 64 } := by
  obtain ⟨pubkey, slot, state⟩ := row
  rw [MintRow.fromPgRow, PgRow.ofRow, pubkeyTryFrom_programBytes, toU64_toI64]
  refine congrArg some ((MintRow.mk.injEq ..).mpr ⟨rfl, rfl, ?_⟩)
  cases state with
  | none => rfl
  | some state => exact congrArg some (MintState.ofColumns_configs (encodable state rfl))

/-- What rows are after the way through the columns. -/
def throughColumns (rows : List MintRow) : List MintRow :=
  rows.map fun row => { row with slot := row.slot % 2 ^ 64 }

private theorem mapM_fromPgRow {rows : List MintRow}
    (encodable : ∀ row ∈ rows, ∀ state ∈ row.state, state.Encodable sizes) :
    (Columns.of rows).unnest.mapM (MintRow.fromPgRow sizes) = some (throughColumns rows) := by
  rw [Columns.unnest_of]
  induction rows with
  | nil => rfl
  | cons row rest ih =>
    rw [List.forall_mem_cons] at encodable
    rw [List.map_cons, List.mapM_cons, fromPgRow_ofRow encodable.1, ih encodable.2]
    rfl

/-! ## Writes -/

/-- Both sources of a state pair up the configs they find. -/
theorem encodable_of_pair {interestBearing scaledUiAmount : Option (List UInt8)} {paired : Bool}
    (same : state.configs = if paired then some ⟨interestBearing, scaledUiAmount⟩ else none)
    (interestFits : ∀ bytes ∈ interestBearing, bytes.length = sizes.interestBearing)
    (scaledFits : ∀ bytes ∈ scaledUiAmount, bytes.length = sizes.scaledUiAmount)
    (present : paired = true → interestBearing.isSome ∨ scaledUiAmount.isSome) : state.Encodable sizes := by
  have pair : ∀ configs ∈ state.configs, configs = ⟨interestBearing, scaledUiAmount⟩ ∧ paired = true := by
    intro configs held
    obtain ⟨taken, found⟩ := Option.ite_none_right_eq_some.mp (same.symm.trans held)
    exact ⟨(Option.some.inj found).symm, taken⟩
  refine ⟨fun configs held => ?_, fun configs held => ?_, fun configs held => ?_⟩
  · rw [(pair configs held).1]
    exact interestFits
  · rw [(pair configs held).1]
    exact scaledFits
  · rw [(pair configs held).1]
    exact present (pair configs held).2

private theorem encodable_state (mint : UnpackedMint sizes) : mint.state.Encodable sizes :=
  encodable_of_pair rfl mint.interestBearingSize mint.scaledUiAmountSize Bool.or_eq_true_iff.mp

/-- Every state that is parsed from an account comes back from its columns. -/
theorem encodable_parse {library : TokenLibrary sizes} {pubkey owner : Pubkey} {lamports : ℕ} {data : List UInt8}
    (parsed : MintChange.parse library pubkey owner lamports data = some (.live state)) :
    state.Encodable sizes := by
  unfold MintChange.parse at parsed
  split_ifs at parsed
  · cases parsed
  obtain ⟨mint, found, same⟩ := Option.map_eq_some_iff.mp parsed
  obtain rfl := MintChange.live.inj same
  have encodable : mint.Encodable sizes := by
    unfold MintState.fromMint at found
    split_ifs at found
    · obtain rfl := Option.some.inj found
      exact encodable_ofDecimals _
    · obtain ⟨unpacked, -, rfl⟩ := Option.map_eq_some_iff.mp found
      exact encodable_state unpacked
  exact ⟨encodable.interestBearing, encodable.scaledUiAmount, encodable.filled⟩

/-- Every state that is decoded from columns goes through them again. -/
theorem encodable_fromPgRow {columns : PgRow} {row : MintRow} (decoded : MintRow.fromPgRow sizes columns = some row) :
    ∀ state ∈ row.state, state.Encodable sizes := by
  intro state present
  obtain ⟨pubkey, -, same⟩ := Option.bind_eq_some_iff.mp decoded
  obtain rfl := Option.some.inj same
  obtain ⟨decimals, -, live⟩ := Option.bind_eq_some_iff.mp present
  split_ifs at live
  obtain rfl := Option.some.inj live
  have sized : ∀ {size : ℕ} {config : Option (List UInt8)}, ∀ bytes ∈ config.bind (readPod size),
      bytes.length = size := by
    intro size config bytes found
    obtain ⟨whole, -, read⟩ := Option.bind_eq_some_iff.mp found
    obtain ⟨fits, same⟩ := Option.ite_none_right_eq_some.mp read
    exact Option.some.inj same ▸ fits
  exact encodable_of_pair rfl sized sized fun paired => Bool.or_eq_true_iff.mp (Bool.and_eq_true_iff.mp paired).2

/-- What is applied to a store: an account write, or a row of the table. -/
inductive StoreEvent
  | account (write : AccountWrite)
  | table (row : MintRow)

/-- A slot below `2 ^ 63`, and a state that comes back from its columns. -/
def StoreEvent.Encodable (sizes : PodSizes) : StoreEvent → Prop
  | .account write => write.slot < 2 ^ 63 ∧ ∀ state, write.change = .live state → state.Encodable sizes
  | .table row => row.slot < 2 ^ 63 ∧ ∀ state ∈ row.state, state.Encodable sizes

/-- A write that an account of the chain parses to, or a row that is decoded from its columns. -/
def StoreEvent.Parsed (library : TokenLibrary sizes) : StoreEvent → Prop
  | .account write => write.slot < 2 ^ 63 ∧ ∃ owner lamports data,
      MintChange.parse library write.pubkey owner lamports data = some write.change
  | .table row => row.slot < 2 ^ 63 ∧ ∃ columns, MintRow.fromPgRow sizes columns = some row

theorem StoreEvent.Parsed.encodable {library : TokenLibrary sizes} {event : StoreEvent}
    (parsed : event.Parsed library) : event.Encodable sizes := by
  cases event with
  | account write =>
    obtain ⟨fits, owner, lamports, data, found⟩ := parsed
    exact ⟨fits, fun state isLive => encodable_parse (isLive ▸ found)⟩
  | table row =>
    obtain ⟨fits, columns, decoded⟩ := parsed
    exact ⟨fits, encodable_fromPgRow decoded⟩

def MintStore.step (store : MintStore) : StoreEvent → Option MintStore
  | .account write => some (store.apply write.pubkey write.slot write.change).1
  | .table row => some (store.applyRow row.pubkey row.slot row.state).1

namespace StoredMint

/-- A mutable mint is not marked immutable, and all of it fits the columns. -/
def Encodable (sizes : PodSizes) : StoredMint → Prop
  | .mutable mint => mint.slot < 2 ^ 63 ∧ mint.state.immutable = false ∧ mint.state.Encodable sizes
  | .tombstone slot => slot < 2 ^ 63
  | .immutable _ | .missing => True

variable {held : StoredMint} {slot : ℕ}

theorem encodable_written (ranged : slot < 2 ^ 63) (encodable : state.Encodable sizes) :
    (written slot state).Encodable sizes := by
  unfold written
  split
  · trivial
  · next unsealed => exact ⟨ranged, Bool.eq_false_of_not_eq_true unsealed, encodable⟩

private theorem encodable_applyLive (sound : held.Encodable sizes) (ranged : slot < 2 ^ 63)
    (encodable : state.Encodable sizes) : (held.applyLive slot state).Encodable sizes := by
  cases held with
  | immutable decimals => trivial
  | missing => exact encodable_written ranged encodable
  | mutable mint =>
    rw [applyLive]
    split
    · exact sound
    · exact encodable_written ranged encodable
  | tombstone closed =>
    rw [applyLive]
    split
    · exact sound
    · exact encodable_written ranged encodable

private theorem encodable_close (sound : held.Encodable sizes) (ranged : slot < 2 ^ 63) (knownOnly : Bool) :
    (held.close slot knownOnly).Encodable sizes := by
  cases held with
  | immutable decimals => trivial
  | tombstone closed => exact sound
  | mutable mint =>
    rw [close]
    split
    · exact sound
    · exact ranged
  | missing =>
    cases knownOnly with
    | true => trivial
    | false => exact ranged

end StoredMint

namespace MintStore

private theorem encodable_step {next : MintStore} {event : StoreEvent} (sound : ∀ key, (store.get key).Encodable sizes)
    (encodable : event.Encodable sizes) (moves : store.step event = some next) :
    ∀ key, (next.get key).Encodable sizes := by
  intro key
  cases event with
  | account write =>
    obtain rfl := Option.some.inj moves
    rw [get_apply]
    split
    · cases change : write.change with
      | live state => exact StoredMint.encodable_applyLive (sound _) encodable.1 (encodable.2 state change)
      | closed => exact StoredMint.encodable_close (sound _) encodable.1 true
    · exact sound key
  | table row =>
    obtain rfl := Option.some.inj moves
    rw [get_applyRow]
    split
    · cases held : row.state with
      | some state => exact StoredMint.encodable_applyLive (sound _) encodable.1 (encodable.2 state held)
      | none => exact StoredMint.encodable_close (sound _) encodable.1 false
    · exact sound key

/-- The runs of a store on writes and rows that fit the columns. -/
abbrev EncodableRun (sizes : PodSizes) :=
  Run default step fun _ _ event => event.Encodable sizes

/-- What is parsed from accounts and decoded from rows fits. -/
theorem encodableRun_of_parsed {library : TokenLibrary sizes} {events : List StoreEvent}
    (run : Run default step (fun _ _ event => event.Parsed library) events store) : EncodableRun sizes events store :=
  run.mono fun _ _ _ _ parsed => parsed.encodable

private theorem encodable_run {events : List StoreEvent} (run : EncodableRun sizes events store) (key : Pubkey) :
    (store.get key).Encodable sizes := by
  refine run.stateInvariant (fun key => ?_)
    (fun _ _ _ _ sound encodable moves => encodable_step sound encodable moves) key
  rw [get_default]
  trivial

/-! ## The rows of a store -/

/-- All keys that the store holds, map by map. -/
def keys (store : MintStore) : List Pubkey := store.immutable.keys ++ store.mutable.keys ++ store.tombstones.keys

/-- The rows of all keys; an immutable mint takes the slot given for its key. -/
def rows (store : MintStore) (slotOf : Pubkey → ℕ) : List MintRow :=
  store.keys.filterMap fun key => store.row key (slotOf key)

theorem nodup_keys (store : MintStore) : store.keys.Nodup := by
  rw [keys, List.nodup_append', List.nodup_append']
  refine ⟨⟨store.immutable.nodupKeys, store.mutable.nodupKeys, fun key sealed held => ?_⟩,
    store.tombstones.nodupKeys, fun key held closed => ?_⟩
  · exact store.sealedNotMutable key sealed held
  · rcases List.mem_append.mp held with sealed | held
    · exact store.sealedNotClosed key sealed closed
    · exact store.mutableNotClosed key held closed

private theorem get_of_not_mem_keys {key : Pubkey} (absent : key ∉ store.keys) : store.get key = .missing := by
  rw [keys, List.mem_append, List.mem_append, not_or, not_or] at absent
  simp only [get, HashMap.lookup_of_not_mem absent.1.1, HashMap.lookup_of_not_mem absent.1.2,
    HashMap.lookup_of_not_mem absent.2]

theorem pubkey_row {key : Pubkey} {slot : ℕ} {row : MintRow} (found : store.row key slot = some row) :
    row.pubkey = key := by
  unfold MintStore.row at found
  split at found
  · exact (Option.some.inj found) ▸ rfl
  · exact (Option.some.inj found) ▸ rfl
  · exact (Option.some.inj found) ▸ rfl
  · cases found

theorem nodup_rows (store : MintStore) (slotOf : Pubkey → ℕ) : ((store.rows slotOf).map MintRow.pubkey).Nodup := by
  rw [rows, List.map_filterMap]
  refine store.nodup_keys.filterMap fun key other pubkey first second => ?_
  obtain ⟨row, found, rfl⟩ := Option.map_eq_some_iff.mp first
  obtain ⟨row', found', same⟩ := Option.map_eq_some_iff.mp second
  rw [← pubkey_row found, ← pubkey_row found', same]

/-- A row leaves in an empty place what it was made from. -/
theorem applyRow_row {key : Pubkey} {slot : ℕ} {row : MintRow} (encodable : (store.get key).Encodable sizes)
    (found : store.row key slot = some row) :
    (∀ state ∈ row.state, state.Encodable sizes) ∧
      StoredMint.missing.applyRow (row.slot % 2 ^ 64) row.state = store.get key := by
  unfold MintStore.row at found
  cases held : store.get key with
  | missing => rw [held] at found; cases found
  | immutable decimals =>
    rw [held] at found
    cases found
    refine ⟨fun state present => ?_, rfl⟩
    obtain rfl := Option.some.inj present
    exact encodable_ofDecimals decimals
  | mutable mint =>
    rw [held] at found encodable
    cases found
    refine ⟨fun state present => ?_, ?_⟩
    · obtain rfl := Option.some.inj present
      exact encodable.2.2
    · have ranged : mint.slot % 2 ^ 64 = mint.slot := Nat.mod_eq_of_lt (encodable.1.trans (by decide))
      rw [StoredMint.applyRow, StoredMint.applyLive, StoredMint.written, encodable.2.1, ranged]
      rfl
  | tombstone closed =>
    rw [held] at found encodable
    cases found
    refine ⟨fun state present => (by cases present), ?_⟩
    have ranged : closed % 2 ^ 64 = closed := Nat.mod_eq_of_lt (Nat.lt_trans encodable (by decide))
    rw [StoredMint.applyRow, StoredMint.close, ranged]
    rfl

/-- The maps of a store share no key, and its rows, decoded from their columns and loaded into an empty store in
any order, give the same answer for every key. -/
theorem reload_get {events : List StoreEvent} (run : EncodableRun sizes events store) (slotOf : Pubkey → ℕ)
    {loaded : List MintRow} (ordered : loaded.Perm (store.rows slotOf)) :
    (∀ key, ¬ (key ∈ store.immutable ∧ key ∈ store.mutable) ∧
        ¬ (key ∈ store.immutable ∧ key ∈ store.tombstones) ∧ ¬ (key ∈ store.mutable ∧ key ∈ store.tombstones)) ∧
      ∃ decoded, (Columns.of loaded).unnest.mapM (MintRow.fromPgRow sizes) = some decoded ∧
        ∀ key, (default.applyRows decoded).get key = store.get key := by
  have madeFrom : ∀ row ∈ loaded, store.row row.pubkey (slotOf row.pubkey) = some row := by
    intro row member
    obtain ⟨key, -, found⟩ := List.mem_filterMap.mp (ordered.subset member)
    rw [pubkey_row found]
    exact found
  have restored := fun row member => applyRow_row (encodable_run run row.pubkey) (madeFrom row member)
  have pubkeys : (throughColumns loaded).map MintRow.pubkey = loaded.map MintRow.pubkey := List.map_map
  have distinct : ((throughColumns loaded).map MintRow.pubkey).Nodup := by
    rw [pubkeys]
    exact (ordered.map _).nodup_iff.mpr (store.nodup_rows slotOf)
  refine ⟨fun key => ⟨fun both => store.sealedNotMutable key both.1 both.2,
    fun both => store.sealedNotClosed key both.1 both.2, fun both => store.mutableNotClosed key both.1 both.2⟩,
    throughColumns loaded, mapM_fromPgRow fun row member => (restored row member).1, fun key => ?_⟩
  by_cases listed : key ∈ loaded.map MintRow.pubkey
  · obtain ⟨row, member, rfl⟩ := List.mem_map.mp listed
    have placed : { row with slot := row.slot % 2 ^ 64 } ∈ throughColumns loaded := List.mem_map_of_mem member
    exact (get_applyRows_of_mem default distinct placed).trans (restored row member).2
  · rw [get_applyRows_of_not_mem default (pubkeys.symm ▸ listed), get_default]
    -- A key without a row is in none of the maps.
    by_contra held
    have present : key ∈ store.keys := by
      by_contra absent
      exact held (get_of_not_mem_keys absent).symm
    obtain ⟨row, found⟩ : ∃ row, store.row key (slotOf key) = some row := by
      unfold MintStore.row
      cases answer : store.get key with
      | missing => exact absurd answer.symm held
      | immutable decimals => exact ⟨_, rfl⟩
      | mutable mint => exact ⟨_, rfl⟩
      | tombstone slot => exact ⟨_, rfl⟩
    refine listed (List.mem_map.mpr ⟨row, ordered.symm.subset ?_, pubkey_row found⟩)
    exact List.mem_filterMap.mpr ⟨key, present, found⟩

/-- A mint with a scaled-UI config. -/
def scaledMint : MintState := ⟨6, some ⟨none, some (List.replicate 56 1)⟩, false, fun sealed => by cases sealed⟩

/-- Mint 1 is the native one, and the data of a mint with a scaled-UI config starts with its length. -/
def scaledLibrary : TokenLibrary ⟨52, 56⟩ where
  nativeMint := 1
  nativeDecimals := 9
  unpack := fun data =>
    if data.head? = some 6 then
      some ⟨6, none, some (List.replicate 56 1), some [.scaledUiAmount], by simp, by simp, by simp, by simp⟩
    else none

/-- An immutable mint, a mutable one, and one that is closed. -/
def threeMints : List StoreEvent :=
  [.account ⟨1, 5, .live (.ofDecimals 9)⟩, .account ⟨2, 6, .live scaledMint⟩, .account ⟨3, 7, .live scaledMint⟩,
    .account ⟨3, 9, .closed⟩]

theorem reload_get_threeMints :
    ∃ store decoded, EncodableRun ⟨52, 56⟩ threeMints store ∧ store.keys.length = 3 ∧
      (Columns.of (store.rows fun _ => 5).reverse).unnest.mapM (MintRow.fromPgRow ⟨52, 56⟩) = some decoded ∧
      ∀ key, (default.applyRows decoded).get key = store.get key := by
  have parsed : ∀ event ∈ threeMints, event.Parsed scaledLibrary := by
    intro event member
    simp only [threeMints, List.mem_cons, List.not_mem_nil, or_false] at member
    rcases member with rfl | rfl | rfl | rfl
    · exact ⟨by decide, Filters.tokenProgramId, 1, [], rfl⟩
    · exact ⟨by decide, Processed.token2022ProgramId, 1, [6], rfl⟩
    · exact ⟨by decide, Processed.token2022ProgramId, 1, [6], rfl⟩
    · exact ⟨by decide, Processed.token2022ProgramId, 0, [], rfl⟩
  have replayed : Run default step (fun _ _ _ => True) threeMints _ :=
    ((((Run.start.step trivial rfl).step trivial rfl).step trivial rfl).step trivial rfl)
  have run := encodableRun_of_parsed ((replayed.and_forall parsed).mono fun _ _ _ _ guard => guard.2)
  obtain ⟨-, decoded, reads, answers⟩ := reload_get run (fun _ => 5) (List.reverse_perm _)
  exact ⟨_, decoded, run, by decide +kernel, reads, answers⟩

end MintStore

end Cloudbreak.Model.MintCache
