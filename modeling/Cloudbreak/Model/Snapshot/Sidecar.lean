import Mathlib

/-! # The snapshot pairs a tracker offers

An offer names a full snapshot and perhaps an incremental one on top of it. A pair is taken when it fits together and
covers the slot that is asked for.
-/

namespace Cloudbreak.Model.Snapshot

/-- A malformed offer is an error or an `unwrap` that panics. -/
inductive SidecarFailure where
  | error (message : String)
  | panic
deriving DecidableEq, Repr

/-- A file of an offer with the fields of its JSON value that are there and well typed. -/
structure OfferedFile where
  fileName : Option String
  slot : Option ℕ
  baseSlot : Option ℕ
  downloadUrl : Option String

structure Offer where
  slot : Option ℕ
  baseSlot : Option ℕ
  target : Option String
  files : Option (List OfferedFile)

inductive SnapshotType where
  | full
  | incremental
deriving DecidableEq, Repr

structure SnapshotData where
  fileName : String
  baseSlot : Option ℕ
  slot : ℕ
  snapshotType : SnapshotType
  downloadUrl : Option String
deriving DecidableEq

structure SnapshotPair where
  fullSnapshot : SnapshotData
  incrementalSnapshot : Option SnapshotData
  downloadingEndpoint : String
deriving DecidableEq

def orError {α : Type} (message : String) : Option α → Except SidecarFailure α
  | some value => .ok value
  | none => .error (.error message)

def orPanic {α : Type} : Option α → Except SidecarFailure α
  | some value => .ok value
  | none => .error .panic

namespace SnapshotPair

def noBaseSlot : String := "base slot not found for incremental snapshot"

def parseFile (file : OfferedFile) : Except SidecarFailure SnapshotData := do
  let fileName ← orError "file_name not found" file.fileName
  let slot ← orError "slot not found" file.slot
  if "incremental".toList <:+: fileName.toList then
    if file.baseSlot.isNone then throw (.error noBaseSlot)
    return ⟨fileName, file.baseSlot, slot, .incremental, file.downloadUrl⟩
  else return ⟨fileName, file.baseSlot, slot, .full, file.downloadUrl⟩

/-- The slots of the files are those of the offer. -/
def checkFilesSlots (pair : SnapshotPair) (slot baseSlot : ℕ) : Except SidecarFailure Unit := do
  let isIncrementalCorrect ←
    match pair.incrementalSnapshot with
    | some incremental =>
      if incremental.slot = slot then do
        let incrementalBase ← orError noBaseSlot incremental.baseSlot
        pure (decide (incrementalBase = baseSlot))
      else pure false
    | none => pure true
  if pair.fullSnapshot.slot ≠ baseSlot || !isIncrementalCorrect then throw (.error "files slots do not match")

def parse (offer : Offer) : Except SidecarFailure SnapshotPair := do
  let slot ← orError "slot not found" offer.slot
  let baseSlot ← orError "base_slot not found" offer.baseSlot
  let sidecarEndpoint ← orError "sidecar endpoint not found" offer.target
  let files ← orPanic offer.files
  let firstFile ← parseFile (← orPanic files[0]?)
  let pair ←
    if firstFile.snapshotType = .incremental then do
      let fullSnapshotFile ← parseFile (← orPanic files[1]?)
      if fullSnapshotFile.snapshotType ≠ .full then throw (.error "full snapshot file is not a full snapshot")
      pure ⟨fullSnapshotFile, some firstFile, sidecarEndpoint⟩
    else pure ⟨firstFile, none, sidecarEndpoint⟩
  pair.checkFilesSlots slot baseSlot
  return pair

/-- Whether the pair covers the slot. -/
def checkTargetSlot (pair : SnapshotPair) (targetSlot : ℕ) : Except SidecarFailure Bool :=
  match pair.incrementalSnapshot with
  | some incremental => do
    let incrementalBaseSlot ← orError noBaseSlot incremental.baseSlot
    if incrementalBaseSlot ≠ pair.fullSnapshot.slot then
      throw (.error "incremental snapshot base slot does not match full snapshot slot")
    return decide (targetSlot ≤ incremental.slot)
  | none => return decide (targetSlot ≤ pair.fullSnapshot.slot)

end SnapshotPair

/-- One answer of the tracker. Without a pair that covers the slot it is asked again later. -/
def getSnapshotData (targetSlot : Option ℕ) (forceReturnedIncremental : Bool) :
    List Offer → Except SidecarFailure (Option SnapshotPair)
  | [] => return none
  | offer :: rest => do
    let pair ← SnapshotPair.parse offer
    let isCovered ←
      match targetSlot with
      | some targetSlot => pair.checkTargetSlot targetSlot
      | none => pure true
    if isCovered && (!forceReturnedIncremental || pair.incrementalSnapshot.isSome) then return some pair
    else getSnapshotData targetSlot forceReturnedIncremental rest

end Cloudbreak.Model.Snapshot
