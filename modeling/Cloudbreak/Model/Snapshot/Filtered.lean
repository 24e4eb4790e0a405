import Cloudbreak.Model.Snapshot.LtHash

/-! # The snapshot hash from the metadata total

A list of excluded programs is subtracted from the hash of all accounts that the snapshot's metadata file
ends with; a list of included programs is hashed directly.
-/

namespace Cloudbreak.Model.Snapshot

/-- The path as the messages print it, and the bytes when the file can be read. -/
structure MetadataFile where
  path : String
  bytes : Option (List UInt8)

/-- The hash in the last 2048 bytes, as little-endian 16-bit numbers. -/
def extractLtHashFromSnapshotMetadata (metadata : MetadataFile) : Except String LtHash :=
  match metadata.bytes with
  | none => .error s!"Failed to read metadata file: {metadata.path}"
  | some fileBytes =>
    if fileBytes.length ≥ 2048 then
      let ltHashBytes := fileBytes.drop (fileBytes.length - 2048)
      .ok fun i => ((ltHashBytes.getD (2 * i) 0).toNat + 256 * (ltHashBytes.getD (2 * i + 1) 0).toNat : ℕ)
    else .error s!"metadata file too small ({fileBytes.length} bytes): {metadata.path}"

/-- The accounts of the System program can be reassigned, so it cannot be excluded. -/
def computeFilteredSnapshotLtHash (expand : List UInt8 → LtHash) (snapshotFiles : List AccountFileData)
    (metadata : MetadataFile) (programs : AccountSelectorConfig) : Except String (LtHash × ℕ) :=
  if programs.includePrograms ≠ [] then computeSnapshotLtHashFilteredSinglePass expand snapshotFiles programs
  else if programs.excludePrograms.any (fun program => program = systemProgramId) then
    .error ("exclude path cannot contain the System program (11111111111111111111111111111111)" ++
      " — its accounts can be reassigned")
  else
    match extractLtHashFromSnapshotMetadata metadata with
    | .error message => .error message
    | .ok total =>
      if programs.excludePrograms = [] then .ok (total, 0)
      else
        match computeSnapshotLtHashFilteredSinglePass expand snapshotFiles programs with
        | .error message => .error message
        | .ok (excluded, count) => .ok (total - excluded, count)

end Cloudbreak.Model.Snapshot
