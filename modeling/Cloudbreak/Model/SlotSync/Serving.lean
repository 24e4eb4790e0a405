import Cloudbreak.Model.SlotSync.SlotSyncronizer

/-! # Blocks saved and slots served

The main loop saves one block after the other. The account rows of a block go to the table in chunk statements that
run side by side, and its slot is inserted when all of them have ended, so that a request that picks the published
slot can only read completed slots. A statement that fails is logged, and the save goes on.
-/

namespace Cloudbreak.Model.SlotSync

/-- A block with its rows in the chunks of `saveBlock`. Other columns of a row do not matter here. -/
structure BlockChunks (Row : Type*) where
  slot : ℕ
  blockTime : Option ℤ
  blockhash : String
  chunks : List (List Row)

/-- The block under way and the chunk statements that have not ended. -/
structure Saving (Row : Type*) where
  block : BlockChunks Row
  chunks : List (List Row)

/-- The slots and the accounts with their slot, the rows of the chunk statements that failed, the block under way and
every block whose save began. -/
structure Serving (Row : Type*) where
  feed : SlotFeed
  accounts : List (ℕ × Row)
  failed : List (ℕ × Row)
  saving : Option (Saving Row)
  blocks : List (BlockChunks Row)

inductive ServingEvent (Row : Type*) where
  | saveBlock (block : BlockChunks Row)
  | insertChunk (position : ℕ) (succeeds : Bool)
  | insertSlot (healthy succeeds : Bool)
  | feed (event : SlotEvent)

namespace Serving

variable {Row : Type*}

def step (config : SyncConfig) (serving : Serving Row) : ServingEvent Row → Option (Serving Row)
  | .saveBlock block =>
    if serving.saving.isSome then none
    else some { serving with saving := some ⟨block, block.chunks⟩, blocks := serving.blocks ++ [block] }
  | .insertChunk position succeeds =>
    serving.saving.bind fun saving =>
      (saving.chunks[position]?).map fun chunk =>
        let rows := chunk.map fun row => (saving.block.slot, row)
        { serving with
          accounts := serving.accounts ++ if succeeds then rows else []
          failed := serving.failed ++ if succeeds then [] else rows
          saving := some { saving with chunks := saving.chunks.eraseIdx position } }
  | .insertSlot healthy succeeds =>
    serving.saving.bind fun saving =>
      if saving.chunks ≠ [] then none
      else if !succeeds then some { serving with saving := none }
      else
        let block := saving.block
        let insert := ⟨block.slot, block.blockTime, some block.blockhash, .confirmed, healthy⟩
        (serving.feed.step config (.insertSlot insert)).map fun feed => { serving with feed, saving := none }
  | .feed event => (serving.feed.step config event).map fun feed => { serving with feed }

/-- The rows a request reads at a slot. -/
def readAt (serving : Serving Row) (slot : ℕ) : List (ℕ × Row) :=
  serving.accounts.filter fun row => decide (row.1 ≤ slot)

end Serving

/-- A live block is above the confirmed slot of the table. Only finalized slots are inserted from elsewhere. -/
def ServingEvent.Allowed {Row : Type*} (serving : Serving Row) : ServingEvent Row → Prop
  | .saveBlock block => ∀ row, serving.feed.db.slots .confirmed = some row → row.slot < block.slot
  | .insertChunk _ _ => True
  | .insertSlot _ _ => True
  | .feed event => event.Allowed serving.feed ∧ ∀ insert, event = .insertSlot insert → insert.commitment = .finalized

end Cloudbreak.Model.SlotSync
