import Nightfall.Storage.Migrate

/-!
# Importing a snapshot

`importSnapshot` copies a chain file into the directory, writes metadata that trusts
nothing, loads the chain in full and saves it.
-/

namespace Nightfall

open Files

/-- Where a snapshot comes from. -/
inductive SnapshotSource where
  /-- A bare chain file, and whether its name ends in `.bin`. -/
  | file (isBin : Bool) (content : Bytes)
  /-- A directory, with what its manifest reads as. -/
  | directory (dir : Datadir) (manifest : Option SnapshotManifest)

namespace SnapshotSource

def manifest : SnapshotSource → Option SnapshotManifest
  | file _ _ => none
  | directory _ manifest => manifest

/-- The format and the content of the chain file. -/
def chainFile : SnapshotSource → Format × Option Bytes
  | file isBin content => (if isBin then .binary else .json, some content)
  | directory dir _ =>
      if (dir .blocksBin).isSome then (.binary, dir .blocksBin) else (.json, dir .blocksJsonl)

end SnapshotSource

inductive ImportError where
  | interruptedRecovery
  | noChainFile
  | otherNetwork (held : NetworkId)
  | corruptBlocks
  | recordTooLarge
  | load (source : LoadError)
  | supply
  | tip
  | genesis
  | save (source : SaveError)
  deriving DecidableEq

variable {P : Primitives}

namespace Datadir

variable (S : Serde) (dir : Datadir)

/-- The chain file in the format of this directory, and whether all of it was written. -/
def importedBlocks (source : Format) (content : Bytes) : Except ImportError Bytes × Option Bytes :=
  if source = dir.format then (.ok content, some content)
  else
    match S.readBlocks source content with
    | none => (.error .corruptBlocks, none)
    | some blocks =>
        let (written, done) := S.writeBlocks dir.format blocks
        (if done then .ok written else .error .recordTooLarge, some written)

/-- The metadata of an import: nothing is validated yet. -/
def importedMeta (network : NetworkId) (manifest : Option SnapshotManifest) : ChainMeta where
  network := network
  genesisHash := (manifest.map SnapshotManifest.genesis).getD []
  blockCount := (manifest.map SnapshotManifest.blocks).getD 0
  protocolVersion := protocolVersion
  validatedBy := []
  validatedTip := []
  validatedBytes := 0
  firstHeight := 0
  pruned := false
  horizonWork := []
  validatedHorizonBytes := 0
  validatedHeadersBytes := 0

/-- The loaded chain must be the one that the manifest names. -/
def checkManifest (chain : Chain P) (manifest : Option SnapshotManifest) :
    Except ImportError Unit := do
  Guard.refuse (chain.verifySupply ≠ .ok ()) .supply
  Guard.refuse (manifest.any fun manifest =>
    manifest.tip ≠ [] ∧ chain.tipHash.toHex ≠ manifest.tip) .tip
  Guard.refuse (manifest.any fun manifest =>
    manifest.genesis ≠ [] ∧ (genesisHash P chain.network).toHex ≠ manifest.genesis) .genesis

variable (P) in
/-- Install a snapshot and replay it with full checks. -/
def importSnapshot (env : LoadEnv) (saveDraw : Bytes) (network : NetworkId)
    (source : SnapshotSource) : Except ImportError (Chain P) × Datadir :=
  if dir.interruptedRecovery then (.error .interruptedRecovery, dir)
  else
    match source.chainFile with
    | (_, none) => (.error .noChainFile, dir)
    | (format, some content) =>
        match source.manifest.filter fun manifest => manifest.network ≠ network with
        | some manifest => (.error (.otherNetwork manifest.network), dir)
        | none =>
            let (verdict, written) := dir.importedBlocks S format content
            let copied := written.elim dir (put dir dir.blocksPath)
            match verdict with
            | .error error => (.error error, copied)
            | .ok _ =>
                let installed : Datadir :=
                  put copied .chainMeta (S.metaJson (importedMeta network source.manifest))
                let (loaded, left) := installed.loadOrNew P S env network
                match loaded with
                | .error error => (.error (.load error), left)
                | .ok chain =>
                    match checkManifest chain source.manifest with
                    | .error error => (.error error, left)
                    | .ok () =>
                        let plan := left.save S saveDraw chain
                        (match plan.verdict with
                          | .ok () => .ok chain
                          | .error error => .error (.save error),
                        left.after plan.effects)

end Datadir

end Nightfall
