import OpacityMigration.Migration.Walk
import OpacityMigration.Proofs.FileMigration

/-!
# What a walk depends on

A walk looks names up and never reads a file, so a migration does not change what the next walk
finds.

* `walk_of_sameTree`: walks of file systems with the same tree.
-/

namespace OpacityMigration

theorem FileSystem.SameTree.isFile {fs fs' : FileSystem} (h : fs.SameTree fs') (p : Path) :
    fs'.isFile p = fs.isFile p := by
  unfold FileSystem.isFile
  rw [h.lookup]

namespace Walk

variable {fs fs' : FileSystem}

theorem walkNode_of_sameTree (h : fs.SameTree fs') (config : Config) (path : Path) (node : Node) :
    walkNode fs' config path node = walkNode fs config path node := by
  induction node generalizing path with
  | file id access => rfl
  | link target => rfl
  | directory access names child ih =>
    simp only [walkNode, ih, h.isFile]

theorem walk_of_sameTree (h : fs.SameTree fs') (config : Config) :
    walk fs' config = walk fs config := by
  unfold walk
  rw [h.lookup]
  simp only [walkNode_of_sameTree h]

end Walk

end OpacityMigration
