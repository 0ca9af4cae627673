import FrameGraph.Files
import FrameGraph.Image.Extent
import FrameGraph.Packing

/-!
# Settings

How a graph is compiled.
-/

namespace FrameGraph

structure Settings where
  strategy : Strategy := .optimized
  /-- The resolution that relative image sizes refer to. -/
  resolution : Extent := default
  /-- Log the input, what is left out, the order and the reports. -/
  verbose : Bool := false
  /-- Where a verbose compile writes its reports. -/
  dumpDir : Option String := none
  /-- Fail on a resource of unknown payload instead of leaving it out. -/
  strict : Bool := false
  deriving DecidableEq, Repr, Inhabited

/-- Why settings cannot be loaded. -/
inductive SettingsError
  | unreadableFile (path : String) (error : FileError)
  | unreadableText (reason : String)
  deriving DecidableEq, Repr

namespace SettingsError

def message : SettingsError → String
  | unreadableFile path error => s!"failed to read config {path}: {error.message}"
  | unreadableText reason => s!"failed to parse config: {reason}"

end SettingsError

end FrameGraph
