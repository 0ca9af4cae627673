import FrameGraph.Ron.Document
import FrameGraph.Settings

/-!
# Settings as text

The text of settings is a record; each field that is left out has its default.
-/

namespace FrameGraph

open Ron

structure ExtentFields where
  width : Option UInt32 := none
  height : Option UInt32 := none

def ExtentFields.all : List (RecordField ExtentFields) :=
  [.of "width" word (·.width) fun known v => { known with width := some v },
    .of "height" word (·.height) fun known v => { known with height := some v }]

def Extent.reader (s : Scope) : Reader Extent := fun cs => do
  let (known, rest) ← fieldsOf "Extent2d" ExtentFields.all s {} cs
  let width ← required "width" known.width rest
  let height ← required "height" known.height rest
  return (⟨width, height⟩, rest)

structure SettingsFields where
  strategy : Option Strategy := none
  resolution : Option Extent := none
  verbose : Option Bool := none
  dumpDir : Option (Option String) := none
  strict : Option Bool := none

namespace SettingsFields

def all (s : Scope) : List (RecordField SettingsFields) :=
  [.of "strategy" (oneOf "strategy" Strategy.all Strategy.name) (·.strategy)
      fun known v => { known with strategy := some v },
    .of "render_resolution" (Extent.reader s.into) (·.resolution)
      fun known v => { known with resolution := some v },
    .of "verbose" truth (·.verbose) fun known v => { known with verbose := some v },
    .of "dump_dir" (optional s.bare text) (·.dumpDir)
      fun known v => { known with dumpDir := some v },
    .of "strict_resource_types" truth (·.strict) fun known v => { known with strict := some v }]

/-- The settings that fields give, with the defaults of the others. -/
def settings (known : SettingsFields) : Settings :=
  let base : Settings := {}
  { strategy := known.strategy.getD base.strategy
    resolution := known.resolution.getD base.resolution
    verbose := known.verbose.getD base.verbose
    dumpDir := known.dumpDir.getD base.dumpDir
    strict := known.strict.getD base.strict }

end SettingsFields

namespace Settings

def reader (s : Scope) : Reader Settings := fun cs => do
  let (known, rest) ← fieldsOf "CompilerConfig" (SettingsFields.all s) s {} cs
  return (known.settings, rest)

/-- Reads the text of settings. -/
def ofText (source : String) : Except SettingsError Settings :=
  match document reader source.toList with
  | .ok settings => .ok settings
  | .error fault => .error (.unreadableText (fault.text source.toList))

/-- Reads settings from a file. -/
def load (files : Files) (path : String) : Except SettingsError Settings :=
  match files.read path with
  | .ok source => ofText source
  | .error err => .error (.unreadableFile path err)

end Settings

end FrameGraph
