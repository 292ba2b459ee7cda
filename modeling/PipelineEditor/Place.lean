/-!
# Where files are saved

A file is saved together with the directories it is in, which are made where they are missing.
Only below a regular file none can be made.
-/

namespace PipelineEditor

/-- Where a file is to be saved. -/
inductive Place where
  /-- In directories that are there or can be made. -/
  | directory
  /-- Below a regular file. -/
  | belowFile
  deriving DecidableEq

/-- The text that a save leaves in the file, or the cause why there can be no such file. -/
def Place.save {ε : Type} (place : Place) (cause : ε) (text : String) : Except ε String :=
  match place with
  | .directory => .ok text
  | .belowFile => .error cause

end PipelineEditor
