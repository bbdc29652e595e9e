import PocketCalculator.Disk
import PocketCalculator.Settings.Environment
import PocketCalculator.Settings.Format

namespace PocketCalculator.Settings

/-- The file with settings for all sessions, and the one that is laid over it. -/
def sharedPaths : List (String × Format) :=
  [("config/ganit.toml", .toml), ("config/ganit.yaml", .yaml)]

/-- The layer in a file. Without the file nothing is set. -/
def fileLayer? (disk : Disk) (path : String) (format : Format) : Option Value :=
  match disk.text? (Disk.Path.ofText path) with
  | some text => format.read text
  | none => some (.table [])

/-- Some layers over each other, the last one uppermost. -/
def stack (layers : List Value) : Value :=
  layers.foldl Value.overlay (document {}).toValue

/-- The settings in some layers, if they are of the right kinds and within their bounds. -/
def ofLayers (layers : List Value) : Except Fault Settings :=
  match ofValue? (stack layers) with
  | some settings => settings.validate
  | none => .error .unreadable

def load (disk : Disk) (environment : List (String × String)) : Except Fault Settings :=
  match sharedPaths.mapM fun (path, format) => fileLayer? disk path format with
  | some layers => ofLayers (layers ++ [Environment.read environment])
  | none => .error .unreadable

def formatOf (path : String) : Except Fault Format :=
  match (Disk.Path.ofText path).extension? with
  | none => .error .noExtension
  | some extension =>
    match Format.ofExtension? extension with
    | some format => .ok format
    | none => .error (.unsupportedFormat extension)

/-- The settings in a file of their own, over which the environment is still laid. -/
def loadFile (disk : Disk) (environment : List (String × String)) (path : String) :
    Except Fault Settings :=
  if path = "" ∨ !disk.has (Disk.Path.ofText path) then .error (.fileNotFound path)
  else
    match formatOf path with
    | .error fault => .error fault
    | .ok format =>
      match fileLayer? disk path format with
      | some layer => ofLayers [layer, Environment.read environment]
      | none => .error .unreadable

/-- An attempt to write the settings to a file, making its folder first if need be: the disk after
it, and why there is no such file, if there is none. Only a path without any extension is refused
before the folder is made. -/
def trySave (settings : Settings) (disk : Disk) (path : String) : Disk × Except Fault Unit :=
  let place := Disk.Path.ofText path
  match formatOf path with
  | .error .noExtension => (disk, .error .noExtension)
  | format =>
    match disk.makeFolders place.parent with
    | (disk, false) => (disk, .error .fileSystem)
    | (disk, true) =>
      match format with
      | .error fault => (disk, .error fault)
      | .ok format =>
        match format.write? settings.document with
        | none => (disk, .error .unwritable)
        | some text =>
          match disk.write place text with
          | some disk => (disk, .ok ())
          | none => (disk, .error .fileSystem)

/-- The disk with the settings in a file. -/
def save (settings : Settings) (disk : Disk) (path : String) : Except Fault Disk :=
  match settings.trySave disk path with
  | (disk, .ok ()) => .ok disk
  | (_, .error fault) => .error fault

end PocketCalculator.Settings
