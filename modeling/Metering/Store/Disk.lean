import Metering.Store.Table
import Metering.Failure.Basic

/-!
A file system, as far as keys and snapshot files need one.

A path is reached when every folder above it exists. A file is replaced by a finished one in a
single move, which a folder at that path prevents.
-/
namespace Metering

/-- What stands at a path. -/
inductive DiskNode
  | file (contents : Bytes)
  | folder
deriving DecidableEq, Repr

/-- A file system: what stands at each path. -/
structure Disk where
  nodes : Table DiskNode
deriving DecidableEq

namespace Disk

/-- A file system that holds one folder. -/
def withFolder (path : String) : Disk := ⟨Table.empty.put path .folder⟩

instance : Inhabited Disk := ⟨⟨.empty⟩⟩

/-- The paths above a path, outermost first. -/
def above : List Char → List Char → List String
  | _, [] => []
  | seen, c :: rest =>
    let deeper := above (seen ++ [c]) rest
    if c = '/' then String.ofList seen :: deeper else deeper

/-- The folder that a path is in; a bare name is in the current folder. -/
def parent (path : String) : String :=
  match (above [] path.toList).getLast? with
  | some folder => folder
  | none => "."

/-- Whether the folders above a path exist. -/
def reach (d : Disk) (path : String) : Except IoFault Unit :=
  (above [] path.toList).forM fun folder =>
    match d.nodes.get? folder with
    | some .folder => .ok ()
    | some (.file _) => .error .notDirectory
    | none => .error .noSuchFile

/-- The contents of the file at a path. -/
def read (d : Disk) (path : String) : Except IoFault Bytes := do
  d.reach path
  match d.nodes.get? path with
  | some (.file contents) => return contents
  | some .folder => throw .isDirectory
  | none => throw .noSuchFile

/-- Puts a finished file at a path whose folder exists. -/
def replace (d : Disk) (path : String) (contents : Bytes) : Except IoFault Disk :=
  match d.nodes.get? path with
  | some .folder => .error .isDirectory
  | _ => .ok ⟨d.nodes.put path (.file contents)⟩

/-- Puts something at a path, whatever stood there. -/
def put (d : Disk) (path : String) (node : DiskNode) : Disk := ⟨d.nodes.put path node⟩

/-- Takes away what stands at a path. -/
def remove (d : Disk) (path : String) : Disk := ⟨d.nodes.erase path⟩

/-- The names directly inside a folder, in increasing order. -/
def list (d : Disk) (folder : String) : List String :=
  let lead := (folder ++ "/").toList
  d.nodes.names.filterMap fun path =>
    let cs := path.toList
    let name := cs.drop lead.length
    if lead.isPrefixOf cs && !name.contains '/' then some (String.ofList name) else none

end Disk
end Metering
