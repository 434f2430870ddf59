import LiveMaps.Admission.Participant
import LiveMaps.Catalog.Basic
import LiveMaps.Config
import LiveMaps.Files.Tree

namespace LiveMaps

-- A missing file, a directory and a file that is no text all count as unreadable.

def FileTree.text? (tree : FileTree) (r : Route) : Option Content :=
  (tree.read? r).filter (fun content => content.text?.isSome)

def WorldConfig.load (tree : FileTree) (r : Route) : Except ConfigError WorldConfig :=
  match tree.text? r with
  | none => .error .unreadable
  | some content => WorldConfig.ofSymbols content

def Catalog.load (tree : FileTree) (r : Route) : Except CatalogError Catalog :=
  match tree.text? r with
  | none => .error .unreadable
  | some content => Catalog.ofSymbols content

end LiveMaps
