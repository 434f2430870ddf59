import LiveMaps.Files.Tree
import LiveMaps.Ident
import LiveMaps.Terrain.Grid

namespace LiveMaps.Terrain
open Number

structure TileSource where
  hasTerrain : MapId → Tile → Bool
  hasCollision : MapId → Tile → Bool

namespace TileSource

def none : TileSource := ⟨fun _ _ => false,fun _ _ => false⟩

def listed (terrain collision : List (MapId × Tile)) : TileSource :=
  ⟨fun map tile => terrain.contains (map,tile),fun map tile => collision.contains (map,tile)⟩

end TileSource

def padded (width n : Nat) : List Char := (Decimal.padded width n).map Numeral.digitChar

def terrainName (map : MapId) (tile : Tile) : List Char :=
  padded 4 map.order ++ padded 2 tile.gx ++ padded 2 tile.gy ++ ".map".toList

def collisionName (map : MapId) (tile : Tile) : List Char :=
  padded 4 map.order ++ '_' :: padded 2 tile.gx ++ '_' :: padded 2 tile.gy ++ ".vmtile".toList

def terrainPath (map : MapId) (tile : Tile) : Path := ["maps",String.ofList (terrainName map tile)]

def collisionPath (map : MapId) (tile : Tile) : Path :=
  ["vmaps",String.ofList (collisionName map tile)]

def TileSource.directory (tree : FileTree) (root : Route) : TileSource :=
  ⟨fun map tile => tree.isFile (root.join (terrainPath map tile)),
    fun map tile => tree.isFile (root.join (collisionPath map tile))⟩

def allTiles : List Tile :=
  (List.range gridCount).flatMap (fun gx => (List.range gridCount).map (fun gy => ⟨gx,gy⟩))

def discover (source : TileSource) (map : MapId) : List Tile :=
  allTiles.filter (source.hasTerrain map)

def exist (source : TileSource) (map : MapId) (x y : Single) : Bool :=
  match (Cell.ofWorld x y).tile? with
  | some tile => source.hasTerrain map tile && source.hasCollision map tile
  | Option.none => false

end LiveMaps.Terrain
