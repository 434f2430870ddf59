import LiveMaps.Proofs.Files.Tree
import LiveMaps.Proofs.Number.Values
import LiveMaps.Terrain.Tiles
import Mathlib.Data.String.Basic

namespace LiveMaps

namespace Number.Decimal

theorem ofDigits_padded (width n : Nat) : ofDigits (padded width n) = n := by
  rw [padded,ofDigits_zeros,ofDigits_digitsOf]

theorem padded_small (width n : Nat) : ∀ d ∈ padded width n, d < 10 := by
  intro d member
  rcases List.mem_append.mp member with zero | own
  · rw [List.eq_of_mem_replicate zero]
    decide
  · exact digitsOf_small n d own

theorem padded_length (width n : Nat) : (padded width n).length = max width (digitsOf n).length := by
  rw [padded,List.length_append,List.length_replicate]
  omega

end Number.Decimal

namespace Route
variable {place : Path} {part : String}

theorem follow_named (long : 2 < part.toList.length) : follow place part = place ++ [part] := by
  have other (short : String) (few : short.toList.length ≤ 2) : part ≠ short := by
    rintro rfl
    omega
  have busy : isIdle part = false := by
    simp only [isIdle,Bool.or_eq_false_iff,decide_eq_false_iff_not]
    exact ⟨other "" (by decide),other "." (by decide)⟩
  simp only [follow,busy,Bool.false_eq_true,if_false,other "/" (by decide),other ".." (by decide)]

end Route

namespace Terrain
open Number
variable {map other : MapId} {tile place : Tile}

theorem digitChar_value : ∀ d < 10, (Numeral.digitChar d).toNat - 48 = d := by decide

theorem digitChar_plain : ∀ d < 10, Numeral.digitChar d ≠ '_' := by decide

theorem padded_injective {width n m : Nat} (same : padded width n = padded width m) : n = m := by
  have back (k : Nat) : (padded width k).map (fun c => c.toNat - 48) = Decimal.padded width k := by
    rw [padded,List.map_map]
    apply (List.map_congr_left fun d member => ?_).trans (List.map_id _)
    exact digitChar_value d (Decimal.padded_small width k d member)
  rw [←Decimal.ofDigits_padded width n,←Decimal.ofDigits_padded width m,←back,←back,same]

theorem padded_plain (width n : Nat) : '_' ∉ padded width n := by
  intro member
  obtain ⟨d,among,same⟩ := List.mem_map.mp member
  exact digitChar_plain d (Decimal.padded_small width n d among) same

theorem padded_length (width n : Nat) : width ≤ (padded width n).length := by
  rw [padded,List.length_map,Decimal.padded_length]
  exact Nat.le_max_left ..

theorem padded_two {n : Nat} (small : n < 100) : (padded 2 n).length = 2 := by
  have short : (Decimal.digitsOf n).length ≤ 2 := Decimal.digitsOf_length_le (by decide) small
  rw [padded,List.length_map,Decimal.padded_length]
  omega

-- Without anything between them, the fields are told apart from the end: those of the tile have two
-- digits each, and the rest is the map's, of whatever length.
theorem terrainName_injective (small : tile.gx < 100 ∧ tile.gy < 100) (tiny : place.gx < 100 ∧ place.gy < 100)
    (same : terrainName map tile = terrainName other place) : map = other ∧ tile = place := by
  obtain ⟨gx,gy⟩ := tile
  obtain ⟨hx,hy⟩ := place
  have digits := List.append_cancel_right same
  obtain ⟨front,last⟩ := List.append_inj' digits ((padded_two small.2).trans (padded_two tiny.2).symm)
  obtain ⟨first,middle⟩ := List.append_inj' front ((padded_two small.1).trans (padded_two tiny.1).symm)
  rw [Tile.mk.injEq]
  exact ⟨MapId.order_inj.mp (padded_injective first),padded_injective middle,padded_injective last⟩

theorem separated {front start rest more : List Char} (plain : '_' ∉ front) (simple : '_' ∉ start)
    (same : front ++ '_' :: rest = start ++ '_' :: more) : front = start ∧ rest = more := by
  induction front generalizing start with
  | nil =>
    cases start with
    | nil => exact ⟨rfl,(List.cons.inj same).2⟩
    | cons c start => exact absurd ((List.cons.inj same).1 ▸ List.mem_cons_self) simple
  | cons c front ih =>
    cases start with
    | nil => exact absurd ((List.cons.inj same).1 ▸ List.mem_cons_self) plain
    | cons d start =>
      obtain ⟨rfl,later⟩ := List.cons.inj same
      obtain ⟨rfl,rfl⟩ := ih (List.not_mem_of_not_mem_cons plain) (List.not_mem_of_not_mem_cons simple) later
      exact ⟨rfl,rfl⟩

-- Between fields that are set apart no digit can change sides.
theorem collisionName_injective (same : collisionName map tile = collisionName other place) :
    map = other ∧ tile = place := by
  obtain ⟨gx,gy⟩ := tile
  obtain ⟨hx,hy⟩ := place
  have joined : padded 4 map.order ++ '_' :: (padded 2 gx ++ '_' :: (padded 2 gy ++ ".vmtile".toList)) =
      padded 4 other.order ++ '_' :: (padded 2 hx ++ '_' :: (padded 2 hy ++ ".vmtile".toList)) := by
    simpa [collisionName] using same
  obtain ⟨first,rest⟩ := separated (padded_plain 4 map.order) (padded_plain 4 other.order) joined
  obtain ⟨middle,last⟩ := separated (padded_plain 2 gx) (padded_plain 2 hx) rest
  rw [Tile.mk.injEq]
  exact ⟨MapId.order_inj.mp (padded_injective first),padded_injective middle,
    padded_injective (List.append_cancel_right last)⟩

theorem terrainPath_injective (small : tile.gx < 100 ∧ tile.gy < 100) (tiny : place.gx < 100 ∧ place.gy < 100)
    (same : terrainPath map tile = terrainPath other place) : map = other ∧ tile = place := by
  have names := (List.cons.inj (List.cons.inj same).2).1
  exact terrainName_injective small tiny (String.ofList_injective names)

theorem collisionPath_injective (same : collisionPath map tile = collisionPath other place) :
    map = other ∧ tile = place := by
  have names := (List.cons.inj (List.cons.inj same).2).1
  exact collisionName_injective (String.ofList_injective names)

def Named (path : Path) : Prop := ∀ part ∈ path, 2 < part.toList.length

theorem terrainPath_named (map : MapId) (tile : Tile) : Named (terrainPath map tile) := by
  have long := padded_length 4 map.order
  simp only [Named,terrainPath,terrainName,List.forall_mem_cons,String.toList_ofList,List.length_append]
  exact ⟨by decide,by omega,List.forall_mem_nil _⟩

theorem collisionPath_named (map : MapId) (tile : Tile) : Named (collisionPath map tile) := by
  have long := padded_length 4 map.order
  simp only [Named,collisionPath,collisionName,List.forall_mem_cons,String.toList_ofList,List.length_append]
  exact ⟨by decide,by omega,List.forall_mem_nil _⟩

theorem follow_path {path : Path} (named : Named path) (start : Path) : path.foldl Route.follow start = start ++ path := by
  induction path generalizing start with
  | nil => exact (List.append_nil start).symm
  | cons part rest ih =>
    obtain ⟨long,later⟩ := List.forall_mem_cons.mp named
    rw [List.foldl_cons,Route.follow_named long,ih later,List.append_assoc]
    rfl

theorem place?_apart {tree : FileTree} {root : Route} {one two file : Path} (named : Named one) (plain : Named two)
    (led : tree.place? (root.join one) = some file) (also : tree.place? (root.join two) = some file) : one = two := by
  have first := FileTree.trace_target (FileTree.place?_iff.mp led)
  have second := FileTree.trace_target (FileTree.place?_iff.mp also)
  simp only [FileTree.target,Route.join,List.foldl_append,follow_path named,follow_path plain] at first second
  exact List.append_cancel_left (first.symm.trans second)

def Apart (root : Route) (one two : Path) : Prop :=
  root.join one ≠ root.join two ∧
    ∀ (tree : FileTree) (file : Path), tree.place? (root.join one) = some file → tree.place? (root.join two) ≠ some file

theorem apart_of_ne {one two : Path} (named : Named one) (plain : Named two) (apart : one ≠ two) (root : Route) :
    Apart root one two := by
  constructor
  · intro same
    apply apart
    exact List.append_cancel_left (congrArg Route.parts same)
  · intro tree file led also
    exact apart (place?_apart named plain led also)

theorem tile?_small {cell : Cell} (found : cell.tile? = some tile) : tile.gx < gridCount ∧ tile.gy < gridCount := by
  unfold Cell.tile? at found
  dsimp only at found
  split at found
  · rename_i inside
    cases found
    simp only
    omega
  · cases found

theorem mem_allTiles : tile ∈ allTiles ↔ tile.gx < gridCount ∧ tile.gy < gridCount := by
  obtain ⟨gx,gy⟩ := tile
  simp [allTiles]

-- No two tiles have one file, as long as the coordinates of tiles with terrain have two digits, and without
-- any bound where they have collision geometry.
theorem tiles_apart (root : Route) (map other : MapId) (tile place : Tile) :
    ((map,tile) ≠ (other,place) → tile.gx < 100 ∧ tile.gy < 100 → place.gx < 100 ∧ place.gy < 100 →
      Apart root (terrainPath map tile) (terrainPath other place)) ∧
    ((map,tile) ≠ (other,place) → Apart root (collisionPath map tile) (collisionPath other place)) ∧
    Apart root (terrainPath map tile) (collisionPath other place) ∧
    (tile ∈ allTiles ∨ (∃ cell : Cell, cell.tile? = some tile) → tile.gx < 64 ∧ tile.gy < 64) := by
  refine ⟨?_,?_,?_,?_⟩
  · intro different small tiny
    apply apart_of_ne (terrainPath_named map tile) (terrainPath_named other place)
    intro same
    obtain ⟨rfl,rfl⟩ := terrainPath_injective small tiny same
    exact different rfl
  · intro different
    apply apart_of_ne (collisionPath_named map tile) (collisionPath_named other place)
    intro same
    obtain ⟨rfl,rfl⟩ := collisionPath_injective same
    exact different rfl
  · apply apart_of_ne (terrainPath_named map tile) (collisionPath_named other place)
    intro same
    exact absurd (List.cons.inj same).1 (by decide)
  · rintro (listed | ⟨cell,found⟩)
    · exact mem_allTiles.mp listed
    · exact tile?_small found

theorem tiles_apart_longest :
    terrainName ⟨4294967295⟩ ⟨63,0⟩ = "42949672956300.map".toList ∧
    terrainName ⟨429496729⟩ ⟨56,30⟩ = "4294967295630.map".toList ∧
    Apart (.ofText "data") (terrainPath ⟨4294967295⟩ ⟨63,0⟩) (terrainPath ⟨429496729⟩ ⟨56,30⟩) ∧
    Apart (.ofText "data") (collisionPath ⟨4294967295⟩ ⟨63,0⟩) (collisionPath ⟨429496729⟩ ⟨5630,0⟩) := by
  refine ⟨by decide +kernel,by decide +kernel,?_,?_⟩
  · exact (tiles_apart (.ofText "data") ⟨4294967295⟩ ⟨429496729⟩ ⟨63,0⟩ ⟨56,30⟩).1 (by decide) (by decide) (by decide)
  · exact (tiles_apart (.ofText "data") ⟨4294967295⟩ ⟨429496729⟩ ⟨63,0⟩ ⟨5630,0⟩).2.1 (by decide)

-- With three digits in a field the names of terrain run into each other.
example : terrainName ⟨1000⟩ ⟨100,10⟩ = terrainName ⟨10001⟩ ⟨0,10⟩ := by decide +kernel

end Terrain
end LiveMaps
