import LiveMaps.Proofs.World.Install
import Mathlib.Data.List.Perm.Basic

namespace LiveMaps

def Event.isStateLoaded : Event → Bool
  | .stateLoaded .. => true
  | _ => false

namespace World
open Ordered Ancestry
variable {w after : World} {b : BaseMap} {d : MapDefinition} {map root other asked : MapId}

def visit (w : World) (asks : List MapId) : World := asks.foldl (fun w map => (w.createBase map).1) w

def loadedFor (w : World) (map : MapId) : Event :=
  .stateLoaded map (w.saved.respawnsIn map .base).length (w.saved.corpsesIn map .base).length

def loadedDefinition (w : World) (d : MapDefinition) : List Event :=
  if d.kind.instanceable then [] else [w.loadedFor d.id]

-- What calls for base maps alone keep besides: children stand below their parents,
-- and the maps without copies, no others, have loaded what was saved for them.
structure Tended (w : World) : Prop where
  sound : w.Sound
  children : ∀ b ∈ w.maps, b.own.childTerrain.map some =
    (w.catalog.childrenOf b.map).map (fun child => (w.base? child).map BaseMap.serial)
  loaded : ∀ b ∈ w.maps, (b.own.respawns,b.own.corpses) = if b.isInstanceable then ([],[])
    else (w.saved.respawnsIn b.map .base,w.saved.corpsesIn b.map .base)
  told : (w.journal.filter Event.isStateLoaded).Perm
    ((w.maps.filter (fun b => !b.isInstanceable)).map (fun b => w.loadedFor b.map))

theorem start_tended {catalog : Catalog} (forest : catalog.Forest) (config : WorldConfig)
    (tiles : Terrain.TileSource) (saved : SavedState) : (start catalog config tiles saved).Tended where
  sound := start_sound forest config tiles saved
  children := fun b member => by cases member
  loaded := fun b member => by cases member
  told := .refl _

theorem creationEvents_loaded (sound : w.Sound) (n : Nat) (defined : (w.catalog.definition? map).isSome) :
    ((w.creationEvents n map).filter Event.isStateLoaded).Perm
      (((w.catalog.familyWithin n map).filterMap w.catalog.definition?).flatMap w.loadedDefinition) := by
  -- A map reports what it loaded after its children, its definition comes before them.
  have own (d : MapDefinition) : (if d.kind.instanceable then [] else
      [((w.build [] d).own.loadEvent w.saved)]) = w.loadedDefinition d := by
    obtain ⟨id,_,_,base,_,_⟩ := w.build_parts [] d
    have id : (w.build [] d).own.map = d.id := id
    simp only [LiveMap.loadEvent,base,id]
    rfl
  have quiet (d : MapDefinition) : (w.loadedDefinition d).filter Event.isStateLoaded = w.loadedDefinition d := by
    unfold loadedDefinition
    split <;> rfl
  obtain ⟨d,found⟩ := Option.isSome_iff_exists.mp defined
  induction n generalizing map d with
  | zero =>
    unfold creationEvents
    simp only [found,own,Catalog.familyWithin]
    simp [LiveMap.discoverEvent,Event.isStateLoaded,found,quiet]
  | succ n ih =>
    have below : (((w.catalog.childrenOf map).flatMap (w.creationEvents n)).filter Event.isStateLoaded).Perm
        ((((w.catalog.childrenOf map).flatMap (w.catalog.familyWithin n)).filterMap
          w.catalog.definition?).flatMap w.loadedDefinition) := by
      rw [List.filter_flatMap,List.filterMap_flatMap,List.flatMap_assoc]
      refine List.Perm.flatMap_left _ fun child member => ?_
      have up := sound.forest.mem_childrenOf.mp member
      have defined := (sound.forest.parent_defined up).1
      obtain ⟨d,found⟩ := Option.isSome_iff_exists.mp defined
      exact ih defined d found
    have reported : (w.creationEvents (n + 1) map).filter Event.isStateLoaded =
        ((w.catalog.childrenOf map).flatMap (w.creationEvents n)).filter Event.isStateLoaded ++
          w.loadedDefinition d := by
      rw [creationEvents]
      simp only [found,own]
      simp [LiveMap.discoverEvent,Event.isStateLoaded,quiet]
    rw [reported]
    simp only [Catalog.familyWithin,List.filterMap_cons_some found,List.flatMap_cons]
    exact (below.append_right _).trans List.perm_append_comm

theorem loadedDefinition_build (w : World) (family : List MapId) (definitions : List MapDefinition) :
    definitions.flatMap w.loadedDefinition =
      ((definitions.map (w.build family)).filter (fun b => !b.isInstanceable)).map
        (fun b => w.loadedFor b.map) := by
  induction definitions with
  | nil => rfl
  | cons d rest ih =>
    obtain ⟨id,_,_,_,_,tabled⟩ := w.build_parts family d
    rw [List.flatMap_cons,List.map_cons,List.filter_cons,tabled,ih]
    unfold loadedDefinition
    split <;> simp_all

theorem build_state (w : World) (family : List MapId) (d : MapDefinition) :
    (w.build family d).own.childTerrain =
        (w.catalog.childrenOf d.id).map (fun child => w.born + family.idxOf child) ∧
      ((w.build family d).own.respawns,(w.build family d).own.corpses) =
        if d.kind.instanceable then ([],[])
        else (w.saved.respawnsIn d.id .base,w.saved.corpsesIn d.id .base) := by
  unfold build
  dsimp only
  split
  · exact ⟨rfl,rfl⟩
  · exact ⟨rfl,rfl⟩

theorem install_tended (tended : w.Tended) (top : w.catalog.RootOf root root)
    (fresh : root ∉ w.registeredIds) : (w.install root).Tended := by
  have sound := tended.sound
  have placed := install_perm sound top fresh
  refine ⟨install_sound sound top fresh,?_,?_,?_⟩
  · intro b member
    rcases List.mem_append.mp (placed.mem_iff.mp member) with new | old
    · obtain ⟨d,found,among,rfl⟩ := mem_newFamily.mp new
      have path := (sound.forest.mem_family top).mp among
      rw [(w.build_state _ d).1,(w.build_parts _ d).1,List.map_map]
      refine List.map_congr_left fun child below => ?_
      have up := sound.forest.mem_childrenOf.mp below
      obtain ⟨child',found'⟩ := Option.isSome_iff_exists.mp (sound.forest.parent_defined up).1
      rw [base?_install_new sound top fresh (.of_parent up path) found',Option.map_some,
        (w.build_parts _ child').2.1,Catalog.definition?_id found']
      rfl
    · rw [tended.children b old]
      refine List.map_congr_left fun child below => ?_
      have up := sound.forest.mem_childrenOf.mp below
      have registered : b.map ∈ w.registeredIds := mem_registeredIds.mpr ⟨b,old,rfl⟩
      obtain ⟨root',path⟩ := sound.forest.rootOf_exists (sound.registered_defined registered)
      have beside := sound.families b.map registered child ⟨root',path,.of_parent up path⟩
      obtain ⟨entry,found⟩ := Option.isSome_iff_exists.mp (base?_isSome.mpr beside)
      rw [base?_install_old sound top fresh found,found]
  · intro b member
    rcases List.mem_append.mp (placed.mem_iff.mp member) with new | old
    · obtain ⟨d,_,_,rfl⟩ := mem_newFamily.mp new
      obtain ⟨id,_,_,_,_,tabled⟩ := w.build_parts (w.catalog.family root) d
      rw [id,tabled]
      exact (w.build_state _ d).2
    · exact tended.loaded b old
  · have events : ((w.creationEvents w.catalog.definitions.length root).filter Event.isStateLoaded).Perm
        (((w.newFamily root).filter (fun b => !b.isInstanceable)).map (fun b => w.loadedFor b.map)) := by
      rw [newFamily,←loadedDefinition_build]
      exact creationEvents_loaded sound _ top.defined
    have whole := (placed.filter (fun b => !b.isInstanceable)).map (fun b => w.loadedFor b.map)
    rw [List.filter_append,List.map_append] at whole
    refine List.Perm.trans ?_ whole.symm
    change ((w.journal ++ w.creationEvents w.catalog.definitions.length root).filter _).Perm _
    rw [List.filter_append]
    exact (tended.told.append events).trans List.perm_append_comm

theorem createBase_tended (tended : w.Tended) (map : MapId) : (w.createBase map).1.Tended := by
  rcases createBase_cases tended.sound map with same | ⟨root,top,fresh,installed⟩
  · rwa [same]
  · rw [installed]
    exact install_tended tended top fresh

theorem createBase_frame (sound : w.Sound) (map : MapId) :
    (w.createBase map).1.catalog = w.catalog ∧ (w.createBase map).1.saved = w.saved := by
  rcases createBase_cases sound map with same | ⟨root,_,_,installed⟩
  · rw [same]
    exact ⟨rfl,rfl⟩
  · rw [installed]
    exact ⟨rfl,rfl⟩

theorem createBase_kept (sound : w.Sound) (found : w.base? map = some b) (asked : MapId) :
    (w.createBase asked).1.base? map = some b := by
  rcases createBase_cases sound asked with same | ⟨root,top,fresh,installed⟩
  · rwa [same]
  · rw [installed]
    exact base?_install_old sound top fresh found

theorem mem_createBase_registered (sound : w.Sound) : map ∈ (w.createBase asked).1.registeredIds ↔
    map ∈ w.registeredIds ∨ w.catalog.SameFamily map asked := by
  cases defined : w.catalog.definition? asked with
  | none =>
    rw [createBase_unknown sound defined]
    refine ⟨.inl,fun either => either.elim id fun ⟨root,_,path⟩ => ?_⟩
    have := path.defined
    rw [defined] at this
    cases this
  | some d =>
    obtain ⟨root,path⟩ := sound.forest.rootOf_exists (Option.isSome_of_eq_some defined)
    obtain ⟨after,b,ran,_,⟨rfl,registered⟩ | ⟨rfl,fresh⟩⟩ := createBase_known sound path
    · rw [ran]
      exact ⟨.inl,fun either => either.elim id fun same =>
        sound.families asked registered map same.symm⟩
    · rw [ran,mem_install_registered sound path.top fresh,or_comm]
      refine or_congr_right ⟨fun below => ⟨root,below,path⟩,fun ⟨root',up,down⟩ => ?_⟩
      cases path.unique down
      exact up

theorem visit_parts (tended : w.Tended) (asks : List MapId) : (w.visit asks).Tended ∧
    (w.visit asks).catalog = w.catalog ∧ (w.visit asks).saved = w.saved ∧
      ∀ map, map ∈ (w.visit asks).registeredIds ↔
        map ∈ w.registeredIds ∨ ∃ asked ∈ asks, w.catalog.SameFamily map asked := by
  induction asks generalizing w with
  | nil => exact ⟨tended,rfl,rfl,fun map => by simp [visit]⟩
  | cons asked rest ih =>
    obtain ⟨kept,catalog,saved,registered⟩ := ih (createBase_tended tended asked)
    obtain ⟨catalog',saved'⟩ := createBase_frame tended.sound asked
    refine ⟨kept,catalog.trans catalog',saved.trans saved',fun map => (registered map).trans ?_⟩
    rw [mem_createBase_registered tended.sound,catalog']
    simp [or_assoc]

theorem Sound.registeredIds_ascending (sound : w.Sound) : Ascending MapId.order w.registeredIds := by
  unfold Ascending registeredIds
  rw [List.pairwise_map]
  exact sound.ascending

-- Neither the order of the calls nor their repetition shows in what is registered.
theorem visit_registered_congr (tended : w.Tended) {asks others : List MapId}
    (same : ∀ map, map ∈ others ↔ map ∈ asks) :
    (w.visit others).registeredIds = (w.visit asks).registeredIds := by
  obtain ⟨first,_,_,members⟩ := visit_parts tended others
  obtain ⟨second,_,_,members'⟩ := visit_parts tended asks
  refine first.sound.registeredIds_ascending.ext second.sound.registeredIds_ascending fun map => ?_
  rw [members,members']
  simp only [same]

theorem ensure_deeper (sound : w.Sound) (map : MapId) {depth : Nat}
    (deep : w.catalog.definitions.length ≤ depth) :
    w.ensure depth map = w.ensure w.catalog.definitions.length map := by
  by_cases registered : map ∈ w.registeredIds
  · rw [ensure_registered _ registered,ensure_registered _ registered]
  · cases defined : w.catalog.definition? map with
    | none => rw [ensure_undefined _ registered defined,ensure_undefined _ registered defined]
    | some d =>
      obtain ⟨root,path⟩ := sound.forest.rootOf_exists (Option.isSome_of_eq_some defined)
      have short (steps : Nat) (reached : climb w.catalog.terrainParent? steps map = some root) :
          steps ≤ w.catalog.definitions.length :=
        sound.forest.climb_within reached
      rw [(ensure_new sound path registered fun steps reached => Nat.le_trans (short steps reached) deep).2,
        (ensure_new sound path registered short).2]

theorem creationEvents_deeper (sound : w.Sound) (n more : Nat)
    (shallow : ∀ steps below, climb w.catalog.terrainParent? steps below = some map → steps ≤ n) :
    w.creationEvents (n + more) map = w.creationEvents n map := by
  induction n generalizing map with
  | zero =>
    cases more with
    | zero => rfl
    | succ more =>
      rw [Nat.zero_add]
      unfold creationEvents
      simp only [sound.forest.childless_of_shallow shallow,List.flatMap_nil]
  | succ n ih =>
    rw [Nat.add_right_comm]
    unfold creationEvents
    split
    · rfl
    · dsimp only
      rw [List.flatMap_congr fun child member => ih ?_]
      exact Catalog.Forest.shallow_child (sound.forest.mem_childrenOf.mp member) shallow

theorem Sound.deeper (sound : w.Sound) (map : MapId) {depth : Nat}
    (deep : w.catalog.definitions.length ≤ depth) :
    w.ensure depth map = w.ensure w.catalog.definitions.length map ∧
      w.catalog.familyWithin depth map = w.catalog.family map ∧
      w.creationEvents depth map = w.creationEvents w.catalog.definitions.length map := by
  have shallow (steps : Nat) (below : MapId)
      (reached : climb w.catalog.terrainParent? steps below = some map) :
      steps ≤ w.catalog.definitions.length := sound.forest.climb_within reached
  obtain ⟨more,rfl⟩ := Nat.le.dest deep
  exact ⟨ensure_deeper sound map deep,sound.forest.familyWithin_deeper more shallow,
    creationEvents_deeper sound _ more shallow⟩

theorem Tended.child_hosts (tended : w.Tended) (member : b ∈ w.maps) :
    b.own.childTerrain.map w.host? = (w.catalog.childrenOf b.map).map w.base? := by
  have sound := tended.sound
  have held := congrArg (List.map (Option.bind · w.host?)) (tended.children b member)
  rw [List.map_map,List.map_map] at held
  refine held.trans (List.map_congr_left fun child below => ?_)
  cases found : w.base? child with
  | none => simp [found]
  | some entry =>
    have host := host?_serial sound.distinct (List.mem_append_left _ (base?_parts found).1)
    simp [found,host]

theorem Tended.children_registered (tended : w.Tended) (member : b ∈ w.maps) (child : MapId) :
    child ∈ w.catalog.childrenOf b.map ↔
      ∃ entry ∈ w.maps, entry.map = child ∧ entry.own.definition.terrainParent = some b.map := by
  have sound := tended.sound
  rw [sound.forest.mem_childrenOf]
  constructor
  · intro up
    have registered : b.map ∈ w.registeredIds := mem_registeredIds.mpr ⟨b,member,rfl⟩
    obtain ⟨root,path⟩ := sound.forest.rootOf_exists (sound.registered_defined registered)
    have beside := sound.families b.map registered child ⟨root,path,.of_parent up path⟩
    obtain ⟨entry,among,rfl⟩ := mem_registeredIds.mp beside
    obtain ⟨d,found,above⟩ := Catalog.terrainParent?_iff.mp up
    have defined := (sound.bases entry (List.mem_append_left _ among)).defined
    rw [defined] at found
    cases found
    exact ⟨entry,among,rfl,above⟩
  · rintro ⟨entry,among,rfl,above⟩
    have defined := (sound.bases entry (List.mem_append_left _ among)).defined
    exact Catalog.terrainParent?_iff.mpr ⟨_,defined,above⟩

-- Every run of calls for base maps on an empty registry: what the next call answers,
-- what is registered, and what the registered maps hold.
theorem visit_families {data : CatalogData} {c : Catalog} (built : Catalog.build data = .ok c)
    (config : WorldConfig) (tiles : Terrain.TileSource) (saved : SavedState) (asks : List MapId) :
    let w := (start c config tiles saved).visit asks
    (∀ map, c.definition? map = none → w.createBase map = (w,.error (.catalog (.unknownMap map)))) ∧
    (∀ map, (c.definition? map).isSome → ∃ after b, w.createBase map = (after,.ok b) ∧
      after.base? map = some b ∧
      ∀ other entry, w.base? other = some entry → after.base? other = some entry) ∧
    (∀ map depth, c.definitions.length ≤ depth →
      w.ensure depth map = w.ensure c.definitions.length map ∧
      c.familyWithin depth map = c.family map ∧
      w.creationEvents depth map = w.creationEvents c.definitions.length map) ∧
    Ascending MapId.order w.registeredIds ∧
    (∀ map, map ∈ w.registeredIds ↔ ∃ asked ∈ asks, c.SameFamily map asked) ∧
    (∀ others, (∀ map, map ∈ others ↔ map ∈ asks) →
      ((start c config tiles saved).visit others).registeredIds = w.registeredIds) ∧
    (∀ b ∈ w.maps, c.definition? b.map = some b.own.definition ∧
      b.isInstanceable = b.own.definition.kind.instanceable ∧
      b.own.childTerrain.map w.host? = (c.childrenOf b.map).map w.base? ∧
      Ascending MapId.order (c.childrenOf b.map) ∧
      (∀ child, child ∈ c.childrenOf b.map ↔
        ∃ entry ∈ w.maps, entry.map = child ∧ entry.own.definition.terrainParent = some b.map) ∧
      (b.own.respawns,b.own.corpses) = if b.isInstanceable then ([],[])
        else (saved.respawnsIn b.map .base,saved.corpsesIn b.map .base)) ∧
    (w.journal.filter Event.isStateLoaded).Perm
      ((w.maps.filter (fun b => !b.isInstanceable)).map (fun b => .stateLoaded b.map
        (saved.respawnsIn b.map .base).length (saved.corpsesIn b.map .base).length)) := by
  intro w
  have forest := Catalog.build_forest built
  have started := start_tended forest config tiles saved
  obtain ⟨tended,catalog,kept,registered⟩ : w.Tended ∧ w.catalog = c ∧ w.saved = saved ∧
      ∀ map, map ∈ w.registeredIds ↔ map ∈ [] ∨ ∃ asked ∈ asks, c.SameFamily map asked :=
    visit_parts started asks
  have congruent (others : List MapId) (same : ∀ map, map ∈ others ↔ map ∈ asks) :
      ((start c config tiles saved).visit others).registeredIds = w.registeredIds :=
    visit_registered_congr started same
  clear_value w
  have sound := tended.sound
  refine ⟨?_,?_,?_,sound.registeredIds_ascending,fun map => ?_,congruent,?_,?_⟩
  · intro map undefined
    exact createBase_unknown sound (by rwa [catalog])
  · intro map defined
    rw [←catalog] at defined
    obtain ⟨root,path⟩ := sound.forest.rootOf_exists defined
    obtain ⟨after,b,ran,found,_⟩ := createBase_known sound path
    refine ⟨after,b,ran,found,fun other entry old => ?_⟩
    have still := createBase_kept sound old map
    rwa [ran] at still
  · intro map depth deep
    rw [←catalog] at deep ⊢
    exact sound.deeper map deep
  · simpa using registered map
  · intro b member
    have whole := sound.bases b (List.mem_append_left _ member)
    have children := tended.child_hosts member
    have loaded := tended.loaded b member
    have among (child : MapId) := tended.children_registered member child
    have defined := whole.defined
    rw [catalog] at children defined
    rw [kept] at loaded
    simp only [catalog] at among
    exact ⟨defined,whole.tabled,children,forest.childrenOf_ascending b.map,among,loaded⟩
  · have told := tended.told
    simp only [loadedFor,kept] at told
    exact told

-- A grandchild asked for first, and a map without definition after it.
theorem visit_families_child_first :
    let data : CatalogData := {maps := [{id := ⟨0⟩, kind := .common},
      {id := ⟨1⟩, kind := .dungeon, parent := some ⟨0⟩},
      {id := ⟨2⟩, kind := .common, cosmeticParent := some ⟨1⟩},{id := ⟨3⟩, kind := .raid}]}
    ∃ c, Catalog.build data = .ok c ∧
      ((start c {} .none .empty).visit [⟨2⟩,⟨9⟩]).registeredIds = [⟨0⟩,⟨1⟩,⟨2⟩] ∧
      ∀ map, map ∈ ((start c {} .none .empty).visit [⟨2⟩,⟨9⟩]).registeredIds ↔
        ∃ asked ∈ [⟨2⟩,⟨9⟩], c.SameFamily map asked := by
  intro data
  obtain ⟨c,built⟩ : ∃ c, Catalog.build data = .ok c := ⟨_,rfl⟩
  obtain ⟨_,_,_,_,registered,_⟩ := visit_families built {} .none .empty [⟨2⟩,⟨9⟩]
  refine ⟨c,built,?_,registered⟩
  cases built
  decide

end World
end LiveMaps
