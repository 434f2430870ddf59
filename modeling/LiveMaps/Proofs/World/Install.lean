import LiveMaps.Proofs.World.Sound

namespace LiveMaps.World
open Ordered Ancestry
variable {w after : World} {b : BaseMap} {d : MapDefinition} {map root other : MapId}

def newFamily (w : World) (root : MapId) : List BaseMap :=
  ((w.catalog.family root).filterMap w.catalog.definition?).map (w.build (w.catalog.family root))

theorem install_maps (w : World) (root : MapId) :
    (w.install root).maps = insertAll BaseMap.order (w.newFamily root) w.maps := rfl

theorem build_parts (w : World) (family : List MapId) (d : MapDefinition) :
    (w.build family d).map = d.id ∧ (w.build family d).serial = w.born + family.idxOf d.id ∧
      (w.build family d).own.definition = d ∧ (w.build family d).own.instanceId = .base ∧
      (w.build family d).copies = [] ∧ (w.build family d).isInstanceable = d.kind.instanceable := by
  unfold build
  dsimp only
  split
  · rename_i instanceable
    exact ⟨rfl,rfl,rfl,rfl,rfl,instanceable.symm⟩
  · rename_i plain
    exact ⟨rfl,rfl,rfl,rfl,rfl,(Bool.not_eq_true _ ▸ plain).symm⟩

theorem build_sound (w : World) (family : List MapId) (found : w.catalog.definition? map = some d) :
    (w.build family d).Sound w.catalog := by
  obtain ⟨id,_,definition,base,copies,tabled⟩ := w.build_parts family d
  refine ⟨base,?_,?_,?_,?_⟩
  · rw [id,definition,Catalog.definition?_id found]
    exact found
  · rw [definition]
    exact tabled
  · rw [copies]
    exact .nil
  · rw [copies]
    intro copy member
    cases member

theorem mem_newFamily : b ∈ w.newFamily root ↔ ∃ d, w.catalog.definition? d.id = some d ∧
    d.id ∈ w.catalog.family root ∧ b = w.build (w.catalog.family root) d := by
  simp only [newFamily,List.mem_map,List.mem_filterMap]
  constructor
  · rintro ⟨d,⟨map,member,found⟩,rfl⟩
    have id := Catalog.definition?_id found
    exact ⟨d,id.symm ▸ found,id.symm ▸ member,rfl⟩
  · rintro ⟨d,found,member,rfl⟩
    exact ⟨d,⟨d.id,member,found⟩,rfl⟩

theorem family_ids (c : Catalog) {family : List MapId}
    (defined : ∀ map ∈ family, (c.definition? map).isSome) :
    (family.filterMap c.definition?).map MapDefinition.id = family := by
  induction family with
  | nil => rfl
  | cons map rest ih =>
    obtain ⟨d,found⟩ := Option.isSome_iff_exists.mp (defined map List.mem_cons_self)
    rw [List.filterMap_cons_some found,List.map_cons,Catalog.definition?_id found,
      ih fun other member => defined other (List.mem_cons_of_mem _ member)]

section Fresh
variable (sound : w.Sound) (top : w.catalog.RootOf root root) (fresh : root ∉ w.registeredIds)

include sound top

theorem newFamily_ids : (w.newFamily root).map BaseMap.map = w.catalog.family root := by
  have each : BaseMap.map ∘ w.build (w.catalog.family root) = MapDefinition.id :=
    funext fun d => (w.build_parts _ d).1
  unfold newFamily
  rw [List.map_map,each]
  refine family_ids w.catalog fun map member => ?_
  exact ((sound.forest.mem_family top).mp member).defined

-- The new maps take the next serials, in the order in which they are built.
theorem newFamily_serials : (w.newFamily root).flatMap BaseMap.serials =
    List.range' w.born (w.catalog.family root).length := by
  have each : ∀ b ∈ w.newFamily root,
      b.serials = [w.born + (w.catalog.family root).idxOf b.map] := by
    intro b member
    obtain ⟨d,_,_,rfl⟩ := mem_newFamily.mp member
    obtain ⟨id,serial,_,_,copies,_⟩ := w.build_parts (w.catalog.family root) d
    rw [BaseMap.serials_eq,copies,serial,id]
    rfl
  have ids := newFamily_ids sound top
  have distinct := sound.forest.family_nodup root
  rw [List.flatMap_congr each,←List.map_eq_flatMap,←Function.comp_def (fun map => w.born + List.idxOf map _),
    ←List.map_map,ids]
  refine List.ext_getElem (by simp) fun place inside _ => ?_
  rw [List.getElem_map,List.getElem_range',distinct.idxOf_getElem]
  omega

include fresh

theorem family_fresh (member : map ∈ w.catalog.family root) : map ∉ w.registeredIds := by
  intro registered
  have path := (sound.forest.mem_family top).mp member
  exact fresh (sound.families map registered root ⟨root,path,top⟩)

theorem install_perm : (w.install root).maps.Perm (w.newFamily root ++ w.maps) := by
  have ids := newFamily_ids sound top
  have orders : (w.newFamily root).map BaseMap.order = (w.catalog.family root).map MapId.order := by
    rw [←ids,List.map_map]
    rfl
  rw [install_maps]
  refine insertAll_perm sound.ascending ?_ fun old member among => ?_
  · rw [orders]
    exact (sound.forest.family_nodup root).map fun one two same => MapId.order_inj.mp same
  · rw [orders] at among
    obtain ⟨map,below,same⟩ := List.mem_map.mp among
    have same : map = old.map := MapId.order_inj.mp same
    exact family_fresh sound top fresh below (mem_registeredIds.mpr ⟨old,member,same.symm⟩)

theorem install_registered : (w.install root).registeredIds.Perm (w.catalog.family root ++ w.registeredIds) := by
  have ids := (install_perm sound top fresh).map BaseMap.map
  rwa [List.map_append,newFamily_ids sound top] at ids

theorem mem_install_registered :
    map ∈ (w.install root).registeredIds ↔ w.catalog.RootOf map root ∨ map ∈ w.registeredIds := by
  rw [(install_registered sound top fresh).mem_iff,List.mem_append,sound.forest.mem_family top]

theorem install_serials : (w.install root).serials.Perm
    (List.range' w.born (w.catalog.family root).length ++ w.serials) := by
  have placed := (install_perm sound top fresh).flatMap_right BaseMap.serials
  rw [List.flatMap_append,newFamily_serials sound top] at placed
  rw [serials_eq,serials_eq]
  simp only [hosts,List.flatMap_append,List.append_assoc]
  rw [←List.append_assoc (List.range' _ _)]
  exact placed.append_right _

theorem install_sound : (w.install root).Sound := by
  have placed := install_perm sound top fresh
  have together := install_serials sound top fresh
  refine ⟨sound.forest,insertAll_ascending sound.ascending _,?_,?_,?_,?_,sound.ids⟩
  · intro b member
    rcases List.mem_append.mp member with registered | retired
    · rcases List.mem_append.mp (placed.mem_iff.mp registered) with new | old
      · obtain ⟨d,found,_,rfl⟩ := mem_newFamily.mp new
        exact w.build_sound _ found
      · exact sound.bases b (List.mem_append_left _ old)
    · exact sound.bases b (List.mem_append_right _ retired)
  · intro one registered two same
    rw [mem_install_registered sound top fresh] at registered ⊢
    rcases registered with path | old
    · obtain ⟨root',up,down⟩ := same
      cases path.unique up
      exact .inl down
    · exact .inr (sound.families one old two same)
  · rw [together.nodup_iff,List.nodup_append]
    refine ⟨List.nodup_range',sound.distinct,?_⟩
    rintro serial new _ old rfl
    have := List.mem_range'_1.mp new
    have := sound.born serial old
    omega
  · intro serial member
    change serial < w.born + (w.catalog.family root).length
    rcases List.mem_append.mp (together.mem_iff.mp member) with new | old
    · exact (List.mem_range'_1.mp new).2
    · exact Nat.lt_of_lt_of_le (sound.born serial old) (Nat.le_add_right _ _)

theorem base?_install_old (found : w.base? map = some b) : (w.install root).base? map = some b := by
  obtain ⟨member,same⟩ := base?_parts found
  have placed := install_perm sound top fresh
  refine (base?_iff (install_sound sound top fresh).ascending).mpr ⟨?_,same⟩
  exact placed.mem_iff.mpr (List.mem_append_right _ member)

theorem base?_install_new (path : w.catalog.RootOf map root) (found : w.catalog.definition? map = some d) :
    (w.install root).base? map = some (w.build (w.catalog.family root) d) := by
  have placed := install_perm sound top fresh
  have id := Catalog.definition?_id found
  refine (base?_iff (install_sound sound top fresh).ascending).mpr ⟨?_,?_⟩
  · refine placed.mem_iff.mpr (List.mem_append_left _ (mem_newFamily.mpr ⟨d,?_,?_,rfl⟩))
    · rwa [id]
    · rw [id]
      exact (sound.forest.mem_family top).mpr path
  · exact (w.build_parts _ d).1.trans id

end Fresh

theorem ensure_registered (depth : Nat) (registered : map ∈ w.registeredIds) :
    w.ensure depth map = (w,none) := by
  rw [←base?_isSome] at registered
  unfold ensure
  exact if_pos registered

theorem ensure_undefined (depth : Nat) (unregistered : map ∉ w.registeredIds)
    (undefined : w.catalog.definition? map = none) :
    w.ensure depth map = (w,some (.catalog (.unknownMap map))) := by
  rw [←base?_isSome] at unregistered
  unfold ensure
  rw [if_neg unregistered,undefined]

-- The first map of a family to be asked for brings the whole family, by way of the
-- root. The depth has only to allow for the way up.
theorem ensure_new (sound : w.Sound) (path : w.catalog.RootOf map root)
    (unregistered : map ∉ w.registeredIds) {depth : Nat}
    (deep : ∀ steps, climb w.catalog.terrainParent? steps map = some root → steps ≤ depth) :
    root ∉ w.registeredIds ∧ w.ensure depth map = (w.install root,none) := by
  induction path generalizing depth with
  | root found top =>
    refine ⟨unregistered,?_⟩
    rw [←base?_isSome] at unregistered
    unfold ensure
    rw [if_neg unregistered,found]
    dsimp only
    rw [top]
  | @up map d parent root found above path ih =>
    have up : w.catalog.terrainParent? map = some parent :=
      Catalog.terrainParent?_iff.mpr ⟨d,found,above⟩
    have whole : w.catalog.RootOf map root := .up found above path
    obtain ⟨steps,reached⟩ := path.reached
    have room := deep (steps + 1) ((climb_succ up).trans reached)
    obtain ⟨depth,rfl⟩ : ∃ less, depth = less + 1 := ⟨depth - 1,by omega⟩
    have parentless : parent ∉ w.registeredIds := fun registered =>
      unregistered (sound.families parent registered map ⟨root,path,whole⟩)
    obtain ⟨fresh,ran⟩ := ih parentless fun steps reached =>
      Nat.le_of_succ_le_succ (deep (steps + 1) ((climb_succ up).trans reached))
    refine ⟨fresh,?_⟩
    have brought : map ∈ (w.install root).registeredIds :=
      (mem_install_registered sound path.top fresh).mpr (.inl whole)
    rw [←base?_isSome] at unregistered brought
    unfold ensure
    rw [if_neg unregistered,found]
    dsimp only
    rw [above]
    dsimp only
    rw [ran]
    exact if_pos brought

theorem Sound.registered_defined (sound : w.Sound) (registered : map ∈ w.registeredIds) :
    (w.catalog.definition? map).isSome := by
  obtain ⟨b,member,rfl⟩ := mem_registeredIds.mp registered
  rw [(sound.bases b (List.mem_append_left _ member)).defined]
  rfl

theorem createBase_unknown (sound : w.Sound) (undefined : w.catalog.definition? map = none) :
    w.createBase map = (w,.error (.catalog (.unknownMap map))) := by
  have unregistered : map ∉ w.registeredIds := fun registered => by
    have defined := sound.registered_defined registered
    rw [undefined] at defined
    cases defined
  unfold createBase
  rw [ensure_undefined _ unregistered undefined]

theorem createBase_known (sound : w.Sound) (path : w.catalog.RootOf map root) :
    ∃ after b, w.createBase map = (after,.ok b) ∧ after.base? map = some b ∧
      (after = w ∧ map ∈ w.registeredIds ∨ after = w.install root ∧ root ∉ w.registeredIds) := by
  have answered (ensured : World × Option MapError) (ran : w.ensure w.catalog.definitions.length map = ensured)
      (done : ensured.2 = none) (registered : map ∈ ensured.1.registeredIds) :
      ∃ b, w.createBase map = (ensured.1,.ok b) ∧ ensured.1.base? map = some b := by
    obtain ⟨after,outcome⟩ := ensured
    cases done
    obtain ⟨b,found⟩ := Option.isSome_iff_exists.mp (base?_isSome.mpr registered)
    refine ⟨b,?_,found⟩
    unfold createBase
    rw [ran]
    dsimp only
    rw [found]
  by_cases registered : map ∈ w.registeredIds
  · obtain ⟨b,ran,found⟩ := answered _ (ensure_registered _ registered) rfl registered
    exact ⟨w,b,ran,found,.inl ⟨rfl,registered⟩⟩
  · obtain ⟨fresh,ensured⟩ := ensure_new sound path registered fun steps reached =>
      Nat.le_of_lt (sound.forest.climb_bounded path.defined reached)
    have brought := (mem_install_registered sound path.top fresh).mpr (.inl path)
    obtain ⟨b,ran,found⟩ := answered _ ensured rfl brought
    exact ⟨w.install root,b,ran,found,.inr ⟨rfl,fresh⟩⟩

theorem createBase_cases (sound : w.Sound) (map : MapId) : (w.createBase map).1 = w ∨
    ∃ root, w.catalog.RootOf root root ∧ root ∉ w.registeredIds ∧ (w.createBase map).1 = w.install root := by
  cases defined : w.catalog.definition? map with
  | none =>
    rw [createBase_unknown sound defined]
    exact .inl rfl
  | some d =>
    obtain ⟨root,path⟩ := sound.forest.rootOf_exists (Option.isSome_of_eq_some defined)
    obtain ⟨after,b,ran,_,⟨rfl,_⟩ | ⟨rfl,fresh⟩⟩ := createBase_known sound path
    · rw [ran]
      exact .inl rfl
    · rw [ran]
      exact .inr ⟨root,path.top,fresh,rfl⟩

end LiveMaps.World
