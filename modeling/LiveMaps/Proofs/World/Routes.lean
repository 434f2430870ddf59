import LiveMaps.Proofs.World.Install
import LiveMaps.World.Resolve

namespace LiveMaps

namespace InstanceRequest
variable {request : InstanceRequest}

theorem boundCopy?_base (bound : request.bound = some .base) : request.boundCopy? = none := by
  unfold boundCopy?
  rw [bound]
  rfl

theorem boundCopy?_iff {id : InstanceId} : request.boundCopy? = some id ↔ request.bound = some id ∧ id ≠ .base := by
  simp [boundCopy?,Option.filter_eq_some_iff,InstanceId.isBase_eq_false]

end InstanceRequest

namespace World
open Ordered

inductive Ensured (w : World) (map : MapId) : World → BaseMap → Prop where
  | known {host} : w.base? map = some host → Ensured w map w host
  | brought {root host} : w.catalog.RootOf map root → root ∉ w.registeredIds →
      (w.install root).base? map = some host → Ensured w map (w.install root) host

-- All that asking a base map for a copy can come to: the copy that was asked for, a
-- new one under the identifier that was asked for or under a fresh one, or an error.
inductive CopyRoute (w : World) (host : BaseMap) (request : InstanceRequest) :
    World × Except MapError LiveMap → Prop where
  | plain : host.table = none → CopyRoute w host request (w,.error (.notInstanceable host.map))
  | joined {id copy} : request.boundCopy? = some id → host.copy? id = some copy →
      CopyRoute w host request (w,.ok copy)
  | refused {id e} : request.boundCopy? = some id → host.copy? id = none → w.ids.claim id = .error e →
      CopyRoute w host request (w,.error (.instanceId e))
  | bound {table id ids} : host.table = some table → request.boundCopy? = some id →
      host.copy? id = none → w.ids.claim id = .ok ids →
      CopyRoute w host request (({w with ids := ids}.addCopy host table.template id request).1,
        .ok ({w with ids := ids}.addCopy host table.template id request).2)
  | spent {e} (journal) : request.boundCopy? = none → w.ids.allocate = .error e →
      CopyRoute w host request ({w with journal := journal},.error (.instanceId e))
  | stuck {id used e} : request.boundCopy? = none → w.ids.allocate = .ok (id,used) →
      used.claim id = .error e → CopyRoute w host request ({w with ids := used},.error (.instanceId e))
  | fresh {table id used ids} : host.table = some table → request.boundCopy? = none →
      w.ids.allocate = .ok (id,used) → used.claim id = .ok ids →
      CopyRoute w host request (({w with ids := ids}.addCopy host table.template id request).1,
        .ok ({w with ids := ids}.addCopy host table.template id request).2)

-- The same for the whole way from a map to where a participant lands. A copy is asked
-- for at the difficulty that the map offers.
inductive MapRoute (w : World) (map : MapId) (request : InstanceRequest) :
    World × Except MapError (Option LiveMap) → Prop where
  | unknown (shutdown journal) : w.catalog.definition? map = none → MapRoute w map request
      ({w with shutdown := shutdown, journal := journal},.error (.catalog (.unknownMap map)))
  | plain {middle host} : Ensured w map middle host → host.isInstanceable = false →
      request.boundCopy? = none → MapRoute w map request (middle,.ok (some host.own))
  | nowhere {middle host id} : Ensured w map middle host → host.isInstanceable = false →
      request.boundCopy? = some id → MapRoute w map request (middle,.ok none)
  | copy {middle host difficulty after copy} : Ensured w map middle host → host.isInstanceable = true →
      CopyRoute middle host {request with difficulty := difficulty} (after,.ok copy) →
      MapRoute w map request (after,.ok (some copy))
  | failed {middle host difficulty after e} (shutdown journal) : Ensured w map middle host →
      host.isInstanceable = true →
      CopyRoute middle host {request with difficulty := difficulty} (after,.error e) →
      MapRoute w map request ({after with shutdown := shutdown, journal := journal},.error e)

variable {w middle after : World} {host b : BaseMap} {map : MapId} {request : InstanceRequest}

theorem createBase_registered (found : w.base? map = some b) : w.createBase map = (w,.ok b) := by
  have registered : map ∈ w.registeredIds := base?_isSome.mp (Option.isSome_of_eq_some found)
  unfold createBase
  rw [ensure_registered _ registered]
  dsimp only
  rw [found]

theorem createBase_ensured (sound : w.Sound) {d : MapDefinition} (defined : w.catalog.definition? map = some d) :
    ∃ middle host, w.createBase map = (middle,.ok host) ∧ Ensured w map middle host := by
  obtain ⟨root,path⟩ := sound.forest.rootOf_exists (Option.isSome_of_eq_some defined)
  obtain ⟨middle,host,ran,found,⟨rfl,_⟩ | ⟨rfl,fresh⟩⟩ := createBase_known sound path
  · exact ⟨middle,host,ran,.known found⟩
  · exact ⟨w.install root,host,ran,.brought path fresh found⟩

theorem Ensured.found (ensured : Ensured w map middle host) : middle.base? map = some host := by
  cases ensured with
  | known found => exact found
  | brought _ _ found => exact found

theorem Ensured.sound (ensured : Ensured w map middle host) (sound : w.Sound) : middle.Sound := by
  cases ensured with
  | known => exact sound
  | brought path fresh => exact install_sound sound path.top fresh

theorem Ensured.defined (ensured : Ensured w map middle host) (sound : w.Sound) :
    w.catalog.definition? map = some host.own.definition := by
  obtain ⟨member,named⟩ := base?_parts ensured.found
  have base := (ensured.sound sound).bases host (List.mem_append_left _ member)
  have catalog : middle.catalog = w.catalog := by
    cases ensured with
    | known => rfl
    | brought => rfl
  rw [←catalog,←named]
  exact base.defined

theorem Ensured.kind (ensured : Ensured w map middle host) (sound : w.Sound) :
    ∃ d, w.catalog.definition? map = some d ∧ d.kind.instanceable = host.isInstanceable := by
  have member := (base?_parts ensured.found).1
  have base := (ensured.sound sound).bases host (List.mem_append_left _ member)
  exact ⟨host.own.definition,ensured.defined sound,base.tabled.symm⟩

theorem Ensured.records (ensured : Ensured w map middle host) :
    middle = {w with maps := middle.maps, born := middle.born, journal := middle.journal} := by
  cases ensured with
  | known => rfl
  | brought => rfl

theorem Ensured.kept (ensured : Ensured w map middle host) (sound : w.Sound) (member : b ∈ w.maps) :
    b ∈ middle.maps := by
  cases ensured with
  | known => exact member
  | brought path fresh =>
    exact (install_perm sound path.top fresh).mem_iff.mpr (List.mem_append_right _ member)

theorem Ensured.origin (ensured : Ensured w map middle host) (sound : w.Sound) (member : b ∈ middle.maps) :
    b ∈ w.maps ∨ ∃ root d, w.catalog.RootOf map root ∧ w.catalog.RootOf d.id root ∧
      b = w.build (w.catalog.family root) d := by
  cases ensured with
  | known => exact .inl member
  | @brought root _ path fresh =>
    rcases List.mem_append.mp ((install_perm sound path.top fresh).mem_iff.mp member) with new | old
    · obtain ⟨d,_,among,rfl⟩ := mem_newFamily.mp new
      exact .inr ⟨root,d,path,(sound.forest.mem_family path.top).mp among,rfl⟩
    · exact .inl old

theorem createCopy_route (w : World) (host : BaseMap) (request : InstanceRequest) :
    CopyRoute w host request (w.createCopy host request) := by
  unfold createCopy
  cases tabled : host.table with
  | none => exact .plain tabled
  | some table =>
    cases asked : request.boundCopy? with
    | some id =>
      cases found : host.copy? id with
      | some copy =>
        simp only [found]
        exact .joined asked found
      | none =>
        simp only [found]
        cases claimed : w.ids.claim id with
        | error e => exact .refused asked found claimed
        | ok ids => exact .bound tabled asked found claimed
    | none =>
      unfold takeFreshId
      cases allocated : w.ids.allocate with
      | error e =>
        dsimp only
        split
        · exact .spent _ asked allocated
        · exact .spent w.journal asked allocated
      | ok fresh =>
        obtain ⟨id,used⟩ := fresh
        dsimp only
        cases claimed : used.claim id with
        | error e => exact .stuck asked allocated claimed
        | ok ids => exact .fresh tabled asked allocated claimed

theorem createMap_route (sound : w.Sound) (map : MapId) (request : InstanceRequest) :
    MapRoute w map request (w.createMap map request) := by
  unfold createMap resolve
  cases defined : w.catalog.definition? map with
  | none =>
    rw [createBase_unknown sound defined]
    exact .unknown _ _ defined
  | some d =>
    obtain ⟨middle,host,ran,ensured⟩ := createBase_ensured sound defined
    rw [ran]
    cases tabled : host.isInstanceable with
    | false =>
      simp only [tabled,Bool.false_eq_true,if_false]
      cases asked : request.boundCopy? with
      | none => exact .plain ensured tabled asked
      | some id => exact .nowhere ensured tabled asked
    | true =>
      simp only [tabled,if_true]
      have route := createCopy_route middle host
        {request with difficulty := (middle.catalog.downscale map request.difficulty).getD request.difficulty}
      cases answered : middle.createCopy host
        {request with difficulty := (middle.catalog.downscale map request.difficulty).getD request.difficulty} with
      | mk after outcome =>
        rw [answered] at route
        cases outcome with
        | ok copy => exact .copy ensured tabled route
        | error e =>
          dsimp only
          split
          · exact .failed true (after.journal ++ [.shutdownRequested e]) ensured tabled route
          · exact .failed after.shutdown after.journal ensured tabled route

end World
end LiveMaps
