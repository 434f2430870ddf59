import LiveMaps.Proofs.World.Idling

namespace LiveMaps

theorem BaseMap.copyIds_insert {b : BaseMap} {id : InstanceId} (among : id ∈ b.copyIds) (copy : LiveMap) :
    id ∈ (b.mapCopies (Ordered.insert LiveMap.order copy)).copyIds := by
  obtain ⟨old,inside,rfl⟩ := List.mem_map.mp among
  unfold copyIds
  rw [copies_mapCopies,if_pos (isInstanceable_of_copy inside)]
  by_cases same : old.order = copy.order
  · rw [InstanceId.order_inj.mp same]
    exact List.mem_map_of_mem Ordered.mem_insert_self
  · exact List.mem_map_of_mem (Ordered.mem_insert_of_ne inside same)

namespace World
open Ordered
variable {w after : World} {b : BaseMap} {id : InstanceId} {call : WorldCall} {past : List InstanceId}

def Backed (w : World) (id : InstanceId) : Prop := ∃ b ∈ w.hosts, id ∈ b.copyIds

-- The identifiers of copies that a call drops together with their base map.
def torn (w : World) : WorldCall → List InstanceId
  | .unload serial =>
    match w.host? serial with
    | some b => b.copyIds
    | none => []
  | .unloadAll => w.maps.flatMap BaseMap.copyIds
  | _ => []

def Careful (w : World) (call : WorldCall) : Prop := w.Managed call ∧ ∀ id, call ≠ .claimId id

-- Identifiers are claimed for copies in tables, and for copies that went with their map.
def Traced (w : World) (past : List InstanceId) : Prop := ∀ id ∈ w.ids.claimed, w.Backed id ∨ id ∈ past

theorem Traced.kept (traced : w.Traced past) (claims : ∀ id ∈ after.ids.claimed, id ∈ w.ids.claimed)
    (kept : ∀ id ∈ after.ids.claimed, w.Backed id → after.Backed id) : after.Traced past := by
  intro id claimed
  exact (traced id (claims id claimed)).imp_left (kept id claimed)

theorem Backed.alike (alike : Alike w after) (backed : w.Backed id) : after.Backed id := by
  unfold Backed
  rw [alike.hosts]
  exact backed

theorem Traced.alike (traced : w.Traced past) (alike : Alike w after) : after.Traced past := by
  apply traced.kept
  · rw [alike.ids]
    exact fun _ => id
  · exact fun id _ backed => backed.alike alike

theorem Backed.modify (backed : w.Backed id) {f : LiveMap → LiveMap} (steady : LiveMap.Steady f)
    (serial : Nat) : (w.modify serial f).Backed id := by
  obtain ⟨b,member,among⟩ := backed
  refine ⟨b.mapAll (atSerial serial f),?_,?_⟩
  · rw [hosts_modify]
    exact List.mem_map_of_mem member
  · rw [b.copyIds_mapAll (steady.atSerial serial)]
    exact among

theorem Backed.modifyHost (backed : w.Backed id) {serial : Nat} {f : BaseMap → BaseMap}
    (kept : ∀ b ∈ w.hosts, b.serial = serial → id ∈ b.copyIds → id ∈ (f b).copyIds) :
    (w.modifyHost serial f).Backed id := by
  obtain ⟨b,member,among⟩ := backed
  refine ⟨if b.serial = serial then f b else b,?_,?_⟩
  · rw [hosts_modifyHost]
    exact List.mem_map_of_mem member
  · split
    · rename_i same
      exact kept b member same among
    · exact among

theorem backed_host (member : b ∈ w.hosts) {f : BaseMap → BaseMap} (among : id ∈ (f b).copyIds) :
    (w.modifyHost b.serial f).Backed id := by
  refine ⟨f b,?_,among⟩
  rw [hosts_modifyHost]
  exact List.mem_map.mpr ⟨b,member,if_pos rfl⟩

theorem Gentle.traced (part : Gentle True w after) (sound : w.Sound) (traced : w.Traced past) :
    after.Traced past := by
  cases part with
  | alike alike _ => exact traced.alike alike
  | setIds kept => exact traced.kept (kept sound.ids).2.1 fun _ _ backed => backed
  | install top fresh =>
    refine traced.kept (fun _ => id) fun id _ backed => ?_
    obtain ⟨b,member,among⟩ := backed
    refine ⟨b,?_,among⟩
    rcases List.mem_append.mp member with registered | retired
    · have placed := (install_perm sound top fresh).mem_iff.mpr (List.mem_append_right _ registered)
      exact List.mem_append_left _ placed
    · exact List.mem_append_right _ retired
  | @openCopy host table id request ids member _ tabled apart kept =>
    obtain ⟨_,_,claimed⟩ := kept sound.ids
    let copy := ({w with ids := ids}.addCopy host table.template id request).2
    intro other held
    rcases (claimed other).mp held with rfl | old
    · apply Or.inl
      have opened : copy ∈ insert LiveMap.order copy host.copies := mem_insert_self
      refine backed_host (f := BaseMap.mapCopies (insert LiveMap.order copy)) member ?_
      rw [BaseMap.copyIds,BaseMap.copies_mapCopies,if_pos (BaseMap.isInstanceable_of_table tabled)]
      exact List.mem_map_of_mem opened
    · refine (traced other old).imp_left fun backed => ?_
      exact backed.modifyHost fun b _ _ among => BaseMap.copyIds_insert among copy

theorem Gently.traced (parts : Gently True w after) (sound : w.Sound) (traced : w.Traced past) :
    after.Traced past := by
  induction parts with
  | refl => exact traced
  | tail before part ih => exact part.traced ((Gently.steps before).sound sound) ih

theorem modify_traced (traced : w.Traced past) {f : LiveMap → LiveMap} (steady : LiveMap.Steady f)
    (serial : Nat) : (w.modify serial f).Traced past :=
  traced.kept (fun _ => id) fun _ _ backed => backed.modify steady serial

theorem Touch.traced {serial : Nat} {f : LiveMap → LiveMap} (touch : Touch w serial f after)
    (traced : w.Traced past) : after.Traced past := by
  cases touch with
  | absent => exact traced
  | change journal steady _ => exact (modify_traced traced steady serial).alike (.of_records ..)

theorem turn_backed (sound : w.Sound) (member : b ∈ w.hosts) (diff : UInt32) (backed : w.Backed id)
    (claimed : id ∈ (((b.expired w.config.unloadDelay).map LiveMap.instanceId).foldl
      IdTable.returned w.ids).claimed) :
    (w.modifyHost b.serial (BaseMap.primary w.config.unloadDelay diff)).Backed id := by
  refine backed.modifyHost fun other there same among => ?_
  cases host_inj sound.distinct member there same
  obtain ⟨copy,inside,rfl⟩ := List.mem_map.mp among
  cases expired : copy.isExpired w.config.unloadDelay with
  | true =>
    have proper := ((sound.bases b member).copies copy inside).2
    have given : copy.instanceId ∈ (b.expired w.config.unloadDelay).map LiveMap.instanceId :=
      List.mem_map_of_mem (List.mem_filter.mpr ⟨inside,expired⟩)
    exact absurd claimed (IdTable.returnedAll_mem sound.ids given proper).1
  | false =>
    rw [b.copyIds_primary]
    exact List.mem_map_of_mem (List.mem_filter.mpr ⟨inside,by rw [expired]; rfl⟩)

theorem update_traced (sound : w.Sound) (traced : w.Traced past) (serial : Nat) (diff : UInt32) :
    (w.update serial diff).Traced past := by
  cases found : w.host? serial with
  | some b =>
    obtain ⟨member,rfl⟩ := host?_parts found
    simp only [update,found,BaseMap.primaryEffects,BaseMap.dismissAll_ids]
    intro id claimed
    have before : id ∈ w.ids.claimed := by
      by_contra unclaimed
      exact (IdTable.returnedAll_kept id _ w.ids).1 unclaimed claimed
    exact (traced id before).imp_left fun backed => turn_backed sound member diff backed claimed
  | none => exact (update_touch found diff).traced traced

theorem settle_traced (traced : w.Traced past) (serial : Nat) (diff : UInt32) :
    (w.settle serial diff).Traced past := by
  cases found : w.host? serial with
  | some b =>
    have kept : (w.modifyHost serial BaseMap.delayed).Traced past := by
      refine traced.kept (fun _ => id) fun id _ backed => backed.modifyHost fun b _ _ among => ?_
      rw [BaseMap.delayed,b.copyIds_mapAll LiveMap.settle_steady]
      exact among
    simp only [settle,found]
    exact kept.alike (.of_records ..)
  | none => exact (settle_touch found diff).traced traced

theorem pass_traced (sound : w.Sound) (traced : w.Traced past) (diff : UInt32) : (w.pass diff).Traced past := by
  have updated (serials : List Nat) (w : World) (sound : w.Sound) (traced : w.Traced past) :
      (w.updateAll diff serials).Traced past := by
    induction serials generalizing w with
    | nil => exact traced
    | cons serial rest ih =>
      have steps : Steps False w (w.update serial diff) := update_steps w serial diff
      exact ih _ (steps.sound sound) (update_traced sound traced serial diff)
  have settled (serials : List Nat) (w : World) (traced : w.Traced past) :
      (w.settleAll diff serials).Traced past := by
    induction serials generalizing w with
    | nil => exact traced
    | cons serial rest ih => exact ih _ (settle_traced traced serial diff)
  exact settled _ _ (updated _ w sound traced)

theorem torn_host {serial : Nat} (found : w.host? serial = some b) : w.torn (.unload serial) = b.copyIds := by
  simp [torn,found]

theorem torn_other {serial : Nat} (none : w.host? serial = none) : w.torn (.unload serial) = [] := by
  simp [torn,none]

theorem unload_traced (sound : w.Sound) (traced : w.Traced past) (serial : Nat) :
    (w.unload serial).Traced (w.torn (.unload serial) ++ past) := by
  unfold unload
  cases found : w.host? serial with
  | some b =>
    rw [torn_host found]
    obtain ⟨member,rfl⟩ := host?_parts found
    intro id claimed
    rcases traced id claimed with backed | old
    · by_cases own : id ∈ b.copyIds
      · exact .inr (List.mem_append_left _ own)
      · refine .inl (backed.modifyHost fun other there same among => ?_)
        cases host_inj sound.distinct member there same
        exact absurd among own
    · exact .inr (List.mem_append_right _ old)
  | none =>
    rw [torn_other found]
    exact modify_traced traced LiveMap.unload_steady serial

theorem unloadAll_traced (traced : w.Traced past) : w.unloadAll.Traced (w.torn .unloadAll ++ past) := by
  intro id claimed
  rcases traced id claimed with ⟨b,member,among⟩ | old
  · rcases List.mem_append.mp member with registered | retired
    · exact .inr (List.mem_append_left _ (List.mem_flatMap.mpr ⟨b,registered,among⟩))
    · exact .inl ⟨b,List.mem_append_right _ (List.mem_append_left _ retired),among⟩
  · exact .inr (List.mem_append_right _ old)

theorem perform_traced (sound : w.Sound) (traced : w.Traced past) (careful : w.Careful call) :
    (w.perform call).Traced (w.torn call ++ past) := by
  cases only : gentle call with
  | true =>
    have parts : Gently True w (w.perform call) := perform_gently sound only fun _ => careful.1
    have none : w.torn call = [] := by
      cases call with
      | unload | unloadAll => cases only
      | _ => rfl
    rw [none]
    exact parts.traced sound traced
  | false =>
    cases call with
    | queue | setEncounter | attach | discover | load => exact (perform_touch rfl).traced traced
    | update serial diff => exact update_traced sound traced serial diff
    | settle serial diff => exact settle_traced traced serial diff
    | unload serial => exact unload_traced sound traced serial
    | advance elapsed times =>
      simp only [perform,advance]
      split
      · exact (pass_traced sound traced _).alike (.of_records ..)
      · exact traced.alike (.of_records ..)
    | claimId id => exact absurd rfl (careful.2 id)
    | unloadAll => exact unloadAll_traced traced
    | _ => cases only

theorem createCopy_inUse (w : World) {host : BaseMap} (tabled : host.isInstanceable = true)
    {request : InstanceRequest} (bound : request.bound = some id) (proper : id ≠ .base) :
    (w.createCopy host request).2 = .error (.instanceId (.inUse id)) ↔ id ∈ w.ids.claimed ∧ id ∉ host.copyIds := by
  have asked : request.boundCopy? = some id :=
    InstanceRequest.boundCopy?_iff.mpr ⟨bound,proper⟩
  have absent : host.copy? id = none ↔ id ∉ host.copyIds := by
    simp [BaseMap.copy?,BaseMap.copyIds]
  unfold createCopy
  cases table : host.table with
  | none => simp [BaseMap.isInstanceable,table] at tabled
  | some table =>
    simp only [asked]
    cases found : host.copy? id with
    | some copy =>
      have held : id ∈ host.copyIds := by
        by_contra missing
        rw [absent.mpr missing] at found
        cases found
      simp [held]
    | none =>
      by_cases claimed : id ∈ w.ids.claimed
      · simp [IdTable.claim_taken claimed,claimed,absent.mp found]
      · obtain ⟨ids,done⟩ := IdTable.claim_ok claimed proper
        simp [done,claimed]

theorem createMap_error {map : MapId} {request : InstanceRequest} {e : MapError} {middle : World} {host : BaseMap}
    (ran : w.createBase map = (middle,.ok host)) (tabled : host.isInstanceable = true) :
    (w.createMap map request).2 = .error e ↔ (middle.createCopy host {request with
      difficulty := (middle.catalog.downscale map request.difficulty).getD request.difficulty }).2 = .error e := by
  unfold createMap resolve
  rw [ran]
  simp only [tabled,if_true]
  cases answered : (middle.createCopy host {request with
      difficulty := (middle.catalog.downscale map request.difficulty).getD request.difficulty }) with
  | mk after outcome =>
    cases outcome with
    | error cause => simp
    | ok copy => simp

theorem createMap_inUse (sound : w.Sound) {map : MapId} {d : MapDefinition}
    (defined : w.catalog.definition? map = some d) (instanceable : d.kind.instanceable = true)
    {request : InstanceRequest} (bound : request.bound = some id) (proper : id ≠ .base) :
    (w.createMap map request).2 = .error (.instanceId (.inUse id)) ↔
      id ∈ w.ids.claimed ∧ ∀ b ∈ w.maps, b.map = map → id ∉ b.copyIds := by
  obtain ⟨root,path⟩ := sound.forest.rootOf_exists (Option.isSome_of_eq_some defined)
  obtain ⟨middle,host,ran,found,cases⟩ := createBase_known sound path
  obtain ⟨member,named⟩ := base?_parts found
  rcases cases with ⟨rfl,_⟩ | ⟨rfl,fresh⟩
  · have base := sound.bases host (List.mem_append_left _ member)
    have tabled : host.isInstanceable = true := by
      have own := base.defined
      rw [named,defined] at own
      cases own
      exact base.tabled.trans instanceable
    rw [createMap_error ran tabled]
    refine Iff.trans (createCopy_inUse _ tabled bound proper) (and_congr_right fun _ => ?_)
    constructor
    · intro missing b among same
      have unique := (base?_iff sound.ascending).mpr ⟨among,same⟩
      rw [found] at unique
      cases unique
      exact missing
    · intro missing
      exact missing host member named
  · -- A base map that comes with the call has no copies, and none was there before.
    have built := base?_install_new sound path.top fresh path defined
    rw [found] at built
    cases built
    obtain ⟨_,_,_,_,copies,tabled⟩ := w.build_parts (w.catalog.family root) d
    have tabled := tabled.trans instanceable
    have unregistered : map ∉ w.registeredIds :=
      family_fresh sound path.top fresh ((sound.forest.mem_family path.top).mpr path)
    rw [createMap_error ran tabled]
    refine Iff.trans (createCopy_inUse _ tabled bound proper) (and_congr_right fun _ => ?_)
    constructor
    · intro _ b among same
      exact absurd (mem_registeredIds.mpr ⟨b,among,same⟩) unregistered
    · intro _
      rw [BaseMap.copyIds,copies]
      exact List.not_mem_nil

theorem Accounted.backed_iff (accounted : w.Accounted) : w.Backed id ↔ ∃ b ∈ w.maps, id ∈ b.copyIds := by
  constructor
  · intro backed
    obtain ⟨b,member,among⟩ := backed
    obtain ⟨copy,inside,rfl⟩ := List.mem_map.mp among
    exact ⟨b,accounted.registered member inside,among⟩
  · intro held
    obtain ⟨b,member,among⟩ := held
    exact ⟨b,List.mem_append_left _ member,among⟩

theorem Accounted.claimed_of_backed (accounted : w.Accounted) (backed : w.Backed id) : id ∈ w.ids.claimed := by
  obtain ⟨b,member,among⟩ := backed
  exact accounted.claimed b member id among

-- While no map went with its copies, what is claimed and not of one map is of another.
theorem Accounted.claimed_elsewhere (accounted : w.Accounted) (traced : w.Traced []) (map : MapId) :
    (id ∈ w.ids.claimed ∧ ∀ b ∈ w.maps, b.map = map → id ∉ b.copyIds) ↔
      ∃ b ∈ w.maps, b.map ≠ map ∧ id ∈ b.copyIds := by
  constructor
  · intro taken
    obtain ⟨claimed,missing⟩ := taken
    have backed : w.Backed id := (traced id claimed).resolve_right List.not_mem_nil
    obtain ⟨b,member,among⟩ := accounted.backed_iff.mp backed
    exact ⟨b,member,fun same => missing b member same among,among⟩
  · intro other
    obtain ⟨b,member,apart,among⟩ := other
    refine ⟨accounted.claimed_of_backed (accounted.backed_iff.mpr ⟨b,member,among⟩),?_⟩
    intro own there same held
    have one := accounted.one_host (List.mem_append_left _ member) among (List.mem_append_left _ there) held
    subst one
    exact apart same

theorem unloadAll_liveCopies (sound : w.Sound) (accounted : w.Accounted) : w.unloadAll.liveCopies = [] := by
  rw [liveCopies_eq sound.unloadAll accounted.unloadAll]
  refine List.flatMap_eq_nil_iff.mpr fun b member => ?_
  exact accounted.unloadAll.dropped b member

-- Identifiers are claimed for the copies in the tables of registered maps, and beyond them only for copies
-- that went with their map. A bound copy is refused for an identifier in use just if that is claimed and is
-- not a copy of the map asked for.
theorem claims_traced {data : CatalogData} {c : Catalog} (built : Catalog.build data = .ok c)
    (config : WorldConfig) (tiles : Terrain.TileSource) (saved : SavedState)
    (run : Noted torn Careful (start c config tiles saved) w past) :
    (∀ id, (∃ b ∈ w.maps, id ∈ b.copyIds) → id ∈ w.ids.claimed) ∧
    (∀ id ∈ w.ids.claimed, (∃ b ∈ w.maps, id ∈ b.copyIds) ∨ id ∈ past) ∧
    (∀ map d id request, c.definition? map = some d → d.kind.instanceable = true → id ≠ .base →
      request.bound = some id →
      ((w.createMap map request).2 = .error (.instanceId (.inUse id)) ↔
        id ∈ w.ids.claimed ∧ ∀ b ∈ w.maps, b.map = map → id ∉ b.copyIds) ∧
      (past = [] → ((w.createMap map request).2 = .error (.instanceId (.inUse id)) ↔
        ∃ b ∈ w.maps, b.map ≠ map ∧ id ∈ b.copyIds))) ∧
    w.unloadAll.ids.claimed = w.ids.claimed ∧ w.unloadAll.liveCopies = [] := by
  have started := start_sound (Catalog.build_forest built) config tiles saved
  have sound := Reached.sound started run.reached
  have accounted : w.Accounted := by
    apply run.kept started (start_accounted c config tiles saved)
    intro w past call sound accounted careful
    have steps : Steps True w (w.perform call) := perform_steps sound call fun _ => careful.1
    exact steps.accounted sound accounted
  have traced : w.Traced past := by
    apply run.kept started
    · exact fun id none => (by cases none)
    · exact fun call sound traced careful => perform_traced sound traced careful
  have catalog : w.catalog = c := Reached.catalog started run.reached
  refine ⟨fun id held => ?_,fun id held => ?_,?_,rfl,unloadAll_liveCopies sound accounted⟩
  · exact accounted.claimed_of_backed (accounted.backed_iff.mpr held)
  · exact (traced id held).imp_left accounted.backed_iff.mp
  · intro map d id request defined instanceable proper bound
    have inUse := createMap_inUse sound (catalog ▸ defined) instanceable bound proper
    refine ⟨inUse,fun none => ?_⟩
    subst none
    exact inUse.trans (accounted.claimed_elsewhere traced map)

-- Nobody gets the identifier of another map's copy, but for a map whose own copy it is.
theorem claims_traced_refused :
    let data : CatalogData := {maps := [{id := ⟨36⟩, kind := .dungeon},{id := ⟨37⟩, kind := .raid}]}
    let request : InstanceRequest := {participant := .nil, difficulty := .normal, bound := some ⟨1⟩}
    ∃ c w, Catalog.build data = .ok c ∧ Noted torn Careful (start c {} .none .empty) w [] ∧
      ⟨1⟩ ∈ w.ids.claimed ∧
      (w.createMap ⟨37⟩ request).2 = .error (.instanceId (.inUse ⟨1⟩)) ∧
      (w.createMap ⟨36⟩ request).2 ≠ .error (.instanceId (.inUse ⟨1⟩)) := by
  intro data request
  obtain ⟨c,built⟩ : ∃ c, Catalog.build data = .ok c := ⟨_,rfl⟩
  have started : Noted torn Careful (start c {} .none .empty) _ _ := .start
  have run := started
    |>.step (.createMap ⟨36⟩ {participant := .nil, difficulty := .normal}) ⟨trivial,fun _ => nofun⟩
    |>.step (.createBase ⟨37⟩) ⟨trivial,fun _ => nofun⟩
  obtain ⟨w,run,other,own,one,two⟩ : ∃ w, Noted torn Careful (start c {} .none .empty) w [] ∧
      (∃ b ∈ w.maps, b.map ≠ ⟨37⟩ ∧ (⟨1⟩ : InstanceId) ∈ b.copyIds) ∧
      (∀ b ∈ w.maps, b.map ≠ ⟨36⟩ → (⟨1⟩ : InstanceId) ∉ b.copyIds) ∧
      (∃ d, c.definition? ⟨36⟩ = some d ∧ d.kind.instanceable = true) ∧
      ∃ d, c.definition? ⟨37⟩ = some d ∧ d.kind.instanceable = true := by
    cases built
    exact ⟨_,run,by decide,by decide,⟨_,rfl,rfl⟩,⟨_,rfl,rfl⟩⟩
  obtain ⟨claimed,_,refused,_⟩ := claims_traced built {} .none .empty run
  obtain ⟨_,defined,instanceable⟩ := one
  obtain ⟨_,defined',instanceable'⟩ := two
  have refusal := (refused ⟨37⟩ _ ⟨1⟩ request defined' instanceable' (by decide) rfl).2 rfl
  have answer := (refused ⟨36⟩ _ ⟨1⟩ request defined instanceable (by decide) rfl).2 rfl
  refine ⟨c,w,built,run,?_,refusal.mpr other,fun wrong => ?_⟩
  · obtain ⟨b,member,_,held⟩ := other
    exact claimed ⟨1⟩ ⟨b,member,held⟩
  · obtain ⟨b,member,apart,held⟩ := answer.mp wrong
    exact own b member apart held

-- The identifier of a copy that went with its map stays claimed: nobody has it, and nobody
-- bound to it gets a copy.
theorem unloadAll_keeps_claim :
    let data : CatalogData := {maps := [{id := ⟨36⟩, kind := .dungeon}]}
    ∃ c w, Catalog.build data = .ok c ∧ Reached Careful (start c {} .none .empty) w ∧
      ⟨1⟩ ∈ w.ids.claimed ∧ w.liveCopies.length = 0 ∧
      (w.createMap ⟨36⟩ {participant := .nil, difficulty := .normal, bound := some ⟨1⟩}).2 =
        .error (.instanceId (.inUse ⟨1⟩)) := by
  intro data
  obtain ⟨c,built⟩ : ∃ c, Catalog.build data = .ok c := ⟨_,rfl⟩
  have started : Reached Careful (start c {} .none .empty) _ := .start
  have path := started
    |>.step (.createMap ⟨36⟩ {participant := .nil, difficulty := .normal}) ⟨trivial,fun _ => nofun⟩
    |>.step .unloadAll ⟨trivial,fun _ => nofun⟩
  have sound := Reached.sound (start_sound (Catalog.build_forest built) {} .none .empty) path
  obtain ⟨w,path,sound,claimed,nobody,⟨_,defined,instanceable⟩,none⟩ : ∃ w,
      Reached Careful (start c {} .none .empty) w ∧ w.Sound ∧ ⟨1⟩ ∈ w.ids.claimed ∧ w.liveCopies.length = 0 ∧
      (∃ d, w.catalog.definition? ⟨36⟩ = some d ∧ d.kind.instanceable = true) ∧
      ∀ b ∈ w.maps, b.map = ⟨36⟩ → (⟨1⟩ : InstanceId) ∉ b.copyIds := by
    cases built
    exact ⟨_,path,sound,by decide,by decide,⟨_,rfl,rfl⟩,by decide⟩
  exact ⟨c,w,built,path,claimed,nobody,
    (createMap_inUse sound defined instanceable rfl (by decide)).mpr ⟨claimed,none⟩⟩

end World
end LiveMaps
