import LiveMaps.Proofs.World.Claims

namespace LiveMaps.World
open Ordered
variable {w middle after : World} {b host : BaseMap} {m : LiveMap} {call : WorldCall} {map : MapId}
  {request : InstanceRequest}

-- Serials of the maps that a call puts out of service: copies whose time is up as the
-- primary phase comes to them, copies that go with their map, and all there is when
-- everything is unloaded.
def dropped (w : World) : WorldCall → List Nat
  | .update serial _ =>
    match w.host? serial with
    | some b => (b.expired w.config.unloadDelay).map LiveMap.serial
    | none => []
  | .advance elapsed _ =>
    if (w.schedule.timer.add elapsed).passed then
      (w.maps.flatMap (BaseMap.expired w.config.unloadDelay)).map LiveMap.serial
    else []
  | .unload serial =>
    match w.host? serial with
    | some b => b.copies.map LiveMap.serial
    | none => []
  | .unloadAll => w.maps.flatMap BaseMap.serials
  | _ => []

theorem registered_map (f : BaseMap → BaseMap) (same : ∀ b, (f b).serial = b.serial) (maps : List BaseMap) :
    (maps.map f).map BaseMap.serial = maps.map BaseMap.serial := by
  rw [List.map_map]
  exact List.map_congr_left fun b _ => same b

theorem registered_modify {f : LiveMap → LiveMap} (steady : LiveMap.Steady f) (w : World) (serial : Nat) :
    (w.modify serial f).registered = w.registered :=
  registered_map (BaseMap.mapAll (atSerial serial f)) (fun b => (steady.atSerial serial).serial b.own) w.maps

theorem registered_modifyHost (f : BaseMap → BaseMap) (same : ∀ b, (f b).serial = b.serial) (w : World)
    (serial : Nat) : (w.modifyHost serial f).registered = w.registered := by
  refine registered_map _ (fun b => ?_) w.maps
  split
  · exact same b
  · rfl

theorem Touch.registered {serial : Nat} {f : LiveMap → LiveMap} (touch : Touch w serial f after) :
    after.registered = w.registered := by
  cases touch with
  | absent => rfl
  | change journal steady _ => exact registered_modify steady w serial

theorem Gentle.registered {managed : Prop} (part : Gentle managed w after) (sound : w.Sound) :
    w.registered ⊆ after.registered := by
  cases part with
  | alike alike _ =>
    unfold World.registered
    rw [alike.maps]
    exact List.Subset.refl _
  | setIds => exact List.Subset.refl _
  | install top fresh =>
    have placed := (install_perm sound top fresh).map BaseMap.serial
    rw [List.map_append] at placed
    exact fun serial old => placed.mem_iff.mpr (List.mem_append_right _ old)
  | @openCopy host table id request ids =>
    let copy := ({w with ids := ids}.addCopy host table.template id request).2
    have same := registered_modifyHost (BaseMap.mapCopies (insert LiveMap.order copy)) (fun _ => rfl)
      {w with ids := ids} host.serial
    exact fun serial old => same.symm ▸ old

theorem Gently.registered {managed : Prop} (parts : Gently managed w after) (sound : w.Sound) :
    w.registered ⊆ after.registered := by
  induction parts with
  | refl => exact List.Subset.refl _
  | tail before part ih => exact List.Subset.trans ih (part.registered ((Gently.steps before).sound sound))

theorem perform_registered (sound : w.Sound) (some : call ≠ .unloadAll) :
    w.registered ⊆ (w.perform call).registered := by
  cases only : gentle call with
  | true =>
    have parts : Gently False w (w.perform call) := perform_gently sound only False.elim
    exact parts.registered sound
  | false =>
    suffices same : (w.perform call).registered = w.registered by
      rw [same]
      exact List.Subset.refl _
    cases call with
    | queue | setEncounter | attach | discover | load => exact (perform_touch rfl).registered
    | update serial diff =>
      cases found : w.host? serial with
      | some b =>
        simp only [perform,update,found]
        exact registered_modifyHost (BaseMap.primary w.config.unloadDelay diff) (fun _ => rfl) w serial
      | none => exact (update_touch found diff).registered
    | settle serial diff =>
      cases found : w.host? serial with
      | some b =>
        simp only [perform,settle,found]
        exact registered_modifyHost BaseMap.delayed (fun _ => rfl) w serial
      | none => exact (settle_touch found diff).registered
    | unload serial =>
      simp only [perform,unload]
      split
      · exact registered_modifyHost BaseMap.unload (fun _ => rfl) w serial
      · exact registered_modify LiveMap.unload_steady w serial
    | advance elapsed times =>
      simp only [perform,advance]
      split
      · let diff := (w.schedule.timer.add elapsed).current
        have passed := congrArg World.registered (pass_exact sound diff)
        let turned (b : BaseMap) := (b.primary w.config.unloadDelay diff).delayed
        exact passed.trans (registered_map turned (fun _ => rfl) w.maps)
      · rfl
    | claimId id =>
      simp only [perform,claimId]
      split
      · rfl
      · rfl
    | unloadAll => exact absurd rfl some
    | _ => cases only

theorem turnFate_standing {delay diff : UInt32} (standing : m.unloaded = false)
    (alive : m ∉ b.expired delay) (among : m.serial ≠ b.serial → m ∈ b.copies) :
    (b.turnFate delay diff m).unloaded = false := by
  unfold BaseMap.turnFate
  split
  · rename_i gone
    exact absurd (List.mem_filter.mpr ⟨among gone.1,gone.2⟩) alive
  · exact standing

theorem within_standing {f : LiveMap → LiveMap} (standing : m.unloaded = false)
    (spared : m.serial ∈ b.serials → (f m).unloaded = false) : (b.within f m).unloaded = false := by
  unfold BaseMap.within
  split
  · rename_i inside
    exact spared inside
  · exact standing

theorem atSerial_standing {f : LiveMap → LiveMap} {serial : Nat} (standing : m.unloaded = false)
    (spared : m.serial = serial → (f m).unloaded = false) : (atSerial serial f m).unloaded = false := by
  unfold atSerial
  split
  · rename_i same
    exact spared same
  · exact standing

theorem fate_standing (sound : w.Sound) (accounted : w.Accounted) (managed : w.Managed call) (member : b ∈ w.maps)
    (among : m ∈ b.copies) (spared : m.serial ∉ w.dropped call) : (w.fate call m).unloaded = false := by
  have hosted : b ∈ w.hosts := List.mem_append_left _ member
  have standing := accounted.standing b hosted m among
  have running : m ∈ w.live := all_live hosted (List.mem_cons_of_mem _ among)
  -- A map that has the copy's serial among its own is its base map.
  have own {other : BaseMap} (there : other ∈ w.hosts) (inside : m.serial ∈ other.serials) : other = b :=
    same_host sound.distinct hosted (List.mem_cons_of_mem _ among) there
      ((mem_host_serials sound.distinct there running).mp inside)
  cases call with
  | queue | setEncounter | attach | discover | load =>
    exact atSerial_standing standing fun _ => standing
  | update serial diff =>
    cases found : w.host? serial with
    | none =>
      rw [fate_update_other found]
      exact atSerial_standing standing fun _ => standing
    | some host =>
      rw [fate_update_host found]
      simp only [dropped,found] at spared
      refine within_standing standing fun inside => ?_
      cases own (host?_parts found).1 inside
      exact turnFate_standing standing (fun gone => spared (List.mem_map_of_mem gone)) fun _ => among
  | settle serial diff =>
    cases found : w.host? serial with
    | none =>
      rw [fate_settle_other found]
      exact atSerial_standing standing fun _ => standing
    | some host =>
      rw [fate_settle_host found]
      exact within_standing standing fun _ => standing
  | unload serial =>
    cases found : w.host? serial with
    | none =>
      rw [fate_unload_other found]
      refine atSerial_standing standing fun same => absurd same (managed m ?_)
      exact (mem_liveCopies_host sound accounted).mpr ⟨b,hosted,among⟩
    | some host =>
      rw [fate_unload_host found]
      simp only [dropped,found] at spared
      refine within_standing standing fun inside => ?_
      cases own (host?_parts found).1 inside
      exact absurd (List.mem_map_of_mem among) spared
  | advance elapsed times =>
    simp only [fate,(keeper?_iff sound.distinct running).mpr ⟨member,List.mem_cons_of_mem _ among⟩]
    split
    · rename_i passed
      simp only [dropped,passed,if_true] at spared
      refine turnFate_standing standing (fun gone => spared ?_) fun _ => among
      exact List.mem_map_of_mem (List.mem_flatMap.mpr ⟨b,member,gone⟩)
    · exact standing
  | unloadAll =>
    refine absurd (List.mem_flatMap.mpr ⟨b,member,?_⟩) spared
    exact List.mem_map_of_mem (List.mem_cons_of_mem _ among)
  | _ => exact standing

theorem find?_perform (sound : w.Sound) (accounted : w.Accounted) (managed : w.Managed call)
    (found : w.find? map m.instanceId = some m) (spared : m.serial ∉ w.dropped call) :
    (w.perform call).find? map m.instanceId = some (w.fate call m) := by
  obtain ⟨_,b,member,rfl,inside⟩ := (find?_iff sound).mp found
  have hosted : b ∈ w.hosts := List.mem_append_left _ member
  have steps : Steps True w (w.perform call) := perform_steps sound call fun _ => managed
  have later := steps.sound sound
  have steady := fate_steady w call
  refine (find?_iff later).mpr ⟨steady.instanceId m,?_⟩
  rcases inside with among | ⟨plain,rfl⟩
  · have next := fate_live sound (all_live hosted (List.mem_cons_of_mem _ among)) call
    obtain ⟨definition,proper⟩ := (sound.bases b hosted).copies m among
    have alive : w.fate call m ∈ (w.perform call).liveCopies := by
      refine mem_liveCopies.mpr ⟨next,?_,fate_standing sound accounted managed member among spared⟩
      rwa [steady.instanceId]
    have kept := steps.accounted sound accounted
    obtain ⟨host,there,held⟩ := (mem_liveCopies_host later kept).mp alive
    refine ⟨host,kept.registered there held,?_,.inl held⟩
    have same := ((later.bases host there).copies _ held).1
    rw [steady.definition,definition] at same
    exact (congrArg MapDefinition.id same).symm
  · have some : call ≠ .unloadAll := by
      rintro rfl
      exact spared (List.mem_flatMap.mpr ⟨b,member,List.mem_cons_self⟩)
    obtain ⟨host,there,serial⟩ := List.mem_map.mp (perform_registered sound some (List.mem_map_of_mem member))
    have hosted' : host ∈ (w.perform call).hosts := List.mem_append_left _ there
    have own : w.fate call b.own = host.own := by
      refine live_inj later.distinct (fate_live sound (all_live hosted List.mem_cons_self) call)
        (all_live hosted' List.mem_cons_self) ?_
      exact (steady.serial b.own).trans serial.symm
    have definition : host.own.definition = b.own.definition := own ▸ steady.definition b.own
    refine ⟨host,there,congrArg MapDefinition.id definition,.inr ⟨?_,own⟩⟩
    rw [(later.bases host hosted').tabled,definition,←(sound.bases b hosted).tabled]
    exact plain

-- A map under an address, whatever has become of its content.
def Stands (w : World) (map : MapId) (m : LiveMap) : Prop := ∃ now, now.serial = m.serial ∧
  now.definition = m.definition ∧ now.instanceId = m.instanceId ∧ w.find? map m.instanceId = some now

theorem Stands.perform (stands : w.Stands map m) (sound : w.Sound) (accounted : w.Accounted)
    (managed : w.Managed call) (spared : m.serial ∉ w.dropped call) : (w.perform call).Stands map m := by
  obtain ⟨now,serial,definition,id,found⟩ := stands
  have steady := fate_steady w call
  refine ⟨w.fate call now,(steady.serial now).trans serial,(steady.definition now).trans definition,
    (steady.instanceId now).trans id,?_⟩
  rw [←id] at found ⊢
  exact find?_perform sound accounted managed found (serial ▸ spared)

theorem createMap_joined (sound : w.Sound) (found : w.find? map m.instanceId = some m)
    (bound : request.bound = some m.instanceId) : w.createMap map request = (w,.ok (some m)) := by
  obtain ⟨_,b,member,named,inside⟩ := (find?_iff sound).mp found
  have base := sound.bases b (List.mem_append_left _ member)
  have based : w.base? map = some b := (base?_iff sound.ascending).mpr ⟨member,named⟩
  unfold createMap resolve
  rw [createBase_registered based]
  rcases inside with among | ⟨plain,rfl⟩
  · have proper := (base.copies m among).2
    have asked := InstanceRequest.boundCopy?_iff.mpr ⟨bound,proper⟩
    have joined (difficulty : Difficulty) :
        w.createCopy b {request with difficulty := difficulty} = (w,.ok m) := by
      cases tabled : b.table with
      | none => simp [BaseMap.copies,tabled] at among
      | some table =>
        have there := (BaseMap.copy?_iff base.ascending).mpr ⟨among,rfl⟩
        have again : InstanceRequest.boundCopy? {request with difficulty := difficulty} = some m.instanceId := asked
        unfold createCopy
        simp only [tabled,again,there]
    simp only [BaseMap.isInstanceable_of_copy among,if_true,joined]
  · rw [base.base] at bound
    simp only [plain,InstanceRequest.boundCopy?_base bound]
    rfl

theorem CopyRoute.placed (route : CopyRoute w host request (after,.ok m)) (sound : w.Sound)
    (member : host ∈ w.maps) : (∃ b ∈ after.maps, b.map = host.map ∧ m ∈ b.copies) ∧
      ∀ id, request.boundCopy? = some id → m.instanceId = id := by
  have opened {table : CopyTable} (tabled : host.table = some table) (copy : LiveMap) :
      ∃ b ∈ (w.modifyHost host.serial (BaseMap.mapCopies (insert LiveMap.order copy))).maps,
        b.map = host.map ∧ copy ∈ b.copies := by
    refine ⟨host.mapCopies (insert LiveMap.order copy),List.mem_map.mpr ⟨host,member,if_pos rfl⟩,rfl,?_⟩
    rw [BaseMap.copies_mapCopies,if_pos (BaseMap.isInstanceable_of_table tabled)]
    exact mem_insert_self
  cases route with
  | joined asked found =>
    have ascending := (sound.bases host (List.mem_append_left _ member)).ascending
    obtain ⟨among,same⟩ := (BaseMap.copy?_iff ascending).mp found
    refine ⟨⟨host,member,rfl,among⟩,fun id asked' => ?_⟩
    rw [asked] at asked'
    cases asked'
    exact same
  | bound tabled asked =>
    refine ⟨opened tabled _,fun id asked' => ?_⟩
    rw [asked] at asked'
    cases asked'
    rfl
  | fresh tabled asked =>
    refine ⟨opened tabled _,fun id asked' => ?_⟩
    rw [asked] at asked'
    cases asked'

theorem MapRoute.found (route : MapRoute w map request (after,.ok (some m))) (sound : w.Sound)
    (later : after.Sound) : after.find? map m.instanceId = some m ∧
      ∀ id, request.boundCopy? = some id → m.instanceId = id := by
  cases route with
  | plain ensured plain asked =>
    obtain ⟨member,named⟩ := base?_parts ensured.found
    refine ⟨(find?_iff later).mpr ⟨rfl,_,member,named,.inr ⟨plain,rfl⟩⟩,fun id asked' => ?_⟩
    rw [asked] at asked'
    cases asked'
  | copy ensured _ route =>
    obtain ⟨member,named⟩ := base?_parts ensured.found
    obtain ⟨⟨b,there,same,among⟩,number⟩ := route.placed (ensured.sound sound) member
    exact ⟨(find?_iff later).mpr ⟨rfl,b,there,same.trans named,.inl among⟩,number⟩

theorem createMap_nowhere (sound : w.Sound) : (w.createMap map request).2 = .ok none ↔
    (∃ d, w.catalog.definition? map = some d ∧ d.kind.instanceable = false) ∧
      ∃ id, request.boundCopy? = some id := by
  have route := createMap_route sound map request
  generalize w.createMap map request = answer at route ⊢
  cases route with
  | unknown _ _ undefined => simp [undefined]
  | plain _ _ asked => simp [asked]
  | @nowhere _ _ id ensured plain asked =>
    obtain ⟨d,defined,kind⟩ := ensured.kind sound
    exact iff_of_true rfl ⟨⟨d,defined,kind.trans plain⟩,id,asked⟩
  | copy ensured tabled | failed _ _ ensured tabled =>
    obtain ⟨d,defined,kind⟩ := ensured.kind sound
    simp [defined,kind,tabled]

-- In every world that calls lead to, whatever is asked for: the map that is answered is
-- found under its address. Where callers manage identifiers, from then on, until a call
-- drops it, whoever is bound to it is led to it at whatever difficulty, without any change.
theorem createMap_answers {data : CatalogData} {c : Catalog} (built : Catalog.build data = .ok c)
    (config : WorldConfig) (tiles : Terrain.TileSource) (saved : SavedState)
    (path : Reached (fun _ _ => True) (start c config tiles saved) w) (map : MapId) (request : InstanceRequest) :
    (∀ after m, w.createMap map request = (after,.ok (some m)) →
      c.definition? map = some m.definition ∧ after.find? map m.instanceId = some m ∧
      (m.instanceId = .base ↔ m.definition.kind.instanceable = false) ∧
      (∀ id, request.bound = some id → id ≠ .base → m.instanceId = id) ∧
      (Reached Managed (start c config tiles saved) w →
        ∀ later past, Noted dropped Managed after later past → m.serial ∉ past →
          ∃ now, now.serial = m.serial ∧ now.definition = m.definition ∧ now.instanceId = m.instanceId ∧
            later.find? map m.instanceId = some now ∧
            ∀ again : InstanceRequest, again.bound = some m.instanceId →
              later.createMap map again = (later,.ok (some now)))) ∧
    ((w.createMap map request).2 = .ok none ↔
      (∃ d, c.definition? map = some d ∧ d.kind.instanceable = false) ∧
        ∃ id, request.bound = some id ∧ id ≠ .base) := by
  have started := start_sound (Catalog.build_forest built) config tiles saved
  have sound := Reached.sound started path
  have catalog : w.catalog = c := Reached.catalog started path
  refine ⟨fun after m answered => ?_,?_⟩
  · have steps : Steps True w (w.perform (.createMap map request)) := perform_steps sound _ fun _ => trivial
    simp only [perform,answered] at steps
    have later := steps.sound sound
    have route := createMap_route sound map request
    rw [answered] at route
    obtain ⟨found,number⟩ := route.found sound later
    obtain ⟨_,b,member,rfl,inside⟩ := (find?_iff later).mp found
    have base := later.bases b (List.mem_append_left _ member)
    have same : m.definition = b.own.definition := by
      rcases inside with among | ⟨_,rfl⟩
      · exact (base.copies m among).1
      · rfl
    refine ⟨?_,found,?_,fun id bound proper => number id (InstanceRequest.boundCopy?_iff.mpr ⟨bound,proper⟩),?_⟩
    · rw [same,←catalog,←steps.catalog]
      exact base.defined
    · rw [same,←base.tabled]
      rcases inside with among | ⟨plain,rfl⟩
      · simp [(base.copies m among).2,BaseMap.isInstanceable_of_copy among]
      · exact iff_of_true base.base plain
    · intro orderly later' past run spared
      have accounted := Reached.accounted started (start_accounted c config tiles saved) orderly
      have sound' := Reached.sound later run.reached
      have held : later'.Accounted ∧ (m.serial ∉ past → later'.Stands b.map m) := by
        apply run.kept later
        · exact ⟨steps.accounted sound accounted,fun _ => ⟨m,rfl,rfl,rfl,found⟩⟩
        · intro w past call sound held managed
          obtain ⟨accounted,stands⟩ := held
          have steps : Steps True w (w.perform call) := perform_steps sound call fun _ => managed
          refine ⟨steps.accounted sound accounted,fun spared => ?_⟩
          rw [List.mem_append,not_or] at spared
          exact (stands spared.2).perform sound accounted managed spared.1
      obtain ⟨now,serial,definition,id,found'⟩ := held.2 spared
      refine ⟨now,serial,definition,id,found',fun again bound => ?_⟩
      rw [←id] at found' bound
      exact createMap_joined sound' found' bound
  · rw [createMap_nowhere sound,catalog]
    simp only [InstanceRequest.boundCopy?_iff]

-- A copy under an identifier past the table, asked for again with somebody inside and
-- other copies beside it.
theorem createMap_answers_again :
    let data : CatalogData := {maps := [{id := ⟨0⟩, kind := .common},{id := ⟨36⟩, kind := .dungeon}]}
    let request : InstanceRequest := {participant := .nil, difficulty := .normal, bound := some ⟨9⟩}
    ∃ c after m later now, Catalog.build data = .ok c ∧
      (start c {} .none .empty).createMap ⟨36⟩ request = (after,.ok (some m)) ∧ m.instanceId = ⟨9⟩ ∧
      Noted dropped Managed after later [] ∧ now.serial = m.serial ∧
      later.createMap ⟨36⟩ {request with difficulty := .heroic} = (later,.ok (some now)) := by
  intro data request
  obtain ⟨c,built⟩ : ∃ c, Catalog.build data = .ok c := ⟨_,rfl⟩
  let after := (start c {} .none .empty).perform (.createMap ⟨36⟩ request)
  have opened : Noted dropped Managed after after [] := .start
  have run := opened
    |>.step (.createMap ⟨36⟩ {request with bound := none}) trivial
    |>.step (.queue 1 (.enter .nil)) trivial
    |>.step (.advance 20 ⟨0,0⟩) trivial
  obtain ⟨m,answer⟩ : ∃ m, ((start c {} .none .empty).createMap ⟨36⟩ request).2 = .ok (some m) := by
    cases built
    exact ⟨_,rfl⟩
  obtain ⟨later,past,run,none⟩ : ∃ later past, Noted dropped Managed after later past ∧ past = [] :=
    ⟨_,_,run,by cases built; decide⟩
  subst none
  obtain ⟨answers,_⟩ := createMap_answers built {} .none .empty .start ⟨36⟩ request
  have answered : (start c {} .none .empty).createMap ⟨36⟩ request = (after,.ok (some m)) := Prod.ext rfl answer
  obtain ⟨_,_,_,number,stays⟩ := answers after m answered
  have id : m.instanceId = ⟨9⟩ := number ⟨9⟩ rfl (by decide)
  obtain ⟨now,serial,_,_,_,again⟩ := stays .start later [] run nofun
  exact ⟨c,after,m,later,now,built,answered,id,run,serial,again _ (by rw [id])⟩

end LiveMaps.World
