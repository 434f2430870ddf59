import LiveMaps.Proofs.Schedule.Phases
import LiveMaps.Proofs.World.Passes

namespace LiveMaps

namespace IdTable
variable {t after : IdTable} {id : InstanceId}

def returned (t : IdTable) (id : InstanceId) : IdTable :=
  match t.release id with
  | .ok after => after
  | .error _ => t

theorem returned_eq (t : IdTable) (id : InstanceId) :
    t.returned id = if id ≠ .base ∧ id.order < t.capacity then
      {t with
        free := t.free.setIfInBounds id.order true
        claimed := t.claimed.filter (· != id)
        next := min t.next id.order }
    else t := by
  unfold returned
  by_cases nonzero : id = .base
  · rw [nonzero,release_base,if_neg (fun proper => proper.1 rfl)]
  · by_cases inside : id.order < t.capacity
    · rw [release_ok nonzero inside,if_pos ⟨nonzero,inside⟩]
    · rw [release_past nonzero (Nat.le_of_not_lt inside),if_neg (fun proper => inside proper.2)]

theorem returned_capacity (t : IdTable) (id : InstanceId) : (t.returned id).capacity = t.capacity := by
  rw [returned_eq]
  split
  · exact capacity_set t _ _
  · rfl

theorem returned_comm (t : IdTable) (one two : InstanceId) :
    (t.returned one).returned two = (t.returned two).returned one := by
  rw [returned_eq (t.returned one),returned_eq (t.returned two),returned_capacity,returned_capacity,
    returned_eq t one,returned_eq t two]
  split
  · split
    · have bits : (t.free.setIfInBounds one.order true).setIfInBounds two.order true =
          (t.free.setIfInBounds two.order true).setIfInBounds one.order true := by
        by_cases same : one.order = two.order
        · rw [same]
        · exact Array.setIfInBounds_comm _ _ same
      have claims : (t.claimed.filter (· != one)).filter (· != two) =
          (t.claimed.filter (· != two)).filter (· != one) := by
        simp only [List.filter_filter,Bool.and_comm]
      simp only [bits,claims,Nat.min_assoc,Nat.min_comm one.order]
    · rfl
  · rfl

instance : RightCommutative returned := ⟨returned_comm⟩

end IdTable

namespace BaseMap
open IdTable
variable {ids other : IdTable} {map : MapId} {copy : LiveMap} {copies : List LiveMap}

theorem dismiss_ids (map : MapId) (ids : IdTable) (copy : LiveMap) :
    (dismiss map ids copy).1 = ids.returned copy.instanceId := by
  unfold dismiss returned
  cases ids.release copy.instanceId with
  | ok after => rfl
  | error e => rfl

theorem dismissAll_ids (map : MapId) (ids : IdTable) (copies : List LiveMap) :
    (dismissAll map ids copies).1 = (copies.map LiveMap.instanceId).foldl returned ids := by
  induction copies generalizing ids with
  | nil => rfl
  | cons copy rest ih =>
    rw [List.map_cons,List.foldl_cons,←dismiss_ids map]
    exact ih _

theorem release_error (same : ids.capacity = other.capacity) (id : InstanceId) :
    (∀ after, ids.release id ≠ .ok after) ∧ other.release id = ids.release id ∨
      ∃ after later, ids.release id = .ok after ∧ other.release id = .ok later := by
  by_cases nonzero : id = .base
  · rw [nonzero,release_base,release_base]
    exact .inl ⟨nofun,rfl⟩
  · by_cases inside : id.order < ids.capacity
    · exact .inr ⟨_,_,release_ok nonzero inside,release_ok nonzero (same ▸ inside)⟩
    · have past := Nat.le_of_not_lt inside
      rw [release_past nonzero past,release_past nonzero (same ▸ past)]
      exact .inl ⟨nofun,rfl⟩

theorem dismiss_told (same : ids.capacity = other.capacity) (map : MapId) (copy : LiveMap) :
    (dismiss map ids copy).2 = (dismiss map other copy).2 := by
  unfold dismiss
  rcases release_error same copy.instanceId with ⟨refused,equal⟩ | ⟨after,later,first,second⟩
  · rw [equal]
    cases ran : ids.release copy.instanceId with
    | ok after => exact absurd ran (refused after)
    | error e => rfl
  · rw [first,second]

theorem dismissAll_told (same : ids.capacity = other.capacity) (map : MapId) (copies : List LiveMap) :
    (dismissAll map ids copies).2 = (dismissAll map other copies).2 := by
  induction copies generalizing ids other with
  | nil => rfl
  | cons copy rest ih =>
    have next : (dismiss map ids copy).1.capacity = (dismiss map other copy).1.capacity := by
      rw [dismiss_ids,dismiss_ids,returned_capacity,returned_capacity,same]
    exact congrArg₂ (· ++ ·) (dismiss_told same map copy) (ih next)

theorem returnedAll_capacity (ids : IdTable) (given : List InstanceId) :
    (given.foldl returned ids).capacity = ids.capacity := by
  induction given generalizing ids with
  | nil => rfl
  | cons id rest ih => exact (ih _).trans (returned_capacity ids id)

theorem primaryEffects_same (same : ids.capacity = other.capacity) (delay diff : UInt32) (b : BaseMap) :
    (b.primaryEffects delay diff ids).2 = (b.primaryEffects delay diff other).2 := by
  simp only [primaryEffects,dismissAll_told same]

end BaseMap

namespace World
open Ordered
variable {w after : World} {b : BaseMap} {todo : List BaseMap} {order first second : List Nat}

-- A base map after a phase has visited those with certain serials.
def visited (f : BaseMap → BaseMap) (order : List Nat) (b : BaseMap) : BaseMap :=
  if b.serial ∈ order then f b else b

@[simp] theorem visited_nil (f : BaseMap → BaseMap) : visited f [] = id :=
  funext fun _ => if_neg List.not_mem_nil

theorem map_visited (f : BaseMap → BaseMap) (steady : ∀ b, (f b).serial = b.serial) {serial : Nat}
    (apart : serial ∉ order) (maps : List BaseMap) :
    (maps.map (fun b => if b.serial = serial then f b else b)).map (visited f order) =
      maps.map (visited f (serial :: order)) := by
  rw [List.map_map]
  refine List.map_congr_left fun b _ => ?_
  by_cases same : b.serial = serial
  · simp [visited,same,steady,apart]
  · simp [visited,same]

theorem modifyHost_member (distinct : w.serials.Nodup) (member : b ∈ w.maps) (f : BaseMap → BaseMap) :
    w.modifyHost b.serial f =
      {w with maps := w.maps.map (fun other => if other.serial = b.serial then f other else other)} := by
  obtain ⟨front,back,split⟩ := List.append_of_mem member
  have retired := (modifyHost_registered distinct split f).2
  unfold modifyHost at retired ⊢
  simp only at retired ⊢
  rw [retired]

theorem update_member (sound : w.Sound) (member : b ∈ w.maps) (diff : UInt32) :
    w.update b.serial diff = {w with
      maps := w.maps.map (fun other =>
        if other.serial = b.serial then other.primary w.config.unloadDelay diff else other)
      ids := ((b.expired w.config.unloadDelay).map LiveMap.instanceId).foldl IdTable.returned w.ids
      retiredCopies := w.retiredCopies ++ (b.expired w.config.unloadDelay).map LiveMap.unload
      journal := w.journal ++ (b.primaryEffects w.config.unloadDelay diff w.ids).2 } := by
  unfold update
  rw [host?_serial sound.distinct (List.mem_append_left _ member)]
  simp only [modifyHost_member sound.distinct member,BaseMap.primaryEffects,BaseMap.dismissAll_ids]

theorem settle_member (sound : w.Sound) (member : b ∈ w.maps) (diff : UInt32) :
    w.settle b.serial diff = {w with
      maps := w.maps.map (fun other => if other.serial = b.serial then other.delayed else other)
      journal := w.journal ++ b.delayedEvents diff } := by
  unfold settle
  rw [host?_serial sound.distinct (List.mem_append_left _ member)]
  simp only [modifyHost_member sound.distinct member,tell]

theorem mem_visited {f : BaseMap → BaseMap} (member : b ∈ w.maps) {serial : Nat} (apart : b.serial ≠ serial) :
    b ∈ w.maps.map (fun other => if other.serial = serial then f other else other) :=
  List.mem_map.mpr ⟨b,member,if_neg apart⟩

theorem updateAll_exact (sound : w.Sound) (known : ∀ b ∈ todo, b ∈ w.maps)
    (distinct : (todo.map BaseMap.serial).Nodup) (diff : UInt32) :
    w.updateAll diff (todo.map BaseMap.serial) = {w with
      maps := w.maps.map (visited (BaseMap.primary w.config.unloadDelay diff) (todo.map BaseMap.serial))
      ids := ((todo.flatMap (BaseMap.expired w.config.unloadDelay)).map LiveMap.instanceId).foldl
        IdTable.returned w.ids
      retiredCopies := w.retiredCopies ++
        (todo.flatMap (BaseMap.expired w.config.unloadDelay)).map LiveMap.unload
      journal := w.journal ++
        todo.flatMap (fun b => (b.primaryEffects w.config.unloadDelay diff w.ids).2) } := by
  induction todo generalizing w with
  | nil => simp [updateAll]
  | cons b rest ih =>
    have member := known b List.mem_cons_self
    obtain ⟨apart,distinct⟩ := List.nodup_cons.mp distinct
    have steps : Steps False w (w.update b.serial diff) := update_steps w b.serial diff
    have one := update_member sound member diff
    have later := ih (steps.sound sound) (by
      rw [one]
      exact fun other among => mem_visited (known other (List.mem_cons_of_mem _ among)) fun same =>
        apart (same ▸ List.mem_map_of_mem among)) distinct
    have told (ids : List InstanceId) (b : BaseMap) :
        (b.primaryEffects w.config.unloadDelay diff (ids.foldl IdTable.returned w.ids)).2 =
          (b.primaryEffects w.config.unloadDelay diff w.ids).2 :=
      BaseMap.primaryEffects_same (BaseMap.returnedAll_capacity w.ids ids) ..
    rw [one] at later
    rw [List.map_cons,updateAll,List.foldl_cons,one]
    refine later.trans ?_
    simp only [told,map_visited (BaseMap.primary w.config.unloadDelay diff) (fun _ => rfl) apart,List.flatMap_cons,
      List.map_append,List.foldl_append,List.append_assoc]

theorem settleAll_exact (sound : w.Sound) (known : ∀ b ∈ todo, b ∈ w.maps)
    (distinct : (todo.map BaseMap.serial).Nodup) (diff : UInt32) :
    w.settleAll diff (todo.map BaseMap.serial) = {w with
      maps := w.maps.map (visited BaseMap.delayed (todo.map BaseMap.serial))
      journal := w.journal ++ todo.flatMap (BaseMap.delayedEvents diff) } := by
  induction todo generalizing w with
  | nil => simp [settleAll]
  | cons b rest ih =>
    have member := known b List.mem_cons_self
    obtain ⟨apart,distinct⟩ := List.nodup_cons.mp distinct
    have steps : Steps False w (w.settle b.serial diff) := settle_steps w b.serial diff
    have one := settle_member sound member diff
    have later := ih (steps.sound sound) (by
      rw [one]
      exact fun other among => mem_visited (known other (List.mem_cons_of_mem _ among)) fun same =>
        apart (same ▸ List.mem_map_of_mem among)) distinct
    rw [one] at later
    rw [List.map_cons,settleAll,List.foldl_cons,one]
    refine later.trans ?_
    simp only [map_visited BaseMap.delayed (fun _ => rfl) apart,List.flatMap_cons,List.append_assoc]

theorem registered_nodup (sound : w.Sound) : w.registered.Nodup := by
  have distinct := sound.distinct
  rw [serials_eq,hosts,List.flatMap_append,List.nodup_append,List.nodup_append] at distinct
  refine List.pairwise_map.mpr ((List.nodup_flatMap.mp distinct.1.1).2.imp fun apart same => ?_)
  exact apart List.mem_cons_self (List.mem_cons.mpr (.inl same))

theorem ordered_maps (sound : w.Sound) (all : order.Perm w.registered) :
    ∃ todo : List BaseMap, todo.map BaseMap.serial = order ∧ todo.Perm w.maps := by
  have found (b : BaseMap) (member : b ∈ w.maps) : w.host? b.serial = some b :=
    host?_serial sound.distinct (List.mem_append_left _ member)
  refine ⟨order.filterMap w.host?,?_,?_⟩
  · rw [List.map_filterMap]
    refine (List.filterMap_congr fun serial among => ?_).trans List.filterMap_some
    obtain ⟨b,member,rfl⟩ := List.mem_map.mp (all.mem_iff.mp among)
    rw [found b member]
    rfl
  · have same : w.registered.filterMap w.host? = w.maps := by
      rw [registered,List.filterMap_map]
      exact (List.filterMap_congr found).trans List.filterMap_some
    exact (all.filterMap w.host?).trans (.of_eq same)

theorem map_visited_all {maps : List BaseMap} (all : todo.Perm maps) (f : BaseMap → BaseMap) :
    maps.map (visited f (todo.map BaseMap.serial)) = maps.map f := by
  refine List.map_congr_left fun b member => if_pos ?_
  exact List.mem_map_of_mem (all.mem_iff.mpr member)

theorem orders_exact (sound : w.Sound) {later : List BaseMap} (one : todo.Perm w.maps)
    (two : later.Perm w.maps) (diff : UInt32) :
    (w.updateAll diff (todo.map BaseMap.serial)).settleAll diff (later.map BaseMap.serial) = {w with
      maps := w.maps.map (fun b => (b.primary w.config.unloadDelay diff).delayed)
      ids := ((todo.flatMap (BaseMap.expired w.config.unloadDelay)).map LiveMap.instanceId).foldl
        IdTable.returned w.ids
      retiredCopies := w.retiredCopies ++
        (todo.flatMap (BaseMap.expired w.config.unloadDelay)).map LiveMap.unload
      journal := w.journal ++
        todo.flatMap (fun b => (b.primaryEffects w.config.unloadDelay diff w.ids).2) ++
        later.flatMap (fun b => (b.primary w.config.unloadDelay diff).delayedEvents diff) } := by
  have distinct {maps : List BaseMap} (all : maps.Perm w.maps) : (maps.map BaseMap.serial).Nodup :=
    (all.map BaseMap.serial).nodup_iff.mpr (registered_nodup sound)
  have primary := updateAll_exact sound (fun b member => one.mem_iff.mp member) (distinct one) diff
  have steps : Steps False w (w.updateAll diff (todo.map BaseMap.serial)) :=
    foldl_steps (fun w serial => update_steps w serial diff) _ w
  rw [map_visited_all one] at primary
  have moved : (later.map (BaseMap.primary w.config.unloadDelay diff)).Perm
      (w.updateAll diff (todo.map BaseMap.serial)).maps := by
    rw [primary]
    exact two.map _
  have serials : (later.map (BaseMap.primary w.config.unloadDelay diff)).map BaseMap.serial =
      later.map BaseMap.serial := List.map_map ..
  have delayed := settleAll_exact (steps.sound sound) (fun b member => moved.mem_iff.mp member)
    (serials ▸ distinct two) diff
  rw [map_visited_all moved,serials] at delayed
  rw [delayed,primary]
  simp only [List.map_map,List.flatMap_map,Function.comp_def]

theorem pass_exact (sound : w.Sound) (diff : UInt32) : w.pass diff = {w with
    maps := w.maps.map (fun b => (b.primary w.config.unloadDelay diff).delayed)
    ids := ((w.maps.flatMap (BaseMap.expired w.config.unloadDelay)).map LiveMap.instanceId).foldl
      IdTable.returned w.ids
    retiredCopies := w.retiredCopies ++
      (w.maps.flatMap (BaseMap.expired w.config.unloadDelay)).map LiveMap.unload
    journal := w.journal ++
      w.maps.flatMap (fun b => (b.primaryEffects w.config.unloadDelay diff w.ids).2) ++
      w.maps.flatMap (fun b => (b.primary w.config.unloadDelay diff).delayedEvents diff) } :=
  orders_exact sound (.refl _) (.refl _) diff

-- Worlds that differ in nothing but the order in which dropped copies are kept and
-- in which things were told.
structure Reordered (w after : World) : Prop where
  rest : after = {w with retiredCopies := after.retiredCopies, journal := after.journal}
  dropped : after.retiredCopies.Perm w.retiredCopies
  told : after.journal.Perm w.journal

theorem orders_reordered (sound : w.Sound) (one : first.Perm w.registered) (two : second.Perm w.registered)
    (diff : UInt32) : Reordered (w.pass diff) ((w.updateAll diff first).settleAll diff second) := by
  obtain ⟨todo,rfl,all⟩ := ordered_maps sound one
  obtain ⟨later,rfl,all'⟩ := ordered_maps sound two
  rw [orders_exact sound all all' diff,pass_exact sound diff]
  have expired := all.flatMap_right (BaseMap.expired w.config.unloadDelay)
  refine ⟨?_,(expired.map LiveMap.unload).append_left w.retiredCopies,?_⟩
  · rw [(expired.map LiveMap.instanceId).foldl_eq w.ids]
  · exact ((all.flatMap_right _).append_left w.journal).append (all'.flatMap_right _)

-- Every world that calls lead to: whatever the orders of its two phases, a pass ends
-- in one state. So it does with any number of threads that take the maps as they come.
theorem pass_any_order {data : CatalogData} {c : Catalog} (built : Catalog.build data = .ok c)
    (config : WorldConfig) (tiles : Terrain.TileSource) (saved : SavedState)
    (path : Reached (fun _ _ => True) (start c config tiles saved) w) (diff : UInt32) :
    (∀ first second, first.Perm w.registered → second.Perm w.registered →
      Reordered (w.pass diff) ((w.updateAll diff first).settleAll diff second)) ∧
    ∀ threads p, WorkerPool.Served threads p →
      (∃ middle last, WorkerPool.Batch w.registered p middle ∧
        WorkerPool.Batch w.registered middle last) ∧
      ∀ middle last, WorkerPool.Batch w.registered p middle →
        WorkerPool.Batch w.registered middle last →
        Reordered (w.pass diff) ((w.updateAll diff (WorkerPool.endedSince p middle)).settleAll diff
          (WorkerPool.endedSince middle last)) := by
  have sound := Reached.sound (start_sound (Catalog.build_forest built) config tiles saved) path
  refine ⟨fun first second one two => orders_reordered sound one two diff,fun threads p served => ?_⟩
  obtain ⟨counted,rested⟩ := served.parts
  constructor
  · obtain ⟨middle,primary⟩ := WorkerPool.exists_batch counted rested w.registered
    obtain ⟨counted,rested⟩ := (served.batch primary).parts
    obtain ⟨last,delayed⟩ := WorkerPool.exists_batch counted rested w.registered
    exact ⟨middle,last,primary,delayed⟩
  · intro middle last primary delayed
    have one := primary.endedSince_perm counted rested
    obtain ⟨counted,rested⟩ := (served.batch primary).parts
    exact orders_reordered sound one (delayed.endedSince_perm counted rested) diff

-- Two maps with a copy each whose time is up, the second one first.
theorem pass_any_order_backwards :
    let data : CatalogData := {maps := [{id := ⟨36⟩, kind := .dungeon},{id := ⟨37⟩, kind := .raid}]}
    ∃ c w, Catalog.build data = .ok c ∧
      Reached (fun _ _ => True) (start c {unloadDelay := 5} .none .empty) w ∧
      [2,0].Perm w.registered ∧ w.ids.claimed = [⟨1⟩,⟨2⟩] ∧
      ((w.updateAll 10 [2,0]).settleAll 10 [0,2]).ids.claimed = [] ∧
      ((w.updateAll 10 [2,0]).settleAll 10 [0,2]).ids.next = 1 ∧
      Reordered (w.pass 10) ((w.updateAll 10 [2,0]).settleAll 10 [0,2]) := by
  intro data
  obtain ⟨c,built⟩ : ∃ c, Catalog.build data = .ok c := ⟨_,rfl⟩
  have started : Reached (fun _ _ => True) (start c {unloadDelay := 5} .none .empty) _ := .start
  have path := started
    |>.step (.createMap ⟨36⟩ {participant := .nil, difficulty := .normal}) trivial
    |>.step (.createMap ⟨37⟩ {participant := .nil, difficulty := .normal}) trivial
    |>.step (.advance 10 ⟨0,0⟩) trivial
  obtain ⟨w,path,registered,claimed,after⟩ : ∃ w, Reached (fun _ _ => True)
      (start c {unloadDelay := 5} .none .empty) w ∧ w.registered = [0,2] ∧ w.ids.claimed = [⟨1⟩,⟨2⟩] ∧
      ((w.updateAll 10 [2,0]).settleAll 10 [0,2]).ids.claimed = [] ∧
      ((w.updateAll 10 [2,0]).settleAll 10 [0,2]).ids.next = 1 := by
    cases built
    exact ⟨_,path,by decide,by decide,by decide,by decide⟩
  have backwards : [2,0].Perm w.registered := by
    rw [registered]
    exact .swap ..
  have forwards : [0,2].Perm w.registered := .of_eq registered.symm
  exact ⟨c,w,built,path,backwards,claimed,after.1,after.2,
    (pass_any_order built {unloadDelay := 5} .none .empty path 10).1 _ _ backwards forwards⟩

end World
end LiveMaps
