import LiveMaps.Proofs.World.Clocks
import LiveMaps.Proofs.World.Copies

namespace LiveMaps

namespace IdTable
variable {t : IdTable} {id other : InstanceId} {given : List InstanceId}

theorem returned_unclaimed (unclaimed : other ∉ t.claimed) (id : InstanceId) :
    other ∉ (t.returned id).claimed := by
  rw [returned_eq]
  split
  · exact fun held => unclaimed (List.mem_filter.mp held).1
  · exact unclaimed

theorem returned_free (free : t.isFree other = true) (id : InstanceId) :
    (t.returned id).isFree other = true := by
  rw [returned_eq]
  split
  · rename_i taken
    refine (slotFree_set t id.order other.order true).mpr ?_
    split
    · exact ⟨rfl,taken.2⟩
    · exact free
  · exact free

theorem returned_self (valid : t.Valid) (id : InstanceId) : id ∉ (t.returned id).claimed ∧
    (id ≠ .base → id.order < t.capacity → (t.returned id).isFree id = true) := by
  rw [returned_eq]
  split
  · rename_i taken
    refine ⟨fun held => by simp at held,fun _ inside => ?_⟩
    exact (slotFree_set t id.order id.order true).mpr (by simpa using inside)
  · rename_i refused
    refine ⟨fun held => refused ?_,fun proper inside => absurd ⟨proper,inside⟩ refused⟩
    exact ⟨(valid.held id held).1,(valid.held id held).2.1⟩

theorem returnedAll_kept (other : InstanceId) (given : List InstanceId) (t : IdTable) :
    (other ∉ t.claimed → other ∉ (given.foldl returned t).claimed) ∧
      (t.isFree other = true → (given.foldl returned t).isFree other = true) := by
  induction given generalizing t with
  | nil => exact ⟨id,id⟩
  | cons id rest ih =>
    obtain ⟨claims,free⟩ := ih (t.returned id)
    exact ⟨fun unclaimed => claims (returned_unclaimed unclaimed id),fun vacant => free (returned_free vacant id)⟩

theorem returnedAll_mem (valid : t.Valid) (member : id ∈ given) (proper : id ≠ .base) :
    id ∉ (given.foldl returned t).claimed ∧
      ((given.foldl returned t).isFree id = true ↔ id.order < t.capacity) := by
  have first := List.perm_cons_erase member
  have size : (given.foldl returned t).capacity = t.capacity := BaseMap.returnedAll_capacity t given
  rw [first.foldl_eq t,List.foldl_cons] at size ⊢
  obtain ⟨unclaimed,free⟩ := returned_self valid id
  obtain ⟨claims,kept⟩ := returnedAll_kept id (given.erase id) (t.returned id)
  refine ⟨claims unclaimed,fun vacant => ?_,fun inside => kept (free proper inside)⟩
  exact size ▸ slot_within vacant

end IdTable

namespace Clock

theorem ticks_of (past : List Turn) : (of past).ticks = past.length := by
  induction past with
  | nil => rfl
  | cons t past ih => exact congrArg (· + 1) ih

theorem elapsed_of (past : List Turn) : (of past).elapsed = (past.map (·.diff.toNat)).sum := by
  induction past with
  | nil => rfl
  | cons t past ih =>
    rw [List.map_cons,List.sum_cons,←ih]
    exact Nat.add_comm ..

-- Each update brings less than a word of 32 bits, so that many of them fit a word of 64.
theorem elapsed_lt {past : List Turn} (few : past.length < 2 ^ 32) : (of past).elapsed < 2 ^ 64 := by
  have bound : (of past).elapsed ≤ past.length * (2 ^ 32 - 1) := by
    clear few
    induction past with
    | nil => exact Nat.zero_le _
    | cons t past ih =>
      have brought := t.diff.toNat_lt
      change (of past).elapsed + t.diff.toNat ≤ (past.length + 1) * (2 ^ 32 - 1)
      omega
  have most := Nat.mul_le_mul_right (2 ^ 32 - 1) (Nat.le_of_lt few)
  omega

end Clock

namespace World
open Ordered
variable {w after : World} {b : BaseMap} {copy : LiveMap} {call : WorldCall} {diff : UInt32} {serial : Nat}

def Standing (w : World) (serial : Nat) : Prop := ∃ b ∈ w.hosts, ∃ copy ∈ b.copies, copy.serial = serial

-- A copy whose time is up: empty, with no movement queued, and found like that for the
-- unload delay by its latest updates without a break.
def Overdue (delay : UInt32) (copy : LiveMap) (past : List Turn) : Prop :=
  delay ≠ 0 ∧ copy.participants = [] ∧ copy.pending = [] ∧ delay.toNat ≤ Clock.quietTime past

-- The calls that take a base map through the primary phase: one for this map alone, and
-- a pass, where the map is registered.
def Visits (w : World) (b : BaseMap) : WorldCall → Prop
  | .update serial _ => serial = b.serial
  | .advance elapsed _ => (w.schedule.timer.add elapsed).passed = true ∧ b ∈ w.maps
  | _ => False

def Ticking : WorldCall → Prop
  | .update _ _ => True
  | .settle _ _ => True
  | .advance _ _ => True
  | _ => False

theorem isExpired_iff {past : Nat → List Turn} (recorded : w.Recorded past) (running : copy ∈ w.live)
    (delay : UInt32) : copy.isExpired delay = true ↔ Overdue delay copy (past copy.serial) := by
  have idle : copy.idle.toNat = min (Clock.quietTime (past copy.serial)) 0xffffffff := by
    rw [←Clock.idle_of,←recorded.clocks copy running]
    rfl
  have small := delay.toNat_lt
  simp only [LiveMap.isExpired,LiveMap.isQuiet,Bool.and_eq_true,bne_iff_ne,List.isEmpty_iff,
    decide_eq_true_eq,idle,Overdue,and_assoc]
  refine and_congr_right fun _ => and_congr_right fun _ => and_congr_right fun _ => ?_
  omega

theorem stands_primary {delay : UInt32} (among : copy ∈ b.copies) (alive : copy.isExpired delay = false) :
    ∃ left ∈ (b.primary delay diff).copies, left.serial = copy.serial := by
  refine ⟨copy.advance diff,?_,rfl⟩
  rw [BaseMap.copies_primary]
  exact List.mem_map_of_mem (List.mem_filter.mpr ⟨among,by rw [alive]; rfl⟩)

theorem stands_mapAll {f : LiveMap → LiveMap} (steady : LiveMap.Steady f) (among : copy ∈ b.copies) :
    ∃ left ∈ (b.mapAll f).copies, left.serial = copy.serial := by
  refine ⟨f copy,?_,steady.serial copy⟩
  rw [BaseMap.copies_mapAll]
  exact List.mem_map_of_mem among

theorem standing_modifyHost {f : BaseMap → BaseMap} (member : b ∈ w.hosts) (among : copy ∈ b.copies)
    (stands : ∃ left ∈ (f b).copies, left.serial = copy.serial) (serial : Nat) :
    (w.modifyHost serial f).Standing copy.serial := by
  refine ⟨if b.serial = serial then f b else b,?_,?_⟩
  · rw [hosts_modifyHost]
    exact List.mem_map_of_mem member
  · split
    · exact stands
    · exact ⟨copy,among,rfl⟩

theorem standing_modify {f : LiveMap → LiveMap} (steady : LiveMap.Steady f) (member : b ∈ w.hosts)
    (among : copy ∈ b.copies) (serial : Nat) : (w.modify serial f).Standing copy.serial := by
  refine ⟨b.mapAll (atSerial serial f),?_,stands_mapAll (steady.atSerial serial) among⟩
  rw [hosts_modify]
  exact List.mem_map_of_mem member

theorem Touch.standing {f : LiveMap → LiveMap} (touch : Touch w serial f after) (member : b ∈ w.hosts)
    (among : copy ∈ b.copies) : after.Standing copy.serial := by
  cases touch with
  | absent => exact ⟨b,member,copy,among,rfl⟩
  | change journal steady _ => exact standing_modify steady member among serial

theorem standing_pass (sound : w.Sound) (member : b ∈ w.hosts) (among : copy ∈ b.copies)
    (alive : copy.isExpired w.config.unloadDelay = false) (diff : UInt32) :
    (w.pass diff).Standing copy.serial := by
  rw [pass_exact sound]
  rcases List.mem_append.mp member with current | retired
  · obtain ⟨left,inside,serial⟩ : ∃ left ∈ (b.primary w.config.unloadDelay diff).copies,
        left.serial = copy.serial := stands_primary among alive
    obtain ⟨last,inside',serial'⟩ := stands_mapAll LiveMap.settle_steady inside
    exact ⟨_,List.mem_append_left _ (List.mem_map_of_mem current),last,inside',serial'.trans serial⟩
  · exact ⟨b,List.mem_append_right _ retired,copy,among,rfl⟩

theorem ticking_standing (sound : w.Sound) (member : b ∈ w.hosts) (among : copy ∈ b.copies)
    (alive : copy.isExpired w.config.unloadDelay = false) (ticking : Ticking call) :
    (w.perform call).Standing copy.serial := by
  cases call with
  | update serial diff =>
    cases found : w.host? serial with
    | some host =>
      simp only [perform,update,found]
      exact standing_modifyHost member among (stands_primary among alive) serial
    | none => exact (update_touch found diff).standing member among
  | settle serial diff =>
    cases found : w.host? serial with
    | some host =>
      simp only [perform,settle,found]
      exact standing_modifyHost member among (stands_mapAll LiveMap.settle_steady among) serial
    | none => exact (settle_touch found diff).standing member among
  | advance elapsed times =>
    simp only [perform,advance]
    split
    · exact standing_pass sound member among alive _
    · exact ⟨b,member,copy,among,rfl⟩
  | _ => cases ticking

theorem gone_of_origin (distinct : w.serials.Nodup) (member : b ∈ w.hosts)
    (expired : copy ∈ b.expired w.config.unloadDelay)
    (origin : ∀ next ∈ after.hosts, ∀ left ∈ next.copies, ∃ host ∈ w.hosts, ∃ old ∈ host.copies,
      old.serial = left.serial ∧ (host = b → old.isExpired w.config.unloadDelay = false)) :
    ¬ after.Standing copy.serial := by
  rintro ⟨next,there,left,inside,same⟩
  obtain ⟨host,hosted,old,held,serial,alive⟩ := origin next there left inside
  obtain ⟨among,gone⟩ := List.mem_filter.mp expired
  have running := mem_live.mpr (.inl ⟨b,member,List.mem_cons_of_mem _ among⟩)
  have running' := mem_live.mpr (.inl ⟨host,hosted,List.mem_cons_of_mem _ held⟩)
  have equal := live_inj distinct running' running (serial.trans same)
  subst equal
  have own := same_host distinct member (List.mem_cons_of_mem _ among) hosted (List.mem_cons_of_mem _ held)
  rw [alive own] at gone
  cases gone

theorem primary_origin {delay : UInt32} {left : LiveMap} (inside : left ∈ (b.primary delay diff).copies) :
    ∃ old ∈ b.copies, old.serial = left.serial ∧ old.isExpired delay = false := by
  rw [BaseMap.copies_primary] at inside
  obtain ⟨old,survived,rfl⟩ := List.mem_map.mp inside
  obtain ⟨among,alive⟩ := List.mem_filter.mp survived
  exact ⟨old,among,rfl,by simpa using alive⟩

theorem update_gone (sound : w.Sound) (member : b ∈ w.hosts)
    (expired : copy ∈ b.expired w.config.unloadDelay) (diff : UInt32) :
    ¬ (w.update b.serial diff).Standing copy.serial := by
  unfold update
  rw [host?_serial sound.distinct member]
  refine gone_of_origin sound.distinct member expired fun next there left inside => ?_
  rcases host_changed sound.distinct member there with rfl | ⟨old,apart⟩
  · obtain ⟨old,among,serial,alive⟩ := primary_origin inside
    exact ⟨b,member,old,among,serial,fun _ => alive⟩
  · exact ⟨next,old,left,inside,rfl,fun same => absurd same apart⟩

theorem pass_gone (sound : w.Sound) (member : b ∈ w.maps)
    (expired : copy ∈ b.expired w.config.unloadDelay) (diff : UInt32) :
    ¬ (w.pass diff).Standing copy.serial := by
  rw [pass_exact sound]
  refine gone_of_origin sound.distinct (List.mem_append_left _ member) expired fun next there left inside => ?_
  rcases List.mem_append.mp there with current | retired
  · obtain ⟨host,hosted,rfl⟩ := List.mem_map.mp current
    rw [BaseMap.delayed,BaseMap.copies_mapAll] at inside
    obtain ⟨before,held,rfl⟩ := List.mem_map.mp inside
    obtain ⟨old,among,serial,alive⟩ := primary_origin held
    exact ⟨host,List.mem_append_left _ hosted,old,among,serial,fun _ => alive⟩
  · refine ⟨next,List.mem_append_right _ retired,left,inside,rfl,fun same => ?_⟩
    exact absurd (same ▸ retired) (not_retired sound.distinct member)

structure Departed (w after : World) (copy : LiveMap) : Prop where
  dropped : copy.unload ∈ after.retiredCopies
  unclaimed : copy.instanceId ∉ after.ids.claimed
  free : after.ids.isFree copy.instanceId = true ↔ copy.instanceId.order < w.ids.capacity

theorem visits_gone (sound : w.Sound) (member : b ∈ w.hosts)
    (expired : copy ∈ b.expired w.config.unloadDelay) (visits : w.Visits b call) :
    ¬ (w.perform call).Standing copy.serial ∧ w.Departed (w.perform call) copy := by
  have proper := ((sound.bases b member).copies copy (List.mem_filter.mp expired).1).2
  cases call with
  | update serial diff =>
    have same : serial = b.serial := visits
    subst same
    refine ⟨update_gone sound member expired diff,?_⟩
    simp only [perform,update,host?_serial sound.distinct member,BaseMap.primaryEffects,
      BaseMap.dismissAll_ids]
    have returned := IdTable.returnedAll_mem sound.ids (List.mem_map_of_mem expired) proper
    exact ⟨List.mem_append_right _ (List.mem_map_of_mem expired),returned.1,returned.2⟩
  | advance elapsed times =>
    obtain ⟨passed,registered⟩ := visits
    have among : copy ∈ w.maps.flatMap (BaseMap.expired w.config.unloadDelay) :=
      List.mem_flatMap.mpr ⟨b,registered,expired⟩
    simp only [perform,advance,passed,if_true]
    refine ⟨pass_gone sound registered expired _,?_⟩
    rw [pass_exact sound]
    have returned := IdTable.returnedAll_mem sound.ids (List.mem_map_of_mem among) proper
    exact ⟨List.mem_append_right _ (List.mem_map_of_mem among),returned.1,returned.2⟩
  | _ => cases visits

theorem visits_ticking (visits : w.Visits b call) : Ticking call := by
  cases call with
  | update | advance => trivial
  | _ => cases visits

-- Every copy of every base map, in every world that calls lead to, as the primary phase
-- comes to it: it goes just if its time is up, and leaves its identifier to others.
theorem idle_copies {data : CatalogData} {c : Catalog} (built : Catalog.build data = .ok c)
    (config : WorldConfig) (tiles : Terrain.TileSource) (saved : SavedState) {past : Nat → List Turn}
    (life : Lived (fun _ _ => True) (start c config tiles saved) w past) :
    ∀ b ∈ w.hosts, ∀ copy ∈ b.copies,
      (copy.ticks = (past copy.serial).length ∧
        copy.elapsed = ((past copy.serial).map (·.diff.toNat)).sum) ∧
      (∀ call, w.Visits b call → (¬ (w.perform call).Standing copy.serial ↔
        Overdue w.config.unloadDelay copy (past copy.serial))) ∧
      (∀ call, w.Visits b call → ¬ (w.perform call).Standing copy.serial →
        w.Departed (w.perform call) copy ∧
        (Reached Managed (start c config tiles saved) w →
          (w.perform call).ids.isFree copy.instanceId = true)) ∧
      ∀ call, Ticking call →
        copy.participants ≠ [] ∨ copy.pending ≠ [] ∨ w.config.unloadDelay = 0 →
        (w.perform call).Standing copy.serial := by
  have forest := Catalog.build_forest built
  have started := start_sound forest config tiles saved
  have sound := Reached.sound started life.reached
  have recorded := life.recorded forest config tiles saved
  intro b member copy among
  have running : copy ∈ w.live := mem_live.mpr (.inl ⟨b,member,List.mem_cons_of_mem _ among⟩)
  have clock := recorded.clocks copy running
  have timeUp := isExpired_iff recorded running w.config.unloadDelay
  have alive (early : ¬ Overdue w.config.unloadDelay copy (past copy.serial)) :
      copy.isExpired w.config.unloadDelay = false := Bool.eq_false_iff.mpr fun gone => early (timeUp.mp gone)
  have overdue {call : WorldCall} (ticking : Ticking call) (gone : ¬ (w.perform call).Standing copy.serial) :
      Overdue w.config.unloadDelay copy (past copy.serial) := by
    by_contra early
    exact gone (ticking_standing sound member among (alive early) ticking)
  have expired (due : Overdue w.config.unloadDelay copy (past copy.serial)) :
      copy ∈ b.expired w.config.unloadDelay := List.mem_filter.mpr ⟨among,timeUp.mpr due⟩
  refine ⟨⟨?_,?_⟩,fun call visits => ⟨overdue (visits_ticking visits),fun due => ?_⟩,
    fun call visits gone => ?_,fun call ticking spared => ?_⟩
  · exact (congrArg Clock.ticks clock).trans (Clock.ticks_of _)
  · exact (congrArg Clock.elapsed clock).trans (Clock.elapsed_of _)
  · exact (visits_gone sound member (expired due) visits).1
  · have departed := (visits_gone sound member (expired (overdue (visits_ticking visits) gone)) visits).2
    refine ⟨departed,fun managed => departed.free.mpr ?_⟩
    have accounted := Reached.accounted started (start_accounted c config tiles saved) managed
    have claimed := accounted.claimed b member _ (BaseMap.mem_copyIds among)
    exact (sound.ids.held _ claimed).2.1
  · refine ticking_standing sound member among (alive fun due => ?_) ticking
    obtain ⟨set,empty,unqueued,_⟩ := due
    rcases spared with inside | queued | unset
    · exact inside empty
    · exact queued unqueued
    · exact set unset

-- Of two copies the second has a participant on the way in as the first one's time is up.
theorem idle_copies_queued :
    let data : CatalogData := {maps := [{id := ⟨36⟩, kind := .dungeon}]}
    ∃ c w past, Catalog.build data = .ok c ∧
      Lived (fun _ _ => True) (start c {unloadDelay := 5} .none .empty) w past ∧
      past 1 = [⟨10,true⟩] ∧ past 2 = [⟨10,true⟩] ∧
      ¬ (w.perform (.advance 10 ⟨0,0⟩)).Standing 1 ∧ (w.perform (.advance 10 ⟨0,0⟩)).Standing 2 := by
  intro data
  obtain ⟨c,built⟩ : ∃ c, Catalog.build data = .ok c := ⟨_,rfl⟩
  have started : Lived (fun _ _ => True) (start c {unloadDelay := 5} .none .empty) _ _ := .start
  have life := started
    |>.step (.createMap ⟨36⟩ {participant := .nil, difficulty := .normal}) trivial
    |>.step (.createMap ⟨36⟩ {participant := .nil, difficulty := .normal}) trivial
    |>.step (.advance 10 ⟨0,0⟩) trivial
    |>.step (.queue 2 (.enter .nil)) trivial
  obtain ⟨w,past,life,one,two,delay,passed,b,registered,⟨first,among,serial,empty,unqueued⟩,
      second,among',serial',queued⟩ :
      ∃ w past, Lived (fun _ _ => True) (start c {unloadDelay := 5} .none .empty) w past ∧
        past 1 = [⟨10,true⟩] ∧ past 2 = [⟨10,true⟩] ∧ w.config.unloadDelay = 5 ∧
        (w.schedule.timer.add 10).passed = true ∧ ∃ b ∈ w.maps,
        (∃ first ∈ b.copies, first.serial = 1 ∧ first.participants = [] ∧ first.pending = []) ∧
        ∃ second ∈ b.copies, second.serial = 2 ∧ second.pending ≠ [] := by
    cases built
    exact ⟨_,_,life,by decide,by decide,by decide,by decide,by decide⟩
  have visits : w.Visits b (.advance 10 ⟨0,0⟩) := ⟨passed,registered⟩
  have member := List.mem_append_left w.retiredMaps registered
  have idle := idle_copies built {unloadDelay := 5} .none .empty life b member
  refine ⟨c,w,past,built,life,one,two,?_,?_⟩
  · obtain ⟨_,gone,_⟩ := idle first among
    rw [delay,serial,one] at gone
    exact (gone _ visits).mpr ⟨by decide,empty,unqueued,by decide⟩
  · obtain ⟨_,_,_,kept⟩ := idle second among'
    rw [serial'] at kept
    exact kept _ trivial (.inr (.inl queued))

end World
end LiveMaps
