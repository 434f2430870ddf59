import LiveMaps.Proofs.World.Orders

namespace LiveMaps

structure LiveMap.New (m : LiveMap) : Prop where
  participants : m.participants = []
  pending : m.pending = []
  ticks : m.ticks = 0
  elapsed : m.elapsed = 0
  idle : m.idle = 0
  unloaded : m.unloaded = false

namespace BaseMap

def within (f : LiveMap → LiveMap) (b : BaseMap) (m : LiveMap) : LiveMap :=
  if m.serial ∈ b.serials then f m else m

-- What the primary phase of a base map makes of the map itself and of its copies.
def turnFate (delay diff : UInt32) (b : BaseMap) (m : LiveMap) : LiveMap :=
  if m.serial ≠ b.serial ∧ m.isExpired delay = true then m.unload else m.advance diff

end BaseMap

namespace World
open Ordered
variable {w after : World} {b : BaseMap} {m : LiveMap} {call : WorldCall} {diff : UInt32} {serial : Nat}

def keeper? (w : World) (m : LiveMap) : Option BaseMap :=
  w.maps.find? (fun b => b.serials.contains m.serial)

-- What a call makes of a running map. Calls that are not listed leave all of them alone.
def fate (w : World) (call : WorldCall) (m : LiveMap) : LiveMap :=
  match call with
  | .queue serial transfer => atSerial serial (LiveMap.queue · transfer) m
  | .setEncounter serial running => atSerial serial (LiveMap.setEncounter · running) m
  | .attach serial child => atSerial serial (LiveMap.attach child) m
  | .discover serial => atSerial serial (LiveMap.discover w.tiles) m
  | .load serial => atSerial serial (LiveMap.load w.saved) m
  | .update serial diff =>
    match w.host? serial with
    | some b => b.within (b.turnFate w.config.unloadDelay diff) m
    | none => atSerial serial (LiveMap.advance diff) m
  | .settle serial _ =>
    match w.host? serial with
    | some b => b.within LiveMap.settle m
    | none => atSerial serial LiveMap.settle m
  | .unload serial =>
    match w.host? serial with
    | some b => b.within LiveMap.unload m
    | none => atSerial serial LiveMap.unload m
  | .advance elapsed _ =>
    let timer := w.schedule.timer.add elapsed
    match w.keeper? m with
    | some b => if timer.passed then (b.turnFate w.config.unloadDelay timer.current m).settle else m
    | none => m
  | .unloadAll => if (w.keeper? m).isSome then m.unload else m
  | _ => m

theorem fate_update_host (found : w.host? serial = some b) (diff : UInt32) :
    w.fate (.update serial diff) = b.within (b.turnFate w.config.unloadDelay diff) := by
  funext m
  simp only [fate,found]

theorem fate_update_other (none : w.host? serial = none) (diff : UInt32) :
    w.fate (.update serial diff) = atSerial serial (LiveMap.advance diff) := by
  funext m
  simp only [fate,none]

theorem fate_settle_host (found : w.host? serial = some b) (diff : UInt32) :
    w.fate (.settle serial diff) = b.within LiveMap.settle := by
  funext m
  simp only [fate,found]

theorem fate_settle_other (none : w.host? serial = none) (diff : UInt32) :
    w.fate (.settle serial diff) = atSerial serial LiveMap.settle := by
  funext m
  simp only [fate,none]

theorem fate_unload_host (found : w.host? serial = some b) :
    w.fate (.unload serial) = b.within LiveMap.unload := by
  funext m
  simp only [fate,found]

theorem fate_unload_other (none : w.host? serial = none) :
    w.fate (.unload serial) = atSerial serial LiveMap.unload := by
  funext m
  simp only [fate,none]

theorem mem_live : m ∈ w.live ↔ (∃ b ∈ w.hosts, m ∈ b.all) ∨ m ∈ w.retiredCopies := by
  simp [live]

theorem live_inj (distinct : w.serials.Nodup) {one two : LiveMap} (first : one ∈ w.live)
    (second : two ∈ w.live) (same : one.serial = two.serial) : one = two :=
  List.inj_on_of_nodup_map distinct first second same

theorem live?_serial (distinct : w.serials.Nodup) (running : m ∈ w.live) : w.live? m.serial = some m := by
  cases sought : w.live? m.serial with
  | none => simpa using List.find?_eq_none.mp sought m running
  | some other =>
    have same : other.serial = m.serial := by simpa using List.find?_some sought
    rw [live_inj distinct (List.mem_of_find?_eq_some sought) running same]

theorem same_host (distinct : w.serials.Nodup) {other : BaseMap} (first : b ∈ w.hosts) (inside : m ∈ b.all)
    (second : other ∈ w.hosts) (inside' : m ∈ other.all) : other = b := by
  obtain ⟨front,back,split⟩ := List.append_of_mem first
  rw [serials_eq,split,List.nodup_append] at distinct
  rw [split] at second
  rcases mem_around.mp second with same | elsewhere
  · exact same
  · have apart := flatMap_apart distinct.1 elsewhere (List.mem_map_of_mem inside)
      (List.mem_map_of_mem inside')
    exact absurd rfl apart

theorem not_dropped (distinct : w.serials.Nodup) (member : b ∈ w.hosts) (inside : m ∈ b.all) :
    m ∉ w.retiredCopies := by
  intro dropped
  rw [serials_eq,List.nodup_append] at distinct
  exact distinct.2.2 _ (List.mem_flatMap.mpr ⟨b,member,List.mem_map_of_mem inside⟩) _
    (List.mem_map_of_mem dropped) rfl

theorem host_changed (distinct : w.serials.Nodup) (member : b ∈ w.hosts) {f : BaseMap → BaseMap}
    {other : BaseMap} (among : other ∈ (w.modifyHost b.serial f).hosts) :
    other = f b ∨ other ∈ w.hosts ∧ other ≠ b := by
  obtain ⟨front,back,split,changed⟩ := modifyHost_split distinct member f
  rw [changed,mem_around] at among
  refine among.imp_right fun elsewhere => ⟨?_,fun same => ?_⟩
  · rw [split]
    exact mem_around.mpr (.inr elsewhere)
  · exact host_apart distinct split elsewhere (congrArg BaseMap.serial same)

theorem all_live (member : b ∈ w.hosts) (inside : m ∈ b.all) : m ∈ w.live :=
  mem_live.mpr (.inl ⟨b,member,inside⟩)

theorem mem_host_serials (distinct : w.serials.Nodup) (member : b ∈ w.hosts) (running : m ∈ w.live) :
    m.serial ∈ b.serials ↔ m ∈ b.all := by
  constructor
  · intro among
    obtain ⟨own,inside,same⟩ := List.mem_map.mp among
    exact live_inj distinct (all_live member inside) running same ▸ inside
  · intro inside
    exact List.mem_map_of_mem inside

theorem within_inside (f : LiveMap → LiveMap) (inside : m ∈ b.all) : b.within f m = f m :=
  if_pos (List.mem_map_of_mem inside)

theorem within_outside (distinct : w.serials.Nodup) (member : b ∈ w.hosts) (running : m ∈ w.live)
    (outside : m ∉ b.all) (f : LiveMap → LiveMap) : b.within f m = m := by
  apply if_neg
  rw [mem_host_serials distinct member running]
  exact outside

theorem turnFate_reached {b : BaseMap} {delay : UInt32} (reached : m ∈ b.reachedBy delay) :
    b.turnFate delay diff m = m.advance diff := by
  apply if_neg
  rintro ⟨apart,expired⟩
  rcases List.mem_cons.mp reached with rfl | survived
  · exact apart rfl
  · have alive := (List.mem_filter.mp survived).2
    simp [expired] at alive

theorem turnFate_expired (distinct : w.serials.Nodup) (member : b ∈ w.hosts) {delay : UInt32}
    (expired : m ∈ b.expired delay) : b.turnFate delay diff m = m.unload := by
  obtain ⟨among,gone⟩ := List.mem_filter.mp expired
  refine if_pos ⟨fun same => ?_,gone⟩
  obtain ⟨front,back,split⟩ := List.append_of_mem member
  rw [serials_eq,split,List.nodup_append,List.flatMap_append,List.nodup_append,List.flatMap_cons,
    List.nodup_append,BaseMap.serials_eq,List.nodup_cons] at distinct
  exact distinct.1.2.1.1.1 (same ▸ List.mem_map_of_mem among)

theorem mem_primary {delay : UInt32} (inside : m ∈ (b.primary delay diff).all) :
    ∃ old ∈ b.reachedBy delay, m = old.advance diff := by
  rcases List.mem_cons.mp inside with rfl | among
  · exact ⟨b.own,List.mem_cons_self,rfl⟩
  · rw [BaseMap.copies_primary] at among
    obtain ⟨old,survived,rfl⟩ := List.mem_map.mp among
    exact ⟨old,List.mem_cons_of_mem _ survived,rfl⟩

theorem reachedBy_all {delay : UInt32} (among : m ∈ b.reachedBy delay) : m ∈ b.all := by
  rcases List.mem_cons.mp among with rfl | survived
  · exact List.mem_cons_self
  · exact List.mem_cons_of_mem _ (List.mem_filter.mp survived).1

theorem expired_all {delay : UInt32} (among : m ∈ b.expired delay) : m ∈ b.all :=
  List.mem_cons_of_mem _ (List.mem_filter.mp among).1

theorem all_cases (delay : UInt32) (inside : m ∈ b.all) : m ∈ b.reachedBy delay ∨ m ∈ b.expired delay := by
  rcases List.mem_cons.mp inside with rfl | among
  · exact .inl List.mem_cons_self
  · cases gone : m.isExpired delay with
    | true => exact .inr (List.mem_filter.mpr ⟨among,gone⟩)
    | false => exact .inl (List.mem_cons_of_mem _ (List.mem_filter.mpr ⟨among,by rw [gone]; rfl⟩))

theorem expired_unreachedBy {c : Catalog} (base : b.Sound c) {delay : UInt32} (expired : m ∈ b.expired delay) :
    m ∉ b.reachedBy delay := by
  obtain ⟨inside,gone⟩ := List.mem_filter.mp expired
  intro reached
  rcases List.mem_cons.mp reached with rfl | survived
  · exact (base.copies _ inside).2 base.base
  · simp [BaseMap.surviving,gone] at survived

theorem turnFate_primary (distinct : w.serials.Nodup) (member : b ∈ w.hosts) {delay : UInt32}
    (among : m ∈ (b.primary delay diff).all ∨ m ∈ (b.expired delay).map LiveMap.unload) :
    ∃ old ∈ b.all, m = b.turnFate delay diff old := by
  rcases among with inside | gone
  · obtain ⟨old,reached,rfl⟩ := mem_primary inside
    exact ⟨old,reachedBy_all reached,(turnFate_reached reached).symm⟩
  · obtain ⟨old,expired,rfl⟩ := List.mem_map.mp gone
    exact ⟨old,expired_all expired,(turnFate_expired distinct member expired).symm⟩

theorem keeper?_parts (found : w.keeper? m = some b) : b ∈ w.maps ∧ m.serial ∈ b.serials :=
  ⟨List.mem_of_find?_eq_some found,by simpa using List.find?_some found⟩

theorem keeper?_iff (distinct : w.serials.Nodup) (running : m ∈ w.live) :
    w.keeper? m = some b ↔ b ∈ w.maps ∧ m ∈ b.all := by
  have hosted {other : BaseMap} (member : other ∈ w.maps) : other ∈ w.hosts := List.mem_append_left _ member
  constructor
  · intro found
    obtain ⟨member,among⟩ := keeper?_parts found
    exact ⟨member,(mem_host_serials distinct (hosted member) running).mp among⟩
  · rintro ⟨member,inside⟩
    cases found : w.keeper? m with
    | none =>
      have missed := List.find?_eq_none.mp found b member
      simp only [List.contains_iff_mem,mem_host_serials distinct (hosted member) running] at missed
      exact absurd inside missed
    | some other =>
      obtain ⟨member',among⟩ := keeper?_parts found
      have inside' := (mem_host_serials distinct (hosted member') running).mp among
      rw [same_host distinct (hosted member) inside (hosted member') inside']

theorem mem_reached (distinct : w.serials.Nodup) (running : m ∈ w.live) (delay : UInt32) :
    m ∈ w.maps.flatMap (BaseMap.reachedBy delay) ↔ ∃ b, w.keeper? m = some b ∧ m ∈ b.reachedBy delay := by
  constructor
  · intro among
    obtain ⟨b,member,reached⟩ := List.mem_flatMap.mp among
    exact ⟨b,(keeper?_iff distinct running).mpr ⟨member,reachedBy_all reached⟩,reached⟩
  · intro kept
    obtain ⟨b,found,reached⟩ := kept
    exact List.mem_flatMap.mpr ⟨b,(keeper?_parts found).1,reached⟩

theorem keeper?_retired (distinct : w.serials.Nodup) (retired : b ∈ w.retiredMaps) (inside : m ∈ b.all) :
    w.keeper? m = none := by
  have member : b ∈ w.hosts := List.mem_append_right _ retired
  cases found : w.keeper? m with
  | none => rfl
  | some other =>
    obtain ⟨registered,inside'⟩ := (keeper?_iff distinct (all_live member inside)).mp found
    have same := same_host distinct member inside (List.mem_append_left _ registered) inside'
    exact absurd (same ▸ retired) (not_retired distinct registered)

theorem keeper?_dropped (distinct : w.serials.Nodup) (dropped : m ∈ w.retiredCopies) : w.keeper? m = none := by
  cases found : w.keeper? m with
  | none => rfl
  | some other =>
    obtain ⟨registered,inside⟩ := (keeper?_iff distinct (mem_live.mpr (.inr dropped))).mp found
    exact absurd dropped (not_dropped distinct (List.mem_append_left _ registered) inside)

-- The maps that run later: each is new, or is what a change makes of an old one.
structure Brings (w : World) (change : LiveMap → LiveMap) (after : World) : Prop where
  born : w.born ≤ after.born
  maps : ∀ m ∈ after.live, w.born ≤ m.serial ∧ m.New ∨ ∃ old ∈ w.live, m = change old

theorem brings_self (w : World) : Brings w id w :=
  ⟨Nat.le_refl _,fun m running => .inr ⟨m,running,rfl⟩⟩

theorem Brings.trans {middle : World} {change : LiveMap → LiveMap} (first : Brings w id middle)
    (second : Brings middle change after) (idle : ∀ m, change m = m) : Brings w id after := by
  refine ⟨Nat.le_trans first.born second.born,fun m running => ?_⟩
  rcases second.maps m running with ⟨later,new⟩ | ⟨old,among,rfl⟩
  · exact .inl ⟨Nat.le_trans first.born later,new⟩
  · rw [idle]
    exact first.maps old among

theorem Brings.alike {middle : World} {change : LiveMap → LiveMap} (brings : Brings w change middle)
    (alike : Alike middle after) : Brings w change after := by
  have live : after.live = middle.live := by
    unfold World.live
    rw [alike.hosts,alike.retiredCopies]
  refine ⟨Nat.le_trans brings.born (Nat.le_of_eq alike.born.symm),?_⟩
  rw [live]
  exact brings.maps

theorem mem_live_modify {f : LiveMap → LiveMap} (running : m ∈ (w.modify serial f).live) :
    ∃ old ∈ w.live, m = atSerial serial f old := by
  rcases mem_live.mp running with ⟨b,among,inside⟩ | dropped
  · rw [hosts_modify] at among
    obtain ⟨host,hosted,rfl⟩ := List.mem_map.mp among
    rw [BaseMap.all_mapAll] at inside
    obtain ⟨old,held,rfl⟩ := List.mem_map.mp inside
    exact ⟨old,all_live hosted held,rfl⟩
  · obtain ⟨old,held,rfl⟩ := List.mem_map.mp dropped
    exact ⟨old,mem_live.mpr (.inr held),rfl⟩

theorem brings_modify (w : World) (serial : Nat) (f : LiveMap → LiveMap) :
    Brings w (atSerial serial f) (w.modify serial f) :=
  ⟨Nat.le_refl _,fun _ running => .inr (mem_live_modify running)⟩

theorem brings_rehost (distinct : w.serials.Nodup) (member : b ∈ w.hosts) {f : BaseMap → BaseMap}
    {change : LiveMap → LiveMap} {gone : List LiveMap}
    (hosts : after.hosts = (w.modifyHost b.serial f).hosts)
    (dropped : after.retiredCopies = w.retiredCopies ++ gone) (born : w.born ≤ after.born)
    (own : ∀ m, m ∈ (f b).all ∨ m ∈ gone →
      w.born ≤ m.serial ∧ m.New ∨ ∃ old ∈ b.all, m = change old) :
    Brings w (b.within change) after := by
  refine ⟨born,fun m running => ?_⟩
  have inside (among : m ∈ (f b).all ∨ m ∈ gone) :
      w.born ≤ m.serial ∧ m.New ∨ ∃ old ∈ w.live, m = b.within change old := by
    rcases own m among with new | ⟨old,held,rfl⟩
    · exact .inl new
    · exact .inr ⟨old,all_live member held,(within_inside change held).symm⟩
  have outside (running : m ∈ w.live) (apart : m ∉ b.all) : ∃ old ∈ w.live, m = b.within change old :=
    ⟨m,running,(within_outside distinct member running apart change).symm⟩
  rcases mem_live.mp running with ⟨other,among,held⟩ | gone
  · rw [hosts] at among
    rcases host_changed distinct member among with rfl | ⟨old,apart⟩
    · exact inside (.inl held)
    · refine .inr (outside (all_live old held) fun held' => ?_)
      exact apart (same_host distinct member held' old held)
  · rw [dropped] at gone
    rcases List.mem_append.mp gone with old | new
    · refine .inr (outside (mem_live.mpr (.inr old)) fun held => ?_)
      exact not_dropped distinct member held old
    · exact inside (.inr new)

theorem brings_turn (distinct : w.serials.Nodup) (member : b ∈ w.hosts) (diff : UInt32) (ids : IdTable)
    (journal : List Event) : Brings w (b.within (b.turnFate w.config.unloadDelay diff))
      {w.modifyHost b.serial (BaseMap.primary w.config.unloadDelay diff) with
        ids := ids
        retiredCopies := w.retiredCopies ++ (b.expired w.config.unloadDelay).map LiveMap.unload
        journal := journal } :=
  brings_rehost distinct member rfl rfl (Nat.le_refl _)
    fun _ among => .inr (turnFate_primary distinct member among)

theorem brings_settle (distinct : w.serials.Nodup) (member : b ∈ w.hosts) :
    Brings w (b.within LiveMap.settle) (w.modifyHost b.serial BaseMap.delayed) := by
  refine brings_rehost distinct member rfl (List.append_nil _).symm (Nat.le_refl _) fun m among => .inr ?_
  rcases among with inside | none
  · rw [BaseMap.delayed,BaseMap.all_mapAll] at inside
    obtain ⟨old,held,rfl⟩ := List.mem_map.mp inside
    exact ⟨old,held,rfl⟩
  · cases none

theorem unload_parts (b : BaseMap) (among : m ∈ b.unload.all ∨ m ∈ b.copies.map LiveMap.unload) :
    ∃ old ∈ b.all, m = old.unload := by
  rcases among with inside | gone
  · rw [BaseMap.all,BaseMap.copies_unload,List.mem_singleton] at inside
    exact ⟨b.own,List.mem_cons_self,inside⟩
  · obtain ⟨copy,held,rfl⟩ := List.mem_map.mp gone
    exact ⟨copy,List.mem_cons_of_mem _ held,rfl⟩

theorem brings_clear (distinct : w.serials.Nodup) (member : b ∈ w.hosts) :
    Brings w (b.within LiveMap.unload)
      {w.modifyHost b.serial BaseMap.unload with
        retiredCopies := w.retiredCopies ++ b.copies.map LiveMap.unload } :=
  brings_rehost distinct member rfl rfl (Nat.le_refl _) fun _ among => .inr (unload_parts b among)

theorem build_new (w : World) (family : List MapId) (d : MapDefinition) : (w.build family d).own.New := by
  unfold build
  dsimp only
  split <;> exact ⟨rfl,rfl,rfl,rfl,rfl,rfl⟩

theorem brings_install (sound : w.Sound) {root : MapId} (top : w.catalog.RootOf root root)
    (fresh : root ∉ w.registeredIds) : Brings w id (w.install root) := by
  refine ⟨Nat.le_add_right _ _,fun m running => ?_⟩
  rcases mem_live.mp running with ⟨b,among,inside⟩ | gone
  · rcases List.mem_append.mp among with registered | retired
    · rcases List.mem_append.mp ((install_perm sound top fresh).mem_iff.mp registered) with new | old
      · obtain ⟨d,_,_,rfl⟩ := mem_newFamily.mp new
        obtain ⟨_,serial,_,_,copies,_⟩ := w.build_parts (w.catalog.family root) d
        rw [BaseMap.all,copies,List.mem_singleton] at inside
        subst inside
        have later : w.born ≤ (w.build (w.catalog.family root) d).serial := by
          rw [serial]
          exact Nat.le_add_right _ _
        exact .inl ⟨later,build_new w _ d⟩
      · exact .inr ⟨m,all_live (List.mem_append_left _ old) inside,rfl⟩
    · exact .inr ⟨m,all_live (List.mem_append_right _ retired) inside,rfl⟩
  · exact .inr ⟨m,mem_live.mpr (.inr gone),rfl⟩

theorem Gentle.brings {managed : Prop} (part : Gentle managed w after) (sound : w.Sound) :
    Brings w id after := by
  cases part with
  | alike alike _ => exact (brings_self w).alike alike
  | setIds => exact ⟨Nat.le_refl _,(brings_self w).maps⟩
  | install top fresh => exact brings_install sound top fresh
  | @openCopy host table id request ids member _ tabled apart kept =>
    let copy := ({w with ids := ids}.addCopy host table.template id request).2
    have opened : Brings w (host.within fun m => m)
        ({w with ids := ids}.addCopy host table.template id request).1 := by
      refine brings_rehost (f := BaseMap.mapCopies (insert LiveMap.order copy)) sound.distinct member rfl rfl
        (Nat.le_succ _) fun m among => ?_
      rcases among with inside | replaced
      · rcases List.mem_cons.mp inside with rfl | among
        · exact .inr ⟨_,List.mem_cons_self,rfl⟩
        · rw [BaseMap.copies_mapCopies,if_pos (BaseMap.isInstanceable_of_table tabled)] at among
          rcases mem_of_insert among with rfl | old
          · exact .inl ⟨Nat.le_refl _,⟨rfl,rfl,rfl,rfl,rfl,rfl⟩⟩
          · exact .inr ⟨m,List.mem_cons_of_mem _ old,rfl⟩
      · have found := List.mem_of_find?_eq_some (Option.mem_toList.mp replaced)
        exact .inr ⟨m,List.mem_cons_of_mem _ found,rfl⟩
    exact (brings_self w).trans opened fun m => ite_self m

theorem Gently.brings {managed : Prop} (parts : Gently managed w after) (sound : w.Sound) :
    Brings w id after := by
  induction parts with
  | refl => exact brings_self w
  | tail before part ih =>
    exact ih.trans (part.brings ((Gently.steps before).sound sound)) fun _ => rfl

theorem brings_pass (sound : w.Sound) {elapsed : UInt32}
    (passed : (w.schedule.timer.add elapsed).passed = true) (times : PassTimes) :
    Brings w (w.fate (.advance elapsed times)) (w.pass (w.schedule.timer.add elapsed).current) := by
  have kept {m : LiveMap} (none : w.keeper? m = none) : w.fate (.advance elapsed times) m = m := by
    simp [fate,none]
  have turned {b : BaseMap} {m : LiveMap} (member : b ∈ w.maps) (inside : m ∈ b.all) :
      w.fate (.advance elapsed times) m =
        (b.turnFate w.config.unloadDelay (w.schedule.timer.add elapsed).current m).settle := by
    have found := (keeper?_iff sound.distinct (all_live (List.mem_append_left _ member) inside)).mpr
      ⟨member,inside⟩
    simp [fate,found,passed]
  have hosted {b : BaseMap} (member : b ∈ w.maps) : b ∈ w.hosts := List.mem_append_left _ member
  rw [pass_exact sound]
  refine ⟨Nat.le_refl _,fun m running => .inr ?_⟩
  rcases mem_live.mp running with ⟨other,among,inside⟩ | dropped
  · rcases List.mem_append.mp among with current | retired
    · obtain ⟨b,member,rfl⟩ := List.mem_map.mp current
      rw [BaseMap.delayed,BaseMap.all_mapAll] at inside
      obtain ⟨before,held,rfl⟩ := List.mem_map.mp inside
      obtain ⟨old,among,rfl⟩ := turnFate_primary sound.distinct (hosted member) (.inl held)
      exact ⟨old,all_live (hosted member) among,(turned member among).symm⟩
    · exact ⟨m,all_live (List.mem_append_right _ retired) inside,
        (kept (keeper?_retired sound.distinct retired inside)).symm⟩
  · rcases List.mem_append.mp dropped with old | gone
    · exact ⟨m,mem_live.mpr (.inr old),(kept (keeper?_dropped sound.distinct old)).symm⟩
    · obtain ⟨copy,among,rfl⟩ := List.mem_map.mp gone
      obtain ⟨b,member,expired⟩ := List.mem_flatMap.mp among
      refine ⟨copy,all_live (hosted member) (expired_all expired),?_⟩
      -- An unloaded map has nothing to settle.
      rw [turned member (expired_all expired),turnFate_expired sound.distinct (hosted member) expired]
      rfl

theorem brings_unloadAll (sound : w.Sound) : Brings w (w.fate .unloadAll) w.unloadAll := by
  have kept {m : LiveMap} (none : w.keeper? m = none) : w.fate .unloadAll m = m := by
    simp [fate,none]
  have cleared {b : BaseMap} {m : LiveMap} (member : b ∈ w.maps) (inside : m ∈ b.all) :
      w.fate .unloadAll m = m.unload := by
    have found := (keeper?_iff sound.distinct (all_live (List.mem_append_left _ member) inside)).mpr
      ⟨member,inside⟩
    simp [fate,found]
  refine ⟨Nat.le_refl _,fun m running => .inr ?_⟩
  have gone {b : BaseMap} (member : b ∈ w.maps) (among : m ∈ b.unload.all ∨ m ∈ b.copies.map LiveMap.unload) :
      ∃ old ∈ w.live, m = w.fate .unloadAll old := by
    obtain ⟨old,held,rfl⟩ := unload_parts b among
    exact ⟨old,all_live (List.mem_append_left _ member) held,(cleared member held).symm⟩
  rcases mem_live.mp running with ⟨b,among,inside⟩ | dropped
  · rcases List.mem_append.mp among with none | retired
    · cases none
    · rcases List.mem_append.mp retired with old | new
      · exact ⟨m,all_live (List.mem_append_right _ old) inside,
          (kept (keeper?_retired sound.distinct old inside)).symm⟩
      · obtain ⟨host,member,rfl⟩ := List.mem_map.mp new
        exact gone member (.inl inside)
  · rcases List.mem_append.mp dropped with old | new
    · exact ⟨m,mem_live.mpr (.inr old),(kept (keeper?_dropped sound.distinct old)).symm⟩
    · obtain ⟨copy,among,rfl⟩ := List.mem_map.mp new
      obtain ⟨host,member,held⟩ := List.mem_flatMap.mp among
      exact gone member (.inr (List.mem_map_of_mem held))

theorem brings_nobody {f : LiveMap → LiveMap} (none : w.live? serial = none) :
    Brings w (atSerial serial f) w := by
  refine ⟨Nat.le_refl _,fun m running => .inr ⟨m,running,?_⟩⟩
  have apart := List.find?_eq_none.mp none m running
  exact (if_neg (by simpa using apart)).symm

theorem Touch.brings {serial : Nat} {f : LiveMap → LiveMap} (touch : Touch w serial f after) :
    Brings w (atSerial serial f) after := by
  cases touch with
  | absent none => exact brings_nobody none
  | change => exact (brings_modify w serial f).alike (.of_records ..)

theorem fate_gentle (only : gentle call = true) (m : LiveMap) : w.fate call m = m := by
  cases call with
  | queue | setEncounter | attach | discover | load | update | settle | unload | advance | unloadAll =>
    cases only
  | _ => rfl

theorem same_atSerial {α : Type} (view : LiveMap → α) {f : LiveMap → LiveMap}
    (same : ∀ m, view (f m) = view m) (serial : Nat) (m : LiveMap) : view (atSerial serial f m) = view m := by
  unfold atSerial
  split
  · exact same m
  · rfl

theorem same_within {α : Type} (view : LiveMap → α) {f : LiveMap → LiveMap}
    (same : ∀ m, view (f m) = view m) (b : BaseMap) (m : LiveMap) : view (b.within f m) = view m := by
  unfold BaseMap.within
  split
  · exact same m
  · rfl

theorem within_steady {f : LiveMap → LiveMap} (steady : LiveMap.Steady f) (b : BaseMap) :
    LiveMap.Steady (b.within f) := by
  apply LiveMap.Steady.of_each
  intro m
  unfold BaseMap.within
  split
  · exact ⟨f,steady,rfl⟩
  · exact ⟨id,LiveMap.id_steady,rfl⟩

theorem turnFate_steady (delay diff : UInt32) (b : BaseMap) : LiveMap.Steady (b.turnFate delay diff) := by
  apply LiveMap.Steady.of_each
  intro m
  unfold BaseMap.turnFate
  split
  · exact ⟨LiveMap.unload,LiveMap.unload_steady,rfl⟩
  · exact ⟨LiveMap.advance diff,LiveMap.advance_steady diff,rfl⟩

theorem fate_steady (w : World) (call : WorldCall) : LiveMap.Steady (w.fate call) := by
  have still : LiveMap.Steady id := LiveMap.id_steady
  cases call with
  | queue serial transfer => exact (LiveMap.queue_steady transfer).atSerial serial
  | setEncounter serial running => exact (LiveMap.setEncounter_steady running).atSerial serial
  | attach serial child => exact (LiveMap.attach_steady child).atSerial serial
  | discover serial => exact (LiveMap.discover_steady w.tiles).atSerial serial
  | load serial => exact (LiveMap.load_steady w.saved).atSerial serial
  | update serial diff =>
    cases found : w.host? serial with
    | some b =>
      rw [fate_update_host found]
      exact within_steady (turnFate_steady _ diff b) b
    | none =>
      rw [fate_update_other found]
      exact (LiveMap.advance_steady diff).atSerial serial
  | settle serial diff =>
    cases found : w.host? serial with
    | some b =>
      rw [fate_settle_host found]
      exact within_steady LiveMap.settle_steady b
    | none =>
      rw [fate_settle_other found]
      exact LiveMap.settle_steady.atSerial serial
  | unload serial =>
    cases found : w.host? serial with
    | some b =>
      rw [fate_unload_host found]
      exact within_steady LiveMap.unload_steady b
    | none =>
      rw [fate_unload_other found]
      exact LiveMap.unload_steady.atSerial serial
  | advance elapsed times =>
    apply LiveMap.Steady.of_each
    intro m
    simp only [fate]
    split
    · rename_i b _
      split
      · exact ⟨_,LiveMap.settle_steady.comp (turnFate_steady _ _ b),rfl⟩
      · exact ⟨id,still,rfl⟩
    · exact ⟨id,still,rfl⟩
  | unloadAll =>
    apply LiveMap.Steady.of_each
    intro m
    simp only [fate]
    split
    · exact ⟨LiveMap.unload,LiveMap.unload_steady,rfl⟩
    · exact ⟨id,still,rfl⟩
  | _ => exact still

-- Every call, and what it makes of every running map.
theorem perform_fate (sound : w.Sound) (call : WorldCall) : Brings w (w.fate call) (w.perform call) := by
  cases only : gentle call with
  | true =>
    have parts : Gently False w (w.perform call) := perform_gently sound only False.elim
    have same : w.fate call = id := funext fun m => fate_gentle only m
    rw [same]
    exact parts.brings sound
  | false =>
    cases call with
    | queue | setEncounter | attach | discover | load => exact (perform_touch rfl).brings
    | update serial diff =>
      cases found : w.host? serial with
      | some b =>
        rw [fate_update_host found]
        simp only [perform,update,found]
        obtain ⟨member,rfl⟩ := host?_parts found
        exact brings_turn sound.distinct member diff _ _
      | none =>
        rw [fate_update_other found]
        exact (update_touch found diff).brings
    | settle serial diff =>
      cases found : w.host? serial with
      | some b =>
        rw [fate_settle_host found]
        simp only [perform,settle,found]
        obtain ⟨member,rfl⟩ := host?_parts found
        exact (brings_settle sound.distinct member).alike (.of_records ..)
      | none =>
        rw [fate_settle_other found]
        exact (settle_touch found diff).brings
    | unload serial =>
      simp only [perform,unload]
      cases found : w.host? serial with
      | some b =>
        rw [fate_unload_host found]
        obtain ⟨member,rfl⟩ := host?_parts found
        exact brings_clear sound.distinct member
      | none =>
        rw [fate_unload_other found]
        exact brings_modify w serial _
    | advance elapsed times =>
      cases passed : (w.schedule.timer.add elapsed).passed with
      | true =>
        simp only [perform,advance,passed,if_true]
        exact (brings_pass sound passed times).alike (.of_records ..)
      | false =>
        have same : w.fate (.advance elapsed times) = id := by
          funext m
          simp only [fate,passed]
          split <;> rfl
        rw [same]
        simp only [perform,advance,passed]
        exact (brings_self w).alike (.of_records ..)
    | claimId claimed =>
      have still : Brings w id w := brings_self w
      simp only [perform,claimId]
      split
      · exact still
      · exact ⟨still.born,still.maps⟩
    | unloadAll => exact brings_unloadAll sound
    | _ => cases only

theorem Gentle.serials {managed : Prop} (part : Gentle managed w after) (sound : w.Sound) :
    w.serials ⊆ after.serials := by
  cases part with
  | alike alike _ =>
    rw [alike.serials]
    exact List.Subset.refl _
  | setIds => exact List.Subset.refl _
  | install top fresh =>
    intro serial old
    exact (install_serials sound top fresh).mem_iff.mpr (List.mem_append_right _ old)
  | @openCopy host table id request ids member _ tabled apart kept =>
    let copy := ({w with ids := ids}.addCopy host table.template id request).2
    have opened := BaseMap.serials_insert copy (sound.bases host member).ascending
      (BaseMap.isInstanceable_of_table tabled)
    have moved := rehost_serials (f := BaseMap.mapCopies (insert LiveMap.order copy)) sound.distinct member
      [copy.serial] (w.born + 1) ids opened
    intro serial old
    exact moved.mem_iff.mpr (List.mem_append_right _ old)

theorem Step.serials {managed : Prop} (step : Step managed w after) (sound : w.Sound) :
    w.serials ⊆ after.serials := by
  cases step with
  | gentle part => exact part.serials sound
  | reschedule | claim => exact List.Subset.refl _
  | change serial steady =>
    rw [serials_modify steady]
    exact List.Subset.refl _
  | @turn b diff member =>
    have kept := b.serials_primary w.config.unloadDelay diff
    exact (rehost_serials sound.distinct member [] w.born _ kept).symm.subset
  | @settle b member =>
    have same : b.delayed.serials = b.serials := b.serials_mapAll LiveMap.settle_steady
    have kept : (b.delayed.serials ++ ([] : List LiveMap).map LiveMap.serial).Perm ([] ++ b.serials) := by
      simp [same]
    have moved := rehost_serials sound.distinct member [] w.born w.ids kept
    have alike : Alike {w.modifyHost b.serial BaseMap.delayed with
        retiredCopies := w.retiredCopies ++ [] } (w.modifyHost b.serial BaseMap.delayed) :=
      ⟨rfl,rfl,rfl,(List.append_nil _).symm,rfl,rfl⟩
    rw [alike.serials]
    exact moved.symm.subset
  | @clear b member =>
    exact (rehost_serials sound.distinct member [] w.born w.ids b.serials_unload).symm.subset
  | unloadAll => exact (unloadAll_serials w).symm.subset

theorem Steps.serials {managed : Prop} (steps : Steps managed w after) (sound : w.Sound) :
    w.serials ⊆ after.serials := by
  induction steps with
  | refl => exact List.Subset.refl _
  | tail before step ih => exact List.Subset.trans ih (step.serials (Steps.sound before sound))

theorem fate_live (sound : w.Sound) (running : m ∈ w.live) (call : WorldCall) :
    w.fate call m ∈ (w.perform call).live := by
  have steps : Steps False w (w.perform call) := perform_steps sound call False.elim
  have there : m.serial ∈ (w.perform call).serials := steps.serials sound (List.mem_map_of_mem running)
  obtain ⟨later,running',same⟩ := List.mem_map.mp there
  rcases (perform_fate sound call).maps later running' with ⟨unborn,_⟩ | ⟨old,member,rfl⟩
  · have born := sound.born m.serial (List.mem_map_of_mem running)
    omega
  · have equal := live_inj sound.distinct member running (((fate_steady w call).serial old).symm.trans same)
    exact equal ▸ running'

-- Whether a running map is registered, or a copy of one that is.
def InService (w : World) (serial : Nat) : Prop := ∃ b ∈ w.maps, serial ∈ b.serials

theorem inService_modifyHost {f : BaseMap → BaseMap} (kept : ∀ b, (f b).serials ⊆ b.serials) {host : Nat}
    (serves : (w.modifyHost host f).InService serial) : w.InService serial := by
  obtain ⟨b,among,held⟩ := serves
  obtain ⟨old,member,rfl⟩ := List.mem_map.mp among
  refine ⟨old,member,?_⟩
  split at held
  · exact kept old held
  · exact held

theorem Gentle.inService {managed : Prop} (part : Gentle managed w after) (sound : w.Sound)
    (serves : after.InService serial) : w.born ≤ serial ∨ w.InService serial := by
  cases part with
  | alike alike _ =>
    obtain ⟨b,member,held⟩ := serves
    exact .inr ⟨b,alike.maps ▸ member,held⟩
  | setIds => exact .inr serves
  | install top fresh =>
    obtain ⟨b,among,held⟩ := serves
    rcases List.mem_append.mp ((install_perm sound top fresh).mem_iff.mp among) with new | old
    · apply Or.inl
      have given := List.mem_flatMap.mpr ⟨b,new,held⟩
      rw [newFamily_serials sound top] at given
      exact (List.mem_range'_1.mp given).1
    · exact .inr ⟨b,old,held⟩
  | @openCopy host table id request ids member =>
    let copy := ({w with ids := ids}.addCopy host table.template id request).2
    obtain ⟨b,among,held⟩ := serves
    obtain ⟨old,registered,rfl⟩ := List.mem_map.mp among
    split at held
    · rcases BaseMap.mem_serials_insert held with new | kept
      · exact .inl (Nat.le_of_eq new.symm)
      · exact .inr ⟨old,registered,kept⟩
    · exact .inr ⟨old,registered,held⟩

theorem Step.inService {managed : Prop} (step : Step managed w after) (sound : w.Sound)
    (serves : after.InService serial) : w.born ≤ serial ∨ w.InService serial := by
  cases step with
  | gentle part => exact part.inService sound serves
  | reschedule | claim => exact .inr serves
  | change named steady =>
    obtain ⟨b,among,held⟩ := serves
    obtain ⟨old,member,rfl⟩ := List.mem_map.mp among
    rw [BaseMap.serials_mapAll old (steady.atSerial named)] at held
    exact .inr ⟨old,member,held⟩
  | turn diff =>
    apply Or.inr
    refine inService_modifyHost (fun b serial held => ?_) serves
    exact (b.serials_primary w.config.unloadDelay diff).subset (List.mem_append_left _ held)
  | settle =>
    apply Or.inr
    refine inService_modifyHost (fun b serial held => ?_) serves
    exact b.serials_mapAll LiveMap.settle_steady ▸ held
  | clear =>
    apply Or.inr
    refine inService_modifyHost (fun b serial held => ?_) serves
    exact b.serials_unload.subset (List.mem_append_left _ held)
  | unloadAll =>
    obtain ⟨b,none,_⟩ := serves
    cases none

theorem Step.born {managed : Prop} (step : Step managed w after) : w.born ≤ after.born := by
  cases step with
  | gentle part =>
    cases part with
    | alike alike _ => exact Nat.le_of_eq alike.born.symm
    | setIds => exact Nat.le_refl _
    | install => exact Nat.le_add_right _ _
    | openCopy => exact Nat.le_succ _
  | reschedule | claim | change | turn | settle | clear | unloadAll => exact Nat.le_refl _

theorem Steps.inService {managed : Prop} (steps : Steps managed w after) (sound : w.Sound)
    (serves : after.InService serial) : w.born ≤ serial ∨ w.InService serial := by
  suffices given : w.born ≤ after.born ∧ (after.InService serial → w.born ≤ serial ∨ w.InService serial) from
    given.2 serves
  clear serves
  induction steps with
  | refl => exact ⟨Nat.le_refl _,.inr⟩
  | tail before step ih =>
    obtain ⟨born,served⟩ := ih
    refine ⟨Nat.le_trans born step.born,fun serves => ?_⟩
    rcases step.inService (Steps.sound before sound) serves with later | served'
    · exact .inl (Nat.le_trans born later)
    · exact served served'

end World
end LiveMaps
