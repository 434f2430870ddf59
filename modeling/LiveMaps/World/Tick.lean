import LiveMaps.World.State

namespace LiveMaps.World

def update (w : World) (serial : Nat) (diff : UInt32) : World :=
  match w.host? serial with
  | some b =>
    let (ids,events) := b.primaryEffects w.config.unloadDelay diff w.ids
    let gone := (b.expired w.config.unloadDelay).map LiveMap.unload
    let w := w.modifyHost serial (BaseMap.primary w.config.unloadDelay diff)
    {w with ids := ids, retiredCopies := w.retiredCopies ++ gone, journal := w.journal ++ events}
  | none =>
    match w.live? serial with
    | some m => (w.modify serial (LiveMap.advance diff)).tell (BaseMap.turn .primary diff m)
    | none => w

def settle (w : World) (serial : Nat) (diff : UInt32) : World :=
  match w.host? serial with
  | some b => (w.modifyHost serial BaseMap.delayed).tell (b.delayedEvents diff)
  | none =>
    match w.live? serial with
    | some m => (w.modify serial LiveMap.settle).tell (BaseMap.turn .delayed diff m)
    | none => w

def updateAll (w : World) (diff : UInt32) (order : List Nat) : World :=
  order.foldl (fun w serial => w.update serial diff) w

def settleAll (w : World) (diff : UInt32) (order : List Nat) : World :=
  order.foldl (fun w serial => w.settle serial diff) w

def registered (w : World) : List Nat := w.maps.map BaseMap.serial

def pass (w : World) (diff : UInt32) : World :=
  (w.updateAll diff w.registered).settleAll diff w.registered

def advance (w : World) (elapsed : UInt32) (times : PassTimes) : World × Bool :=
  let timer := w.schedule.timer.add elapsed
  if timer.passed then
    let diff := timer.current
    let record : PassRecord := ⟨w.maps.length,diff,times.primary,times.delayed⟩
    let after := w.pass diff
    ({after with schedule := {w.schedule with
        timer := timer.reset
        history := w.schedule.history.record record
        last := record
        passes := w.schedule.passes + 1 }},true)
  else ({w with schedule := {w.schedule with timer := timer}},false)

def stopWorkers (w : World) : World := {w with schedule := {w.schedule with workers := 0}}

def unload (w : World) (serial : Nat) : World :=
  match w.host? serial with
  | some b =>
    let w := w.modifyHost serial BaseMap.unload
    {w with retiredCopies := w.retiredCopies ++ b.copies.map LiveMap.unload}
  | none => w.modify serial LiveMap.unload

def unloadAll (w : World) : World :=
  {w with
    maps := []
    retiredMaps := w.retiredMaps ++ w.maps.map BaseMap.unload
    retiredCopies := w.retiredCopies ++ (w.maps.flatMap BaseMap.copies).map LiveMap.unload
    journal := w.journal ++ [.allUnloaded] }

end LiveMaps.World
