import LiveMaps.Proofs.Schedule.Phases
import Mathlib.Data.List.Nodup
import Mathlib.Data.List.Perm.Subperm

namespace LiveMaps

-- A pool in the hands of several callers at once. What a caller does on it takes more than one step,
-- and the steps of others come in between.
structure PoolUse where
  pool : WorkerPool
  -- Jobs that were counted by callers who have not sent them yet.
  handing : List Job
  own : List Job
  -- Jobs that are over on workers who have not reported it yet.
  ended : List Job
  -- The jobs that each waiting caller waits for: all that were sent before.
  waits : List (List Job)
  closing : Bool
  deriving DecidableEq, Repr

inductive PoolAct where
  | count (amount : Nat) (fails : Bool)
  | keep (amount : Nat) (fails : Bool)
  | wait
  | activate (threads : Nat)
  | close
  | send (job : Job)
  | refuse (job : Job)
  | run (job : Job)
  | take (worker : Nat)
  | stop (worker : Nat)
  | finish (worker : Nat)
  | pass (jobs : List Job)
  | leave (worker : Nat)
  | join
  deriving DecidableEq, Repr

def PoolAct.isWork : PoolAct → Bool
  | .count _ _ | .keep _ _ | .wait | .activate _ | .close => false
  | _ => true

namespace PoolUse

def idle : PoolUse := ⟨.idle,[],[],[],[],false⟩

def alone (u : PoolUse) : Bool := !u.closing && u.handing.isEmpty && u.own.isEmpty && u.waits.isEmpty

-- A job is counted before it is sent. If the queue does not take it, the count is taken back and the
-- caller runs it, as on a pool that does not run. A worker reports a job only after it is over,
-- be it that it failed.
def act? (u : PoolUse) : PoolAct → Option PoolUse
  | .count amount fails =>
    if u.closing = false ∧ u.pool.accepting = true then
      some {u with
        pool := {u.pool with tickets := u.pool.tickets + 1, pending := u.pool.pending + 1}
        handing := u.handing ++ [⟨u.pool.tickets,amount,fails⟩] }
    else none
  | .keep amount fails =>
    if u.closing = false ∧ u.pool.accepting = false then
      some {u with
        pool := {u.pool with tickets := u.pool.tickets + 1}
        own := u.own ++ [⟨u.pool.tickets,amount,fails⟩] }
    else none
  | .wait => if u.closing = false then some {u with waits := u.waits ++ [u.pool.handed]} else none
  | .activate threads =>
    if u.alone = true then some {u with pool := u.pool.activate threads} else none
  | .close =>
    if u.alone = true ∧ u.pool.accepting = true then some {u with pool := u.pool.close, closing := true}
    else none
  | .send job =>
    if job ∈ u.handing then
      some {u with
        pool := {u.pool with queue := u.pool.queue ++ [job]}
        handing := u.handing.erase job }
    else none
  | .refuse job =>
    if job ∈ u.handing then
      some {u with
        pool := {u.pool with pending := u.pool.pending - 1}
        handing := u.handing.erase job
        own := u.own ++ [job] }
    else none
  | .run job =>
    if job ∈ u.own then
      some {u with
        pool := {u.pool with finished := u.pool.finished ++ [job]}
        own := u.own.erase job }
    else none
  | .take worker => (u.pool.take? worker).map fun p => {u with pool := p}
  | .stop worker =>
    match u.pool.workers[worker]? with
    | some (.running job) => if job ∈ u.ended then none else some {u with ended := job :: u.ended}
    | _ => none
  | .finish worker =>
    match u.pool.workers[worker]? with
    | some (.running job) =>
      if job ∈ u.ended then
        (u.pool.finish? worker).map fun p => {u with pool := p, ended := u.ended.erase job}
      else none
    | _ => none
  | .pass jobs =>
    if jobs ∈ u.waits ∧ u.pool.mayPass = true then some {u with waits := u.waits.erase jobs} else none
  | .leave worker => (u.pool.leave? worker).map fun p => {u with pool := p}
  | .join => if u.closing = true then u.pool.join?.map fun p => {u with pool := p, closing := false} else none

inductive Reached : PoolUse → Prop where
  | start : Reached idle
  | act {u next : PoolUse} {a : PoolAct} : Reached u → u.act? a = some next → Reached next

def jobs (u : PoolUse) : List Job := u.pool.handed ++ (u.handing ++ u.own)

def executed (u : PoolUse) : List Job := u.pool.finished ++ u.ended

-- What is left of the work that was asked for: an upper bound of the steps to come before the next call.
def left (u : PoolUse) : Nat :=
  5 * u.handing.length + u.own.length + 3 * u.pool.queue.length +
    (2 * u.pool.underway.length - u.ended.length) + u.waits.length +
    u.pool.workers.countP (· != .gone) + u.closing.toNat

structure Sane (u : PoolUse) : Prop where
  pending : u.pool.pending = (u.handing ++ u.pool.unended).length
  tickets : (u.jobs.map Job.ticket).Perm (List.range u.pool.tickets)
  ended : u.ended.Subperm u.pool.underway
  staffed : u.pool.accepting = true ∨ u.closing = true → u.pool.workers ≠ []
  gone : .gone ∈ u.pool.workers → u.pool.queue = [] ∧ u.pool.accepting = false
  shut : u.pool.accepting = false → u.handing = []
  closing : u.closing = true → u.pool.accepting = false ∧ u.own = [] ∧ u.waits = []
  rested : u.pool.accepting = false → u.closing = false → u.pool.workers = [] ∧ u.pool.queue = []
  waits : ∀ jobs ∈ u.waits, jobs ⊆ u.pool.handed

variable {u next : PoolUse} {job : Job}

theorem idle_sane : idle.Sane where
  pending := rfl
  tickets := .refl _
  ended := List.Subperm.refl []
  staffed := by decide
  gone := nofun
  shut _ := rfl
  closing := nofun
  rested _ _ := ⟨rfl,rfl⟩
  waits := List.forall_mem_nil _

theorem Sane.added (sane : u.Sane) (amount : Nat) (fails : Bool)
    (new : next.jobs.Perm (⟨u.pool.tickets,amount,fails⟩ :: u.jobs)) :
    (next.jobs.map Job.ticket).Perm (List.range (u.pool.tickets + 1)) := by
  rw [List.range_succ]
  refine (new.map Job.ticket).trans ?_
  exact (sane.tickets.cons u.pool.tickets).trans (List.perm_append_singleton _ _).symm

theorem Sane.nodup (sane : u.Sane) : u.jobs.Nodup :=
  List.Nodup.of_map Job.ticket (sane.tickets.nodup_iff.mpr List.nodup_range)

theorem Sane.moved (sane : u.Sane) (same : next.jobs.Perm u.jobs) :
    (next.jobs.map Job.ticket).Perm (List.range u.pool.tickets) :=
  (same.map Job.ticket).trans sane.tickets

theorem alone_parts (alone : u.alone = true) :
    u.closing = false ∧ u.handing = [] ∧ u.own = [] ∧ u.waits = [] := by
  simpa [PoolUse.alone,and_assoc] using alone

theorem Sane.count (sane : u.Sane) {amount : Nat} {fails : Bool}
    (acted : u.act? (.count amount fails) = some next) : next.Sane := by
  simp only [act?,Option.ite_none_right_eq_some,Option.some.injEq] at acted
  obtain ⟨⟨_,accepting⟩,rfl⟩ := acted
  have pending := sane.pending
  refine {sane with pending := ?_, tickets := sane.added amount fails ?_, shut := ?_}
  · simp only [List.length_append,List.length_singleton,WorkerPool.unended,WorkerPool.underway] at pending ⊢
    omega
  · rw [List.perm_iff_count]
    intro x
    simp only [jobs,WorkerPool.handed,WorkerPool.unended,WorkerPool.underway,List.count_append,List.count_cons,
      List.count_nil]
    omega
  · intro shut
    simp [accepting] at shut

theorem Sane.keep (sane : u.Sane) {amount : Nat} {fails : Bool}
    (acted : u.act? (.keep amount fails) = some next) : next.Sane := by
  simp only [act?,Option.ite_none_right_eq_some,Option.some.injEq] at acted
  obtain ⟨⟨opened,_⟩,rfl⟩ := acted
  refine {sane with tickets := sane.added amount fails ?_, closing := ?_}
  · rw [List.perm_iff_count]
    intro x
    simp only [jobs,WorkerPool.handed,WorkerPool.unended,WorkerPool.underway,List.count_append,List.count_cons,
      List.count_nil]
    omega
  · intro closing
    simp [opened] at closing

theorem Sane.wait (sane : u.Sane) (acted : u.act? .wait = some next) : next.Sane := by
  simp only [act?,Option.ite_none_right_eq_some,Option.some.injEq] at acted
  obtain ⟨opened,rfl⟩ := acted
  refine {sane with closing := ?_, waits := ?_}
  · intro closing
    simp [opened] at closing
  · intro jobs member
    rcases List.mem_append.mp member with old | new
    · exact sane.waits jobs old
    · rw [List.mem_singleton.mp new]
      exact fun _ known => known

theorem replicate_idle (threads : Nat) : (List.replicate threads Worker.idle).filterMap Worker.job? = [] := by
  refine List.filterMap_eq_nil_iff.mpr fun worker member => ?_
  rw [List.eq_of_mem_replicate member]
  rfl

theorem Sane.activate (sane : u.Sane) {threads : Nat} (acted : u.act? (.activate threads) = some next) :
    next.Sane := by
  simp only [act?,Option.ite_none_right_eq_some,Option.some.injEq] at acted
  obtain ⟨alone,rfl⟩ := acted
  obtain ⟨opened,handing,_,_⟩ := alone_parts alone
  unfold WorkerPool.activate
  split
  · exact sane
  · rename_i starts
    simp only [not_or,Bool.not_eq_true] at starts
    obtain ⟨workers,queue⟩ := sane.rested starts.1 opened
    have before : u.pool.workers.filterMap Worker.job? = [] := by rw [workers]; rfl
    have pending := sane.pending
    have tickets := sane.tickets
    have ended := sane.ended
    have waits := sane.waits
    simp only [jobs,WorkerPool.handed,WorkerPool.unended,WorkerPool.underway,before] at pending tickets ended waits
    refine ⟨?_,?_,?_,?_,?_,?_,?_,?_,?_⟩
    · simpa only [WorkerPool.unended,WorkerPool.underway,replicate_idle] using pending
    · simpa only [jobs,WorkerPool.handed,WorkerPool.unended,WorkerPool.underway,replicate_idle] using tickets
    · simpa only [WorkerPool.underway,replicate_idle] using ended
    · exact fun _ none => starts.2 (by simpa using none)
    · intro gone
      cases List.eq_of_mem_replicate gone
    · exact fun _ => handing
    · intro closing
      simp [opened] at closing
    · intro shut
      cases shut
    · simpa only [WorkerPool.handed,WorkerPool.unended,WorkerPool.underway,replicate_idle] using waits

theorem Sane.close (sane : u.Sane) (acted : u.act? .close = some next) : next.Sane := by
  simp only [act?,Option.ite_none_right_eq_some,Option.some.injEq] at acted
  obtain ⟨⟨alone,accepting⟩,rfl⟩ := acted
  obtain ⟨opened,handing,own,waits⟩ := alone_parts alone
  refine {sane with staffed := ?_, gone := ?_, shut := ?_, closing := ?_, rested := ?_}
  · exact fun _ => sane.staffed (.inl accepting)
  · exact fun gone => ⟨(sane.gone gone).1,rfl⟩
  · exact fun _ => handing
  · exact fun _ => ⟨rfl,own,waits⟩
  · exact fun _ opened => nomatch opened

theorem Sane.send (sane : u.Sane) (acted : u.act? (.send job) = some next) : next.Sane := by
  simp only [act?,Option.ite_none_right_eq_some,Option.some.injEq] at acted
  obtain ⟨member,rfl⟩ := acted
  have apart := List.perm_cons_erase member
  have accepting : u.pool.accepting = true := by
    cases accepting : u.pool.accepting with
    | true => rfl
    | false => simp [sane.shut accepting] at member
  have pending := sane.pending
  refine {sane with pending := ?_, tickets := sane.moved ?_, gone := ?_, shut := ?_, rested := ?_, waits := ?_}
  · have length := apart.length_eq
    simp only [List.length_append,List.length_cons,List.length_nil,WorkerPool.unended,
      WorkerPool.underway] at pending length ⊢
    omega
  · rw [List.perm_iff_count]
    intro x
    have count := apart.count_eq x
    simp only [jobs,WorkerPool.handed,WorkerPool.unended,WorkerPool.underway,List.count_append,List.count_cons,
      List.count_nil] at count ⊢
    omega
  · exact fun gone => absurd (sane.gone gone).2 (by simp [accepting])
  · exact fun shut => absurd shut (by simp [accepting])
  · exact fun shut => absurd shut (by simp [accepting])
  · intro jobs waiting x known
    have old := sane.waits jobs waiting known
    simp only [WorkerPool.handed,WorkerPool.unended,WorkerPool.underway,List.mem_append] at old ⊢
    tauto

theorem Sane.refuse (sane : u.Sane) (acted : u.act? (.refuse job) = some next) : next.Sane := by
  simp only [act?,Option.ite_none_right_eq_some,Option.some.injEq] at acted
  obtain ⟨member,rfl⟩ := acted
  have apart := List.perm_cons_erase member
  have pending := sane.pending
  refine {sane with pending := ?_, tickets := sane.moved ?_, shut := ?_, closing := ?_}
  · have length := apart.length_eq
    simp only [List.length_append,List.length_cons,WorkerPool.unended,WorkerPool.underway] at pending length ⊢
    omega
  · rw [List.perm_iff_count]
    intro x
    have count := apart.count_eq x
    simp only [jobs,WorkerPool.handed,WorkerPool.unended,WorkerPool.underway,List.count_append,List.count_cons,
      List.count_nil] at count ⊢
    omega
  · intro shut
    rw [sane.shut shut] at member
    cases member
  · intro closing
    rw [sane.shut (sane.closing closing).1] at member
    cases member

theorem Sane.run (sane : u.Sane) (acted : u.act? (.run job) = some next) : next.Sane := by
  simp only [act?,Option.ite_none_right_eq_some,Option.some.injEq] at acted
  obtain ⟨member,rfl⟩ := acted
  have apart := List.perm_cons_erase member
  refine {sane with tickets := sane.moved ?_, closing := ?_, waits := ?_}
  · rw [List.perm_iff_count]
    intro x
    have count := apart.count_eq x
    simp only [jobs,WorkerPool.handed,WorkerPool.unended,WorkerPool.underway,List.count_append,List.count_cons,
      List.count_nil] at count ⊢
    omega
  · intro closing
    rw [(sane.closing closing).2.1] at member
    cases member
  · intro jobs waiting x known
    have old := sane.waits jobs waiting known
    simp only [WorkerPool.handed,WorkerPool.unended,WorkerPool.underway,List.mem_append] at old ⊢
    tauto

theorem jobs_perm {p : WorkerPool} (same : p.handed.Perm u.pool.handed) :
    ({u with pool := p} : PoolUse).jobs.Perm u.jobs := same.append_right _

theorem mem_workers_of_set {workers : List Worker} {worker : Nat} {changed : Worker}
    (gone : .gone ∈ workers.set worker changed) (other : changed ≠ .gone) : .gone ∈ workers := by
  rcases List.mem_or_eq_of_mem_set gone with old | new
  · exact old
  · exact absurd new.symm other

theorem Sane.take (sane : u.Sane) {worker : Nat} (acted : u.act? (.take worker) = some next) : next.Sane := by
  obtain ⟨p,took,rfl⟩ := Option.map_eq_some_iff.mp acted
  have unended := WorkerPool.take_unended took
  have handed := WorkerPool.take_handed took
  obtain ⟨job,rest,found,queued,rfl,moved⟩ := WorkerPool.take_parts took
  have staffed : u.pool.workers ≠ [] := List.ne_nil_of_mem (List.mem_of_getElem? found)
  refine {sane with
    pending := ?_, tickets := sane.moved (jobs_perm handed), ended := ?_, staffed := ?_, gone := ?_, rested := ?_,
    waits := ?_}
  · exact sane.pending.trans ((unended.append_left u.handing).length_eq).symm
  · exact (sane.ended.trans (List.sublist_cons_self job _).subperm).trans moved.symm.subperm
  · exact fun _ => by simpa using staffed
  · intro gone
    have empty := (sane.gone (mem_workers_of_set gone nofun)).1
    rw [queued] at empty
    cases empty
  · exact fun shut opened => absurd (sane.rested shut opened).1 staffed
  · exact fun jobs waiting => List.Subset.trans (sane.waits jobs waiting) handed.symm.subset

theorem stop_parts {worker : Nat} (acted : u.act? (.stop worker) = some next) :
    ∃ job, u.pool.workers[worker]? = some (.running job) ∧ job ∉ u.ended ∧
      next = {u with ended := job :: u.ended} := by
  simp only [act?] at acted
  split at acted
  · rename_i job found
    split at acted
    · cases acted
    · rename_i running
      cases acted
      exact ⟨job,found,running,rfl⟩
  · cases acted

theorem mem_underway {p : WorkerPool} {worker : Nat} (found : p.workers[worker]? = some (.running job)) :
    job ∈ p.underway := List.mem_filterMap.mpr ⟨_,List.mem_of_getElem? found,rfl⟩

theorem Sane.stop (sane : u.Sane) {worker : Nat} (acted : u.act? (.stop worker) = some next) : next.Sane := by
  obtain ⟨job,found,running,rfl⟩ := stop_parts acted
  refine {sane with ended := ?_}
  exact List.cons_subperm_of_not_mem_of_mem running (mem_underway found) sane.ended

theorem finish_parts {worker : Nat} (acted : u.act? (.finish worker) = some next) :
    ∃ job p, u.pool.workers[worker]? = some (.running job) ∧ job ∈ u.ended ∧ u.pool.finish? worker = some p ∧
      next = {u with pool := p, ended := u.ended.erase job} := by
  simp only [act?] at acted
  split at acted
  · rename_i job found
    split at acted
    · rename_i done
      obtain ⟨p,finished,rfl⟩ := Option.map_eq_some_iff.mp acted
      exact ⟨job,p,found,done,finished,rfl⟩
    · cases acted
  · cases acted

theorem Sane.finish (sane : u.Sane) {worker : Nat} (acted : u.act? (.finish worker) = some next) : next.Sane := by
  obtain ⟨job,p,found,done,finished,rfl⟩ := finish_parts acted
  have handed := WorkerPool.finish_handed finished
  obtain ⟨_,again,rfl,moved⟩ := WorkerPool.finish_parts finished
  cases found.symm.trans again
  have staffed : u.pool.workers ≠ [] := List.ne_nil_of_mem (List.mem_of_getElem? found)
  refine {sane with
    pending := ?_, tickets := sane.moved (jobs_perm handed), ended := ?_, staffed := ?_, gone := ?_, rested := ?_,
    waits := ?_}
  · have pending := sane.pending
    have length := moved.length_eq
    simp only [List.length_append,List.length_cons,WorkerPool.unended] at pending length ⊢
    omega
  · have among := sane.ended.trans moved.symm.subperm
    exact (List.subperm_cons job).mp ((List.perm_cons_erase done).symm.subperm.trans among)
  · exact fun _ => by simpa using staffed
  · exact fun gone => sane.gone (mem_workers_of_set gone (by simp))
  · exact fun shut opened => absurd (sane.rested shut opened).1 staffed
  · exact fun jobs waiting => List.Subset.trans (sane.waits jobs waiting) handed.symm.subset

theorem Sane.pass (sane : u.Sane) {jobs : List Job} (acted : u.act? (.pass jobs) = some next) : next.Sane := by
  simp only [act?,Option.ite_none_right_eq_some,Option.some.injEq] at acted
  obtain ⟨⟨member,_⟩,rfl⟩ := acted
  refine {sane with closing := ?_, waits := ?_}
  · intro closing
    rw [(sane.closing closing).2.2] at member
    cases member
  · exact fun jobs waiting => sane.waits jobs (List.mem_of_mem_erase waiting)

theorem Sane.leave (sane : u.Sane) {worker : Nat} (acted : u.act? (.leave worker) = some next) : next.Sane := by
  obtain ⟨p,left,rfl⟩ := Option.map_eq_some_iff.mp acted
  obtain ⟨found,shut,empty,rfl,moved⟩ := WorkerPool.leave_parts left
  have staffed : u.pool.workers ≠ [] := List.ne_nil_of_mem (List.mem_of_getElem? found)
  have unended := moved.append_left u.pool.queue
  have handed := unended.append_left u.pool.finished
  refine {sane with
    pending := ?_, tickets := sane.moved (jobs_perm handed), ended := ?_, staffed := ?_, gone := ?_, rested := ?_,
    waits := ?_}
  · exact sane.pending.trans ((unended.append_left u.handing).length_eq).symm
  · exact sane.ended.trans moved.symm.subperm
  · exact fun _ => by simpa using staffed
  · exact fun _ => ⟨empty,shut⟩
  · exact fun shut opened => absurd (sane.rested shut opened).1 staffed
  · exact fun jobs waiting => List.Subset.trans (sane.waits jobs waiting) handed.symm.subset

-- Workers leave a closed pool only when its queue is empty, so nothing is left where all of them have.
theorem Sane.join_parts (sane : u.Sane) (acted : u.act? .join = some next) :
    u.closing = true ∧ u.pool.accepting = false ∧ u.pool.queue = [] ∧ u.pool.underway = [] ∧
      next = {u with pool := {u.pool with workers := []}, closing := false} := by
  simp only [act?,Option.ite_none_right_eq_some] at acted
  obtain ⟨closing,mapped⟩ := acted
  obtain ⟨p,joined,rfl⟩ := Option.map_eq_some_iff.mp mapped
  simp only [WorkerPool.join?,Option.ite_none_left_eq_some,not_or,Bool.not_eq_true,List.any_eq_false,bne_iff_ne,ne_eq,
    not_not,Option.some.injEq] at joined
  obtain ⟨⟨shut,all⟩,rfl⟩ := joined
  obtain ⟨first,member⟩ := List.exists_mem_of_ne_nil _ (sane.staffed (.inr closing))
  have gone : .gone ∈ u.pool.workers := all first member ▸ member
  refine ⟨closing,shut,(sane.gone gone).1,?_,rfl⟩
  refine List.filterMap_eq_nil_iff.mpr fun worker member => ?_
  rw [all worker member]
  rfl

theorem Sane.join (sane : u.Sane) (acted : u.act? .join = some next) : next.Sane := by
  obtain ⟨closing,shut,queue,underway,rfl⟩ := sane.join_parts acted
  obtain ⟨_,own,waits⟩ := sane.closing closing
  have pending := sane.pending
  have tickets := sane.tickets
  have ended := sane.ended
  simp only [jobs,WorkerPool.handed,WorkerPool.unended,queue,underway] at pending tickets ended
  refine ⟨?_,?_,?_,?_,?_,sane.shut,?_,fun _ _ => ⟨rfl,queue⟩,?_⟩
  · simpa only [WorkerPool.unended,WorkerPool.underway,queue,List.filterMap_nil] using pending
  · simpa only [jobs,WorkerPool.handed,WorkerPool.unended,WorkerPool.underway,queue,List.filterMap_nil] using tickets
  · simpa only [WorkerPool.underway,List.filterMap_nil] using ended
  · simp [shut]
  · intro member
    cases member
  · intro closing
    cases closing
  · rw [waits]
    exact List.forall_mem_nil _

theorem Sane.act (sane : u.Sane) {a : PoolAct} (acted : u.act? a = some next) : next.Sane := by
  cases a with
  | count amount fails => exact sane.count acted
  | keep amount fails => exact sane.keep acted
  | wait => exact sane.wait acted
  | activate threads => exact sane.activate acted
  | close => exact sane.close acted
  | send job => exact sane.send acted
  | refuse job => exact sane.refuse acted
  | run job => exact sane.run acted
  | take worker => exact sane.take acted
  | stop worker => exact sane.stop acted
  | finish worker => exact sane.finish acted
  | pass jobs => exact sane.pass acted
  | leave worker => exact sane.leave acted
  | join => exact sane.join acted

theorem Reached.sane (reached : Reached u) : u.Sane := by
  induction reached with
  | start => exact idle_sane
  | act _ acted ih => exact ih.act acted

theorem present_set {workers : List Worker} {worker : Nat} {before : Worker}
    (found : workers[worker]? = some before) (changed : Worker) :
    (workers.set worker changed).countP (· != .gone) + (before != .gone).toNat =
      workers.countP (· != .gone) + (changed != .gone).toNat := by
  obtain ⟨inside,rfl⟩ := List.getElem?_eq_some_iff.mp found
  have counted : (workers[worker] != .gone) = true → 0 < workers.countP (· != .gone) := fun present =>
    List.countP_pos_iff.mpr ⟨_,List.getElem_mem inside,present⟩
  rw [List.countP_set inside]
  cases present : workers[worker] != .gone with
  | true =>
    have := counted present
    cases changed != .gone <;> simp <;> omega
  | false => cases changed != .gone <;> simp

theorem Sane.work_lowers (sane : u.Sane) {a : PoolAct} (work : a.isWork = true) (acted : u.act? a = some next) :
    next.left < u.left := by
  have few := sane.ended.length_le
  cases a with
  | count | keep | wait | activate | close => cases work
  | send job =>
    simp only [act?,Option.ite_none_right_eq_some,Option.some.injEq] at acted
    obtain ⟨member,rfl⟩ := acted
    have length := List.length_erase_add_one member
    simp only [left,List.length_append,List.length_singleton,WorkerPool.underway]
    omega
  | refuse job =>
    simp only [act?,Option.ite_none_right_eq_some,Option.some.injEq] at acted
    obtain ⟨member,rfl⟩ := acted
    have length := List.length_erase_add_one member
    simp only [left,List.length_append,List.length_singleton,WorkerPool.underway]
    omega
  | run job =>
    simp only [act?,Option.ite_none_right_eq_some,Option.some.injEq] at acted
    obtain ⟨member,rfl⟩ := acted
    have length := List.length_erase_add_one member
    simp only [left,WorkerPool.underway]
    omega
  | take worker =>
    obtain ⟨p,took,rfl⟩ := Option.map_eq_some_iff.mp acted
    obtain ⟨job,rest,found,queued,rfl,moved⟩ := WorkerPool.take_parts took
    have underway := moved.length_eq
    have present : _ + 1 = _ + 1 := present_set found (.running job)
    simp only [List.length_cons] at underway
    simp only [left,queued,List.length_cons]
    omega
  | stop worker =>
    obtain ⟨job,found,running,rfl⟩ := stop_parts acted
    have more := (sane.stop acted).ended.length_le
    simp only [List.length_cons] at more
    simp only [left,List.length_cons]
    omega
  | finish worker =>
    obtain ⟨job,p,found,done,finished,rfl⟩ := finish_parts acted
    obtain ⟨_,again,rfl,moved⟩ := WorkerPool.finish_parts finished
    have underway := moved.length_eq
    have ended := List.length_erase_add_one done
    have present : _ + 1 = _ + 1 := present_set again .idle
    simp only [List.length_cons] at underway
    simp only [left]
    omega
  | pass jobs =>
    simp only [act?,Option.ite_none_right_eq_some,Option.some.injEq] at acted
    obtain ⟨⟨member,_⟩,rfl⟩ := acted
    have length := List.length_erase_add_one member
    simp only [left]
    omega
  | leave worker =>
    obtain ⟨p,left,rfl⟩ := Option.map_eq_some_iff.mp acted
    obtain ⟨found,_,_,rfl,moved⟩ := WorkerPool.leave_parts left
    have underway := moved.length_eq
    have present : _ + 1 = _ + 0 := present_set found .gone
    simp only [PoolUse.left]
    omega
  | join =>
    obtain ⟨closing,_,_,underway,rfl⟩ := sane.join_parts acted
    simp only [left,closing,WorkerPool.underway,List.filterMap_nil,List.length_nil,List.countP_nil,Bool.toNat_true,
      Bool.toNat_false]
    omega

def Still (u : PoolUse) : Prop := ∀ a : PoolAct, a.isWork = true → u.act? a = none

theorem Still.handing (still : u.Still) : u.handing = [] := by
  refine List.eq_nil_iff_forall_not_mem.mpr fun job member => ?_
  have never := still (.send job) rfl
  simp [act?,member] at never

theorem Still.own (still : u.Still) : u.own = [] := by
  refine List.eq_nil_iff_forall_not_mem.mpr fun job member => ?_
  have never := still (.run job) rfl
  simp [act?,member] at never

theorem Still.free (still : u.Still) {worker : Worker} (member : worker ∈ u.pool.workers) :
    worker = .idle ∨ worker = .gone := by
  obtain ⟨place,found⟩ := List.mem_iff_getElem?.mp member
  cases worker with
  | idle => exact .inl rfl
  | gone => exact .inr rfl
  | running job =>
    by_cases ended : job ∈ u.ended
    · have never := still (.finish place) rfl
      simp [act?,found,ended,WorkerPool.finish?] at never
    · have never := still (.stop place) rfl
      simp [act?,found,ended] at never

theorem Still.underway (still : u.Still) : u.pool.underway = [] := by
  refine List.filterMap_eq_nil_iff.mpr fun worker member => ?_
  rcases still.free member with rfl | rfl <;> rfl

-- A queue with jobs has a worker that could take one: none has left, and some are there.
theorem Still.queue (still : u.Still) (sane : u.Sane) : u.pool.queue = [] := by
  cases queued : u.pool.queue with
  | nil => rfl
  | cons job rest =>
    have busy : u.pool.queue ≠ [] := by simp [queued]
    have staffed : u.pool.workers ≠ [] := by
      refine sane.staffed ?_
      by_contra neither
      simp only [not_or,Bool.not_eq_true] at neither
      exact busy (sane.rested neither.1 neither.2).2
    obtain ⟨first,member⟩ := List.exists_mem_of_ne_nil _ staffed
    rcases still.free member with rfl | rfl
    · obtain ⟨place,found⟩ := List.mem_iff_getElem?.mp member
      have never := still (.take place) rfl
      simp [act?,WorkerPool.take?,found,queued] at never
    · exact absurd (sane.gone member).1 busy

theorem Still.unended (still : u.Still) (sane : u.Sane) : u.pool.unended = [] := by
  rw [WorkerPool.unended,still.queue sane,still.underway]
  rfl

theorem Still.waits (still : u.Still) (sane : u.Sane) : u.waits = [] := by
  refine List.eq_nil_iff_forall_not_mem.mpr fun jobs member => ?_
  have pending := sane.pending
  rw [still.handing,still.unended sane] at pending
  have never := still (.pass jobs) rfl
  simp [act?,member,WorkerPool.mayPass,pending] at never

theorem Still.opened (still : u.Still) (sane : u.Sane) : u.closing = false := by
  cases closing : u.closing with
  | false => rfl
  | true =>
    have shut := (sane.closing closing).1
    have queue := still.queue sane
    have all : u.pool.workers.any (· != .gone) = false := by
      refine List.any_eq_false.mpr fun worker member => ?_
      rcases still.free member with rfl | rfl
      · obtain ⟨place,found⟩ := List.mem_iff_getElem?.mp member
        have never := still (.leave place) rfl
        simp [act?,WorkerPool.leave?,found,queue,shut] at never
      · exact of_decide_eq_false rfl
    have never := still .join rfl
    simp only [act?,WorkerPool.join?,closing,shut,all] at never
    cases never

theorem Sane.executed (sane : u.Sane) : u.executed.Nodup ∧ u.executed ⊆ u.jobs := by
  have within : u.executed.Subperm (u.pool.finished ++ u.pool.underway) :=
    (List.subperm_append_left u.pool.finished).mpr sane.ended
  have all : (u.pool.finished ++ u.pool.underway).Sublist u.jobs :=
    ((List.sublist_append_right _ _).append_left _).trans (List.sublist_append_left _ _)
  obtain ⟨same,perm,sublist⟩ := within.trans all.subperm
  exact ⟨perm.nodup_iff.mp (sublist.nodup sane.nodup),fun _ known => sublist.subset (perm.mem_iff.mpr known)⟩

structure Reliable (u : PoolUse) : Prop where
  pending : u.pool.pending = (u.handing ++ u.pool.unended).length
  -- It is not zero where it is taken down.
  finished : ∀ worker next, u.act? (.finish worker) = some next → u.pool.pending = next.pool.pending + 1
  refused : ∀ job next, u.act? (.refuse job) = some next → u.pool.pending = next.pool.pending + 1
  -- A wait is over when all jobs from before it are.
  waited : ∀ jobs next, u.act? (.pass jobs) = some next → jobs ⊆ u.pool.finished
  tickets : (u.jobs.map Job.ticket).Perm (List.range u.pool.tickets)
  executed : u.executed.Nodup ∧ u.executed ⊆ u.jobs
  -- The workers are collected when all jobs are finished, and the pool can be started again.
  joined : ∀ next, u.act? .join = some next →
    (u.pool.finished.map Job.ticket).Perm (List.range u.pool.tickets) ∧
    next = {idle with pool := {WorkerPool.idle with tickets := u.pool.tickets, finished := u.pool.finished}} ∧
    ∀ threads, threads ≠ 0 → ∃ again, next.act? (.activate threads) = some again ∧
      again.pool.accepting = true ∧ again.pool.workers = List.replicate threads .idle
  lowered : ∀ a next, a.isWork = true → u.act? a = some next → next.left < u.left
  rested : (∀ a : PoolAct, a.isWork = true → u.act? a = none) →
    (u.pool.finished.map Job.ticket).Perm (List.range u.pool.tickets) ∧ u.waits = [] ∧ u.closing = false

theorem Sane.tickets_finished (sane : u.Sane) (unended : u.pool.unended = []) (handing : u.handing = [])
    (own : u.own = []) : (u.pool.finished.map Job.ticket).Perm (List.range u.pool.tickets) := by
  have tickets := sane.tickets
  rwa [jobs,WorkerPool.handed,unended,handing,own,List.append_nil,List.append_nil,List.append_nil] at tickets

def acts? (u : PoolUse) (all : List PoolAct) : Option PoolUse := all.foldlM act? u

theorem Reached.acts (reached : Reached u) {all : List PoolAct} (acted : u.acts? all = some next) :
    Reached next := by
  induction all generalizing u with
  | nil =>
    cases acted
    exact reached
  | cons a rest ih =>
    rw [acts?,List.foldlM_cons] at acted
    obtain ⟨middle,first,later⟩ := Option.bind_eq_some_iff.mp acted
    exact ih (reached.act first) later

theorem Sane.joined (sane : u.Sane) (acted : u.act? .join = some next) :
    (u.pool.finished.map Job.ticket).Perm (List.range u.pool.tickets) ∧
    next = {idle with pool := {WorkerPool.idle with tickets := u.pool.tickets, finished := u.pool.finished}} := by
  obtain ⟨closing,shut,queue,underway,rfl⟩ := sane.join_parts acted
  obtain ⟨_,own,waits⟩ := sane.closing closing
  have handing := sane.shut shut
  have unended : u.pool.unended = [] := by rw [WorkerPool.unended,queue,underway]; rfl
  have ended : u.ended = [] := List.subperm_nil.mp (underway ▸ sane.ended)
  have pending : u.pool.pending = 0 := by rw [sane.pending,handing,unended]; rfl
  refine ⟨sane.tickets_finished unended handing own,?_⟩
  simp only [idle,WorkerPool.idle,shut,queue,pending,handing,own,ended,waits]

theorem Reached.reliable (reached : Reached u) : u.Reliable := by
  have sane := reached.sane
  refine ⟨sane.pending,?_,?_,?_,sane.tickets,sane.executed,?_,?_,?_⟩
  · intro worker next acted
    obtain ⟨job,p,found,_,finished,rfl⟩ := finish_parts acted
    obtain ⟨_,_,rfl,moved⟩ := WorkerPool.finish_parts finished
    have pending := sane.pending
    have length := moved.length_eq
    simp only [List.length_append,List.length_cons,WorkerPool.unended] at pending length ⊢
    omega
  · intro job next acted
    simp only [act?,Option.ite_none_right_eq_some,Option.some.injEq] at acted
    obtain ⟨member,rfl⟩ := acted
    have pending := sane.pending
    have some_left := List.length_pos_of_mem member
    simp only [List.length_append] at pending ⊢
    omega
  · intro jobs next acted
    simp only [act?,Option.ite_none_right_eq_some] at acted
    obtain ⟨⟨member,passed⟩,_⟩ := acted
    have pending := sane.pending
    rw [beq_iff_eq.mp passed] at pending
    have unended := (List.append_eq_nil_iff.mp (List.length_eq_zero_iff.mp pending.symm)).2
    have known := sane.waits jobs member
    rwa [WorkerPool.handed,unended,List.append_nil] at known
  · intro next acted
    obtain ⟨tickets,rfl⟩ := sane.joined acted
    refine ⟨tickets,rfl,fun threads proper => ⟨_,rfl,?_⟩⟩
    simp [WorkerPool.activate,WorkerPool.idle,proper]
  · exact fun a next work acted => sane.work_lowers work acted
  · intro still
    have handing := Still.handing still
    have own := Still.own still
    exact ⟨sane.tickets_finished (Still.unended still sane) handing own,Still.waits still sane,
      Still.opened still sane⟩

-- Of two jobs on one worker the first fails. The pool is closed while the other is in the queue.
theorem reliable_closed_early : ∃ u next, idle.acts? [.activate 1,.count 5 true,.send ⟨0,5,true⟩,.count 6 false,
      .send ⟨1,6,false⟩,.take 0,.close,.stop 0,.finish 0,.take 0,.stop 0,.finish 0,.leave 0] = some u ∧
    u.act? .join = some next ∧ (u.pool.finished.map Job.ticket).Perm [0,1] ∧
    ∃ again, next.act? (.activate 3) = some again ∧ again.pool.workers.length = 3 := by
  have fresh : Reached idle := .start
  obtain ⟨u,acted⟩ : ∃ u, idle.acts? [.activate 1,.count 5 true,.send ⟨0,5,true⟩,.count 6 false,.send ⟨1,6,false⟩,
      .take 0,.close,.stop 0,.finish 0,.take 0,.stop 0,.finish 0,.leave 0] = some u := ⟨_,rfl⟩
  obtain ⟨next,joined⟩ : ∃ next, u.act? .join = some next := by
    cases acted
    exact ⟨_,rfl⟩
  have reliable := (fresh.acts acted).reliable
  obtain ⟨tickets,_,restarts⟩ := reliable.joined next joined
  obtain ⟨again,started,_,workers⟩ := restarts 3 (by decide)
  refine ⟨u,next,acted,joined,?_,again,started,by rw [workers]; rfl⟩
  cases acted
  exact tickets

-- A caller who schedules a job while no other does anything does what scheduling does at once.
theorem Reached.schedule_steps (reached : Reached u) (opened : u.closing = false) (amount : Nat) (fails : Bool) :
    u.acts? (if u.pool.accepting = true then [.count amount fails,.send ⟨u.pool.tickets,amount,fails⟩]
      else [.keep amount fails,.run ⟨u.pool.tickets,amount,fails⟩]) =
      some {u with pool := (u.pool.schedule amount fails).1} := by
  have fresh : (⟨u.pool.tickets,amount,fails⟩ : Job) ∉ u.handing ++ u.own := by
    intro old
    have known : u.pool.tickets ∈ u.jobs.map Job.ticket :=
      List.mem_map_of_mem (List.mem_append_right u.pool.handed old)
    have below := reached.sane.tickets.mem_iff.mp known
    exact absurd (List.mem_range.mp below) (Nat.lt_irrefl _)
  simp only [List.mem_append,not_or] at fresh
  split
  · rename_i accepting
    simp [acts?,act?,opened,accepting,WorkerPool.schedule,List.erase_append_right _ fresh.1]
  · rename_i shut
    simp [acts?,act?,opened,shut,WorkerPool.schedule,List.erase_append_right _ fresh.2]

theorem acts?_append {first second : List PoolAct} (acted : u.acts? first = some next) :
    u.acts? (first ++ second) = next.acts? second := by
  rw [acts?] at acted
  rw [acts?,List.foldlM_append,acted]
  rfl

theorem drain_steps (ended : u.ended = []) (fuel : Nat) :
    ∃ all, u.acts? all = some {u with pool := WorkerPool.drain fuel u.pool} := by
  induction fuel generalizing u with
  | zero => exact ⟨[],rfl⟩
  | succ fuel ih =>
    rw [WorkerPool.drain]
    cases worked : (u.pool.take? 0).bind (fun p => p.finish? 0) with
    | none => exact ⟨[],rfl⟩
    | some p =>
      obtain ⟨taken,took,finished⟩ := Option.bind_eq_some_iff.mp worked
      obtain ⟨job,found,_⟩ := WorkerPool.finish_parts finished
      have first : u.acts? [.take 0,.stop 0,.finish 0] = some {u with pool := p} := by
        simp [acts?,act?,took,found,finished,ended]
      obtain ⟨all,later⟩ := ih (u := {u with pool := p}) ended
      exact ⟨_,(acts?_append first).trans later⟩

theorem leaveAll_steps (workers : List Nat) :
    ∃ all, u.acts? all =
      some {u with pool := workers.foldl (fun p worker => (p.leave? worker).getD p) u.pool} := by
  induction workers generalizing u with
  | nil => exact ⟨[],rfl⟩
  | cons worker rest ih =>
    rw [List.foldl_cons]
    cases left : u.pool.leave? worker with
    | none => exact ih
    | some p =>
      have first : u.acts? [.leave worker] = some {u with pool := p} := by simp [acts?,act?,left]
      obtain ⟨all,later⟩ := ih (u := {u with pool := p})
      exact ⟨_,(acts?_append first).trans later⟩

theorem deactivate_steps (alone : u.alone = true) (accepting : u.pool.accepting = true) (ended : u.ended = []) :
    ∃ all next, u.acts? all = some next ∧ next.pool = u.pool.deactivate := by
  have closed : u.acts? [.close] = some {u with pool := u.pool.close, closing := true} := by
    simp [acts?,act?,alone,accepting]
  obtain ⟨some_work,settled⟩ :=
    drain_steps (u := {u with pool := u.pool.close, closing := true}) ended u.pool.close.queue.length
  obtain ⟨leaving,left⟩ := leaveAll_steps (u := {u with pool := u.pool.close.settle, closing := true})
    (List.range u.pool.close.settle.workers.length)
  have done := (acts?_append closed).trans ((acts?_append settled).trans left)
  cases joined : u.pool.close.settle.leaveAll.join? with
  | none => exact ⟨_,_,done,by simp only [WorkerPool.deactivate,joined,Option.getD_none]; rfl⟩
  | some p =>
    have last : ({u with pool := u.pool.close.settle.leaveAll, closing := true} : PoolUse).acts? [.join] =
        some {u with pool := p, closing := false} := by
      simp [acts?,act?,joined]
    exact ⟨_,_,(acts?_append done).trans last,by simp only [WorkerPool.deactivate,joined,Option.getD_some]⟩

end PoolUse
end LiveMaps
