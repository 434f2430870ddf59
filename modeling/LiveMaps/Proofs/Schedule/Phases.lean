import LiveMaps.Schedule.WorkerPool
import Mathlib.Data.List.Perm.Basic

namespace LiveMaps

def Worker.job? : Worker → Option Job
  | .running job => some job
  | _ => none

namespace WorkerPool
variable {p next after : WorkerPool} {todo : List Nat} {worker amount threads : Nat}

-- One batch: a job for each amount is handed to the pool, in this order, and whoever
-- hands them out then waits for the pool. Workers take and end jobs at any moment.
inductive Batch : List Nat → WorkerPool → WorkerPool → Prop where
  | wait {p : WorkerPool} : p.mayPass = true → Batch [] p p
  | schedule {amount : Nat} {todo : List Nat} {p after : WorkerPool} :
      Batch todo (p.schedule amount false).1 after → Batch (amount :: todo) p after
  | take {worker : Nat} {todo : List Nat} {p next after : WorkerPool} :
      p.take? worker = some next → Batch todo next after → Batch todo p after
  | finish {worker : Nat} {todo : List Nat} {p next after : WorkerPool} :
      p.finish? worker = some next → Batch todo next after → Batch todo p after

def endedSince (earlier p : WorkerPool) : List Nat :=
  (p.finished.drop earlier.finished.length).map Job.amount

def underway (p : WorkerPool) : List Job := p.workers.filterMap Worker.job?

def unended (p : WorkerPool) : List Job := p.queue ++ p.underway

def handed (p : WorkerPool) : List Job := p.finished ++ p.unended

-- What holds of a pool in use: a waiting caller waits for just the jobs that have not
-- ended, and a pool that accepts jobs has workers for them.
structure Counted (p : WorkerPool) : Prop where
  pending : p.pending = p.unended.length
  staffed : p.accepting = true → p.workers ≠ []
  present : ∀ worker ∈ p.workers, worker ≠ .gone

theorem activate_unended (threads : Nat) : (idle.activate threads).unended = [] := by
  unfold activate
  split
  · rfl
  · refine List.filterMap_eq_nil_iff.mpr fun worker member => ?_
    rw [List.eq_of_mem_replicate member]
    rfl

theorem activate_counted (threads : Nat) : (idle.activate threads).Counted := by
  refine ⟨?_,?_,?_⟩
  · rw [activate_unended]
    unfold activate
    split <;> rfl
  · unfold activate
    split
    · exact nofun
    · rename_i started
      exact fun _ none => started (.inr (by simpa using none))
  · unfold activate
    split
    · exact nofun
    · intro worker member
      rw [List.eq_of_mem_replicate member]
      exact nofun

theorem underway_set {workers : List Worker} {before changed : Worker}
    (found : workers[worker]? = some before) :
    (before.job?.toList ++ (workers.set worker changed).filterMap Worker.job?).Perm
      (changed.job?.toList ++ workers.filterMap Worker.job?) := by
  obtain ⟨inside,rfl⟩ := List.getElem?_eq_some_iff.mp found
  have each (l : List Worker) (head : Worker) :
      (head :: l).filterMap Worker.job? = head.job?.toList ++ l.filterMap Worker.job? := by
    rw [List.filterMap_cons]
    cases head.job? <;> rfl
  conv => rhs; rw [←List.take_append_drop worker workers,←List.getElem_cons_drop inside]
  rw [List.set_eq_take_append_cons_drop,if_pos inside,List.filterMap_append,List.filterMap_append,each,each]
  rw [List.perm_iff_count]
  intro job
  simp only [List.count_append]
  omega

theorem set_present {workers : List Worker} {changed : Worker}
    (present : ∀ worker ∈ workers, worker ≠ .gone) (fine : changed ≠ .gone) :
    ∀ other ∈ workers.set worker changed, other ≠ .gone := by
  intro other member
  rcases List.mem_or_eq_of_mem_set member with old | rfl
  · exact present other old
  · exact fine

structure Stepped (added : List Job) (p next : WorkerPool) : Prop where
  counted : next.Counted
  handed : next.handed.Perm (added ++ p.handed)
  ended : p.finished <+: next.finished

theorem Stepped.refl (counted : p.Counted) : Stepped [] p p :=
  ⟨counted,.refl _,List.prefix_refl _⟩

theorem Stepped.trans {more added : List Job} (first : Stepped added p next)
    (second : Stepped more next after) : Stepped (more ++ added) p after where
  counted := second.counted
  handed := by
    rw [List.append_assoc]
    exact second.handed.trans (first.handed.append_left more)
  ended := first.ended.trans second.ended

theorem schedule_stepped (counted : p.Counted) (amount : Nat) :
    Stepped [⟨p.tickets,amount,false⟩] p (p.schedule amount false).1 := by
  unfold schedule
  split
  · refine ⟨⟨?_,counted.staffed,counted.present⟩,?_,List.prefix_refl _⟩
    · have pending := counted.pending
      simp only [unended,underway,List.length_append,List.length_singleton] at pending ⊢
      omega
    · rw [List.perm_iff_count]
      intro job
      simp only [WorkerPool.handed,unended,underway,List.count_append]
      omega
  · refine ⟨⟨counted.pending,counted.staffed,counted.present⟩,?_,List.prefix_append _ _⟩
    rw [List.perm_iff_count]
    intro job
    simp only [WorkerPool.handed,unended,underway,List.count_append]
    omega

theorem take_parts (took : p.take? worker = some next) : ∃ job rest, p.workers[worker]? = some .idle ∧
    p.queue = job :: rest ∧ next = {p with workers := p.workers.set worker (.running job), queue := rest} ∧
    next.underway.Perm (job :: p.underway) := by
  unfold take? at took
  split at took
  · rename_i job rest found queued
    cases took
    exact ⟨job,rest,found,queued,rfl,underway_set found⟩
  · cases took

theorem finish_parts (ended : p.finish? worker = some next) : ∃ job, p.workers[worker]? = some (.running job) ∧
    next = {p with
      workers := p.workers.set worker .idle
      pending := p.pending - 1
      finished := p.finished ++ [job] } ∧
    (job :: next.underway).Perm p.underway := by
  unfold finish? at ended
  split at ended
  · rename_i job found
    cases ended
    exact ⟨job,found,rfl,underway_set found⟩
  · cases ended

theorem leave_parts (left : p.leave? worker = some next) : p.workers[worker]? = some .idle ∧
    p.accepting = false ∧ p.queue = [] ∧ next = {p with workers := p.workers.set worker .gone} ∧
    next.underway.Perm p.underway := by
  unfold leave? at left
  split at left
  · rename_i found
    split at left
    · cases left
    · rename_i closed
      simp only [not_or,Bool.not_eq_true,ne_eq,not_not] at closed
      cases left
      exact ⟨found,closed.1,closed.2,rfl,underway_set found⟩
  · cases left

theorem take_unended (took : p.take? worker = some next) : next.unended.Perm p.unended := by
  obtain ⟨job,rest,_,queued,rfl,moved⟩ := take_parts took
  rw [unended,unended,queued]
  exact (moved.append_left rest).trans List.perm_middle

theorem finish_unended (ended : p.finish? worker = some next) :
    ∃ job, next.finished = p.finished ++ [job] ∧ (job :: next.unended).Perm p.unended := by
  obtain ⟨job,_,rfl,moved⟩ := finish_parts ended
  exact ⟨job,rfl,List.perm_middle.symm.trans (moved.append_left p.queue)⟩

theorem take_handed (took : p.take? worker = some next) : next.handed.Perm p.handed := by
  have same := (take_unended took).append_left p.finished
  obtain ⟨_,_,_,_,rfl,_⟩ := take_parts took
  exact same

theorem finish_handed (ended : p.finish? worker = some next) : next.handed.Perm p.handed := by
  obtain ⟨job,finished,same⟩ := finish_unended ended
  rw [handed,handed,finished,List.append_assoc]
  exact same.append_left p.finished

theorem take_stepped (counted : p.Counted) (took : p.take? worker = some next) : Stepped [] p next := by
  have same := take_unended took
  have all := take_handed took
  obtain ⟨job,rest,_,_,rfl,_⟩ := take_parts took
  refine ⟨⟨counted.pending.trans same.length_eq.symm,?_,set_present counted.present nofun⟩,all,List.prefix_refl _⟩
  simpa using counted.staffed

theorem finish_stepped (counted : p.Counted) (ended : p.finish? worker = some next) :
    Stepped [] p next := by
  obtain ⟨job,_,same⟩ := finish_unended ended
  have all := finish_handed ended
  obtain ⟨_,_,rfl,_⟩ := finish_parts ended
  refine ⟨⟨?_,?_,set_present counted.present nofun⟩,all,List.prefix_append _ _⟩
  · have pending := counted.pending
    rw [←same.length_eq] at pending
    exact congrArg (· - 1) pending
  · simpa using counted.staffed

theorem Batch.stepped (batch : Batch todo p after) (counted : p.Counted) :
    ∃ added : List Job, (added.map Job.amount).Perm todo ∧ Stepped added p after := by
  induction batch with
  | wait => exact ⟨[],.refl _,.refl counted⟩
  | @schedule amount todo p after _ ih =>
    have first := schedule_stepped counted amount
    obtain ⟨added,same,rest⟩ := ih first.counted
    refine ⟨added ++ [⟨p.tickets,amount,false⟩],?_,first.trans rest⟩
    rw [List.map_append]
    exact (same.append_right [amount]).trans List.perm_append_comm
  | take took _ ih =>
    have first := take_stepped counted took
    obtain ⟨added,same,rest⟩ := ih first.counted
    exact ⟨added,same,List.append_nil added ▸ first.trans rest⟩
  | finish ended _ ih =>
    have first := finish_stepped counted ended
    obtain ⟨added,same,rest⟩ := ih first.counted
    exact ⟨added,same,List.append_nil added ▸ first.trans rest⟩

theorem Batch.rested (batch : Batch todo p after) (counted : p.Counted) : after.unended = [] := by
  induction batch with
  | wait passed =>
    rw [mayPass,beq_iff_eq,counted.pending] at passed
    exact List.length_eq_zero_iff.mp passed
  | schedule _ ih => exact ih (schedule_stepped counted _).counted
  | take took _ ih => exact ih (take_stepped counted took).counted
  | finish ended _ ih => exact ih (finish_stepped counted ended).counted

-- A batch runs each of its jobs once, where no work was left before it.
theorem Batch.endedSince_perm (batch : Batch todo p after) (counted : p.Counted)
    (rested : p.unended = []) : (endedSince p after).Perm todo := by
  obtain ⟨added,same,stepped⟩ := batch.stepped counted
  obtain ⟨new,split⟩ := stepped.ended
  have all := stepped.handed
  rw [WorkerPool.handed,WorkerPool.handed,rested,batch.rested counted,List.append_nil,List.append_nil,
    ←split] at all
  have new_perm : new.Perm added :=
    (List.perm_append_left_iff p.finished).mp (all.trans List.perm_append_comm)
  rw [endedSince,←split,List.drop_left]
  exact (new_perm.map Job.amount).trans same

theorem Counted.all_idle (counted : p.Counted) (rested : p.unended = []) :
    ∀ worker ∈ p.workers, worker = .idle := by
  intro worker member
  have free := List.filterMap_eq_nil_iff.mp (List.append_eq_nil_iff.mp rested).2 worker member
  cases worker with
  | idle => rfl
  | running job => cases free
  | gone => exact absurd rfl (counted.present _ member)

theorem first_worker (counted : p.Counted) (rested : p.unended = []) (accepting : p.accepting = true)
    (amount : Nat) : ∃ taken next, (p.schedule amount false).1.take? 0 = some taken ∧
      taken.finish? 0 = some next ∧ next.unended = [] := by
  have idle := counted.all_idle rested
  have staffed := counted.staffed accepting
  have queue := (List.append_eq_nil_iff.mp rested).1
  obtain ⟨accepts,queued,workers,pending,tickets,finished⟩ := p
  dsimp only at accepting queue idle staffed
  subst accepting queue
  cases workers with
  | nil => exact absurd rfl staffed
  | cons first others =>
    have free : others.filterMap Worker.job? = [] := by
      refine List.filterMap_eq_nil_iff.mpr fun worker member => ?_
      rw [idle worker (List.mem_cons_of_mem _ member)]
      rfl
    have start := idle first List.mem_cons_self
    subst start
    exact ⟨_,_,rfl,rfl,free⟩

-- Some batch always ends: one worker can do it all, and a pool that accepts no jobs
-- leaves them to the caller.
theorem exists_batch (counted : p.Counted) (rested : p.unended = []) (todo : List Nat) :
    ∃ after, Batch todo p after := by
  induction todo generalizing p with
  | nil =>
    refine ⟨p,.wait ?_⟩
    rw [mayPass,counted.pending,rested]
    rfl
  | cons amount rest ih =>
    have scheduled := (schedule_stepped counted amount).counted
    by_cases accepting : p.accepting = true
    · obtain ⟨taken,next,took,ended,rested⟩ := first_worker counted rested accepting amount
      have taken_counted := (take_stepped scheduled took).counted
      obtain ⟨after,batch⟩ := ih (finish_stepped taken_counted ended).counted rested
      exact ⟨after,.schedule (.take took (.finish ended batch))⟩
    · have inline : (p.schedule amount false).1.unended = [] := by
        rw [schedule,if_neg accepting]
        exact rested
      obtain ⟨after,batch⟩ := ih scheduled inline
      exact ⟨after,.schedule batch⟩

inductive Served (threads : Nat) : WorkerPool → Prop where
  | start : Served threads (idle.activate threads)
  | batch {todo : List Nat} {p after : WorkerPool} : Served threads p → Batch todo p after →
      Served threads after

theorem Served.parts (served : Served threads p) : p.Counted ∧ p.unended = [] := by
  induction served with
  | start => exact ⟨activate_counted threads,activate_unended threads⟩
  | batch _ batch ih =>
    obtain ⟨_,_,stepped⟩ := batch.stepped ih.1
    exact ⟨stepped.counted,batch.rested ih.1⟩

end WorkerPool
end LiveMaps
