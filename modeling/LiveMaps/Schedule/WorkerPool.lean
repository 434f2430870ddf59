import LiveMaps.Number.Natural

namespace LiveMaps

-- The ticket tells scheduled jobs apart.
structure Job where
  ticket : Nat
  amount : Nat
  fails : Bool
  deriving DecidableEq, Repr

inductive Worker where
  | idle
  | running (job : Job)
  | gone
  deriving DecidableEq, Repr

-- `pending` counts what a caller of `wait` still waits for. `finished` lists the jobs that have run, be it
-- on a worker or with the caller, in the order in which they ended.
structure WorkerPool where
  accepting : Bool
  queue : List Job
  workers : List Worker
  pending : Nat
  tickets : Nat
  finished : List Job
  deriving DecidableEq, Repr

namespace WorkerPool

def idle : WorkerPool := ⟨false,[],[],0,0,[]⟩

def activate (p : WorkerPool) (threads : Nat) : WorkerPool :=
  if p.accepting ∨ threads = 0 then p
  else {p with accepting := true, workers := List.replicate threads .idle}

-- Tells also whether the job's failure reached the caller, who runs it where no worker does.
def schedule (p : WorkerPool) (amount : Nat) (fails : Bool) : WorkerPool × Bool :=
  let job : Job := ⟨p.tickets,amount,fails⟩
  if p.accepting then
    ({p with tickets := p.tickets + 1, pending := p.pending + 1, queue := p.queue ++ [job]},false)
  else ({p with tickets := p.tickets + 1, finished := p.finished ++ [job]},fails)

def take? (p : WorkerPool) (worker : Nat) : Option WorkerPool :=
  match p.workers[worker]?,p.queue with
  | some .idle,job :: rest => some {p with workers := p.workers.set worker (.running job), queue := rest}
  | _,_ => none

def finish? (p : WorkerPool) (worker : Nat) : Option WorkerPool :=
  match p.workers[worker]? with
  | some (.running job) =>
    some {p with
      workers := p.workers.set worker .idle
      pending := p.pending - 1
      finished := p.finished ++ [job] }
  | _ => none

def mayPass (p : WorkerPool) : Bool := p.pending == 0

def close (p : WorkerPool) : WorkerPool := {p with accepting := false}

def leave? (p : WorkerPool) (worker : Nat) : Option WorkerPool :=
  match p.workers[worker]? with
  | some .idle =>
    if p.accepting ∨ p.queue ≠ [] then none else some {p with workers := p.workers.set worker .gone}
  | _ => none

def join? (p : WorkerPool) : Option WorkerPool :=
  if p.accepting ∨ p.workers.any (· != .gone) then none else some {p with workers := []}

-- The schedule in which the first worker takes every job and no other is taken
-- before it ends.
def drain : Nat → WorkerPool → WorkerPool
  | 0,p => p
  | fuel+1,p =>
    match (p.take? 0).bind (fun p => p.finish? 0) with
    | some p => drain fuel p
    | none => p

def settle (p : WorkerPool) : WorkerPool := drain p.queue.length p

def leaveAll (p : WorkerPool) : WorkerPool :=
  (List.range p.workers.length).foldl (fun p worker => (p.leave? worker).getD p) p

def deactivate (p : WorkerPool) : WorkerPool :=
  let p := p.close.settle.leaveAll
  p.join?.getD p

def threads (p : WorkerPool) : Nat := p.workers.length

def total (p : WorkerPool) : Nat :=
  ((p.finished.filter (fun job => !job.fails)).map Job.amount).foldr (· + ·) 0

end WorkerPool
end LiveMaps
