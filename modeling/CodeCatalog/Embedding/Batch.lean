import CodeCatalog.Embedding.Embedder
import CodeCatalog.Entity.Record
set_option autoImplicit false

/-!
# Batches of embeddings

The records that need an embedding are embedded by one job each.  Jobs run side by side,
but only as many as there are permits: a job takes a permit before its first request and
gives it back when it has its vector or has failed for good.  Each job has a clock of its
own, which starts at zero when the job does.

`Setup.step?` is what one job may do next.  A run is any sequence of such steps, so the jobs
may overlap in any order; `Setup.run` is the run in which jobs take turns.
-/

namespace CodeCatalog

/-- A job: the position of a record and the text to embed. -/
structure Job where
  index : Nat
  text : Text
  deriving DecidableEq, Repr

/-- How far a job is: it waits for a permit, it holds one and is about to make its `attempt`th
request at a time of its clock, or it has ended with a vector or without. -/
inductive Progress (κ : Type) where
  | waiting
  | active (attempt : Nat) (now : κ)
  | ended (vector : Option (List Double))

/-- The job holds a permit. -/
def Progress.isActive {κ : Type} : Progress κ → Bool
  | .active _ _ => true
  | _ => false

/-- The jobs of a batch with their progress, and the state of the service. -/
structure Batch (σ κ : Type) where
  jobs : List (Job × Progress κ)
  state : σ

namespace Batch

variable {σ κ : Type}

/-- The number of permits that are held. -/
def held (b : Batch σ κ) : Nat := b.jobs.countP fun j => j.2.isActive

/-- Records the progress of the `i`th job. -/
def advance (b : Batch σ κ) (i : Nat) (job : Job) (p : Progress κ) (state : σ) : Batch σ κ :=
  ⟨b.jobs.set i (job, p), state⟩

/-- The batch before its first step. -/
def start (jobs : List Job) (state : σ) : Batch σ κ := ⟨jobs.map fun j => (j, .waiting), state⟩

/-- The vectors of the jobs that ended with one, with the positions of their records. -/
def results (b : Batch σ κ) : List (Nat × List Double) :=
  b.jobs.filterMap fun j =>
    match j.2 with
    | .ended (some v) => some (j.1.index, v)
    | _ => none

end Batch

/-- What the jobs of a batch have in common. -/
structure Setup (σ κ : Type) where
  service : Endpoint σ κ
  embedder : Embedder
  policy : Backoff κ
  draw : κ
  permits : Nat

namespace Setup

variable {σ κ : Type} [Span κ]

/-- The progress of a job after a request that took the clock to `elapsed`. -/
def progressAfter (s : Setup σ κ) (attempt : Nat) (elapsed : κ) :
    Outcome (List Double) → Progress κ
  | .ok v => .ended (some v)
  | .error f =>
    if f.isTransient then
      match s.policy.verdict s.draw attempt elapsed with
      | .giveUp => .ended none
      | .retryAfter wait => .active (attempt + 1) (Span.add elapsed wait)
    else .ended none

/-- The next step of the `i`th job: it takes a permit if one is free, or makes a request.  A
job that has ended has no next step. -/
def step? (s : Setup σ κ) (b : Batch σ κ) (i : Nat) : Option (Batch σ κ) :=
  match b.jobs[i]? with
  | some (job, .waiting) =>
    if b.held < s.permits then some (b.advance i job (.active 1 Span.zero) b.state) else none
  | some (job, .active attempt now) =>
    let call := s.embedder.embedText s.service job.text now b.state
    some (b.advance i job (s.progressAfter attempt (Span.add now call.takes) call.outcome)
      call.state)
  | _ => none

/-! ## Taking turns -/

/-- An entry of the queue of jobs: one that starts or was handed a permit, one that wakes after
a failed request, or one that gets some more turns before its request is made. -/
inductive Turn where
  | enter (job : Nat)
  | wake (job : Nat)
  | wait (job : Nat) (turns : Nat)

/-- The number of turns between a job's decision to make a request and the request. -/
def requestTurns : Nat := 3

/-- A batch in which jobs take turns: the queue of jobs, the jobs that wait for a permit, and
the greatest number of requests in flight so far. -/
structure Round (σ κ : Type) where
  batch : Batch σ κ
  queue : List Turn
  waiting : List Nat
  inFlight : Nat

namespace Round

/-- Puts an entry at the end of the queue. -/
def push (r : Round σ κ) (t : Turn) : Round σ κ :=
  let queue := r.queue ++ [t]
  let flying := queue.countP fun
    | .wait _ _ => true
    | _ => false
  { r with queue, inFlight := max r.inFlight flying }

/-- Hands a permit that was given back to the job that has waited longest. -/
def release (r : Round σ κ) : Round σ κ :=
  match r.waiting with
  | [] => r
  | job :: rest => { r with waiting := rest }.push (.enter job)

end Round

/-- The text of a job can be sent; otherwise its request fails before it is in flight. -/
def canSend (s : Setup σ κ) (b : Batch σ κ) (i : Nat) : Bool :=
  match b.jobs[i]? with
  | some (job, _) => (s.embedder.prepare [job.text]).isOk
  | none => false

/-- Lets a job make its request, and lets it go on or gives its permit back. -/
def request (s : Setup σ κ) (r : Round σ κ) (job : Nat) : Round σ κ :=
  match s.step? r.batch job with
  | none => r
  | some batch =>
    match batch.jobs[job]? with
    | some (_, .active _ _) => { r with batch }.push (.wake job)
    | _ => { r with batch }.release

/-- Lets the first job of the queue take its turn; the entry is already off the queue. -/
def turn (s : Setup σ κ) (r : Round σ κ) : Turn → Round σ κ
  | .enter job =>
    match s.step? r.batch job with
    | some batch =>
      if s.canSend batch job then { r with batch }.push (.wait job requestTurns)
      else s.request { r with batch } job
    | none => { r with waiting := r.waiting ++ [job] }
  | .wake job => r.push (.wait job requestTurns)
  | .wait job (turns + 2) => r.push (.wait job (turns + 1))
  | .wait job _ => s.request r job

/-- Lets jobs take turns until the queue is empty, or `limit` turns have been taken. -/
def rounds (s : Setup σ κ) : (limit : Nat) → Round σ κ → Round σ κ
  | 0, r => r
  | limit + 1, r =>
    match r.queue with
    | [] => r
    | t :: rest => rounds s limit (s.turn { r with queue := rest } t)

/-- The greatest number of turns. -/
def turnLimit : Nat := 100000000

/-- Runs a batch by turns. -/
def run (s : Setup σ κ) (jobs : List Job) (state : σ) : Round σ κ :=
  s.rounds turnLimit
    ⟨Batch.start jobs state, (List.range jobs.length).map .enter, [], 0⟩

end Setup

/-! ## Records -/

namespace Record

/-- The jobs for the records that need an embedding. -/
def jobs (rs : List Record) : List Job :=
  rs.zipIdx.filterMap fun r =>
    if r.1.embedding.isNone then r.1.embeddable?.map fun t => ⟨r.2, t⟩ else none

/-- Gives a record a vector unless it has one. -/
def fill (v : List Double) (r : Record) : Record :=
  if r.embedding.isNone then { r with embedding := some v } else r

/-- Gives records the vectors for their positions. -/
def fillAll (rs : List Record) (results : List (Nat × List Double)) : List Record :=
  results.foldl (fun rs result => rs.modify result.1 (fill result.2)) rs

end Record

end CodeCatalog
