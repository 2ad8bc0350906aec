import CodeCatalog.Surroundings
import CodeCatalog.Workspace.IndexFile
set_option autoImplicit false

/-!
# Filling in embeddings

Gives every record that needs an embedding one, as far as the service allows.  Nothing is
asked of the settings, and no client is set up, when no record needs an embedding.
-/

namespace CodeCatalog

/-- How a batch is to be run; what is not given comes from the settings. -/
structure FillOptions where
  embedder : Option Embedder := none
  permits : Value := .null
  policy : Option (Backoff Double) := none

namespace Settings

/-- The default number of requests in flight at once. -/
def usualPermits : Int := 10

/-- The number of requests in flight at once. -/
def concurrency (settings : Value) : Except DataFault Int := do
  ((← (← part settings "embedding").member? "concurrency").getD
    (.int usualPermits)).toInteger

end Settings

/-- The number of permits for a given number: at least one. -/
def permitsOf (n : Int) : Nat := (max 1 n).toNat

/-- The number of permits that a value is for a number of jobs.  Permits are taken one by one, so
a number above one that is not whole is never used up. -/
def Value.permits (jobs : Nat) (v : Value) : Except DataFault Nat :=
  match v with
  | .int n => .ok (permitsOf n)
  | .bool _ => .ok 1
  | .float x =>
    .ok (if !Double.one.lt x then 1
      else if x.isFinite && x.isIntegral then permitsOf x.truncate
      else max 1 jobs)
  | v => .error (.notComparable ">" v.typeName "int")

namespace Surroundings

variable {σ : Type}

/-- Runs a batch of jobs in the surroundings, and gives the vectors that came of it. -/
def runBatch (embedder : Embedder) (policy : Backoff Double) (permits : Nat)
    (jobs : List Job) : Work σ (List (Nat × List Double)) := fun s =>
  let setup : Setup σ Double := ⟨s.service, embedder, policy, s.draw, permits⟩
  let round := setup.run jobs s.serviceState
  (.ok round.batch.results,
    { s with serviceState := round.batch.state, inFlight := max s.inFlight round.inFlight })

/-- Gives records the embeddings that they need. -/
def fillRecords (settings : Value) (options : FillOptions) (rs : List Record) :
    Work σ (List Record) := do
  let jobs := Record.jobs rs
  if jobs.isEmpty then return rs
  let embedder ← match options.embedder with
    | some e => pure e
    | none => setUpEmbedder settings {}
  let permits ← match options.permits with
    | .null => Action.ofOutcome (.ofData ((Settings.concurrency settings).map .int))
    | v => pure v
  let policy ← match options.policy with
    | some p => pure p
    | none => Action.ofOutcome (.ofData (Backoff.ofSettings settings))
  let permits ← Action.ofOutcome (.ofData (permits.permits jobs.length))
  return Record.fillAll rs (← runBatch embedder policy permits jobs)

/-- Reads an index file, gives its records the embeddings that they need, and writes them to
another; tells how many of them have one then.  Nothing is written for an empty index. -/
def fillIndexFile (settings : Value) (given : Embedder.Given) (input output : Path) :
    Work σ Nat := do
  let rs ← ask fun s => IndexFile.read s.files input
  if rs.isEmpty then return 0
  let embedder ←
    if rs.any Record.isPending then some <$> setUpEmbedder settings given else pure none
  let filled ← fillRecords settings { embedder } rs
  writeIndex filled output
  return filled.countP fun r => r.embedding.isSome

end Surroundings

end CodeCatalog
