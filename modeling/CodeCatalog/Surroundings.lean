import CodeCatalog.Console
import CodeCatalog.Embedding.Batch
import CodeCatalog.Extraction.File
import CodeCatalog.Store
import CodeCatalog.Workspace.IndexFile
set_option autoImplicit false

/-!
# Surroundings

What a catalog works in: its files and what the system allows of writing them, the environment, a
parser, an embedding service, a vector server and a console.  The service is any endpoint with a
state of any type.  The surroundings also keep account of the clients that were set up and of the
requests in flight.
-/

namespace CodeCatalog

/-- The surroundings of a catalog. -/
structure Surroundings (σ : Type) where
  files : Workspace
  access : Access := {}
  environment : Environment
  parser : Parser
  service : Endpoint σ Double
  serviceState : σ
  server : VectorServer
  console : Console := .memory
  /-- The share of the jitter that every wait draws. -/
  draw : Double
  /-- The greatest number of requests to the service that were in flight at once. -/
  inFlight : Nat := 0
  embeddingClients : List EmbeddingClient := []
  serverClients : List ServerClient := []

/-- Work in the surroundings of a catalog. -/
abbrev Work (σ α : Type) := Action (Surroundings σ) α

namespace Surroundings

variable {σ α : Type}

/-- Work on the files alone. -/
def onFiles (x : Action Workspace α) : Work σ α :=
  Action.onPart Surroundings.files (fun files s => { s with files }) x

/-- Writes records to an index file. -/
def writeIndex (rs : List Record) (p : Path) : Work σ Unit := fun s =>
  onFiles (IndexFile.write rs p s.access) s

/-- Prints a document, and gives what was printed. -/
def print (p : Value.Printed) : Work σ Text := fun s =>
  match s.console.fault? p with
  | some f => (.error f, s)
  | none => (.ok p.pieces.flatten, s)

/-- Work on the vector server alone. -/
def onServer (x : Action VectorServer α) : Work σ α :=
  Action.onPart Surroundings.server (fun server s => { s with server }) x

/-- A result that depends on the surroundings and leaves them alone. -/
def ask (f : Surroundings σ → Outcome α) : Work σ α := fun s => (f s, s)

/-- Makes the embedder of the settings, which sets up its clients. -/
def setUpEmbedder (settings : Value) (given : Embedder.Given) : Work σ Embedder := do
  let e ← Action.ofOutcome (Embedder.ofSettings settings given)
  Action.modify fun s => { s with embeddingClients := s.embeddingClients ++ e.clients }
  return e

/-- Makes the vector store of the settings, which sets up its client. -/
def setUpStore (settings : Value) (embedder : Option Embedder) : Work σ VectorStore := do
  let made ← Action.ofOutcome (VectorStore.ofSettings settings embedder)
  Action.modify fun s => { s with serverClients := s.serverClients ++ [made.2] }
  return made.1

end Surroundings

end CodeCatalog
