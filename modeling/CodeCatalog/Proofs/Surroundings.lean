import CodeCatalog.Surroundings
set_option autoImplicit false

/-!
# What is asked of the surroundings

Asking leaves the surroundings alone, and a call of the server or a writing changes its own part of
them.  Making an embedder or a store of the settings fails before a client is set up, and otherwise
does no more than to set one up.
-/

namespace CodeCatalog.Surroundings

variable {σ α : Type} {f : Surroundings σ → Outcome α} {w w' : Surroundings σ} {fault : Fault}

theorem ask_eq_ok {a : α} : ask f w = (.ok a, w') ↔ f w = .ok a ∧ w = w' := by
  rw [ask, Prod.mk.injEq]

theorem ask_eq_error : ask f w = (.error fault, w') ↔ f w = .error fault ∧ w = w' := by
  rw [ask, Prod.mk.injEq]

theorem onServer_of_eq {x : Action VectorServer α} {result : Outcome α} {server : VectorServer}
    (h : x w.server = (result, server)) : onServer x w = (result, { w with server }) := by
  rw [onServer, Action.onPart, h]

theorem writeIndex_of_eq {rs : List Record} {p : Path} {result : Outcome Unit} {files : Workspace}
    (h : IndexFile.write rs p w.access w.files = (result, files)) :
    writeIndex rs p w = (result, { w with files }) := by
  rw [writeIndex, onFiles, Action.onPart, h]

section

variable {settings : Value} {given : Embedder.Given} {e : Embedder}

theorem setUpEmbedder_of_ok (h : Embedder.ofSettings settings given = .ok e) :
    setUpEmbedder settings given w =
      (.ok e, { w with embeddingClients := w.embeddingClients ++ e.clients }) := by
  rw [setUpEmbedder, h]
  rfl

theorem setUpEmbedder_of_error (h : Embedder.ofSettings settings given = .error fault) :
    setUpEmbedder settings given w = (.error fault, w) := by
  rw [setUpEmbedder, h]
  rfl

end

section

variable {settings : Value} {embedder : Option Embedder} {made : VectorStore × ServerClient}

theorem setUpStore_of_ok (h : VectorStore.ofSettings settings embedder = .ok made) :
    setUpStore settings embedder w =
      (.ok made.1, { w with serverClients := w.serverClients ++ [made.2] }) := by
  rw [setUpStore, h]
  rfl

theorem setUpStore_of_error (h : VectorStore.ofSettings settings embedder = .error fault) :
    setUpStore settings embedder w = (.error fault, w) := by
  rw [setUpStore, h]
  rfl

end

end CodeCatalog.Surroundings
