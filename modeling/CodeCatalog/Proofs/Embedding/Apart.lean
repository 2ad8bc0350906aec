import CodeCatalog.Embedding.Embedder
import CodeCatalog.Proofs.Backoff
set_option autoImplicit false

/-!
# Texts that do not meet

A service goes by the text of a request if its answer depends on that text, on the clock of the
one who asks and on what it keeps of that text alone, such as the number of its earlier requests.
Then texts do not meet: the answers to one of them are those that a service for this text alone
would give, whatever is asked of the others in between.
-/

namespace CodeCatalog

variable {σ ν κ : Type}

/-- A response as it looks to one who sees a part of the state. -/
def Response.mapState (see : σ → ν) (r : Response σ κ) : Response ν κ :=
  ⟨see r.state, r.takes, r.reply⟩

/-- A service goes by the text of a request: of each text it keeps an account, on which it answers
like a service for that text alone, and which only requests for that text change. -/
structure Endpoint.GoesByText (service : Endpoint σ κ) (model : Value) (account : σ → Text → ν)
    (own : Text → Endpoint ν κ) : Prop where
  answers (state : σ) (now : κ) (t : Text) :
    (service.send state now model [t]).mapState (account · t) =
      (own t).send (account state t) now model [t]
  apart (state : σ) (now : κ) {t u : Text} (h : u ≠ t) :
    account (service.send state now model [t]).state u = account state u

/-! ## Services that count -/

/-- What a service does that knows of a request its text, the number of earlier requests for that
text and the clock. -/
abbrev CountedAnswer (κ : Type) := Text → Nat → κ → κ × Except ServiceFault (List ReplyItem)

/-- The service for one text. -/
def CountedAnswer.endpointFor (answer : CountedAnswer κ) (t : Text) : Endpoint Nat κ :=
  ⟨fun count now _ _ => ⟨count + 1, (answer t count now).1, (answer t count now).2⟩⟩

/-- The service for requests of one text each, which counts the requests for every text. -/
def CountedAnswer.endpoint [Span κ] (answer : CountedAnswer κ) : Endpoint (Text → Nat) κ :=
  ⟨fun counts now _ texts =>
    match texts with
    | [t] => ⟨fun u => if u = t then counts t + 1 else counts u, (answer t (counts t) now).1,
        (answer t (counts t) now).2⟩
    | _ => ⟨counts, Span.zero, .error .badRequest⟩⟩

theorem CountedAnswer.goesByText [Span κ] (answer : CountedAnswer κ) (model : Value) :
    answer.endpoint.GoesByText model (fun counts t => counts t) answer.endpointFor where
  answers counts now t := by
    simp [CountedAnswer.endpoint, CountedAnswer.endpointFor, Response.mapState]
  apart counts now t u h := by simp [CountedAnswer.endpoint, h]

/-! ## Requests for one text -/

namespace Embedder

variable [Span κ] {e : Embedder} {text sent : Text}

/-- The text that is sent for a text; a text that cannot be sent stands for itself. -/
def sentText (e : Embedder) (text : Text) : Text := (e.prepareText text).toOption.getD text

theorem sentText_of_prepareText (h : e.prepareText text = .ok sent) : e.sentText text = sent := by
  simp [sentText, h, Except.toOption]

/-- A text that cannot be sent fails at once and asks nothing. -/
theorem embedText_of_error {fault : DataFault} (h : e.prepareText text = .error fault)
    (service : Endpoint σ κ) (now : κ) (state : σ) :
    e.embedText service text now state = ⟨state, Span.zero, .error (.data fault)⟩ := by
  have hprepare : e.prepare [text] = .error fault := by
    simp [prepare, h, bind, Except.bind]
  simp [embedText, embed, request, hprepare, Except.map]

/-- What the reply to a request for one text comes to. -/
def vectorOf : Except ServiceFault (List ReplyItem) → Outcome (List Double)
  | .error f => .error (.service f)
  | .ok items => (vectors 1 items).map fun vs => vs.headD []

theorem embedText_of_ok (h : e.prepareText text = .ok sent) (service : Endpoint σ κ) (now : κ)
    (state : σ) :
    e.embedText service text now state =
      ⟨(service.send state now e.model [sent]).state,
        (service.send state now e.model [sent]).takes,
        vectorOf (service.send state now e.model [sent]).reply⟩ := by
  have hprepare : e.prepare [text] = .ok [sent] := by
    simp [prepare, h, bind, Except.bind, pure, Except.pure]
  simp only [embedText, embed, request, hprepare]
  cases (service.send state now e.model [sent]).reply <;> rfl

/-- A text that gets a vector gets it from a reply of one item. -/
theorem exists_item_of_vectorOf {reply : Except ServiceFault (List ReplyItem)} {v : List Double}
    (h : vectorOf reply = .ok v) : ∃ item, reply = .ok [item] ∧ item.vector = v := by
  cases reply with
  | error f => cases h
  | ok items =>
    simp only [vectorOf, vectors] at h
    split at h
    · rename_i hlen
      obtain ⟨item, rfl⟩ := List.length_eq_one_iff.1 hlen
      cases h
      exact ⟨item, rfl, by simp⟩
    · cases h

variable {service : Endpoint σ κ} {account : σ → Text → ν} {own : Text → Endpoint ν κ}

/-- The embedding of a text is told by the account of what is sent for it. -/
theorem embedText_mapState (hservice : service.GoesByText e.model account own) (now : κ)
    (state : σ) :
    (e.embedText service text now state).mapState (account · (e.sentText text)) =
      e.embedText (own (e.sentText text)) text now (account state (e.sentText text)) := by
  cases hprepare : e.prepareText text with
  | error fault => simp only [embedText_of_error hprepare, Called.mapState]
  | ok sent =>
    have hanswer := hservice.answers state now sent
    simp only [embedText_of_ok hprepare, sentText_of_prepareText hprepare, Called.mapState,
      ← hanswer, Response.mapState]

/-- The embedding of a text leaves the accounts of other texts alone. -/
theorem account_embedText (hservice : service.GoesByText e.model account own) (now : κ)
    (state : σ) {u : Text} (hu : e.prepareText text ≠ .ok u) :
    account (e.embedText service text now state).state u = account state u := by
  cases hprepare : e.prepareText text with
  | error fault => rw [embedText_of_error hprepare]
  | ok sent =>
    rw [embedText_of_ok hprepare]
    refine hservice.apart state now fun h => hu ?_
    rw [hprepare, h]

end Embedder

end CodeCatalog
