import CodeCatalog.Command.Form
import CodeCatalog.Proofs.Settings
set_option autoImplicit false

/-!
# What a command is given

A command holds what was dealt to its fields: the value of a field is a text, nothing if the field
was not given, or an empty list if it was given without a value.
-/

namespace CodeCatalog.Command

namespace Given

open Value

variable {g : Given} {field : Field} {v : Value}

/-- A value that was given is a text, or it is missing. -/
theorem isArgument_of_value? (h : g.value? field = some v) : IsArgument v := by
  unfold value? at h
  cases hvalues : g.values? field with
  | none =>
    rw [hvalues] at h
    cases h
  | some values =>
    rw [hvalues] at h
    cases values with
    | nil =>
      cases h
      exact .empty
    | cons t rest =>
      cases h
      exact .text t

theorem isArgument_option (g : Given) (field : Field) : IsArgument (g.option field) := by
  unfold option
  cases hvalue : g.value? field with
  | none => exact .absent
  | some v => exact isArgument_of_value? hvalue

end Given

/-- The command of a form is made of what was dealt to its fields. -/
theorem exists_given_of_ofForm {form : Form} {args : List Text} {command : Command}
    {leftOver : Bool} (h : ofForm form args = .ok (command, leftOver)) :
    ∃ g : Given, g.command? form = some command := by
  unfold ofForm at h
  split at h
  · cases h
  · obtain ⟨⟨g, more⟩, -, h⟩ := bind_eq_ok.1 h
    cases hcommand : g.command? form with
    | none => simp [hcommand, throw, throwThe, MonadExceptOf.throw] at h
    | some made =>
      simp only [hcommand] at h
      cases h
      exact ⟨g, hcommand⟩

/-- A command line that is accepted names a form. -/
theorem exists_given_of_ofArguments {args : List Text} {command : Command}
    (h : ofArguments args = .ok command) :
    ∃ (form : Form) (g : Given), g.command? form = some command := by
  unfold ofArguments at h
  split at h
  · cases h
  · obtain ⟨⟨_, before⟩, -, h⟩ := bind_eq_ok.1 h
    dsimp only at h
    split at h
    · cases h
    · split at h
      · cases h
      · rename_i form hform
        obtain ⟨⟨made, behind⟩, hmade, h⟩ := bind_eq_ok.1 h
        obtain ⟨g, hg⟩ := exists_given_of_ofForm hmade
        by_cases hleft : (before || behind) = true
        · rw [if_pos hleft] at h
          cases h
        · rw [if_neg hleft] at h
          cases h
          exact ⟨form, g, hg⟩

/-- The options of a query are as they were given. -/
theorem isArgument_of_query {args : List Text} {text collection topK serverUrl output : Value}
    {options : Embedder.Given}
    (h : ofArguments args = .ok (.query text collection topK serverUrl output options)) :
    Value.IsArgument options.model ∧ Value.IsArgument output := by
  obtain ⟨form, g, hcommand⟩ := exists_given_of_ofArguments h
  cases form with
  | query =>
    obtain ⟨text', -, hcommand⟩ := Option.bind_eq_some_iff.1 hcommand
    obtain ⟨collection', -, hcommand⟩ := Option.bind_eq_some_iff.1 hcommand
    cases hcommand
    exact ⟨g.isArgument_option .model, g.isArgument_option .output⟩
  | _ => simp [Given.command?, Option.bind_eq_some_iff] at hcommand

end CodeCatalog.Command
