import CodeCatalog.Extraction
import CodeCatalog.Proofs.Text.Trim
set_option autoImplicit false

/-!
# String literals

A string literal is a body between two quotes, with letters before it and perhaps white space around
it.  The content that is taken from it is its body, unless one mark is the quote and the body makes
it look like a literal with three: then the body begins and ends with two more marks.  A body in
which every mark of the quote is escaped does not begin with one.
-/

namespace CodeCatalog

/-! ## The parts of a literal -/

/-- The letters before a quote, each in either case. -/
def IsLiteralLetter (g : Glyph) : Prop :=
  ∃ c ∈ ['r', 'b', 'u', 'f'], g = .scalar c ∨ g = .scalar c.toUpper

/-- A quotation mark. -/
def IsMark (mark : Glyph) : Prop := mark = .scalar '"' ∨ mark = .scalar '\''

/-- The quotes: one mark, or three of one kind. -/
inductive IsQuote : Text → Prop
  | short {mark : Glyph} (h : IsMark mark) : IsQuote [mark]
  | long {mark : Glyph} (h : IsMark mark) : IsQuote [mark, mark, mark]

/-- What begins an escape. -/
def escapeMark : Glyph := .scalar '\\'

/-- A text may stand between two quotes: an escape takes the code point behind it, the quote comes
nowhere else, and no escape is left open at the end. -/
inductive IsLiteralBody (quote : Text) : Text → Prop
  | nil : IsLiteralBody quote []
  | escape (g : Glyph) {rest : Text} (h : IsLiteralBody quote rest) :
      IsLiteralBody quote (escapeMark :: g :: rest)
  | plain {g : Glyph} {rest : Text} (hg : g ≠ escapeMark) (hquote : ¬quote <+: g :: rest)
      (h : IsLiteralBody quote rest) : IsLiteralBody quote (g :: rest)

/-- A body between two marks looks like one between three: it begins and ends with two marks, which
are not the same ones. -/
structure LooksLong (mark : Glyph) (body : Text) : Prop where
  begins : [mark, mark] <+: body
  ends : [mark, mark] <:+ body
  apart : 4 ≤ body.length

variable {before letters quote body behind t : Text} {mark other g : Glyph}

namespace IsMark

theorem not_isBlank (h : IsMark mark) : mark.isBlank = false := by
  rcases h with rfl | rfl <;> decide

theorem not_letter (h : IsMark mark) : Text.oneOf literalLetters mark = false := by
  rcases h with rfl | rfl <;> decide

theorem ne_escapeMark (h : IsMark mark) : mark ≠ escapeMark := by
  rcases h with rfl | rfl <;> decide

end IsMark

namespace IsLiteralLetter

theorem letter (h : IsLiteralLetter g) : Text.oneOf literalLetters g = true := by
  obtain ⟨c, hc, hg⟩ := h
  simp only [List.mem_cons, List.not_mem_nil, or_false] at hc
  rcases hc with rfl | rfl | rfl | rfl <;> rcases hg with rfl | rfl <;> decide

theorem not_isBlank (h : IsLiteralLetter g) : g.isBlank = false := by
  obtain ⟨c, hc, hg⟩ := h
  simp only [List.mem_cons, List.not_mem_nil, or_false] at hc
  rcases hc with rfl | rfl | rfl | rfl <;> rcases hg with rfl | rfl <;> decide

end IsLiteralLetter

/-- A quote is a mark or begins and ends with one. -/
theorem IsQuote.exists_mark (h : IsQuote quote) :
    ∃ mark, IsMark mark ∧ quote.head? = some mark ∧ quote.getLast? = some mark := by
  cases h with
  | short h => exact ⟨_, h, rfl, rfl⟩
  | long h => exact ⟨_, h, rfl, rfl⟩

/-- A body does not begin with a mark that is its quote. -/
theorem IsLiteralBody.head?_ne (hmark : IsMark mark) (h : IsLiteralBody [mark] body) :
    body.head? ≠ some mark := by
  cases h with
  | nil => simp
  | escape g h => simpa using Ne.symm hmark.ne_escapeMark
  | plain hg hquote h =>
    intro hhead
    obtain rfl : _ = mark := Option.some.inj hhead
    exact hquote (List.prefix_append [_] _)

/-! ## The quote that is found -/

/-- A text begins and ends with a quote, and these are not the same one. -/
def isQuotedBy (t quote : Text) : Bool :=
  quote.isPrefixOf t && quote.isSuffixOf t && 2 * quote.length ≤ t.length

theorem isQuotedBy_iff :
    isQuotedBy t quote = true ↔ quote <+: t ∧ quote <:+ t ∧ 2 * quote.length ≤ t.length := by
  simp [isQuotedBy, and_assoc]

theorem isQuotedBy_self (quote body : Text) :
    isQuotedBy (quote ++ (body ++ quote)) quote = true := by
  have hends : quote <:+ quote ++ (body ++ quote) := by
    rw [← List.append_assoc]
    exact List.suffix_append _ _
  refine isQuotedBy_iff.2 ⟨List.prefix_append _ _, hends, ?_⟩
  simp only [List.length_append]
  omega

/-- What begins with one mark is not quoted by another one. -/
theorem not_isQuotedBy_of_ne (ht : t.head? = some mark) (hne : mark ≠ other) (marks : Text) :
    isQuotedBy t (other :: marks) = false := by
  rw [Bool.eq_false_iff]
  intro h
  obtain ⟨rest, rfl⟩ := (isQuotedBy_iff.1 h).1
  exact hne (Option.some.inj ht).symm

/-- Only the quotes of the first mark are found, the long one before the short one. -/
theorem find?_literalQuotes (hmark : IsMark mark) (ht : t.head? = some mark) :
    literalQuotes.find? (isQuotedBy t) = [[mark, mark, mark], [mark]].find? (isQuotedBy t) := by
  have hquotes : literalQuotes = [[.scalar '"', .scalar '"', .scalar '"'],
      [.scalar '\'', .scalar '\'', .scalar '\''], [.scalar '"'], [.scalar '\'']] := rfl
  have hother {other : Glyph} (hne : mark ≠ other) := not_isQuotedBy_of_ne ht hne
  rw [hquotes]
  rcases hmark with rfl | rfl
  · have hne : Glyph.scalar '"' ≠ .scalar '\'' := by decide
    simp only [List.find?_cons, List.find?_nil, hother hne]
  · have hne : Glyph.scalar '\'' ≠ .scalar '"' := by decide
    simp only [List.find?_cons, List.find?_nil, hother hne]

/-- Between two marks a body that looks long is quoted by three. -/
theorem isQuotedBy_three_iff :
    isQuotedBy ([mark] ++ (body ++ [mark])) [mark, mark, mark] = true ↔ LooksLong mark body := by
  have hlength : 2 * [mark, mark, mark].length ≤ ([mark] ++ (body ++ [mark])).length ↔
      4 ≤ body.length := by
    simp only [List.length_append, List.length_cons, List.length_nil]
    omega
  have hbegins (h : 4 ≤ body.length) :
      [mark, mark, mark] <+: [mark] ++ (body ++ [mark]) ↔ [mark, mark] <+: body := by
    have htwo : [mark, mark].length ≤ body.length := by simp; omega
    rw [List.singleton_append, List.cons_prefix_cons]
    constructor
    · rintro ⟨-, h⟩
      exact List.prefix_of_prefix_length_le h (List.prefix_append _ _) htwo
    · exact fun h => ⟨rfl, h.trans (List.prefix_append _ _)⟩
  have hends (h : 4 ≤ body.length) :
      [mark, mark, mark] <:+ [mark] ++ (body ++ [mark]) ↔ [mark, mark] <:+ body := by
    have htwo : [mark, mark].length ≤ body.length := by simp; omega
    have hthree : [mark, mark, mark] = [mark, mark] ++ [mark] := rfl
    rw [← List.append_assoc, hthree, List.suffix_append_inj_of_length_eq rfl]
    constructor
    · rintro ⟨h, -⟩
      exact List.suffix_of_suffix_length_le h (List.suffix_append _ _) htwo
    · exact fun h => ⟨h.trans (List.suffix_append _ _), rfl⟩
  rw [isQuotedBy_iff, hlength]
  constructor
  · rintro ⟨hfirst, hlast, h⟩
    exact ⟨(hbegins h).1 hfirst, (hends h).1 hlast, h⟩
  · rintro ⟨hfirst, hlast, h⟩
    exact ⟨(hbegins h).2 hfirst, (hends h).2 hlast, h⟩

/-! ## The content of a literal -/

/-- Between the white space around a literal and behind the letters before it, the content is what
is between the quotes that are found. -/
theorem stripLiteral_eq (hbefore : before.isBlank = true) (hbehind : behind.isBlank = true)
    (hletters : ∀ g ∈ letters, IsLiteralLetter g) (hquote : IsQuote quote) {found : Text}
    (hfound : literalQuotes.find? (isQuotedBy (quote ++ (body ++ quote))) = some found) :
    stripLiteral (before ++ (letters ++ (quote ++ (body ++ quote)) ++ behind)) =
      ((quote ++ (body ++ quote)).drop found.length).take
        ((quote ++ (body ++ quote)).length - 2 * found.length) := by
  obtain ⟨mark, hmark, hhead, hlast⟩ := hquote.exists_mark
  have hne : quote ≠ [] := by
    rintro rfl
    cases hhead
  have htrim : (before ++ (letters ++ (quote ++ (body ++ quote)) ++ behind)).trim =
      letters ++ (quote ++ (body ++ quote)) := by
    refine Text.IsTrimmed.trimWhile_append ⟨fun g hg => ?_, fun g hg => ?_⟩ (by simp [hne])
      (List.all_eq_true.1 hbefore) (List.all_eq_true.1 hbehind)
    · cases letters with
      | nil =>
        rw [List.nil_append, List.head?_append, hhead] at hg
        exact Option.some.inj hg ▸ hmark.not_isBlank
      | cons letter rest =>
        exact Option.some.inj hg ▸ (hletters letter List.mem_cons_self).not_isBlank
    · rw [← List.append_assoc, ← List.append_assoc, List.getLast?_append, hlast] at hg
      exact Option.some.inj hg ▸ hmark.not_isBlank
  have hcore : (letters ++ (quote ++ (body ++ quote))).dropWhile (Text.oneOf literalLetters) =
      quote ++ (body ++ quote) := by
    rw [List.dropWhile_append_of_pos fun g hg => (hletters g hg).letter]
    refine Text.dropWhile_of_head? fun g hg => ?_
    rw [List.head?_append, hhead] at hg
    exact Option.some.inj hg ▸ hmark.not_letter
  delta isQuotedBy at hfound
  simp only [stripLiteral, htrim, hcore, hfound]

/-- What is between the quotes of a literal is its body. -/
theorem between_quotes (quote body : Text) :
    ((quote ++ (body ++ quote)).drop quote.length).take
      ((quote ++ (body ++ quote)).length - 2 * quote.length) = body := by
  have hlength : (quote ++ (body ++ quote)).length - 2 * quote.length = body.length := by
    simp only [List.length_append]
    omega
  rw [hlength, List.drop_left, List.take_left]

section

variable (hbefore : before.isBlank = true) (hbehind : behind.isBlank = true)
  (hletters : ∀ g ∈ letters, IsLiteralLetter g) (hquote : IsQuote quote)

include hbefore hbehind hletters hquote

/-- The content of a literal is its body, unless one mark is the quote and the body looks long. -/
theorem stripLiteral_eq_body_iff :
    stripLiteral (before ++ (letters ++ (quote ++ (body ++ quote)) ++ behind)) = body ↔
      ¬∃ mark, quote = [mark] ∧ LooksLong mark body := by
  cases hquote with
  | @short mark hmark =>
    have hfind : literalQuotes.find? (isQuotedBy ([mark] ++ (body ++ [mark]))) =
        if isQuotedBy ([mark] ++ (body ++ [mark])) [mark, mark, mark]
          then some [mark, mark, mark] else some [mark] := by
      rw [find?_literalQuotes hmark rfl, List.find?_cons,
        List.find?_cons_of_pos (isQuotedBy_self [mark] body)]
      cases isQuotedBy ([mark] ++ (body ++ [mark])) [mark, mark, mark] <;> rfl
    have hmarks : (∃ other, [mark] = [other] ∧ LooksLong other body) ↔ LooksLong mark body := by
      constructor
      · rintro ⟨other, heq, hlong⟩
        obtain rfl : mark = other := List.singleton_inj.1 heq
        exact hlong
      · exact fun hlong => ⟨mark, rfl, hlong⟩
    rw [hmarks]
    by_cases hlong : LooksLong mark body
    · -- Two marks at either end of the body are lost with the quotes.
      rw [if_pos (isQuotedBy_three_iff.2 hlong)] at hfind
      rw [stripLiteral_eq hbefore hbehind hletters (.short hmark) hfind]
      refine iff_of_false (fun heq => ?_) (not_not_intro hlong)
      have hlength := congrArg List.length heq
      have happart := hlong.apart
      simp only [List.length_take, List.length_drop, List.length_append, List.length_cons,
        List.length_nil] at hlength
      omega
    · rw [if_neg (mt isQuotedBy_three_iff.1 hlong)] at hfind
      rw [stripLiteral_eq hbefore hbehind hletters (.short hmark) hfind]
      exact iff_of_true (between_quotes [mark] body) hlong
  | @long mark hmark =>
    have hfind : literalQuotes.find?
        (isQuotedBy ([mark, mark, mark] ++ (body ++ [mark, mark, mark]))) =
          some [mark, mark, mark] := by
      rw [find?_literalQuotes hmark rfl, List.find?_cons_of_pos (isQuotedBy_self _ _)]
    rw [stripLiteral_eq hbefore hbehind hletters (.long hmark) hfind]
    refine iff_of_true (between_quotes _ body) ?_
    rintro ⟨_, heq, -⟩
    cases heq

/-- The content of a literal whose quote comes in its body in escapes alone is the body, whatever
the body begins and ends with. -/
theorem stripLiteral_literal (hbody : IsLiteralBody quote body) :
    stripLiteral (before ++ letters ++ quote ++ body ++ quote ++ behind) = body := by
  have hparts : before ++ letters ++ quote ++ body ++ quote ++ behind =
      before ++ (letters ++ (quote ++ (body ++ quote)) ++ behind) := by
    simp only [List.append_assoc]
  rw [hparts, stripLiteral_eq_body_iff hbefore hbehind hletters hquote]
  rintro ⟨mark, rfl, hlong⟩
  have hmark : IsMark mark := by
    cases hquote with
    | short h => exact h
  obtain ⟨rest, rfl⟩ := hlong.begins
  exact hbody.head?_ne hmark rfl

end

/-- A body that begins with a letter of literals and two other marks, and ends with an escaped
one. -/
theorem stripLiteral_literal_escapedEnd :
    Text.isBlank "\t " = true ∧ Text.isBlank "\n" = true ∧
      (∀ g ∈ ("Rb" : Text), IsLiteralLetter g) ∧ IsQuote "\"" ∧ IsLiteralBody "\"" "u''\\\"" ∧
      stripLiteral "\t Rb\"u''\\\"\"\n" = "u''\\\"" := by
  have hbefore : Text.isBlank "\t " = true := by decide
  have hbehind : Text.isBlank "\n" = true := by decide
  have hletters : ∀ g ∈ ("Rb" : Text), IsLiteralLetter g := by
    refine List.forall_mem_cons.2 ⟨⟨'r', by decide⟩, List.forall_mem_cons.2 ⟨⟨'b', by decide⟩, ?_⟩⟩
    exact fun _ hg => absurd hg List.not_mem_nil
  have hquote : IsQuote "\"" := .short (.inl rfl)
  have hbody : IsLiteralBody "\"" "u''\\\"" :=
    .plain (by decide) (by decide) (.plain (by decide) (by decide)
      (.plain (by decide) (by decide) (.escape (.scalar '"') .nil)))
  exact ⟨hbefore, hbehind, hletters, hquote, hbody,
    stripLiteral_literal hbefore hbehind hletters hquote hbody⟩

end CodeCatalog
