import CodeCatalog.Embedding.Token
import CodeCatalog.Proofs.Store.Batches
import CodeCatalog.Proofs.Text.Utf8
set_option autoImplicit false

/-!
# The first tokens of a text

A text is cut to its first tokens.  Whether there are more can often be told from the number of its
bytes, since no token is without a byte; then the tokens are not looked at, which changes nothing
about the text that is given.  But the bytes of a text with a lone surrogate cannot be counted, so
such a text fails although its tokens could be.
-/

namespace CodeCatalog

open VectorStore

namespace Text

variable {tail limit : Nat} {t : Text}

/-- The text of the first tokens of a text. -/
def firstTokens (tail limit : Nat) (t : Text) : Text := ((t.tokens tail).take limit).flatten

/-! ## Tokens are batches of code points -/

theorem tokens_eq_batches (tail : Nat) (t : Text) :
    t.tokens tail = batches (tail + 1) (Nat.succ_pos tail) t := by
  fun_induction tokens tail t with
  | case1 => rw [batches]
  | case2 g rest ih => rw [batches, List.take_succ_cons, List.drop_succ_cons, ih]

/-- The first tokens are the tokens of their text. -/
theorem tokens_firstTokens (tail limit : Nat) (t : Text) :
    (t.firstTokens tail limit).tokens tail = (t.tokens tail).take limit := by
  rw [firstTokens, tokens_eq_batches tail t, flatten_take_batches, tokens_eq_batches, batches_take]

theorem firstTokens_prefix (tail limit : Nat) (t : Text) : t.firstTokens tail limit <+: t := by
  rw [firstTokens, tokens_eq_batches, flatten_take_batches]
  exact List.take_prefix _ _

theorem length_tokens_firstTokens_le (tail limit : Nat) (t : Text) :
    ((t.firstTokens tail limit).tokens tail).length ≤ limit := by
  rw [tokens_firstTokens]
  exact List.length_take_le _ _

/-- A text without further tokens is left alone. -/
theorem firstTokens_of_length_le (h : (t.tokens tail).length ≤ limit) :
    t.firstTokens tail limit = t := by
  rw [firstTokens, List.take_of_length_le h, tokens_eq_batches, flatten_batches]

/-! ## Tokens and bytes -/

theorem length_tokens_le (tail : Nat) (t : Text) : (t.tokens tail).length ≤ t.length := by
  fun_induction tokens tail t with
  | case1 => exact Nat.le_refl 0
  | case2 g rest ih =>
    rw [List.length_drop] at ih
    simp only [List.length_cons]
    omega

/-- Every code point of a text that can be encoded has a byte. -/
theorem length_le_length_encode (h : t.isScalar = true) :
    t.length ≤ (Utf8.encode t).length := by
  induction t with
  | nil => exact Nat.le_refl 0
  | cons g rest ih =>
    rw [isScalar, List.all_cons, Bool.and_eq_true] at h
    cases g with
    | surrogate offset => cases h.1
    | scalar c =>
      have hbytes : Utf8.encode (.scalar c :: rest) =
          String.utf8EncodeChar c ++ Utf8.encode rest := rfl
      have hpos := c.utf8Size_pos
      have hrest := ih h.2
      rw [hbytes, List.length_append, String.length_utf8EncodeChar, List.length_cons]
      omega

theorem isScalar_front {u : Text} (h : u <+: t) (ht : t.isScalar = true) :
    u.isScalar = true := by
  obtain ⟨rest, rfl⟩ := h
  rw [isScalar_append, Bool.and_eq_true] at ht
  exact ht.1

/-! ## Cutting a text -/

/-- A text that can be encoded is cut to its first tokens, whether they are looked at or not. -/
theorem cutToTokens_of_isScalar (limit : Nat) (model : Text) (h : t.isScalar = true) :
    t.cutToTokens limit (.text model) = .ok (t.firstTokens (tokenTail model) limit) := by
  have hencode : Utf8.encode? t = .ok (Utf8.encode t) := Utf8.encode?_eq_ok.2 ⟨h, rfl⟩
  have hmay : t.mayExceed limit =
      .ok (decide ((limit : Int) < ((Utf8.encode t).length : Int))) := by
    rw [mayExceed, hencode]
  have htail : Value.tokenTail (.text model) = .ok (tokenTail model) := rfl
  unfold cutToTokens
  rw [hmay, htail]
  simp only [bind, Except.bind, pure, Except.pure, decide_eq_true_eq]
  split
  · split
    · rename_i hcount
      rw [firstTokens_of_length_le (Int.ofNat_le.1 hcount)]
    · rw [upTo, if_pos (Int.natCast_nonneg limit), Int.toNat_natCast, firstTokens]
  · rename_i hbytes
    -- The tokens are not looked at, since there are no more of them than bytes.
    have hcount : (t.tokens (tokenTail model)).length ≤ limit :=
      calc (t.tokens (tokenTail model)).length ≤ t.length := length_tokens_le _ t
        _ ≤ (Utf8.encode t).length := length_le_length_encode h
        _ ≤ limit := by omega
    rw [firstTokens_of_length_le hcount]

/-- A text that cannot be encoded cannot be cut. -/
theorem cutToTokens_of_encode?_eq_error (limit : Int) (model : Value) {u : Utf8.Unencodable}
    (h : Utf8.encode? t = .error u) : t.cutToTokens limit model = .error (.unencodable u) := by
  rw [cutToTokens, mayExceed, h]
  rfl

/-- A text is cut to its first tokens exactly if it has no lone surrogate, and otherwise cannot be
cut.  What it is cut to is a front of the text, has its first tokens and no more than the limit, and
is not cut again. -/
theorem cutToTokens_eq_ok_iff (limit : Nat) (model t : Text) :
    let cut := t.firstTokens (tokenTail model) limit
    (t.cutToTokens limit (.text model) = .ok cut ↔ t.isScalar = true) ∧
    (∀ u, Utf8.encode? t = .error u →
      t.cutToTokens limit (.text model) = .error (.unencodable u)) ∧
    cut <+: t ∧
    cut.tokens (tokenTail model) = (t.tokens (tokenTail model)).take limit ∧
    (∃ count, cut.tokenCount (.text model) = .ok count ∧ count ≤ limit) ∧
    (t.isScalar = true → cut.cutToTokens limit (.text model) = .ok cut) := by
  intro cut
  have hprefix : cut <+: t := firstTokens_prefix _ limit t
  have htokens := tokens_firstTokens (tokenTail model) limit t
  refine ⟨?_, ?_, hprefix, htokens, ?_, ?_⟩
  · constructor
    · intro hcut
      cases hencode : Utf8.encode? t with
      | ok bytes => exact (Utf8.encode?_eq_ok.1 hencode).1
      | error u =>
        rw [cutToTokens_of_encode?_eq_error _ _ hencode] at hcut
        cases hcut
    · intro ht
      exact cutToTokens_of_isScalar limit model ht
  · intro u hu
    exact cutToTokens_of_encode?_eq_error limit (.text model) hu
  · exact ⟨_, rfl, length_tokens_firstTokens_le _ limit t⟩
  · intro ht
    have hcount := length_tokens_firstTokens_le (tokenTail model) limit t
    rw [cutToTokens_of_isScalar limit model (isScalar_front hprefix ht),
      firstTokens_of_length_le hcount]

/-- A lone surrogate is a token, so it is all of the first token of its text; but it cannot be cut
to that. -/
theorem not_cut_loneSurrogate :
    let t : Text := [.surrogate 0]
    let model : Text := "text-embedding-3-small"
    t.tokenCount (.text model) = .ok 1 ∧ t.firstTokens (tokenTail model) 1 = t ∧
      t.cutToTokens 1 (.text model) = .error (.unencodable ⟨0, 0, 1⟩) := by
  intro t model
  have hcount : (t.tokens (tokenTail model)).length = 1 := by decide +kernel
  have hencode : Utf8.encode? t = .error ⟨0, 0, 1⟩ := rfl
  refine ⟨congrArg Except.ok hcount, ?_, ?_⟩
  · exact firstTokens_of_length_le (Nat.le_of_eq hcount)
  · exact cutToTokens_of_encode?_eq_error 1 (.text model) hencode

end Text

end CodeCatalog
