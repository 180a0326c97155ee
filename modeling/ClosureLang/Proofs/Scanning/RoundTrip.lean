import ClosureLang.Proofs.Grammar.Operands
import ClosureLang.Proofs.Scanning.LineBreaks

namespace ClosureLang

/-- A token without its line. -/
def Token.content (t : Token) : TokenKind × String × Option Literal :=
  (t.kind, t.lexeme, t.literal)

/-- The lexemes of the tokens in front of the end of input, one blank between two. -/
def Scanned.spaced (s : Scanned) : String :=
  " ".intercalate ((s.tokens.filter fun t => t.kind != .eof).map Token.lexeme)

/-- The lexeme is of the kind, and is not skipped or a keyword. -/
structure Spelled (kind : TokenKind) (lexeme : List Char) : Prop where
  pattern : Lexeme kind lexeme
  kept : kind ≠ .comment ∧ kind ≠ .newLine
  word : kind = .identifier → ∀ (other : TokenKind) (text : String),
    other.keyword? = some text → lexeme ≠ text.toList

namespace Segment

/-- The kind and the characters of a token. -/
def lexeme? : Segment → Option (TokenKind × List Char)
  | .token kind lexeme => some (kind, lexeme)
  | _ => none

/-- The kinds and the characters of the tokens of a text. -/
def lexemes (cs : List Char) : List (TokenKind × List Char) :=
  (cutAll [] cs).filterMap lexeme?

theorem spelled_of_segmented {cs : List Char} {segments : List Segment}
    (h : Segmented cs segments) : ∀ p ∈ segments.filterMap lexeme?, Spelled p.1 p.2 := by
  induction h with
  | nil => simp
  | @cons cs rest segment segments hfirst _ ih =>
    intro p hp
    obtain ⟨s, hs, hsp⟩ := List.mem_filterMap.mp hp
    rcases List.mem_cons.mp hs with rfl | hs
    · cases hfirst with
      | token hl hk _ word =>
        cases hsp
        exact ⟨hl, hk, word⟩
      | blank | lineBreak | comment | unexpected | unterminated => cases hsp
    · exact ih p (List.mem_filterMap.mpr ⟨s, hs, hsp⟩)

theorem spelled_of_mem_lexemes (cs : List Char) : ∀ p ∈ lexemes cs, Spelled p.1 p.2 :=
  spelled_of_segmented (cutAll_eq_iff.mp rfl)

theorem content_of_ends (segments : List Segment) (line : Nat) :
    ((ends line segments).filterMap token?).map Token.content =
      (segments.filterMap lexeme?).map fun p => (Token.make p.1 (.ofList p.2) 0).content := by
  induction segments generalizing line with
  | nil => rfl
  | cons segment segments ih =>
    cases segment with
    | token kind lexeme => simp [ends, token?, lexeme?, ih, Token.content, Token.make]
    | blank | lineBreak | comment | unexpected | unterminated => exact ih _

section Spelled

variable {kind : TokenKind} {c : Char} {l : List Char} (h : Spelled kind (c :: l))
include h

theorem cut_spelled : cut c l = (.token kind (c :: l), []) := by
  have hlongest : Longest (c :: l) [] := by
    intro _ l' _ hp
    rw [List.append_nil] at hp
    exact hp.length_le
  have hcut := cut_of_lexeme h.pattern h.kept hlongest h.word
  rwa [List.append_nil] at hcut

theorem not_blank_of_spelled : ¬ Blank c := by
  intro hb
  have hcut := cut_spelled h
  rw [cut_blank hb] at hcut
  cases hcut

theorem not_comment_of_spelled : ¬ (c = '/' ∧ l.head? = some '/') := by
  rintro ⟨rfl, hh⟩
  obtain ⟨tail, rfl⟩ := List.head?_eq_some_iff.mp hh
  have hcut := cut_spelled h
  rw [cut_comment] at hcut
  cases hcut

theorem cut_spelled_blank (rest : List Char) :
    cut c (l ++ ' ' :: rest) = (.token kind (c :: l), ' ' :: rest) := by
  have hcut := cut_spelled h
  have hclosed : ∀ body, (cut c l).1 ≠ .unterminated body := by
    rw [hcut]
    nofun
  rw [cut_behind (.inl (.inl rfl)) hclosed (fun hb => absurd hb (not_blank_of_spelled h))
    (fun hc hh => absurd ⟨hc, hh⟩ (not_comment_of_spelled h)), hcut, List.nil_append]

end Spelled

/-- Lexemes with blanks between them are cut into the lexemes and the blanks. -/
theorem cutAll_spaced (words : List (TokenKind × List Char)) (h : ∀ p ∈ words, Spelled p.1 p.2) :
    cutAll [] ([' '].intercalate (words.map Prod.snd)) =
      (words.map fun p => .token p.1 p.2).intersperse (.blank [' ']) := by
  induction words with
  | nil => simp [cutAll]
  | cons p words ih =>
    obtain ⟨hp, hwords⟩ := List.forall_mem_cons.mp h
    obtain ⟨kind, lexeme⟩ := p
    obtain ⟨c, l, rfl⟩ := List.exists_cons_of_ne_nil hp.pattern.ne_nil
    cases words with
    | nil => simp [cutAll_cons, cut_spelled hp, cutAll]
    | cons q words =>
      -- the blank is a run of its own, since a token stands behind it
      have hrun : ∀ d ∈ ([' '].intercalate ((q :: words).map Prod.snd)).head?,
          isBlank d = false := by
        obtain ⟨hq, -⟩ := List.forall_mem_cons.mp hwords
        obtain ⟨kind', lexeme'⟩ := q
        obtain ⟨d, l', rfl⟩ := List.exists_cons_of_ne_nil hq.pattern.ne_nil
        have hd := isBlank_eq_false (not_blank_of_spelled hq)
        cases words <;> simpa [List.intercalate_cons_cons] using hd
      obtain ⟨ht, hdrop⟩ := takeWhile_span isBlank (l := []) (by simp) hrun
      rw [List.nil_append] at ht hdrop
      rw [List.map_cons, List.map_cons, List.intercalate_cons_cons, ← List.map_cons,
        List.append_assoc, List.cons_append, cutAll_cons, List.singleton_append,
        cut_spelled_blank hp, cutAll_cons, cut_blank (.inl rfl), ht, hdrop, ih hwords]
      simp

theorem complaint?_spaced {segment : Segment} {words : List (TokenKind × List Char)} (line : Nat)
    (h : segment ∈ (words.map fun p => token p.1 p.2).intersperse (.blank [' '])) :
    complaint? (segment, line) = none := by
  induction words with
  | nil => simp at h
  | cons p words ih =>
    cases words with
    | nil =>
      cases List.mem_singleton.mp h
      rfl
    | cons q words =>
      rw [List.map_cons, List.map_cons, List.intersperse_cons_cons] at h
      rcases List.mem_cons.mp h with rfl | h
      · rfl
      rcases List.mem_cons.mp h with rfl | h
      · rfl
      · exact ih h

theorem lexemes_spaced {words : List (TokenKind × List Char)} (h : ∀ p ∈ words, Spelled p.1 p.2) :
    lexemes ([' '].intercalate (words.map Prod.snd)) = words := by
  rw [lexemes, cutAll_spaced words h]
  clear h
  induction words with
  | nil => rfl
  | cons p words ih =>
    cases words with
    | nil => rfl
    | cons q words => exact congrArg (p :: ·) ih

end Segment

theorem scan_contents (source : String) :
    (scan source).tokens.map Token.content =
      ((Segment.lexemes source.toList).map fun p => (Token.make p.1 (.ofList p.2) 0).content) ++
        [(.eof, "", none)] := by
  rw [scan_tokens, List.map_append, Segment.content_of_ends]
  rfl

theorem scan_lexemes (source : String) :
    ((scan source).tokens.filter fun t => t.kind != .eof).map Token.lexeme =
      (Segment.lexemes source.toList).map fun p => String.ofList p.2 := by
  have hcontents : ((scan source).tokens.filter fun t => t.kind != .eof).map Token.lexeme =
      (((scan source).tokens.map Token.content).filter fun x => x.1 != .eof).map
        fun x => x.2.1 := by
    rw [List.filter_map, List.map_map]
    rfl
  have hkept : ∀ x ∈ (Segment.lexemes source.toList).map fun p =>
      (Token.make p.1 (.ofList p.2) 0).content, (x.1 != TokenKind.eof) = true := by
    intro x hx
    obtain ⟨p, hp, rfl⟩ := List.mem_map.mp hx
    exact bne_iff_ne.mpr (Segment.spelled_of_mem_lexemes _ p hp).pattern.ne_eof
  rw [hcontents, scan_contents, List.filter_append, List.filter_eq_self.mpr hkept, List.map_append,
    List.map_map]
  exact List.append_nil _

/-- Every token in front of the end of input is spelled by its lexeme. -/
theorem spelled_of_scan {source : String} {t : Token} (ht : t ∈ (scan source).tokens)
    (hk : t.kind ≠ .eof) : ∃ lexeme, Spelled t.kind lexeme ∧ t.lexeme = .ofList lexeme := by
  have hc := List.mem_map_of_mem (f := Token.content) ht
  rw [scan_contents] at hc
  rcases List.mem_append.mp hc with hc | hc
  · obtain ⟨⟨kind, lexeme⟩, hp, he⟩ := List.mem_map.mp hc
    have hspelled := Segment.spelled_of_mem_lexemes _ _ hp
    obtain ⟨rfl, hrest⟩ := Prod.mk.inj he
    exact ⟨lexeme, hspelled, (Prod.mk.inj hrest).1.symm⟩
  · cases hk (Prod.mk.inj (List.mem_singleton.mp hc)).1

theorem stripQuotes_quoted {body : List Char} (h : '"' ∉ body) :
    Token.stripQuotes ('"' :: body ++ ['"']) = body := by
  have hne : ∀ d ∈ body, (d == '"') = false :=
    fun d hd => beq_false_of_ne (ne_of_mem_of_not_mem hd h)
  cases body with
  | nil => rfl
  | cons b body =>
    have hb := hne b List.mem_cons_self
    have hfront : ('"' :: (b :: body) ++ ['"']).dropWhile (· == '"') = (b :: body) ++ ['"'] := by
      simp [hb]
    have hback : (['"'] ++ (b :: body).reverse).dropWhile (· == '"') = (b :: body).reverse :=
      (Segment.takeWhile_span _ (by simp) fun d hd =>
        hne d (List.mem_reverse.mp (List.mem_of_mem_head? hd))).2
    rw [Token.stripQuotes, hfront, List.reverse_append, List.reverse_singleton, hback,
      List.reverse_reverse]

theorem isSome_readBits? {ds : List Char} (h : Lexeme .number ds) :
    (Decimal.readBits? ds).isSome := by
  cases h with
  | symbol h | keyword h => cases h
  | whole hne hds =>
    have hall : ∀ d ∈ ds, d.isDigit = true := fun d hd => Segment.isDigit_iff.mpr (hds d hd)
    simp [Decimal.readBits?, Decimal.readExponent?, List.takeWhile_eq_self_iff.mpr hall,
      List.dropWhile_eq_nil_iff.mpr hall, hne]
  | @fraction ds es hne hds _ hes =>
    have hall : ∀ d ∈ es, d.isDigit = true := fun d hd => Segment.isDigit_iff.mpr (hes d hd)
    have hspan : (ds ++ '.' :: es).takeWhile Char.isDigit = ds ∧
        (ds ++ '.' :: es).dropWhile Char.isDigit = '.' :: es :=
      Segment.takeWhile_span _ (fun d hd => Segment.isDigit_iff.mpr (hds d hd)) (by simp)
    simp [Decimal.readBits?, Decimal.readExponent?, hspan, List.takeWhile_eq_self_iff.mpr hall,
      List.dropWhile_eq_nil_iff.mpr hall, hne]

theorem digit_of_number {d : Char} {ds : List Char} (h : Lexeme .number (d :: ds)) : Digit d := by
  cases h.view with
  | word _ _ hk =>
    rcases hk with hk | ⟨text, hk, -⟩ <;> cases hk
  | whole _ hd | fraction _ hd => exact hd
  | string hk | comment hk | newLine hk => cases hk
  | symbol hk =>
    obtain ⟨-, text, ht, -⟩ := Segment.symbolKind?_plain hk
    cases ht
  | pair hk =>
    obtain ⟨-, -, -, text, ht, -⟩ := Segment.withEqualKind?_plain hk
    cases ht

/-- What the pattern of numbers matches can be read as a number. -/
theorem isSome_readNumber? {ds : List Char} (h : Lexeme .number ds) : (readNumber? ds).isSome := by
  have hbits := isSome_readBits? h
  unfold readNumber?
  split
  next r _ _ he =>
    split at he
    · exact absurd (digit_of_number h) (by decide)
    · exact absurd (digit_of_number h) (by decide)
    · cases he
      rw [Option.isSome_map]
      split
      · rfl
      split
      · rfl
      · exact hbits

/-- A string stands for the text between its quotes. -/
theorem literal_of_string {lexeme : List Char} (h : Lexeme .string lexeme) :
    ∃ text, Token.literalOf .string (.ofList lexeme) = some (.text text) ∧
      String.ofList lexeme = "\"" ++ text ++ "\"" := by
  cases h with
  | symbol h | keyword h => cases h
  | @string body hb =>
    refine ⟨.ofList body, ?_, ?_⟩
    · rw [Token.literalOf, String.toList_ofList, stripQuotes_quoted hb]
    · rw [← String.toList_inj]
      simp

theorem literal_of_number {lexeme : List Char} (h : Lexeme .number lexeme) :
    ∃ x, Token.literalOf .number (.ofList lexeme) = some (.number x) := by
  obtain ⟨x, hx⟩ := Option.isSome_iff_exists.mp (isSome_readNumber? h)
  refine ⟨x, ?_⟩
  rw [Token.literalOf, String.toList_ofList, hx]
  rfl

/-- No token that is read as a constant is without one. -/
theorem literal_of_constant {kind : TokenKind} {lexeme : List Char} (h : Lexeme kind lexeme)
    (hk : kind ∈ Grammar.constants) :
    ∃ value, Token.literalOf kind (.ofList lexeme) = some value := by
  simp only [Grammar.constants, List.mem_cons, List.not_mem_nil, or_false] at hk
  rcases hk with rfl | rfl | rfl | rfl | rfl
  · obtain ⟨x, hx⟩ := literal_of_number h
    exact ⟨_, hx⟩
  · obtain ⟨text, hx, -⟩ := literal_of_string h
    exact ⟨_, hx⟩
  · exact ⟨_, rfl⟩
  · exact ⟨_, rfl⟩
  · exact ⟨_, rfl⟩

/-- The lexemes of a source, one blank between two, are scanned as tokens of the same kinds, lexemes
and constants. A string is its lexeme without the two delimiters, and every token that is read as a
constant has one. -/
theorem scan_spaced (source : String) :
    (scan (scan source).spaced).errors = [] ∧
      (scan (scan source).spaced).tokens.map Token.content =
        (scan source).tokens.map Token.content ∧
      ∀ t ∈ (scan source).tokens,
        (t.kind = .string →
          ∃ text, t.literal = some (.text text) ∧ t.lexeme = "\"" ++ text ++ "\"") ∧
        (t.kind = .number → ∃ x, t.literal = some (.number x)) ∧
        (t.kind ∈ Grammar.constants →
          ∃ value, t.literal = some value ∧ ∀ (b : Builder) (use : Use) (pending : List Pending),
            b.atOperand use pending t =
              (b.checkArguments pending t).moveTo (.operator use pending (.literal value))) := by
  have hspelled := Segment.spelled_of_mem_lexemes source.toList
  have hspaced : (scan source).spaced.toList =
      [' '].intercalate ((Segment.lexemes source.toList).map Prod.snd) := by
    rw [Scanned.spaced, String.toList_intercalate, scan_lexemes, List.map_map]
    simp [Function.comp_def]
  refine ⟨?_, ?_, ?_⟩
  · rw [scan_errors, hspaced, Segment.cutAll_spaced _ hspelled, List.filterMap_eq_nil_iff]
    exact fun e he => Segment.complaint?_spaced e.2 (Segment.fst_mem_of_mem_ends he)
  · rw [scan_contents, scan_contents, hspaced, Segment.lexemes_spaced hspelled]
  · intro t ht
    have hliteral := scan_literal source t ht
    refine ⟨fun hk => ?_, fun hk => ?_, fun hk => ?_⟩
    · obtain ⟨lexeme, hs, hl⟩ := spelled_of_scan ht (by simp [hk])
      rw [hk] at hs
      rw [hliteral, hk, hl]
      exact literal_of_string hs.pattern
    · obtain ⟨lexeme, hs, hl⟩ := spelled_of_scan ht (by simp [hk])
      rw [hk] at hs
      rw [hliteral, hk, hl]
      exact literal_of_number hs.pattern
    · have hne : t.kind ≠ .eof := by
        intro he
        simp [he, Grammar.constants] at hk
      obtain ⟨lexeme, hs, hl⟩ := spelled_of_scan ht hne
      obtain ⟨value, hvalue⟩ := literal_of_constant hs.pattern hk
      rw [hl, hvalue] at hliteral
      refine ⟨value, hliteral, fun b use pending => ?_⟩
      rw [Builder.atOperand_constant hk, hliteral, Builder.checkArguments_eq_complain,
        Option.getD_some]

/-- A string with what looks like a comment in it, an empty string, and a comment. -/
example : (scan "a\"//\"\"\"!==//b").tokens.map Token.lexeme =
    ["a", "\"//\"", "\"\"", "!=", "=", ""] := by
  cbv

end ClosureLang
