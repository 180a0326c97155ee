import ClosureLang.Token.Scan
import Mathlib

namespace ClosureLang

/-- `[A-Za-z_]` -/
def NameStart (c : Char) : Prop :=
  ('A' ≤ c ∧ c ≤ 'Z') ∨ ('a' ≤ c ∧ c ≤ 'z') ∨ c = '_'

/-- `[0-9]` -/
def Digit (c : Char) : Prop :=
  '0' ≤ c ∧ c ≤ '9'

/-- `[A-Za-z0-9_]` -/
def NameChar (c : Char) : Prop :=
  NameStart c ∨ Digit c

/-- `[ \t\r\f]` -/
def Blank (c : Char) : Prop :=
  c = ' ' ∨ c = '\t' ∨ c = '\r' ∨ c = '\x0c'

instance (c : Char) : Decidable (NameStart c) := inferInstanceAs (Decidable (_ ∨ _))
instance (c : Char) : Decidable (Digit c) := inferInstanceAs (Decidable (_ ∧ _))
instance (c : Char) : Decidable (NameChar c) := inferInstanceAs (Decidable (_ ∨ _))
instance (c : Char) : Decidable (Blank c) := inferInstanceAs (Decidable (_ ∨ _))

namespace TokenKind

/-- The text of punctuation. -/
def symbol? : TokenKind → Option String
  | .leftParen => some "("
  | .rightParen => some ")"
  | .leftBrace => some "\x7b"
  | .rightBrace => some "\x7d"
  | .comma => some ","
  | .dot => some "."
  | .minus => some "-"
  | .plus => some "+"
  | .semicolon => some ";"
  | .slash => some "/"
  | .star => some "*"
  | .bang => some "!"
  | .bangEqual => some "!="
  | .equal => some "="
  | .equalEqual => some "=="
  | .greater => some ">"
  | .greaterEqual => some ">="
  | .less => some "<"
  | .lessEqual => some "<="
  | _ => none

/-- The text of a keyword. -/
def keyword? : TokenKind → Option String
  | .and => some "and"
  | .else => some "else"
  | .false => some "false"
  | .func => some "func"
  | .for => some "for"
  | .if => some "if"
  | .nil => some "nil"
  | .or => some "or"
  | .output => some "output"
  | .return => some "return"
  | .true => some "true"
  | .create => some "create"
  | .while => some "while"
  | _ => none

end TokenKind

/-- The text matches the pattern of the kind. No text is of the kind `eof`. -/
inductive Lexeme : TokenKind → List Char → Prop where
  | symbol {kind : TokenKind} {text : String} (h : kind.symbol? = some text) :
      Lexeme kind text.toList
  | keyword {kind : TokenKind} {text : String} (h : kind.keyword? = some text) :
      Lexeme kind text.toList
  | identifier {c : Char} {cs : List Char} (hc : NameStart c) (hcs : ∀ d ∈ cs, NameChar d) :
      Lexeme .identifier (c :: cs)
  | whole {ds : List Char} (hne : ds ≠ []) (hds : ∀ d ∈ ds, Digit d) : Lexeme .number ds
  | fraction {ds es : List Char} (hne : ds ≠ []) (hds : ∀ d ∈ ds, Digit d) (hne' : es ≠ [])
      (hes : ∀ d ∈ es, Digit d) : Lexeme .number (ds ++ '.' :: es)
  | string {body : List Char} (h : '"' ∉ body) : Lexeme .string ('"' :: body ++ ['"'])
  | comment {body : List Char} (h : '\n' ∉ body) : Lexeme .comment ('/' :: '/' :: body)
  | newLine : Lexeme .newLine ['\n']

/-- No token at the front of `lexeme ++ rest` is longer than `lexeme`. -/
def Longest (lexeme rest : List Char) : Prop :=
  ∀ (kind : TokenKind) (l : List Char), Lexeme kind l → l <+: lexeme ++ rest →
    l.length ≤ lexeme.length

/-- The first segment of a text, and the text behind it. -/
inductive FirstSegment : List Char → Segment → List Char → Prop where
  | token {kind : TokenKind} {lexeme rest : List Char} (hl : Lexeme kind lexeme)
      (hk : kind ≠ .comment ∧ kind ≠ .newLine) (longest : Longest lexeme rest)
      (word : kind = .identifier → ∀ (other : TokenKind) (text : String),
        other.keyword? = some text → lexeme ≠ text.toList) :
      FirstSegment (lexeme ++ rest) (.token kind lexeme) rest
  | blank {run rest : List Char} (hne : run ≠ []) (hb : ∀ c ∈ run, Blank c)
      (hr : ∀ c ∈ rest.head?, ¬ Blank c) : FirstSegment (run ++ rest) (.blank run) rest
  | lineBreak {rest : List Char} : FirstSegment ('\n' :: rest) .lineBreak rest
  | comment {body rest : List Char} (hb : '\n' ∉ body) (hr : ∀ c ∈ rest.head?, c = '\n') :
      FirstSegment ('/' :: '/' :: body ++ rest) (.comment ('/' :: '/' :: body)) rest
  | unexpected {c : Char} {rest : List Char} (hb : ¬ Blank c)
      (h : ∀ (kind : TokenKind) (l : List Char), ¬ Lexeme kind (c :: l)) :
      FirstSegment (c :: rest) (.unexpected c) rest
  /-- Nothing is behind it, so it is the last segment of its text. -/
  | unterminated {body : List Char} (h : '"' ∉ body) :
      FirstSegment ('"' :: body) (.unterminated ('"' :: body)) []

/-- The text is cut into the segments, one behind the other. -/
inductive Segmented : List Char → List Segment → Prop where
  | nil : Segmented [] []
  | cons {cs rest : List Char} {segment : Segment} {segments : List Segment}
      (h : FirstSegment cs segment rest) (hs : Segmented rest segments) :
      Segmented cs (segment :: segments)

namespace Segment

theorem isBlank_iff {c : Char} : isBlank c = true ↔ Blank c := by
  simp [isBlank, Blank, or_assoc]

theorem isDigit_iff {c : Char} : c.isDigit = true ↔ Digit c := by
  simp [Char.isDigit, Digit, Char.le_def]

theorem isNameStart_iff {c : Char} : isNameStart c = true ↔ NameStart c := by
  simp [isNameStart, NameStart, Char.isAlpha, Char.isUpper, Char.isLower, Char.le_def, or_assoc]

theorem isNameChar_iff {c : Char} : isNameChar c = true ↔ NameChar c := by
  rw [NameChar, ← isNameStart_iff, ← isDigit_iff]
  simp only [isNameChar, isNameStart, Char.isAlphanum, Bool.or_eq_true]
  tauto

end Segment

/-- A character that starts no word, number or string, and no line. -/
structure Plain (c : Char) : Prop where
  name : ¬ NameStart c
  digit : ¬ Digit c
  blank : ¬ Blank c
  quote : c ≠ '"'
  newLine : c ≠ '\n'

instance (c : Char) : Decidable (Plain c) :=
  decidable_of_iff (¬ NameStart c ∧ ¬ Digit c ∧ ¬ Blank c ∧ c ≠ '"' ∧ c ≠ '\n')
    ⟨fun ⟨a, b, d, e, f⟩ => ⟨a, b, d, e, f⟩, fun ⟨a, b, d, e, f⟩ => ⟨a, b, d, e, f⟩⟩

theorem NameStart.not_digit {c : Char} (h : NameStart c) : ¬ Digit c := by
  rintro ⟨h0, h9⟩
  rcases h with ⟨hA, -⟩ | ⟨ha, -⟩ | rfl
  · exact absurd (hA.trans h9) (by decide)
  · exact absurd (ha.trans h9) (by decide)
  · exact absurd h9 (by decide)

theorem Blank.not_name {c : Char} (h : Blank c) : ¬ NameStart c := by
  rcases h with rfl | rfl | rfl | rfl <;> decide

theorem Blank.not_digit {c : Char} (h : Blank c) : ¬ Digit c := by
  rcases h with rfl | rfl | rfl | rfl <;> decide

namespace Segment

theorem symbolKind?_plain {c : Char} {kind : TokenKind} (h : symbolKind? c = some kind) :
    Plain c ∧ ∃ text, kind.symbol? = some text ∧ text.toList = [c] := by
  unfold symbolKind? at h
  split at h <;> cases h <;> exact ⟨by decide, _, rfl, rfl⟩

theorem withEqualKind?_plain {c : Char} {kind : TokenKind} (h : withEqualKind? c = some kind) :
    Plain c ∧ c ≠ '/' ∧ (symbolKind? c).isSome ∧
      ∃ text, kind.symbol? = some text ∧ text.toList = [c, '='] := by
  unfold withEqualKind? at h
  split at h <;> cases h <;> exact ⟨by decide, by decide, rfl, _, rfl, rfl⟩

/-- A word is a keyword exactly if all of it is one, and else an identifier. -/
theorem wordKind_cases (word : List Char) :
    (∃ text, (wordKind word).keyword? = some text ∧ word = text.toList) ∨
      (wordKind word = .identifier ∧ ∀ (kind : TokenKind) (text : String),
        kind.keyword? = some text → word ≠ text.toList) := by
  have hlist : ∀ {text : String}, String.ofList word = text → word = text.toList := by
    intro text h
    rw [← h, String.toList_ofList]
  unfold wordKind
  split
  case h_14 =>
    refine .inr ⟨rfl, ?_⟩
    intro kind text hk he
    have hw : String.ofList word = text := by rw [he, String.ofList_toList]
    cases kind <;> cases hk <;> contradiction
  all_goals
    rename_i h
    exact .inl ⟨_, rfl, hlist h⟩

theorem wordKind_of_keyword {kind : TokenKind} {text : String} (h : kind.keyword? = some text) :
    wordKind text.toList = kind := by
  cases kind <;> cases h <;> rfl

end Segment

/-- What stands behind the first character of a lexeme. -/
inductive Lexeme.View (kind : TokenKind) (c : Char) (l : List Char) : Prop where
  | word (hc : NameStart c) (hl : ∀ d ∈ l, NameChar d)
      (hk : kind = .identifier ∨ ∃ text, kind.keyword? = some text ∧ c :: l = text.toList)
  | whole (hk : kind = .number) (hc : Digit c) (hl : ∀ d ∈ l, Digit d)
  | fraction {ds es : List Char} (hk : kind = .number) (hc : Digit c) (hds : ∀ d ∈ ds, Digit d)
      (hne : es ≠ []) (hes : ∀ d ∈ es, Digit d) (hl : l = ds ++ '.' :: es)
  | string {body : List Char} (hk : kind = .string) (hc : c = '"') (hb : '"' ∉ body)
      (hl : l = body ++ ['"'])
  | comment {body : List Char} (hk : kind = .comment) (hc : c = '/') (hb : '\n' ∉ body)
      (hl : l = '/' :: body)
  | newLine (hk : kind = .newLine) (hc : c = '\n') (hl : l = [])
  | symbol (hk : Segment.symbolKind? c = some kind) (hl : l = [])
  | pair (hk : Segment.withEqualKind? c = some kind) (hl : l = ['='])

namespace TokenKind

theorem keyword?_shape {kind : TokenKind} {text : String} {c : Char} {l : List Char}
    (h : kind.keyword? = some text) (he : text.toList = c :: l) :
    NameStart c ∧ ∀ d ∈ l, NameChar d := by
  have hall : Segment.isNameStart c ∧ l.all Segment.isNameChar := by
    cases kind <;> cases h <;> cases he <;> exact ⟨rfl, rfl⟩
  refine ⟨Segment.isNameStart_iff.mp hall.1, fun d hd => ?_⟩
  exact Segment.isNameChar_iff.mp (List.all_eq_true.mp hall.2 d hd)

theorem symbol?_shape {kind : TokenKind} {text : String} {c : Char} {l : List Char}
    (h : kind.symbol? = some text) (he : text.toList = c :: l) :
    (Segment.symbolKind? c = some kind ∧ l = []) ∨
      (Segment.withEqualKind? c = some kind ∧ l = ['=']) := by
  cases kind <;> cases h <;> cases he <;> decide

end TokenKind

theorem Lexeme.view {kind : TokenKind} {c : Char} {l : List Char} (h : Lexeme kind (c :: l)) :
    Lexeme.View kind c l := by
  generalize he : c :: l = text at h
  cases h with
  | symbol h =>
    rcases TokenKind.symbol?_shape h he.symm with ⟨hk, hl⟩ | ⟨hk, hl⟩
    · exact .symbol hk hl
    · exact .pair hk hl
  | keyword h =>
    obtain ⟨hc, hl⟩ := TokenKind.keyword?_shape h he.symm
    exact .word hc hl (.inr ⟨_, h, he⟩)
  | identifier hc hcs =>
    cases he
    exact .word hc hcs (.inl rfl)
  | whole hne hds =>
    subst he
    exact .whole rfl (hds c (List.mem_cons_self ..)) fun d hd => hds d (List.mem_cons_of_mem _ hd)
  | @fraction ds es hne hds hne' hes =>
    cases ds with
    | nil => exact absurd rfl hne
    | cons first ds =>
      cases he
      exact .fraction rfl (hds c (List.mem_cons_self ..))
        (fun d hd => hds d (List.mem_cons_of_mem _ hd)) hne' hes rfl
  | string h =>
    cases he
    exact .string rfl rfl h rfl
  | comment h =>
    cases he
    exact .comment rfl rfl h rfl
  | newLine =>
    cases he
    exact .newLine rfl rfl rfl

theorem Lexeme.ne_nil {kind : TokenKind} {l : List Char} (h : Lexeme kind l) : l ≠ [] := by
  cases h with
  | symbol h => cases kind <;> cases h <;> decide
  | keyword h => cases kind <;> cases h <;> decide
  | whole hne => exact hne
  | identifier | fraction | string | comment | newLine => simp

theorem Longest.not_lexeme {lexeme rest extra : List Char} {kind : TokenKind}
    (h : Longest lexeme rest) (hne : extra ≠ []) (hp : extra <+: rest) :
    ¬ Lexeme kind (lexeme ++ extra) := by
  intro hl
  have hle := h kind _ hl ((List.prefix_append_right_inj lexeme).mpr hp)
  have hpos := List.length_pos_iff.mpr hne
  rw [List.length_append] at hle
  omega

section Starts

variable {kind : TokenKind} {c : Char} {l : List Char}

theorem Lexeme.of_nameStart (hc : NameStart c) (h : Lexeme kind (c :: l)) :
    ∀ d ∈ l, NameChar d := by
  cases h.view with
  | word _ hl => exact hl
  | whole _ hd => exact absurd hd hc.not_digit
  | fraction _ hd => exact absurd hd hc.not_digit
  | string _ he | comment _ he | newLine _ he =>
    subst he
    exact absurd hc (by decide)
  | symbol hk => exact absurd hc (Segment.symbolKind?_plain hk).1.name
  | pair hk => exact absurd hc (Segment.withEqualKind?_plain hk).1.name

/-- A lexeme that starts with a digit is a number, with a fraction or without one. -/
theorem Lexeme.of_digit (hc : Digit c) (h : Lexeme kind (c :: l)) :
    (∀ d ∈ l, Digit d) ∨
      ∃ ds es, l = ds ++ '.' :: es ∧ (∀ d ∈ ds, Digit d) ∧ es ≠ [] ∧ ∀ d ∈ es, Digit d := by
  cases h.view with
  | word hs => exact absurd hc hs.not_digit
  | whole _ _ hl => exact .inl hl
  | fraction _ _ hds hne hes hl => exact .inr ⟨_, _, hl, hds, hne, hes⟩
  | string _ he | comment _ he | newLine _ he =>
    subst he
    exact absurd hc (by decide)
  | symbol hk => exact absurd hc (Segment.symbolKind?_plain hk).1.digit
  | pair hk => exact absurd hc (Segment.withEqualKind?_plain hk).1.digit

/-- A lexeme that starts with a quote ends with the next one. -/
theorem Lexeme.of_quote (h : Lexeme kind ('"' :: l)) : ∃ body, '"' ∉ body ∧ l = body ++ ['"'] := by
  cases h.view with
  | word hs => exact absurd hs (by decide)
  | whole _ hd => exact absurd hd (by decide)
  | fraction _ hd => exact absurd hd (by decide)
  | string _ _ hb hl => exact ⟨_, hb, hl⟩
  | comment _ he | newLine _ he => exact absurd he (by decide)
  | symbol hk => exact absurd rfl (Segment.symbolKind?_plain hk).1.quote
  | pair hk => exact absurd rfl (Segment.withEqualKind?_plain hk).1.quote

theorem Lexeme.of_plain (hc : Plain c) (h : Lexeme kind (c :: l)) :
    (Segment.symbolKind? c = some kind ∧ l = []) ∨
      (Segment.withEqualKind? c = some kind ∧ l = ['=']) ∨
      (c = '/' ∧ l.head? = some '/') := by
  cases h.view with
  | word hs => exact absurd hs hc.name
  | whole _ hd => exact absurd hd hc.digit
  | fraction _ hd => exact absurd hd hc.digit
  | string _ he => exact absurd he hc.quote
  | comment _ he _ hl =>
    subst hl
    exact .inr (.inr ⟨he, rfl⟩)
  | newLine _ he => exact absurd he hc.newLine
  | symbol hk hl => exact .inl ⟨hk, hl⟩
  | pair hk hl => exact .inr (.inl ⟨hk, hl⟩)

end Starts

end ClosureLang
