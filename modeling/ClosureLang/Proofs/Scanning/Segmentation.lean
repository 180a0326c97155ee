import ClosureLang.Proofs.Scanning.Patterns

namespace ClosureLang

namespace Segment

theorem length_le_takeWhile (p : Char → Bool) {l cs : List Char} (hl : l <+: cs)
    (hp : ∀ d ∈ l, p d = true) : l.length ≤ (cs.takeWhile p).length := by
  obtain ⟨rest, rfl⟩ := hl
  rw [List.takeWhile_append_of_pos hp, List.length_append]
  omega

theorem takeWhile_span (p : Char → Bool) {l rest : List Char} (hp : ∀ d ∈ l, p d = true)
    (hr : ∀ d ∈ rest.head?, p d = false) :
    (l ++ rest).takeWhile p = l ∧ (l ++ rest).dropWhile p = rest := by
  rw [List.takeWhile_append_of_pos hp, List.dropWhile_append_of_pos hp]
  cases rest with
  | nil => simp
  | cons d rest =>
    have hd := hr d rfl
    simp [hd]

theorem head_dropWhile (p : Char → Bool) (cs : List Char) {d : Char}
    (hd : d ∈ (cs.dropWhile p).head?) : p d = false := by
  have h := List.head?_dropWhile_not p cs
  rw [Option.mem_def.mp hd] at h
  exact h

section Cut

variable {c : Char} {cs : List Char}

theorem cut_blank (h : Blank c) :
    cut c cs = (.blank (c :: cs.takeWhile isBlank), cs.dropWhile isBlank) := by
  simp [cut, isBlank_iff.mpr h]

theorem isBlank_eq_false (h : ¬ Blank c) : isBlank c = false := by
  rw [Bool.eq_false_iff, ne_eq, isBlank_iff]
  exact h

theorem isNameStart_eq_false (h : ¬ NameStart c) : isNameStart c = false := by
  rw [Bool.eq_false_iff, ne_eq, isNameStart_iff]
  exact h

theorem isDigit_eq_false (h : ¬ Digit c) : c.isDigit = false := by
  rw [Bool.eq_false_iff, ne_eq, isDigit_iff]
  exact h

theorem cut_lineBreak : cut '\n' cs = (.lineBreak, cs) := by
  simp [cut, isBlank_eq_false (c := '\n') (by decide)]

theorem cut_word (h : NameStart c) :
    cut c cs = (.token (wordKind (c :: cs.takeWhile isNameChar)) (c :: cs.takeWhile isNameChar),
      cs.dropWhile isNameChar) := by
  have hb : isBlank c = false := isBlank_eq_false fun hb => hb.not_name h
  have hn : c ≠ '\n' := by
    rintro rfl
    exact absurd h (by decide)
  simp [cut, hb, hn, isNameStart_iff.mpr h]

theorem cut_digit (h : Digit c) : cut c cs = cutNumber c cs := by
  have hb : isBlank c = false := isBlank_eq_false fun hb => hb.not_digit h
  have hs : isNameStart c = false := isNameStart_eq_false fun hs => hs.not_digit h
  have hn : c ≠ '\n' := by
    rintro rfl
    exact absurd h (by decide)
  simp [cut, hb, hn, hs, isDigit_iff.mpr h]

theorem cut_quote : cut '"' cs = cutString cs := by
  simp [cut, isBlank_eq_false (c := '"') (by decide),
    isNameStart_eq_false (c := '"') (by decide), isDigit_eq_false (c := '"') (by decide)]

theorem cut_comment : cut '/' ('/' :: cs) =
    (.comment ('/' :: '/' :: cs.takeWhile (· != '\n')), cs.dropWhile (· != '\n')) := by
  simp [cut, isBlank_eq_false (c := '/') (by decide),
    isNameStart_eq_false (c := '/') (by decide), isDigit_eq_false (c := '/') (by decide)]

theorem cut_plain (h : Plain c) (hc : ¬ (c = '/' ∧ cs.head? = some '/')) :
    cut c cs = cutSymbol c cs := by
  simp [cut, isBlank_eq_false h.blank, h.newLine, isNameStart_eq_false h.name,
    isDigit_eq_false h.digit, h.quote, hc]

theorem cutSymbol_pair {kind : TokenKind} (h : withEqualKind? c = some kind) :
    cutSymbol c ('=' :: cs) = (.token kind [c, '='], cs) := by
  simp [cutSymbol, h]

theorem cutSymbol_single (h : withEqualKind? c = none ∨ cs.head? ≠ some '=') :
    cutSymbol c cs = match symbolKind? c with
      | some kind => (.token kind [c], cs)
      | none => (.unexpected c, cs) := by
  unfold cutSymbol
  split
  next kind r hk =>
    rcases h with h | h
    · simp [h] at hk
    · simp at h
  next => rfl

/-- A digit stands behind the point that follows the digits. -/
theorem cutNumber_fraction {d : Char} {es : List Char}
    (h : cs.dropWhile Char.isDigit = '.' :: d :: es) (hd : Digit d) :
    cutNumber c cs =
      (.token .number (c :: cs.takeWhile Char.isDigit ++ '.' :: d :: es.takeWhile Char.isDigit),
        es.dropWhile Char.isDigit) := by
  unfold cutNumber
  simp [h, isDigit_iff.mpr hd]

/-- No point with a digit behind it follows the digits. -/
theorem cutNumber_whole (h : ∀ d es, cs.dropWhile Char.isDigit = '.' :: d :: es → ¬ Digit d) :
    cutNumber c cs = (.token .number (c :: cs.takeWhile Char.isDigit),
      cs.dropWhile Char.isDigit) := by
  unfold cutNumber
  dsimp only
  split
  next d es he =>
    rw [if_neg, he]
    rw [isDigit_iff]
    exact h d es he
  next => rfl

theorem bne_of_not_mem {quote : Char} {body : List Char} (h : quote ∉ body) :
    ∀ d ∈ body, (d != quote) = true := by
  intro d hd
  rw [bne_iff_ne]
  rintro rfl
  exact h hd

theorem cutString_closed {body rest : List Char} (h : '"' ∉ body) :
    cutString (body ++ '"' :: rest) = (.token .string ('"' :: body ++ ['"']), rest) := by
  have hspan := takeWhile_span (· != '"') (bne_of_not_mem h)
    (by simp : ∀ x ∈ ('"' :: rest).head?, (x != '"') = false)
  unfold cutString
  simp [hspan]

theorem cutString_open {body : List Char} (h : '"' ∉ body) :
    cutString body = (.unterminated ('"' :: body), []) := by
  have hspan := takeWhile_span (· != '"') (bne_of_not_mem h)
    (by simp : ∀ x ∈ [].head?, (x != '"') = false)
  rw [List.append_nil] at hspan
  unfold cutString
  simp [hspan]

end Cut

section First

variable {c : Char} {cs : List Char}

theorem cons_span (p : Char → Bool) (c : Char) (cs : List Char) :
    (c :: cs.takeWhile p) ++ cs.dropWhile p = c :: cs := by
  rw [List.cons_append, List.takeWhile_append_dropWhile]

theorem span_of_head {P : Char → Prop} (p : Char → Bool) (cs : List Char)
    (hp : ∀ {d}, p d = true ↔ P d) (hc : P c) : ∀ d ∈ c :: cs.takeWhile p, P d := by
  intro d hd
  rcases List.mem_cons.mp hd with rfl | hd
  · exact hc
  · exact hp.mp (List.mem_takeWhile_imp hd)

theorem lexeme_word (h : NameStart c) :
    Lexeme (wordKind (c :: cs.takeWhile isNameChar)) (c :: cs.takeWhile isNameChar) := by
  rcases wordKind_cases (c :: cs.takeWhile isNameChar) with ⟨text, hk, he⟩ | ⟨hk, -⟩
  · have hl := Lexeme.keyword hk
    rwa [← he] at hl
  · rw [hk]
    exact .identifier h fun d hd => isNameChar_iff.mp (List.mem_takeWhile_imp hd)

-- every token at the front of the text starts with its first character
theorem longest_of_tail {lexeme rest : List Char} (ht : lexeme ++ rest = c :: cs)
    (h : ∀ (kind : TokenKind) (l : List Char), Lexeme kind (c :: l) → l <+: cs →
      l.length + 1 ≤ lexeme.length) : Longest lexeme rest := by
  intro kind l hl hp
  cases l with
  | nil => exact absurd rfl hl.ne_nil
  | cons d l =>
    rw [ht] at hp
    obtain ⟨rfl, htail⟩ := List.cons_prefix_cons.mp hp
    exact h kind l hl htail

theorem wordKind_ne (word : List Char) : wordKind word ≠ .comment ∧ wordKind word ≠ .newLine := by
  unfold wordKind
  split <;> decide

theorem ne_keyword_of_wordKind {word : List Char} (h : wordKind word = .identifier)
    (kind : TokenKind) (text : String) (hk : kind.keyword? = some text) : word ≠ text.toList := by
  rintro rfl
  rw [wordKind_of_keyword hk] at h
  subst h
  cases hk

theorem first_word (h : NameStart c) : FirstSegment (c :: cs) (cut c cs).1 (cut c cs).2 := by
  rw [cut_word h]
  have ht := cons_span isNameChar c cs
  have hlong := longest_of_tail ht fun kind l hl hp => by
    have hchars := hl.of_nameStart h
    have hle := length_le_takeWhile isNameChar hp fun d hd => isNameChar_iff.mpr (hchars d hd)
    rw [List.length_cons]
    omega
  have hfirst := FirstSegment.token (lexeme_word h) (wordKind_ne _) hlong ne_keyword_of_wordKind
  rwa [ht] at hfirst

theorem first_blank (h : Blank c) : FirstSegment (c :: cs) (cut c cs).1 (cut c cs).2 := by
  rw [cut_blank h]
  have hrest : ∀ d ∈ (cs.dropWhile isBlank).head?, ¬ Blank d := by
    intro d hd hb
    have hf := head_dropWhile isBlank cs hd
    rw [isBlank_iff.mpr hb] at hf
    cases hf
  have hrun := span_of_head isBlank cs isBlank_iff h
  have hfirst := FirstSegment.blank (List.cons_ne_nil _ _) hrun hrest
  rwa [cons_span] at hfirst

theorem first_comment : FirstSegment ('/' :: '/' :: cs) (cut '/' ('/' :: cs)).1
    (cut '/' ('/' :: cs)).2 := by
  rw [cut_comment]
  have hbody : '\n' ∉ cs.takeWhile (· != '\n') := by
    intro hm
    have hne := List.mem_takeWhile_imp hm
    simp at hne
  have hrest : ∀ d ∈ (cs.dropWhile (· != '\n')).head?, d = '\n' := by
    intro d hd
    have hf := head_dropWhile (· != '\n') cs hd
    simpa using hf
  have hfirst := FirstSegment.comment hbody hrest
  rwa [List.cons_append, cons_span] at hfirst

theorem fraction_span {ds es : List Char} (hp : ds ++ '.' :: es <+: cs)
    (hds : ∀ d ∈ ds, Digit d) :
    cs.takeWhile Char.isDigit = ds ∧ '.' :: es <+: cs.dropWhile Char.isDigit := by
  obtain ⟨rest, rfl⟩ := hp
  have hspan := takeWhile_span Char.isDigit (fun d hd => isDigit_iff.mpr (hds d hd))
    (by simp : ∀ d ∈ ('.' :: es ++ rest).head?, d.isDigit = false)
  rw [List.append_assoc]
  exact ⟨hspan.1, rest, hspan.2.symm⟩

/-- A number without a fraction ends in front of a point that no digit follows. -/
theorem first_whole (h : Digit c)
    (hw : ∀ d es, cs.dropWhile Char.isDigit = '.' :: d :: es → ¬ Digit d) :
    FirstSegment (c :: cs) (cutNumber c cs).1 (cutNumber c cs).2 := by
  rw [cutNumber_whole hw]
  have ht := cons_span Char.isDigit c cs
  have hlong := longest_of_tail ht fun kind l hl hp => by
    rcases hl.of_digit h with hd | ⟨ds, es, rfl, hds, hne, hes⟩
    · have hle := length_le_takeWhile Char.isDigit hp fun d hd' => isDigit_iff.mpr (hd d hd')
      rw [List.length_cons]
      omega
    · obtain ⟨e, es, rfl⟩ := List.exists_cons_of_ne_nil hne
      obtain ⟨rest, hrest⟩ := (fraction_span hp hds).2
      exact absurd (hes e (List.mem_cons_self ..)) (hw e _ hrest.symm)
  have hl := Lexeme.whole (List.cons_ne_nil _ _) (span_of_head Char.isDigit cs isDigit_iff h)
  have hfirst := FirstSegment.token hl (by decide) hlong (by simp)
  rwa [ht] at hfirst

theorem first_fraction {d : Char} {es : List Char} (h : Digit c)
    (he : cs.dropWhile Char.isDigit = '.' :: d :: es) (hd : Digit d) :
    FirstSegment (c :: cs) (cutNumber c cs).1 (cutNumber c cs).2 := by
  rw [cutNumber_fraction he hd]
  have ht : (c :: cs.takeWhile Char.isDigit ++ '.' :: d :: es.takeWhile Char.isDigit) ++
      es.dropWhile Char.isDigit = c :: cs := by
    have hspan := cons_span Char.isDigit c cs
    rw [he, ← cons_span Char.isDigit d es] at hspan
    rw [← hspan]
    simp
  have hlong := longest_of_tail ht fun kind l hl hp => by
    rcases hl.of_digit h with hall | ⟨ds, fs, rfl, hds, -, hfs⟩
    · have hle := length_le_takeWhile Char.isDigit hp fun x hx => isDigit_iff.mpr (hall x hx)
      simp only [List.length_append, List.length_cons]
      omega
    · obtain ⟨hpart, hrest⟩ := fraction_span hp hds
      rw [he] at hrest
      have hle := length_le_takeWhile Char.isDigit (List.cons_prefix_cons.mp hrest).2
        fun x hx => isDigit_iff.mpr (hfs x hx)
      rw [List.takeWhile_cons_of_pos (isDigit_iff.mpr hd), List.length_cons] at hle
      simp only [List.length_append, List.length_cons, hpart]
      omega
  have hl := Lexeme.fraction (List.cons_ne_nil _ _) (span_of_head Char.isDigit cs isDigit_iff h)
    (List.cons_ne_nil _ _) (span_of_head Char.isDigit es isDigit_iff hd)
  have hfirst := FirstSegment.token hl (by decide) hlong (by simp)
  rwa [ht] at hfirst

theorem first_string : FirstSegment ('"' :: cs) (cutString cs).1 (cutString cs).2 := by
  by_cases hq : '"' ∈ cs
  · obtain ⟨body, rest, rfl, hb⟩ := List.eq_append_cons_of_mem hq
    rw [cutString_closed hb]
    have ht : ('"' :: body ++ ['"']) ++ rest = '"' :: (body ++ '"' :: rest) := by simp
    have hlong := longest_of_tail ht fun kind l hl hp => by
      obtain ⟨other, ho, rfl⟩ := hl.of_quote
      have hle := length_le_takeWhile (· != '"') ((List.prefix_append other ['"']).trans hp)
        (bne_of_not_mem ho)
      -- the other string ends at a quote too, and the first quote is behind `body`
      rw [(takeWhile_span (· != '"') (bne_of_not_mem hb) (by simp)).1] at hle
      simp only [List.length_append, List.length_cons, List.length_nil]
      omega
    have hfirst := FirstSegment.token (.string hb) (by decide) hlong (by simp)
    rwa [ht] at hfirst
  · rw [cutString_open hq]
    exact .unterminated hq

theorem first_of_symbol {kind : TokenKind} {text : String} {rest : List Char}
    (hk : kind.symbol? = some text) (ht : text.toList ++ rest = c :: cs)
    (h : ∀ (kind : TokenKind) (l : List Char), Lexeme kind (c :: l) → l <+: cs →
      l.length + 1 ≤ text.toList.length) :
    FirstSegment (c :: cs) (.token kind text.toList) rest := by
  have hkind : kind ≠ .comment ∧ kind ≠ .newLine := by
    constructor <;> rintro rfl <;> cases hk
  have hword : kind ≠ .identifier := by
    rintro rfl
    cases hk
  have hfirst := FirstSegment.token (.symbol hk) hkind (longest_of_tail ht h)
    (fun hi => absurd hi hword)
  rwa [ht] at hfirst

theorem first_symbol (h : Plain c) (hc : ¬ (c = '/' ∧ cs.head? = some '/')) :
    FirstSegment (c :: cs) (cutSymbol c cs).1 (cutSymbol c cs).2 := by
  by_cases hpair : (∃ kind, withEqualKind? c = some kind) ∧ cs.head? = some '='
  · obtain ⟨⟨kind, hk⟩, heq⟩ := hpair
    obtain ⟨rest, rfl⟩ := List.head?_eq_some_iff.mp heq
    obtain ⟨-, hne, -, text, htext, hchars⟩ := withEqualKind?_plain hk
    rw [cutSymbol_pair hk, ← hchars]
    refine first_of_symbol htext (by rw [hchars]; rfl) fun other l hl hp => ?_
    rw [hchars]
    rcases hl.of_plain h with ⟨-, rfl⟩ | ⟨-, rfl⟩ | ⟨hslash, -⟩
    · simp
    · simp
    · exact absurd hslash hne
  · have hsingle : withEqualKind? c = none ∨ cs.head? ≠ some '=' := by
      rw [← Option.not_isSome_iff_eq_none, Option.isSome_iff_exists]
      tauto
    -- what the text starts with beyond one character would be a pair or a comment
    have hone : ∀ (kind : TokenKind) (l : List Char), Lexeme kind (c :: l) → l <+: cs →
        symbolKind? c = some kind ∧ l = [] := by
      intro kind l hl hp
      rcases hl.of_plain h with hone | ⟨hk, rfl⟩ | ⟨hslash, hhead⟩
      · exact hone
      · obtain ⟨rest, rfl⟩ := hp
        exact absurd ⟨⟨kind, hk⟩, rfl⟩ hpair
      · obtain ⟨rest, rfl⟩ := hp
        exact absurd ⟨hslash, by rw [List.head?_append, hhead, Option.some_or]⟩ hc
    rw [cutSymbol_single hsingle]
    cases hsym : symbolKind? c with
    | some kind =>
      obtain ⟨-, text, htext, hchars⟩ := symbolKind?_plain hsym
      dsimp only
      rw [← hchars]
      refine first_of_symbol htext (by rw [hchars]; rfl) fun other l hl hp => ?_
      obtain ⟨-, rfl⟩ := hone other l hl hp
      simp [hchars]
    | none =>
      refine .unexpected h.blank fun kind l hl => ?_
      rcases hl.of_plain h with ⟨hk, -⟩ | ⟨hk, -⟩ | ⟨rfl, -⟩
      · rw [hsym] at hk
        cases hk
      · obtain ⟨-, -, hsome, -⟩ := withEqualKind?_plain hk
        rw [hsym] at hsome
        cases hsome
      · cases hsym

/-- What is cut off a text is its first segment. -/
theorem first_cut (c : Char) (cs : List Char) :
    FirstSegment (c :: cs) (cut c cs).1 (cut c cs).2 := by
  by_cases hb : Blank c
  · exact first_blank hb
  by_cases hn : c = '\n'
  · subst hn
    rw [cut_lineBreak]
    exact .lineBreak
  by_cases hs : NameStart c
  · exact first_word hs
  by_cases hd : Digit c
  · rw [cut_digit hd]
    by_cases hf : ∃ d es, cs.dropWhile Char.isDigit = '.' :: d :: es ∧ Digit d
    · obtain ⟨d, es, he, hd'⟩ := hf
      exact first_fraction hd he hd'
    · exact first_whole hd fun d es he hd' => hf ⟨d, es, he, hd'⟩
  by_cases hq : c = '"'
  · subst hq
    rw [cut_quote]
    exact first_string
  have hp : Plain c := ⟨hs, hd, hb, hq, hn⟩
  by_cases hc : c = '/' ∧ cs.head? = some '/'
  · obtain ⟨rfl, hh⟩ := hc
    obtain ⟨rest, rfl⟩ := List.head?_eq_some_iff.mp hh
    exact first_comment
  · rw [cut_plain hp hc]
    exact first_symbol hp hc

/-- Behind the longest word or number stands no character that would go on with it. -/
theorem head_of_longest {lexeme rest : List Char} {P : Char → Prop} {p : Char → Bool}
    {kind : TokenKind} (hp : ∀ {d}, p d = true ↔ P d) (h : Longest lexeme rest)
    (hx : ∀ d, P d → Lexeme kind (lexeme ++ [d])) : ∀ d ∈ rest.head?, p d = false := by
  intro d hd
  obtain ⟨tail, rfl⟩ := List.head?_eq_some_iff.mp hd
  rw [Bool.eq_false_iff]
  intro ht
  exact h.not_lexeme (List.cons_ne_nil _ _) (List.prefix_append [d] tail) (hx d (hp.mp ht))

theorem forall_snoc {P : Char → Prop} {l : List Char} {d : Char} (hl : ∀ x ∈ l, P x) (hd : P d) :
    ∀ x ∈ l ++ [d], P x := by
  simpa [or_imp, forall_and] using ⟨hl, hd⟩

theorem cut_of_word {kind : TokenKind} {l rest : List Char} (hc : NameStart c)
    (hl : ∀ d ∈ l, NameChar d)
    (hk : kind = .identifier ∨ ∃ text, kind.keyword? = some text ∧ c :: l = text.toList)
    (longest : Longest (c :: l) rest)
    (word : kind = .identifier → ∀ (other : TokenKind) (text : String),
      other.keyword? = some text → c :: l ≠ text.toList) :
    cut c (l ++ rest) = (.token kind (c :: l), rest) := by
  have hrest := head_of_longest isNameChar_iff longest fun d hd =>
    Lexeme.identifier hc (forall_snoc hl hd)
  have hspan := takeWhile_span isNameChar (fun d hd => isNameChar_iff.mpr (hl d hd)) hrest
  have hkind : wordKind (c :: l) = kind := by
    rcases hk with rfl | ⟨text, hk, he⟩
    · rcases wordKind_cases (c :: l) with ⟨text, hk, he⟩ | ⟨hi, -⟩
      · exact absurd he (word rfl _ text hk)
      · exact hi
    · rw [he, wordKind_of_keyword hk]
  rw [cut_word hc, hspan.1, hspan.2, hkind]

theorem cut_of_whole {l rest : List Char} (hc : Digit c) (hl : ∀ d ∈ l, Digit d)
    (longest : Longest (c :: l) rest) :
    cut c (l ++ rest) = (.token .number (c :: l), rest) := by
  have hall : ∀ d ∈ c :: l, Digit d := List.forall_mem_cons.mpr ⟨hc, hl⟩
  have hrest := head_of_longest isDigit_iff longest fun d hd =>
    Lexeme.whole (by simp) (forall_snoc hall hd)
  have hspan := takeWhile_span Char.isDigit (fun d hd => isDigit_iff.mpr (hl d hd)) hrest
  have hpoint : ∀ d es, (l ++ rest).dropWhile Char.isDigit = '.' :: d :: es → ¬ Digit d := by
    intro d es he hd
    rw [hspan.2] at he
    have hx := Lexeme.fraction (List.cons_ne_nil _ _) hall (List.cons_ne_nil d [])
      (by simpa using hd)
    exact longest.not_lexeme (List.cons_ne_nil _ _) (he ▸ ⟨es, rfl⟩) hx
  rw [cut_digit hc, cutNumber_whole hpoint, hspan.1, hspan.2]

theorem cut_of_fraction {ds es rest : List Char} (hc : Digit c) (hds : ∀ d ∈ ds, Digit d)
    (hne : es ≠ []) (hes : ∀ d ∈ es, Digit d) (longest : Longest (c :: (ds ++ '.' :: es)) rest) :
    cut c (ds ++ '.' :: es ++ rest) = (.token .number (c :: (ds ++ '.' :: es)), rest) := by
  have hall : ∀ d ∈ c :: ds, Digit d := List.forall_mem_cons.mpr ⟨hc, hds⟩
  have hrest := head_of_longest isDigit_iff longest fun d hd => by
    have hx := Lexeme.fraction (List.cons_ne_nil _ _) hall (by simp) (forall_snoc hes hd)
    simpa using hx
  obtain ⟨e, es, rfl⟩ := List.exists_cons_of_ne_nil hne
  obtain ⟨he, hes⟩ := List.forall_mem_cons.mp hes
  have hspan := takeWhile_span Char.isDigit (fun d hd => isDigit_iff.mpr (hds d hd))
    (by simp : ∀ x ∈ ('.' :: e :: (es ++ rest)).head?, x.isDigit = false)
  have hspan' := takeWhile_span Char.isDigit (fun d hd => isDigit_iff.mpr (hes d hd)) hrest
  have ht : ds ++ '.' :: e :: es ++ rest = ds ++ '.' :: e :: (es ++ rest) := by simp
  rw [cut_digit hc, ht, cutNumber_fraction hspan.2 he, hspan.1, hspan'.1, hspan'.2,
    List.cons_append]

-- a second character would make a comment or a pair, and either is longer
theorem cut_of_symbol {kind : TokenKind} {rest : List Char} (hk : symbolKind? c = some kind)
    (longest : Longest [c] rest) : cut c rest = (.token kind [c], rest) := by
  have hslash : ¬ (c = '/' ∧ rest.head? = some '/') := by
    rintro ⟨rfl, hh⟩
    obtain ⟨tail, rfl⟩ := List.head?_eq_some_iff.mp hh
    exact longest.not_lexeme (List.cons_ne_nil _ _) ⟨tail, rfl⟩ (Lexeme.comment List.not_mem_nil)
  have hsingle : withEqualKind? c = none ∨ rest.head? ≠ some '=' := by
    cases hw : withEqualKind? c with
    | none => exact .inl rfl
    | some other =>
      refine .inr fun hh => ?_
      obtain ⟨tail, rfl⟩ := List.head?_eq_some_iff.mp hh
      obtain ⟨-, -, -, text, htext, hchars⟩ := withEqualKind?_plain hw
      have hx := Lexeme.symbol htext
      rw [hchars] at hx
      exact longest.not_lexeme (List.cons_ne_nil _ _) ⟨tail, rfl⟩ hx
  rw [cut_plain (symbolKind?_plain hk).1 hslash, cutSymbol_single hsingle, hk]

/-- The longest lexeme at the front of a text is what is cut off. -/
theorem cut_of_lexeme {kind : TokenKind} {l rest : List Char} (hl : Lexeme kind (c :: l))
    (hk : kind ≠ .comment ∧ kind ≠ .newLine) (longest : Longest (c :: l) rest)
    (word : kind = .identifier → ∀ (other : TokenKind) (text : String),
      other.keyword? = some text → c :: l ≠ text.toList) :
    cut c (l ++ rest) = (.token kind (c :: l), rest) := by
  cases hl.view with
  | word hc hchars hkind => exact cut_of_word hc hchars hkind longest word
  | whole hn hc hds =>
    subst hn
    exact cut_of_whole hc hds longest
  | fraction hn hc hds hne hes he =>
    subst hn he
    exact cut_of_fraction hc hds hne hes longest
  | string hs hc hb he =>
    subst hs hc he
    rw [cut_quote, List.append_assoc]
    exact cutString_closed hb
  | comment hc => exact absurd hc hk.1
  | newLine hn => exact absurd hn hk.2
  | symbol hs he =>
    subst he
    exact cut_of_symbol hs longest
  | pair hs he =>
    subst he
    obtain ⟨hp, hne, -⟩ := withEqualKind?_plain hs
    rw [cut_plain hp fun h => hne h.1]
    exact cutSymbol_pair hs

theorem cut_of_unexpected (hb : ¬ Blank c)
    (h : ∀ (kind : TokenKind) (l : List Char), ¬ Lexeme kind (c :: l)) :
    cut c cs = (.unexpected c, cs) := by
  have hp : Plain c := by
    refine ⟨fun hs => ?_, fun hd => ?_, hb, ?_, ?_⟩
    · exact h .identifier [] (.identifier hs (by simp))
    · exact h .number [] (.whole (by simp) (by simpa using hd))
    · rintro rfl
      exact h .string ['"'] (.string List.not_mem_nil)
    · rintro rfl
      exact h .newLine [] .newLine
  have hsym : symbolKind? c = none := by
    rw [Option.eq_none_iff_forall_ne_some]
    intro kind hk
    obtain ⟨-, text, htext, hchars⟩ := symbolKind?_plain hk
    exact h kind [] (hchars ▸ Lexeme.symbol htext)
  have hpair : withEqualKind? c = none := by
    rw [Option.eq_none_iff_forall_ne_some]
    intro kind hk
    obtain ⟨-, -, hsome, -⟩ := withEqualKind?_plain hk
    rw [hsym] at hsome
    cases hsome
  have hslash : ¬ (c = '/' ∧ cs.head? = some '/') := by
    rintro ⟨rfl, -⟩
    cases hsym
  rw [cut_plain hp hslash, cutSymbol_single (.inl hpair), hsym]

/-- A text has one first segment. -/
theorem cut_eq_iff {segment : Segment} {rest : List Char} :
    cut c cs = (segment, rest) ↔ FirstSegment (c :: cs) segment rest := by
  constructor
  · intro h
    have hfirst := first_cut c cs
    rwa [h] at hfirst
  intro h
  generalize ht : c :: cs = text at h
  cases h with
  | @token kind lexeme _ hl hk longest word =>
    obtain ⟨d, l, rfl⟩ := List.exists_cons_of_ne_nil hl.ne_nil
    rw [List.cons_append] at ht
    obtain ⟨rfl, rfl⟩ := List.cons.inj ht
    exact cut_of_lexeme hl hk longest word
  | @blank run _ hne hb hr =>
    obtain ⟨d, run, rfl⟩ := List.exists_cons_of_ne_nil hne
    rw [List.cons_append] at ht
    obtain ⟨rfl, rfl⟩ := List.cons.inj ht
    obtain ⟨hc, hrun⟩ := List.forall_mem_cons.mp hb
    have hspan := takeWhile_span isBlank (fun d hd => isBlank_iff.mpr (hrun d hd))
      (fun d hd => isBlank_eq_false (hr d hd))
    rw [cut_blank hc, hspan.1, hspan.2]
  | lineBreak =>
    cases ht
    exact cut_lineBreak
  | comment hb hr =>
    rw [List.cons_append, List.cons_append] at ht
    obtain ⟨rfl, rfl⟩ := List.cons.inj ht
    have hstop : ∀ d ∈ rest.head?, (d != '\n') = false := by
      intro d hd
      rw [hr d hd, bne_self_eq_false]
    have hspan := takeWhile_span (· != '\n') (bne_of_not_mem hb) hstop
    rw [cut_comment, hspan.1, hspan.2]
  | unexpected hb hn =>
    cases ht
    exact cut_of_unexpected hb hn
  | unterminated hb =>
    cases ht
    rw [cut_quote, cutString_open hb]

end First

theorem cut_induction {motive : List Char → Prop} (nil : motive [])
    (cons : ∀ c cs, motive (cut c cs).2 → motive (c :: cs)) : (cs : List Char) → motive cs
  | [] => nil
  | c :: cs => cons c cs (cut_induction nil cons (cut c cs).2)
termination_by cs => cs.length
decreasing_by
  have := length_cut_le c cs
  simp only [List.length_cons]
  omega

theorem cutAll_append (cs : List Char) :
    ∀ done : List Segment, cutAll done cs = done.reverse ++ cutAll [] cs := by
  induction cs using cut_induction with
  | nil =>
    intro done
    simp [cutAll]
  | cons c cs ih =>
    intro done
    rw [cutAll, ih, cutAll, ih [_]]
    simp

theorem cutAll_cons (c : Char) (cs : List Char) :
    cutAll [] (c :: cs) = (cut c cs).1 :: cutAll [] (cut c cs).2 := by
  rw [cutAll, cutAll_append]
  rfl

end Segment

theorem FirstSegment.text_append {cs rest : List Char} {segment : Segment}
    (h : FirstSegment cs segment rest) : segment.text ++ rest = cs := by
  cases h with
  | unterminated => simp [Segment.text]
  | token | blank | lineBreak | comment | unexpected => rfl

theorem FirstSegment.ne_nil {cs rest : List Char} {segment : Segment}
    (h : FirstSegment cs segment rest) : cs ≠ [] := by
  cases h with
  | token hl => simp [hl.ne_nil]
  | blank hne => simp [hne]
  | lineBreak | comment | unexpected | unterminated => simp

theorem Segmented.text_flatMap {cs : List Char} {segments : List Segment}
    (h : Segmented cs segments) : segments.flatMap Segment.text = cs := by
  induction h with
  | nil => rfl
  | cons h _ ih => rw [List.flatMap_cons, ih, h.text_append]

/-- There is one way to cut a text into segments. -/
theorem Segment.cutAll_eq_iff {cs : List Char} {segments : List Segment} :
    cutAll [] cs = segments ↔ Segmented cs segments := by
  constructor
  · rintro rfl
    induction cs using cut_induction with
    | nil =>
      rw [cutAll]
      exact .nil
    | cons c cs ih =>
      rw [cutAll_cons]
      exact .cons (first_cut c cs) ih
  · intro h
    induction h with
    | nil => rw [cutAll, List.reverse_nil]
    | cons h _ ih =>
      obtain ⟨c, cs, rfl⟩ := List.exists_cons_of_ne_nil h.ne_nil
      rw [cutAll_cons, cut_eq_iff.mpr h, ih]

end ClosureLang
