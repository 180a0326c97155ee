import ClosureLang.Proofs.Scanning.Tokens

namespace ClosureLang

/-- The token, `n` lines further down. -/
def Token.down (n : Nat) (t : Token) : Token :=
  { t with line := t.line + n }

def LexicalError.down (n : Nat) : LexicalError → LexicalError
  | .unexpectedCharacter c line => .unexpectedCharacter c (line + n)
  | .unterminatedString line => .unterminatedString (line + n)

/-- A character that ends a token in front of it, unless the token is a string that is open. -/
def Separator (d : Char) : Prop :=
  Blank d ∨ d = '\n'

theorem Separator.not_nameChar {d : Char} (h : Separator d) : ¬ NameChar d := by
  rcases h with (rfl | rfl | rfl | rfl) | rfl <;> decide

theorem Separator.no_symbol {d : Char} (h : Separator d) : '.' ≠ d ∧ '=' ≠ d ∧ '/' ≠ d := by
  rcases h with (rfl | rfl | rfl | rfl) | rfl <;> decide

namespace Segment

variable {c d : Char} {cs : List Char} {rest : List Char}

/-- A run of characters among which `d` does not count is the same with `d` and more behind. -/
theorem span_behind {p : Char → Bool} (hp : p d = false) (cs rest : List Char) :
    (cs ++ d :: rest).takeWhile p = cs.takeWhile p ∧
      (cs ++ d :: rest).dropWhile p = cs.dropWhile p ++ d :: rest := by
  induction cs with
  | nil => simp [hp]
  | cons x cs ih => cases hx : p x <;> simp [hx, ih]

theorem head?_behind {x : Char} (hx : x ≠ d) (cs rest : List Char) :
    (cs ++ d :: rest).head? = some x ↔ cs.head? = some x := by
  cases cs with
  | nil => simpa using hx.symm
  | cons => simp

theorem cutNumber_behind (hsep : Separator d) :
    cutNumber c (cs ++ d :: rest) = ((cutNumber c cs).1, (cutNumber c cs).2 ++ d :: rest) := by
  have hdigit : d.isDigit = false := isDigit_eq_false fun h => hsep.not_nameChar (.inr h)
  obtain ⟨ht, hd⟩ := span_behind hdigit cs rest
  by_cases hf : ∃ x es, cs.dropWhile Char.isDigit = '.' :: x :: es ∧ Digit x
  · obtain ⟨x, es, he, hx⟩ := hf
    have he' : (cs ++ d :: rest).dropWhile Char.isDigit = '.' :: x :: (es ++ d :: rest) := by
      rw [hd, he]
      rfl
    obtain ⟨ht', hd'⟩ := span_behind hdigit es rest
    rw [cutNumber_fraction he hx, cutNumber_fraction he' hx, ht, ht', hd']
  · have hw : ∀ x es, cs.dropWhile Char.isDigit = '.' :: x :: es → ¬ Digit x :=
      fun x es he hx => hf ⟨x, es, he, hx⟩
    have hw' : ∀ x es, (cs ++ d :: rest).dropWhile Char.isDigit = '.' :: x :: es → ¬ Digit x := by
      intro x es he
      rw [hd] at he
      cases hrest : cs.dropWhile Char.isDigit with
      | nil =>
        rw [hrest, List.nil_append] at he
        exact absurd (List.cons.inj he).1.symm hsep.no_symbol.1
      | cons y ys =>
        rw [hrest, List.cons_append] at he
        obtain ⟨rfl, he⟩ := List.cons.inj he
        cases ys with
        | nil =>
          -- the separator itself stands behind the point
          cases he
          rw [← isDigit_iff, hdigit]
          nofun
        | cons z zs =>
          cases he
          exact hw _ _ hrest
    rw [cutNumber_whole hw, cutNumber_whole hw', ht, hd]

/-- A string that is closed is cut off whatever stands behind it. -/
theorem cutString_behind (h : '"' ∈ cs) :
    cutString (cs ++ d :: rest) = ((cutString cs).1, (cutString cs).2 ++ d :: rest) := by
  obtain ⟨body, tail, rfl, hb⟩ := List.eq_append_cons_of_mem h
  rw [List.append_assoc, List.cons_append, cutString_closed hb, cutString_closed hb]

theorem cutSymbol_behind (hsep : Separator d) :
    cutSymbol c (cs ++ d :: rest) = ((cutSymbol c cs).1, (cutSymbol c cs).2 ++ d :: rest) := by
  have hhead := head?_behind hsep.no_symbol.2.1 cs rest
  have hsingle : ∀ cs : List Char, withEqualKind? c = none ∨ cs.head? ≠ some '=' →
      cutSymbol c cs = ((cutSymbol c []).1, cs) := by
    intro cs h
    rw [cutSymbol_single h, cutSymbol_single (.inr (by simp))]
    cases symbolKind? c <;> rfl
  by_cases hpair : (∃ kind, withEqualKind? c = some kind) ∧ cs.head? = some '='
  · obtain ⟨⟨kind, hk⟩, he⟩ := hpair
    obtain ⟨tail, rfl⟩ := List.head?_eq_some_iff.mp he
    rw [List.cons_append, cutSymbol_pair hk, cutSymbol_pair hk]
  · have hone : withEqualKind? c = none ∨ cs.head? ≠ some '=' := by
      rw [← Option.not_isSome_iff_eq_none, Option.isSome_iff_exists]
      tauto
    rw [hsingle cs hone, hsingle _ (hone.imp_right (mt hhead.mp))]

/-- A segment that is closed does not reach over a separator behind it, unless it is a run of blanks
or a comment, which only a line break ends. -/
theorem cut_behind (hsep : Separator d) (h : ∀ body, (cut c cs).1 ≠ .unterminated body)
    (hblank : Blank c → d = '\n') (hcomment : c = '/' → cs.head? = some '/' → d = '\n') :
    cut c (cs ++ d :: rest) = ((cut c cs).1, (cut c cs).2 ++ d :: rest) := by
  by_cases hb : Blank c
  · cases hblank hb
    obtain ⟨ht, hd⟩ := span_behind (p := isBlank) (d := '\n') rfl cs rest
    rw [cut_blank hb, cut_blank hb, ht, hd]
  by_cases hn : c = '\n'
  · subst hn
    rw [cut_lineBreak, cut_lineBreak]
  by_cases hs : NameStart c
  · have hname : isNameChar d = false := by
      rw [Bool.eq_false_iff, ne_eq, isNameChar_iff]
      exact hsep.not_nameChar
    obtain ⟨ht, hd⟩ := span_behind hname cs rest
    rw [cut_word hs, cut_word hs, ht, hd]
  by_cases hd : Digit c
  · rw [cut_digit hd, cut_digit hd]
    exact cutNumber_behind hsep
  by_cases hq : c = '"'
  · subst hq
    rw [cut_quote] at h
    rw [cut_quote, cut_quote]
    refine cutString_behind ?_
    by_contra hopen
    rw [cutString_open hopen] at h
    exact h _ rfl
  have hp : Plain c := ⟨hs, hd, hb, hq, hn⟩
  by_cases hc : c = '/' ∧ cs.head? = some '/'
  · obtain ⟨rfl, hh⟩ := hc
    cases hcomment rfl hh
    obtain ⟨tail, rfl⟩ := List.head?_eq_some_iff.mp hh
    obtain ⟨ht, hd⟩ := span_behind (p := (· != '\n')) (d := '\n') rfl tail rest
    rw [List.cons_append, cut_comment, cut_comment, ht, hd]
  · have hc' : ¬ (c = '/' ∧ (cs ++ d :: rest).head? = some '/') := by
      rwa [head?_behind hsep.no_symbol.2.2]
    rw [cut_plain hp hc, cut_plain hp hc']
    exact cutSymbol_behind hsep

/-- A text whose strings are all closed is cut in the same way with more lines behind. -/
theorem cutAll_lineBreak (cs rest : List Char)
    (h : ∀ body, .unterminated body ∉ cutAll [] cs) :
    cutAll [] (cs ++ '\n' :: rest) = cutAll [] cs ++ .lineBreak :: cutAll [] rest := by
  induction cs using cut_induction with
  | nil =>
    rw [List.nil_append, cutAll_cons, cut_lineBreak, cutAll]
    rfl
  | cons c cs ih =>
    rw [cutAll_cons] at h
    have hfirst : ∀ body, (cut c cs).1 ≠ .unterminated body :=
      fun body he => h body (he ▸ List.mem_cons_self)
    have hcut : cut c (cs ++ '\n' :: rest) = ((cut c cs).1, (cut c cs).2 ++ '\n' :: rest) :=
      cut_behind (.inr rfl) hfirst (fun _ => rfl) fun _ _ => rfl
    rw [List.cons_append, cutAll_cons, cutAll_cons, hcut,
      ih fun body hm => h body (List.mem_cons_of_mem _ hm), List.cons_append]

theorem ends_append (line : Nat) (before after : List Segment) :
    ends line (before ++ after) =
      ends line before ++ ends (line + (before.flatMap text).count '\n') after := by
  induction before generalizing line with
  | nil => rfl
  | cons segment before ih =>
    rw [List.cons_append, ends, ends, ih, List.flatMap_cons, List.count_append, ← Nat.add_assoc]
    rfl

theorem ends_down (line n : Nat) (segments : List Segment) :
    ends (line + n) segments = (ends line segments).map fun e => (e.1, e.2 + n) := by
  induction segments generalizing line with
  | nil => rfl
  | cons segment segments ih =>
    have hline : line + n + segment.text.count '\n' = line + segment.text.count '\n' + n := by
      omega
    rw [ends, ends, hline, ih]
    rfl

theorem token?_down (n : Nat) (e : Segment × Nat) :
    token? (e.1, e.2 + n) = (token? e).map (Token.down n) := by
  obtain ⟨segment, line⟩ := e
  cases segment <;> rfl

theorem complaint?_down (n : Nat) (e : Segment × Nat) :
    complaint? (e.1, e.2 + n) = (complaint? e).map (LexicalError.down n) := by
  obtain ⟨segment, line⟩ := e
  cases segment <;> rfl

/-- What is made of the segments of two texts with a line break between them. -/
theorem filterMap_ends_lineBreak {α : Type} {item? : Segment × Nat → Option α} {down : Nat → α → α}
    (hdown : ∀ n e, item? (e.1, e.2 + n) = (item? e).map (down n))
    (hbreak : ∀ line, item? (.lineBreak, line) = none) (before after : List Segment) :
    (ends 1 (before ++ .lineBreak :: after)).filterMap item? =
      (ends 1 before).filterMap item? ++ ((ends 1 after).filterMap item?).map
        (down ((before.flatMap text).count '\n' + 1)) := by
  have hline : 1 + (before.flatMap text).count '\n' + (text .lineBreak).count '\n' =
      1 + ((before.flatMap text).count '\n' + 1) := by
    rw [Nat.add_assoc]
    rfl
  rw [ends_append, ends, hline, ends_down, List.filterMap_append,
    List.filterMap_cons_none (hbreak _), List.filterMap_map, List.map_filterMap]
  congr 2
  funext e
  exact hdown _ e

end Segment

/-- The tokens of a source are those of its segments, and the end of input behind them. -/
theorem scan_tokens (source : String) :
    (scan source).tokens =
      (Segment.ends 1 (Segment.cutAll [] source.toList)).filterMap Segment.token? ++
        [.endOfInput (1 + source.toList.count '\n')] := by
  have h : Segmented source.toList (Segment.cutAll [] source.toList) :=
    Segment.cutAll_eq_iff.mp rfl
  have hline := Scanning.foldl_add_line (Segment.cutAll [] source.toList) Scanning.start
  rw [h.text_flatMap] at hline
  rw [scan, Scanning.finish, List.reverse_cons, Scanning.foldl_add_reverse Scanning.add_tokens,
    hline]
  rfl

theorem scan_errors (source : String) :
    (scan source).errors =
      (Segment.ends 1 (Segment.cutAll [] source.toList)).filterMap Segment.complaint? := by
  rw [scan, Scanning.finish, Scanning.foldl_add_reverse Scanning.add_errors]
  rfl

/-- The constant of a token is the one in its lexeme. -/
theorem scan_literal (source : String) :
    ∀ t ∈ (scan source).tokens, t.literal = Token.literalOf t.kind t.lexeme := by
  intro t ht
  rw [scan_tokens] at ht
  rcases List.mem_append.mp ht with ht | ht
  · obtain ⟨⟨segment, line⟩, -, hs⟩ := List.mem_filterMap.mp ht
    cases segment with
    | token kind lexeme =>
      cases hs
      rfl
    | blank | lineBreak | comment | unexpected | unterminated => cases hs
  · cases List.mem_singleton.mp ht
    rfl

/-- Every string that is not closed is complained about. -/
theorem exists_unterminatedString {source : String} {body : List Char}
    (h : .unterminated body ∈ Segment.cutAll [] source.toList) :
    ∃ line, .unterminatedString line ∈ (scan source).errors := by
  have hends : ∀ (segments : List Segment) (line : Nat), .unterminated body ∈ segments →
      ∃ last, (.unterminated body, last) ∈ Segment.ends line segments := by
    intro segments
    induction segments with
    | nil => nofun
    | cons segment segments ih =>
      intro line hm
      rcases List.mem_cons.mp hm with rfl | hm
      · exact ⟨_, List.mem_cons_self⟩
      · obtain ⟨last, hl⟩ := ih _ hm
        exact ⟨last, List.mem_cons_of_mem _ hl⟩
  obtain ⟨last, hl⟩ := hends _ 1 h
  refine ⟨last, ?_⟩
  rw [scan_errors]
  exact List.mem_filterMap.mpr ⟨_, hl, rfl⟩

/-- A source behind a line break is scanned as if it stood alone, only further down, unless a string
in the source in front of it is not closed. -/
theorem scan_lineBreak (a b : String) (h : ∀ line, .unterminatedString line ∉ (scan a).errors) :
    (scan (a ++ "\n" ++ b)).tokens = (scan a).tokens.dropLast ++
        (scan b).tokens.map (Token.down (a.toList.count '\n' + 1)) ∧
      (scan (a ++ "\n" ++ b)).errors = (scan a).errors ++
        (scan b).errors.map (LexicalError.down (a.toList.count '\n' + 1)) := by
  have hclosed : ∀ body, .unterminated body ∉ Segment.cutAll [] a.toList := by
    intro body hm
    obtain ⟨line, hl⟩ := exists_unterminatedString hm
    exact h line hl
  have htext : (a ++ "\n" ++ b).toList = a.toList ++ '\n' :: b.toList := by simp
  have hcut := Segment.cutAll_lineBreak a.toList b.toList hclosed
  have ha : (Segment.cutAll [] a.toList).flatMap Segment.text = a.toList :=
    (Segment.cutAll_eq_iff.mp rfl).text_flatMap
  constructor
  · rw [scan_tokens, scan_tokens, scan_tokens, htext, hcut, List.dropLast_concat,
      Segment.filterMap_ends_lineBreak Segment.token?_down (fun _ => rfl), ha, List.map_append,
      List.append_assoc]
    have hend : 1 + (a.toList ++ '\n' :: b.toList).count '\n' =
        1 + b.toList.count '\n' + (a.toList.count '\n' + 1) := by
      rw [List.count_append, List.count_cons_self]
      omega
    rw [hend]
    rfl
  · rw [scan_errors, scan_errors, scan_errors, htext, hcut,
      Segment.filterMap_ends_lineBreak Segment.complaint?_down (fun _ => rfl), ha]

/-- The line break in the string counts, and the one behind `<` keeps `<` and `=` apart. -/
theorem scan_lineBreak_operator :
    (∀ line, .unterminatedString line ∉ (scan "f@\"one\ntwo\" <").errors) ∧
      (scan ("f@\"one\ntwo\" <" ++ "\n" ++ "= #x; // y")).tokens =
        [.make .identifier "f" 1, .make .string "\"one\ntwo\"" 2, .make .less "<" 2,
          .make .equal "=" 3, .make .identifier "x" 3, .make .semicolon ";" 3, .endOfInput 3] ∧
      (scan ("f@\"one\ntwo\" <" ++ "\n" ++ "= #x; // y")).errors =
        [.unexpectedCharacter '@' 1, .unexpectedCharacter '#' 3] := by
  have ha : (scan "f@\"one\ntwo\" <").errors = [.unexpectedCharacter '@' 1] := by cbv
  have h : ∀ line, .unterminatedString line ∉ (scan "f@\"one\ntwo\" <").errors := by simp [ha]
  obtain ⟨ht, he⟩ := scan_lineBreak "f@\"one\ntwo\" <" "= #x; // y" h
  exact ⟨h, ht.trans (by cbv), he.trans (by cbv)⟩

end ClosureLang
