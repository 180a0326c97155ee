import ClosureLang.Proofs.Scanning.Segmentation

namespace ClosureLang

namespace Segment

/-- Each segment with the line on which it ends, the first one starting on `line`. -/
def ends (line : Nat) : List Segment → List (Segment × Nat)
  | [] => []
  | segment :: segments =>
    let last := line + segment.text.count '\n'
    (segment, last) :: ends last segments

def token? : Segment × Nat → Option Token
  | (.token kind lexeme, line) => some (Token.make kind (.ofList lexeme) line)
  | _ => none

def complaint? : Segment × Nat → Option LexicalError
  | (.unexpected c, line) => some (.unexpectedCharacter c line)
  | (.unterminated _, line) => some (.unterminatedString line)
  | _ => none

theorem fst_mem_of_mem_ends {segment : Segment} {n : Nat} {segments : List Segment} {line : Nat}
    (h : (segment, n) ∈ ends line segments) : segment ∈ segments := by
  induction segments generalizing line with
  | nil => simp [ends] at h
  | cons first segments ih =>
    rcases List.mem_cons.mp h with he | h
    · cases he
      exact List.mem_cons_self
    · exact List.mem_cons_of_mem _ (ih h)

end Segment

namespace Scanning

theorem add_line (s : Scanning) (segment : Segment) :
    (s.add segment).line = s.line + segment.text.count '\n' := by
  cases segment <;> rfl

theorem add_tokens (s : Scanning) (segment : Segment) :
    (s.add segment).tokens =
      (Segment.token? (segment, (s.add segment).line)).toList ++ s.tokens := by
  cases segment <;> rfl

theorem add_errors (s : Scanning) (segment : Segment) :
    (s.add segment).errors =
      (Segment.complaint? (segment, (s.add segment).line)).toList ++ s.errors := by
  cases segment <;> rfl

theorem foldl_add_line (segments : List Segment) (s : Scanning) :
    (segments.foldl add s).line = s.line + (segments.flatMap Segment.text).count '\n' := by
  induction segments generalizing s with
  | nil => rfl
  | cons segment segments ih =>
    rw [List.foldl_cons, ih, add_line, List.flatMap_cons, List.count_append, Nat.add_assoc]

/-- What each segment puts in front of a list, the list has in the end, last first. -/
theorem foldl_add_reverse {α : Type} {found : Scanning → List α} {item? : Segment × Nat → Option α}
    (hadd : ∀ s segment,
      found (s.add segment) = (item? (segment, (s.add segment).line)).toList ++ found s)
    (segments : List Segment) (s : Scanning) :
    (found (segments.foldl add s)).reverse =
      (found s).reverse ++ (Segment.ends s.line segments).filterMap item? := by
  induction segments generalizing s with
  | nil => simp [Segment.ends]
  | cons segment segments ih =>
    rw [List.foldl_cons, ih, hadd, add_line, Segment.ends]
    cases h : item? (segment, s.line + segment.text.count '\n') with
    | none => simp [h]
    | some item => simp [h]

end Scanning

theorem Lexeme.ne_eof {kind : TokenKind} {l : List Char} (h : Lexeme kind l) : kind ≠ .eof := by
  rintro rfl
  cases h with
  | symbol h | keyword h => cases h

namespace Segmented

variable {cs : List Char} {segments : List Segment}

theorem kind_of_token {kind : TokenKind} {lexeme : List Char} (h : Segmented cs segments)
    (hm : Segment.token kind lexeme ∈ segments) :
    kind ≠ .comment ∧ kind ≠ .newLine ∧ kind ≠ .eof := by
  induction h with
  | nil => cases hm
  | cons hfirst _ ih =>
    rcases List.mem_cons.mp hm with rfl | hm
    · cases hfirst with
      | token hl hk => exact ⟨hk.1, hk.2, hl.ne_eof⟩
    · exact ih hm

/-- Nothing stands behind a quote that is not closed. -/
theorem nil_of_unterminated {body : List Char} {before after : List Segment}
    (h : Segmented cs (before ++ .unterminated body :: after)) : after = [] := by
  induction before generalizing cs with
  | nil =>
    cases h with
    | cons hfirst hrest =>
      cases hfirst with
      | unterminated =>
        cases hrest with
        | nil => rfl
        | cons h => exact absurd rfl h.ne_nil
  | cons first before ih =>
    cases h with
    | cons _ hrest => exact ih hrest

end Segmented

/-- There is one way to cut a source into segments, and put together they are the source. Only the
last segment can be a string without an end. Scanning gives the tokens of the segments that are
tokens, in order, with the end of input behind them, and the complaints about the others. -/
theorem scan_cuts_longest (source : String) :
    ∃ segments : List Segment,
      (∀ other, Segmented source.toList other ↔ other = segments) ∧
      segments.flatMap Segment.text = source.toList ∧
      (∀ before body after, segments = before ++ .unterminated body :: after → after = []) ∧
      (∀ t ∈ (Segment.ends 1 segments).filterMap Segment.token?,
        t.kind ≠ .comment ∧ t.kind ≠ .newLine ∧ t.kind ≠ .eof) ∧
      (scan source).tokens = (Segment.ends 1 segments).filterMap Segment.token? ++
        [Token.make .eof "" (1 + source.toList.count '\n')] ∧
      (scan source).errors = (Segment.ends 1 segments).filterMap Segment.complaint? := by
  have h : Segmented source.toList (Segment.cutAll [] source.toList) :=
    Segment.cutAll_eq_iff.mp rfl
  refine ⟨Segment.cutAll [] source.toList, fun other => ?_, h.text_flatMap, ?_, ?_, ?_, ?_⟩
  · rw [← Segment.cutAll_eq_iff, eq_comm]
  · intro before body after he
    rw [he] at h
    exact h.nil_of_unterminated
  · intro t ht
    obtain ⟨⟨segment, line⟩, hm, ht⟩ := List.mem_filterMap.mp ht
    cases segment with
    | token kind lexeme =>
      cases ht
      exact h.kind_of_token (Segment.fst_mem_of_mem_ends hm)
    | blank | lineBreak | comment | unexpected | unterminated => cases ht
  · have hline := Scanning.foldl_add_line (Segment.cutAll [] source.toList) Scanning.start
    rw [h.text_flatMap] at hline
    rw [scan, Scanning.finish, List.reverse_cons, Scanning.foldl_add_reverse Scanning.add_tokens,
      hline]
    rfl
  · rw [scan, Scanning.finish, Scanning.foldl_add_reverse Scanning.add_errors]
    rfl

end ClosureLang
