import ClosureLang.Proofs.Scanning.LineBreaks

namespace ClosureLang

namespace Segment

/-- Each segment with the text in front of it, if `front` is in front of the first. -/
def placed (front : List Char) : List Segment → List (List Char × Segment)
  | [] => []
  | segment :: segments => (front, segment) :: placed (front ++ segment.text) segments

/-- The token with a text in front of it, on the line on which it ends. -/
def placedToken? : List Char × Segment → Option Token
  | (front, .token kind lexeme) =>
    some (Token.make kind (.ofList lexeme) (1 + (front ++ lexeme).count '\n'))
  | _ => none

/-- The complaint about what is no token: a character is on the line behind the line breaks in front
of it, a string without an end on the last line of the source. -/
def placedComplaint? (source : List Char) : List Char × Segment → Option LexicalError
  | (front, .unexpected c) => some (.unexpectedCharacter c (1 + front.count '\n'))
  | (_, .unterminated _) => some (.unterminatedString (1 + source.count '\n'))
  | _ => none

/-- The line of a segment is counted by all line breaks in the source up to its end. -/
theorem ends_eq_placed (front : List Char) (segments : List Segment) :
    ends (1 + front.count '\n') segments =
      (placed front segments).map fun p => (p.2, 1 + (p.1 ++ p.2.text).count '\n') := by
  induction segments generalizing front with
  | nil => rfl
  | cons segment segments ih =>
    have hline : 1 + front.count '\n' + segment.text.count '\n' =
        1 + (front ++ segment.text).count '\n' := by
      rw [List.count_append, Nat.add_assoc]
    rw [ends, placed, List.map_cons, ← ih, hline]

theorem token?_placed (p : List Char × Segment) :
    token? (p.2, 1 + (p.1 ++ p.2.text).count '\n') = placedToken? p := by
  obtain ⟨front, segment⟩ := p
  cases segment <;> rfl

theorem mem_ends_bounds {segments : List Segment} {line : Nat} {e : Segment × Nat}
    (he : e ∈ ends line segments) :
    line ≤ e.2 ∧ e.2 ≤ line + (segments.flatMap text).count '\n' := by
  induction segments generalizing line with
  | nil => simp [ends] at he
  | cons segment segments ih =>
    rw [List.flatMap_cons, List.count_append]
    rcases List.mem_cons.mp he with rfl | he
    · exact ⟨Nat.le_add_right _ _, by dsimp only; omega⟩
    · obtain ⟨hle, hge⟩ := ih he
      exact ⟨by omega, by omega⟩

/-- Segments end on lines that never decrease. -/
theorem ends_pairwise (segments : List Segment) (line : Nat) :
    (ends line segments).Pairwise fun e e' => e.2 ≤ e'.2 := by
  induction segments generalizing line with
  | nil => exact .nil
  | cons segment segments ih => exact .cons (fun e he => (mem_ends_bounds he).1) (ih _)

theorem line_of_token? {e : Segment × Nat} {t : Token} (h : t ∈ token? e) : t.line = e.2 := by
  obtain ⟨segment, line⟩ := e
  cases segment with
  | token kind lexeme =>
    cases h
    rfl
  | blank | lineBreak | comment | unexpected | unterminated => cases h

theorem line_of_complaint? {e : Segment × Nat} {x : LexicalError} (h : x ∈ complaint? e) :
    x.line = e.2 := by
  obtain ⟨segment, line⟩ := e
  cases segment with
  | unexpected | unterminated =>
    cases h
    rfl
  | token | blank | lineBreak | comment => cases h

end Segment

/-- What has a place in a text is the first segment of the text behind that place. -/
theorem Segmented.first_of_placed {cs front : List Char} {segments : List Segment}
    {p : List Char × Segment} (h : Segmented cs segments) (hp : p ∈ Segment.placed front segments) :
    ∃ rest, FirstSegment (p.2.text ++ rest) p.2 rest ∧ p.1 ++ (p.2.text ++ rest) = front ++ cs := by
  induction h generalizing front with
  | nil => cases hp
  | @cons cs rest segment segments hfirst _ ih =>
    have htext := hfirst.text_append
    rcases List.mem_cons.mp hp with rfl | hp
    · exact ⟨rest, by rwa [htext], by rw [htext]⟩
    · obtain ⟨rest', hfirst', he⟩ := ih hp
      exact ⟨rest', hfirst', by rw [he, List.append_assoc, htext]⟩

theorem Segmented.complaint?_placed {cs : List Char} {segments : List Segment}
    (h : Segmented cs segments) {p : List Char × Segment} (hp : p ∈ Segment.placed [] segments) :
    Segment.complaint? (p.2, 1 + (p.1 ++ p.2.text).count '\n') = Segment.placedComplaint? cs p := by
  obtain ⟨rest, hfirst, he⟩ := h.first_of_placed hp
  obtain ⟨front, segment⟩ := p
  cases segment with
  | token | blank | lineBreak | comment => rfl
  | unexpected c =>
    have hcut := Segment.cut_eq_iff.mpr hfirst
    have hc : c ≠ '\n' := by
      rintro rfl
      rw [Segment.cut_lineBreak] at hcut
      simp at hcut
    have hcount : (front ++ [c]).count '\n' = front.count '\n' := by
      rw [List.count_append, List.count_cons_of_ne hc, List.count_nil, Nat.add_zero]
    simp only [Segment.complaint?, Segment.placedComplaint?, Segment.text, hcount]
  | unterminated body =>
    have hrest : rest = [] := by
      generalize Segment.text (.unterminated body) ++ rest = text at hfirst
      cases hfirst
      rfl
    subst hrest
    simp only [List.append_nil, List.nil_append] at he
    simp only [Segment.complaint?, Segment.placedComplaint?, he]

/-- The line of a token is one more than the line breaks in the source up to the end of its lexeme,
and that of the end of input one more than all line breaks. A complaint about a character counts the
line breaks in front of it, one about a string without an end all of them. So the lines of the
tokens never decrease, and those of the complaints are lines of the source. -/
theorem scan_lines (source : String) :
    ∃ segments, Segmented source.toList segments ∧
      (∀ p ∈ Segment.placed [] segments, p.1 ++ p.2.text <+: source.toList) ∧
      (scan source).tokens = (Segment.placed [] segments).filterMap Segment.placedToken? ++
        [.make .eof "" (1 + source.toList.count '\n')] ∧
      (scan source).errors =
        (Segment.placed [] segments).filterMap (Segment.placedComplaint? source.toList) ∧
      (scan source).tokens.Pairwise (fun t t' => t.line ≤ t'.line) ∧
      ∀ x ∈ (scan source).errors, 1 ≤ x.line ∧ x.line ≤ 1 + source.toList.count '\n' := by
  have h : Segmented source.toList (Segment.cutAll [] source.toList) :=
    Segment.cutAll_eq_iff.mp rfl
  have hends := Segment.ends_eq_placed [] (Segment.cutAll [] source.toList)
  rw [List.count_nil, Nat.add_zero] at hends
  have hbounds : ∀ e ∈ Segment.ends 1 (Segment.cutAll [] source.toList),
      1 ≤ e.2 ∧ e.2 ≤ 1 + source.toList.count '\n' := by
    intro e he
    have hb := Segment.mem_ends_bounds he
    rwa [h.text_flatMap] at hb
  refine ⟨_, h, ?_, ?_, ?_, ?_, ?_⟩
  · intro p hp
    obtain ⟨rest, -, he⟩ := h.first_of_placed hp
    exact ⟨rest, by rw [List.append_assoc, he, List.nil_append]⟩
  · rw [scan_tokens, hends, List.filterMap_map]
    congr 2
    funext p
    exact Segment.token?_placed p
  · rw [scan_errors, hends, List.filterMap_map]
    exact List.filterMap_congr fun p hp => h.complaint?_placed hp
  · rw [scan_tokens, List.pairwise_append]
    refine ⟨?_, List.pairwise_singleton _ _, ?_⟩
    · refine (Segment.ends_pairwise _ 1).filterMap _ fun e e' hle t ht t' ht' => ?_
      rw [Segment.line_of_token? ht, Segment.line_of_token? ht']
      exact hle
    · intro t ht t' ht'
      obtain ⟨e, he, hte⟩ := List.mem_filterMap.mp ht
      cases List.mem_singleton.mp ht'
      rw [Segment.line_of_token? hte]
      exact (hbounds e he).2
  · intro x hx
    rw [scan_errors] at hx
    obtain ⟨e, he, hxe⟩ := List.mem_filterMap.mp hx
    rw [Segment.line_of_complaint? hxe]
    exact hbounds e he

/-- The string ends on the second line, the comment leaves its line break to the third. -/
example : (scan "f \"one\ntwo\" // x\n@").tokens.map Token.line = [1, 2, 3] ∧
    (scan "f \"one\ntwo\" // x\n@").errors = [.unexpectedCharacter '@' 3] := by
  constructor <;> cbv

end ClosureLang
