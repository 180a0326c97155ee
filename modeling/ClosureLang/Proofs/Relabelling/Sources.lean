import ClosureLang.Program
import ClosureLang.Proofs.Evaluation.Agreement
import ClosureLang.Proofs.Relabelling.Reading
import ClosureLang.Proofs.Relabelling.Running
import ClosureLang.Proofs.Scanning.LineBreaks

namespace ClosureLang

def Token.word (t : Token) : TokenKind × String :=
  (t.kind, t.lexeme)

/-- Each token on a line of its own: its place in the list. -/
def numbered (ts : List Token) : List Token :=
  ts.mapIdx fun i t => { t with line := i }

/-- The line of the token in place `i`. -/
def lineAt (ts : List Token) (i : Nat) : Nat :=
  (ts[i]?.map Token.line).getD 0

/-- Keeps the first `n` lines, and no other. -/
def keepBelow (n l : Nat) : Nat :=
  if l < n then l else l + 1

theorem lt_of_keepBelow_eq {n l : Nat} (h : keepBelow n l = l) : l < n := by
  unfold keepBelow at h
  split at h
  next hl => exact hl
  next => omega

section

variable (ts : List Token)

theorem numbered_relabel_lineAt : (numbered ts).map (Token.relabel (lineAt ts)) = ts := by
  refine List.ext_getElem? fun i => ?_
  simp only [numbered, List.getElem?_map, List.getElem?_mapIdx]
  cases h : ts[i]? with
  | none => rfl
  | some t => simp [Token.relabel, lineAt, h]

theorem numbered_relabel_keepBelow :
    (numbered ts).map (Token.relabel (keepBelow ts.length)) = numbered ts := by
  refine List.ext_getElem? fun i => ?_
  simp only [numbered, List.getElem?_map, List.getElem?_mapIdx]
  cases h : ts[i]? with
  | none => rfl
  | some t =>
    have hi : i < ts.length := (List.getElem?_eq_some_iff.mp h).1
    simp [Token.relabel, keepBelow, hi]

theorem exists_eof_numbered (h : ∃ t ∈ ts, t.kind = .eof) : ∃ t ∈ numbered ts, t.kind = .eof := by
  rw [← numbered_relabel_lineAt ts] at h
  simpa using h

/-- Tokens of the same words are the same numbered tokens. -/
theorem numbered_eq {ts ts' : List Token} (hw : ts.map Token.word = ts'.map Token.word)
    (hl : ∀ t ∈ ts, t.literal = Token.literalOf t.kind t.lexeme)
    (hl' : ∀ t ∈ ts', t.literal = Token.literalOf t.kind t.lexeme) :
    numbered ts = numbered ts' := by
  refine List.ext_getElem? fun i => ?_
  have hi : (ts.map Token.word)[i]? = (ts'.map Token.word)[i]? := by rw [hw]
  simp only [numbered, List.getElem?_map, List.getElem?_mapIdx] at hi ⊢
  cases h : ts[i]? with
  | none =>
    cases h' : ts'[i]? with
    | none => rfl
    | some t' => simp [h, h'] at hi
  | some t =>
    cases h' : ts'[i]? with
    | none => simp [h, h'] at hi
    | some t' =>
      have hword : t.kind = t'.kind ∧ t.lexeme = t'.lexeme := by simpa [h, h', Token.word] using hi
      have ht := hl t (List.mem_of_getElem? h)
      have ht' := hl' t' (List.mem_of_getElem? h')
      simp [ht, ht', hword]

end

theorem exists_eof_scan (source : String) : ∃ t ∈ (scan source).tokens, t.kind = .eof := by
  refine ⟨.endOfInput (1 + source.toList.count '\n'), ?_, rfl⟩
  rw [scan_tokens]
  exact List.mem_append_right _ (List.mem_singleton_self _)

section

variable {ts : List Token} (h : ∃ t ∈ ts, t.kind = .eof)
include h

theorem parse_eq_numbered : parse ts = (parse (numbered ts)).relabel (lineAt ts) := by
  rw [← parse_relabelled _ (exists_eof_numbered ts h), numbered_relabel_lineAt]

/-- What is read from the numbered tokens bears their numbers only. -/
theorem parse_numbered_relabel :
    (parse (numbered ts)).relabel (keepBelow ts.length) = parse (numbered ts) := by
  rw [← parse_relabelled _ (exists_eof_numbered ts h), numbered_relabel_keepBelow]

/-- The line of a complaint about numbered tokens is the place of one of them. -/
theorem mistake_line_lt {e : SyntaxError} (he : e ∈ (parse (numbered ts)).errors) :
    e.line < ts.length := by
  have herrors := congrArg Parsed.errors (parse_numbered_relabel h)
  have hid : (parse (numbered ts)).errors.map (SyntaxError.relabel (keepBelow ts.length)) =
      (parse (numbered ts)).errors.map id := herrors.trans (List.map_id _).symm
  have hrelabel : e.relabel (keepBelow ts.length) = e := List.map_inj_left.mp hid e he
  have hline := congrArg SyntaxError.line hrelabel
  rw [SyntaxError.line_relabel] at hline
  exact lt_of_keepBelow_eq hline

theorem fault_line_lt {n : Nat} {x : Fault} {w : World}
    (hx : World.initial.interpret n (parse (numbered ts)).statements = some (.error x, w)) :
    x.line < ts.length := by
  have hstatements : (parse (numbered ts)).statements.map (Stmt.relabel (keepBelow ts.length)) =
      (parse (numbered ts)).statements := congrArg Parsed.statements (parse_numbered_relabel h)
  have hrun := World.interpret_relabelled (keepBelow ts.length) initial_wellFormed n
    (parse (numbered ts)).statements
  rw [hstatements, World.initial_relabel, hx] at hrun
  have hrelabel : x = x.relabel (keepBelow ts.length) := by
    simpa [Except.mapError] using congrArg (Option.map Prod.fst) hrun
  have hline := congrArg Fault.line hrelabel.symm
  rw [Fault.line_relabel] at hline
  exact lt_of_keepBelow_eq hline

end

/-- Runs what was read, with `f` applied to the lines of what goes wrong. -/
def runRelabelled (n : Nat) (f : Nat → Nat) (lexical : List LexicalError) (p : Parsed) :
    Option (Except ProgramError Unit × Output) :=
  if p.isOk then
    (World.initial.interpret n p.statements).map fun r =>
      (r.1.mapError fun x => .fault (x.relabel f), r.2.output)
  else some (.error (.rejected lexical (p.errors.map (SyntaxError.relabel f))), .empty)

/-- A source runs as its numbered tokens do, with the lines of the tokens for their numbers. -/
theorem runProgram_eq_numbered (n : Nat) (source : String) :
    runProgram n source = runRelabelled n (lineAt (scan source).tokens) (scan source).errors
      (parse (numbered (scan source).tokens)) := by
  have hp := parse_eq_numbered (exists_eof_scan source)
  have hok : ∀ (f : Nat → Nat) (p : Parsed), (p.relabel f).isOk = p.isOk := by
    intro f p
    simp [Parsed.isOk, Parsed.relabel]
  simp only [runProgram, runRelabelled, hp, hok]
  split
  next =>
    have hrun := World.interpret_relabelled (lineAt (scan source).tokens) initial_wellFormed n
      (parse (numbered (scan source).tokens)).statements
    rw [World.initial_relabel] at hrun
    simp only [Parsed.relabel, hrun, Option.map_map]
    congr 1
    funext r
    obtain ⟨x, w⟩ := r
    cases x <;> rfl
  next => rfl

/-- The two lines are those of tokens in the same place of both lists. -/
def SamePlace (ts ts' : List Token) (l l' : Nat) : Prop :=
  ∃ (i : Nat) (t t' : Token), ts[i]? = some t ∧ ts'[i]? = some t' ∧ l = t.line ∧ l' = t'.line

/-- Programs end alike: complaints and faults differ in their lines only, which are those of
corresponding tokens. Complaints about text that is no token do not count. -/
inductive EndAlike (ts ts' : List Token) :
    Except ProgramError Unit → Except ProgramError Unit → Prop where
  | finished : EndAlike ts ts' (.ok ()) (.ok ())
  | rejected {lexical lexical' : List LexicalError} {mistakes mistakes' : List SyntaxError}
      (h : List.Forall₂ (fun e e' => SamePlace ts ts' e.line e'.line ∧ e' = e.withLine e'.line)
        mistakes mistakes') :
      EndAlike ts ts' (.error (.rejected lexical mistakes)) (.error (.rejected lexical' mistakes'))
  | fault {x x' : Fault} (hl : SamePlace ts ts' x.line x'.line) (h : x' = x.withLine x'.line) :
      EndAlike ts ts' (.error (.fault x)) (.error (.fault x'))

theorem samePlace_lineAt {ts ts' : List Token} (hlen : ts.length = ts'.length) {i : Nat}
    (hi : i < ts.length) : SamePlace ts ts' (lineAt ts i) (lineAt ts' i) := by
  have hi' : i < ts'.length := hlen ▸ hi
  refine ⟨i, ts[i], ts'[i], List.getElem?_eq_getElem hi, List.getElem?_eq_getElem hi', ?_, ?_⟩
  · simp [lineAt, hi]
  · simp [lineAt, hi']

theorem SyntaxError.withLine_relabel (e : SyntaxError) (f g : Nat → Nat) :
    e.relabel g = (e.relabel f).withLine (e.relabel g).line := by
  cases e <;> rfl

theorem Fault.withLine_relabel (x : Fault) (f g : Nat → Nat) :
    x.relabel g = (x.relabel f).withLine (x.relabel g).line := by
  cases x <;> rfl

/-- Sources of the same words print the same and end alike. -/
theorem endAlike_of_words {a b : String}
    (h : (scan a).tokens.map Token.word = (scan b).tokens.map Token.word) (n : Nat) :
    Option.Rel
      (fun r r' => EndAlike (scan a).tokens (scan b).tokens r.1 r'.1 ∧ r.2.text = r'.2.text)
      (runProgram n a) (runProgram n b) := by
  have hnumbered := numbered_eq h (scan_literal a) (scan_literal b)
  have hlen : (scan a).tokens.length = (scan b).tokens.length := by
    simpa using congrArg List.length h
  rw [runProgram_eq_numbered, runProgram_eq_numbered, ← hnumbered]
  unfold runRelabelled
  split
  next =>
    cases hrun : World.initial.interpret n (parse (numbered (scan a).tokens)).statements with
    | none => exact .none
    | some r =>
      obtain ⟨x, w⟩ := r
      cases x with
      | ok => exact .some ⟨.finished, rfl⟩
      | error x =>
        have hx := fault_line_lt (exists_eof_scan a) hrun
        refine .some ⟨.fault ?_ (x.withLine_relabel _ _), rfl⟩
        rw [Fault.line_relabel, Fault.line_relabel]
        exact samePlace_lineAt hlen hx
  next =>
    refine .some ⟨.rejected ?_, rfl⟩
    rw [List.forall₂_map_left_iff, List.forall₂_map_right_iff, List.forall₂_same]
    intro e he
    refine ⟨?_, e.withLine_relabel _ _⟩
    rw [SyntaxError.line_relabel, SyntaxError.line_relabel]
    exact samePlace_lineAt hlen (mistake_line_lt (exists_eof_scan a) he)

/-- Lines do not change what a program does. Programs with other lines are read and run alike, and
sources of the same words print the same and end alike, with complaints and faults that point to
corresponding tokens. -/
theorem lines_change_nothing_else :
    (∀ (f : Nat → Nat) (ts : List Token), (∃ t ∈ ts, t.kind = .eof) →
      parse (ts.map (Token.relabel f)) = (parse ts).relabel f) ∧
    (∀ (f : Nat → Nat) (n : Nat) (body : List Stmt) (w : World), w.WellFormed →
      (w.relabel f).interpret n (body.map (Stmt.relabel f)) =
        (w.interpret n body).map fun r => (r.1.mapError (Fault.relabel f), r.2.relabel f)) ∧
    (∀ f : Nat → Nat, World.initial.relabel f = .initial) ∧
    ∀ a b : String, (scan a).tokens.map Token.word = (scan b).tokens.map Token.word → ∀ n : Nat,
      Option.Rel
        (fun r r' => EndAlike (scan a).tokens (scan b).tokens r.1 r'.1 ∧ r.2.text = r'.2.text)
        (runProgram n a) (runProgram n b) :=
  ⟨fun f _ h => parse_relabelled f h, fun f n body _ hw => World.interpret_relabelled f hw n body,
    World.initial_relabel, fun _ _ h n => endAlike_of_words h n⟩

/-- `output 1 / 0;` with the operator on line 2. -/
def quotient : List Stmt :=
  [.output (.binary (.literal (.number 1)) .div (.literal (.number 0)) 2)]

/-- A division on three lines, and the same on one line with a stray character and a comment: the
fault is on the line of the operator. -/
theorem lines_change_nothing_else_division :
    ((∃ t ∈ (scan "output 1\n/\n0;").tokens, t.kind = .eof) ∧
      parse ((scan "output 1\n/\n0;").tokens.map (Token.relabel (· + 7))) =
        (parse (scan "output 1\n/\n0;").tokens).relabel (· + 7)) ∧
    (World.initial.WellFormed ∧
      ((World.initial.relabel (· + 7)).interpret 9 (quotient.map (Stmt.relabel (· + 7)))).map
        Prod.fst = some (.error (.divisionByZero 9))) ∧
    (scan "output 1\n/\n0;").tokens.map Token.word =
      (scan "output @1 / 0; // none").tokens.map Token.word ∧
    EndAlike (scan "output 1\n/\n0;").tokens (scan "output @1 / 0; // none").tokens
      (.error (.fault (.divisionByZero 2))) (.error (.fault (.divisionByZero 1))) := by
  have heof := exists_eof_scan "output 1\n/\n0;"
  have hwords : (scan "output 1\n/\n0;").tokens.map Token.word =
      (scan "output @1 / 0; // none").tokens.map Token.word := by decide +kernel
  have ha : runProgram 9 "output 1\n/\n0;" =
      some (.error (.fault (.divisionByZero 2)), .empty) := by with_unfolding_all rfl
  have hb : runProgram 9 "output @1 / 0; // none" =
      some (.error (.fault (.divisionByZero 1)), .empty) := by with_unfolding_all rfl
  obtain ⟨hparse, hrun, -, hsource⟩ := lines_change_nothing_else
  refine ⟨⟨heof, hparse _ _ heof⟩, ⟨initial_wellFormed, ?_⟩, hwords, ?_⟩
  · rw [hrun (· + 7) 9 quotient .initial initial_wellFormed, Option.map_map]
    with_unfolding_all rfl
  · have h := hsource _ _ hwords 9
    rw [ha, hb] at h
    cases h with
    | some h => exact h.1

end ClosureLang
