import ClosureLang.Proofs.Printing.Appending
import Mathlib

namespace ClosureLang

/-- Two ends of a run with different outputs: the same result, and the same text behind each. -/
structure World.EndsAlike (o o' : Output) (r r' : Except Fault Unit × World) : Prop where
  result : r.1 = r'.1
  output : ∃ text, r.2.output = o.append text ∧ r'.2.output = o'.append text

/-- A program writes to the console what it puts into a buffer, and ends alike. -/
theorem World.interpret_endsAlike (steps : Nat) (body : List Stmt) (w : World) (o o' : Output) :
    Option.Rel (EndsAlike o o') (interpret steps body (w.printingTo o))
      (interpret steps body (w.printingTo o')) := by
  obtain ⟨store, scope, before⟩ := w
  obtain hnone | ⟨result, store', text, h⟩ := none_or_prints steps body scope store
  · simp only [printingTo, hnone]
    exact .none
  · simp only [printingTo, h.ends]
    exact .some ⟨rfl, text, rfl, rfl⟩

namespace Report

theorem lines_singleton (text : String) : lines [text] = text ++ "\n" := by
  simp [lines]

/-- Lines of text are the texts with line breaks between them and one behind the last. -/
theorem lines_eq_intercalate {texts : List String} (h : texts ≠ []) :
    lines texts = "\n".intercalate texts ++ "\n" := by
  induction texts with
  | nil => contradiction
  | cons text rest ih =>
    by_cases hr : rest = []
    · rw [hr, lines_singleton, String.intercalate_singleton]
    · have hcons : lines (text :: rest) = lines [text] ++ lines rest := lines_append [text] rest
      rw [hcons, ih hr, lines_singleton, String.intercalate_cons_of_ne_nil hr, String.append_assoc,
        String.append_assoc, String.append_assoc]

/-- The lines of a rejected program are the text of its error. -/
theorem lines_rejected {lexical : List LexicalError} {mistakes : List SyntaxError}
    (h : mistakes ≠ []) :
    lines (lexical.map LexicalError.message) ++ lines (mistakes.map SyntaxError.message) =
      (ProgramError.rejected lexical mistakes).message ++ "\n" := by
  rw [← lines_append, lines_eq_intercalate (by simp [h]), ProgramError.message]

/-- What the switches list: the tokens, and the statements if the tokens are a program. -/
def listed (tokens ast : Bool) (source : String) : String :=
  (if tokens then lines ((scan source).tokens.map Token.listing) else "") ++
    if ast && (parse (scan source).tokens).isOk then
      lines ((parse (scan source).tokens).statements.map Stmt.listing)
    else ""

/-- The report with a text in front of the output. -/
def listing (text : String) (report : Report) : Report :=
  { report with stdout := text ++ report.stdout }

/-- A report of running a script and the result of its program show the same. -/
structure Agrees (source : String) (result : Except ProgramError Unit × Output)
    (report : Report) : Prop where
  stdout : report.stdout = result.2.collected
  success : report.code = 0 ↔ result.1 = .ok ()
  rejection : report.code = 65 ↔
    ∃ lexical mistakes, result.1 = .error (.rejected lexical mistakes)
  fault : report.code = 70 ↔ ∃ f, result.1 = .error (.fault f)
  successText : result.1 = .ok () →
    report.stderr = lines ((scan source).errors.map LexicalError.message)
  rejectionText : ∀ lexical mistakes, result.1 = .error (.rejected lexical mistakes) →
    report.stderr = lines ((scan source).errors.map LexicalError.message) ++
        lines (mistakes.map SyntaxError.message) ∧
      report.stderr = (ProgramError.rejected lexical mistakes).message ++ "\n"
  faultText : ∀ f, result.1 = .error (.fault f) →
    report.stderr = lines ((scan source).errors.map LexicalError.message) ++
      ((ProgramError.fault f).message ++ "\n")

variable {steps : Nat} {source : String}

/-- Without listings the command shows what the program does with a buffer. -/
theorem agrees_ofSource (options : Options) (ht : options.tokens = false)
    (ha : options.ast = false) :
    Option.Rel (Agrees source) (runProgram steps source) (ofSource steps options source) := by
  simp only [runProgram, ofSource, ht, ha, Bool.false_eq_true, if_false]
  cases hok : (parse (scan source).tokens).isOk with
  | false =>
    have hm : (parse (scan source).tokens).errors ≠ [] := by
      simpa [Parsed.isOk] using hok
    refine .some ⟨rfl, by simp, by simp, by simp, by simp, ?_, by simp⟩
    rintro lexical mistakes ⟨⟩
    exact ⟨rfl, lines_rejected hm⟩
  | true =>
    have halike : Option.Rel (World.EndsAlike .empty (.console ""))
        (World.interpret steps (parse (scan source).tokens).statements .initial)
        (World.interpret steps (parse (scan source).tokens).statements
          (World.initial.printingTo (.console ""))) :=
      World.interpret_endsAlike steps _ .initial .empty _
    simp only [if_true, String.append_empty]
    generalize World.interpret steps _ .initial = buffered at halike ⊢
    generalize World.interpret steps _ _ = written at halike ⊢
    cases halike with
    | none => exact .none
    | @some r r' h =>
      obtain ⟨result, w⟩ := r
      obtain ⟨result', w'⟩ := r'
      obtain ⟨rfl, text, hw, hw'⟩ := h
      have hshown : w'.output.text = w.output.collected := by
        rw [hw, hw']
        rfl
      cases result with
      | ok => exact .some ⟨hshown, by simp, by simp, by simp, fun _ => rfl, by simp, by simp⟩
      | error f =>
        refine .some ⟨hshown, by simp, by simp, by simp, by simp, by simp, ?_⟩
        rintro _ ⟨⟩
        change _ ++ lines [f.message] = _ ++ (f.message ++ "\n")
        rw [lines_singleton]

/-- The switches that list change the report only in front of its output. -/
theorem ofSource_listing (options plain : Options) (ht : plain.tokens = false)
    (ha : plain.ast = false) :
    ofSource steps options source =
      (ofSource steps plain source).map (listing (listed options.tokens options.ast source)) := by
  simp only [ofSource, ht, ha, Bool.false_eq_true, if_false]
  cases hok : (parse (scan source).tokens).isOk with
  | false => simp [listing, listed, hok]
  | true =>
    have halike := World.interpret_endsAlike steps (parse (scan source).tokens).statements .initial
      (.console "") (.console (listed options.tokens options.ast source))
    simp only [listed, hok, Bool.and_true] at halike ⊢
    simp only [if_true, String.append_empty]
    generalize World.interpret steps _ (World.initial.printingTo (.console "")) = alone at halike ⊢
    generalize World.interpret steps _ _ = behind at halike ⊢
    cases halike with
    | none => rfl
    | @some r r' h =>
      obtain ⟨result, w⟩ := r
      obtain ⟨result', w'⟩ := r'
      obtain ⟨rfl, text, hw, hw'⟩ := h
      simp only at hw hw'
      cases result <;> simp [listing, Output.text, Output.append, hw, hw']

/-- A list of arguments shows what the program does, whether they hold the script or name its file,
and what they ask to list stands in front of the output. -/
theorem ofArguments_agrees (steps : Nat) (readFile : String → Except ReadFailure String) :
    (∀ source, Option.Rel (Agrees source) (runProgram steps source)
      (ofArguments steps readFile ["--", source])) ∧
    ∀ args file tokens ast script source,
      Request.ofArguments args = .ok (.run ⟨file, tokens, ast, 0, some script⟩ script) →
      (if file then readFile script = .ok source else script = source) →
        ofArguments steps readFile args =
          (ofArguments steps readFile ["--", source]).map (listing (listed tokens ast source)) := by
  have hplain : ∀ source, ofArguments steps readFile ["--", source] =
      ofSource steps { script := some source } source := fun _ => rfl
  refine ⟨fun source => ?_, fun args file tokens ast script source hargs hsource => ?_⟩
  · rw [hplain]
    exact agrees_ofSource _ rfl rfl
  · rw [hplain, ofArguments, hargs]
    cases file with
    | true =>
      have hread : readFile script = .ok source := hsource
      simp only [ofRequest, hread, if_true]
      exact ofSource_listing _ _ rfl rfl
    | false =>
      obtain rfl : script = source := hsource
      exact ofSource_listing ⟨false, tokens, ast, 0, some script⟩ _ rfl rfl

/-- The command reports on a source what the program does with a buffer: the same output, an exit
code for each kind of result, and the complaints about the text with those in the result behind
them. Listing the tokens or the statements puts text in front of the output and changes nothing
else; the statements are listed only if they could be read. -/
theorem report_agrees_with_program (steps : Nat) (source : String) (file tokens ast : Bool)
    (script : Option String) :
    Option.Rel (Agrees source) (runProgram steps source)
      (ofSource steps ⟨file, false, false, 0, script⟩ source) ∧
    ofSource steps ⟨file, tokens, ast, 0, script⟩ source =
      (ofSource steps ⟨file, false, false, 0, script⟩ source).map
        (listing (listed tokens ast source)) ∧
    listed false false source = "" ∧
    ((parse (scan source).tokens).isOk = false →
      listed tokens ast source = listed tokens false source) := by
  refine ⟨agrees_ofSource _ rfl rfl, ofSource_listing _ _ rfl rfl, rfl, fun hok => ?_⟩
  simp [listed, hok]

/-- A script with a stray character that prints a number and divides by zero, with its tokens and
its statements listed. -/
theorem report_agrees_with_program_division :
    ∃ report, ofSource 9 ⟨false, true, true, 0, none⟩ "output 1; output 1 / 0;@" = some report ∧
      report.code = 70 ∧ report.stdout = listed true true "output 1; output 1 / 0;@" ++ "1\n" ∧
      report.stderr = "Error on line 1: Unexpected character '@'.\n" ++
        "Error on line 1: Division by zero.\n" := by
  have hrun : ∃ o, runProgram 9 "output 1; output 1 / 0;@" =
      some (.error (.fault (.divisionByZero 1)), o) := ⟨_, by with_unfolding_all rfl⟩
  have hcollected : (runProgram 9 "output 1; output 1 / 0;@").map (·.2.collected) =
      some "1\n" := by decide +kernel
  have herrors : (scan "output 1; output 1 / 0;@").errors = [.unexpectedCharacter '@' 1] := by
    decide +kernel
  obtain ⟨o, hrun⟩ := hrun
  obtain ⟨hagrees, hlisting, -⟩ :=
    report_agrees_with_program 9 "output 1; output 1 / 0;@" false true true none
  rw [hrun] at hagrees hcollected
  generalize ofSource 9 ⟨false, false, false, 0, none⟩ _ = plain at hagrees hlisting
  cases hagrees with
  | some h =>
    refine ⟨_, hlisting, h.fault.mpr ⟨_, rfl⟩, ?_, ?_⟩
    · have hshown : o.collected = "1\n" := Option.some.inj hcollected
      rw [listing, h.stdout, hshown]
    · rw [listing, h.faultText _ rfl, herrors]
      rfl

end Report

end ClosureLang
