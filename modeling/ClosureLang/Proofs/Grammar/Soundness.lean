import ClosureLang.Proofs.Grammar.Complaints
import ClosureLang.Proofs.Grammar.StatementSpelling

namespace ClosureLang

open Grammar

namespace Builder

variable {b : Builder} {t : Token} {ts us : List Token}

/-- A token that is read without complaint keeps the tokens read so far spelt. -/
theorem feed_takes (hb : b.Spells ts) (h : (b.feed t).errors = []) : (b.feed t).Takes ts t := by
  obtain ⟨place, inside, us, vs, ho, hr, rfl⟩ := hb
  obtain ⟨p, opened, ss, es⟩ := b
  have hc : Room [] → ∃ n, Context n [] [] := fun _ => ⟨0, .nil⟩
  cases hr with
  | declaration => simpa [feed] using atDeclaration_takes ho h
  | statement => simpa [feed] using atStatement_takes ho nofun h
  | operand hu hc => simpa [feed] using atOperand_takes ho hu hc h
  | operator hu hc he => simpa [feed] using atOperator_takes ho hu hc he h
  | firstArgument hu hc he hopen =>
    refine .of_ite h (fun hk => ?_) fun hk h => ?_
    · have he' := Operand.callEmpty he hopen (Nat.zero_le _) hk
      exact .of_kind hk nofun ⟨_, _, _, _, ho, .operator hu hc he', by simp⟩
    · simpa using atOperand_takes ho hu (fun _ => ⟨_, hc.firstArgument he hopen⟩) h
  | completed hf => exact afterStatement_takes ho hf (fun _ => rfl) h
  | createName hp hk =>
    exact .of_need h nofun fun hn => ⟨_, _, _, _, ho, .createRest hp hk hn, by simp⟩
  | createRest hp hk hn =>
    refine .of_ite h (fun hq => ?_) fun hq h => .of_need h nofun fun hs => ?_
    · exact .of_kind hq nofun ⟨_, _, _, _, ho, .operand (.initial hp hk hn hq) hc, by simp⟩
    · exact ⟨_, _, _, _, ho, .completed (VarDecl.fits (.bare hk hn hs) hp), by simp⟩
  | functionName hf =>
    exact .of_need h nofun fun hn => ⟨_, _, _, _, ho, .functionOpen hf hn, by simp⟩
  | functionOpen hf hn =>
    exact .of_need h nofun fun hopen => ⟨_, _, _, _, ho, .firstParameter hf hn hopen, by simp⟩
  | firstParameter hf hn hopen =>
    refine .of_ite h (fun hk => ?_) fun hk h => ?_
    · have hh : Head (· ≤ 255) _ _ [] := .empty hf hn hopen (Nat.zero_le _) hk
      exact .of_kind hk nofun ⟨_, _, _, _, ho, .functionBrace hh, by simp⟩
    · exact atParameter_takes ho hf hn hopen (Nat.zero_le _) (fun _ ht => .first ht) h
  | parameter hf hn hopen hp hl hk =>
    refine atParameter_takes ho hf hn hopen hl (fun hl ht => ?_) h
    have hp' := hp.next hk ht
    rw [List.length_reverse, excess_of_lt hl] at hp'
    simpa using hp'
  | parameterRest hf hn hopen hp hl =>
    refine .of_ite h (fun hk => ?_) fun hk h => .of_need h nofun fun hk => ?_
    · exact .of_kind hk nofun ⟨_, _, _, _, ho, .parameter hf hn hopen hp hl hk, by simp⟩
    · have hh : Head (· ≤ 255) _ _ [] := .parameters hf hn hopen hp (by simpa using hl) hk
      exact ⟨_, _, _, _, ho, .functionBrace hh, by simp⟩
  | functionBrace hh =>
    exact .of_need h nofun fun hk => ⟨_, _, _, _, ho.body hh hk .nil, .declaration, by simp⟩
  | ifOpen hp hk =>
    exact .of_need h nofun fun hopen =>
      ⟨_, _, _, _, ho, .operand (.ifCondition hp hk hopen) hc, by simp⟩
  | loopOpen hp hk =>
    exact .of_need h nofun fun hopen =>
      ⟨_, _, _, _, ho, .operand (.loopCondition hp hk hopen) hc, by simp⟩
  | forOpen hp hk =>
    exact .of_need h nofun fun hopen => ⟨_, _, _, _, ho, .forStart hp hk hopen, by simp⟩
  | forStart hp hk hopen =>
    have ho' := ho.forInitial hp hk hopen
    unfold feed at h ⊢
    dsimp only at h ⊢
    split at h
    next hs =>
      have hu : Introduces place inside (.forCondition none) _ :=
        .forCondition hp hk hopen (.none hs)
      exact .of_kind hs nofun ⟨_, _, _, _, ho, .forCondition hu, by simp⟩
    next hcreate =>
      exact .of_kind hcreate nofun ⟨_, _, _, _, ho', .createName nofun hcreate, by simp⟩
    next => simpa using atOperand_takes ho' .expression hc h
  | forCondition hu => exact atForCondition_takes ho hu h
  | forIncrement hu =>
    refine .of_ite h (fun hk => ?_) fun hk h => ?_
    · cases hu with
      | forIncrement hp hkey hopen hi he hs =>
        have ho' := ho.forBody hp hkey hopen hi he hs .none hk
        exact .of_kind hk nofun ⟨_, _, _, _, ho', .statement, by simp⟩
    · simpa using atOperand_takes ho hu hc h
  | resultStart hu =>
    refine .of_ite h (fun hk => ?_) fun hk h => ?_
    · cases hu with
      | result hp hkey =>
        have hs : Statement (· ≤ 255) true false _ _ [] := .giveBack hkey .none hk
        exact .of_kind hk nofun ⟨_, _, _, _, ho, .completed (hs.fits hp), by simp⟩
    · simpa using atOperand_takes ho hu hc h

/-- Where a declaration could start and no block is open, the tokens are a program. -/
theorem Spells.program (h : b.Spells ts) (hp : b.position = .declaration)
    (hb : b.opened.countP Open.isBlock = 0) : Program (· ≤ 255) ts b.statements.reverse [] := by
  obtain ⟨place, inside, us, vs, ho, hr, rfl⟩ := h
  obtain ⟨p, opened, ss, es⟩ := b
  cases hp
  cases hr
  cases ho with
  | nil h => simpa [Program] using h
  | block => simp [Open.isBlock] at hb
  | body => simp [Open.isBlock] at hb

theorem Spells.finish (h : b.Spells ts) (ht : t.kind = .eof) (he : (b.finish t).errors = []) :
    Program (· ≤ 255) ts (b.finish t).statements [] := by
  unfold Builder.finish at he ⊢
  rw [List.reverse_eq_nil_iff, List.append_eq_nil_iff, List.replicate_eq_nil_iff] at he
  obtain ⟨hb, he⟩ := he
  cases feed_takes h he with
  | word hk => exact (hk ht).elim
  | stop _ hp h => exact h.program hp hb

/-- Tokens that are read without complaint, behind others that were, are a program with them. -/
theorem Spells.run (h : b.Spells ts) (he : (b.run us).errors = []) :
    Program (· ≤ 255) (ts ++ us.takeWhile (·.kind ≠ .eof)) (b.run us).statements [] := by
  induction us generalizing b ts with
  | nil => simpa [Builder.run] using h.finish rfl he
  | cons t us ih =>
    unfold Builder.run at he ⊢
    by_cases ht : t.kind = .eof
    · rw [if_pos ht] at he ⊢
      simpa [ht] using h.finish ht he
    · rw [if_neg ht] at he ⊢
      have hq : (b.feed t).errors = [] := by
        have hp := errors_run (b := b.feed t) us
        rw [he] at hp
        simpa using List.prefix_nil.mp hp
      cases feed_takes h hq with
      | word _ h => simpa [ht] using ih h he
      | stop hk => exact (ht hk).elim

theorem spells_start : start.Spells [] :=
  ⟨.list, false, [], [], .nil .nil, .declaration, rfl⟩

end Builder

/-- Tokens that are read without complaint are, up to the end token, the program that is read. -/
theorem program_of_parse {ts : List Token} (h : (parse ts).errors = []) :
    Program (· ≤ 255) (ts.takeWhile (·.kind ≠ .eof)) (parse ts).statements [] :=
  Builder.spells_start.run h

/-- The statement `if (a) if (b) c = d = x - y - z; else output !c;`. -/
def danglingElse : List Token :=
  [.make .if "if" 1, .make .leftParen "(" 1, .make .identifier "a" 1, .make .rightParen ")" 1,
   .make .if "if" 2, .make .leftParen "(" 2, .make .identifier "b" 2, .make .rightParen ")" 2,
   .make .identifier "c" 3, .make .equal "=" 3, .make .identifier "d" 3, .make .equal "=" 3,
   .make .identifier "x" 4, .make .minus "-" 4, .make .identifier "y" 4, .make .minus "-" 5,
   .make .identifier "z" 5, .make .semicolon ";" 5, .make .else "else" 6,
   .make .output "output" 6, .make .bang "!" 6, .make .identifier "c" 6, .make .semicolon ";" 6]

/-- The `else` belongs to the inner `if`, and the tokens behind the end token to no program. -/
theorem program_of_parse_danglingElse :
    (parse (danglingElse ++ [.endOfInput 7, .make .else "else" 8])).errors = [] ∧
      Program (· ≤ 255) danglingElse
        [.ifThen (.lookup "a" 1)
          (.ifElse (.lookup "b" 2)
            (.expression (.assign "c" (.assign "d"
              (.binary (.binary (.lookup "x" 4) .sub (.lookup "y" 4) 4) .sub (.lookup "z" 5) 5)
              3) 3))
            (.output (.unary .not (.lookup "c" 6) 6)))] [] := by
  have h : (parse (danglingElse ++ [.endOfInput 7, .make .else "else" 8])).errors = [] := rfl
  exact ⟨h, program_of_parse h⟩

end ClosureLang
