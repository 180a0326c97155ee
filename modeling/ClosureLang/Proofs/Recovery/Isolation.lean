import ClosureLang.Proofs.Recovery.Headers

namespace ClosureLang

namespace Builder

/-- Tokens that end in a semicolon, of which no statement is read, are left behind by the mistakes
in them where a declaration starts. -/
theorem foldl_of_empty {ts : List Token} {last : Token} (hlast : ts.getLast? = some last)
    (hs : last.kind = .semicolon) (hts : ∀ t ∈ ts, t.Inner ∧ t.kind ≠ .for)
    (hempty : (parse ts).statements = []) :
    ts.foldl feed start = start.onto [] (parse ts).errors.reverse := by
  have hstraight : (ts.foldl feed start).Straight false :=
    straight_start.foldl fun t ht => ⟨fun hk => absurd hk (hts t ht).2, (hts t ht).1.1⟩
  have hrun : parse ts = (ts.foldl feed start).finish (.endOfInput 0) :=
    run_foldl fun t ht => (hts t ht).1.2.2
  have hshows : (ts.foldl feed start).Shows last := by
    obtain ⟨init, rfl⟩ := List.getLast?_eq_some_iff.mp hlast
    rw [List.foldl_append]
    exact shows_feed (hts last (by simp)).1
  have hbetween : (ts.foldl feed start).Between := by
    rw [Shows, hs] at hshows
    exact hstraight.between hshows
  obtain ⟨hp, hopened⟩ | ⟨s, hp, hparts⟩ :=
    (formed_foldl ts).between hbetween hstraight.1.countP
  · generalize ts.foldl feed start = b at hp hopened hrun
    obtain ⟨position, opened, ss, es⟩ := b
    cases hp
    cases hopened
    have hparse : parse ts = ⟨ss.reverse, es.reverse⟩ := hrun
    rw [hparse] at hempty ⊢
    obtain rfl : ss = [] := List.reverse_eq_nil_iff.mp hempty
    simp [start, onto]
  · -- A statement that was read would be listed at the end.
    obtain ⟨s', hfeed⟩ := feed_end_of_parts hp hparts (t := .endOfInput 0) rfl
    rw [hrun, finish, hfeed] at hempty
    simp at hempty

end Builder

/-- A declaration with a mistake that ends in a semicolon is dropped with its complaints, and the
declarations in front of it and behind it are read as if it were not there; only braces, the header
of a `for` loop and an `else` in front can tie it to its neighbours. What stands behind it need not
be a program, and how many mistakes are in it does not matter. -/
theorem malformed_declaration_isolated (p m q : List Token) (last : Token)
    (hp : ∀ t ∈ p, t.kind ≠ .eof) (hquiet : (parse p).errors = [])
    (hlast : m.getLast? = some last) (hs : last.kind = .semicolon)
    (hm : ∀ t ∈ m, t.kind ∉ [.leftBrace, .rightBrace, .for, .eof])
    (helse : ∀ t ∈ m.head?, t.kind ≠ .else) (hempty : (parse m).statements = []) :
    parse (p ++ m ++ q) =
      ⟨(parse p).statements ++ (parse q).statements, (parse m).errors ++ (parse q).errors⟩ := by
  have hinner : ∀ t ∈ m, t.Inner ∧ t.kind ≠ .for := by
    intro t ht
    have := hm t ht
    simp only [List.mem_cons, List.not_mem_nil, or_false, not_or] at this
    exact ⟨⟨this.1, this.2.1, this.2.2.2⟩, this.2.2.1⟩
  have hmq : parse (m ++ q) = ⟨(parse q).statements, (parse m).errors ++ (parse q).errors⟩ := by
    rw [parse, Builder.run_append fun t ht => (hinner t ht).1.2.2,
      Builder.foldl_of_empty hlast hs hinner hempty, Builder.onto_run, List.reverse_reverse]
    rfl
  have hhead : ∀ t ∈ (m ++ q).head?, t.kind ≠ .else := by
    cases m with
    | nil => cases hlast
    | cons t m => exact helse
  rw [List.append_assoc, (Grammar.program_of_quiet hp hquiet).parse_append hhead, hmq]
  rfl

/-- The tokens `create = 1 +;` with no name. -/
def nameless : List Token :=
  [.make .create "create" 2, .make .equal "=" 2, .make .number "1" 2, .make .plus "+" 2,
   .make .semicolon ";" 2]

/-- The declaration without a name is dropped, and nothing around it. -/
theorem malformed_declaration_isolated_nameless :
    parse (openEnded ++ nameless ++ halfMalformed) =
      ⟨[.ifThen (.lookup "a" 1) (.expression (.lookup "b" 1)), .output (.lookup "c" 3)],
        [.expectedToken "Expect variable name." "'='" 2, .expectedExpression "';'" 2]⟩ :=
  malformed_declaration_isolated openEnded nameless halfMalformed (.make .semicolon ";" 2)
    (by decide) rfl rfl rfl (by decide) (by decide) rfl

end ClosureLang
