/-
  ObjectExpr.Proofs.LineByLine — an expression read line by line. Every line is decoded before any is parsed,
  and bytes are a text just if all of their lines are. The lines, trimmed and joined by spaces, have the
  lexemes of the text, but for quoted texts that go on over a line end; and no text of a literal decides
  whether an expression is accepted, or how it is faulty. So the lines are accepted just if the text is, with
  its trees if no quoted text of it holds a line end (`lines_are_read_as_text`).

  Arguments are trimmed and joined the same way. So they come to what they come to as the lines of an input
  (`arguments_are_lines`); the one thing to tell the two apart is an empty last argument, which makes no line.
-/

import ObjectExpr.Proofs.Grammar.Comparison
import ObjectExpr.Proofs.Lexer.Rejoined
import ObjectExpr.Proofs.Splitting
import ObjectExpr.Request

namespace ObjectExpr

open Text (isBlank byteSize cutLines trim)
open ObjectExpr.Parser

/-! ## Runs on tokens that compare -/

/-- A fault without the place of an open quote. -/
def Fault.withoutOffset : Fault → Fault
  | unterminated _ => unterminated 0
  | fault => fault

namespace Parser

variable {c : Comparison} {lookup : String → Option String}

/-- Tokens whose words compare. -/
def TokensCompare (c : Comparison) (ts us : List Token) : Prop :=
  List.Forall₂ (fun t u => WordsCompare c t.word u.word) ts us

theorem fault_failure {t u : Token} {ts us : List Token} {e e' : Ending} (hts : TokensCompare c ts us)
    (he : EndingsMatch e e') (r : Refusal) :
    (State.failure t r ts e).fault.withoutOffset = (State.failure u r us e').fault.withoutOffset := by
  cases hts with
  | nil =>
    cases he with
    | finish p q => rfl
    | unterminated p q =>
      rw [State.failure, State.failure]
      split
      · rfl
      · rfl
  | cons _ _ => cases he <;> rfl

/-- Runs on tokens that compare go wrong in the same way, or come to trees that compare. -/
theorem State.run_compares {s s' : State} (h : StatesCompare c lookup s s') {ts us : List Token}
    (hts : TokensCompare c ts us) {e e' : Ending} (he : EndingsMatch e e') :
    SameOutcome (fun f f' => f.fault.withoutOffset = f'.fault.withoutOffset)
      (fun x x' => List.Forall₂ c.tree (x.forest lookup) (x'.forest lookup)) (s.run e ts) (s'.run e' us) := by
  induction hts generalizing s s' with
  | nil =>
    cases he with
    | unterminated p q => exact .error rfl
    | finish p q =>
      have hfinish := finish_compares h
      rw [run, run]
      generalize s.finish = x at hfinish
      generalize s'.finish = x' at hfinish
      cases hfinish with
      | error hf => exact .error (congrArg Fault.withoutOffset hf)
      | ok hx => exact .ok hx
  | @cons t u ts us hw hts ih =>
    have hstep := step_compares h hw
    rw [run, run]
    generalize s.step t.word = x at hstep
    generalize s'.step u.word = x' at hstep
    cases hstep with
    | error hr =>
      subst hr
      exact .error (fault_failure hts he _)
    | ok hs => exact ih hs

end Parser

/-- Texts whose tokens compare have the same fault, or trees that compare. -/
theorem parseForest_compares {c : Comparison} (lookup : String → Option String) {input input' : String}
    (hts : TokensCompare c (Cursor.ofString input).read.1 (Cursor.ofString input').read.1)
    (he : EndingsMatch (Cursor.ofString input).read.2 (Cursor.ofString input').read.2) :
    SameOutcome (fun e e' => e.fault.withoutOffset = e'.fault.withoutOffset) (List.Forall₂ c.tree)
      (parseForest lookup input) (parseForest lookup input') := by
  have hstart : StatesCompare c lookup .start .start := .start
  have hrun := State.run_compares hstart hts he
  rw [parseForest, parseForest, parse_eq_run, parse_eq_run]
  generalize State.start.run _ (Cursor.ofString input).read.1 = x at hrun
  generalize State.start.run _ (Cursor.ofString input').read.1 = x' at hrun
  cases hrun with
  | error hf => exact .error hf
  | ok ht => exact .ok ht

/-! ## The lines of a text -/

/-- Everything compares. -/
def Comparison.any : Comparison where
  name _ _ := True
  tree _ _ := True
  name_refl _ := trivial
  tree_refl _ := trivial
  text _ := trivial
  insert _ _ _ := trivial
  array _ := trivial

theorem LexemesMatch.words_compare {l l' : Lexeme} (h : LexemesMatch l l') : WordsCompare .any l.word l'.word := by
  cases h with
  | same => exact .refl _
  | quoted => exact .literal trivial

/-- No quoted text goes on over a line end. -/
def QuotesWithinLines (input : String) : Prop :=
  ∀ t ∈ (Cursor.ofString input).read.1, ∀ content, t.lexeme = .quoted content → '\n' ∉ content

/-- The lines of a text, trimmed and joined, have its lexemes and its end. -/
theorem read_lines (text : List Char) :
    let whole := (Cursor.ofString (String.ofList text)).read
    let lines := (Cursor.ofString (String.ofList (rejoin (cutLines text)))).read
    List.Forall₂ (fun t u => LexemesMatch t.lexeme u.lexeme) whole.1 lines.1 ∧ EndingsMatch whole.2 lines.2 := by
  obtain ⟨bs, rest, hbs, htext, hrest⟩ := exists_rejoined text
  have hblanks := Cursor.read_blanks hbs rest 0
  have hread := Cursor.read_rejoined (c := ⟨rest, 0 + byteSize bs⟩) (d := ⟨rejoin (cutLines text), 0⟩) hrest
  rw [← hblanks, ← htext] at hread
  simpa [Cursor.ofString] using hread

theorem LexemesMatch.eq {l l' : Lexeme} (h : LexemesMatch l l') (hq : ∀ content, l = .quoted content → '\n' ∉ content) :
    l = l' := by
  cases h with
  | same => rfl
  | quoted hn => exact absurd hn (hq _ rfl)

/-- The lines of a text have its fault, or trees, and then the same if no quoted text goes on over a line end. -/
theorem parseForest_lines (lookup : String → Option String) (text : List Char) :
    SameOutcome (fun e e' => e.fault.withoutOffset = e'.fault.withoutOffset)
      (fun forest forest' => QuotesWithinLines (String.ofList text) → forest = forest')
      (parseForest lookup (String.ofList text)) (parseForest lookup (String.ofList (rejoin (cutLines text)))) := by
  obtain ⟨hts, he⟩ := read_lines text
  by_cases hq : QuotesWithinLines (String.ofList text)
  · have hsame : TokensCompare .same (Cursor.ofString (String.ofList text)).read.1
        (Cursor.ofString (String.ofList (rejoin (cutLines text)))).read.1 :=
      ((List.forall₂_and_left _ _).mpr ⟨hq, hts⟩).imp fun t u h => by
        rw [Token.word, Token.word, h.2.eq h.1]
        exact .refl _
    refine (parseForest_compares lookup hsame he).imp (fun _ _ h => h) fun forest forest' hf _ => ?_
    change List.Forall₂ Eq forest forest' at hf
    rwa [List.forall₂_eq_eq_eq] at hf
  · have hany : TokensCompare .any (Cursor.ofString (String.ofList text)).read.1
        (Cursor.ofString (String.ofList (rejoin (cutLines text)))).read.1 := hts.imp fun _ _ h => h.words_compare
    exact (parseForest_compares lookup hany he).imp (fun _ _ h => h) fun _ _ _ h => absurd h hq

theorem joinLines_eq_rejoin (lines : List String) :
    joinLines lines = String.ofList (rejoin (lines.map String.toList)) := by
  rw [joinLines, rejoin, List.map_map]
  rfl

theorem parseBytes_encode (lookup : String → Option String) (text : List Char) :
    parseBytes lookup (Text.encode text) =
      (parseForest lookup (String.ofList (rejoin (cutLines text)))).mapError InputError.parse := by
  have hjoin : joinLines ((cutLines text).map fun line => String.ofList (Text.dropEnd '\n' '\r' line)) =
      String.ofList (rejoin (cutLines text)) := by
    rw [joinLines_eq_rejoin, rejoin, rejoin, List.map_map, List.map_map]
    congr 2
    refine List.map_congr_left fun line _ => ?_
    rw [Function.comp, Function.comp, String.toList_ofList, Text.trim_dropEnd]
  rw [parseBytes, Text.decodeLines?_encode]
  show (parseLines lookup _).mapError _ = _
  rw [parseLines, hjoin]

theorem parseBytes_eq_notText_iff (lookup : String → Option String) (bytes : List UInt8) :
    parseBytes lookup bytes = .error .notText ↔ Text.decode? bytes = none := by
  rw [← Text.decodeLines?_eq_none_iff, parseBytes]
  cases Text.decodeLines? bytes with
  | none => simp
  | some lines =>
    show (parseLines lookup lines).mapError InputError.parse = _ ↔ _
    cases parseLines lookup lines <;> simp [Except.mapError]

/-- Read line by line, bytes are refused as no text just if they are none, whatever is wrong with a line
    before. A text is accepted just if it is accepted as a whole, else it has the same fault but for the place
    of an open quote; and the trees are the same if no quoted text goes on over a line end. -/
theorem lines_are_read_as_text (lookup : String → Option String) (bytes : List UInt8) :
    (parseBytes lookup bytes = .error .notText ↔ Text.decode? bytes = none) ∧
      ∀ text, Text.decode? bytes = some text →
        let whole := parseForest lookup (String.ofList text)
        ((∃ forest, parseBytes lookup bytes = .ok forest) ↔ ∃ forest, whole = .ok forest) ∧
        (∀ e e', parseBytes lookup bytes = .error e → whole = .error e' →
          ∃ p, e = .parse p ∧ p.fault.withoutOffset = e'.fault.withoutOffset) ∧
        (QuotesWithinLines (String.ofList text) →
          ∀ forest forest', parseBytes lookup bytes = .ok forest → whole = .ok forest' → forest = forest') := by
  refine ⟨parseBytes_eq_notText_iff lookup bytes, fun text htext => ?_⟩
  rw [Text.eq_encode_of_decode? htext, parseBytes_encode]
  have hlines := parseForest_lines lookup text
  intro whole
  change SameOutcome _ _ whole _ at hlines
  generalize parseForest lookup (String.ofList (rejoin (cutLines text))) = lines at hlines
  generalize whole = whole at hlines
  cases hlines with
  | @error e e' he =>
    refine ⟨by simp [Except.mapError], ?_, by simp [Except.mapError]⟩
    intro d d' hd hd'
    cases hd
    cases hd'
    exact ⟨_, rfl, he.symm⟩
  | @ok forest forest' hf =>
    refine ⟨by simp [Except.mapError], by simp [Except.mapError], ?_⟩
    intro hq g g' hg hg'
    cases hg
    cases hg'
    exact (hf hq).symm

/-- An expression on two lines, with a carriage return before the line end. -/
theorem lines_are_read_as_text_of_two :
    let lookup : String → Option String := fun _ => none
    let text := "a=\"x y\" \r\n b=z\n".toList
    let root := Tree.object [("a", .scalar (.string "x y")), ("b", .scalar (.string "z"))]
    Text.decode? (Text.encode text) = some text ∧ QuotesWithinLines (String.ofList text) ∧
      parseForest lookup (String.ofList text) = .ok [root] ∧ parseBytes lookup (Text.encode text) = .ok [root] := by
  intro lookup text root
  have hdecode : Text.decode? (Text.encode text) = some text := Text.decode?_encode text
  have hlex : Lexes (String.ofList text) [⟨.bare ['a'], 0⟩, ⟨.mark .assign, 1⟩, ⟨.quoted ['x', ' ', 'y'], 2⟩,
      ⟨.bare ['b'], 11⟩, ⟨.mark .assign, 12⟩, ⟨.bare ['z'], 13⟩] :=
    ⟨15, by decide +kernel⟩
  have hquotes : QuotesWithinLines (String.ofList text) := by
    obtain ⟨stop, hread⟩ := hlex
    intro t ht content hc
    rw [hread] at ht
    simp only [List.mem_cons, List.not_mem_nil, or_false] at ht
    rcases ht with rfl | rfl | rfl | rfl | rfl | rfl <;> cases hc
    decide
  have hwhole : parseForest lookup (String.ofList text) = .ok [root] := (parseForest_eq_ok_iff_forest? hlex).mpr rfl
  obtain ⟨hok, -, hsame⟩ := (lines_are_read_as_text lookup (Text.encode text)).2 text hdecode
  obtain ⟨forest, hforest⟩ := hok.mpr ⟨[root], hwhole⟩
  have heq := hsame hquotes forest [root] hforest hwhole
  exact ⟨hdecode, hquotes, hwhole, heq ▸ hforest⟩

/-! ## Arguments -/

/-- Blanks behind a text change neither its trees nor its fault. -/
theorem mapError_parseForest_append_blank (lookup : String → Option String) (cs : List Char) {bs : List Char}
    (hb : ∀ c ∈ bs, isBlank c = true) :
    (parseForest lookup (String.ofList (cs ++ bs))).mapError (·.fault) =
      (parseForest lookup (String.ofList cs)).mapError (·.fault) := by
  have happend : Cursor.ofString (String.ofList (cs ++ bs)) = (Cursor.ofString (String.ofList cs)).append bs := by
    simp [Cursor.ofString, Cursor.append]
  have hbreaks : Breaks bs := .of_blank hb
  cases hr : (Cursor.ofString (String.ofList cs)).read with
  | mk ts e =>
    cases e with
    | finish p =>
      have hread := Cursor.read_append hr hbreaks
      rw [← happend, Cursor.read_of_blank hb, List.append_nil] at hread
      exact mapError_parseForest_congr lookup ⟨_, hread⟩ ⟨p, hr⟩ rfl
    | unterminated p =>
      have hquote : '"' ∉ bs := by
        intro hm
        cases hb _ hm
      have hread := Cursor.read_append_unterminated hr hbreaks hquote
      rw [← happend] at hread
      rw [parseForest, parseForest, parse_eq_run, parse_eq_run, hread, hr]
      cases State.start.run (.unterminated p) ts <;> rfl

theorem getLast?_of_cutLines_eq_nil {line : List Char} {ls : List (List Char)}
    (h : cutLines (['\n'].intercalate (line :: ls)) = []) : (line :: ls).getLast? = some [] := by
  have hflat := Text.flatten_cutLines (['\n'].intercalate (line :: ls))
  rw [h, List.flatten_nil] at hflat
  cases ls with
  | nil =>
    rw [List.intercalate_singleton] at hflat
    rw [← hflat]
    rfl
  | cons next ls => simp [List.intercalate_cons_cons] at hflat

/-- Joined by line ends and cut again, lines are what they were, but for an empty last one. -/
theorem exists_rejoin_cutLines {ls : List (List Char)} (hne : ls ≠ []) (hn : ∀ line ∈ ls, '\n' ∉ line) :
    ∃ bs, (∀ c ∈ bs, isBlank c = true) ∧ rejoin ls = rejoin (cutLines (['\n'].intercalate ls)) ++ bs ∧
      (ls.getLast? ≠ some [] → bs = []) := by
  induction ls with
  | nil => exact absurd rfl hne
  | cons line ls ih =>
    obtain ⟨hline, hls⟩ := List.forall_mem_cons.mp hn
    cases ls with
    | nil =>
      refine ⟨[], by simp, ?_, fun _ => rfl⟩
      rw [List.intercalate_singleton, List.append_nil]
      by_cases hempty : line = []
      · subst hempty
        rfl
      · rw [Text.cutLines_last hline hempty]
    | cons next ls =>
      obtain ⟨bs, hb, heq, hlast⟩ := ih (by simp) hls
      have hcut : cutLines (['\n'].intercalate (line :: next :: ls)) =
          (line ++ ['\n']) :: cutLines (['\n'].intercalate (next :: ls)) := by
        rw [List.intercalate_cons_cons, List.append_assoc]
        exact Text.cutLines_line hline _
      rw [hcut, rejoin_cons_cons, heq, List.getLast?_cons_cons]
      cases hrest : cutLines (['\n'].intercalate (next :: ls)) with
      | nil =>
        -- what is behind the line is one empty line, and its place is all that is left of it
        have hempty : (next :: ls).getLast? = some [] := getLast?_of_cutLines_eq_nil hrest
        refine ⟨' ' :: bs, List.forall_mem_cons.mpr ⟨rfl, hb⟩, ?_, fun h => absurd hempty h⟩
        rw [rejoin, rejoin, List.map_singleton, List.intercalate_singleton, Text.trim_append_lineFeed]
        rfl
      | cons first rest =>
        refine ⟨bs, hb, ?_, hlast⟩
        rw [rejoin_cons_cons, Text.trim_append_lineFeed, List.append_assoc, List.cons_append]

/-- Arguments joined by line ends have lines that come to the arguments joined, but for a blank at the end if
    the last argument is empty. -/
theorem exists_joinLines_eq {args : List String} (hne : args ≠ []) (hn : ∀ arg ∈ args, '\n' ∉ arg.toList) :
    ∃ bs, (∀ c ∈ bs, isBlank c = true) ∧
      joinLines args = String.ofList (rejoin (cutLines ("\n".intercalate args).toList) ++ bs) ∧
      (args.getLast? ≠ some "" → bs = []) := by
  have hne' : args.map String.toList ≠ [] := by simpa using hne
  have hn' : ∀ line ∈ args.map String.toList, '\n' ∉ line := by simpa using hn
  obtain ⟨bs, hb, heq, hlast⟩ := exists_rejoin_cutLines hne' hn'
  refine ⟨bs, hb, ?_, fun h => hlast ?_⟩
  · rw [joinLines_eq_rejoin, heq, String.toList_intercalate]
    rfl
  · rw [List.getLast?_map]
    cases hl : args.getLast? with
    | none => simp
    | some last =>
      rw [hl] at h
      simpa using h

/-- Arguments without line ends come to the same as the lines of an input: to one output, or to one fault. If
    the last of them is not empty, the report of the fault is the same, too. -/
theorem arguments_are_lines (lookup : String → Option String) (input : Option String) (format : Format)
    {args : List String} (hne : args ≠ []) (hn : ∀ arg ∈ args, '\n' ∉ arg.toList) :
    let given := Request.answer lookup ⟨args, input, format⟩
    let piped := Request.answer lookup ⟨[], some ("\n".intercalate args), format⟩
    (∃ output, given = .ok output ∧ piped = .ok output) ∨
      ∃ e e', given = .error (.parse e) ∧ piped = .error (.input (.parse e')) ∧ e.fault = e'.fault ∧
        (args.getLast? ≠ some "" → e = e') := by
  intro given piped
  obtain ⟨bs, hb, hjoin, hlast⟩ := exists_joinLines_eq hne hn
  have hgiven : given = ((parseForest lookup (joinLines args)).mapError RequestError.parse).map (·.render format) := by
    obtain ⟨arg, rest, rfl⟩ := List.exists_cons_of_ne_nil hne
    rfl
  have hpiped : piped = (((parseForest lookup (String.ofList (rejoin (cutLines ("\n".intercalate args).toList)))).mapError
      InputError.parse).mapError RequestError.input).map (·.render format) := by
    rw [← parseBytes_encode]
    rfl
  have hfault := mapError_parseForest_append_blank lookup (rejoin (cutLines ("\n".intercalate args).toList)) hb
  rw [← hjoin] at hfault
  have hsame : args.getLast? ≠ some "" →
      parseForest lookup (joinLines args) =
        parseForest lookup (String.ofList (rejoin (cutLines ("\n".intercalate args).toList))) := by
    intro h
    rw [hjoin, hlast h, List.append_nil]
  rw [hgiven, hpiped]
  generalize parseForest lookup (joinLines args) = x at hfault hsame
  generalize parseForest lookup (String.ofList _) = x' at hfault hsame
  cases x with
  | error e =>
    cases x' with
    | error e' => exact .inr ⟨e, e', rfl, rfl, Except.error.inj hfault, fun h => Except.error.inj (hsame h)⟩
    | ok forest' => cases hfault
  | ok forest =>
    cases x' with
    | error e' => cases hfault
    | ok forest' => exact .inl ⟨forest.render format, rfl, by rw [Except.ok.inj hfault]; rfl⟩

/-- A quoted text that goes on from one argument to the next. -/
theorem arguments_are_lines_in_quotes :
    let lookup : String → Option String := fun _ => none
    let args := ["a=\"x ", "\ty\" b", "=z"]
    let root := Tree.object [("a", .scalar (.string "x y")), ("b", .scalar (.string "z"))]
    let output := Forest.render .json [root]
    args ≠ [] ∧ (∀ arg ∈ args, '\n' ∉ arg.toList) ∧ Request.answer lookup ⟨args, none, .json⟩ = .ok output ∧
      Request.answer lookup ⟨[], some ("\n".intercalate args), .json⟩ = .ok output := by
  intro lookup args root output
  have hne : args ≠ [] := by simp [args]
  have hn : ∀ arg ∈ args, '\n' ∉ arg.toList := by decide +kernel
  have hjoin : joinLines args = "a=\"x y\" b =z" := by decide +kernel
  have hlex : Lexes "a=\"x y\" b =z" [⟨.bare ['a'], 0⟩, ⟨.mark .assign, 1⟩, ⟨.quoted ['x', ' ', 'y'], 2⟩,
      ⟨.bare ['b'], 8⟩, ⟨.mark .assign, 10⟩, ⟨.bare ['z'], 11⟩] :=
    ⟨12, by decide +kernel⟩
  have hgiven : Request.answer lookup ⟨args, none, .json⟩ = .ok output := by
    show ((parseForest lookup (joinLines args)).mapError RequestError.parse).map _ = _
    have hparse : parseForest lookup "a=\"x y\" b =z" = .ok [root] := (parseForest_eq_ok_iff_forest? hlex).mpr rfl
    rw [hjoin, hparse]
    rfl
  rcases arguments_are_lines lookup none .json hne hn with ⟨other, hok, hpiped⟩ | ⟨e, e', herror, -⟩
  · rw [hgiven] at hok
    exact ⟨hne, hn, hgiven, Except.ok.inj hok ▸ hpiped⟩
  · rw [hgiven] at herror
    cases herror

end ObjectExpr
