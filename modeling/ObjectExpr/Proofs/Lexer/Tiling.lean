/-
  ObjectExpr.Proofs.Lexer.Tiling — the tokens of a text tile it. A `Tiling` is a text cut into lexemes,
  with the blanks before each, the blanks behind the last one, and what stands behind a quote that is
  never closed, if the text has one. It fits if every lexeme is well spelled and ends where it has to.
  A tiling that fits has the tokens that are read off its text (`Fits.read_eq`), and no other tiling of
  the text fits (`Fits.eq_of_text_eq`). Every text has one, and its tokens and its end are all that is
  pulled from the text (`tokens_tile_input`).
-/

import ObjectExpr.Proofs.Lexer.Munch

namespace ObjectExpr

open Text (isBlank byteSize)

/-! ## Tilings -/

def Ending.position : Ending → Nat
  | finish p | unterminated p => p

/-- A lexeme with the blanks before it. -/
structure Tile where
  blanks : List Char
  lexeme : Lexeme

def Tile.text (t : Tile) : List Char := t.blanks ++ t.lexeme.source

/-- A text in tiles. Behind the last of them are blanks, and what is `opened` by a quote that is never
    closed, if there is one. -/
structure Tiling where
  tiles : List Tile
  blanks : List Char
  opened : Option (List Char)

namespace Tiling

def text (T : Tiling) : List Char :=
  T.tiles.flatMap Tile.text ++ (T.blanks ++ T.opened.elim [] fun cs => '"' :: cs)

/-- The tokens of a text that starts at the byte offset `k`, each where its own spelling starts. -/
def tokensFrom (k : Nat) : List Tile → List Token
  | [] => []
  | t :: ts => ⟨t.lexeme, k + byteSize t.blanks⟩ :: tokensFrom (k + byteSize t.text) ts

def tokens (T : Tiling) (k : Nat) : List Token := tokensFrom k T.tiles

/-- The end of the text, or the quote that is never closed. -/
def ending (T : Tiling) (k : Nat) : Ending :=
  match T.opened with
  | none => .finish (k + byteSize T.text)
  | some _ => .unterminated (k + byteSize (T.tiles.flatMap Tile.text ++ T.blanks))

/-- Where the tokens start, and where they end. -/
def offsets (T : Tiling) (k : Nat) : List Nat := (T.tokens k).map Token.position ++ [(T.ending k).position]

structure Fits (T : Tiling) : Prop where
  blank_tile : ∀ t ∈ T.tiles, ∀ c ∈ t.blanks, isBlank c = true
  wellSpelled : ∀ t ∈ T.tiles, t.lexeme.WellSpelled
  endsBefore : ∀ before t after, T.tiles = before ++ t :: after → t.lexeme.EndsBefore (text { T with tiles := after })
  blank : ∀ c ∈ T.blanks, isBlank c = true
  notMem_opened : ∀ cs ∈ T.opened, '"' ∉ cs

/-! ## One tile -/

def cons (t : Tile) (T : Tiling) : Tiling := { T with tiles := t :: T.tiles }

theorem text_cons (t : Tile) (T : Tiling) : (cons t T).text = t.blanks ++ (t.lexeme.source ++ T.text) := by
  simp [text, cons, Tile.text]

theorem tokens_cons (t : Tile) (T : Tiling) (k : Nat) :
    (cons t T).tokens k = ⟨t.lexeme, k + byteSize t.blanks⟩ :: T.tokens (k + byteSize t.text) := rfl

theorem ending_cons (t : Tile) (T : Tiling) (k : Nat) : (cons t T).ending k = T.ending (k + byteSize t.text) := by
  unfold ending
  rw [text_cons]
  cases ho : T.opened with
  | none => simp [cons, ho, Tile.text, Nat.add_assoc]
  | some cs => simp [cons, ho, Nat.add_assoc]

theorem offsets_cons (t : Tile) (T : Tiling) (k : Nat) :
    (cons t T).offsets k = (k + byteSize t.blanks) :: T.offsets (k + byteSize t.text) := by
  rw [offsets, tokens_cons, ending_cons]
  rfl

theorem fits_cons_iff {t : Tile} {T : Tiling} :
    (cons t T).Fits ↔
      (∀ c ∈ t.blanks, isBlank c = true) ∧ t.lexeme.WellSpelled ∧ t.lexeme.EndsBefore T.text ∧ T.Fits := by
  constructor
  · intro h
    obtain ⟨ht, htiles⟩ := List.forall_mem_cons.mp h.blank_tile
    obtain ⟨hw, hwell⟩ := List.forall_mem_cons.mp h.wellSpelled
    refine ⟨ht, hw, h.endsBefore [] t T.tiles rfl, htiles, hwell, ?_, h.blank, h.notMem_opened⟩
    intro before u after hu
    exact h.endsBefore (t :: before) u after (congrArg (List.cons t) hu)
  · intro h
    obtain ⟨ht, hw, he, hT⟩ := h
    refine ⟨List.forall_mem_cons.mpr ⟨ht, hT.blank_tile⟩, List.forall_mem_cons.mpr ⟨hw, hT.wellSpelled⟩, ?_, hT.blank,
      hT.notMem_opened⟩
    intro before u after hu
    cases before with
    | nil =>
      cases hu
      exact he
    | cons u' before => exact hT.endsBefore before u after (List.cons.inj hu).2

/-- Induction over the tiles, from the last to the first. -/
theorem tiles_induction {motive : Tiling → Prop} (last : ∀ blanks opened, motive ⟨[], blanks, opened⟩)
    (cons : ∀ t T, motive T → motive (cons t T)) (T : Tiling) : motive T := by
  obtain ⟨tiles, blanks, opened⟩ := T
  induction tiles with
  | nil => exact last blanks opened
  | cons t tiles ih => exact cons t ⟨tiles, blanks, opened⟩ ih

/-! ## What is read of a tiling -/

theorem Fits.pull_cons {t : Tile} {T : Tiling} (h : (cons t T).Fits) (k : Nat) :
    Cursor.pull ⟨(cons t T).text, k⟩ = (.token ⟨t.lexeme, k + byteSize t.blanks⟩, ⟨T.text, k + byteSize t.text⟩) := by
  obtain ⟨hb, hw, he, -⟩ := fits_cons_iff.mp h
  rw [text_cons, Cursor.pull_of_fits hb hw he, Tile.text, Text.byteSize_append, Nat.add_assoc]

theorem head?_opened (opened : Option (List Char)) :
    ∀ c ∈ (opened.elim [] fun cs => '"' :: cs).head?, isBlank c = false := by
  intro c hc
  cases opened with
  | none => cases hc
  | some cs =>
    cases hc
    rfl

theorem Fits.pull_last {blanks : List Char} {opened : Option (List Char)} (h : (Tiling.mk [] blanks opened).Fits) (k : Nat) :
    (Cursor.pull ⟨(Tiling.mk [] blanks opened).text, k⟩).1 = .last ((Tiling.mk [] blanks opened).ending k) := by
  have hskip := Cursor.skipBlanks_of_boundary h.blank (head?_opened opened) k
  cases opened with
  | none =>
    show (Cursor.skipBlanks ⟨blanks ++ [], k⟩).take.1 = .last (.finish (k + byteSize (blanks ++ [])))
    rw [List.append_nil]
    rw [Option.elim_none, List.append_nil] at hskip
    rw [hskip]
    rfl
  | some cs =>
    have hscan : Lexeme.scan '"' cs = none := Lexeme.scan_eq_none_iff.mpr ⟨rfl, h.notMem_opened cs rfl⟩
    show (Cursor.skipBlanks ⟨blanks ++ '"' :: cs, k⟩).take.1 = .last (.unterminated (k + byteSize blanks))
    rw [Option.elim_some] at hskip
    rw [hskip]
    simp only [Cursor.take, hscan]

/-- What is read of a text is what a tiling of it says. -/
theorem Fits.read_eq {T : Tiling} (h : T.Fits) (k : Nat) : Cursor.read ⟨T.text, k⟩ = (T.tokens k, T.ending k) := by
  induction T using tiles_induction generalizing k with
  | last blanks opened => rw [Cursor.read_of_last (Prod.ext (h.pull_last k) rfl)]; rfl
  | cons t T ih =>
    obtain ⟨-, -, -, hT⟩ := fits_cons_iff.mp h
    rw [Cursor.read_of_token (h.pull_cons k), ih hT, tokens_cons, ending_cons]

/-! ## One tiling for each text -/

theorem Fits.last_inj {blanks blanks' : List Char} {opened opened' : Option (List Char)}
    (h : (Tiling.mk [] blanks opened).Fits) (h' : (Tiling.mk [] blanks' opened').Fits)
    (ht : (Tiling.mk [] blanks opened).text = (Tiling.mk [] blanks' opened').text) :
    Tiling.mk [] blanks opened = Tiling.mk [] blanks' opened' := by
  have ht : blanks ++ opened.elim [] (fun cs => '"' :: cs) = blanks' ++ opened'.elim [] fun cs => '"' :: cs := ht
  have hb := congrArg (List.takeWhile isBlank) ht
  rw [takeWhile_of_boundary h.blank (head?_opened opened), takeWhile_of_boundary h'.blank (head?_opened opened')] at hb
  obtain rfl : blanks = blanks' := hb
  have hopened := List.append_cancel_left ht
  cases opened with
  | none =>
    cases opened' with
    | none => rfl
    | some cs' => cases hopened
  | some cs =>
    cases opened' with
    | none => cases hopened
    | some cs' =>
      cases hopened
      rfl

theorem Fits.cons_inj {t t' : Tile} {T T' : Tiling} (h : (cons t T).Fits) (h' : (cons t' T').Fits)
    (ht : (cons t T).text = (cons t' T').text) : t = t' ∧ T.text = T'.text := by
  have hpull := h.pull_cons 0
  rw [ht, h'.pull_cons 0] at hpull
  obtain ⟨htoken, hnext⟩ := Prod.mk.inj hpull
  have hlexeme : t.lexeme = t'.lexeme := (Token.mk.inj (Pull.token.inj htoken)).1.symm
  have hrest : T.text = T'.text := (Cursor.mk.inj hnext).1.symm
  rw [text_cons, text_cons, hlexeme, hrest] at ht
  have hblanks : t.blanks = t'.blanks := List.append_cancel_right ht
  refine ⟨?_, hrest⟩
  cases t
  cases hlexeme
  cases hblanks
  rfl

/-- Two tilings of one text that fit are the same. -/
theorem Fits.eq_of_text_eq {T T' : Tiling} (h : T.Fits) (h' : T'.Fits) (ht : T.text = T'.text) : T = T' := by
  induction T using tiles_induction generalizing T' with
  | last blanks opened =>
    cases T' using tiles_induction with
    | last blanks' opened' => exact h.last_inj h' ht
    | cons t' T' =>
      have hpull := h.pull_last 0
      rw [ht, h'.pull_cons 0] at hpull
      cases hpull
  | cons t T ih =>
    cases T' using tiles_induction with
    | last blanks' opened' =>
      have hpull := h'.pull_last 0
      rw [← ht, h.pull_cons 0] at hpull
      cases hpull
    | cons t' T' =>
      obtain ⟨rfl, hrest⟩ := h.cons_inj h' ht
      obtain ⟨-, -, -, hT⟩ := fits_cons_iff.mp h
      obtain ⟨-, -, -, hT'⟩ := fits_cons_iff.mp h'
      rw [ih hT hT' hrest]

/-- Every text has a tiling that fits. -/
theorem exists_fits (cs : List Char) : ∃ T : Tiling, T.Fits ∧ T.text = cs := by
  suffices ∀ c : Cursor, ∃ T : Tiling, T.Fits ∧ T.text = c.rest from this ⟨cs, 0⟩
  intro c
  induction c using Cursor.pull_induction with
  | token c t next hp ih =>
    obtain ⟨T, hT, htext⟩ := ih
    obtain ⟨d, ds, rest, hr, hscan, -, rfl⟩ := Cursor.take_eq_token_iff.mp hp
    have hr : c.rest.dropWhile isBlank = d :: ds := hr
    have hd : isBlank d = false := head?_dropWhile c.rest d (by rw [hr]; rfl)
    obtain ⟨hs, hw, he⟩ := (Lexeme.scan_eq_some_iff hd).mp hscan
    have hb : ∀ e ∈ c.rest.takeWhile isBlank, isBlank e = true := fun e he => List.mem_takeWhile_imp he
    refine ⟨cons ⟨c.rest.takeWhile isBlank, t.lexeme⟩ T, ?_, ?_⟩
    · obtain rfl : T.text = rest := htext
      exact fits_cons_iff.mpr ⟨hb, hw, he, hT⟩
    · rw [text_cons, htext, hs, ← hr, List.takeWhile_append_dropWhile]
  | last c e next hp =>
    have hfits (opened : Option (List Char)) (hq : ∀ cs ∈ opened, '"' ∉ cs) :
        (Tiling.mk [] (c.rest.takeWhile isBlank) opened).Fits := by
      refine ⟨nofun, nofun, ?_, fun e he => List.mem_takeWhile_imp he, hq⟩
      intro before t after h
      cases before <;> cases h
    cases e with
    | finish p =>
      have hblank := Cursor.blank_of_pull_finish hp
      refine ⟨⟨[], c.rest.takeWhile isBlank, none⟩, hfits none nofun, ?_⟩
      show c.rest.takeWhile isBlank ++ [] = c.rest
      rw [List.append_nil, List.takeWhile_eq_self_iff.mpr hblank]
    | unterminated p =>
      obtain ⟨cs, hr, hq, -⟩ := Cursor.exists_of_pull_unterminated hp
      have hr : c.rest.dropWhile isBlank = '"' :: cs := hr
      refine ⟨⟨[], c.rest.takeWhile isBlank, some cs⟩, hfits (some cs) ?_, ?_⟩
      · intro ds hds
        cases hds
        exact hq
      · show c.rest.takeWhile isBlank ++ '"' :: cs = c.rest
        rw [← hr, List.takeWhile_append_dropWhile]

/-! ## Offsets -/

end Tiling

/-- So many bytes are a number of whole characters at the front of a text. -/
def OnBoundary (cs : List Char) (p : Nat) : Prop := ∃ before after, cs = before ++ after ∧ byteSize before = p

namespace Tiling

theorem onBoundary_offsets (T : Tiling) {k p : Nat} (h : p ∈ T.offsets k) :
    ∃ before after, T.text = before ++ after ∧ k + byteSize before = p := by
  induction T using tiles_induction generalizing k with
  | last blanks opened =>
    obtain rfl := List.mem_singleton.mp h
    cases opened with
    | none => exact ⟨_, [], (List.append_nil _).symm, rfl⟩
    | some cs => exact ⟨blanks, '"' :: cs, rfl, rfl⟩
  | cons t T ih =>
    rw [offsets_cons] at h
    rw [text_cons]
    rcases List.mem_cons.mp h with rfl | h
    · exact ⟨t.blanks, _, rfl, rfl⟩
    · obtain ⟨before, after, htext, rfl⟩ := ih h
      refine ⟨t.text ++ before, after, ?_, ?_⟩
      · rw [htext, Tile.text]
        simp only [List.append_assoc]
      · rw [Text.byteSize_append, Nat.add_assoc]

/-- Each token is spelled where it stands. -/
theorem exists_of_mem_tokens (T : Tiling) {k : Nat} {t : Token} (h : t ∈ T.tokens k) :
    ∃ before after, T.text = before ++ after ∧ k + byteSize before = t.position ∧ t.lexeme.source <+: after := by
  induction T using tiles_induction generalizing k with
  | last blanks opened => cases h
  | cons u T ih =>
    rw [tokens_cons] at h
    rw [text_cons]
    rcases List.mem_cons.mp h with rfl | h
    · exact ⟨u.blanks, _, rfl, rfl, List.prefix_append _ _⟩
    · obtain ⟨before, after, htext, hp, hs⟩ := ih h
      refine ⟨u.text ++ before, after, ?_, ?_, hs⟩
      · rw [htext, Tile.text]
        simp only [List.append_assoc]
      · rw [Text.byteSize_append, ← Nat.add_assoc, hp]

/-- Each token starts behind the start of the one before it. -/
theorem Fits.pairwise_offsets {T : Tiling} (h : T.Fits) (k : Nat) : (T.offsets k).Pairwise (· < ·) := by
  induction T using tiles_induction generalizing k with
  | last blanks opened => exact List.pairwise_singleton _ _
  | cons t T ih =>
    obtain ⟨-, hw, -, hT⟩ := fits_cons_iff.mp h
    obtain ⟨c, cs, hs, -⟩ := Lexeme.exists_source_of_wellSpelled hw
    have hpos : 0 < byteSize t.lexeme.source := by
      have := c.utf8Size_pos
      rw [hs, Text.byteSize_cons]
      omega
    rw [offsets_cons]
    refine List.pairwise_cons.mpr ⟨?_, ih hT _⟩
    intro p hp
    obtain ⟨before, -, -, rfl⟩ := onBoundary_offsets T hp
    rw [Tile.text, Text.byteSize_append]
    omega

end Tiling

/-! ## All that is pulled -/

namespace Lexer

/-- The results of `next` up to the first time that it gives nothing. -/
inductive Yields : Lexer → List Pull → Prop
  | done {l l' : Lexer} : l.next = (none, l') → Yields l []
  | more {l l' : Lexer} {pull : Pull} {pulls : List Pull} : l.next = (some pull, l') → Yields l' pulls →
      Yields l (pull :: pulls)

theorem yields_nil_iff {l : Lexer} (h : l.finished = true) {pulls : List Pull} : l.Yields pulls ↔ pulls = [] := by
  have hnext : l.next = (none, l) := by rw [next, if_pos h]
  constructor
  · intro hy
    cases hy with
    | done => rfl
    | more hn =>
      rw [hnext] at hn
      cases hn
  · intro hp
    rw [hp]
    exact .done hnext

theorem yields_cons_iff {l l' : Lexer} {pull : Pull} (h : l.next = (some pull, l')) {pulls : List Pull} :
    l.Yields pulls ↔ ∃ rest, pulls = pull :: rest ∧ l'.Yields rest := by
  constructor
  · intro hy
    cases hy with
    | done hn =>
      rw [h] at hn
      cases hn
    | more hn hrest =>
      rw [h] at hn
      cases hn
      exact ⟨_, rfl, hrest⟩
  · intro hex
    obtain ⟨rest, rfl, hrest⟩ := hex
    exact .more h hrest

/-- A lexer gives the tokens and then the end, once. -/
theorem yields_iff (input : String) (c : Cursor) {pulls : List Pull} :
    Yields ⟨input, c, false⟩ pulls ↔ pulls = c.read.1.map .token ++ [.last c.read.2] := by
  induction c using Cursor.pull_induction generalizing pulls with
  | token c t rest hp ih =>
    have hnext : next ⟨input, c, false⟩ = (some (.token t), ⟨input, rest, false⟩) := by
      simp [next, nextToken, hp, Pull.isLast]
    rw [yields_cons_iff hnext, Cursor.read_of_token hp]
    simp only [ih, exists_eq_right, List.map_cons, List.cons_append]
  | last c e rest hp =>
    have hnext : next ⟨input, c, false⟩ = (some (.last e), ⟨input, rest, true⟩) := by
      simp [next, nextToken, hp, Pull.isLast]
    rw [yields_cons_iff hnext, Cursor.read_of_last hp]
    simp only [yields_nil_iff, exists_eq_right, List.map_nil, List.nil_append]

end Lexer

/-- Every text has one tiling, and no other. What `next` gives are its tokens, where they stand, and then
    the end of the text or the quote that is never closed; each starts behind the one before it, and
    between two characters. -/
theorem tokens_tile_input (input : String) :
    ∃ T : Tiling, T.Fits ∧ T.text = input.toList ∧ (∀ T' : Tiling, T'.Fits → T'.text = input.toList → T' = T) ∧
      (∀ pulls, (Lexer.ofString input).Yields pulls ↔ pulls = (T.tokens 0).map .token ++ [.last (T.ending 0)]) ∧
      (T.offsets 0).Pairwise (· < ·) ∧ ∀ p ∈ T.offsets 0, OnBoundary input.toList p := by
  obtain ⟨T, hT, htext⟩ := Tiling.exists_fits input.toList
  refine ⟨T, hT, htext, ?_, ?_, hT.pairwise_offsets 0, ?_⟩
  · intro T' hT' htext'
    exact hT'.eq_of_text_eq hT (htext'.trans htext.symm)
  · intro pulls
    have hread := hT.read_eq 0
    rw [htext] at hread
    rw [Lexer.ofString, Cursor.ofString, Lexer.yields_iff, hread]
  · intro p hp
    obtain ⟨before, after, hsplit, hp⟩ := Tiling.onBoundary_offsets T hp
    exact ⟨before, after, htext.symm.trans hsplit, by omega⟩

end ObjectExpr
