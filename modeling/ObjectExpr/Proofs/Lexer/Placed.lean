/-
  ObjectExpr.Proofs.Lexer.Placed — a raw literal put behind a text. Tiles fit whatever follows them, as long
  as it starts with the same character (`Tiling.Fits.behind_of_head`). So where a colon starts a raw literal,
  it does with any text behind it that a raw literal can hold; that is one token, up to where it has to end,
  and what is behind it is read from there on (`StartsRaw.read`).
-/

import ObjectExpr.Proofs.Lexer.Tiling

namespace ObjectExpr

open Text (byteSize)

/-! ## Tiles in front -/

/-- Whether a lexeme can end depends on the next character only. -/
theorem Lexeme.endsBefore_congr {cs ds : List Char} (h : cs.head? = ds.head?) (l : Lexeme) :
    l.EndsBefore cs ↔ l.EndsBefore ds := by
  cases l <;> simp only [EndsBefore, h]

namespace Tiling

/-- Tiles in front of a tiling. -/
def behind (us : List Tile) (T : Tiling) : Tiling := { T with tiles := us ++ T.tiles }

variable {us : List Tile} {T T' : Tiling}

theorem text_behind (us : List Tile) (T : Tiling) : (behind us T).text = us.flatMap Tile.text ++ T.text := by
  induction us with
  | nil => rfl
  | cons u us ih =>
    show (cons u (behind us T)).text = _
    rw [text_cons, ih]
    simp [Tile.text]

theorem tokensFrom_concat (k : Nat) (us : List Tile) (u : Tile) :
    tokensFrom k (us ++ [u]) = tokensFrom k us ++ [⟨u.lexeme, k + byteSize (us.flatMap Tile.text ++ u.blanks)⟩] := by
  induction us generalizing k with
  | nil => rfl
  | cons u' us ih =>
    rw [List.cons_append, tokensFrom, ih, tokensFrom]
    simp [Nat.add_assoc]

theorem read_behind (h : (behind us T).Fits) (k : Nat) :
    Cursor.read ⟨(behind us T).text, k⟩ =
      let rest := Cursor.read ⟨T.text, k + byteSize (us.flatMap Tile.text)⟩
      (tokensFrom k us ++ rest.1, rest.2) := by
  induction us generalizing k with
  | nil => rfl
  | cons u us ih =>
    have h : (cons u (behind us T)).Fits := h
    show Cursor.read ⟨(cons u (behind us T)).text, k⟩ = _
    rw [Cursor.read_of_token (h.pull_cons k), ih (fits_cons_iff.mp h).2.2.2]
    simp [tokensFrom, Nat.add_assoc]

/-- Tiles in front fit however it goes on behind them, if that starts with the same character. -/
theorem Fits.behind_of_head (h : (behind us T).Fits) (h' : T'.Fits) (hhead : T'.text.head? = T.text.head?) :
    (behind us T').Fits := by
  induction us with
  | nil => exact h'
  | cons u us ih =>
    obtain ⟨hb, hw, he, hT⟩ := fits_cons_iff.mp (show (cons u (behind us T)).Fits from h)
    refine fits_cons_iff.mpr ⟨hb, hw, ?_, ih hT⟩
    refine (Lexeme.endsBefore_congr ?_ _).mpr he
    show (behind us T').text.head? = (behind us T).text.head?
    rw [text_behind, text_behind, List.head?_append, List.head?_append, hhead]

end Tiling

/-! ## A colon and a text -/

/-- Behind `before`, which is these tokens, a colon starts a raw literal. -/
def StartsRaw (before : List Char) (tokens : List Token) : Prop :=
  ∃ stop, Cursor.read ⟨before ++ [':'], 0⟩ = (tokens ++ [⟨.raw [], byteSize before⟩], .finish stop)

namespace StartsRaw

open Tiling

variable {before : List Char} {ts : List Token}

/-- What stands before the colon is whole tiles and blanks. -/
theorem exists_tiles (h : StartsRaw before ts) :
    ∃ us blanks, (behind us ⟨[⟨blanks, .raw []⟩], [], none⟩).Fits ∧ us.flatMap Tile.text ++ blanks = before ∧
      tokensFrom 0 us = ts := by
  obtain ⟨stop, hread⟩ := h
  obtain ⟨⟨tiles, last, opened⟩, hT, htext⟩ := exists_fits (before ++ [':'])
  rw [← htext, hT.read_eq 0] at hread
  obtain ⟨htokens, hending⟩ := Prod.mk.inj hread
  obtain rfl : opened = none := by
    cases opened with
    | none => rfl
    | some cs => cases hending
  rcases List.eq_nil_or_concat tiles with rfl | ⟨us, u, rfl⟩
  · exact absurd htokens.symm (List.append_ne_nil_of_right_ne_nil _ (List.cons_ne_nil _ _))
  rw [List.concat_eq_append] at hT htokens htext
  rw [tokens, tokensFrom_concat] at htokens
  obtain ⟨hts, hlast⟩ := List.append_inj' htokens rfl
  obtain ⟨blanks, lexeme⟩ := u
  obtain ⟨hlexeme, hsize⟩ := Token.mk.inj (List.cons.inj hlast).1
  obtain rfl : lexeme = .raw [] := hlexeme
  have htext : us.flatMap Tile.text ++ blanks ++ ':' :: last = before ++ [':'] := by
    rw [← htext]
    simp [text, Tile.text, Lexeme.source]
  -- as many bytes stand before the colon of the last tile as before the other, so nothing is behind it
  obtain rfl : last = [] := by
    have hbytes := congrArg byteSize htext
    simp only [Text.byteSize_append, Text.byteSize_cons, Text.byteSize_nil] at hbytes hsize
    cases last with
    | nil => rfl
    | cons c cs =>
      have := c.utf8Size_pos
      rw [Text.byteSize_cons] at hbytes
      omega
  exact ⟨us, blanks, hT, List.append_cancel_right htext, hts⟩

/-- A colon with a text behind it that a raw literal can hold, up to where it has to end, is one token, and
    what is behind it is read from there on. -/
theorem read (h : StartsRaw before ts) {text after : List Char} (ht : ∀ c ∈ text, ¬SeparatesRaw c)
    (ha : ∀ c ∈ after.head?, SeparatesRaw c) :
    Cursor.read ⟨before ++ ':' :: (text ++ after), 0⟩ =
      let rest := Cursor.read ⟨after, byteSize before + byteSize (':' :: text)⟩
      (ts ++ ⟨.raw text, byteSize before⟩ :: rest.1, rest.2) := by
  obtain ⟨us, blanks, hfits, rfl, rfl⟩ := h.exists_tiles
  obtain ⟨T, hT, rfl⟩ := exists_fits after
  have hb : ∀ c ∈ blanks, Text.isBlank c = true := hfits.blank_tile ⟨blanks, .raw []⟩ (by simp [behind])
  have hraw : (cons ⟨blanks, .raw text⟩ T).Fits := fits_cons_iff.mpr ⟨hb, ht, ha, hT⟩
  have hall : (behind us (cons ⟨blanks, .raw text⟩ T)).Fits := by
    refine hfits.behind_of_head hraw ?_
    rw [text_cons]
    cases blanks <;> rfl
  have hread := read_behind hall 0
  rw [Cursor.read_of_token (hraw.pull_cons _), text_behind, text_cons] at hread
  simpa [Tile.text, Lexeme.source, Nat.add_assoc] using hread

end StartsRaw

end ObjectExpr
