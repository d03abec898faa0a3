/-
  ObjectExpr.Proofs.Text.Lines — the lines of bytes and the lines of the text that they encode. A line feed
  and a carriage return are one byte each and no part of another character, so bytes that are a text are cut
  where the text is (`linesWithEnds_encode`), and lose the same ends (`dropEnd_encode`). So bytes are a text
  just if every line of them is (`decodeLines?_eq_none_iff`).

  What ends a line is blank, so a line trimmed without it is the line trimmed (`trim_dropEnd`).
-/

import Mathlib.Data.List.Basic
import Mathlib.Data.List.TakeWhile
import ObjectExpr.Text.Blank
import ObjectExpr.Text.Lines

namespace ObjectExpr.Text

/-! ## The ends of a line -/

/-- What is dropped at the end of a line is a line feed and a carriage return at most. -/
theorem exists_dropEnd_append {α : Type} [BEq α] [LawfulBEq α] (feed carriage : α) (line : List α) :
    ∃ ends, dropEnd feed carriage line ++ ends = line ∧ ∀ a ∈ ends, a = feed ∨ a = carriage := by
  unfold dropEnd
  split
  · next hf =>
    have hline := List.dropLast_append_getLast? _ (eq_of_beq hf)
    split
    · next hc =>
      have hfront := List.dropLast_append_getLast? _ (eq_of_beq hc)
      refine ⟨[carriage, feed], ?_, by simp⟩
      rw [← List.singleton_append, ← List.append_assoc, hfront, hline]
    · exact ⟨[feed], hline, by simp⟩
  · exact ⟨[], List.append_nil line, by simp⟩

/-! ## Trimming -/

theorem trimStart_of_blank {cs : List Char} (h : ∀ c ∈ cs, isBlank c = true) : trimStart cs = [] :=
  List.dropWhile_eq_nil_iff.mpr h

theorem trimStart_append_of_blank {bs : List Char} (h : ∀ c ∈ bs, isBlank c = true) (cs : List Char) :
    trimStart (bs ++ cs) = trimStart cs := List.dropWhile_append_of_pos h

theorem trimEnd_append_of_blank {bs : List Char} (h : ∀ c ∈ bs, isBlank c = true) (cs : List Char) :
    trimEnd (cs ++ bs) = trimEnd cs := by
  rw [trimEnd, List.reverse_append, trimStart_append_of_blank (by simpa using h), trimEnd]

/-- Blanks behind a line are trimmed off. -/
theorem trim_append_of_blank {bs : List Char} (h : ∀ c ∈ bs, isBlank c = true) (cs : List Char) :
    trim (cs ++ bs) = trim cs := by
  by_cases hcs : ∀ c ∈ cs, isBlank c = true
  · rw [trim, trim, trimStart_append_of_blank hcs, trimStart_of_blank h, trimStart_of_blank hcs]
  · have hne : ¬(trimStart cs).isEmpty = true := by rwa [List.isEmpty_iff, trimStart, List.dropWhile_eq_nil_iff]
    have hstart : trimStart (cs ++ bs) = trimStart cs ++ bs := by
      rw [trimStart, List.dropWhile_append]
      exact if_neg hne
    rw [trim, hstart, trimEnd_append_of_blank h, trim]

theorem trim_append_lineFeed (cs : List Char) : trim (cs ++ ['\n']) = trim cs := by
  refine trim_append_of_blank ?_ cs
  rw [List.forall_mem_singleton]
  rfl

/-- Trimming cuts blanks off both ends. -/
theorem exists_trim (cs : List Char) :
    ∃ front back, (∀ c ∈ front, isBlank c = true) ∧ (∀ c ∈ back, isBlank c = true) ∧ front ++ trim cs ++ back = cs := by
  refine ⟨cs.takeWhile isBlank, ((trimStart cs).reverse.takeWhile isBlank).reverse, ?_, ?_, ?_⟩
  · exact fun c hc => List.mem_takeWhile_imp hc
  · exact fun c hc => List.mem_takeWhile_imp (List.mem_reverse.mp hc)
  · rw [List.append_assoc, trim, trimEnd_append, trimStart_append]

theorem trim_dropEnd (line : List Char) : trim (dropEnd '\n' '\r' line) = trim line := by
  obtain ⟨ends, hline, hends⟩ := exists_dropEnd_append '\n' '\r' line
  have hblank : ∀ c ∈ ends, isBlank c = true := by
    intro c hc
    rcases hends c hc with rfl | rfl <;> decide
  rw [← trim_append_of_blank hblank, hline]

/-! ## The lines of a text -/

/-- Puts some characters, or bytes, in front of the first line. -/
def putFront {α : Type} (front : List α) : List (List α) → List (List α)
  | [] => [front]
  | line :: lines => (front ++ line) :: lines

/-- The lines of a text with what ends them. -/
def cutLines : List Char → List (List Char)
  | [] => []
  | c :: cs => if c = '\n' then [c] :: cutLines cs else putFront [c] (cutLines cs)

theorem consLine_eq_putFront (b : UInt8) (ls : List (List UInt8)) : consLine b ls = putFront [b] ls := by
  cases ls <;> rfl

theorem putFront_putFront {α : Type} (front more : List α) (ls : List (List α)) :
    putFront front (putFront more ls) = putFront (front ++ more) ls := by
  cases ls with
  | nil => rfl
  | cons line ls => rw [putFront, putFront, putFront, List.append_assoc]

theorem flatten_putFront {α : Type} (front : List α) (ls : List (List α)) :
    (putFront front ls).flatten = front ++ ls.flatten := by
  cases ls with
  | nil => rw [putFront, List.flatten_cons, List.flatten_nil]
  | cons line ls => rw [putFront, List.flatten_cons, List.flatten_cons, List.append_assoc]

theorem flatten_cutLines (cs : List Char) : (cutLines cs).flatten = cs := by
  induction cs with
  | nil => rfl
  | cons c cs ih =>
    rw [cutLines]
    split
    · rw [List.flatten_cons, ih, List.singleton_append]
    · rw [flatten_putFront, ih, List.singleton_append]

/-- Every line but the last ends in a line feed. -/
theorem getLast?_of_mem_dropLast {cs line : List Char} (h : line ∈ (cutLines cs).dropLast) :
    line.getLast? = some '\n' := by
  induction cs generalizing line with
  | nil => simp [cutLines] at h
  | cons c cs ih =>
    rw [cutLines] at h
    split at h
    · next hc =>
      subst hc
      cases hls : cutLines cs with
      | nil => simp [hls] at h
      | cons next lines =>
        rw [hls, List.dropLast_cons_cons, List.mem_cons] at h
        rcases h with rfl | h
        · rfl
        · exact ih (hls ▸ h)
    · cases hls : cutLines cs with
      | nil => simp [hls, putFront] at h
      | cons next lines =>
        rw [hls, putFront] at h
        cases lines with
        | nil => simp at h
        | cons after lines =>
          rw [List.dropLast_cons_cons, List.mem_cons] at h
          rcases h with rfl | h
          · have hnext : next.getLast? = some '\n' := ih (by rw [hls]; exact List.mem_cons_self)
            rw [List.singleton_append, List.getLast?_cons, hnext, Option.getD_some]
          · exact ih (by rw [hls]; exact List.mem_cons_of_mem _ h)

/-- A line ends at its first line feed. -/
theorem cutLines_line {line : List Char} (h : '\n' ∉ line) (rest : List Char) :
    cutLines (line ++ '\n' :: rest) = (line ++ ['\n']) :: cutLines rest := by
  induction line with
  | nil => rfl
  | cons c line ih =>
    rw [List.mem_cons, not_or] at h
    obtain ⟨hc, hline⟩ := h
    rw [List.cons_append, cutLines, if_neg (Ne.symm hc), ih hline]
    rfl

theorem cutLines_last {line : List Char} (h : '\n' ∉ line) (hne : line ≠ []) : cutLines line = [line] := by
  induction line with
  | nil => exact absurd rfl hne
  | cons c line ih =>
    rw [List.mem_cons, not_or] at h
    obtain ⟨hc, hline⟩ := h
    rw [cutLines, if_neg (Ne.symm hc)]
    cases line with
    | nil => rfl
    | cons d line => rw [ih hline (by simp)]; rfl

/-! ## The bytes of lines -/

theorem encode_append (cs ds : List Char) : encode (cs ++ ds) = encode cs ++ encode ds := List.flatMap_append

theorem encode_cons (c : Char) (cs : List Char) : encode (c :: cs) = encode [c] ++ encode cs := encode_append [c] cs

theorem encode_singleton_ne_nil (c : Char) : encode [c] ≠ [] := by
  intro h
  have hd := decode?_encode [c]
  rw [h, show decode? [] = some [] from decode?_encode []] at hd
  cases hd

/-- The byte of a character below 0x80 is in no other character. -/
theorem eq_of_mem_encode {a c : Char} {b : UInt8} (ha : b ∈ encode [a]) (hc : b ∈ encode [c]) (hb : b.toNat < 0x80) :
    c = a := by
  obtain ⟨a', ha', hta⟩ := exists_toNat_of_mem_encode ha hb
  obtain ⟨c', hc', htc⟩ := exists_toNat_of_mem_encode hc hb
  rw [List.mem_singleton.mp ha'] at hta
  rw [List.mem_singleton.mp hc'] at htc
  exact Char.toNat_inj.mp (htc.trans hta.symm)

theorem linesWithEnds_append {bs : List UInt8} (hne : bs ≠ []) (h : 0x0A ∉ bs) (rest : List UInt8) :
    linesWithEnds (bs ++ rest) = putFront bs (linesWithEnds rest) := by
  induction bs with
  | nil => exact absurd rfl hne
  | cons b bs ih =>
    rw [List.mem_cons, not_or] at h
    obtain ⟨hb, hbs⟩ := h
    rw [List.cons_append, linesWithEnds, if_neg (Ne.symm hb), consLine_eq_putFront]
    cases bs with
    | nil => rfl
    | cons b' bs => rw [ih (by simp) hbs, putFront_putFront]; rfl

theorem map_encode_putFront (front : List Char) (ls : List (List Char)) :
    (putFront front ls).map encode = putFront (encode front) (ls.map encode) := by
  cases ls with
  | nil => rfl
  | cons line ls => rw [putFront, List.map_cons, List.map_cons, putFront, encode_append]

/-- The bytes of a text are cut where the text is. -/
theorem linesWithEnds_encode (cs : List Char) : linesWithEnds (encode cs) = (cutLines cs).map encode := by
  induction cs with
  | nil => rfl
  | cons c cs ih =>
    rw [encode_cons, cutLines]
    split
    · next hc =>
      subst hc
      rw [List.map_cons, ← ih]
      rfl
    · next hc =>
      have hfeed : 0x0A ∉ encode [c] := fun hm => hc (eq_of_mem_encode (a := '\n') (by decide) hm (by decide))
      rw [linesWithEnds_append (encode_singleton_ne_nil c) hfeed, ih, map_encode_putFront]

section

variable {a : Char} {b : UInt8} {line : List Char}

/-- The text ends in a character below 0x80 just if its bytes end in the byte of this character. -/
theorem getLast?_encode (ha : encode [a] = [b]) (hb : b.toNat < 0x80) :
    (encode line).getLast? = some b ↔ line.getLast? = some a := by
  rcases List.eq_nil_or_concat line with rfl | ⟨front, c, rfl⟩
  · simp [encode]
  · obtain ⟨last, hlast⟩ : ∃ last, (encode [c]).getLast? = some last :=
      Option.ne_none_iff_exists'.mp (mt List.getLast?_eq_none_iff.mp (encode_singleton_ne_nil c))
    rw [List.concat_eq_append, encode_append, List.getLast?_append, hlast, Option.some_or, List.getLast?_concat,
      Option.some_inj, Option.some_inj]
    constructor
    · rintro rfl
      exact eq_of_mem_encode (by simp [ha]) (List.mem_of_getLast? hlast) hb
    · rintro rfl
      rw [ha] at hlast
      exact (Option.some.inj hlast).symm

theorem dropLast_encode (ha : encode [a] = [b]) (h : line.getLast? = some a) :
    (encode line).dropLast = encode line.dropLast := by
  obtain ⟨front, rfl⟩ := List.getLast?_eq_some_iff.mp h
  rw [encode_append, ha, List.dropLast_concat, List.dropLast_concat]

end

theorem dropEnd_encode (line : List Char) : dropEnd 0x0A 0x0D (encode line) = encode (dropEnd '\n' '\r' line) := by
  have hfeed {l : List Char} : (encode l).getLast? = some 0x0A ↔ l.getLast? = some '\n' :=
    getLast?_encode rfl (by decide)
  have hcarriage {l : List Char} : (encode l).getLast? = some 0x0D ↔ l.getLast? = some '\r' :=
    getLast?_encode rfl (by decide)
  unfold dropEnd
  simp only [beq_iff_eq, hfeed]
  split
  · next h =>
    rw [dropLast_encode rfl h]
    simp only [hcarriage]
    split
    · next h' => exact dropLast_encode rfl h'
    · rfl
  · rfl

/-! ## Decoding line by line -/

theorem mapM_decode?_encode (ls : List (List Char)) :
    ((ls.map encode).mapM fun line => (decode? line).map String.ofList) = some (ls.map String.ofList) := by
  induction ls with
  | nil => rfl
  | cons line ls ih => simp [decode?_encode, ih]

theorem decodeLines?_encode (cs : List Char) :
    decodeLines? (encode cs) = some ((cutLines cs).map fun line => String.ofList (dropEnd '\n' '\r' line)) := by
  have hlines : lines (encode cs) = ((cutLines cs).map (dropEnd '\n' '\r')).map encode := by
    rw [lines, linesWithEnds_encode, List.map_map, List.map_map]
    exact List.map_congr_left fun line _ => dropEnd_encode line
  rw [decodeLines?, hlines, mapM_decode?_encode, List.map_map]
  rfl

theorem exists_decode?_of_mapM {ls : List (List UInt8)} {texts : List String}
    (h : (ls.mapM fun line => (decode? line).map String.ofList) = some texts) :
    ∀ line ∈ ls, ∃ cs, decode? line = some cs := by
  induction ls generalizing texts with
  | nil => exact nofun
  | cons line ls ih =>
    cases hd : decode? line with
    | none => simp [hd] at h
    | some cs =>
      cases hr : ls.mapM fun line => (decode? line).map String.ofList with
      | none => simp [hd, hr] at h
      | some rest => exact List.forall_mem_cons.mpr ⟨⟨cs, hd⟩, ih hr⟩

theorem exists_encode_flatten {ls : List (List UInt8)} (h : ∀ line ∈ ls, ∃ cs, line = encode cs) :
    ∃ cs, ls.flatten = encode cs := by
  induction ls with
  | nil => exact ⟨[], rfl⟩
  | cons line ls ih =>
    obtain ⟨⟨cs, rfl⟩, hls⟩ := List.forall_mem_cons.mp h
    obtain ⟨ds, hds⟩ := ih hls
    exact ⟨cs ++ ds, by rw [List.flatten_cons, hds, encode_append]⟩

theorem exists_encode_of_dropEnd {line : List UInt8} {cs : List Char} (h : dropEnd 0x0A 0x0D line = encode cs) :
    ∃ ds, line = encode ds := by
  obtain ⟨ends, hline, hends⟩ := exists_dropEnd_append 0x0A 0x0D line
  have hchars : ∀ b ∈ ends.map fun b => [b], ∃ cs, b = encode cs := by
    intro bs hbs
    obtain ⟨b, hb, rfl⟩ := List.mem_map.mp hbs
    rcases hends b hb with rfl | rfl
    · exact ⟨['\n'], rfl⟩
    · exact ⟨['\r'], rfl⟩
  obtain ⟨ds, hds⟩ := exists_encode_flatten hchars
  rw [← List.flatMap_def, List.flatMap_singleton'] at hds
  exact ⟨cs ++ ds, by rw [encode_append, ← hds, ← h, hline]⟩

/-- Bytes are a text just if every line of them is. -/
theorem decodeLines?_eq_none_iff (bytes : List UInt8) : decodeLines? bytes = none ↔ decode? bytes = none := by
  constructor
  · intro h
    cases hd : decode? bytes with
    | none => rfl
    | some cs =>
      rw [eq_encode_of_decode? hd, decodeLines?_encode] at h
      cases h
  · intro h
    cases hd : decodeLines? bytes with
    | none => rfl
    | some texts =>
      have hline : ∀ line ∈ linesWithEnds bytes, ∃ cs, line = encode cs := by
        intro line hl
        obtain ⟨cs, hcs⟩ := exists_decode?_of_mapM hd _ (List.mem_map_of_mem hl)
        exact exists_encode_of_dropEnd (eq_encode_of_decode? hcs)
      obtain ⟨cs, hcs⟩ := exists_encode_flatten hline
      rw [flatten_linesWithEnds] at hcs
      rw [hcs, decode?_encode] at h
      cases h

end ObjectExpr.Text
