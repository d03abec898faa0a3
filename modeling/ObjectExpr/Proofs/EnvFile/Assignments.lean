/-
  ObjectExpr.Proofs.EnvFile.Assignments — what the lines of an env file can set. A line holds characters of
  the file (`nul_notMem_logicalLines`), and a value holds characters of its line, but for the line ends that
  escapes stand for (`char_of_readValue?`). A name is one that a variable can have. So a file without a NUL
  sets proper names to pieces without a NUL (`settable_of_read`).
-/

import Mathlib.Data.List.TakeWhile
import ObjectExpr.EnvFile

namespace ObjectExpr

/-! ## Lines -/

theorem Text.encode_mem_of_mem_decodeWhile {lines : List (List UInt8)} {cs : List Char} (h : cs ∈ (decodeWhile lines).1) :
    encode cs ∈ lines := by
  induction lines with
  | nil => cases h
  | cons line lines ih =>
    unfold decodeWhile at h
    split at h
    · cases h
    · next ds hd =>
      rcases List.mem_cons.mp h with rfl | h
      · exact eq_encode_of_decode? hd ▸ List.mem_cons_self
      · exact List.mem_cons_of_mem _ (ih h)

theorem Text.subset_dropEnd {α : Type} [BEq α] (feed carriage : α) (line : List α) : dropEnd feed carriage line ⊆ line := by
  unfold dropEnd
  split
  · split
    · exact List.Subset.trans (List.dropLast_subset _) (List.dropLast_subset _)
    · exact List.dropLast_subset _
  · exact List.Subset.refl _

namespace EnvFile

theorem subset_scan (r : Reach) (line : List Char) : (r.scan line).1 ⊆ line := by
  induction line generalizing r with
  | nil => exact List.Subset.refl _
  | cons c cs ih =>
    unfold Reach.scan
    split
    · exact List.nil_subset _
    · exact List.cons_subset_cons c (ih (r.next c))

/-- Logical lines are put together from lines. -/
theorem subset_joinFrom {pending : List Char} {r : Reach} {texts : List (List Char)} {line : List Char}
    (h : line ∈ (joinFrom pending r texts).1) : line ⊆ pending ++ texts.flatten := by
  induction texts generalizing pending r with
  | nil => cases h
  | cons text texts ih =>
    have hlater (h : line ∈ (joinFrom [] .outside texts).1) : line ⊆ pending ++ (text :: texts).flatten := by
      refine List.Subset.trans (ih h) ?_
      rw [List.flatten_cons, ← List.append_assoc]
      exact List.subset_append_right _ _
    have hhere {kept : List Char} (h : kept ⊆ pending ++ text) : kept ⊆ pending ++ (text :: texts).flatten := by
      refine List.Subset.trans h ?_
      rw [List.flatten_cons, ← List.append_assoc]
      exact List.subset_append_left _ _
    unfold joinFrom at h
    split at h
    · exact hlater h
    split at h
    · next kept hscan =>
      rcases List.mem_cons.mp h with rfl | h
      · have hkept := subset_scan r text
        rw [hscan] at hkept
        refine hhere (List.append_subset.mpr ⟨List.subset_append_left _ _, ?_⟩)
        exact List.Subset.trans hkept (List.subset_append_right _ _)
      · exact hlater h
    · rcases List.mem_cons.mp h with rfl | h
      · exact hhere (Text.subset_dropEnd _ _ _)
      · exact hlater h
    · rw [List.flatten_cons, ← List.append_assoc]
      exact ih h

theorem subset_dropByteOrderMark (bytes : List UInt8) : dropByteOrderMark bytes ⊆ bytes := by
  unfold dropByteOrderMark
  split
  · exact fun b hb => List.mem_cons_of_mem _ (List.mem_cons_of_mem _ (List.mem_cons_of_mem _ hb))
  · exact List.Subset.refl _

theorem nul_notMem_logicalLines {bytes : List UInt8} (h : 0 ∉ bytes) {line : List Char}
    (hl : line ∈ (logicalLines bytes).1) : '\x00' ∉ line := by
  intro hn
  obtain ⟨text, ht, hn⟩ := List.mem_flatten.mp (subset_joinFrom hl hn)
  have hzero : 0 ∈ (Text.linesWithEnds (dropByteOrderMark bytes)).flatten :=
    List.mem_flatten.mpr ⟨_, Text.encode_mem_of_mem_decodeWhile ht, Text.zero_mem_encode hn⟩
  rw [Text.flatten_linesWithEnds] at hzero
  exact h (subset_dropByteOrderMark bytes hzero)

/-! ## Values -/

theorem unescape?_eq_some {c d : Char} (h : unescape? c = some d) : d = '\n' ∨ d = c := by
  unfold unescape? at h
  split at h
  · exact .inl (Option.some.inj h).symm
  · split at h
    · exact .inr (Option.some.inj h).symm
    · cases h

/-- What one character of a value does: it ends it, it says nothing by itself, or it puts pieces in front of
    what is read behind it. -/
inductive Reads (c : Char) (cs : List Char) : List Piece → Prop
  | stop : Reads c cs []
  | skip {spot : Spot} {pieces : List Piece} : readValue? spot cs = some pieces → Reads c cs pieces
  | char {spot : Spot} {pieces : List Piece} (d : Char) : d = '\n' ∨ d = c → readValue? spot cs = some pieces →
      Reads c cs (.char d :: pieces)
  | named {spot : Spot} {pieces : List Piece} (read : List Char) : readValue? spot cs = some pieces →
      Reads c cs (namedPiece read :: pieces)
  | namedThen {spot : Spot} {pieces : List Piece} (read : List Char) : readValue? spot cs = some pieces →
      Reads c cs (namedPiece read :: .char c :: pieces)

theorem reads_of_readValue? {spot : Spot} {c : Char} {cs : List Char} {pieces : List Piece}
    (h : readValue? spot (c :: cs) = some pieces) : Reads c cs pieces := by
  cases spot with
  | behind =>
    simp only [readValue?] at h
    split at h
    · exact .skip h
    split at h
    · cases h
      exact .stop
    · cases h
  | escape quoted =>
    simp only [readValue?] at h
    split at h
    · next d hd =>
      obtain ⟨rest, hr, rfl⟩ := Option.map_eq_some_iff.mp h
      exact .char d (unescape?_eq_some hd) hr
    · cases h
  | single =>
    simp only [readValue?] at h
    split at h
    · exact .skip h
    · obtain ⟨rest, hr, rfl⟩ := Option.map_eq_some_iff.mp h
      exact .char c (.inr rfl) hr
  | name quoted read =>
    simp only [readValue?] at h
    split at h
    · exact .skip h
    split at h
    · exact .skip h
    split at h
    · obtain ⟨rest, hr, rfl⟩ := Option.map_eq_some_iff.mp h
      exact .named read hr
    · obtain ⟨rest, hr, rfl⟩ := Option.map_eq_some_iff.mp h
      exact .namedThen read hr
  | braced quoted read =>
    simp only [readValue?] at h
    split at h
    · obtain ⟨rest, hr, rfl⟩ := Option.map_eq_some_iff.mp h
      exact .named read hr
    · exact .skip h
  | plain quoted =>
    simp only [readValue?] at h
    split at h
    · exact .skip h
    split at h
    · exact .skip h
    split at h
    · exact .skip h
    split at h
    · exact .skip h
    split at h
    · exact .skip h
    · obtain ⟨rest, hr, rfl⟩ := Option.map_eq_some_iff.mp h
      exact .char c (.inr rfl) hr

theorem notMem_of_readValue?_nil {spot : Spot} {pieces : List Piece} (h : readValue? spot [] = some pieces) (d : Char) :
    .char d ∉ pieces := by
  have hnil {quoted : Bool} (h : (if quoted then none else some []) = some pieces) : .char d ∉ pieces := by
    split at h
    · cases h
    · cases h
      exact List.not_mem_nil
  cases spot with
  | plain quoted => exact hnil h
  | escape quoted => exact hnil h
  | single => cases h
  | braced quoted read => cases h
  | behind =>
    cases h
    exact List.not_mem_nil
  | name quoted read =>
    simp only [readValue?] at h
    split at h
    · cases h
    · cases h
      simp [namedPiece]

/-- A value holds characters of its text, and line ends. -/
theorem char_of_readValue? {spot : Spot} {cs : List Char} {pieces : List Piece} (h : readValue? spot cs = some pieces)
    {d : Char} (hd : .char d ∈ pieces) : d = '\n' ∨ d ∈ cs := by
  induction cs generalizing spot pieces with
  | nil => exact absurd hd (notMem_of_readValue?_nil h d)
  | cons c cs ih =>
    have hrest {spot : Spot} {pieces : List Piece} (hr : readValue? spot cs = some pieces) (hd : .char d ∈ pieces) :
        d = '\n' ∨ d ∈ c :: cs := (ih hr hd).imp_right (List.mem_cons_of_mem c)
    cases reads_of_readValue? h with
    | stop => cases hd
    | skip hr => exact hrest hr hd
    | char e he hr =>
      rcases List.mem_cons.mp hd with hd | hd
      · cases hd
        exact he.imp_right (List.mem_cons.mpr <| .inl ·)
      · exact hrest hr hd
    | named read hr =>
      rcases List.mem_cons.mp hd with hd | hd
      · cases hd
      · exact hrest hr hd
    | namedThen read hr =>
      rcases List.mem_cons.mp hd with hd | hd
      · cases hd
      rcases List.mem_cons.mp hd with hd | hd
      · cases hd
        exact .inr List.mem_cons_self
      · exact hrest hr hd

/-! ## Names -/

theorem readName?_eq_some {cs name rest : List Char} (h : readName? cs = some (name, rest)) :
    name ≠ [] ∧ (∀ c ∈ name, continuesName c = true) ∧ rest ⊆ cs := by
  cases cs with
  | nil => cases h
  | cons c cs =>
    simp only [readName?] at h
    split at h
    · next hc =>
      cases h
      refine ⟨List.cons_ne_nil _ _, List.forall_mem_cons.mpr ⟨?_, fun d hd => List.mem_takeWhile_imp hd⟩, ?_⟩
      · simp only [startsName, continuesName, Char.isAlphanum, Bool.or_eq_true] at hc ⊢
        rcases hc with hc | hc
        · exact .inl (.inl (.inl hc))
        · exact .inl (.inr hc)
      · exact fun d hd => List.mem_cons_of_mem c ((List.dropWhile_sublist _).mem hd)
    · cases h

theorem readTarget?_eq_some {cs name rest : List Char} (h : readTarget? cs = some (name, rest)) :
    name ≠ [] ∧ (∀ c ∈ name, continuesName c = true) ∧ rest ⊆ cs := by
  obtain ⟨⟨name, tail⟩, hname, h⟩ := Option.bind_eq_some_iff.mp h
  obtain ⟨hne, hall, htail⟩ := readName?_eq_some hname
  simp only at h
  split at h
  · next value hvalue =>
    cases h
    refine ⟨hne, hall, fun c hc => htail ?_⟩
    have htrim : rest ⊆ Text.trimStart tail := by rw [hvalue]; exact List.subset_cons_self _ _
    exact (List.dropWhile_sublist _).mem (htrim hc)
  · cases h

theorem readExported?_eq_some {cs name rest : List Char} (h : readExported? cs = some (name, rest)) :
    name ≠ [] ∧ (∀ c ∈ name, continuesName c = true) ∧ rest ⊆ cs := by
  unfold readExported? at h
  split at h
  · next target ht =>
    obtain rfl := Option.some.inj h
    exact readTarget?_eq_some ht
  · obtain ⟨⟨word, tail⟩, hword, h⟩ := Option.bind_eq_some_iff.mp h
    obtain ⟨-, -, htail⟩ := readName?_eq_some hword
    simp only at h
    split at h
    · obtain ⟨hne, hall, hrest⟩ := readTarget?_eq_some h
      exact ⟨hne, hall, fun c hc => htail ((List.dropWhile_sublist _).mem (hrest hc))⟩
    · cases h

/-- A proper name, and a value with no NUL written in it. -/
structure Settable (a : Assignment) : Prop where
  isName : Environment.isName a.name = true
  nul_notMem_name : '\x00' ∉ a.name.toList
  nul_notMem_value : .char '\x00' ∉ a.value

theorem settable_of_read {line : List Char} {a : Assignment} (hline : '\x00' ∉ line) (h : Line.read line = .sets a) :
    Settable a := by
  have htrim : Text.trimStart (Text.trimEnd line) ⊆ line := by
    intro c hc
    have hc := (List.dropWhile_sublist _).mem hc
    rw [← Text.trimEnd_append line]
    exact List.mem_append_left _ hc
  simp only [Line.read] at h
  split at h
  · cases h
  split at h
  · cases h
  next name rest hname =>
  split at h
  · cases h
  next pieces hpieces =>
  cases h
  obtain ⟨hne, hall, hrest⟩ := readExported?_eq_some hname
  refine ⟨?_, ?_, ?_⟩
  · have heq : '=' ∉ name := by
      intro hc
      cases hall _ hc
    simp [Environment.isName, hne, heq]
  · rw [String.toList_ofList]
    intro hc
    cases hall _ hc
  · intro hc
    split at hpieces
    · cases hpieces
      cases hc
    · rcases char_of_readValue? hpieces hc with hc | hc
      · cases hc
      · exact hline (htrim (hrest ((List.dropWhile_sublist _).mem hc)))

end EnvFile

end ObjectExpr
