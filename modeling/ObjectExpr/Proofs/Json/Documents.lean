/-
  ObjectExpr.Proofs.Json.Documents — values that are written as JSON and read again. `Value.datum` is what a
  document has to say about a value: all of its fields and elements in order, integers and floats apart, and
  null for a float that is no finite number.

  In any layout that sets the parts apart by whitespace, the symbols of the text are those of that document
  (`hasSymbols_write`). So a value with distinct names is read back from either of its texts, and a forest from
  its stream, document by document (`json_reads_back`).
-/

import ObjectExpr.Document
import ObjectExpr.Proofs.Json.Spelling
import ObjectExpr.Proofs.Value.Plain

namespace ObjectExpr

open Json (Datum)

namespace Value

mutual

def datum : Value → Datum
  | .null => .atom .null
  | .boolean b => .atom (.boolean b)
  | .integer n => .atom (.integer n.toInt)
  | .float x => .atom (if x.isFinite then .float x else .null)
  | .string s => .atom (.string s)
  | .array vs => .array (elementData vs)
  | .object fs => .object (fieldData fs)

def elementData : List Value → List Datum
  | [] => []
  | v :: vs => datum v :: elementData vs

def fieldData : List (String × Value) → List (String × Datum)
  | [] => []
  | (name, v) :: fs => (name, datum v) :: fieldData fs

end

end Value

namespace Json

/-! ## Layouts -/

/-- What a layout puts between the parts of a document is whitespace. -/
structure Style.Spaced (style : Style) : Prop where
  line : ∀ depth, ∀ c ∈ style.line depth, isSpace c = true
  colon : ∃ space, style.colon = ':' :: space ∧ ∀ c ∈ space, isSpace c = true

theorem spaced_oneLine : oneLine.Spaced := ⟨fun _ => nofun, [], rfl, nofun⟩

theorem spaced_indented : indented.Spaced := by
  constructor
  · intro depth
    change ∀ c ∈ '\n' :: List.replicate (3 * depth) ' ', isSpace c = true
    rw [List.forall_mem_cons]
    refine ⟨rfl, fun c hc => ?_⟩
    rw [List.eq_of_mem_replicate hc]
    rfl
  · exact ⟨[' '], rfl, List.all_eq_true.mp rfl⟩

variable {style : Style}

theorem apart_writeElements (style : Style) (depth : Nat) (vs : List Value) : Apart (writeElements style depth vs) := by
  cases vs with
  | nil => exact nofun
  | cons v vs =>
    intro c hc
    cases hc
    rfl

theorem apart_writeFields (style : Style) (depth : Nat) (fs : List (String × Value)) :
    Apart (writeFields style depth fs) := by
  match fs with
  | [] => exact nofun
  | (name, v) :: fs =>
    intro c hc
    cases hc
    rfl

/-- The end of an array or an object, on its own line. -/
theorem apart_closing (hs : style.Spaced) (depth : Nat) {c : Char} (hc : isBare c = false) :
    Apart (style.line depth ++ [c]) := by
  refine (apart_of_space (hs.line depth)).append ?_
  intro d hd
  cases hd
  exact hc

theorem hasSymbols_closing (hs : style.Spaced) (depth : Nat) {c : Char} {m : Symbol} (hc : mark? c = some m) :
    HasSymbols (style.line depth ++ [c]) [m] :=
  .space_append (hs.line depth) (.mark_cons hc .nil)

theorem HasSymbols.colon_append (hs : style.Spaced) {text : List Char} {symbols : List Symbol}
    (h : HasSymbols text symbols) : HasSymbols (style.colon ++ text) (.colon :: symbols) := by
  obtain ⟨space, hcolon, hspace⟩ := hs.colon
  rw [hcolon]
  exact .mark_cons rfl (.space_append hspace h)

/-! ## Documents -/

mutual

/-- A value is written with the symbols of its document. -/
theorem hasSymbols_write (hs : style.Spaced) (depth : Nat) (v : Value) :
    HasSymbols (write style depth v.finite) v.datum.symbols := by
  match v with
  | .null => exact hasSymbols_null
  | .boolean b => exact hasSymbols_booleanText b
  | .integer n => exact hasSymbols_integerText n.toInt
  | .float x =>
    rw [Value.finite, Value.datum]
    by_cases hx : x.isFinite = true
    · rw [if_pos hx, if_pos hx]
      exact hasSymbols_float hx
    · rw [if_neg hx, if_neg hx]
      exact hasSymbols_null
  | .string s =>
    have h := HasSymbols.stringText_append s .nil
    rwa [List.append_nil] at h
  | .array [] => exact .mark_cons rfl (.mark_cons rfl .nil)
  | .array (v :: vs) =>
    rw [Value.finite, Value.finiteAll, Value.datum, Value.elementData, write, Datum.symbols]
    simp only [List.cons_append, List.append_assoc]
    refine .mark_cons rfl (.space_append (hs.line (depth + 1)) ?_)
    refine (hasSymbols_write hs (depth + 1) v).append ?_ ((apart_writeElements _ _ _).append (apart_closing hs depth rfl))
    exact (hasSymbols_writeElements hs (depth + 1) vs).append (hasSymbols_closing hs depth rfl) (apart_closing hs depth rfl)
  | .object [] => exact .mark_cons rfl (.mark_cons rfl .nil)
  | .object ((name, v) :: fs) =>
    rw [Value.finite, Value.finiteFields, Value.datum, Value.fieldData, write, Datum.symbols]
    simp only [List.cons_append, List.append_assoc]
    refine .mark_cons rfl (.space_append (hs.line (depth + 1)) (.stringText_append name (.colon_append hs ?_)))
    refine (hasSymbols_write hs (depth + 1) v).append ?_ ((apart_writeFields _ _ _).append (apart_closing hs depth rfl))
    exact (hasSymbols_writeFields hs (depth + 1) fs).append (hasSymbols_closing hs depth rfl) (apart_closing hs depth rfl)

theorem hasSymbols_writeElements (hs : style.Spaced) (depth : Nat) (vs : List Value) :
    HasSymbols (writeElements style depth (Value.finiteAll vs)) (Datum.elementSymbols (Value.elementData vs)) := by
  match vs with
  | [] => exact .nil
  | v :: vs =>
    rw [Value.finiteAll, Value.elementData, writeElements, Datum.elementSymbols]
    simp only [List.cons_append, List.append_assoc]
    refine .mark_cons rfl (.space_append (hs.line depth) ?_)
    exact (hasSymbols_write hs depth v).append (hasSymbols_writeElements hs depth vs) (apart_writeElements _ _ _)

theorem hasSymbols_writeFields (hs : style.Spaced) (depth : Nat) (fs : List (String × Value)) :
    HasSymbols (writeFields style depth (Value.finiteFields fs)) (Datum.fieldSymbols (Value.fieldData fs)) := by
  match fs with
  | [] => exact .nil
  | (name, v) :: fs =>
    rw [Value.finiteFields, Value.fieldData, writeFields, Datum.fieldSymbols]
    simp only [List.cons_append, List.append_assoc]
    refine .mark_cons rfl (.space_append (hs.line depth) (.stringText_append name (.colon_append hs ?_)))
    exact (hasSymbols_write hs depth v).append (hasSymbols_writeFields hs depth fs) (apart_writeFields _ _ _)

end

/-- The text of a value with distinct names is that of its document. -/
theorem symbols?_write (hs : style.Spaced) {v : Value} (h : v.Distinct) :
    symbols? (write style 0 v.plain) = some v.datum.symbols := by
  have hsym := hasSymbols_write hs 0 v [] nofun
  rw [List.append_nil, symbols?, Option.map_some, List.append_nil] at hsym
  rw [v.plain_eq_finite h, hsym]

theorem decode?_of_symbols {text : String} {d : Datum} (h : symbols? text.toList = some d.symbols) :
    decode? text = some d := by
  have hall : decodeAll? text = some [d] := decodeAll?_of_symbols (by rw [h, List.flatMap_singleton])
  rw [decode?, hall]
  rfl

/-! ## Streams -/

/-- A document with a line end behind it stands apart from any other. -/
theorem symbols?_document {v : Value} (h : v.Distinct) (rest : List Char) :
    symbols? ((Format.json.document v).toList ++ rest) = (symbols? rest).map (v.datum.symbols ++ ·) := by
  have htext : (Format.json.document v).toList ++ rest = write indented 0 v.plain ++ '\n' :: rest := by
    simp [Format.document, pretty]
  have hline : Apart ('\n' :: rest) := by
    intro c hc
    cases hc
    rfl
  rw [htext, v.plain_eq_finite h, hasSymbols_write spaced_indented 0 v _ hline, symbols?_space rfl]

theorem intercalate_nil_left {α : Type} (ls : List (List α)) : [].intercalate ls = ls.flatten := by
  induction ls with
  | nil => rfl
  | cons l ls ih =>
    cases ls with
    | nil => simp
    | cons l' ls =>
      rw [List.intercalate_cons_cons, ih, List.append_nil]
      rfl

theorem toList_render (forest : Forest) :
    (Forest.render .json forest).toList = forest.flatMap fun t => (Format.json.document t.produce).toList := by
  rw [Forest.render, String.toList_intercalate, List.map_map, List.flatMap_def]
  exact intercalate_nil_left _

theorem symbols?_render {forest : Forest} (h : ∀ t ∈ forest, t.Distinct) :
    symbols? (Forest.render .json forest).toList =
      some ((forest.map fun t => t.produce.datum).flatMap Datum.symbols) := by
  rw [toList_render]
  induction forest with
  | nil =>
    rw [List.flatMap_nil, symbols?]
    rfl
  | cons t forest ih =>
    obtain ⟨ht, hforest⟩ := List.forall_mem_cons.mp h
    rw [List.flatMap_cons, symbols?_document ht.produce, ih hforest]
    rfl

theorem decodeAll?_render {forest : Forest} (h : ∀ t ∈ forest, t.Distinct) :
    decodeAll? (Forest.render .json forest) = some (forest.map fun t => t.produce.datum) :=
  decodeAll?_of_symbols (symbols?_render h)

/-- Whatever an expression is read as, its documents are the values of its trees. -/
theorem decodeAll?_render_of_parseForest {lookup : String → Option String} {input : String} {forest : Forest}
    (h : parseForest lookup input = .ok forest) :
    decodeAll? (Forest.render .json forest) = some (forest.map fun t => t.produce.datum) := by
  obtain ⟨e, -, rfl⟩ := parseForest_eq_ok_iff_parse.mp h
  apply decodeAll?_render
  cases e with
  | flat fields =>
    rw [Expression.forest, List.forall_mem_singleton]
    exact Tree.distinct_tree lookup _
  | bracketed roots =>
    rw [Expression.forest, List.forall_mem_map]
    exact fun t _ => Tree.distinct_tree lookup t

end Json

/-- Either text of a value says what its document has to say, and the text of a forest has one document for each
    tree, in order. -/
theorem json_reads_back {v : Value} (hv : v.Distinct) {forest : Forest} (hf : ∀ t ∈ forest, t.Distinct) :
    Json.decode? (Json.compact v) = some v.datum ∧ Json.decode? (Json.pretty v) = some v.datum ∧
      Json.decodeAll? (Forest.render .json forest) = some (forest.map fun t => t.produce.datum) := by
  refine ⟨?_, ?_, ?_⟩
  · apply Json.decode?_of_symbols
    rw [Json.compact, String.toList_ofList, Json.symbols?_write Json.spaced_oneLine hv]
  · apply Json.decode?_of_symbols
    rw [Json.pretty, String.toList_ofList, Json.symbols?_write Json.spaced_indented hv]
  · exact Json.decodeAll?_render hf

/-- The integer 42 and the float 42, the other zero, `10 ^ 16`, infinity, a string with a quote and a control
    character, and an object of nothing. -/
theorem json_reads_back_over_kinds :
    let v : Value := .object [("n", .integer 42), ("x", .float ⟨0x4045000000000000⟩),
      ("xs", .array [.float ⟨0x8000000000000000⟩, .float ⟨0x4341C37937E08000⟩, .float ⟨0x7FF0000000000000⟩]),
      ("s", .string "\"\x01"), ("o", .object [])]
    let d : Datum := .object [("n", .atom (.integer 42)), ("x", .atom (.float ⟨0x4045000000000000⟩)),
      ("xs", .array [.atom (.float ⟨0x8000000000000000⟩), .atom (.float ⟨0x4341C37937E08000⟩), .atom .null]),
      ("s", .atom (.string "\"\x01")), ("o", .object [])]
    Json.decode? (Json.compact v) = some d ∧ Json.decode? (Json.pretty v) = some d ∧
      Json.decodeAll? (Forest.render .json [.scalar (.integer 4), .scalar (.integer 2)]) =
        some [.atom (.integer 4), .atom (.integer 2)] := by
  intro v d
  have hv : v.Distinct := by
    refine .object (by decide) ?_
    simp only [List.forall_mem_cons]
    refine ⟨.integer 42, .float _, .array ?_, .string _, .object List.nodup_nil nofun, nofun⟩
    simp only [List.forall_mem_cons]
    exact ⟨.float _, .float _, .float _, nofun⟩
  have hf : ∀ t ∈ [Tree.scalar (.integer 4), .scalar (.integer 2)], t.Distinct := by
    simp only [List.forall_mem_cons]
    exact ⟨.scalar _, .scalar _, nofun⟩
  exact json_reads_back hv hf

end ObjectExpr
