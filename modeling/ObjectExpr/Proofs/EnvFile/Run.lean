/-
  ObjectExpr.Proofs.EnvFile.Run — a run with an env file and one without. The name of a variable in an
  expression holds no equals sign, so what is answered depends on such names only (`Request.answer_congr`). A
  file without a NUL never ends the run, and the answer is that of a run without it in the environment that
  its lines come to (`env_file_only_adds`): what comes out is the same but for a warning.
-/

import ObjectExpr.Command
import ObjectExpr.Proofs.EnvFile.Loading
import ObjectExpr.Proofs.Lexer.Tiling
import ObjectExpr.Proofs.Variables

namespace ObjectExpr

/-! ## What an answer depends on -/

theorem Tiling.exists_tile_of_mem_tokens {T : Tiling} {k : Nat} {t : Token} (h : t ∈ T.tokens k) :
    ∃ tile ∈ T.tiles, tile.lexeme = t.lexeme := by
  induction T using tiles_induction generalizing k with
  | last blanks opened => cases h
  | cons u T ih =>
    rw [tokens_cons] at h
    rcases List.mem_cons.mp h with rfl | h
    · exact ⟨u, List.mem_cons_self, rfl⟩
    · obtain ⟨tile, htile, hl⟩ := ih h
      exact ⟨tile, List.mem_cons_of_mem u htile, hl⟩

theorem equalsSign_notMem_of_mem_variableNames {input name : String} (h : name ∈ variableNames input) :
    '=' ∉ name.toList := by
  obtain ⟨t, ht, hword⟩ := List.mem_map.mp (mem_variableNames_iff.mp h)
  obtain ⟨T, hT, htext⟩ := Tiling.exists_fits input.toList
  rw [Cursor.ofString, ← htext, hT.read_eq] at ht
  obtain ⟨tile, htile, hlexeme⟩ := Tiling.exists_tile_of_mem_tokens ht
  have hspelled := hT.wellSpelled tile htile
  rw [hlexeme] at hspelled
  obtain ⟨lexeme, position⟩ := t
  cases lexeme with
  | env cs =>
    obtain rfl : String.ofList cs = name := Word.env.inj hword
    rw [String.toList_ofList]
    intro hc
    exact hspelled '=' hc (.inr ⟨.assign, rfl⟩)
  | _ => cases hword

section

variable {lookup₁ lookup₂ : String → Option String}

theorem parseForest_congr (h : ∀ name, '=' ∉ name.toList → lookup₁ name = lookup₂ name) (input : String) :
    parseForest lookup₁ input = parseForest lookup₂ input := by
  unfold parseForest
  cases hp : Expression.parse input with
  | error err => rfl
  | ok e =>
    have hforest : e.forest lookup₁ = e.forest lookup₂ := by
      refine (sameElements_of_parse lookup₁ lookup₂ hp).eq fun s₁ s₂ hs => hs.eq fun name hn => ?_
      exact h name (equalsSign_notMem_of_mem_variableNames hn)
    exact congrArg Except.ok hforest

theorem Request.answer_congr (h : ∀ name, '=' ∉ name.toList → lookup₁ name = lookup₂ name) (r : Request) :
    r.answer lookup₁ = r.answer lookup₂ := by
  have hlines : parseLines lookup₁ = parseLines lookup₂ := by
    funext lines
    exact parseForest_congr h _
  have hbytes : parseBytes lookup₁ = parseBytes lookup₂ := by
    funext bytes
    simp only [parseBytes, hlines]
  have hforest : r.forest lookup₁ = r.forest lookup₂ := by simp only [Request.forest, hlines, hbytes]
  rw [answer, answer, hforest]

end

/-! ## Two runs -/

namespace EnvFile

theorem Extends.lookup_eq_of_notMem {env env₁ env₂ : Environment} {lines : List (List Char)} (h₁ : Extends env lines env₁)
    (h₂ : Extends env lines env₂) {name : String} (hn : '=' ∉ name.toList) : env₁.lookup name = env₂.lookup name := by
  cases he : name.isEmpty with
  | true => rw [Environment.lookup, Environment.lookup, if_pos he, if_pos he]
  | false => exact h₁.lookup_eq h₂ (by simp [Environment.isName, he, hn])

theorem load_fst (env : Environment) (bytes : List UInt8) :
    (load env bytes).1 = after env (logicalLines bytes).1 := rfl

theorem load_snd_ne_unsettable (env : Environment) {bytes : List UInt8} (h : 0 ∉ bytes) :
    (load env bytes).2 ≠ .unsettable := by
  have hlines : ∀ line ∈ (logicalLines bytes).1, '\x00' ∉ line := fun _ => nul_notMem_logicalLines h
  have hverdict := (Loading.apply_of_nulFree (Loading.settled_start env) hlines).2.1
  simp only [load]
  split
  · exact nofun
  · exact hverdict

end EnvFile

namespace Command

open EnvFile (Extends logicalLines)

/-- A warning changes nothing else. -/
theorem Outcome.answered_congr (warned warned' : Bool) (answer : Except RequestError String) :
    (answered warned answer).exitCode = (answered warned' answer).exitCode ∧
      (answered warned answer).output = (answered warned' answer).output ∧
      (answered warned answer).report = (answered warned' answer).report := by
  cases answer <;> exact ⟨rfl, rfl, rfl⟩

/-- An env file only adds variables. Whatever its lines are, what is set stays, what is not is what the first
    line says that sets it, and nothing else changes, up to the first line that is malformed; this is so
    behind any of its lines. And what comes out is what comes out of a run without the file in any environment
    that is so: the same exit code, the same output and the same report. -/
theorem env_file_only_adds {w : World} {args : List String} {bytes : List UInt8}
    (hfile : ∀ o, Choice.read args = .run o → w.entry (o.envFile.getD defaultEnvFile) = .file bytes) (hnul : 0 ∉ bytes) :
    (∀ lines, lines <+: (logicalLines bytes).1 →
      Extends w.environment lines (EnvFile.after w.environment lines)) ∧
    ∀ env, Extends w.environment (logicalLines bytes).1 env →
      (run w args).exitCode = (run ⟨env, fun _ => .missing, w.input⟩ args).exitCode ∧
      (run w args).output = (run ⟨env, fun _ => .missing, w.input⟩ args).output ∧
      (run w args).report = (run ⟨env, fun _ => .missing, w.input⟩ args).report := by
  have hextends : ∀ lines, lines <+: (logicalLines bytes).1 →
      Extends w.environment lines (EnvFile.after w.environment lines) := fun lines hlines =>
    EnvFile.extends_after w.environment fun _ hl => EnvFile.nul_notMem_logicalLines hnul (hlines.subset hl)
  refine ⟨hextends, fun env henv => ?_⟩
  cases hchoice : Choice.read args with
  | help => simp only [run, hchoice, and_self]
  | version => simp only [run, hchoice, and_self]
  | misuse => simp only [run, hchoice, and_self]
  | run o =>
    have hload : o.environment w = EnvFile.load w.environment bytes := by
      simp only [Options.environment, hfile o hchoice]
    have hanswer : o.answer w = o.answer ⟨env, fun _ => .missing, w.input⟩ := by
      have hlookup : ∀ name, '=' ∉ name.toList → (o.environment w).1.lookup name = env.lookup name := by
        intro name hn
        rw [hload, EnvFile.load_fst]
        exact (hextends _ List.prefix_rfl).lookup_eq_of_notMem henv hn
      have hinput : o.input ⟨env, fun _ => .missing, w.input⟩ = o.input w := rfl
      rw [Options.answer, Options.answer, hinput]
      cases o.input w with
      | error e => rfl
      | ok input => exact Request.answer_congr hlookup _
    have hverdict := EnvFile.load_snd_ne_unsettable w.environment hnul
    rw [← hload] at hverdict
    have hwithout : run ⟨env, fun _ => .missing, w.input⟩ args = .answered false (o.answer w) := by
      rw [hanswer]
      simp only [run, hchoice]
      rfl
    rw [hwithout]
    simp only [run, hchoice]
    cases hv : (o.environment w).2 with
    | complete => exact ⟨rfl, rfl, rfl⟩
    | faulty => exact Outcome.answered_congr true false (o.answer w)
    | unsettable => exact absurd hv hverdict

/-- What is set stays, the first value counts, and nothing counts behind a line that is malformed. -/
theorem env_file_only_adds_to_preset :
    let bytes := Text.encode "A=2\nB=$A\nB=3\n?\nC=4".toList
    let w : World := ⟨.ofBytes [("A", [0x31])], fun _ => .file bytes, none⟩
    (∀ o, Choice.read ["b=^B"] = .run o → w.entry (o.envFile.getD defaultEnvFile) = .file bytes) ∧ 0 ∉ bytes ∧
      ∃ env, Extends w.environment (logicalLines bytes).1 env ∧ env.lookup "A" = some "1" ∧
      env.lookup "B" = some "1" ∧ env.lookup "C" = none ∧
      (run w ["b=^B"]).output = (run ⟨env, fun _ => .missing, none⟩ ["b=^B"]).output ∧
      (run w ["b=^B"]).output = "\x7b\n   \"b\": 1\n\x7d\n" := by
  have hnul : 0 ∉ Text.encode "A=2\nB=$A\nB=3\n?\nC=4".toList := by decide +kernel
  obtain ⟨hextends, hrun⟩ :=
    env_file_only_adds (w := ⟨.ofBytes [("A", [0x31])], fun _ => .file _, none⟩) (fun _ _ => rfl) hnul
  have henv := hextends _ List.prefix_rfl
  refine ⟨fun _ _ => rfl, hnul, _, henv, ?_, ?_, ?_, (hrun _ henv).2.1, ?_⟩
  · with_unfolding_all rfl
  · with_unfolding_all rfl
  · with_unfolding_all rfl
  · with_unfolding_all rfl

end Command

end ObjectExpr
