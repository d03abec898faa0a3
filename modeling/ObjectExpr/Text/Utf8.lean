/-
  ObjectExpr.Text.Utf8 — texts and their bytes. Positions count bytes, carets count characters
  (`charsWithin`). `decode?` accepts exactly what `encode` produces (`decode?_eq_some_iff`).
-/

namespace ObjectExpr.Text

/-- The length of a text in UTF-8. -/
def byteSize : List Char → Nat
  | [] => 0
  | c :: cs => c.utf8Size + byteSize cs

@[simp] theorem byteSize_nil : byteSize [] = 0 := rfl

@[simp] theorem byteSize_cons (c : Char) (cs : List Char) : byteSize (c :: cs) = c.utf8Size + byteSize cs := rfl

@[simp] theorem byteSize_append (cs ds : List Char) : byteSize (cs ++ ds) = byteSize cs + byteSize ds := by
  induction cs with
  | nil => simp
  | cons c cs ih => simp [ih, Nat.add_assoc]

/-- How many characters the first bytes of a text are; none if they end inside a character or past
    the end of the text. -/
def charsWithin : List Char → Nat → Option Nat
  | _, 0 => some 0
  | [], _ + 1 => none
  | c :: cs, n => if c.utf8Size ≤ n then (charsWithin cs (n - c.utf8Size)).map (· + 1) else none

theorem charsWithin_append (cs ds : List Char) : charsWithin (cs ++ ds) (byteSize cs) = some cs.length := by
  induction cs with
  | nil => cases ds <;> rfl
  | cons c cs ih =>
    have hc := c.utf8Size_pos
    obtain ⟨n, hn⟩ : ∃ n, c.utf8Size + byteSize cs = n + 1 := ⟨c.utf8Size + byteSize cs - 1, by omega⟩
    simp only [List.cons_append, byteSize_cons, hn, charsWithin]
    rw [if_pos (by omega), show n + 1 - c.utf8Size = byteSize cs by omega, ih]
    simp

/-! ## Encoding and decoding -/

def encode (cs : List Char) : List UInt8 := cs.flatMap String.utf8EncodeChar

def decode? (bytes : List UInt8) : Option (List Char) :=
  (ByteArray.utf8Decode? bytes.toByteArray).map Array.toList

theorem toByteArray_encode (cs : List Char) : (encode cs).toByteArray = cs.utf8Encode := rfl

theorem decode?_encode (cs : List Char) : decode? (encode cs) = some cs := by
  simp [decode?, toByteArray_encode, List.utf8Decode?_utf8Encode]

theorem eq_encode_of_decode? {bytes : List UInt8} {cs : List Char} (h : decode? bytes = some cs) :
    bytes = encode cs := by
  obtain ⟨chars, hc, rfl⟩ := Option.map_eq_some_iff.mp h
  have hs : (ByteArray.utf8Decode? bytes.toByteArray).isSome := by simp [hc]
  have he := ByteArray.utf8Encode_get_utf8Decode? (h := hs)
  simp only [hc, Option.get_some] at he
  have hb : bytes.toByteArray = (encode chars.toList).toByteArray := by rw [toByteArray_encode, he]
  have := congrArg (fun b => b.data.toList) hb
  simpa using this

/-- Decoding accepts exactly what encoding produces. -/
theorem decode?_eq_some_iff {bytes : List UInt8} {cs : List Char} : decode? bytes = some cs ↔ bytes = encode cs :=
  ⟨eq_encode_of_decode?, fun h => h ▸ decode?_encode cs⟩

/-- A byte below 0x80 is a whole character. -/
theorem exists_toNat_of_mem_encode {cs : List Char} {b : UInt8} (h : b ∈ encode cs) (hb : b.toNat < 0x80) :
    ∃ c ∈ cs, c.toNat = b.toNat := by
  obtain ⟨c, hc, hbc⟩ := List.mem_flatMap.mp h
  refine ⟨c, hc, ?_⟩
  change c.val.toNat = b.toNat
  simp only [String.utf8EncodeChar] at hbc
  split at hbc
  · obtain rfl := List.mem_singleton.mp hbc
    rw [UInt8.toNat_ofNat']
    omega
  · exfalso
    have hge : 0x80 ≤ b.toNat := by
      split at hbc
      · simp only [List.mem_cons, List.not_mem_nil, or_false] at hbc
        rcases hbc with rfl | rfl <;> rw [UInt8.toNat_ofNat'] <;> omega
      · split at hbc
        · simp only [List.mem_cons, List.not_mem_nil, or_false] at hbc
          rcases hbc with rfl | rfl | rfl <;> rw [UInt8.toNat_ofNat'] <;> omega
        · simp only [List.mem_cons, List.not_mem_nil, or_false] at hbc
          rcases hbc with rfl | rfl | rfl | rfl <;> rw [UInt8.toNat_ofNat'] <;> omega
    omega

theorem zero_mem_encode {cs : List Char} (h : '\x00' ∈ cs) : 0 ∈ encode cs :=
  List.mem_flatMap.mpr ⟨_, h, by decide⟩

end ObjectExpr.Text
