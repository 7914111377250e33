import Mathlib.Algebra.Group.Nat.Defs
import ValidatorGen.Text.Ascending

/-!
# Texts compare as their bytes

Texts compare character by character, and characters by their code points.  Written in UTF-8 they
compare in the same way byte by byte (`bytes_lt_bytes`).

A code point is written as a first byte, which tells how many bytes follow and holds its highest
bits, and bytes of six bits each.  The first bytes ascend with the code points (`lead_lt`); where
they agree, the bits that follow decide (`trail_append_lt`).
-/

namespace ValidatorGen.Text

/-- The bytes of a text in UTF-8. -/
def bytes (text : String) : List UInt8 := text.toUTF8.data.toList

theorem bytes_eq_flatMap (text : String) :
    bytes text = text.toList.flatMap String.utf8EncodeChar := by
  have hbytes : text.toUTF8 = text.toList.utf8Encode := String.utf8Encode_toList.symm
  rw [bytes, hbytes, List.utf8Encode, List.data_toByteArray]

/-! ## Code points -/

/-- The first byte of a code point, and the number of bytes that follow. -/
def lead (code : Nat) : Nat × Nat :=
  if code ≤ 127 then (code, 0)
  else if code ≤ 2047 then (code / 64 + 192, 1)
  else if code ≤ 65535 then (code / 4096 + 224, 2)
  else (code / 262144 + 240, 3)

/-- Bytes that hold the lowest bits of a code point, six each. -/
def trail : Nat → Nat → List UInt8
  | 0, _ => []
  | count + 1, code => UInt8.ofNat (code / 64 ^ count % 64 + 128) :: trail count code

theorem code_lt (c : Char) : c.toNat < 1114112 := by
  have hvalid : c.toNat < 55296 ∨ 57343 < c.toNat ∧ c.toNat < 1114112 := c.valid
  omega

theorem utf8EncodeChar_eq (c : Char) : String.utf8EncodeChar c =
    UInt8.ofNat (lead c.toNat).1 :: trail (lead c.toNat).2 c.toNat := by
  have hcode := code_lt c
  have htoNat : c.val.toNat = c.toNat := rfl
  unfold String.utf8EncodeChar lead
  rw [htoNat]
  dsimp only
  split
  · rfl
  · split
    · have hbits : c.toNat / 64 % 32 = c.toNat / 64 := by omega
      simp [trail, hbits]
    · split
      · have hbits : c.toNat / 4096 % 16 = c.toNat / 4096 := by omega
        simp [trail, hbits]
      · have hbits : c.toNat / 262144 % 8 = c.toNat / 262144 := by omega
        simp [trail, hbits]

theorem lead_cases (code : Nat) :
    (code ≤ 127 ∧ lead code = (code, 0)) ∨
    (127 < code ∧ code ≤ 2047 ∧ lead code = (code / 64 + 192, 1)) ∨
    (2047 < code ∧ code ≤ 65535 ∧ lead code = (code / 4096 + 224, 2)) ∨
    (65535 < code ∧ lead code = (code / 262144 + 240, 3)) := by
  unfold lead
  split
  · exact Or.inl ⟨‹_›, rfl⟩
  · split
    · exact Or.inr (Or.inl ⟨by omega, ‹_›, rfl⟩)
    · split
      · exact Or.inr (Or.inr (Or.inl ⟨by omega, ‹_›, rfl⟩))
      · exact Or.inr (Or.inr (Or.inr ⟨by omega, rfl⟩))

/-- The first byte of the higher one of two code points is higher, unless the two agree in it and in
all bits that it holds. -/
theorem lead_lt {a b : Nat} (h : a < b) :
    (lead a).1 < (lead b).1 ∨
      (lead a = lead b ∧ a / 64 ^ (lead a).2 = b / 64 ^ (lead a).2) := by
  -- with more bytes to follow the first byte is higher, and with as many the highest bits decide
  rcases lead_cases a with ⟨_, ha⟩ | ⟨_, _, ha⟩ | ⟨_, _, ha⟩ | ⟨_, ha⟩ <;>
    rcases lead_cases b with ⟨_, hb⟩ | ⟨_, _, hb⟩ | ⟨_, _, hb⟩ | ⟨_, hb⟩ <;>
      simp only [ha, hb, Prod.mk.injEq, and_true, Nat.reducePow] <;> omega

theorem cons_lt_cons_of {a b : Nat} (hb : b < 256) {rest other : List UInt8}
    (h : a < b ∨ a = b ∧ rest < other) : UInt8.ofNat a :: rest < UInt8.ofNat b :: other := by
  rcases h with h | ⟨rfl, h⟩
  · exact .rel ((UInt8.ofNat_lt_iff_lt (Nat.lt_trans h hb) hb).mpr h)
  · exact .cons h

/-- Of two code points that agree in all higher bits, the lower one has the lower bytes. -/
theorem trail_append_lt {count a b : Nat} (h : a < b) (hhigh : a / 64 ^ count = b / 64 ^ count)
    (rest other : List UInt8) : trail count a ++ rest < trail count b ++ other := by
  induction count with
  | zero => simp at hhigh; omega
  | succ count ih =>
      rw [Nat.pow_succ, ← Nat.div_div_eq_div_mul, ← Nat.div_div_eq_div_mul] at hhigh
      refine cons_lt_cons_of (by omega) ?_
      by_cases hnext : a / 64 ^ count = b / 64 ^ count
      · exact Or.inr ⟨by rw [hnext], ih hnext⟩
      · have hle : a / 64 ^ count ≤ b / 64 ^ count := Nat.div_le_div_right (Nat.le_of_lt h)
        exact Or.inl (by omega)

/-- The bytes of the higher one of two characters are higher, whatever comes behind. -/
theorem utf8EncodeChar_append_lt {c d : Char} (h : c < d) (rest other : List UInt8) :
    String.utf8EncodeChar c ++ rest < String.utf8EncodeChar d ++ other := by
  have hcode : c.toNat < d.toNat := h
  have hbyte : (lead d.toNat).1 < 256 := by
    have hmax := code_lt d
    rcases lead_cases d.toNat with ⟨_, hd⟩ | ⟨_, _, hd⟩ | ⟨_, _, hd⟩ | ⟨_, hd⟩ <;>
      simp only [hd] <;> omega
  rw [utf8EncodeChar_eq, utf8EncodeChar_eq]
  refine cons_lt_cons_of hbyte ((lead_lt hcode).imp_right ?_)
  rintro ⟨hlead, hhigh⟩
  rw [← hlead]
  exact ⟨rfl, trail_append_lt hcode hhigh rest other⟩

/-! ## Texts -/

theorem append_lt_append_left {before rest other : List UInt8} (h : rest < other) :
    before ++ rest < before ++ other := by
  induction before with
  | nil => exact h
  | cons byte before ih => exact .cons ih

/-- The lower one of two texts has the lower bytes. -/
theorem bytes_lt_bytes {a b : String} (h : a < b) : bytes a < bytes b := by
  rw [bytes_eq_flatMap, bytes_eq_flatMap]
  have hchars : a.toList.Lex (· < ·) b.toList := String.lt_iff.mp h
  generalize a.toList = first, b.toList = second at hchars
  induction hchars with
  | nil =>
      rw [List.flatMap_cons, utf8EncodeChar_eq]
      exact .nil
  | cons _ ih =>
      rw [List.flatMap_cons, List.flatMap_cons]
      exact append_lt_append_left ih
  | rel hlt =>
      rw [List.flatMap_cons, List.flatMap_cons]
      exact utf8EncodeChar_append_lt hlt _ _

/-- The texts of a list differ, and they ascend byte by byte. -/
def Ascends (texts : List String) : Prop := texts.Pairwise fun a b => bytes a < bytes b

theorem ascends_ascending (texts : List String) : Ascends (ascending texts) :=
  (pairwise_ascending texts).imp bytes_lt_bytes

theorem Ascends.nodup {texts : List String} (h : Ascends texts) : texts.Nodup := by
  refine h.imp fun {a b} hlt heq => ?_
  rw [heq] at hlt
  exact List.lt_irrefl _ hlt

/-- Ascending lists of the same texts are equal. -/
theorem Ascends.ext {texts others : List String} (h : Ascends texts) (hothers : Ascends others)
    (hmem : ∀ text, text ∈ texts ↔ text ∈ others) : texts = others := by
  have hperm : texts.Perm others :=
    (List.perm_ext_iff_of_nodup h.nodup hothers.nodup).mpr hmem
  exact hperm.eq_of_pairwise (fun _ _ _ _ hlt hlt' => absurd hlt' (List.lt_asymm hlt)) h hothers

end ValidatorGen.Text
