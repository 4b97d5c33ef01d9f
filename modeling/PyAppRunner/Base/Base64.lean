import Mathlib.Data.List.Nodup

/-! Bytes, their UTF-8 and their base64 texts.

`b64decode` is the strict decoder (`validate=True`): nothing but the alphabet, in groups
of four, with the last group padded. The bits that padding leaves over are not looked
at, so several texts may decode to the same bytes; the text `b64encode` makes is one of
them. -/
namespace PyAppRunner.Base

/-- A `bytes` object. -/
abbrev Bytes := List UInt8

/-! ### UTF-8 -/

/-- `str.encode("utf-8")`. -/
def utf8 (s : String) : Bytes := s.toList.flatMap String.utf8EncodeChar

/-- `bytes.decode("utf-8")`. -/
def fromUtf8 (b : Bytes) : Option String := String.fromUTF8? b.toByteArray

theorem fromUtf8_utf8 (s : String) : fromUtf8 (utf8 s) = some s := by
  have hbytes : (utf8 s).toByteArray = s.toByteArray := by
    rw [← String.utf8Encode_toList]
    rfl
  rw [fromUtf8, hbytes, String.fromUTF8?, dif_pos s.isValidUTF8]
  rfl

/-- A character takes a byte at least. -/
theorem length_le_utf8 (s : String) : s.toList.length ≤ (utf8 s).length := by
  unfold utf8
  induction s.toList with
  | nil => exact Nat.le_refl _
  | cons c rest ih =>
    have := c.utf8Size_pos
    simp only [List.flatMap_cons, List.length_append, List.length_cons, String.length_utf8EncodeChar]
    omega

/-! ### Base64 -/

/-- The digits of base64 in their order. -/
def alphabet : List Char := "ABCDEFGHIJKLMNOPQRSTUVWXYZabcdefghijklmnopqrstuvwxyz0123456789+/".toList

/-- The digit of six bits. -/
def digit (n : Nat) : Char := alphabet.getD n 'A'

/-- The six bits a character stands for. -/
def sextet (c : Char) : Option Nat := alphabet.idxOf? c

theorem alphabet_facts : alphabet.length = 64 ∧ alphabet.Nodup ∧ '=' ∉ alphabet := by decide +kernel

theorem getElem_alphabet {n : Nat} (h : n < alphabet.length) : alphabet[n] = digit n := by
  rw [digit, List.getD_eq_getElem?_getD, List.getElem?_eq_getElem h, Option.getD_some]

theorem sextet_digit {n : Nat} (h : n < 64) : sextet (digit n) = some n := by
  rw [← alphabet_facts.1] at h
  refine List.idxOf?_eq_some_iff.mpr ⟨h, getElem_alphabet h, fun j hj hsame => ?_⟩
  rw [← getElem_alphabet h, alphabet_facts.2.1.getElem_inj_iff] at hsame
  omega

theorem digit_ne_pad {n : Nat} (h : n < 64) : digit n ≠ '=' := by
  rw [← alphabet_facts.1] at h
  rw [← getElem_alphabet h]
  exact fun hpad => alphabet_facts.2.2 (hpad ▸ List.getElem_mem h)

/-- Three bytes become four digits. The last group is filled up with `=`. -/
def b64encode : Bytes → List Char
  | [] => []
  | [a] => [digit (a.toNat / 4), digit (a.toNat % 4 * 16), '=', '=']
  | [a, b] =>
    [digit (a.toNat / 4), digit (a.toNat % 4 * 16 + b.toNat / 16), digit (b.toNat % 16 * 4), '=']
  | a :: b :: c :: rest =>
    digit (a.toNat / 4) :: digit (a.toNat % 4 * 16 + b.toNat / 16) ::
      digit (b.toNat % 16 * 4 + c.toNat / 64) :: digit (c.toNat % 64) :: b64encode rest

/-- The byte of two sextets, of which `drop` bits of the second are another byte's. -/
def joined (x y drop keep : Nat) : UInt8 := UInt8.ofNat (x * keep + y / drop)

/-- `base64.b64decode(s, validate=True)`: `none` is `binascii.Error`. This is the documented rule; CPython 3.11 is
more lenient about the padding, and takes `AAAA=` for `AAAA`. -/
def b64decode : List Char → Option Bytes
  | [] => some []
  | a :: b :: c :: d :: rest => do
    let x ← sextet a
    let y ← sextet b
    if d = '=' then
      if rest ≠ [] then none
      else if c = '=' then some [joined x y 16 4]
      else
        let z ← sextet c
        some [joined x y 16 4, joined (y % 16) z 4 16]
    else
      let z ← sextet c
      let u ← sextet d
      let after ← b64decode rest
      some (joined x y 16 4 :: joined (y % 16) z 4 16 :: joined (z % 4) u 1 64 :: after)
  | _ => none

theorem joined_eq {x y drop keep : Nat} {a : UInt8} (h : x * keep + y / drop = a.toNat) :
    joined x y drop keep = a := by
  rw [joined, h, UInt8.ofNat_toNat]

theorem b64decode_b64encode (bytes : Bytes) : b64decode (b64encode bytes) = some bytes := by
  induction bytes using b64encode.induct with
  | case1 => rfl
  | case2 a =>
    have ha := a.toNat_lt
    have hx := sextet_digit (n := a.toNat / 4) (by omega)
    have hy := sextet_digit (n := a.toNat % 4 * 16) (by omega)
    have hfirst : joined (a.toNat / 4) (a.toNat % 4 * 16) 16 4 = a := joined_eq (by omega)
    simp [b64encode, b64decode, hx, hy, hfirst]
  | case3 a b =>
    have ha := a.toNat_lt
    have hb := b.toNat_lt
    have hx := sextet_digit (n := a.toNat / 4) (by omega)
    have hy := sextet_digit (n := a.toNat % 4 * 16 + b.toNat / 16) (by omega)
    have hz := sextet_digit (n := b.toNat % 16 * 4) (by omega)
    have hpad := digit_ne_pad (n := b.toNat % 16 * 4) (by omega)
    have hfirst : joined (a.toNat / 4) (a.toNat % 4 * 16 + b.toNat / 16) 16 4 = a := joined_eq (by omega)
    have hsecond : joined (b.toNat / 16 % 16) (b.toNat % 16 * 4) 4 16 = b := joined_eq (by omega)
    simp [b64encode, b64decode, hx, hy, hz, hpad, hfirst, hsecond]
  | case4 a b c rest ih =>
    have ha := a.toNat_lt
    have hb := b.toNat_lt
    have hc := c.toNat_lt
    have hx := sextet_digit (n := a.toNat / 4) (by omega)
    have hy := sextet_digit (n := a.toNat % 4 * 16 + b.toNat / 16) (by omega)
    have hz := sextet_digit (n := b.toNat % 16 * 4 + c.toNat / 64) (by omega)
    have hu := sextet_digit (n := c.toNat % 64) (by omega)
    have hpad := digit_ne_pad (n := c.toNat % 64) (by omega)
    have hfirst : joined (a.toNat / 4) (a.toNat % 4 * 16 + b.toNat / 16) 16 4 = a := joined_eq (by omega)
    have hsecond : joined (b.toNat / 16 % 16) (b.toNat % 16 * 4 + c.toNat / 64) 4 16 = b :=
      joined_eq (by omega)
    have hthird : joined (c.toNat / 64 % 4) (c.toNat % 64) 1 64 = c := joined_eq (by omega)
    simp [b64encode, b64decode, hx, hy, hz, hu, hpad, hfirst, hsecond, hthird, ih]

/-- Four characters make three bytes at most. -/
theorem length_b64decode {s : List Char} {bytes : Bytes} (h : b64decode s = some bytes) :
    4 * bytes.length ≤ 3 * s.length := by
  induction s using b64decode.induct generalizing bytes with
  | case1 =>
    cases h
    exact Nat.le_refl _
  | case2 a b c d rest ih =>
    simp only [b64decode, Option.bind_eq_bind, Option.bind_eq_some_iff] at h
    obtain ⟨x, -, y, -, h⟩ := h
    split at h
    · split at h
      · cases h
      · split at h
        · cases h
          simp only [List.length_cons, List.length_nil]
          omega
        · simp only [Option.bind_eq_some_iff, Option.some.injEq] at h
          obtain ⟨z, -, rfl⟩ := h
          simp only [List.length_cons, List.length_nil]
          omega
    · simp only [Option.bind_eq_some_iff, Option.some.injEq] at h
      obtain ⟨z, -, u, -, after, hafter, rfl⟩ := h
      have := ih hafter
      simp only [List.length_cons]
      omega
  | case3 s hnil hlong => simp [b64decode] at h

theorem b64encode_ne_nil {bytes : Bytes} (h : bytes ≠ []) : b64encode bytes ≠ [] := by
  intro hnil
  have hdecoded := b64decode_b64encode bytes
  rw [hnil] at hdecoded
  exact h (Option.some.inj hdecoded).symm

end PyAppRunner.Base
