import Mathlib.Data.List.Infix

/-! Where characters start in UTF-8, and how much of a text fits in so many bytes.

`ByteArray.utf8DecodeChar?` finds a character at a byte offset exactly where one starts, and in a part of
the bytes exactly where one starts that does not end after it. -/
namespace PyAppRunner.Base.Utf8

theorem size_singleton (c : Char) : [c].utf8Encode.size = c.utf8Size := by
  simp [List.utf8Encode_singleton]

theorem size_append (s t : List Char) : (s ++ t).utf8Encode.size = s.utf8Encode.size + t.utf8Encode.size := by
  rw [List.utf8Encode_append, ByteArray.size_append]

theorem size_cons (c : Char) (s : List Char) : (c :: s).utf8Encode.size = c.utf8Size + s.utf8Encode.size := by
  rw [← List.singleton_append, size_append, size_singleton]

theorem size_replicate (n : Nat) (c : Char) : (List.replicate n c).utf8Encode.size = n * c.utf8Size := by
  induction n with
  | zero => exact (Nat.zero_mul _).symm
  | succ n ih => rw [List.replicate_succ, size_cons, ih, Nat.succ_mul, Nat.add_comm]

theorem size_le_of_starts {s t : List Char} (h : s.IsPrefix t) : s.utf8Encode.size ≤ t.utf8Encode.size := by
  obtain ⟨rest, rfl⟩ := h
  rw [size_append]
  exact Nat.le_add_right _ _

/-! ### What fits -/

/-- The characters from the start that fit. -/
def fitting : (budget : Nat) → List Char → List Char
  | _, [] => []
  | budget, c :: rest => if c.utf8Size ≤ budget then c :: fitting (budget - c.utf8Size) rest else []

theorem fitting_starts (budget : Nat) (s : List Char) : (fitting budget s).IsPrefix s := by
  induction s generalizing budget with
  | nil => exact List.nil_prefix
  | cons c rest ih =>
    rw [fitting]
    split
    · exact List.prefix_cons_inj c |>.mpr (ih _)
    · exact List.nil_prefix

theorem size_fitting (budget : Nat) (s : List Char) : (fitting budget s).utf8Encode.size ≤ budget := by
  induction s generalizing budget with
  | nil => exact Nat.zero_le _
  | cons c rest ih =>
    rw [fitting]
    split
    · next hfits =>
      have hrest := ih (budget - c.utf8Size)
      rw [size_cons]
      omega
    · exact Nat.zero_le _

/-- No prefix that fits is longer. -/
theorem starts_fitting {budget : Nat} {p s : List Char} (h : p.IsPrefix s) (hp : p.utf8Encode.size ≤ budget) :
    p.IsPrefix (fitting budget s) := by
  induction s generalizing budget p with
  | nil => exact h
  | cons c rest ih =>
    cases p with
    | nil => exact List.nil_prefix
    | cons d p =>
      obtain ⟨rfl, hrest⟩ := List.cons_prefix_cons.mp h
      rw [size_cons] at hp
      rw [fitting, if_pos (by omega)]
      exact List.cons_prefix_cons.mpr ⟨rfl, ih hrest (by omega)⟩

/-! ### What decodes -/

theorem decode_at (before : List Char) (c : Char) (rest : List Char) :
    (before ++ c :: rest).utf8Encode.utf8DecodeChar? before.utf8Encode.size = some c := by
  rw [ByteArray.utf8DecodeChar?_eq_utf8DecodeChar?_extract, List.utf8Encode_append,
    ByteArray.extract_append_eq_right rfl ByteArray.size_append, List.utf8DecodeChar?_utf8Encode_cons]

/-- Inside a character none starts. -/
theorem decode_inside {before : List Char} {c : Char} {rest : List Char} {i : Nat} (hi : before.utf8Encode.size < i)
    (hi' : i < before.utf8Encode.size + c.utf8Size) : (before ++ c :: rest).utf8Encode.utf8DecodeChar? i = none := by
  rw [← Option.not_isSome_iff_eq_none]
  intro hsome
  have hvalid : (⟨i⟩ : String.Pos.Raw).IsValid (String.ofList (before ++ c :: rest)) :=
    String.Pos.Raw.isValid_iff_isSome_utf8DecodeChar?.mpr (.inr (by rwa [String.toByteArray_ofList]))
  obtain ⟨k, hk⟩ := String.Pos.Raw.isValid_ofList.mp hvalid
  have hsize : i = ((before ++ c :: rest).take k).utf8Encode.size := by
    rw [← String.size_toByteArray, String.toByteArray_ofList] at hk
    exact hk
  -- As many characters as start up to there end before it, or with the one that it is inside.
  by_cases hshort : k ≤ before.length
  · rw [List.take_append_of_le_length hshort] at hsize
    have hle := size_le_of_starts (List.take_prefix k before)
    omega
  · have hlong : (before ++ [c]).IsPrefix ((before ++ c :: rest).take k) := by
      rw [List.prefix_take_iff]
      exact ⟨⟨rest, by simp⟩, by simp; omega⟩
    have hle := size_le_of_starts hlong
    rw [size_append, size_singleton] at hle
    omega

theorem extract_of_size_le {bytes : ByteArray} {n : Nat} (h : bytes.size ≤ n) : bytes.extract 0 n = bytes := by
  have hmax : bytes.extract 0 (max n bytes.size) = bytes := ByteArray.extract_zero_max_size
  rwa [Nat.max_eq_left h] at hmax

/-- What decodes in the first `n` bytes decodes in all of them, and ends within the first. -/
theorem decode_of_decode_extract {bytes : ByteArray} {n i : Nat} {c : Char}
    (h : (bytes.extract 0 n).utf8DecodeChar? i = some c) : bytes.utf8DecodeChar? i = some c ∧ i + c.utf8Size ≤ n := by
  have hend := ByteArray.le_size_of_utf8DecodeChar?_eq_some h
  rw [ByteArray.size_extract] at hend
  by_cases hn : n ≤ bytes.size
  · refine ⟨?_, by omega⟩
    have hwhole : bytes.extract 0 n ++ bytes.extract n bytes.size = bytes := by
      rw [ByteArray.extract_append_extract]
      simp [hn]
    rw [← hwhole]
    exact ByteArray.utf8DecodeChar?_append_eq_some h _
  · rw [extract_of_size_le (by omega)] at h
    exact ⟨h, by omega⟩

theorem decode_extract_at {before : List Char} {c : Char} {rest : List Char} {n : Nat}
    (hn : before.utf8Encode.size + c.utf8Size ≤ n) :
    ((before ++ c :: rest).utf8Encode.extract 0 n).utf8DecodeChar? before.utf8Encode.size = some c := by
  have hsplit : (before ++ c :: rest).utf8Encode.extract 0 n =
      (before ++ [c]).utf8Encode ++ rest.utf8Encode.extract 0 (n - (before ++ [c]).utf8Encode.size) := by
    have hone : (before ++ [c]).utf8Encode.size ≤ n := by
      rw [size_append, size_singleton]
      exact hn
    rw [List.append_cons, List.utf8Encode_append, ByteArray.extract_append, extract_of_size_le hone, Nat.zero_sub]
  rw [hsplit]
  exact ByteArray.utf8DecodeChar?_append_eq_some (decode_at before c []) _

/-- A character that is cut decodes nowhere. -/
theorem decode_extract_cut {before : List Char} {c : Char} {rest : List Char} {n i : Nat}
    (hn : n < before.utf8Encode.size + c.utf8Size) (hi : before.utf8Encode.size ≤ i) :
    ((before ++ c :: rest).utf8Encode.extract 0 n).utf8DecodeChar? i = none := by
  rw [Option.eq_none_iff_forall_ne_some]
  intro d hd
  obtain ⟨hwhole, hend⟩ := decode_of_decode_extract hd
  have hpos : 0 < d.utf8Size := d.utf8Size_pos
  obtain hlt | rfl := Nat.lt_or_eq_of_le hi
  · rw [decode_inside hlt (by omega)] at hwhole
    cases hwhole
  · rw [decode_at] at hwhole
    cases hwhole
    omega

end PyAppRunner.Base.Utf8
