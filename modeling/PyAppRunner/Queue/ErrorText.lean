import PyAppRunner.Base.Utf8
import PyAppRunner.Queue.Job

/-! The text of an error as it is stored: cut to what the column holds, and on a character.

The bytes are cut first, in the middle of a character perhaps, and what is left is decoded leaving out
what does not decode. That is the broken character and nothing else. -/
namespace PyAppRunner.Queue
open Base

/-- Each driver has its own copy of `fit_error`; the two read the same. -/
inductive Driver where
  | pg
  | redis

def Driver.fitError : Driver → String → String
  | .pg => Queue.fitError
  | .redis => Queue.fitError

theorem Driver.fitError_eq (d : Driver) (error : String) : d.fitError error = Queue.fitError error := by
  cases d <;> rfl

/-! ### Decoding what was cut -/

/-- Nothing is read of a character that was cut. -/
theorem decodeIgnore_broken {before : List Char} {c : Char} {rest : List Char} {n : Nat}
    (hn : n < before.utf8Encode.size + c.utf8Size) (fuel : Nat) {i : Nat} (hi : before.utf8Encode.size ≤ i) :
    decodeIgnore ((before ++ c :: rest).utf8Encode.extract 0 n) fuel i = [] := by
  induction fuel generalizing i with
  | zero => rfl
  | succ fuel ih =>
    rw [decodeIgnore, Utf8.decode_extract_cut hn hi]
    split
    · rfl
    · exact ih (by omega)

/-- From where a character starts, what is read is what fits. -/
theorem decodeIgnore_cut (before rest : List Char) (n fuel : Nat) (hn : n ≤ (before ++ rest).utf8Encode.size)
    (hbefore : before.utf8Encode.size ≤ n) (hfuel : n - before.utf8Encode.size ≤ fuel) :
    decodeIgnore ((before ++ rest).utf8Encode.extract 0 n) fuel before.utf8Encode.size =
      Utf8.fitting (n - before.utf8Encode.size) rest := by
  induction rest generalizing before fuel with
  | nil =>
    have hend : ((before ++ []).utf8Encode.extract 0 n).size ≤ before.utf8Encode.size := by
      rw [ByteArray.size_extract, List.append_nil]
      omega
    cases fuel with
    | zero => rfl
    | succ fuel =>
      rw [decodeIgnore, if_pos hend]
      rfl
  | cons c rest ih =>
    have hpos : 0 < c.utf8Size := c.utf8Size_pos
    rw [Utf8.fitting]
    split
    · next hfits =>
      have hlast : (before ++ [c]).utf8Encode.size = before.utf8Encode.size + c.utf8Size := by
        rw [Utf8.size_append, Utf8.size_singleton]
      obtain ⟨fuel, rfl⟩ : ∃ k, fuel = k + 1 := ⟨fuel - 1, by omega⟩
      have hmore : ¬ ((before ++ c :: rest).utf8Encode.extract 0 n).size ≤ before.utf8Encode.size := by
        rw [ByteArray.size_extract]
        omega
      have hrest := ih (before ++ [c]) fuel (by rwa [← List.append_cons]) (by omega) (by omega)
      rw [← List.append_cons, hlast] at hrest
      rw [decodeIgnore, if_neg hmore, Utf8.decode_extract_at (by omega)]
      dsimp only
      rw [hrest, Nat.sub_sub]
    · next hcut => exact decodeIgnore_broken (by omega) fuel (Nat.le_refl _)

/-- What is kept of an error: all of its characters from the start that fit. -/
structure LongestKept (error kept : String) : Prop where
  starts : kept.toList.IsPrefix error.toList
  fits : kept.toUTF8.size ≤ maxErrorBytes
  longest : ∀ p : String, p.toList.IsPrefix error.toList → p.toUTF8.size ≤ maxErrorBytes → p.toList.IsPrefix kept.toList

theorem toUTF8_eq (s : String) : s.toUTF8 = s.toList.utf8Encode := by
  rw [← String.toByteArray_ofList, String.ofList_toList]
  rfl

theorem fitError_long {error : String} (h : maxErrorBytes < error.toUTF8.size) :
    fitError error = String.ofList (Utf8.fitting maxErrorBytes error.toList) ++ "\n... truncated" := by
  rw [toUTF8_eq] at h
  have hcut := decodeIgnore_cut [] error.toList maxErrorBytes maxErrorBytes (Nat.le_of_lt h) (Nat.zero_le _)
    (Nat.sub_le _ _)
  unfold fitError
  dsimp only
  rw [toUTF8_eq, if_neg (Nat.not_le_of_lt h)]
  exact congrArg (fun s => String.ofList s ++ "\n... truncated") hcut

theorem longestKept_fitting (error : String) :
    LongestKept error (String.ofList (Utf8.fitting maxErrorBytes error.toList)) where
  starts := by
    rw [String.toList_ofList]
    exact Utf8.fitting_starts _ _
  fits := by
    rw [toUTF8_eq, String.toList_ofList]
    exact Utf8.size_fitting _ _
  longest := by
    intro p hstarts hfits
    rw [toUTF8_eq] at hfits
    rw [String.toList_ofList]
    exact Utf8.starts_fitting hstarts hfits

/-- **An error that fits is stored as it is, and of a longer one as many characters as fit**, with the
mark of a cut after them. What is stored is UTF-8. -/
theorem fitError_cuts (d : Driver) (error : String) :
    (error.toUTF8.size ≤ maxErrorBytes → d.fitError error = error) ∧
    (maxErrorBytes < error.toUTF8.size →
      ∃ kept, LongestKept error kept ∧ d.fitError error = kept ++ "\n... truncated") ∧
    (d.fitError error).toUTF8.IsValidUTF8 := by
  rw [Driver.fitError_eq]
  refine ⟨fun hfits => ?_, fun hlong => ?_, String.isValidUTF8 _⟩
  · unfold fitError
    exact if_pos hfits
  · exact ⟨_, longestKept_fitting error, fitError_long hlong⟩

/-- Letters of one byte, and two of two bytes after them. -/
def letters (n : Nat) : String := String.ofList (List.replicate n 'a' ++ ['é', 'é'])

theorem size_letters (n : Nat) : (letters n).toUTF8.size = n + 4 := by
  rw [toUTF8_eq, letters, String.toList_ofList, Utf8.size_append, Utf8.size_replicate]
  exact congrArg (· + 4) (Nat.mul_one n)

/-- Where the cut falls into the first letter of two bytes, it ends what is kept. -/
theorem kept_letters {n : Nat} (hn : n + 1 = maxErrorBytes) {kept : String} (h : LongestKept (letters n) kept) :
    kept = String.ofList (List.replicate n 'a') := by
  have htext : (letters n).toList = List.replicate n 'a' ++ ['é', 'é'] := String.toList_ofList
  have hsize : (List.replicate n 'a').utf8Encode.size = n := (Utf8.size_replicate n 'a').trans (Nat.mul_one n)
  have hall : (List.replicate n 'a').IsPrefix kept.toList := by
    have hlongest := h.longest (String.ofList (List.replicate n 'a'))
    rw [toUTF8_eq, String.toList_ofList, hsize, htext] at hlongest
    exact hlongest (List.prefix_append _ _) (by omega)
  obtain ⟨more, hmore⟩ := hall
  have hfits := h.fits
  have hstarts := h.starts
  rw [toUTF8_eq, ← hmore, Utf8.size_append, hsize] at hfits
  rw [htext, ← hmore, List.prefix_append_right_inj] at hstarts
  cases more with
  | nil => rw [← String.ofList_toList (s := kept), ← hmore, List.append_nil]
  | cons c more =>
    obtain ⟨rest, hcons⟩ := hstarts
    have htwo : c.utf8Size = 2 := by
      rw [(List.cons.inj hcons).1]
      rfl
    rw [Utf8.size_cons, htwo] at hfits
    omega

/-- A short error is left alone, and of a long one the letter goes that the cut falls into. -/
theorem errors_kept_and_cut : Driver.redis.fitError "small" = "small" ∧
    Driver.pg.fitError (letters 59999) = String.ofList (List.replicate 59999 'a') ++ "\n... truncated" := by
  refine ⟨(fitError_cuts .redis "small").1 (by decide +kernel), ?_⟩
  have hlong : maxErrorBytes < (letters 59999).toUTF8.size := by
    rw [size_letters]
    decide
  obtain ⟨kept, hkept, hcut⟩ := (fitError_cuts .pg (letters 59999)).2.1 hlong
  rw [hcut, kept_letters rfl hkept]

end PyAppRunner.Queue
