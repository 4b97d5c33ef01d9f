import Mathlib.Data.List.Induction
import Mathlib.Data.List.Nodup
import Mathlib.Tactic.Ring
import PyAppRunner.Base.IpAddress

/-! An address is read back from what it is written as.

A number is written in digits, and zero or not with one digit at least; an IPv4 address is four of them. Of an
IPv6 address the longest run of zeros is left out (`compress`), and `::` says where: what is before it and what
is after it are enough to tell how many there were. -/
namespace PyAppRunner.Base.Ip

/-! ### Digits -/

theorem number_append (base : Nat) (digits : List Nat) (d : Nat) :
    number base (digits ++ [d]) = base * number base digits + d := by
  simp [number]

theorem number_cons (base d : Nat) (digits : List Nat) :
    number base (d :: digits) = d * base ^ digits.length + number base digits := by
  induction digits using List.reverseRecOn with
  | nil => simp [number]
  | append_singleton digits e ih =>
    rw [← List.cons_append, number_append, ih, number_append, List.length_append, List.length_singleton, pow_succ]
    ring

/-- A number in a base, read digit by digit. -/
theorem mapM_toDigits {base : Nat} (hbase : 1 < base) {value : Char → Option Nat}
    (hvalue : ∀ d, d < base → value (Nat.digitChar d) = some d) (n : Nat) :
    ∃ digits, (Nat.toDigits base n).mapM value = some digits ∧ number base digits = n := by
  induction n using Nat.strongRecOn with
  | ind n ih =>
    by_cases hn : n < base
    · refine ⟨[n], ?_, ?_⟩
      · rw [Nat.toDigits_of_lt_base hn]
        simp [hvalue n hn]
      · simp [number]
    · have hle : base ≤ n := Nat.le_of_not_lt hn
      obtain ⟨digits, hdigits, hnumber⟩ := ih (n / base) (Nat.div_lt_self (by omega) hbase)
      refine ⟨digits ++ [n % base], ?_, ?_⟩
      · rw [Nat.toDigits_of_base_le hbase hle, List.mapM_append, hdigits]
        simp [hvalue (n % base) (Nat.mod_lt n (by omega))]
      · rw [number_append, hnumber, Nat.div_add_mod]

/-- The sixteen digits, written and read. -/
theorem hexDigit_digitChar (d : Nat) (h : d < 16) : hexDigit (Nat.digitChar d) = some d := by
  have hall : ∀ d : Fin 16, hexDigit (Nat.digitChar d) = some d.val := by decide
  exact hall ⟨d, h⟩

/-- A group is read as it was written: at most four digits, none of them missing. -/
theorem parseHextet_hexText {n : Nat} (h : n < 65536) : parseHextet (hexText n) = some n := by
  have hlength : (hexText n).length ≤ 4 := (Nat.length_toDigits_le_iff (by decide) (by decide)).2 h
  obtain ⟨digits, hdigits, hnumber⟩ := mapM_toDigits (by decide) hexDigit_digitChar n
  unfold parseHextet
  rw [if_neg]
  · show Option.map (number 16) ((Nat.toDigits 16 n).mapM hexDigit) = some n
    rw [hdigits, Option.map_some, hnumber]
  · rintro (hnil | hlong)
    · exact Nat.toDigits_ne_nil hnil
    · omega

/-- What a number is written with are digits of its base. -/
theorem mem_toDigits {base : Nat} (hbase : 1 < base) {c : Char} {n : Nat} (h : c ∈ Nat.toDigits base n) :
    ∃ d, d < base ∧ c = Nat.digitChar d := by
  induction n using Nat.strongRecOn with
  | ind n ih =>
    by_cases hn : n < base
    · rw [Nat.toDigits_of_lt_base hn, List.mem_singleton] at h
      exact ⟨n, hn, h⟩
    · have hle : base ≤ n := Nat.le_of_not_lt hn
      rw [Nat.toDigits_of_base_le hbase hle, List.mem_append, List.mem_singleton] at h
      obtain h | h := h
      · exact ih (n / base) (Nat.div_lt_self (by omega) hbase) h
      · exact ⟨n % base, Nat.mod_lt n (by omega), h⟩

theorem not_mem_toDigits {base : Nat} (hbase : 1 < base) {c : Char} (hc : ∀ d, d < base → Nat.digitChar d ≠ c) (n : Nat) :
    c ∉ Nat.toDigits base n := by
  intro h
  obtain ⟨d, hd, heq⟩ := mem_toDigits hbase h
  exact hc d hd heq.symm

/-- An octet is read as it was written. A leading zero would be refused, and none is written. -/
theorem parseOctet_toDigits {n : Nat} (h : n < 256) : parseOctet (Nat.toDigits 10 n) = some n := by
  have hall : ∀ n : Fin 256, parseOctet (Nat.toDigits 10 n) = some n.val := by decide +kernel
  exact hall ⟨n, h⟩

/-! ### Groups -/

theorem length_groups (base count n : Nat) : (groups base count n).length = count := by simp [groups]

theorem mem_groups_lt {base count n g : Nat} (hbase : 0 < base) (h : g ∈ groups base count n) : g < base := by
  simp only [groups, List.mem_reverse, List.mem_map] at h
  obtain ⟨i, -, rfl⟩ := h
  exact Nat.mod_lt _ hbase

/-- The groups of a number say what it is, up to as many as are asked for. -/
theorem number_groups (base count n : Nat) : number base (groups base count n) = n % base ^ count := by
  induction count with
  | zero => simp [groups, number, Nat.mod_one]
  | succ count ih =>
    have hcons : groups base (count + 1) n = n / base ^ count % base :: groups base count n := by
      simp only [groups, List.range_succ, List.map_append, List.reverse_append]
      rfl
    rw [hcons, number_cons, length_groups, ih, Nat.mod_pow_succ]
    ring

theorem mapM_map {α β : Type} {write : α → β} {read : β → Option α} {l : List α} (h : ∀ a ∈ l, read (write a) = some a) :
    (l.map write).mapM read = some l := by
  induction l with
  | nil => rfl
  | cons a rest ih =>
    rw [List.forall_mem_cons] at h
    rw [List.map_cons, List.mapM_cons, h.1, ih h.2]
    rfl

/-! ### What is split at what joined it -/

theorem split_of_not_mem {sep : Char} {s : List Char} (h : sep ∉ s) : Text.split sep s = [s] := by
  induction s with
  | nil => rfl
  | cons c rest ih =>
    rw [List.mem_cons, not_or] at h
    rw [Text.split, if_neg (Ne.symm h.1), ih h.2]

/-- What is before the first separator is in the first part. -/
theorem split_of_prefix {sep : Char} {left : List Char} (h : sep ∉ left) (right : List Char) :
    ∃ more parts, Text.split sep (left ++ right) = (left ++ more) :: parts := by
  induction left with
  | nil =>
    cases hsplit : Text.split sep right with
    | nil => exact absurd hsplit (Text.split_ne_nil sep right)
    | cons first parts => exact ⟨first, parts, hsplit⟩
  | cons c left ih =>
    rw [List.mem_cons, not_or] at h
    obtain ⟨more, parts, hsplit⟩ := ih h.2
    refine ⟨more, parts, ?_⟩
    rw [List.cons_append, Text.split, if_neg (Ne.symm h.1), hsplit]
    rfl

/-- Joined and split again: the parts, where none has the separator in it. -/
theorem split_intercalate {sep : Char} {parts : List (List Char)} (hne : parts ≠ []) (h : ∀ p ∈ parts, sep ∉ p) :
    Text.split sep ([sep].intercalate parts) = parts := by
  induction parts with
  | nil => exact absurd rfl hne
  | cons p rest ih =>
    rw [List.forall_mem_cons] at h
    cases rest with
    | nil => simpa using split_of_not_mem h.1
    | cons q rest =>
      have hjoin : [sep].intercalate (p :: q :: rest) = p ++ sep :: [sep].intercalate (q :: rest) := by
        simp [List.intercalate]
      rw [hjoin, Text.split_append, split_of_not_mem h.1, ih (List.cons_ne_nil _ _) h.2]
      rfl

/-! ### IPv4 -/

/-- `str(IPv4Address)`. -/
def v4Text (ip : BitVec 32) : List Char := ['.'].intercalate ((groups 256 4 ip.toNat).map (Nat.toDigits 10))

/-- **IPv4 round trip.** -/
theorem parseV4_text (ip : BitVec 32) : parseV4 (v4Text ip) = some ip := by
  have hdots : ∀ p ∈ (groups 256 4 ip.toNat).map (Nat.toDigits 10), '.' ∉ p := by
    intro p hp
    obtain ⟨n, -, rfl⟩ := List.mem_map.1 hp
    exact not_mem_toDigits (by decide) (by decide) n
  have hread : ((groups 256 4 ip.toNat).map (Nat.toDigits 10)).mapM parseOctet = some (groups 256 4 ip.toNat) :=
    mapM_map fun g hg => parseOctet_toDigits (mem_groups_lt (by decide) hg)
  have hnumber : number 256 (groups 256 4 ip.toNat) = ip.toNat := by
    rw [number_groups]
    exact Nat.mod_eq_of_lt ip.isLt
  unfold parseV4 v4Text
  rw [split_intercalate (by simp [groups]) hdots, hread]
  obtain ⟨a, b, c, d, hgroups⟩ : ∃ a b c d, groups 256 4 ip.toNat = [a, b, c, d] := ⟨_, _, _, _, rfl⟩
  rw [hgroups] at hnumber ⊢
  dsimp only
  rw [hnumber, BitVec.ofNat_toNat, BitVec.setWidth_eq]

/-! ### The longest run of zeros -/

/-- The runs are runs, of what has been seen so far. -/
structure ZeroRun.Of (r : ZeroRun) (seen : List (List Char)) : Prop where
  bestEnd : r.bestStart + r.bestLen ≤ seen.length
  best : ∀ i, r.bestStart ≤ i → i < r.bestStart + r.bestLen → seen[i]? = some ['0']
  last : r.len ≠ 0 → r.start + r.len = seen.length
  going : ∀ i, r.start ≤ i → i < r.start + r.len → seen[i]? = some ['0']

/-- One group more, and the runs are runs of what has been seen by then. -/
theorem ZeroRun.Of.next {r : ZeroRun} {seen : List (List Char)} (h : r.Of seen) (hextet : List Char) :
    (r.next seen.length hextet).Of (seen ++ [hextet]) := by
  have hlength : (seen ++ [hextet]).length = seen.length + 1 := by simp
  have hold {i : Nat} (hi : i < seen.length) : (seen ++ [hextet])[i]? = seen[i]? := List.getElem?_append_left hi
  have hbest : ∀ i, r.bestStart ≤ i → i < r.bestStart + r.bestLen → (seen ++ [hextet])[i]? = some ['0'] := by
    intro i hfrom hto
    rw [hold (Nat.lt_of_lt_of_le hto h.bestEnd)]
    exact h.best i hfrom hto
  unfold ZeroRun.next
  split
  · rename_i hzero
    have hnew : (seen ++ [hextet])[seen.length]? = some ['0'] := by simp [hzero]
    have hrun : ∀ i, (if r.len = 0 then seen.length else r.start) ≤ i →
        i < (if r.len = 0 then seen.length else r.start) + (r.len + 1) → (seen ++ [hextet])[i]? = some ['0'] := by
      intro i hfrom hto
      by_cases hlen : r.len = 0
      · rw [if_pos hlen] at hfrom hto
        obtain rfl : i = seen.length := by omega
        exact hnew
      · rw [if_neg hlen] at hfrom hto
        have hend := h.last hlen
        by_cases hi : i < seen.length
        · rw [hold hi]
          exact h.going i hfrom (by omega)
        · obtain rfl : i = seen.length := by omega
          exact hnew
    have hend : (if r.len = 0 then seen.length else r.start) + (r.len + 1) = (seen ++ [hextet]).length := by
      rw [hlength]
      split
      · omega
      · rename_i hlen
        have := h.last hlen
        omega
    dsimp only
    split
    · exact ⟨Nat.le_of_eq hend, hrun, fun _ => hend, hrun⟩
    · exact ⟨Nat.le_trans h.bestEnd (by omega), hbest, fun _ => hend, hrun⟩
  · exact ⟨Nat.le_trans h.bestEnd (by omega), hbest, fun hne => absurd rfl hne, fun i _ hto => absurd hto (by simp)⟩

/-- What `compress` finds. -/
def longestRun (hextets : List (List Char)) : ZeroRun :=
  hextets.zipIdx.foldl (fun r p => ZeroRun.next r p.2 p.1) ⟨0, 0, 0, 0⟩

/-- What the loop of `_compress_hextets` ends with is a run of zeros. -/
theorem longestRun_of (hextets : List (List Char)) : (longestRun hextets).Of hextets := by
  induction hextets using List.reverseRecOn with
  | nil => exact ⟨Nat.le_refl 0, fun i _ hi => absurd hi (Nat.not_lt_zero i), fun hne => absurd rfl hne,
      fun i _ hi => absurd hi (Nat.not_lt_zero i)⟩
  | append_singleton seen hextet ih =>
    have hstep : longestRun (seen ++ [hextet]) = (longestRun seen).next seen.length hextet := by
      simp [longestRun, List.zipIdx_append]
    rw [hstep]
    exact ih.next hextet

/-- With `::` between them; at an end it is a part of its own. -/
def shortened (above below : List (List Char)) : List (List Char) :=
  (if above = [] then [[]] else above) ++ [] :: (if below = [] then [[]] else below)

/-- A run of zeros is left out, or nothing. -/
theorem compress_cases (hextets : List (List Char)) : compress hextets = hextets ∨
    ∃ above below zeros, hextets = above ++ List.replicate zeros ['0'] ++ below ∧ 1 < zeros ∧
      compress hextets = shortened above below := by
  have hrun := longestRun_of hextets
  unfold compress
  rw [show hextets.zipIdx.foldl (fun r p => ZeroRun.next r p.2 p.1) ⟨0, 0, 0, 0⟩ = longestRun hextets from rfl]
  generalize longestRun hextets = r at hrun
  dsimp only
  split
  · rename_i hlong
    refine .inr ⟨hextets.take r.bestStart, hextets.drop (r.bestStart + r.bestLen), r.bestLen, ?_, hlong, ?_⟩
    · have hzeros : (hextets.drop r.bestStart).take r.bestLen = List.replicate r.bestLen ['0'] := by
        apply List.ext_getElem?
        intro i
        rw [List.getElem?_take, List.getElem?_drop, List.getElem?_replicate]
        split
        · exact hrun.best _ (by omega) (by omega)
        · rfl
      rw [← hzeros, ← List.drop_drop, List.append_assoc, List.take_append_drop, List.take_append_drop]
    · have hend := hrun.bestEnd
      unfold shortened
      have habove : hextets.take r.bestStart = [] ↔ r.bestStart = 0 := by
        rw [List.take_eq_nil_iff]
        constructor
        · rintro (hzero | hnil)
          · exact hzero
          · rw [hnil, List.length_nil] at hend
            omega
        · exact .inl
      have hbelow : hextets.drop (r.bestStart + r.bestLen) = [] ↔ r.bestStart + r.bestLen = hextets.length := by
        rw [List.drop_eq_nil_iff]
        omega
      simp only [habove, hbelow]
      split
      · rename_i hzero
        rw [hzero]
        rfl
      · rfl
  · exact .inl rfl

/-! ### IPv6 -/

section
variable {above below : List (List Char)}

theorem filter_range_eq_singleton {n k : Nat} {p : Nat → Bool} (hk : k < n) (hp : p k = true)
    (honly : ∀ i, i < n → p i = true → i = k) : (List.range n).filter p = [k] := by
  refine List.perm_singleton.1 ((List.perm_ext_iff_of_nodup (List.nodup_range.filter p) (List.nodup_singleton k)).2 ?_)
  intro i
  rw [List.mem_filter, List.mem_range, List.mem_singleton]
  constructor
  · rintro ⟨hi, hpi⟩
    exact honly i hi hpi
  · rintro rfl
    exact ⟨hk, hp⟩

theorem length_ends (parts : List (List Char)) :
    (if parts = [] then [[]] else parts).length = if parts = [] then 1 else parts.length := by
  split <;> rfl

/-- Only one part that is not at an end is empty. -/
theorem skips_shortened (habove : ∀ p ∈ above, p ≠ []) (hbelow : ∀ p ∈ below, p ≠ []) :
    (List.range (shortened above below).length).filter (fun i => 0 < i ∧ i + 1 < (shortened above below).length ∧
        (shortened above below)[i]? = some []) = [if above = [] then 1 else above.length] := by
  have hlength : (shortened above below).length =
      (if above = [] then 1 else above.length) + (if below = [] then 1 else below.length) + 1 := by
    unfold shortened
    rw [List.length_append, List.length_cons, length_ends, length_ends]
    omega
  have hpositive (parts : List (List Char)) : 0 < if parts = [] then 1 else parts.length := by
    split
    · exact Nat.one_pos
    · rename_i hne
      exact List.length_pos_iff.2 hne
  have hleft := hpositive above
  have hright := hpositive below
  apply filter_range_eq_singleton
  · omega
  · have hat : (shortened above below)[if above = [] then 1 else above.length]? = some [] := by
      unfold shortened
      rw [← length_ends above, List.getElem?_append_right (Nat.le_refl _), Nat.sub_self]
      rfl
    rw [decide_eq_true_eq]
    exact ⟨hleft, by omega, hat⟩
  · intro i _ hi
    obtain ⟨hfirst, hlast, hempty⟩ := of_decide_eq_true hi
    have hat : (shortened above below)[i]? = some [] := hempty
    by_contra hne
    unfold shortened at hat
    rcases Nat.lt_or_gt_of_ne hne with hlt | hgt
    · rw [List.getElem?_append_left (by rw [length_ends]; exact hlt)] at hat
      by_cases hnil : above = []
      · rw [if_pos hnil] at hlt
        omega
      · rw [if_neg hnil] at hat
        exact habove [] (List.mem_of_getElem? hat) rfl
    · rw [List.getElem?_append_right (by rw [length_ends]; omega), length_ends] at hat
      obtain ⟨k, hk⟩ : ∃ k, i - (if above = [] then 1 else above.length) = k + 1 := ⟨_, (Nat.sub_add_cancel (by omega)).symm⟩
      rw [hk, List.getElem?_cons_succ] at hat
      by_cases hnil : below = []
      · rw [if_pos hnil] at hlength
        omega
      · rw [if_neg hnil] at hat
        exact hbelow [] (List.mem_of_getElem? hat) rfl

theorem head_ends (parts rest : List (List Char)) (h : ∀ p ∈ parts, p ≠ []) :
    ((if parts = [] then [[]] else parts) ++ rest).head? = some [] ↔ parts = [] := by
  cases parts with
  | nil => simp
  | cons p parts => simpa using h p List.mem_cons_self

theorem last_ends (rest parts : List (List Char)) (h : ∀ p ∈ parts, p ≠ []) :
    (rest ++ [] :: (if parts = [] then [[]] else parts)).getLast? = some [] ↔ parts = [] := by
  cases parts using List.reverseRecOn with
  | nil => simp
  | append_singleton parts p =>
    have hne : p ≠ [] := h p (List.mem_append_right _ List.mem_cons_self)
    have hjoin : rest ++ [] :: (parts ++ [p]) = (rest ++ [] :: parts) ++ [p] := by simp
    rw [if_neg (List.append_ne_nil_of_right_ne_nil _ (List.cons_ne_nil p [])), hjoin, List.getLast?_concat]
    simpa using hne

/-- `::` stands for as many zeros as are missing. What is above and below it is read group by group.
-/
theorem hextets_shortened (habove : ∀ p ∈ above, p ≠ []) (hbelow : ∀ p ∈ below, p ≠ [])
    (hfew : above.length + below.length ≤ 7) : hextets (shortened above below) = (do
      let a ← above.mapM parseHextet
      let b ← below.mapM parseHextet
      some (a ++ List.replicate (8 - (above.length + below.length)) 0 ++ b)) := by
  -- An empty side shows as an empty part at that end, which `hextets` counts away again.
  have hskips := skips_shortened habove hbelow
  have hlength : (shortened above below).length =
      (if above = [] then 1 else above.length) + (if below = [] then 1 else below.length) + 1 := by
    unfold shortened
    rw [List.length_append, List.length_cons, length_ends, length_ends]
    omega
  have hhead : (shortened above below).head? = some [] ↔ above = [] := head_ends above _ habove
  have hlast : (shortened above below).getLast? = some [] ↔ below = [] := last_ends _ below hbelow
  unfold hextets
  rw [hskips]
  dsimp only
  simp only [hhead, hlast, hlength]
  have hhigh : (if above = [] then (if above = [] then 1 else above.length) - 1 else if above = [] then 1 else above.length) =
      above.length := by
    split
    · rename_i hnil
      rw [hnil]
      rfl
    · rfl
  have hlow : (if below = [] then
        (if above = [] then 1 else above.length) + (if below = [] then 1 else below.length) + 1 -
          (if above = [] then 1 else above.length) - 1 - 1
      else (if above = [] then 1 else above.length) + (if below = [] then 1 else below.length) + 1 -
          (if above = [] then 1 else above.length) - 1) = below.length := by
    split
    · rename_i hnil
      rw [hnil, List.length_nil]
      omega
    · omega
  -- The two slices are the sides themselves.
  rw [hhigh, hlow, if_neg]
  · have htake : (shortened above below).take above.length = above := by
      unfold shortened
      split
      · rename_i hnil
        rw [hnil]
        rfl
      · exact List.take_left
    have hdrop : (shortened above below).drop ((if above = [] then 1 else above.length) +
        (if below = [] then 1 else below.length) + 1 - below.length) = below := by
      by_cases hnil : below = []
      · rw [hnil, List.length_nil, Nat.sub_zero, List.drop_eq_nil_iff]
        unfold shortened
        simp only [List.length_append, List.length_cons, List.length_nil, length_ends, if_true]
        omega
      · have hjoin : shortened above below = ((if above = [] then [[]] else above) ++ [[]]) ++ below := by
          unfold shortened
          rw [if_neg hnil, List.append_assoc, List.singleton_append]
        rw [hjoin, List.drop_left']
        rw [List.length_append, length_ends, List.length_singleton, if_neg hnil]
        omega
    rw [htake, hdrop]
  · rintro (⟨hnil, hne⟩ | ⟨hnil, hne⟩ | hmany)
    · rw [hnil] at hne
      exact hne rfl
    · rw [hnil] at hne
      exact hne rfl
    · omega

end

/-- Every part of what is written is a group, or empty. -/
theorem mem_compress {hextets : List (List Char)} {p : List Char} (h : p ∈ compress hextets) : p = [] ∨ p ∈ hextets := by
  have hends {parts : List (List Char)} (hp : p ∈ if parts = [] then [[]] else parts) : p = [] ∨ p ∈ parts := by
    split at hp
    · exact .inl (List.mem_singleton.1 hp)
    · exact .inr hp
  obtain heq | ⟨above, below, zeros, hextets_eq, -, heq⟩ := compress_cases hextets
  · exact .inr (heq ▸ h)
  · rw [heq] at h
    unfold shortened at h
    rw [hextets_eq, List.mem_append, List.mem_append]
    obtain h | h := List.mem_append.1 h
    · exact (hends h).imp_right fun h => .inl (.inl h)
    · obtain rfl | h := List.mem_cons.1 h
      · exact .inl rfl
      · exact (hends h).imp_right .inr

/-- What is joined has two colons at least, and no more than eight. -/
theorem length_compress {hextets : List (List Char)} (h : hextets.length = 8) :
    3 ≤ (compress hextets).length ∧ (compress hextets).length ≤ 9 := by
  obtain heq | ⟨above, below, zeros, rfl, hzeros, heq⟩ := compress_cases hextets
  · rw [heq, h]
    decide
  · rw [heq]
    simp only [List.length_append, List.length_replicate] at h
    unfold shortened
    rw [List.length_append, List.length_cons, length_ends, length_ends]
    cases above <;> cases below <;> simp at h ⊢ <;> omega

theorem hexText_ne_nil (n : Nat) : hexText n ≠ [] := Nat.toDigits_ne_nil

/-- Only zero is written as `0`, so that only zeros are left out. -/
theorem hexText_zero {n : Nat} (hn : n < 65536) (h : hexText n = ['0']) : n = 0 := by
  have hread := parseHextet_hexText hn
  rw [h] at hread
  exact (Option.some.inj hread).symm

/-- **The groups come back**, whichever run of zeros was left out. -/
theorem hextets_compress {gs : List Nat} (hlength : gs.length = 8) (hlt : ∀ g ∈ gs, g < 65536) :
    hextets (compress (gs.map hexText)) = some gs := by
  have hread {part : List Nat} (hsub : ∀ g ∈ part, g ∈ gs) : (part.map hexText).mapM parseHextet = some part :=
    mapM_map fun g hg => parseHextet_hexText (hlt g (hsub g hg))
  have hfull {part : List Nat} : ∀ p ∈ part.map hexText, p ≠ [] := by
    intro p hp
    obtain ⟨n, -, rfl⟩ := List.mem_map.1 hp
    exact hexText_ne_nil n
  obtain heq | ⟨above, below, zeros, hgroups, hzeros, heq⟩ := compress_cases (gs.map hexText)
  · rw [heq]
    have hskips : (List.range (gs.map hexText).length).filter (fun i => 0 < i ∧ i + 1 < (gs.map hexText).length ∧
        (gs.map hexText)[i]? = some []) = [] := by
      rw [List.filter_eq_nil_iff]
      intro i _ hi
      exact hfull [] (List.mem_of_getElem? (of_decide_eq_true hi).2.2) rfl
    unfold hextets
    rw [hskips]
    dsimp only
    rw [List.length_map, if_neg (not_not.2 hlength)]
    exact hread fun _ hg => hg
  · rw [heq]
    obtain ⟨left, gb, rfl, hleft, rfl⟩ := List.map_eq_append_iff.1 hgroups
    obtain ⟨ga, gz, rfl, rfl, hgz⟩ := List.map_eq_append_iff.1 hleft
    have hcount : gz.length = zeros := by simpa using congrArg List.length hgz
    have hzero : gz = List.replicate zeros 0 := by
      refine List.eq_replicate_iff.2 ⟨hcount, ?_⟩
      intro g hg
      have htext : hexText g ∈ List.replicate zeros ['0'] := hgz ▸ List.mem_map_of_mem hg
      exact hexText_zero (hlt g (by simp [hg])) (List.eq_of_mem_replicate htext)
    simp only [List.length_append] at hlength
    rw [hextets_shortened hfull hfull (by simp only [List.length_map]; omega), hread (fun g hg => by simp [hg]),
      hread (fun g hg => by simp [hg])]
    have hleft : 8 - ((ga.map hexText).length + (gb.map hexText).length) = zeros := by
      simp only [List.length_map]
      omega
    rw [hleft, hzero]
    rfl

theorem not_mem_intercalate {sep c : Char} {parts : List (List Char)} (hne : c ≠ sep) (h : ∀ p ∈ parts, c ∉ p) :
    c ∉ [sep].intercalate parts := by
  induction parts with
  | nil => simp [List.intercalate]
  | cons p rest ih =>
    rw [List.forall_mem_cons] at h
    cases rest with
    | nil => simpa [List.intercalate] using h.1
    | cons q rest =>
      have hjoin : [sep].intercalate (p :: q :: rest) = p ++ sep :: [sep].intercalate (q :: rest) := by
        simp [List.intercalate]
      rw [hjoin, List.mem_append, List.mem_cons]
      rintro (hp | heq | hrest)
      · exact h.1 hp
      · exact hne heq
      · exact ih h.2 hrest

/-- `str(IPv6Address)`, without its scope. -/
def v6Text (ip : BitVec 128) : List Char := [':'].intercalate (compress ((groups 65536 8 ip.toNat).map hexText))

theorem not_mem_v6Part {c : Char} (hc : ∀ d, d < 16 → Nat.digitChar d ≠ c) (ip : BitVec 128) :
    ∀ p ∈ compress ((groups 65536 8 ip.toNat).map hexText), c ∉ p := by
  intro p hp
  obtain rfl | hp := mem_compress hp
  · exact List.not_mem_nil
  · obtain ⟨n, -, rfl⟩ := List.mem_map.1 hp
    exact not_mem_toDigits (by decide) hc n

/-- A text of an address has digits and colons in it, and nothing else. -/
theorem not_mem_v6Text {c : Char} (hc : ∀ d, d < 16 → Nat.digitChar d ≠ c) (hne : c ≠ ':') (ip : BitVec 128) :
    c ∉ v6Text ip := not_mem_intercalate hne (not_mem_v6Part hc ip)

/-- A zone may be named, without `%` and `/`. -/
def Scoped (scope : Option (List Char)) : Prop := ∀ s, scope = some s → s ≠ [] ∧ '%' ∉ s ∧ '/' ∉ s

/-- With a scope, if any, that can be read. -/
def Address.WellFormed : Address → Prop
  | .v4 _ => True
  | .v6 _ scope => Scoped scope

/-- The scope is what is behind the `%`. -/
theorem splitScope_text {address : List Char} (h : '%' ∉ address) {scope : Option (List Char)} (hscope : Scoped scope) :
    splitScope (match scope with
      | none => address
      | some s => address ++ '%' :: s) = some (address, scope) := by
  cases scope with
  | none => exact if_pos h
  | some s =>
    obtain ⟨hne, hpercent, -⟩ := hscope s rfl
    have hpass : ∀ c ∈ address, decide (c ≠ '%') = true := by
      intro c hc
      exact decide_eq_true fun heq => h (heq ▸ hc)
    unfold splitScope
    dsimp only
    rw [if_neg (by simp), List.takeWhile_append_of_pos hpass, List.dropWhile_append_of_pos hpass]
    simp [hne, hpercent]

/-- A `/` is left to what is written after an address. -/
theorem slash_not_mem_text {a : Address} (h : a.WellFormed) : '/' ∉ a.text := by
  cases a with
  | v4 ip =>
    refine not_mem_intercalate (by decide) fun p hp => ?_
    obtain ⟨n, -, rfl⟩ := List.mem_map.1 hp
    exact not_mem_toDigits (by decide) (by decide) n
  | v6 ip scope =>
    have haddress : '/' ∉ v6Text ip := not_mem_v6Text (by decide) (by decide) ip
    cases scope with
    | none => exact haddress
    | some s =>
      show '/' ∉ v6Text ip ++ '%' :: s
      rw [List.mem_append, List.mem_cons]
      rintro (hmem | heq | hmem)
      · exact haddress hmem
      · exact absurd heq (by decide)
      · exact (h s rfl).2.2 hmem

/-- **IPv6 round trip**, with the scope. -/
theorem parseV6_text (ip : BitVec 128) {scope : Option (List Char)} (hscope : Scoped scope) :
    parseV6 (Address.v6 ip scope).text = some (.v6 ip scope) := by
  have hslash : '/' ∉ (Address.v6 ip scope).text := slash_not_mem_text (a := .v6 ip scope) hscope
  have hsplit : splitScope (Address.v6 ip scope).text = some (v6Text ip, scope) := by
    have hpercent : '%' ∉ v6Text ip := not_mem_v6Text (by decide) (by decide) ip
    have htext := splitScope_text hpercent hscope
    cases scope <;> exact htext
  have hlength : 3 ≤ (compress ((groups 65536 8 ip.toNat).map hexText)).length ∧
      (compress ((groups 65536 8 ip.toNat).map hexText)).length ≤ 9 :=
    length_compress (by rw [List.length_map, length_groups])
  have hparts : Text.split ':' (v6Text ip) = compress ((groups 65536 8 ip.toNat).map hexText) := by
    refine split_intercalate (fun hnil => ?_) (not_mem_v6Part (by decide) ip)
    rw [hnil] at hlength
    exact absurd hlength.1 (by decide)
  have hdots : withoutV4 (compress ((groups 65536 8 ip.toNat).map hexText)) =
      some (compress ((groups 65536 8 ip.toNat).map hexText)) := by
    unfold withoutV4
    split
    · rename_i hnil
      rw [List.getLast?_eq_none_iff.1 hnil] at hlength
      exact absurd hlength.1 (by decide)
    · rename_i last hlast
      exact if_neg (not_mem_v6Part (by decide) ip last (List.mem_of_getLast? hlast))
  have hgroups : hextets (compress ((groups 65536 8 ip.toNat).map hexText)) = some (groups 65536 8 ip.toNat) :=
    hextets_compress (length_groups _ _ _) fun g hg => mem_groups_lt (by decide) hg
  have hnumber : number 65536 (groups 65536 8 ip.toNat) = ip.toNat := by
    rw [number_groups]
    exact Nat.mod_eq_of_lt ip.isLt
  unfold parseV6
  rw [if_neg hslash, hsplit]
  simp only [Option.bind_eq_bind, Option.bind_some, hparts, if_neg (Nat.not_lt.2 hlength.1), hdots,
    if_neg (Nat.not_lt.2 hlength.2), hgroups, hnumber, BitVec.ofNat_toNat, BitVec.setWidth_eq]

/-- There is a colon in it, which IPv4 has not. -/
theorem colon_mem_v6Text (ip : BitVec 128) : ':' ∈ v6Text ip := by
  have hlength : 3 ≤ (compress ((groups 65536 8 ip.toNat).map hexText)).length :=
    (length_compress (by rw [List.length_map, length_groups])).1
  unfold v6Text
  obtain ⟨p, q, rest, hparts⟩ : ∃ p q rest, compress ((groups 65536 8 ip.toNat).map hexText) = p :: q :: rest := by
    cases hparts : compress ((groups 65536 8 ip.toNat).map hexText) with
    | nil =>
      rw [hparts] at hlength
      exact absurd hlength (by decide)
    | cons p rest =>
      cases rest with
      | nil =>
        rw [hparts] at hlength
        exact absurd hlength (by simp)
      | cons q rest => exact ⟨p, q, rest, rfl⟩
  rw [hparts]
  simp [List.intercalate]

/-- No IPv6 text is read as an IPv4 address, so `ip_address` comes to the second reading. -/
theorem parseV4_v6Text (ip : BitVec 128) (scope : Option (List Char)) : parseV4 (Address.v6 ip scope).text = none := by
  have hcolon := colon_mem_v6Text ip
  have hdots : '.' ∉ v6Text ip := not_mem_v6Text (by decide) (by decide) ip
  obtain ⟨first, parts, hsplit, hfirst⟩ :
      ∃ first parts, Text.split '.' (Address.v6 ip scope).text = first :: parts ∧ ':' ∈ first := by
    obtain ⟨rest, htext⟩ : ∃ rest, (Address.v6 ip scope).text = v6Text ip ++ rest := by
      cases scope with
      | none => exact ⟨[], (List.append_nil _).symm⟩
      | some s => exact ⟨'%' :: s, rfl⟩
    obtain ⟨more, parts, hsplit⟩ := split_of_prefix hdots rest
    exact ⟨_, parts, htext ▸ hsplit, List.mem_append_left more hcolon⟩
  have hoctet : parseOctet first = none := by
    unfold parseOctet
    rw [if_pos]
    refine .inr (.inl ?_)
    rw [Bool.not_eq_true', List.all_eq_false]
    exact ⟨':', hfirst, by decide⟩
  unfold parseV4
  rw [hsplit, List.mapM_cons, hoctet]
  rfl

/-- **An address is read back from its text.** -/
theorem ipAddress_text {a : Address} (h : a.WellFormed) : ipAddress a.text = some a := by
  cases a with
  | v4 ip =>
    unfold ipAddress
    rw [show (Address.v4 ip).text = v4Text ip from rfl, parseV4_text]
    rfl
  | v6 ip scope =>
    unfold ipAddress
    rw [parseV4_v6Text, parseV6_text ip h]
    rfl

/-- What is read has a zone that may be named, if it has one. -/
theorem wellFormed_of_ipAddress {s : List Char} {a : Address} (h : ipAddress s = some a) : a.WellFormed := by
  unfold ipAddress at h
  cases hv4 : parseV4 s with
  | some ip =>
    rw [hv4] at h
    cases h
    trivial
  | none =>
    rw [hv4] at h
    have hv6 : parseV6 s = some a := h
    unfold parseV6 at hv6
    by_cases hslash : '/' ∈ s
    · rw [if_pos hslash] at hv6
      cases hv6
    rw [if_neg hslash] at hv6
    cases hscope : splitScope s with
    | none =>
      rw [hscope] at hv6
      cases hv6
    | some parts =>
      obtain ⟨address, scope⟩ := parts
      rw [hscope] at hv6
      -- `splitScope` lets no other zone through, and a slash was refused before.
      have hscoped : Scoped scope := by
        intro zone hzone
        subst hzone
        unfold splitScope at hscope
        split at hscope
        · cases hscope
        dsimp only at hscope
        split at hscope
        · cases hscope
        rename_i hgood
        rw [not_or] at hgood
        cases hscope
        refine ⟨hgood.1, hgood.2, ?_⟩
        intro hmem
        exact hslash ((List.dropWhile_sublist _).subset (List.mem_of_mem_drop hmem))
      simp only [Option.bind_eq_bind, Option.bind_some] at hv6
      split at hv6
      · cases hv6
      cases hdots : withoutV4 (Text.split ':' address) with
      | none =>
        rw [hdots] at hv6
        cases hv6
      | some parts =>
        rw [hdots, Option.bind_some] at hv6
        split at hv6
        · cases hv6
        cases hgroups : hextets parts with
        | none =>
          rw [hgroups] at hv6
          cases hv6
        | some gs =>
          rw [hgroups] at hv6
          cases hv6
          exact hscoped

end PyAppRunner.Base.Ip
