import Mathlib.Data.List.TakeWhile
import PyAppRunner.Base.LenientBase64

/-! The base64url of keys in a URL fragment: `b64url_encode` and `b64url_decode`.

The encoder makes one text for any bytes. The decoder puts the padding back by the length
of the whole text and leaves the rest to a library that passes over what it does not
know, so it reads more texts than the encoder makes. `decodes_exactly_iff` says which:
all whose groups come out right once everything foreign is gone. -/
namespace PyAppRunner.Crypto.Envelope
open Base Base.Lenient

/-! ### The two functions -/

/-- From the standard alphabet to the one for addresses. -/
def toUrl (c : Char) : Char := if c = '+' then '-' else if c = '/' then '_' else c

/-- And back. -/
def fromUrl (c : Char) : Char := if c = '-' then '+' else if c = '_' then '/' else c

/-- `str.rstrip("=")`. -/
def rstripPad (s : List Char) : List Char := (s.reverse.dropWhile (· = '=')).reverse

/-- `-len(value) % 4`. -/
def missing (value : List Char) : Nat := (4 - value.length % 4) % 4

/-- The text with the `=` that were left off. -/
def padded (value : List Char) : List Char := value ++ List.replicate (missing value) '='

/-- `base64.urlsafe_b64decode`; `none` is `ValueError`, of a character outside ASCII or of the padding. -/
def urlsafeB64decode (s : List Char) : Option Bytes :=
  if s.all fun c => c.toNat < 128 then a2b start (s.map fromUrl) else none

/-- `b64url_decode`; `none` is `CryptoError`. -/
def b64urlDecode (value : List Char) : Option Bytes := urlsafeB64decode (padded value)

/-- `b64url_encode`: the padding is left off. -/
def b64urlEncode (raw : Bytes) : List Char := rstripPad ((b64encode raw).map toUrl)

/-! ### Texts the encoder makes -/

/-- The bits of the last character that no byte has, for a text of this length. -/
def spare (n : Nat) : Nat := if n % 4 = 2 then 16 else if n % 4 = 3 then 4 else 1

def isUrlDigit (c : Char) : Bool := (sextet (fromUrl c)).isSome && c ≠ '+' && c ≠ '/'

/-- The alphabet and nothing else, no lone character at the end, and no bit set that no byte has. -/
def canonical (t : List Char) : Bool :=
  t.all isUrlDigit && t.length % 4 ≠ 1 &&
    (t.getLast?.bind fun c => sextet (fromUrl c)).all fun x => x % spare t.length = 0

def urlDigit (n : Nat) : Char := toUrl (digit n)

theorem urlDigit_facts {n : Nat} (h : n < 64) : fromUrl (urlDigit n) = digit n ∧ isUrlDigit (urlDigit n) = true ∧
    urlDigit n ≠ '=' ∧ (urlDigit n).toNat < 128 := by
  have hall : ∀ i : Fin 64, fromUrl (urlDigit i) = digit i ∧ isUrlDigit (urlDigit i) = true ∧
      urlDigit i ≠ '=' ∧ (urlDigit i).toNat < 128 := by decide +kernel
  exact hall ⟨n, h⟩

/-! ### Stripping -/

theorem rstripPad_cons {c : Char} (h : c ≠ '=') (s : List Char) : rstripPad (c :: s) = c :: rstripPad s := by
  unfold rstripPad
  rw [List.reverse_cons, List.dropWhile_append]
  split
  · next hempty =>
    rw [List.isEmpty_iff.mp hempty]
    simp [h]
  · simp

/-- What is stripped is padding. -/
theorem rstripPad_around (s : List Char) : ∃ k, s = rstripPad s ++ List.replicate k '=' := by
  refine ⟨(s.reverse.takeWhile (· = '=')).length, ?_⟩
  have hall : s.reverse.takeWhile (· = '=') = List.replicate (s.reverse.takeWhile (· = '=')).length '=' := by
    rw [List.eq_replicate_iff]
    exact ⟨rfl, fun c hc => by simpa using List.mem_takeWhile_imp hc⟩
  rw [rstripPad, ← List.reverse_replicate, ← hall, ← List.reverse_append, List.takeWhile_append_dropWhile,
    List.reverse_reverse]

/-! ### The encoder -/

theorem fromUrl_pad : fromUrl '=' = '=' := by decide

theorem encode_one (a : UInt8) : b64urlEncode [a] = [urlDigit (a.toNat / 4), urlDigit (a.toNat % 4 * 16)] := by
  have ha := a.toNat_lt
  have hx := (urlDigit_facts (n := a.toNat / 4) (by omega)).2.2.1
  have hy := (urlDigit_facts (n := a.toNat % 4 * 16) (by omega)).2.2.1
  show rstripPad (urlDigit (a.toNat / 4) :: urlDigit (a.toNat % 4 * 16) :: ['=', '=']) = _
  rw [rstripPad_cons hx, rstripPad_cons hy]
  rfl

theorem encode_two (a b : UInt8) : b64urlEncode [a, b] =
    [urlDigit (a.toNat / 4), urlDigit (a.toNat % 4 * 16 + b.toNat / 16), urlDigit (b.toNat % 16 * 4)] := by
  have ha := a.toNat_lt
  have hb := b.toNat_lt
  have hx := (urlDigit_facts (n := a.toNat / 4) (by omega)).2.2.1
  have hy := (urlDigit_facts (n := a.toNat % 4 * 16 + b.toNat / 16) (by omega)).2.2.1
  have hz := (urlDigit_facts (n := b.toNat % 16 * 4) (by omega)).2.2.1
  show rstripPad (urlDigit (a.toNat / 4) :: urlDigit (a.toNat % 4 * 16 + b.toNat / 16) ::
    urlDigit (b.toNat % 16 * 4) :: ['=']) = _
  rw [rstripPad_cons hx, rstripPad_cons hy, rstripPad_cons hz]
  rfl

theorem encode_three (a b c : UInt8) (rest : Bytes) : b64urlEncode (a :: b :: c :: rest) =
    urlDigit (a.toNat / 4) :: urlDigit (a.toNat % 4 * 16 + b.toNat / 16) ::
      urlDigit (b.toNat % 16 * 4 + c.toNat / 64) :: urlDigit (c.toNat % 64) :: b64urlEncode rest := by
  have ha := a.toNat_lt
  have hb := b.toNat_lt
  have hc := c.toNat_lt
  have hx := (urlDigit_facts (n := a.toNat / 4) (by omega)).2.2.1
  have hy := (urlDigit_facts (n := a.toNat % 4 * 16 + b.toNat / 16) (by omega)).2.2.1
  have hz := (urlDigit_facts (n := b.toNat % 16 * 4 + c.toNat / 64) (by omega)).2.2.1
  have hu := (urlDigit_facts (n := c.toNat % 64) (by omega)).2.2.1
  show rstripPad (urlDigit (a.toNat / 4) :: urlDigit (a.toNat % 4 * 16 + b.toNat / 16) ::
    urlDigit (b.toNat % 16 * 4 + c.toNat / 64) :: urlDigit (c.toNat % 64) :: (b64encode rest).map toUrl) = _
  rw [rstripPad_cons hx, rstripPad_cons hy, rstripPad_cons hz, rstripPad_cons hu]
  rfl

/-! ### The decoder on what the encoder makes -/

/-- One character of the alphabet. -/
theorem a2b_urlDigit {n : Nat} (h : n < 64) (q : Quad) (rest : List Char) :
    a2b q (fromUrl (urlDigit n) :: rest) = (a2b (feed n q).2 rest).map ((feed n q).1.toList ++ ·) := by
  rw [(urlDigit_facts h).1, a2b, if_neg (digit_ne_pad h), sextet_digit h]

/-- Padding between two groups is passed over. -/
theorem a2b_pads (m : Nat) : a2b start (List.replicate m '=') = some [] := by
  induction m with
  | zero => rfl
  | succ m ih => exact ih

theorem a2b_encoded (raw : Bytes) {m : Nat} (hm : ((b64urlEncode raw).length + m) % 4 = 0) :
    a2b start ((b64urlEncode raw ++ List.replicate m '=').map fromUrl) = some raw := by
  rw [List.map_append, List.map_replicate, fromUrl_pad]
  induction raw using b64encode.induct with
  | case1 => exact a2b_pads m
  | case2 a =>
    have ha := a.toNat_lt
    rw [encode_one] at hm ⊢
    obtain ⟨m, rfl⟩ : ∃ k, m = k + 2 := ⟨m - 2, by simp only [List.length_cons, List.length_nil] at hm; omega⟩
    simp only [List.map_cons, List.map_nil, List.cons_append, List.nil_append]
    rw [a2b_urlDigit (by omega), a2b_urlDigit (by omega)]
    have hfirst : joined (a.toNat / 4) (a.toNat % 4 * 16) 16 4 = a := joined_eq (by omega)
    simp [start, feed, a2b, List.replicate_succ, hfirst]
  | case3 a b =>
    have ha := a.toNat_lt
    have hb := b.toNat_lt
    rw [encode_two] at hm ⊢
    obtain ⟨m, rfl⟩ : ∃ k, m = k + 1 := ⟨m - 1, by simp only [List.length_cons, List.length_nil] at hm; omega⟩
    simp only [List.map_cons, List.map_nil, List.cons_append, List.nil_append]
    rw [a2b_urlDigit (by omega), a2b_urlDigit (by omega), a2b_urlDigit (by omega)]
    have hfirst : joined (a.toNat / 4) (a.toNat % 4 * 16 + b.toNat / 16) 16 4 = a := joined_eq (by omega)
    have hsecond : joined (b.toNat / 16 % 16) (b.toNat % 16 * 4) 4 16 = b := joined_eq (by omega)
    simp [start, feed, a2b, List.replicate_succ, hfirst, hsecond]
  | case4 a b c rest ih =>
    have ha := a.toNat_lt
    have hb := b.toNat_lt
    have hc := c.toNat_lt
    rw [encode_three] at hm ⊢
    simp only [List.map_cons, List.cons_append]
    rw [a2b_urlDigit (by omega), a2b_urlDigit (by omega), a2b_urlDigit (by omega), a2b_urlDigit (by omega)]
    have hfirst : joined (a.toNat / 4) (a.toNat % 4 * 16 + b.toNat / 16) 16 4 = a := joined_eq (by omega)
    have hsecond : joined (b.toNat / 16 % 16) (b.toNat % 16 * 4 + c.toNat / 64) 4 16 = b :=
      joined_eq (by omega)
    have hthird : joined (c.toNat / 64 % 4) (c.toNat % 64) 1 64 = c := joined_eq (by omega)
    have hrest := ih (by simp only [List.length_cons] at hm; omega)
    simp only [start] at hrest
    simp [start, feed, hrest, hfirst, hsecond, hthird]

theorem all_urlDigit (raw : Bytes) : (b64urlEncode raw).all isUrlDigit = true := by
  induction raw using b64encode.induct with
  | case1 => rfl
  | case2 a =>
    have ha := a.toNat_lt
    rw [encode_one]
    simp only [List.all_cons, List.all_nil, Bool.and_true, Bool.and_eq_true]
    exact ⟨(urlDigit_facts (by omega)).2.1, (urlDigit_facts (by omega)).2.1⟩
  | case3 a b =>
    have ha := a.toNat_lt
    have hb := b.toNat_lt
    rw [encode_two]
    simp only [List.all_cons, List.all_nil, Bool.and_true, Bool.and_eq_true]
    exact ⟨(urlDigit_facts (by omega)).2.1, (urlDigit_facts (by omega)).2.1, (urlDigit_facts (by omega)).2.1⟩
  | case4 a b c rest ih =>
    have ha := a.toNat_lt
    have hb := b.toNat_lt
    have hc := c.toNat_lt
    rw [encode_three]
    simp only [List.all_cons, Bool.and_eq_true]
    exact ⟨(urlDigit_facts (by omega)).2.1, (urlDigit_facts (by omega)).2.1, (urlDigit_facts (by omega)).2.1,
      (urlDigit_facts (by omega)).2.1, ih⟩

/-! ### Which texts the encoder makes -/

theorem spare_add_four (n : Nat) : spare (n + 4) = spare n := by
  rw [spare, spare, Nat.add_mod_right]

theorem canonical_group (c d e f : Char) (rest : List Char) : canonical (c :: d :: e :: f :: rest) =
    (isUrlDigit c && isUrlDigit d && isUrlDigit e && isUrlDigit f && canonical rest) := by
  have hlength : (c :: d :: e :: f :: rest).length = rest.length + 4 := rfl
  unfold canonical
  rw [hlength, spare_add_four, Nat.add_mod_right]
  cases rest with
  | nil => simp [spare, Nat.mod_one, Bool.and_assoc]
  | cons g rest => simp only [List.getLast?_cons_cons, List.all_cons, Bool.and_assoc]

/-- A character of the alphabet is the text of six bits. -/
theorem urlDigit_of_isUrlDigit {c : Char} (h : isUrlDigit c = true) :
    ∃ n < 64, sextet (fromUrl c) = some n ∧ c = urlDigit n := by
  simp only [isUrlDigit, Bool.and_eq_true, decide_eq_true_eq] at h
  obtain ⟨⟨hsome, hplus⟩, hslash⟩ := h
  obtain ⟨n, hn⟩ := Option.isSome_iff_exists.mp hsome
  obtain ⟨hlt, hget, -⟩ := List.idxOf?_eq_some_iff.mp hn
  refine ⟨n, hlt, hn, ?_⟩
  have hdigit : digit n = fromUrl c := by
    rw [digit, List.getD_eq_getElem?_getD, List.getElem?_eq_getElem hlt, Option.getD_some, hget]
  rw [urlDigit, hdigit, toUrl, fromUrl]
  split
  · next hdash => simp_all
  · split
    · next hdash hunder => simp_all
    · simp_all

theorem canonical_encode (raw : Bytes) : canonical (b64urlEncode raw) = true := by
  induction raw using b64encode.induct with
  | case1 => rfl
  | case2 a =>
    have ha := a.toNat_lt
    have hall := all_urlDigit [a]
    have hy := (urlDigit_facts (n := a.toNat % 4 * 16) (by omega)).1
    have hsextet := sextet_digit (n := a.toNat % 4 * 16) (by omega)
    rw [encode_one] at hall ⊢
    rw [canonical, hall]
    simp [spare, hy, hsextet]
  | case3 a b =>
    have hb := b.toNat_lt
    have hall := all_urlDigit [a, b]
    have hz := (urlDigit_facts (n := b.toNat % 16 * 4) (by omega)).1
    have hsextet := sextet_digit (n := b.toNat % 16 * 4) (by omega)
    rw [encode_two] at hall ⊢
    rw [canonical, hall]
    simp [spare, hz, hsextet]
  | case4 a b c rest ih =>
    have hall := all_urlDigit (a :: b :: c :: rest)
    rw [encode_three] at hall ⊢
    rw [canonical_group, ih, Bool.and_true]
    simp only [List.all_cons, Bool.and_eq_true] at hall
    simp [hall]

theorem toNat_joined (x y drop keep : Nat) (h : x * keep + y / drop < 256) :
    (joined x y drop keep).toNat = x * keep + y / drop := by
  rw [joined, UInt8.toNat_ofNat', Nat.mod_eq_of_lt h]

/-- What is canonical of the last group: its characters, and no bits to spare in the last one. -/
theorem canonical_last {t : List Char} {c : Char} (h : canonical (t ++ [c]) = true) :
    (∀ d ∈ t ++ [c], isUrlDigit d = true) ∧ ∀ n, sextet (fromUrl c) = some n → n % spare (t ++ [c]).length = 0 := by
  simp only [canonical, Bool.and_eq_true, List.all_eq_true, List.getLast?_concat, Option.bind_some] at h
  refine ⟨h.1.1, fun n hn => ?_⟩
  have hspare := h.2
  rw [hn] at hspare
  simpa using hspare

theorem exists_encode_two {c d : Char} (h : canonical [c, d] = true) : ∃ raw, [c, d] = b64urlEncode raw := by
  obtain ⟨hall, hlast⟩ := canonical_last (t := [c]) h
  obtain ⟨x, hx, -, rfl⟩ := urlDigit_of_isUrlDigit (hall c (by simp))
  obtain ⟨y, hy, hdigit, rfl⟩ := urlDigit_of_isUrlDigit (hall d (by simp))
  have hbits : y % 16 = 0 := hlast y hdigit
  have hfirst := toNat_joined x y 16 4 (by omega)
  refine ⟨[joined x y 16 4], ?_⟩
  rw [encode_one, hfirst]
  have hx' : (x * 4 + y / 16) / 4 = x := by omega
  have hy' : (x * 4 + y / 16) % 4 * 16 = y := by omega
  rw [hx', hy']

theorem exists_encode_three {c d e : Char} (h : canonical [c, d, e] = true) : ∃ raw, [c, d, e] = b64urlEncode raw := by
  obtain ⟨hall, hlast⟩ := canonical_last (t := [c, d]) h
  obtain ⟨x, hx, -, rfl⟩ := urlDigit_of_isUrlDigit (hall c (by simp))
  obtain ⟨y, hy, -, rfl⟩ := urlDigit_of_isUrlDigit (hall d (by simp))
  obtain ⟨z, hz, hdigit, rfl⟩ := urlDigit_of_isUrlDigit (hall e (by simp))
  have hbits : z % 4 = 0 := hlast z hdigit
  have hfirst := toNat_joined x y 16 4 (by omega)
  have hsecond := toNat_joined (y % 16) z 4 16 (by omega)
  refine ⟨[joined x y 16 4, joined (y % 16) z 4 16], ?_⟩
  rw [encode_two, hfirst, hsecond]
  have hx' : (x * 4 + y / 16) / 4 = x := by omega
  have hy' : (x * 4 + y / 16) % 4 * 16 + (y % 16 * 16 + z / 4) / 16 = y := by omega
  have hz' : (y % 16 * 16 + z / 4) % 16 * 4 = z := by omega
  rw [hx', hy', hz']

/-- A canonical text is one the encoder makes. -/
theorem exists_encode {t : List Char} (h : canonical t = true) : ∃ raw, t = b64urlEncode raw := by
  induction t using b64decode.induct with
  | case1 => exact ⟨[], rfl⟩
  | case2 c d e f rest ih =>
    rw [canonical_group] at h
    simp only [Bool.and_eq_true] at h
    obtain ⟨⟨⟨⟨hc, hd⟩, he⟩, hf⟩, hrest⟩ := h
    obtain ⟨raw, rfl⟩ := ih hrest
    obtain ⟨x, hx, -, rfl⟩ := urlDigit_of_isUrlDigit hc
    obtain ⟨y, hy, -, rfl⟩ := urlDigit_of_isUrlDigit hd
    obtain ⟨z, hz, -, rfl⟩ := urlDigit_of_isUrlDigit he
    obtain ⟨u, hu, -, rfl⟩ := urlDigit_of_isUrlDigit hf
    have hfirst := toNat_joined x y 16 4 (by omega)
    have hsecond := toNat_joined (y % 16) z 4 16 (by omega)
    have hthird := toNat_joined (z % 4) u 1 64 (by omega)
    refine ⟨joined x y 16 4 :: joined (y % 16) z 4 16 :: joined (z % 4) u 1 64 :: raw, ?_⟩
    rw [encode_three, hfirst, hsecond, hthird]
    have hx' : (x * 4 + y / 16) / 4 = x := by omega
    have hy' : (x * 4 + y / 16) % 4 * 16 + (y % 16 * 16 + z / 4) / 16 = y := by omega
    have hz' : (y % 16 * 16 + z / 4) % 16 * 4 + (z % 4 * 64 + u / 1) / 64 = z := by omega
    have hu' : (z % 4 * 64 + u / 1) % 64 = u := by omega
    rw [hx', hy', hz', hu']
  | case3 t hnil hlong =>
    cases t with
    | nil => exact absurd rfl hnil
    | cons c t =>
      cases t with
      | nil => simp [canonical] at h
      | cons d t =>
        cases t with
        | nil => exact exists_encode_two h
        | cons e t =>
          cases t with
          | nil => exact exists_encode_three h
          | cons f rest => exact (hlong c d e f rest rfl).elim

/-! ### Which texts are read exactly -/

/-- The text is refused, or is what the encoder makes of the bytes it is read as. -/
def ReadExactly (value : List Char) : Prop :=
  b64urlDecode value = none ∨ ∃ raw, b64urlDecode value = some raw ∧ b64urlEncode raw = rstripPad value

/-- A character outside ASCII, or groups that do not come out right once the padding is put
back and everything foreign is gone. -/
def Refused (value : List Char) : Prop :=
  (∃ c ∈ value, 128 ≤ c.toNat) ∨ ¬ Padded ((padded value).map fromUrl)

theorem ascii_padded (value : List Char) :
    ((padded value).all fun c => c.toNat < 128) = value.all fun c => c.toNat < 128 := by
  rw [padded, List.all_append, List.all_replicate]
  simp

theorem decode_eq_none_iff (value : List Char) : b64urlDecode value = none ↔ Refused value := by
  unfold b64urlDecode urlsafeB64decode Refused
  rw [ascii_padded, ← isSome_a2b_iff]
  split
  · next hascii =>
    simp only [List.all_eq_true, decide_eq_true_eq] at hascii
    have hnot : ¬ ∃ c ∈ value, 128 ≤ c.toNat := fun ⟨c, hc, h⟩ => absurd (hascii c hc) (Nat.not_lt_of_le h)
    simp [hnot]
  · next hascii =>
    simp only [List.all_eq_true, decide_eq_true_eq, not_forall, not_lt] at hascii
    obtain ⟨c, hc, h⟩ := hascii
    exact ⟨fun _ => .inl ⟨c, hc, h⟩, fun _ => rfl⟩

theorem ascii_encode (raw : Bytes) : (b64urlEncode raw).all (fun c => c.toNat < 128) = true := by
  rw [List.all_eq_true]
  intro c hc
  obtain ⟨n, hn, -, rfl⟩ := urlDigit_of_isUrlDigit (List.all_eq_true.mp (all_urlDigit raw) c hc)
  exact decide_eq_true (urlDigit_facts hn).2.2.2

/-- What the encoder makes is read back, however much of its padding is there. -/
theorem decode_encode_pads (raw : Bytes) (k : Nat) :
    b64urlDecode (b64urlEncode raw ++ List.replicate k '=') = some raw := by
  have hpadded : padded (b64urlEncode raw ++ List.replicate k '=') = b64urlEncode raw ++
      List.replicate (k + missing (b64urlEncode raw ++ List.replicate k '=')) '=' := by
    rw [padded, List.append_assoc, List.replicate_append_replicate]
  have hascii : ((b64urlEncode raw ++ List.replicate k '=').all fun c => c.toNat < 128) = true := by
    rw [List.all_append, ascii_encode, List.all_replicate]
    simp
  rw [b64urlDecode, urlsafeB64decode, ascii_padded, if_pos hascii, hpadded]
  apply a2b_encoded
  rw [missing, List.length_append, List.length_replicate]
  omega

theorem decode_encode (raw : Bytes) : b64urlDecode (b64urlEncode raw) = some raw := by
  have h := decode_encode_pads raw 0
  rwa [List.replicate_zero, List.append_nil] at h

theorem encode_alphabet (raw : Bytes) : '=' ∉ b64urlEncode raw ∧ '+' ∉ b64urlEncode raw ∧ '/' ∉ b64urlEncode raw := by
  have hall := List.all_eq_true.mp (all_urlDigit raw)
  exact ⟨fun h => absurd (hall _ h) (by decide), fun h => absurd (hall _ h) (by decide),
    fun h => absurd (hall _ h) (by decide)⟩

/-- **A text is read exactly if and only if it is refused or canonical.** What the encoder
makes always is. -/
theorem decodes_exactly_iff (raw : Bytes) (value : List Char) :
    (b64urlDecode (b64urlEncode raw) = some raw ∧
      '=' ∉ b64urlEncode raw ∧ '+' ∉ b64urlEncode raw ∧ '/' ∉ b64urlEncode raw) ∧
    (ReadExactly value ↔ Refused value ∨ canonical (rstripPad value) = true) := by
  refine ⟨⟨decode_encode raw, encode_alphabet raw⟩, ?_⟩
  rw [ReadExactly, decode_eq_none_iff]
  apply or_congr_right
  constructor
  · intro ⟨raw, _, hencode⟩
    rw [← hencode]
    exact canonical_encode raw
  · intro hcanonical
    obtain ⟨raw, hraw⟩ := exists_encode hcanonical
    obtain ⟨k, hk⟩ := rstripPad_around value
    rw [hraw] at hk
    exact ⟨raw, by rw [hk]; exact decode_encode_pads raw k, hraw.symm⟩

/-- Rubbish after a whole group is passed over. -/
theorem rubbish_read : ¬ ReadExactly "AAAA!!!!".toList := by
  have hread : b64urlDecode "AAAA!!!!".toList = some [0, 0, 0] := by decide +kernel
  intro h
  obtain hnone | ⟨raw, hsome, hencode⟩ := h
  · rw [hread] at hnone
    cases hnone
  · rw [hread] at hsome
    cases hsome
    exact absurd hencode (by decide +kernel)

end PyAppRunner.Crypto.Envelope
