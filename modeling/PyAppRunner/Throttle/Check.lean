import PyAppRunner.Throttle.Windows

/-! `Throttle.check`: the next attempt, without counting it.

The attempts that are left are counted right. Whether the next one is allowed is asked of the count
before it, with the helper that `hit` gives the count after it: a key that has used up its limit is
said to be allowed, and its next hit is denied (`check_truthful_iff`). -/
namespace PyAppRunner.Throttling

namespace Throttle

/-- `_parse`: what is not two numbers counts as absent. -/
def parse (stored : Counter) : Option (Int × Int) :=
  match stored.hits, stored.reset with
  | some hits, some reset => some (hits, reset)
  | _, _ => none

/-- `check`, at the clock it reads. -/
def check (t : Throttle) (reachable : Bool) (key : String) (maxAttempts now : Int) (s : Store) :
    Except Raised Attempt × Store :=
  match assertLimit maxAttempts 1 with
  | .error e => (.error e, s)
  | .ok () =>
    if reachable then
      match parse (s (t.cacheKey key)) with
      | none => (.ok ⟨true, maxAttempts, 0, maxAttempts, 0, now⟩, s)
      | some (hits, resetAt) =>
        if resetAt ≤ now then (.ok ⟨true, maxAttempts, 0, maxAttempts, 0, now⟩, s)
        else (.ok (attempt hits resetAt maxAttempts now), s)
    else (t.unavailable maxAttempts now 0, s)

end Throttle

/-! ### What it should say -/

/-- The check lets it pass. -/
def isAllowed : Except Raised Attempt → Bool
  | .ok a => a.allowed
  | .error _ => false

/-- The answers of hits on one key, one after another. -/
def hitsAt (t : Throttle) (key : String) (maxAttempts window : Int) : List Int → Store → List (Except Raised Attempt)
  | [], _ => []
  | now :: rest, s =>
    let (answer, s') := t.hit true key maxAttempts window now s
    answer :: hitsAt t key maxAttempts window rest s'

/-- The check changes nothing, and tells whether a hit at that instant would be allowed and how many
of those that follow, in the window that one falls into. -/
structure TellsTruth (t : Throttle) (key : String) (maxAttempts window now : Int) (s : Store) (a : Attempt) : Prop where
  checked : t.check true key maxAttempts now s = (.ok a, s)
  next : a.allowed = isAllowed (t.hit true key maxAttempts window now s).1
  left : ∀ later : List Int, (∀ x ∈ later, now ≤ x ∧ x < (current (s (t.cacheKey key)) now window).2) →
    ((hitsAt t key maxAttempts window (now :: later) s).countP isAllowed : Int) = min ((later.length : Int) + 1) a.remaining
  some_left : a.allowed = true ↔ 0 < a.remaining

/-- The window is open, and its limit has been reached exactly. -/
def UsedUp (maxAttempts now : Int) (c : Counter) : Prop := ∃ reset, c = ⟨some maxAttempts, some reset⟩ ∧ now < reset

/-! ### Hits in one window -/

section
variable {t : Throttle} {key : String} {maxAttempts window now : Int} {s : Store}

/-- How many hits the open window has, and when it ends, as a hit and a check see it. -/
theorem current_parse (c : Counter) (now window : Int) :
    current c now window = (0, now + window) ∧ (∀ found ∈ Throttle.parse c, found.2 ≤ now) ∨
      ∃ hits reset, c = ⟨some hits, some reset⟩ ∧ now < reset ∧ current c now window = (hits, reset) := by
  obtain ⟨hits, reset⟩ := c
  cases hits with
  | none => exact .inl ⟨rfl, fun found h => by cases h⟩
  | some hits =>
    cases reset with
    | none => exact .inl ⟨rfl, fun found h => by cases h⟩
    | some reset =>
      by_cases hover : reset ≤ now
      · left
        refine ⟨by simp [current, hover], ?_⟩
        intro found h
        cases h
        exact hover
      · exact .inr ⟨hits, reset, rfl, by omega, by simp [current, hover]⟩

theorem hit_eq (hmax : 1 ≤ maxAttempts) (hwindow : 1 ≤ window) (now : Int) (s : Store) :
    t.hit true key maxAttempts window now s =
      (.ok (Throttle.attempt ((current (s (t.cacheKey key)) now window).1 + 1)
          (current (s (t.cacheKey key)) now window).2 maxAttempts now),
        Function.update s (t.cacheKey key)
          ⟨some ((current (s (t.cacheKey key)) now window).1 + 1), some (current (s (t.cacheKey key)) now window).2⟩) := by
  have hvalid : Limits.Valid ⟨fun _ => maxAttempts, fun _ => window⟩ key := ⟨hmax, hwindow⟩
  exact hit_valid hvalid now s

/-- Of the hits in an open window as many are allowed as the limit leaves. -/
theorem count_open (hmax : 1 ≤ maxAttempts) (hwindow : 1 ≤ window) {hits reset : Int} {times : List Int}
    (hs : s (t.cacheKey key) = ⟨some hits, some reset⟩) (htimes : ∀ x ∈ times, x < reset) :
    ((hitsAt t key maxAttempts window times s).countP isAllowed : Int) =
      min (times.length : Int) (max 0 (maxAttempts - hits)) := by
  induction times generalizing hits s with
  | nil =>
    simp only [hitsAt, List.countP_nil, List.length_nil]
    omega
  | cons now rest ih =>
    have hnow := htimes now List.mem_cons_self
    have hcurrent : current (s (t.cacheKey key)) now window = (hits, reset) := by
      rw [hs]
      simp only [current]
      rw [if_neg (by omega)]
    have hstored : Function.update s (t.cacheKey key) ⟨some (hits + 1), some reset⟩ (t.cacheKey key) =
        ⟨some (hits + 1), some reset⟩ := Function.update_self ..
    have hnext := ih hstored fun x hx => htimes x (List.mem_cons_of_mem now hx)
    rw [hitsAt, hit_eq hmax hwindow, hcurrent]
    dsimp only
    rw [List.countP_cons, Int.natCast_add, hnext]
    simp only [isAllowed, Throttle.attempt, List.length_cons, decide_eq_true_eq]
    split <;> push_cast <;> omega

theorem assertLimit_ok (hmax : 1 ≤ maxAttempts) (hwindow : 1 ≤ window) :
    Throttle.assertLimit maxAttempts window = .ok () := by
  rw [Throttle.assertLimit, if_neg (by omega), if_neg (by omega)]

theorem check_open (hmax : 1 ≤ maxAttempts) {hits reset : Int} (hs : s (t.cacheKey key) = ⟨some hits, some reset⟩)
    (hopen : now < reset) :
    t.check true key maxAttempts now s = (.ok (Throttle.attempt hits reset maxAttempts now), s) := by
  rw [Throttle.check, assertLimit_ok hmax (Int.le_refl 1), hs]
  simp only [Throttle.parse, if_true]
  rw [if_neg (by omega)]

/-- Where no window is open the whole limit is left, of the window that opens. -/
theorem truthful_closed (hmax : 1 ≤ maxAttempts) (hwindow : 1 ≤ window)
    (hcurrent : current (s (t.cacheKey key)) now window = (0, now + window))
    (hparse : ∀ found ∈ Throttle.parse (s (t.cacheKey key)), found.2 ≤ now) :
    TellsTruth t key maxAttempts window now s ⟨true, maxAttempts, 0, maxAttempts, 0, now⟩ := by
  refine ⟨?_, ?_, ?_, ?_⟩
  · rw [Throttle.check, assertLimit_ok hmax (Int.le_refl 1)]
    cases hfound : Throttle.parse (s (t.cacheKey key)) with
    | none => rfl
    | some found =>
      have hover := hparse found hfound
      simp [hover]
  · rw [hit_eq hmax hwindow, hcurrent]
    simp only [isAllowed, Throttle.attempt]
    exact (decide_eq_true (by omega)).symm
  · intro later hlater
    rw [hcurrent] at hlater
    have hstored : Function.update s (t.cacheKey key) ⟨some (0 + 1), some (now + window)⟩ (t.cacheKey key) =
        ⟨some (0 + 1), some (now + window)⟩ := Function.update_self ..
    have hcount := count_open hmax hwindow hstored fun x hx => (hlater x hx).2
    rw [hitsAt, hit_eq hmax hwindow, hcurrent]
    dsimp only
    rw [List.countP_cons, Int.natCast_add, hcount]
    simp only [isAllowed, Throttle.attempt, decide_eq_true_eq]
    rw [if_pos (by omega)]
    omega
  · exact iff_of_true rfl hmax

/-- In an open window the check says what the next hit would if the limit has not just been reached. -/
theorem truthful_open (hmax : 1 ≤ maxAttempts) (hwindow : 1 ≤ window) {hits reset : Int}
    (hs : s (t.cacheKey key) = ⟨some hits, some reset⟩) (hopen : now < reset) :
    TellsTruth t key maxAttempts window now s (Throttle.attempt hits reset maxAttempts now) ↔ hits ≠ maxAttempts := by
  have hcurrent : current (s (t.cacheKey key)) now window = (hits, reset) := by
    rw [hs]
    simp only [current]
    rw [if_neg (by omega)]
  constructor
  · intro h heq
    have hsome := h.some_left
    simp only [Throttle.attempt, decide_eq_true_eq] at hsome
    omega
  · intro hne
    refine ⟨check_open hmax hs hopen, ?_, ?_, ?_⟩
    · rw [hit_eq hmax hwindow, hcurrent]
      simp only [isAllowed, Throttle.attempt, decide_eq_decide]
      omega
    · intro later hlater
      rw [hcurrent] at hlater
      have htimes : ∀ x ∈ now :: later, x < reset := List.forall_mem_cons.mpr ⟨hopen, fun x hx => (hlater x hx).2⟩
      have hcount := count_open hmax hwindow hs htimes
      rw [List.length_cons, Int.natCast_add] at hcount
      exact hcount
    · simp only [Throttle.attempt, decide_eq_true_eq]
      omega

end

/-- **A check tells the truth about the next attempt exactly if the limit has not just been used up**:
for every stored state of a key. -/
theorem check_truthful_iff (t : Throttle) (key : String) {maxAttempts window : Int} (hmax : 1 ≤ maxAttempts)
    (hwindow : 1 ≤ window) (now : Int) (s : Store) :
    (∃ a, TellsTruth t key maxAttempts window now s a) ↔ ¬ UsedUp maxAttempts now (s (t.cacheKey key)) := by
  obtain ⟨hcurrent, hparse⟩ | ⟨hits, reset, hs, hopen, -⟩ := current_parse (s (t.cacheKey key)) now window
  · refine iff_of_true ⟨_, truthful_closed hmax hwindow hcurrent hparse⟩ ?_
    rintro ⟨reset, hs, hlater⟩
    rw [hs] at hparse
    have hover := hparse (maxAttempts, reset) rfl
    simp only at hover
    omega
  · have hanswer : ∀ a, TellsTruth t key maxAttempts window now s a → a = Throttle.attempt hits reset maxAttempts now := by
      intro a ha
      have hchecked := ha.checked.symm.trans (check_open hmax hs hopen)
      exact Except.ok.inj (congrArg Prod.fst hchecked)
    have hused : UsedUp maxAttempts now (s (t.cacheKey key)) ↔ hits = maxAttempts := by
      rw [hs]
      constructor
      · intro ⟨reset', heq, _⟩
        exact Option.some.inj (congrArg Counter.hits heq)
      · intro heq
        exact ⟨reset, by rw [heq], hopen⟩
    rw [hused, ← ne_eq, ← truthful_open hmax hwindow hs hopen]
    constructor
    · intro ⟨a, ha⟩
      rwa [hanswer a ha] at ha
    · exact fun h => ⟨_, h⟩

/-- Two hits of three were made. -/
theorem one_left_said : ∃ a, TellsTruth ⟨"throttle:", true, id⟩ "login" 3 60 5
    (fun _ => ⟨some 2, some 60⟩) a := by
  refine (check_truthful_iff ⟨"throttle:", true, id⟩ "login" (by decide) (by decide) 5 _).mpr ?_
  intro ⟨reset, heq, _⟩
  cases heq

/-- The only hit that is allowed was made, in the window that it opened. -/
theorem used_up_said_allowed : ¬ ∃ a, TellsTruth ⟨"throttle:", true, id⟩ "login" 1 60 5
    (Throttle.hit ⟨"throttle:", true, id⟩ true "login" 1 60 0 fun _ => .absent).2 a := by
  intro ⟨a, ha⟩
  have hchecked : (.ok (Throttle.attempt 1 60 1 5), _) = ((.ok a : Except Raised Attempt), _) := ha.checked
  have hnext : true = a.allowed := by
    rw [← Except.ok.inj (congrArg Prod.fst hchecked)]
    rfl
  have hdenied : a.allowed = false := ha.next
  rw [hdenied] at hnext
  cases hnext

end PyAppRunner.Throttling
