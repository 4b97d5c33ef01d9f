import Mathlib.Data.Set.Function
import Mathlib.Data.List.Basic
import PyAppRunner.Base.Run

/-! `Throttle.hit`: a fixed window for each key.

The script decides by the reset it stored, not by whether Redis still holds the key: a
key may be dropped, but not before its reset. The clock is the one each call reads before
its script runs, and in the order of the scripts it does not go back. The hits of a key
then split into windows (`Split`), and a window that is over is never continued. -/
namespace PyAppRunner.Throttling

/-! ### The script -/

/-- The two fields of a counter. A key that is not there has neither. -/
structure Counter where
  hits : Option Int
  reset : Option Int

/-- A key that is not in the store. -/
def Counter.absent : Counter := ⟨none, none⟩

/-- The counters under their keys. -/
abbrev Store := String → Counter

/-- The window a hit falls into: the stored one, or one that opens now. -/
def current (c : Counter) (now window : Int) : Int × Int :=
  match c.hits, c.reset with
  | some hits, some reset => if reset ≤ now then (0, now + window) else (hits, reset)
  | _, _ => (0, now + window)

/-- `_HIT_SCRIPT`. The expiry it sets only says from when Redis may drop the key. -/
def hitScript (key : String) (now window : Int) (s : Store) : (Int × Int) × Store :=
  let (hits, reset) := current (s key) now window
  ((hits + 1, reset), Function.update s key ⟨some (hits + 1), some reset⟩)

/-! ### The call -/

/-- What a check answers. -/
structure Attempt where
  allowed : Bool
  limit : Int
  hits : Int
  remaining : Int
  retryAfter : Int
  resetAt : Int

/-- `digest` is the hex digest of SHA-256 of the key's UTF-8. -/
structure Throttle where
  root : String
  failOpen : Bool
  digest : String → String

/-- What a check raises. -/
inductive Raised where
  | badLimit (maxAttempts : Int)
  | badWindow (window : Int)
  | unreachable

namespace Throttle

/-- `cache_key`. -/
def cacheKey (t : Throttle) (key : String) : String := t.root ++ t.digest key

/-- `_assert_limit`. -/
def assertLimit (maxAttempts window : Int) : Except Raised Unit :=
  if maxAttempts < 1 then .error (.badLimit maxAttempts)
  else if window < 1 then .error (.badWindow window)
  else .ok ()

/-- `_attempt`. -/
def attempt (hits resetAt maxAttempts now : Int) : Attempt where
  allowed := hits ≤ maxAttempts
  limit := maxAttempts
  hits := hits
  remaining := max 0 (maxAttempts - hits)
  retryAfter := if hits ≤ maxAttempts then 0 else max 0 (resetAt - now)
  resetAt := resetAt

/-- `_unavailable`. -/
def unavailable (t : Throttle) (maxAttempts now window : Int) : Except Raised Attempt :=
  if t.failOpen then .ok ⟨true, maxAttempts, 0, maxAttempts, 0, now + window⟩ else .error .unreachable

/-- `hit`, at the clock it reads. -/
def hit (t : Throttle) (reachable : Bool) (key : String) (maxAttempts window now : Int) (s : Store) :
    Except Raised Attempt × Store :=
  match assertLimit maxAttempts window with
  | .error e => (.error e, s)
  | .ok () =>
    if reachable then
      let (result, s) := hitScript (t.cacheKey key) now window s
      (.ok (attempt result.1 result.2 maxAttempts now), s)
    else (t.unavailable maxAttempts now window, s)

end Throttle

/-! ### Any number of calls -/

/-- A hit that was answered. -/
structure Record where
  key : String
  time : Int
  attempt : Attempt

/-- A script runs, or Redis drops a key; with the clock's reading. -/
inductive Input where
  | hit (key : String) (now : Int)
  | drop (cacheKey : String) (now : Int)

/-- The store, the clock, and what was answered so far. -/
structure World where
  store : Store
  clock : Int
  history : List Record

/-- Nothing was counted yet. -/
def World.start (clock : Int) : World := ⟨fun _ => .absent, clock, []⟩

/-- The calls on a key all have its limit and its window. -/
structure Limits where
  maxAttempts : String → Int
  window : String → Int

/-- One check, and its answer written down. -/
def World.hit (t : Throttle) (limits : Limits) (key : String) (now : Int) (w : World) : World :=
  match t.hit true key (limits.maxAttempts key) (limits.window key) now w.store with
  | (.ok attempt, s) => ⟨s, now, w.history ++ [⟨key, now, attempt⟩]⟩
  | (.error _, s) => ⟨s, now, w.history⟩

/-- Hits on any keys, and keys that the store loses. -/
def machine (t : Throttle) (limits : Limits) : Base.Machine World Input where
  step
    | .hit key now, w => w.hit t limits key now
    | .drop cacheKey now, w => ⟨Function.update w.store cacheKey .absent, now, w.history⟩

/-- The clock does not go back, and a key is not dropped before its reset. -/
def timely : Input → World → Prop
  | .hit _ now, w => w.clock ≤ now
  | .drop cacheKey now, w => w.clock ≤ now ∧ ∀ reset ∈ (w.store cacheKey).reset, reset ≤ now

instance : (input : Input) → (w : World) → Decidable (timely input w)
  | .hit _ now, w => inferInstanceAs (Decidable (w.clock ≤ now))
  | .drop cacheKey now, w =>
    inferInstanceAs (Decidable (w.clock ≤ now ∧ ∀ reset ∈ (w.store cacheKey).reset, reset ≤ now))

/-- The hits on one key. -/
def hitsOf (key : String) (history : List Record) : List Record := history.filter (·.key = key)

/-- The keys that are hit in a run. -/
def keysHit (inputs : List Input) : Set String := {key | ∃ now, .hit key now ∈ inputs}

/-! ### Windows -/

/-- One window: its hits are numbered from one, have one reset, and lie before it. -/
structure IsWindow (window opens : Int) (hits : List Record) : Prop where
  first : ∃ r rest, hits = r :: rest ∧ r.time = opens
  numbered : ∀ (i : Nat) r, hits[i]? = some r → r.attempt.hits = i + 1
  reset : ∀ r ∈ hits, r.attempt.resetAt = opens + window
  within : ∀ r ∈ hits, opens ≤ r.time ∧ r.time < opens + window

/-- The hits split into windows, each opened by the first hit at or after the last one's reset. -/
structure Split (window : Int) (hits : List Record) (windows : List (Int × List Record)) : Prop where
  flatten : hits = (windows.map Prod.snd).flatten
  each : ∀ win ∈ windows, IsWindow window win.1 win.2
  apart : windows.Pairwise fun a b => a.1 + window ≤ b.1

/-- The counter of a key belongs to its last window; without one, that window is over. -/
def Agrees (window clock : Int) (c : Counter) : Option (Int × List Record) → Prop
  | none => c = .absent
  | some win =>
    c = ⟨some win.2.length, some (win.1 + window)⟩ ∨ c = .absent ∧ win.1 + window ≤ clock

/-- What is known of one key. -/
structure Counted (window clock maxAttempts : Int) (c : Counter) (hits : List Record) : Prop where
  split : ∃ windows, Split window hits windows ∧ Agrees window clock c windows.getLast?
  answers : ∀ r ∈ hits, (r.attempt.allowed = true ↔ r.attempt.hits ≤ maxAttempts) ∧
    (r.attempt.allowed = false → 0 < r.attempt.retryAfter ∧ r.attempt.retryAfter ≤ window)
  past : ∀ r ∈ hits, r.time ≤ clock

theorem Split.opened {window : Int} {hits : List Record} {windows : List (Int × List Record)}
    (h : Split window hits windows) {r : Record} (hwindow : 1 ≤ window)
    (hover : ∀ win ∈ windows.getLast?, win.1 + window ≤ r.time) (hnumber : r.attempt.hits = 1)
    (hreset : r.attempt.resetAt = r.time + window) :
    Split window (hits ++ [r]) (windows ++ [(r.time, [r])]) := by
  constructor
  · simp [h.flatten]
  · intro win hwin
    rw [List.mem_append, List.mem_singleton] at hwin
    obtain hwin | rfl := hwin
    · exact h.each win hwin
    · refine ⟨⟨r, [], rfl, rfl⟩, ?_, ?_, ?_⟩
      · intro i r' hr'
        cases i with
        | zero =>
          cases hr'
          simpa using hnumber
        | succ i => cases hr'
      · intro r' hr'
        rw [List.mem_singleton.1 hr', hreset]
      · intro r' hr'
        rw [List.mem_singleton.1 hr']
        constructor <;> omega
  · rw [List.pairwise_append]
    refine ⟨h.apart, List.pairwise_singleton .., ?_⟩
    intro win hwin new hnew
    rw [List.mem_singleton.1 hnew]
    -- Every window ends before the last one begins, and that one is over.
    cases hlast : windows.getLast? with
    | none =>
      rw [List.getLast?_eq_none_iff] at hlast
      rw [hlast] at hwin
      cases hwin
    | some last =>
      have hend := hover last hlast
      obtain ⟨init, rfl⟩ := List.getLast?_eq_some_iff.1 hlast
      obtain ⟨-, -, hbefore⟩ := List.pairwise_append.1 h.apart
      rw [List.mem_append, List.mem_singleton] at hwin
      obtain hwin | rfl := hwin
      · have := hbefore win hwin last (List.mem_singleton_self _)
        simp only
        omega
      · exact hend

theorem IsWindow.continued {window opens : Int} {hits : List Record} (h : IsWindow window opens hits) {r : Record}
    (hnumber : r.attempt.hits = hits.length + 1) (hreset : r.attempt.resetAt = opens + window)
    (hwithin : opens ≤ r.time ∧ r.time < opens + window) : IsWindow window opens (hits ++ [r]) := by
  refine ⟨?_, ?_, ?_, ?_⟩
  · obtain ⟨first, rest, rfl, htime⟩ := h.first
    exact ⟨first, rest ++ [r], rfl, htime⟩
  · intro i r' hr'
    rw [List.getElem?_append] at hr'
    split at hr'
    · exact h.numbered i r' hr'
    · rw [List.getElem?_singleton] at hr'
      split at hr'
      · cases hr'
        rw [hnumber]
        omega
      · cases hr'
  · intro r' hr'
    obtain hr' | hr' := List.mem_append.1 hr'
    · exact h.reset r' hr'
    · rw [List.mem_singleton.1 hr', hreset]
  · intro r' hr'
    obtain hr' | hr' := List.mem_append.1 hr'
    · exact h.within r' hr'
    · rw [List.mem_singleton.1 hr']
      exact hwithin

theorem Split.continued {window : Int} {hits : List Record} {init : List (Int × List Record)}
    {win : Int × List Record} (h : Split window hits (init ++ [win])) {r : Record}
    (hnumber : r.attempt.hits = win.2.length + 1) (hreset : r.attempt.resetAt = win.1 + window)
    (hwithin : win.1 ≤ r.time ∧ r.time < win.1 + window) :
    Split window (hits ++ [r]) (init ++ [(win.1, win.2 ++ [r])]) := by
  constructor
  · simp [h.flatten]
  · intro win' hwin'
    rw [List.mem_append, List.mem_singleton] at hwin'
    obtain hwin' | rfl := hwin'
    · exact h.each win' (List.mem_append_left _ hwin')
    · exact (h.each win (by simp)).continued hnumber hreset hwithin
  · have happart := h.apart
    rw [List.pairwise_append] at happart ⊢
    refine ⟨happart.1, List.pairwise_singleton .., ?_⟩
    intro win' hwin' new hnew
    rw [List.mem_singleton.1 hnew]
    exact happart.2.2 win' hwin' win (List.mem_singleton_self _)

/-- The script opens a window exactly if the last one is over. -/
theorem current_cases {window clock now : Int} {c : Counter} {last : Option (Int × List Record)}
    (h : Agrees window clock c last) (hclock : clock ≤ now) :
    (current c now window = (0, now + window) ∧ ∀ win ∈ last, win.1 + window ≤ now) ∨
      ∃ win, last = some win ∧ current c now window = ((win.2.length : Int), win.1 + window) ∧
        now < win.1 + window := by
  cases last with
  | none =>
    have hc : c = .absent := h
    rw [hc]
    exact .inl ⟨rfl, fun win hwin => by cases hwin⟩
  | some win =>
    obtain hc | ⟨hc, hover⟩ := h
    · rw [hc]
      by_cases hreset : win.1 + window ≤ now
      · left
        refine ⟨by simp [current, hreset], ?_⟩
        intro win' hwin'
        cases hwin'
        exact hreset
      · right
        exact ⟨win, rfl, by simp [current, hreset], by omega⟩
    · rw [hc]
      left
      refine ⟨rfl, ?_⟩
      intro win' hwin'
      cases hwin'
      omega

/-- One more hit on the key. -/
theorem Counted.hit {window clock maxAttempts now : Int} {c : Counter} {hits : List Record}
    (h : Counted window clock maxAttempts c hits) (hclock : clock ≤ now) (hwindow : 1 ≤ window) (key : String) :
    Counted window now maxAttempts ⟨some ((current c now window).1 + 1), some (current c now window).2⟩
      (hits ++ [⟨key, now,
        Throttle.attempt ((current c now window).1 + 1) (current c now window).2 maxAttempts now⟩]) := by
  obtain ⟨⟨windows, hsplit, hagrees⟩, hanswers, hpast⟩ := h
  -- The window that counts is open, and it closes within its length.
  have hreset : now < (current c now window).2 ∧ (current c now window).2 ≤ now + window := by
    obtain ⟨heq, -⟩ | ⟨win, hlast, heq, hopen⟩ := current_cases hagrees hclock
    · rw [heq]
      constructor <;> simp only <;> omega
    · rw [heq]
      refine ⟨hopen, ?_⟩
      obtain ⟨init, rfl⟩ := List.getLast?_eq_some_iff.1 hlast
      have hwin := hsplit.each win (by simp)
      obtain ⟨r, rest, hcons, htime⟩ := hwin.first
      have : r ∈ hits := by
        rw [hsplit.flatten]
        simp [hcons]
      have := hpast r this
      simp only
      omega
  refine ⟨?_, ?_, ?_⟩
  -- The hit opens a window of its own, or goes into the last.
  · obtain ⟨heq, hover⟩ | ⟨win, hlast, heq, hopen⟩ := current_cases hagrees hclock
    · refine ⟨_, hsplit.opened hwindow ?_ ?_ ?_, ?_⟩
      · exact hover
      · simp [Throttle.attempt, heq]
      · simp [Throttle.attempt, heq]
      · simp [Agrees, heq]
    · obtain ⟨init, rfl⟩ := List.getLast?_eq_some_iff.1 hlast
      refine ⟨_, Split.continued hsplit ?_ ?_ ?_, ?_⟩
      · simp [Throttle.attempt, heq]
      · simp [Throttle.attempt, heq]
      · rw [heq] at hreset
        simp only at hreset ⊢
        omega
      · simp [Agrees, heq]
  · intro r hr
    obtain hr | hr := List.mem_append.1 hr
    · exact hanswers r hr
    · rw [List.mem_singleton.1 hr]
      simp only [Throttle.attempt, decide_eq_true_eq, decide_eq_false_iff_not, true_and]
      intro hdenied
      rw [if_neg hdenied]
      omega
  · intro r hr
    obtain hr | hr := List.mem_append.1 hr
    · have := hpast r hr
      omega
    · rw [List.mem_singleton.1 hr]

/-- Time passes, and the key may be dropped once its window is over. -/
theorem Counted.wait {window clock maxAttempts now : Int} {c c' : Counter} {hits : List Record}
    (h : Counted window clock maxAttempts c hits) (hclock : clock ≤ now)
    (hdrop : c' = c ∨ c' = .absent ∧ ∀ reset ∈ c.reset, reset ≤ now) :
    Counted window now maxAttempts c' hits := by
  obtain ⟨⟨windows, hsplit, hagrees⟩, hanswers, hpast⟩ := h
  refine ⟨⟨windows, hsplit, ?_⟩, hanswers, fun r hr => (hpast r hr).trans hclock⟩
  cases hlast : windows.getLast? with
  | none =>
    rw [hlast] at hagrees
    obtain rfl | ⟨rfl, -⟩ := hdrop
    · exact hagrees
    · rfl
  | some win =>
    rw [hlast] at hagrees
    obtain rfl | ⟨rfl, hreset⟩ := hdrop
    · exact hagrees.imp_right fun ⟨habsent, hover⟩ => ⟨habsent, hover.trans hclock⟩
    · right
      refine ⟨rfl, ?_⟩
      obtain hc | ⟨-, hover⟩ := hagrees
      · exact hreset _ (by rw [hc]; rfl)
      · exact hover.trans hclock

/-! ### Runs -/

section
variable {t : Throttle} {limits : Limits}

/-- The limit and the window of the key pass the check. -/
def Limits.Valid (limits : Limits) (key : String) : Prop := 1 ≤ limits.maxAttempts key ∧ 1 ≤ limits.window key

/-- What is known of a key in a world. -/
def CountedIn (t : Throttle) (limits : Limits) (w : World) (key : String) : Prop :=
  Counted (limits.window key) w.clock (limits.maxAttempts key) (w.store (t.cacheKey key)) (hitsOf key w.history)

theorem cacheKey_injOn {keys : Set String} (hdigest : Set.InjOn t.digest keys) {key key' : String}
    (hkey : key ∈ keys) (hkey' : key' ∈ keys) (h : t.cacheKey key = t.cacheKey key') : key = key' := by
  apply hdigest hkey hkey'
  simpa [Throttle.cacheKey] using h

theorem hit_valid {key : String} (hvalid : limits.Valid key) (now : Int) (s : Store) :
    t.hit true key (limits.maxAttempts key) (limits.window key) now s =
      (.ok (Throttle.attempt ((current (s (t.cacheKey key)) now (limits.window key)).1 + 1)
          (current (s (t.cacheKey key)) now (limits.window key)).2 (limits.maxAttempts key) now),
        Function.update s (t.cacheKey key)
          ⟨some ((current (s (t.cacheKey key)) now (limits.window key)).1 + 1),
            some (current (s (t.cacheKey key)) now (limits.window key)).2⟩) := by
  have hmax : ¬ limits.maxAttempts key < 1 := by
    have := hvalid.1
    omega
  have hwindow : ¬ limits.window key < 1 := by
    have := hvalid.2
    omega
  simp [Throttle.hit, Throttle.assertLimit, hmax, hwindow, hitScript]

/-- A hit on another key, or one that raises, is not seen. -/
theorem hit_other (limits : Limits) {key key' : String} (hne : t.cacheKey key' ≠ t.cacheKey key) (hkey : key' ≠ key) (now : Int)
    (w : World) :
    (w.hit t limits key' now).store (t.cacheKey key) = w.store (t.cacheKey key) ∧
      hitsOf key (w.hit t limits key' now).history = hitsOf key w.history ∧
      (w.hit t limits key' now).clock = now := by
  unfold World.hit
  by_cases hvalid : limits.Valid key'
  · rw [hit_valid hvalid]
    refine ⟨Function.update_of_ne hne.symm _ _, ?_, rfl⟩
    simp [hitsOf, hkey]
  · have hraises : ∃ e, t.hit true key' (limits.maxAttempts key') (limits.window key') now w.store = (.error e, w.store) := by
      unfold Throttle.hit Throttle.assertLimit
      by_cases hmax : limits.maxAttempts key' < 1
      · exact ⟨.badLimit (limits.maxAttempts key'), by simp only [if_pos hmax]⟩
      · by_cases hwindow : limits.window key' < 1
        · exact ⟨.badWindow (limits.window key'), by simp only [if_neg hmax, if_pos hwindow]⟩
        · exact absurd ⟨by omega, by omega⟩ hvalid
    obtain ⟨e, he⟩ := hraises
    rw [he]
    exact ⟨rfl, rfl, rfl⟩

theorem counted_step {keys : Set String} (hdigest : Set.InjOn t.digest keys) {key : String} (hkey : key ∈ keys)
    (hvalid : limits.Valid key) {input : Input} (hinput : ∀ key' now, input = .hit key' now → key' ∈ keys)
    {w : World} (htimely : timely input w) (h : CountedIn t limits w key) :
    CountedIn t limits ((machine t limits).step input w) key := by
  cases input with
  | hit key' now =>
    by_cases heq : key' = key
    · subst heq
      have := Counted.hit h htimely hvalid.2 key'
      simpa [CountedIn, machine, World.hit, hit_valid hvalid, hitsOf, List.filter_append] using this
    · have hne : t.cacheKey key' ≠ t.cacheKey key :=
        fun hsame => heq (cacheKey_injOn hdigest (hinput key' now rfl) hkey hsame)
      obtain ⟨hstore, hhits, hclock⟩ := hit_other limits hne heq now w
      simp only [CountedIn, machine]
      rw [hstore, hhits, hclock]
      exact Counted.wait h htimely (.inl rfl)
  | drop cacheKey now =>
    obtain ⟨hclock, hreset⟩ := htimely
    refine Counted.wait h hclock ?_
    simp only [machine]
    by_cases hsame : t.cacheKey key = cacheKey
    · subst hsame
      exact .inr ⟨Function.update_self .., hreset⟩
    · exact .inl (Function.update_of_ne hsame ..)

theorem counted_run {inputs : List Input} {keys : Set String} (hdigest : Set.InjOn t.digest keys) {key : String}
    (hkey : key ∈ keys) (hvalid : limits.Valid key) (hinputs : keysHit inputs ⊆ keys) {w : World}
    (hr : (machine t limits).Admissible timely w inputs) (h : CountedIn t limits w key) :
    CountedIn t limits ((machine t limits).run w inputs) key := by
  induction inputs generalizing w with
  | nil => exact h
  | cons input rest ih =>
    apply ih _ hr.2
    · apply counted_step hdigest hkey hvalid _ hr.1 h
      rintro key' now rfl
      exact hinputs ⟨now, List.mem_cons_self⟩
    · rintro key' ⟨now, hmem⟩
      exact hinputs ⟨now, List.mem_cons_of_mem _ hmem⟩

theorem counted_start (t : Throttle) (limits : Limits) (clock : Int) (key : String) :
    CountedIn t limits (.start clock) key := by
  refine ⟨⟨[], ⟨rfl, ?_, List.Pairwise.nil⟩, rfl⟩, ?_, ?_⟩
  · intro win hwin
    cases hwin
  · intro r hr
    cases hr
  · intro r hr
    cases hr

end

/-! ### How many are let through -/

/-- The hit was let through in the `window` seconds from `a` on. -/
def letThrough (a window : Int) (r : Record) : Bool := r.attempt.allowed && (a ≤ r.time && r.time < a + window)

theorem countP_allowed_le {window opens maxAttempts : Int} {hits : List Record} (h : IsWindow window opens hits)
    (hmax : 1 ≤ maxAttempts)
    (hallowed : ∀ r ∈ hits, r.attempt.allowed = true ↔ r.attempt.hits ≤ maxAttempts) :
    hits.countP (·.attempt.allowed) ≤ maxAttempts.toNat := by
  have hlate : (hits.drop maxAttempts.toNat).countP (·.attempt.allowed) = 0 := by
    rw [List.countP_eq_zero]
    intro r hr
    rw [hallowed r (List.mem_of_mem_drop hr)]
    obtain ⟨i, hi⟩ := List.mem_iff_getElem?.1 hr
    rw [List.getElem?_drop] at hi
    rw [h.numbered _ r hi]
    omega
  calc hits.countP (·.attempt.allowed)
      = (hits.take maxAttempts.toNat).countP (·.attempt.allowed) := by
        conv_lhs => rw [← List.take_append_drop maxAttempts.toNat hits]
        rw [List.countP_append, hlate, Nat.add_zero]
    _ ≤ (hits.take maxAttempts.toNat).length := List.countP_le_length
    _ ≤ maxAttempts.toNat := by
        rw [List.length_take]
        omega

/-- The windows of a key, with how many hits each let through. -/
structure Limited (window : Int) (bound : Nat) (windows : List (Int × List Record)) : Prop where
  each : ∀ win ∈ windows, IsWindow window win.1 win.2
  apart : windows.Pairwise fun a b => a.1 + window ≤ b.1
  bounded : ∀ win ∈ windows, win.2.countP (·.attempt.allowed) ≤ bound

theorem Limited.tail {window : Int} {bound : Nat} {win : Int × List Record} {rest : List (Int × List Record)}
    (h : Limited window bound (win :: rest)) : Limited window bound rest where
  each win' hwin' := h.each win' (List.mem_cons_of_mem _ hwin')
  apart := (List.pairwise_cons.1 h.apart).2
  bounded win' hwin' := h.bounded win' (List.mem_cons_of_mem _ hwin')

theorem Limited.head_le {window : Int} {bound : Nat} {win : Int × List Record} {rest : List (Int × List Record)}
    (h : Limited window bound (win :: rest)) (a : Int) : win.2.countP (letThrough a window) ≤ bound := by
  refine le_trans (List.countP_mono_left ?_) (h.bounded win List.mem_cons_self)
  intro r _ hr
  simp only [letThrough, Bool.and_eq_true] at hr
  exact hr.1

/-- Windows that open late let nothing through in time. -/
theorem countP_late {window a : Int} {bound : Nat} {windows : List (Int × List Record)}
    (h : Limited window bound windows) (hlate : ∀ win ∈ windows, a + window ≤ win.1) :
    (windows.map Prod.snd).flatten.countP (letThrough a window) = 0 := by
  rw [List.countP_eq_zero]
  intro r hr
  rw [List.mem_flatten] at hr
  obtain ⟨hits, hhits, hr⟩ := hr
  obtain ⟨win, hwin, rfl⟩ := List.mem_map.1 hhits
  have := hlate win hwin
  have := (h.each win hwin).within r hr
  simp only [letThrough, Bool.and_eq_true, decide_eq_true_eq, not_and]
  omega

/-- Of windows that open from `a` on, only the first lets hits through in time. -/
theorem countP_from {window a : Int} {bound : Nat} {windows : List (Int × List Record)}
    (h : Limited window bound windows) (hfrom : ∀ win ∈ windows, a ≤ win.1) :
    (windows.map Prod.snd).flatten.countP (letThrough a window) ≤ bound := by
  cases windows with
  | nil => exact Nat.zero_le _
  | cons win rest =>
    have hlate : ∀ win' ∈ rest, a + window ≤ win'.1 := by
      intro win' hwin'
      have hopen := hfrom win List.mem_cons_self
      have hnext := (List.pairwise_cons.1 h.apart).1 win' hwin'
      omega
    rw [List.map_cons, List.flatten_cons, List.countP_append, countP_late h.tail hlate, Nat.add_zero]
    exact h.head_le a

/-- An interval of the window's length meets two windows at most. -/
theorem countP_interval {window : Int} {bound : Nat} {windows : List (Int × List Record)}
    (h : Limited window bound windows) (a : Int) :
    (windows.map Prod.snd).flatten.countP (letThrough a window) ≤ 2 * bound := by
  induction windows with
  | nil => exact Nat.zero_le _
  | cons win rest ih =>
    rw [List.map_cons, List.flatten_cons, List.countP_append]
    have hrest := ih h.tail
    have hhead := h.head_le a
    by_cases hzero : win.2.countP (letThrough a window) = 0
    · omega
    · -- A hit of this window is in the interval, so the windows after it open from `a` on.
      obtain ⟨r, hr, hthrough⟩ := List.countP_pos_iff.1 (Nat.pos_of_ne_zero hzero)
      simp only [letThrough, Bool.and_eq_true, decide_eq_true_eq] at hthrough
      have hwithin := (h.each win List.mem_cons_self).within r hr
      have hfrom : ∀ win' ∈ rest, a ≤ win'.1 := by
        intro win' hwin'
        have := (List.pairwise_cons.1 h.apart).1 win' hwin'
        omega
      have := countP_from h.tail hfrom
      omega

/-- A denied hit was counted in a window that was open: its reset stays, as does every other key. -/
theorem denied_keeps {t : Throttle} {limits : Limits} {w : World} {key : String} (hvalid : limits.Valid key)
    (h : CountedIn t limits w key) {now : Int} (hclock : w.clock ≤ now) {attempt : Attempt} {s : Store}
    (hhit : t.hit true key (limits.maxAttempts key) (limits.window key) now w.store = (.ok attempt, s))
    (hdenied : attempt.allowed = false) :
    (s (t.cacheKey key)).reset = (w.store (t.cacheKey key)).reset ∧
      ∀ other, other ≠ t.cacheKey key → s other = w.store other := by
  rw [hit_valid hvalid] at hhit
  cases hhit
  refine ⟨?_, fun other hother => Function.update_of_ne hother _ _⟩
  rw [Function.update_self]
  have hmax := hvalid.1
  obtain ⟨⟨windows, -, hagrees⟩, -, -⟩ := h
  obtain ⟨heq, -⟩ | ⟨win, hlast, heq, hopen⟩ := current_cases hagrees hclock
  · -- The first hit of a window is let through.
    simp only [Throttle.attempt, heq, decide_eq_false_iff_not] at hdenied
    omega
  · rw [hlast] at hagrees
    obtain hc | ⟨-, hover⟩ := hagrees
    · rw [heq, hc]
    · omega

/-- **The throttle never lets more than the allowance through.** -/
theorem allowance_kept (t : Throttle) (limits : Limits) (clock : Int) (inputs : List Input)
    (hdigest : Set.InjOn t.digest (keysHit inputs))
    (hr : (machine t limits).Admissible timely (.start clock) inputs) (key : String) (hkey : key ∈ keysHit inputs)
    (hvalid : limits.Valid key) (w : World) (hw : w = (machine t limits).run (.start clock) inputs) :
    (∃ windows, Split (limits.window key) (hitsOf key w.history) windows ∧
      ∀ win ∈ windows, win.2.countP (·.attempt.allowed) ≤ (limits.maxAttempts key).toNat) ∧
    (∀ r ∈ hitsOf key w.history, (r.attempt.allowed = true ↔ r.attempt.hits ≤ limits.maxAttempts key) ∧
      (r.attempt.allowed = false → 0 < r.attempt.retryAfter ∧ r.attempt.retryAfter ≤ limits.window key)) ∧
    (∀ a, (hitsOf key w.history).countP (letThrough a (limits.window key)) ≤ 2 * (limits.maxAttempts key).toNat) ∧
    ∀ now attempt s, w.clock ≤ now →
      t.hit true key (limits.maxAttempts key) (limits.window key) now w.store = (.ok attempt, s) →
      attempt.allowed = false →
      (s (t.cacheKey key)).reset = (w.store (t.cacheKey key)).reset ∧
        ∀ other, other ≠ t.cacheKey key → s other = w.store other := by
  subst hw
  have h := counted_run hdigest hkey hvalid (fun _ hmem => hmem) hr (counted_start t limits clock key)
  generalize (machine t limits).run (.start clock) inputs = w at h
  obtain ⟨windows, hsplit, -⟩ := h.split
  have hlimited : Limited (limits.window key) (limits.maxAttempts key).toNat windows := by
    refine ⟨hsplit.each, hsplit.apart, ?_⟩
    intro win hwin
    apply countP_allowed_le (hsplit.each win hwin) hvalid.1
    intro r hmem
    refine (h.answers r ?_).1
    rw [hsplit.flatten, List.mem_flatten]
    exact ⟨win.2, List.mem_map_of_mem hwin, hmem⟩
  refine ⟨⟨windows, hsplit, hlimited.bounded⟩, h.answers, ?_, ?_⟩
  · intro a
    rw [hsplit.flatten]
    exact countP_interval hlimited a
  · intro now attempt s hclock hhit hdenied
    exact denied_keeps hvalid h hclock hhit hdenied

/-- One attempt in ten seconds. -/
def onceInTen : Limits := ⟨fun _ => 1, fun _ => 10⟩

/-- SHA-256 of the one key that is hit. -/
def annaDigest : String := "69aef9200aaeb73e0dc831fa48b0a116050a5d0590259f2a11884abe555ef9ff"

def annaThrottle : Throttle := ⟨"throttle:", true, fun key => if key = "login:anna" then annaDigest else key⟩

/-- Two hits in the first window, the key dropped at its reset, one hit in the next. -/
def threeHits : List Input :=
  [.hit "login:anna" 100, .hit "login:anna" 109, .drop ("throttle:" ++ annaDigest) 110, .hit "login:anna" 110]

theorem threeHits_allowance :
    ∃ w, w = (machine annaThrottle onceInTen).run (.start 0) threeHits ∧
      (hitsOf "login:anna" w.history).map (fun r => (r.attempt.hits, r.attempt.allowed, r.attempt.resetAt)) =
        [(1, true, 110), (2, false, 110), (1, true, 120)] ∧
      ∀ a, (hitsOf "login:anna" w.history).countP (letThrough a 10) ≤ 2 := by
  have honly : ∀ key ∈ keysHit threeHits, key = "login:anna" := by
    rintro key ⟨now, hmem⟩
    simp only [threeHits, List.mem_cons, Input.hit.injEq, List.not_mem_nil, reduceCtorEq, or_false, false_or] at hmem
    obtain ⟨h, -⟩ | ⟨h, -⟩ | ⟨h, -⟩ := hmem
    · exact h
    · exact h
    · exact h
  have hdigest : Set.InjOn annaThrottle.digest (keysHit threeHits) := by
    intro key hkey key' hkey' _
    rw [honly key hkey, honly key' hkey']
  have h := allowance_kept annaThrottle onceInTen 0 threeHits hdigest (by decide +kernel) "login:anna"
    ⟨100, List.mem_cons_self⟩ ⟨by decide, by decide⟩ _ rfl
  exact ⟨_, rfl, by decide +kernel, h.2.2.1⟩

end PyAppRunner.Throttling
