import PyAppRunner.Crypto.Rotate

/-! `cmd_rotate` on a table nobody else writes to.

The rows it is through with are those up to the cursor; the page it works on holds the
next ones as they stand (`Progress`). So the command ends, and when it ends well it has
been at every row once, nothing is left under another key, a second run has nothing to
do (`Idle`), and a `--dry-run` before it counts the same rows. -/
namespace PyAppRunner.Crypto
open Base FieldCrypto

section
variable {ι : Type} [LinearOrder ι]

/-! ### Without the application -/

/-- The command alone. -/
def command (p : Params) : Machine (World ι) (Answer × Nonce) where
  step input w := w.step p input.1 input.2

/-- With nobody else about, a run is a run of the command's own statements. -/
theorem run_steps (p : Params) (w : World ι) (steps : List (Answer × Nonce)) :
    (machine p).run w (steps.map fun s => .step s.1 s.2) = (command p).run w steps := by
  induction steps generalizing w with
  | nil => rfl
  | cons s rest ih => exact ih _

/-- The command has given up. -/
def Failed (w : World ι) : Prop := ∃ exit, w.rotation.pc = .done exit ∧ exit ≠ .code 0

/-- A rotation that was answered by an error is over. -/
theorem failed_step {p : Params} {w : World ι} (input : Answer × Nonce) (h : Failed w) :
    (command p).step input w = w := by
  obtain ⟨exit, hpc, -⟩ := h
  simp only [command, World.step, hpc]

/-- The rows after those visited: first the ones of the page that are left, as they were read,
and none beyond them if the page was short. -/
def Left (t : Table ι) (visited : List ι) (rows : List (ι × Option String)) (short : Bool) : Prop :=
  ∃ rest, t.ids = visited ++ (rows.map Prod.fst ++ rest) ∧ (short = true → rest = []) ∧
    ∀ row ∈ rows, row.2 = t.value row.1

/-- What has become of a row the command is through with. -/
structure Past (p : Params) (current : String) (before now : Option String) : Prop where
  readable : ∃ found, keyIdOf before = .ok found
  same : stale current before = false ∨ p.dryRun = true → now = before
  moved : stale current before = true → p.dryRun = false → keyIdOf now = .ok (some current)

/-- What the place in the program says of the variables. -/
def Place (p : Params) (t : Table ι) (r : Rotation ι) : Prop :=
  match r.pc with
  | .read => (∃ rest, t.ids = r.visited ++ rest) ∧ r.cursor = r.visited.getLast? ∧ r.seen = r.visited.length
  | .scan rows short =>
    Left t r.visited rows short ∧ r.cursor = r.visited.getLast? ∧ r.seen = r.visited.length
  | .write i value fresh rows short =>
    Left t r.visited ((i, some value) :: rows) short ∧ r.cursor = some i ∧ r.seen = r.visited.length + 1 ∧
      p.dryRun = false ∧ stale r.current (some value) = true ∧ keyIdOf (some fresh) = .ok (some r.current)
  | .done _ =>
    r.visited = t.ids ∧ .read t.ids.length ∈ r.lines ∧
      (if p.dryRun then Line.wouldBeReencrypted r.rotated else .reencrypted r.rotated) ∈ r.lines

/-- How far the command has come on a table nobody else writes to. -/
structure Progress (p : Params) (current : String) (t : Table ι) (w : World ι) : Prop where
  current_eq : w.rotation.current = current
  ids : w.table.ids = t.ids
  later : ∀ i, i ∉ w.rotation.visited → w.table.value i = t.value i
  past : ∀ i ∈ w.rotation.visited, Past p current (t.value i) (w.table.value i)
  rotated : w.rotation.rotated = w.rotation.visited.countP fun i => stale current (t.value i)
  changed : w.rotation.changed = 0
  place : Place p t w.rotation

/-- After the last visited row come the rows that are not visited. -/
theorem after_getLast {t : Table ι} {visited rest : List ι} (h : t.ids = visited ++ rest) :
    t.after visited.getLast? = rest := by
  have hsorted := t.sorted
  rw [h, List.pairwise_append] at hsorted
  obtain ⟨hvisited, -, hcross⟩ := hsorted
  cases hlast : visited.getLast? with
  | none =>
    rw [List.getLast?_eq_none_iff] at hlast
    rw [Table.after, h, hlast, List.nil_append]
  | some last =>
    obtain ⟨init, rfl⟩ := List.getLast?_eq_some_iff.1 hlast
    rw [List.pairwise_append] at hvisited
    have hbefore : ∀ i ∈ init ++ [last], ¬ last < i := by
      intro i hi
      obtain hi | hi := List.mem_append.1 hi
      · exact not_lt_of_gt (hvisited.2.2 i hi last (List.mem_singleton_self _))
      · rw [List.mem_singleton.1 hi]
        exact lt_irrefl last
    have hafter : ∀ i ∈ rest, last < i := by
      intro i hi
      exact hcross last (by simp) i hi
    rw [Table.after, h, List.filter_append, List.filter_eq_nil_iff.2, List.filter_eq_self.2, List.nil_append]
    · simpa using hafter
    · simpa using hbefore

/-- A row comes up once. -/
theorem notMem_of_left {t : Table ι} {visited rest : List ι} (h : t.ids = visited ++ rest) {i : ι}
    (hi : i ∈ rest) : i ∉ visited := by
  intro hv
  have hsorted := t.sorted
  rw [h, List.pairwise_append] at hsorted
  exact lt_irrefl i (hsorted.2.2 i hv i hi)

/-- The page that is read holds the next rows. -/
theorem left_of_page {p : Params} {t : Table ι} {w : World ι} {visited rest : List ι}
    (hids : w.table.ids = t.ids) (hlater : ∀ i, i ∉ visited → w.table.value i = t.value i)
    (h : t.ids = visited ++ rest) :
    Left t visited (w.table.page visited.getLast? p.batch.toNat)
      (decide ((w.table.page visited.getLast? p.batch.toNat).length < p.batch.toNat)) := by
  have hafter : w.table.after visited.getLast? = rest := after_getLast (hids.trans h)
  refine ⟨rest.drop p.batch.toNat, ?_, ?_, ?_⟩
  · simp [Table.page, hafter, List.map_map, Function.comp_def, h]
  · intro hshort
    simp only [Table.page, hafter, List.length_map, List.length_take, decide_eq_true_eq] at hshort
    apply List.drop_eq_nil_of_le
    omega
  · intro row hrow
    simp only [Table.page, hafter, List.mem_map] at hrow
    obtain ⟨i, hi, rfl⟩ := hrow
    exact hlater i (notMem_of_left h (List.mem_of_mem_take hi))

/-- One row is done with, the others stand as before. -/
theorem left_tail {t : Table ι} {visited : List ι} {i : ι} {value : Option String}
    {rows : List (ι × Option String)} {short : Bool} (h : Left t visited ((i, value) :: rows) short) :
    Left t (visited ++ [i]) rows short ∧ value = t.value i ∧ i ∉ visited ∧ i ∈ t.ids := by
  obtain ⟨rest, hids, hshort, hvalues⟩ := h
  refine ⟨⟨rest, by simpa using hids, hshort, ?_⟩, hvalues _ List.mem_cons_self, ?_, by simp [hids]⟩
  · intro row hrow
    exact hvalues row (List.mem_cons_of_mem _ hrow)
  · apply notMem_of_left hids
    simp

/-- The command moves on to the next row of the page. -/
theorem progress_next {p : Params} {current : String} {t : Table ι} {w : World ι} (h : Progress p current t w)
    {i : ι} {value : Option String} {rows : List (ι × Option String)} {short : Bool}
    (hleft : Left t w.rotation.visited ((i, value) :: rows) short) {r : Rotation ι} {table : Table ι}
    (hcurrent : r.current = current) (hvisited : r.visited = w.rotation.visited) (hcursor : r.cursor = some i)
    (hseen : r.seen = w.rotation.visited.length + 1) (hchanged : r.changed = 0)
    (hrotated : r.rotated = w.rotation.rotated + if stale current value then 1 else 0)
    (hids : table.ids = w.table.ids) (hothers : ∀ j, j ≠ i → table.value j = w.table.value j)
    (hpast : Past p current value (table.value i)) :
    Progress p current t ⟨table, w.said, r.next i rows short⟩ := by
  obtain ⟨htail, rfl, hnew, -⟩ := left_tail hleft
  have hmem : ∀ j, j ∈ r.visited ++ [i] ↔ j ∈ w.rotation.visited ∨ j = i := by simp [hvisited]
  refine ⟨hcurrent, hids.trans h.ids, ?_, ?_, ?_, hchanged, ?_⟩
  · intro j hj
    simp only [Rotation.next, hmem, not_or] at hj
    rw [hothers j hj.2, h.later j hj.1]
  · intro j hj
    simp only [Rotation.next, hmem] at hj
    by_cases hji : j = i
    · subst hji
      exact hpast
    · rw [hothers j hji]
      exact h.past j (hj.resolve_right hji)
  · simp [Rotation.next, hrotated, hvisited, h.rotated, List.countP_append, List.countP_cons]
  · simp [Place, Rotation.next, hvisited, hcursor, hseen, htail]

theorem past_skip {p : Params} {current : String} {value : Option String}
    (h : keyIdOf value = .ok none ∨ keyIdOf value = .ok (some current)) :
    stale current value = false ∧ Past p current value value := by
  have hstale : stale current value = false := by
    obtain h | h := h
    · simp [stale, h]
    · simp [stale, h]
  refine ⟨hstale, ?_, fun _ => rfl, ?_⟩
  · obtain h | h := h
    · exact ⟨_, h⟩
    · exact ⟨_, h⟩
  · intro hs
    rw [hstale] at hs
    cases hs

/-- What is to be rotated has a key id that can be read. -/
theorem readable_of_stale {current : String} {value : Option String} (h : stale current value = true) :
    ∃ found, keyIdOf value = .ok found := by
  unfold stale at h
  split at h
  · next hkey => exact ⟨_, hkey⟩
  · cases h

/-- One row: it is sealed under the current key, left as it is, or the rotation fails on it. -/
theorem progress_row {p : Params} (inverts : p.aead.Inverts) {current : String}
    (hcurrent : isKeyId current.toList) {t : Table ι} {w : World ι} (h : Progress p current t w) {nonce : Nonce}
    {i : ι} {value : Option String} {rows : List (ι × Option String)} {short : Bool} {r : Rotation ι}
    (hpc : w.rotation.pc = .scan ((i, value) :: rows) short)
    (hends : RowEnds p nonce w.rotation i value rows short r) :
    Failed { w with rotation := r } ∨ Progress p current t { w with rotation := r } := by
  have hplace := h.place
  simp only [Place, hpc] at hplace
  obtain ⟨hleft, -, hseen⟩ := hplace
  obtain ⟨-, hvalue, hnew, -⟩ := left_tail hleft
  have hnow : w.table.value i = value := by rw [h.later i hnew, hvalue]
  cases hends with
  | skip plaintext hkey =>
    rw [h.current_eq] at hkey
    obtain ⟨hstale, hpast⟩ := past_skip (p := p) hkey
    right
    refine progress_next h hleft h.current_eq rfl rfl ?_ h.changed ?_ rfl (fun _ _ => rfl) (hnow ▸ hpast)
    · simp [hseen]
    · simp [hstale]
  | count hdry hstale =>
    rw [h.current_eq] at hstale
    right
    refine progress_next h hleft h.current_eq rfl rfl ?_ h.changed ?_ rfl (fun _ _ => rfl) ?_
    · simp [hseen]
    · simp [hstale]
    · rw [hnow]
      refine ⟨readable_of_stale hstale, fun _ => rfl, ?_⟩
      intro _ hreal
      rw [hdry] at hreal
      cases hreal
  | stop lines exit hexit hwhy => exact .inl ⟨exit, rfl, hexit⟩
  | write text fresh said hdry htext hstale hdecrypt hencrypt =>
    subst htext
    right
    rw [h.current_eq] at hstale hencrypt
    obtain ⟨k, key, hk, hkey, -⟩ := of_encrypt hencrypt
    obtain ⟨v, hv, -, hfresh⟩ := decrypt_encrypt hk hkey (inverts key nonce.val _ (aad k))
    obtain rfl : v = fresh := Except.ok.inj (hv.symm.trans hencrypt)
    obtain rfl : current = k := Except.ok.inj ((chosen_some hcurrent).symm.trans hk)
    refine ⟨h.current_eq, h.ids, h.later, h.past, h.rotated, h.changed, ?_⟩
    simp only [Place, h.current_eq]
    exact ⟨hleft, trivial, by rw [hseen], hdry, hstale, hfresh⟩

/-- Every row has been visited when the command comes to its end. -/
theorem visited_all {p : Params} (hbatch : 1 ≤ p.batch) {current : String} {t : Table ι} {w : World ι}
    (h : Progress p current t w)
    (hend : w.rotation.pc = .read ∧ w.table.page w.rotation.cursor p.batch.toNat = [] ∨
      w.rotation.pc = .scan [] true) :
    w.rotation.visited = t.ids ∧ w.rotation.seen = w.rotation.visited.length := by
  have hplace := h.place
  obtain ⟨hpc, hpage⟩ | hpc := hend
  · simp only [Place, hpc] at hplace
    obtain ⟨⟨rest, hrest⟩, hcursor, hseen⟩ := hplace
    rw [hcursor, Table.page, List.map_eq_nil_iff, after_getLast (h.ids.trans hrest), List.take_eq_nil_iff] at hpage
    have hnil : rest = [] := hpage.resolve_left (by omega)
    rw [hrest, hnil, List.append_nil]
    exact ⟨rfl, hseen⟩
  · simp only [Place, hpc] at hplace
    obtain ⟨⟨rest, hrest, hshort, -⟩, -, hseen⟩ := hplace
    rw [hrest, hshort rfl]
    simpa using hseen

/-- **One statement**, answered by a result or by an error. -/
theorem progress_step {p : Params} (inverts : p.aead.Inverts) (hbatch : 1 ≤ p.batch) {current : String}
    (hcurrent : isKeyId current.toList) {t : Table ι} {w : World ι} (input : Answer × Nonce)
    (h : Progress p current t w) :
    Failed ((command p).step input w) ∨ Progress p current t ((command p).step input w) := by
  have hends := step_ends p input.1 input.2 w
  have hplace := h.place
  simp only [command]
  generalize w.step p input.1 input.2 = w' at hends
  -- A result takes the rotation on, and an error ends it. The statement on a row has a lemma of its own.
  cases hends with
  | stay hpc => exact .inr h
  | finish hend =>
    right
    obtain ⟨hall, hseen⟩ := visited_all hbatch h hend
    refine ⟨h.current_eq, h.ids, h.later, h.past, h.rotated, h.changed, ?_⟩
    simp [Place, Rotation.finish, hall, hseen]
  | unread hanswer hpc => exact .inl ⟨_, rfl, by decide⟩
  | load hpc hrows hne =>
    right
    simp only [Place, hpc] at hplace
    obtain ⟨⟨rest, hrest⟩, hcursor, hseen⟩ := hplace
    refine ⟨h.current_eq, h.ids, h.later, h.past, h.rotated, h.changed, ?_⟩
    rw [hcursor] at hrows
    have hleft := left_of_page (p := p) h.ids h.later hrest
    rw [← hrows] at hleft
    exact ⟨hleft, hcursor, hseen⟩
  | turn hpc =>
    right
    simp only [Place, hpc] at hplace
    obtain ⟨⟨rest, hrest, -, -⟩, hcursor, hseen⟩ := hplace
    exact ⟨h.current_eq, h.ids, h.later, h.past, h.rotated, h.changed, ⟨rest, by simpa using hrest⟩, hcursor, hseen⟩
  | row hpc hends => exact progress_row inverts hcurrent h hpc hends
  | @updated i value fresh rows short hpc hmatch =>
    right
    simp only [Place, hpc] at hplace
    obtain ⟨hleft, hcursor, hseen, hdry, hstale, hfresh⟩ := hplace
    rw [h.current_eq] at hstale hfresh
    refine progress_next h hleft h.current_eq rfl hcursor hseen h.changed ?_ rfl ?_ ?_
    · simp [hstale]
    · intro j hj
      exact Function.update_of_ne hj _ _
    · simp only [Table.set, Function.update_self]
      refine ⟨readable_of_stale hstale, ?_, fun _ _ => hfresh⟩
      simp [hstale, hdry]
  | passed hpc hmatch =>
    -- Alone, no row changes between its read and its write, so the write matches.
    exfalso
    simp only [Place, hpc] at hplace
    obtain ⟨-, hvalue, hnew, hmem⟩ := left_tail hplace.1
    simp only [World.matching, decide_eq_false_iff_not] at hmatch
    exact hmatch ⟨h.ids ▸ hmem, by rw [h.later _ hnew, ← hvalue]⟩
  | failed hanswer hpc => exact .inl ⟨_, rfl, by decide⟩
  | lost hanswer hpc => exact .inl ⟨_, rfl, by decide⟩

/-- At the start nothing is visited and everything is left. -/
theorem progress_start {p : Params} {current : String} {lines : List (Line ι)} (t : Table ι)
    (hbegin : p.begin = Rotation.new current lines .read) : Progress p current t (start p t) := by
  rw [start, hbegin]
  refine ⟨rfl, rfl, fun _ _ => rfl, ?_, rfl, rfl, ⟨t.ids, rfl⟩, rfl, rfl⟩
  intro i hi
  cases hi

/-- An undisturbed command has failed or gets on. -/
theorem progress_run {p : Params} (inverts : p.aead.Inverts) (hbatch : 1 ≤ p.batch) {current : String}
    (hcurrent : isKeyId current.toList) {t : Table ι} {w : World ι} (h : Progress p current t w)
    (steps : List (Answer × Nonce)) :
    Failed ((command p).run w steps) ∨ Progress p current t ((command p).run w steps) := by
  apply Machine.invariant_all (I := fun w => Failed w ∨ Progress p current t w)
  · intro input w h
    obtain h | h := h
    · exact .inl ((failed_step input h).symm ▸ h)
    · exact progress_step inverts hbatch hcurrent input h
  · exact .inr h

/-! ### The end of a run -/

/-- How many steps are left at most. -/
def stepsLeft (t : Table ι) (r : Rotation ι) : Nat :=
  match r.pc with
  | .read => 4 * (t.ids.length - r.visited.length) + 1
  | .scan [] _ => 4 * (t.ids.length - r.visited.length) + 2
  | .scan (_ :: _) _ => 4 * (t.ids.length - r.visited.length)
  | .write .. => 4 * (t.ids.length - r.visited.length) - 1
  | .done _ => 0

/-- The command has exited. -/
def Done (w : World ι) : Prop := ∃ exit, w.rotation.pc = .done exit

/-- Where a row is left, not all of them are visited. -/
theorem length_left {t : Table ι} {visited : List ι} {row : ι × Option String}
    {rows : List (ι × Option String)} {short : Bool} (h : Left t visited (row :: rows) short) :
    visited.length < t.ids.length := by
  obtain ⟨rest, hids, -⟩ := h
  rw [hids]
  simp

theorem stepsLeft_next (t : Table ι) (r : Rotation ι) (i : ι) (rows : List (ι × Option String)) (short : Bool) :
    stepsLeft t (r.next i rows short) ≤ 4 * (t.ids.length - (r.visited.length + 1)) + 2 := by
  cases rows <;> simp [stepsLeft, Rotation.next]

/-- Each statement takes one off the steps that are left, or is the last. -/
theorem stepsLeft_step {p : Params} {current : String} {t : Table ι} {w : World ι} (input : Answer × Nonce)
    (h : Progress p current t w) (hpc : ¬ Done w) :
    Done ((command p).step input w) ∨
      stepsLeft t ((command p).step input w).rotation < stepsLeft t w.rotation := by
  have hends := step_ends p input.1 input.2 w
  have hplace := h.place
  simp only [command]
  generalize w.step p input.1 input.2 = w' at hends
  -- Four steps are reckoned for each row that is not visited yet, which is more than a row takes.
  cases hends with
  | stay hdone => exact absurd ⟨_, hdone⟩ hpc
  | finish => exact .inl ⟨_, rfl⟩
  | unread => exact .inl ⟨_, rfl⟩
  | failed => exact .inl ⟨_, rfl⟩
  | lost => exact .inl ⟨_, rfl⟩
  | load hread hrows hne =>
    right
    obtain ⟨row, rest, rfl⟩ := List.exists_cons_of_ne_nil hne
    simp only [stepsLeft, hread]
    omega
  | turn hscan =>
    right
    simp only [stepsLeft, hscan]
    omega
  | @row i value rows short r hscan hends =>
    simp only [Place, hscan] at hplace
    have hless := length_left hplace.1
    have hbefore : stepsLeft t w.rotation = 4 * (t.ids.length - w.rotation.visited.length) := by
      simp only [stepsLeft, hscan]
    cases hends with
    | skip plaintext =>
      right
      have := stepsLeft_next t { w.rotation with seen := w.rotation.seen + 1, cursor := some i, plaintext := plaintext } i
        rows short
      simp only at this ⊢
      omega
    | count =>
      right
      have := stepsLeft_next t
        { w.rotation with seen := w.rotation.seen + 1, cursor := some i, rotated := w.rotation.rotated + 1 } i rows short
      simp only at this ⊢
      omega
    | stop => exact .inl ⟨_, rfl⟩
    | write =>
      right
      simp only [stepsLeft] at hbefore ⊢
      omega
  | @updated i value fresh rows short hwrite hmatch =>
    right
    simp only [Place, hwrite] at hplace
    have hless := length_left hplace.1
    have := stepsLeft_next t { w.rotation with rotated := w.rotation.rotated + 1 } i rows short
    have hbefore : stepsLeft t w.rotation = 4 * (t.ids.length - w.rotation.visited.length) - 1 := by
      simp only [stepsLeft, hwrite]
    simp only at this ⊢
    omega
  | @passed i value fresh rows short hwrite hmatch =>
    right
    simp only [Place, hwrite] at hplace
    have hless := length_left hplace.1
    have := stepsLeft_next t { w.rotation with changed := w.rotation.changed + 1 } i rows short
    have hbefore : stepsLeft t w.rotation = 4 * (t.ids.length - w.rotation.visited.length) - 1 := by
      simp only [stepsLeft, hwrite]
    simp only at this ⊢
    omega

/-- After its exit the command sends nothing. -/
theorem done_step {p : Params} {w : World ι} (input : Answer × Nonce) (h : Done w) :
    Done ((command p).step input w) := by
  obtain ⟨exit, hpc⟩ := h
  refine ⟨exit, ?_⟩
  simp only [command, World.step, hpc]

/-- An undisturbed command ends. -/
theorem terminates {p : Params} (inverts : p.aead.Inverts) (t : Table ι) {steps : List (Answer × Nonce)}
    (hlong : 4 * t.ids.length + 1 ≤ steps.length) : Done ((command p).run (start p t) steps) := by
  obtain ⟨exit, hpc, -⟩ | ⟨current, -, hcurrent, hbatch, hbegin⟩ := begin_cases (ι := ι) p
  · exact Machine.invariant_all (I := Done) (fun input w h => done_step input h) ⟨exit, hpc⟩ steps
  · apply Machine.done_of_measure (I := fun w => Failed w ∨ Progress p current t w)
      (μ := fun w => stepsLeft t w.rotation)
    · intro input w h
      obtain h | h := h
      · exact .inl ((failed_step input h).symm ▸ h)
      · exact progress_step inverts hbatch hcurrent input h
    · exact fun input w h => done_step input h
    · intro input w h hpc
      obtain ⟨exit, hdone, -⟩ | h := h
      · exact absurd ⟨exit, hdone⟩ hpc
      · exact stepsLeft_step input h hpc
    · intro w h hzero
      obtain ⟨exit, hdone, -⟩ | h := h
      · exact ⟨exit, hdone⟩
      · have hplace := h.place
        unfold stepsLeft at hzero
        split at hzero
        · cases hzero
        · cases hzero
        · next hscan =>
          simp only [Place, hscan] at hplace
          have := length_left hplace.1
          omega
        · next hwrite =>
          simp only [Place, hwrite] at hplace
          have := length_left hplace.1
          omega
        · next hdone => exact ⟨_, hdone⟩
    · exact .inr (progress_start t (hbegin p.dryRun))
    · simp only [start, hbegin p.dryRun, Rotation.new, stepsLeft, List.length_nil]
      omega

/-! ### What an undisturbed run leaves -/

/-- An exit code 0 says that the rotation was begun, and got through. -/
theorem progress_of_done {p : Params} (inverts : p.aead.Inverts) {t : Table ι} {steps : List (Answer × Nonce)}
    (hdone : ((command p).run (start p t) steps).rotation.pc = .done (.code 0)) :
    ∃ current, p.crypto.currentKeyId = .ok current ∧ isKeyId current.toList ∧ 1 ≤ p.batch ∧
      (∀ dryRun, Params.begin { p with dryRun := dryRun } =
        Rotation.new (ι := ι) current [.rotating current dryRun] .read) ∧
      Progress p current t ((command p).run (start p t) steps) := by
  obtain ⟨exit, hpc, hexit⟩ | ⟨current, hkey, hcurrent, hbatch, hbegin⟩ := begin_cases (ι := ι) p
  · exfalso
    have hfailed : Failed ((command p).run (start p t) steps) :=
      Machine.invariant_all (I := Failed) (fun input w h => (failed_step input h).symm ▸ h)
        ⟨exit, hpc, hexit⟩ steps
    obtain ⟨exit', hpc', hexit'⟩ := hfailed
    rw [hdone] at hpc'
    cases hpc'
    exact hexit' rfl
  · refine ⟨current, hkey, hcurrent, hbatch, hbegin, ?_⟩
    obtain ⟨exit, hpc, hexit⟩ | h := progress_run inverts hbatch hcurrent (progress_start t (hbegin p.dryRun)) steps
    · rw [hdone] at hpc
      cases hpc
      exact absurd rfl hexit
    · exact h

/-- A row that is through, and was not only counted, is not stale. -/
theorem Past.current {p : Params} {current : String} {before now : Option String} (h : Past p current before now)
    (hreal : p.dryRun = false) : keyIdOf now = .ok none ∨ keyIdOf now = .ok (some current) := by
  cases hstale : stale current before with
  | true => exact .inr (h.moved hstale hreal)
  | false =>
    rw [h.same (.inl hstale)]
    obtain ⟨found, hfound⟩ := h.readable
    cases found with
    | none => exact .inl hfound
    | some found =>
      simp only [stale, hfound, ne_eq, decide_not, Bool.not_eq_false', decide_eq_true_eq] at hstale
      exact .inr (hstale ▸ hfound)

/-- The rows that changed are those that were stale. -/
theorem Past.changed_iff {p : Params} {current : String} {before now : Option String}
    (h : Past p current before now) (hreal : p.dryRun = false) :
    now ≠ before ↔ stale current before = true := by
  cases hstale : stale current before with
  | false => simp [h.same (.inl hstale)]
  | true =>
    simp only [ne_eq, iff_true]
    rintro rfl
    simp [stale, h.moved hstale hreal] at hstale

/-- The command has nothing to update in sight. -/
def Quiet (current : String) : Pc ι → Prop
  | .scan rows _ => ∀ row ∈ rows, stale current row.2 = false
  | .write .. => False
  | _ => True

/-- The command has done nothing to a table. -/
structure Idle (current : String) (t : Table ι) (w : World ι) : Prop where
  table : w.table = t
  current_eq : w.rotation.current = current
  rotated : w.rotation.rotated = 0
  quiet : Quiet current w.rotation.pc

/-- With nothing stale, the rows are read and none is written. -/
theorem idle_step {p : Params} {current : String} {t : Table ι}
    (hfresh : ∀ i ∈ t.ids, stale current (t.value i) = false) (input : Answer × Nonce) (w : World ι)
    (h : Idle current t w) : Idle current t ((command p).step input w) := by
  have hends := step_ends p input.1 input.2 w
  simp only [command]
  generalize w.step p input.1 input.2 = w' at hends
  cases hends with
  | stay => exact h
  | finish => exact ⟨h.table, h.current_eq, h.rotated, trivial⟩
  | unread => exact ⟨h.table, h.current_eq, h.rotated, trivial⟩
  | turn => exact ⟨h.table, h.current_eq, h.rotated, trivial⟩
  -- The rows of a page are rows of the table, none of which is stale.
  | load hpc hrows hne =>
    refine ⟨h.table, h.current_eq, h.rotated, ?_⟩
    intro row hrow
    rw [hrows, Table.page, List.mem_map] at hrow
    obtain ⟨i, hi, rfl⟩ := hrow
    rw [h.table] at hi ⊢
    apply hfresh
    have hafter := List.mem_of_mem_take hi
    cases hcursor : w.rotation.cursor with
    | none => simpa [hcursor, Table.after] using hafter
    | some cursor =>
      rw [hcursor, Table.after, List.mem_filter] at hafter
      exact hafter.1
  | @row i value rows short r hscan hends =>
    have hrows := h.quiet
    rw [hscan] at hrows
    have hvalue := hrows _ List.mem_cons_self
    have htail : ∀ row ∈ rows, stale current row.2 = false := by
      intro row hrow
      exact hrows row (List.mem_cons_of_mem _ hrow)
    cases hends with
    | skip => exact ⟨h.table, h.current_eq, h.rotated, htail⟩
    | stop => exact ⟨h.table, h.current_eq, h.rotated, trivial⟩
    | count hdry hstale =>
      rw [h.current_eq, hvalue] at hstale
      cases hstale
    | write text fresh said hdry htext hstale =>
      rw [h.current_eq, hvalue] at hstale
      cases hstale
  | updated hpc => exact absurd h.quiet (by rw [hpc]; exact id)
  | passed hpc => exact absurd h.quiet (by rw [hpc]; exact id)
  | failed hanswer hpc => exact absurd h.quiet (by rw [hpc]; exact id)
  | lost hanswer hpc => exact absurd h.quiet (by rw [hpc]; exact id)

theorem idle_run {p : Params} {current : String} {lines : List (Line ι)} {t : Table ι}
    (hbegin : p.begin = Rotation.new current lines .read)
    (hfresh : ∀ i ∈ t.ids, stale current (t.value i) = false) (steps : List (Answer × Nonce)) :
    Idle current t ((command p).run (start p t) steps) := by
  apply Machine.invariant_all (idle_step hfresh)
  rw [start, hbegin]
  exact ⟨rfl, rfl, rfl, trivial⟩

/-- `--dry-run` does not give up on a table whose key ids can all be read. -/
theorem dry_step {p : Params} (hdry : p.dryRun = true) {current : String} {t : Table ι}
    (hreadable : ∀ i ∈ t.ids, ∃ found, keyIdOf (t.value i) = .ok found) {w : World ι} (nonce : Nonce)
    (h : Progress p current t w) (hfailed : ¬ Failed w) : ¬ Failed ((command p).step (.result, nonce) w) := by
  have hends := step_ends p .result nonce w
  have hplace := h.place
  simp only [command]
  generalize w.step p .result nonce = w' at hends
  rintro ⟨exit, hpc, hexit⟩
  cases hends with
  | stay => exact hfailed ⟨exit, hpc, hexit⟩
  | finish =>
    cases hpc
    exact hexit rfl
  | unread hanswer => exact hanswer rfl
  | load => cases hpc
  | turn => cases hpc
  | row hscan hends =>
    simp only [Place, hscan] at hplace
    obtain ⟨-, hvalue, -, hmem⟩ := left_tail hplace.1
    cases hends with
    | skip => cases hpc
    | count => cases hpc
    | write => cases hpc
    | stop lines exit hexit hwhy =>
      obtain ⟨e, he⟩ | hreal := hwhy
      · obtain ⟨found, hfound⟩ := hreadable _ hmem
        rw [← hvalue, he] at hfound
        cases hfound
      · rw [hdry] at hreal
        cases hreal
  | updated => cases hpc
  | passed => cases hpc
  | failed hanswer => exact hanswer rfl
  | lost hanswer => exact hanswer rfl

theorem dry_run {p : Params} (hdry : p.dryRun = true) (inverts : p.aead.Inverts) (hbatch : 1 ≤ p.batch)
    {current : String} (hcurrent : isKeyId current.toList) {t : Table ι}
    (hreadable : ∀ i ∈ t.ids, ∃ found, keyIdOf (t.value i) = .ok found) {steps : List (Answer × Nonce)}
    (hresults : ∀ s ∈ steps, s.1 = .result) {w : World ι} (h : Progress p current t w) (hfailed : ¬ Failed w) :
    Progress p current t ((command p).run w steps) ∧ ¬ Failed ((command p).run w steps) := by
  induction steps generalizing w with
  | nil => exact ⟨h, hfailed⟩
  | cons s rest ih =>
    obtain ⟨answer, nonce⟩ := s
    obtain rfl : answer = .result := hresults _ List.mem_cons_self
    have hstep := dry_step hdry hreadable nonce h hfailed
    have hprogress := (progress_step inverts hbatch hcurrent (.result, nonce) h).resolve_left hstep
    exact ih (fun s hs => hresults s (List.mem_cons_of_mem _ hs)) hprogress hstep

/-- `--dry-run` writes nothing. -/
theorem table_of_dry {p : Params} (hdry : p.dryRun = true) {current : String} {t : Table ι} {w : World ι}
    (h : Progress p current t w) : w.table = t := by
  have hvalue : w.table.value = t.value := by
    funext i
    by_cases hi : i ∈ w.rotation.visited
    · exact (h.past i hi).same (.inr hdry)
    · exact h.later i hi
  have hids := h.ids
  generalize w.table = table at hids hvalue
  cases table
  cases t
  cases hids
  cases hvalue
  rfl

/-- The steps of a command the application leaves alone. -/
def alone (steps : List (Answer × Nonce)) : List (Input ι) := steps.map fun s => .step s.1 s.2

/-- Key rotation never changes what a row says; and undisturbed it ends, and when it ends well
it has done what it was called for. -/
theorem rotation_keeps_what_rows_say (p : Params) (inverts : p.aead.Inverts) (t : Table ι) :
    (∀ inputs, ∀ i ∈ ((machine p).run (start p t) inputs).table.ids,
      Kept p (((machine p).run (start p t) inputs).said i)
        (((machine p).run (start p t) inputs).table.value i)) ∧
    ∀ (steps : List (Answer × Nonce)) (w : World ι), w = (machine p).run (start p t) (alone steps) →
      (4 * t.ids.length + 1 ≤ steps.length → ∃ exit, w.rotation.pc = .done exit) ∧
      (p.dryRun = false → w.rotation.pc = .done (.code 0) →
        ∃ current, p.crypto.currentKeyId = .ok current ∧
          (w.rotation.visited = t.ids ∧ t.ids.Nodup) ∧
          (w.table.ids = t.ids ∧ ∀ i ∈ t.ids, ∀ v, w.table.value i = some v → isEncrypted (some v) = true →
            keyIdOf (some v) = .ok (some current)) ∧
          (∀ (again : List (Answer × Nonce)) (w' : World ι),
            w' = (machine p).run (start p w.table) (alone again) →
            w'.table = w.table ∧ w'.rotation.rotated = 0 ∧
              ∀ i value fresh rows short, w'.rotation.pc ≠ .write i value fresh rows short) ∧
          .reencrypted (t.ids.countP fun i => decide (w.table.value i ≠ t.value i)) ∈ w.rotation.lines ∧
          ∀ (dry : List (Answer × Nonce)) (d : World ι), (∀ s ∈ dry, s.1 = .result) →
            4 * t.ids.length + 1 ≤ dry.length →
            d = (machine { p with dryRun := true }).run (start { p with dryRun := true } t) (alone dry) →
            d.rotation.pc = .done (.code 0) ∧ d.table = t ∧
              .wouldBeReencrypted (t.ids.countP fun i => decide (w.table.value i ≠ t.value i)) ∈
                d.rotation.lines) := by
  refine ⟨fun inputs => (kept_inv inverts t inputs).rows, ?_⟩
  intro steps w hw
  rw [alone, run_steps] at hw
  subst hw
  refine ⟨terminates inverts t, ?_⟩
  intro hreal hdone
  -- It ended well, so it had a key, and it is past every row.
  obtain ⟨current, hkey, hcurrent, hbatch, hbegin, h⟩ := progress_of_done inverts hdone
  have hplace := h.place
  simp only [Place, hdone, hreal, Bool.false_eq_true, if_false] at hplace
  obtain ⟨hvisited, -, hline⟩ := hplace
  generalize (command p).run (start p t) steps = w at *
  have hpast : ∀ i ∈ t.ids, Past p current (t.value i) (w.table.value i) := fun i hi => h.past i (hvisited ▸ hi)
  have hnow : ∀ i ∈ t.ids, keyIdOf (w.table.value i) = .ok none ∨ keyIdOf (w.table.value i) = .ok (some current) :=
    fun i hi => (hpast i hi).current hreal
  have hcount : w.rotation.rotated = t.ids.countP fun i => decide (w.table.value i ≠ t.value i) := by
    rw [h.rotated, hvisited]
    apply List.countP_congr
    intro i hi
    rw [decide_eq_true_iff, (hpast i hi).changed_iff hreal]
  refine ⟨current, hkey, ⟨hvisited, t.sorted.imp fun h => ne_of_lt h⟩, ⟨h.ids, ?_⟩, ?_, hcount ▸ hline, ?_⟩
  · intro i hi v hv henc
    rw [← hv]
    refine (hnow i hi).resolve_left fun hnone => ?_
    exact keyIdOf_encrypted_ne_none henc (hv ▸ hnone)
  -- A second rotation finds no row that is stale.
  · intro again w' hw'
    rw [alone, run_steps] at hw'
    subst hw'
    have hfresh : ∀ i ∈ w.table.ids, stale current (w.table.value i) = false := by
      intro i hi
      exact (past_skip (p := p) (hnow i (h.ids ▸ hi))).1
    have hidle := idle_run (hbegin p.dryRun) hfresh again
    refine ⟨hidle.table, hidle.rotated, ?_⟩
    intro i value fresh rows short hpc
    have hquiet := hidle.quiet
    rw [hpc] at hquiet
    exact hquiet
  -- A dry run visits the same rows and counts them, and it writes nothing.
  · intro dry d hresults hlong hd
    rw [alone, run_steps] at hd
    have hstart := progress_start t (hbegin true)
    have hnotFailed : ¬ Failed (start { p with dryRun := true } t) := by
      rintro ⟨exit, hpc, -⟩
      rw [start, hbegin true] at hpc
      cases hpc
    have hreadable : ∀ i ∈ t.ids, ∃ found, keyIdOf (t.value i) = .ok found := fun i hi => (hpast i hi).readable
    obtain ⟨hdry, hok⟩ := dry_run (p := { p with dryRun := true }) rfl inverts hbatch hcurrent hreadable hresults
      hstart hnotFailed
    obtain ⟨exit, hexit⟩ := terminates (p := { p with dryRun := true }) inverts t hlong
    rw [← hd] at hdry hok hexit
    have hzero : exit = .code 0 := by
      by_contra hne
      exact hok ⟨exit, hexit, hne⟩
    subst hzero
    have hdplace := hdry.place
    simp only [Place, hexit, if_true] at hdplace
    refine ⟨hexit, table_of_dry rfl hdry, ?_⟩
    have hsame : d.rotation.rotated = w.rotation.rotated := by
      rw [hdry.rotated, h.rotated, hdplace.1, hvisited]
    rw [← hcount, ← hsame]
    exact hdplace.2.2

end

/-! ### A table of three people -/

/-- What AES-256-GCM makes of `Anna` with a nonce of zeros: under a key of zeros for `k1`, and
under a key of ones for `k2`. -/
def annaSealed : List (Bytes × Bytes × Bytes) :=
  [(List.replicate 32 0, aad "k1",
      [143, 201, 46, 92, 4, 23, 78, 19, 149, 151, 233, 211, 111, 206, 44, 240, 145, 12, 66, 170]),
    (List.replicate 32 1, aad "k2",
      [254, 91, 246, 189, 88, 14, 43, 201, 133, 19, 63, 83, 33, 5, 210, 105, 144, 253, 86, 98])]

/-- AES-256-GCM on these inputs. -/
def annaCipher : Aead where
  encrypt key nonce data ad :=
    match annaSealed.find? fun s => s.1 = key ∧ s.2.1 = ad ∧ nonce = List.replicate 12 0 ∧ data = utf8 "Anna" with
    | some s => s.2.2
    | none => data ++ List.replicate 16 0
  decrypt key nonce body ad :=
    match annaSealed.find? fun s => s.1 = key ∧ s.2.1 = ad ∧ nonce = List.replicate 12 0 ∧ body = s.2.2 with
    | some _ => some (utf8 "Anna")
    | none => some (body.take (body.length - 16))
  length_encrypt := by
    intro key nonce data ad
    split
    · next s h =>
      have hs := List.find?_some h
      simp only [decide_eq_true_eq] at hs
      have hlen : ∀ s ∈ annaSealed, s.2.2.length = (utf8 "Anna").length + 16 := by decide +kernel
      rw [hs.2.2.2, hlen s (List.mem_of_find?_eq_some h)]
    · simp

/-- What the toy cipher seals, it opens under the same key, nonce and associated data. -/
theorem annaCipher_inverts : annaCipher.Inverts := by
  intro key nonce data ad
  simp only [annaCipher]
  cases hfind : annaSealed.find? fun s => s.1 = key ∧ s.2.1 = ad ∧ nonce = List.replicate 12 0 ∧ data = utf8 "Anna" with
  | some s =>
    have hs := List.find?_some hfind
    simp only [decide_eq_true_eq] at hs
    cases hback : annaSealed.find? fun s' => s'.1 = key ∧ s'.2.1 = ad ∧ nonce = List.replicate 12 0 ∧ s.2.2 = s'.2.2 with
    | some s' => simp [hs.2.2.2]
    | none =>
      have := List.find?_eq_none.1 hback s (List.mem_of_find?_eq_some hfind)
      simp only [decide_eq_true_eq] at this
      exact absurd ⟨hs.1, hs.2.1, hs.2.2.1, trivial⟩ this
  | none =>
    -- No sealed text ends in sixteen zeros.
    cases hback : annaSealed.find? fun s' => s'.1 = key ∧ s'.2.1 = ad ∧ nonce = List.replicate 12 0 ∧
        data ++ List.replicate 16 0 = s'.2.2 with
    | some s' =>
      have hs := List.find?_some hback
      simp only [decide_eq_true_eq] at hs
      have hends : ∀ s ∈ annaSealed, s.2.2.getLast? ≠ some 0 := by decide +kernel
      have hlast := hends s' (List.mem_of_find?_eq_some hback)
      rw [← hs.2.2.2] at hlast
      exact absurd (by simp) hlast
    | none => simp

/-- A table with a sealed name, a plain one and an empty row. -/
def people : Table Nat where
  ids := [1, 2, 3]
  sorted := by decide
  value
    | 1 => some "pa1:k1:AAAAAAAAAAAAAAAAj8kuXAQXThOVl+nTb84s8JEMQqo="
    | 2 => some "Bob"
    | _ => none

/-- The rotation onto a second key. -/
def ontoK2 : Params where
  aead := annaCipher
  crypto :=
    .new "k2" (fun id => if id = "k1" then some "KEY_1" else if id = "k2" then some "KEY_2" else none)
      fun name =>
        if name = "KEY_1" then some "AAAAAAAAAAAAAAAAAAAAAAAAAAAAAAAAAAAAAAAAAAA="
        else if name = "KEY_2" then some "AQEBAQEBAQEBAQEBAQEBAQEBAQEBAQEBAQEBAQEBAQE="
        else none
  table := "people"
  column := "secret"
  idColumn := "id"
  batch := 2
  dryRun := false

theorem length_zeros : (List.replicate 12 (0 : UInt8)).length = nonceBytes := rfl

/-- So many statements that are answered by a result. -/
def results (n : Nat) : List (Answer × Nonce) := List.replicate n (.result, ⟨List.replicate 12 0, length_zeros⟩)

theorem people_rotated :
    annaCipher.Inverts ∧
    ∃ w, w = (machine ontoK2).run (start ontoK2 people) (alone (results 13)) ∧
      w.rotation.pc = .done (.code 0) ∧
      w.table.value 1 = some "pa1:k2:AAAAAAAAAAAAAAAA/lv2vVgOK8mFEz9TIQXSaZD9VmI=" ∧
      w.rotation.visited = [1, 2, 3] ∧ Kept ontoK2 (w.said 1) (w.table.value 1) := by
  have h := rotation_keeps_what_rows_say ontoK2 annaCipher_inverts people
  have hdone : ((machine ontoK2).run (start ontoK2 people) (alone (results 13))).rotation.pc = .done (.code 0) := by
    decide +kernel
  obtain ⟨current, -, hvisited, hids, -⟩ := (h.2 (results 13) _ rfl).2 rfl hdone
  refine ⟨annaCipher_inverts, _, rfl, hdone, by decide +kernel, hvisited.1, ?_⟩
  apply h.1
  rw [hids.1]
  decide

end PyAppRunner.Crypto
