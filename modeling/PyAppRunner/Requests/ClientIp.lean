import PyAppRunner.Base.IpAddress

/-! The address a request really came from: `resolve_client_ip`.

`X-Forwarded-For` is read from the right, past the proxies that are trusted, up to the
first hop that is none. Everything left of that hop is what the client sent, and the
result is the same whatever it is (`client_ip_not_chosen`). -/
namespace PyAppRunner.Requests
open Base Base.Ip

/-! ### The walk -/

/-- `_parse`. -/
def parseAddress (raw : Option String) : Option Address :=
  raw.bind fun raw => if raw = "" then none else (ipAddress (Text.strip raw.toList)).map Address.unmapped

/-- One of the networks has the address. -/
def isTrusted (address : Address) (trusted : List Network) : Bool := trusted.any (·.contains address)

/-- `str(address)`. -/
def shown (address : Address) : String := String.ofList address.text

/-- `forwarded_for.split(",")`. -/
def hopsOf (forwardedFor : String) : List String := (Text.split ',' forwardedFor.toList).map String.ofList

/-- The loop, over the hops that are left, with the address of the one before. -/
def walk (trusted : List Network) : List String → Option Address → Option Address
  | [], last => last
  | hop :: rest, _ =>
    match parseAddress (some hop) with
    | none => none
    | some address => if isTrusted address trusted then walk trusted rest (some address) else some address

/-- `resolve_client_ip`. -/
def resolveClientIp (peer forwardedFor realIp : Option String) (trusted : List Network) : Option String :=
  match parseAddress peer with
  | none => none
  | some peerAddress =>
    if !isTrusted peerAddress trusted then some (shown peerAddress)
    else match forwardedFor.filter (· ≠ "") with
      | some forwarded => (walk trusted (hopsOf forwarded).reverse none).map shown
      | none =>
        match realIp.filter (· ≠ "") with
        | some realIp => (parseAddress (some realIp)).map shown
        | none => some (shown peerAddress)

/-! ### What decides -/

variable (trusted : List Network)

/-- A proxy that is trusted wrote the hop before. -/
def passes (hop : String) : Bool := (parseAddress (some hop)).any fun address => isTrusted address trusted

/-- The hops from the rightmost one that does not pass, or all of them. -/
def decisive (hops : List String) : List String :=
  match hops.reverse.dropWhile (passes trusted) with
  | [] => hops
  | hop :: _ => hop :: (hops.reverse.takeWhile (passes trusted)).reverse

variable {trusted}

/-- What passes is walked past. -/
theorem walk_append {right : List String} (h : ∀ hop ∈ right, passes trusted hop = true) (rest : List String)
    (last : Option Address) :
    walk trusted (right ++ rest) last =
      walk trusted rest (right.getLast?.elim last fun hop => parseAddress (some hop)) := by
  induction right generalizing last with
  | nil => rfl
  | cons hop right ih =>
    have hpass := h hop List.mem_cons_self
    obtain ⟨address, haddress, htrusted⟩ := (Option.any_eq_true _ _).mp hpass
    rw [List.cons_append, walk, haddress]
    dsimp only
    rw [if_pos htrusted, ih (fun g hg => h g (List.mem_cons_of_mem hop hg))]
    cases right with
    | nil => simp [haddress]
    | cons next right =>
      rw [List.getLast?_cons_cons, List.getLast?_eq_some_getLast (List.cons_ne_nil next right)]
      rfl

/-- The hop that does not pass is the result. -/
theorem walk_stop {hop : String} (h : passes trusted hop = false) (rest : List String) (last : Option Address) :
    walk trusted (hop :: rest) last = parseAddress (some hop) := by
  rw [walk]
  cases haddress : parseAddress (some hop) with
  | none => rfl
  | some address =>
    have hfalse : isTrusted address trusted = false := by simpa [passes, haddress] using h
    dsimp only
    rw [hfalse]
    rfl

/-- The result of the walk is the address of the first of the hops that decide. -/
theorem walk_decisive (hops : List String) :
    walk trusted hops.reverse none = (decisive trusted hops).head?.bind fun hop => parseAddress (some hop) := by
  have hright : ∀ hop ∈ hops.reverse.takeWhile (passes trusted), passes trusted hop = true :=
    fun hop => List.mem_takeWhile_imp
  have hwalk := walk_append hright (hops.reverse.dropWhile (passes trusted)) none
  rw [List.takeWhile_append_dropWhile] at hwalk
  rw [hwalk, decisive]
  cases hrest : hops.reverse.dropWhile (passes trusted) with
  | nil =>
    have hall : hops.reverse.takeWhile (passes trusted) = hops.reverse := by
      have happend := List.takeWhile_append_dropWhile (p := passes trusted) (l := hops.reverse)
      rwa [hrest, List.append_nil] at happend
    rw [hall, List.getLast?_reverse]
    cases hops with
    | nil => rfl
    | cons hop rest => rfl
  | cons hop rest =>
    have hstop : passes trusted hop = false := by
      have hhead := List.head?_dropWhile_not (passes trusted) hops.reverse
      rw [hrest] at hhead
      simpa using hhead
    rw [walk_stop hstop]
    rfl

/-! ### Hops of a text -/

/-- What is prepended to a header is hops before its own. -/
theorem hopsOf_append (left right : String) : hopsOf (left ++ "," ++ right) = hopsOf left ++ hopsOf right := by
  have htext : (left ++ "," ++ right).toList = left.toList ++ ',' :: right.toList := by simp
  rw [hopsOf, htext, Text.split_append, List.map_append]
  rfl

/-- Whatever stands before hops of which one does not pass decides nothing. -/
theorem decisive_append {right : List String} (h : ∃ hop ∈ right, passes trusted hop = false) (left : List String) :
    decisive trusted (left ++ right) = decisive trusted right := by
  obtain ⟨hop, hmem, hstop⟩ := h
  have hnot : ¬ ∀ g ∈ right.reverse, passes trusted g = true := by
    intro hall
    rw [hall hop (List.mem_reverse.mpr hmem)] at hstop
    cases hstop
  have hne : right.reverse.dropWhile (passes trusted) ≠ [] := fun hnil => hnot (List.dropWhile_eq_nil_iff.mp hnil)
  have htake : (right.reverse.takeWhile (passes trusted)).length ≠ right.reverse.length := by
    intro heq
    have hall := List.takeWhile_eq_self_iff.mp (List.takeWhile_sublist _ |>.eq_of_length heq)
    exact hnot hall
  unfold decisive
  rw [List.reverse_append, List.dropWhile_append, List.takeWhile_append, if_neg htake, if_neg (by simpa using hne)]
  cases hrest : right.reverse.dropWhile (passes trusted) with
  | nil => exact absurd hrest hne
  | cons g rest => rfl

/-- The hop that decides, where it is the rightmost one that does not pass. -/
theorem decisive_stop {left right : List String} {hop : String} (hstop : passes trusted hop = false)
    (hright : ∀ g ∈ right, passes trusted g = true) : decisive trusted (left ++ hop :: right) = hop :: right := by
  rw [decisive_append ⟨hop, List.mem_cons_self, hstop⟩]
  have hall : ∀ g ∈ right.reverse, passes trusted g = true := fun g hg => hright g (List.mem_reverse.mp hg)
  unfold decisive
  rw [List.reverse_cons, List.dropWhile_append_of_pos hall, List.takeWhile_append_of_pos hall]
  simp [hstop]

theorem decisive_all {hops : List String} (h : ∀ hop ∈ hops, passes trusted hop = true) : decisive trusted hops = hops := by
  have hall : hops.reverse.dropWhile (passes trusted) = [] :=
    List.dropWhile_eq_nil_iff.mpr fun hop hhop => h hop (List.mem_reverse.mp hhop)
  rw [decisive, hall]

/-! ### The result -/

/-- The peer is one of the proxies. -/
def TrustedPeer (trusted : List Network) (peer : Option String) : Prop :=
  ∃ address, parseAddress peer = some address ∧ isTrusted address trusted = true

theorem resolve_walk {peer : Option String} (hpeer : TrustedPeer trusted peer) {forwarded : String}
    (hne : forwarded ≠ "") (realIp : Option String) : resolveClientIp peer (some forwarded) realIp trusted =
      (walk trusted (hopsOf forwarded).reverse none).map shown := by
  obtain ⟨address, haddress, htrusted⟩ := hpeer
  have hpresent : (some forwarded).filter (· ≠ "") = some forwarded := by simp [hne]
  rw [resolveClientIp, haddress]
  dsimp only
  rw [htrusted, hpresent]
  rfl

/-- From a proxy, the hops that decide are all that counts of a header that is not empty. -/
theorem resolve_forwarded {peer : Option String} (hpeer : TrustedPeer trusted peer) {forwarded : String}
    (hne : forwarded ≠ "") (realIp : Option String) : resolveClientIp peer (some forwarded) realIp trusted =
      ((decisive trusted (hopsOf forwarded)).head?.bind fun hop => parseAddress (some hop)).map shown := by
  rw [resolve_walk hpeer hne, walk_decisive]

theorem resolve_untrusted {peer : Option String} (h : ¬ TrustedPeer trusted peer) (forwarded realIp : Option String) :
    resolveClientIp peer forwarded realIp trusted = (parseAddress peer).map shown := by
  rw [resolveClientIp]
  cases haddress : parseAddress peer with
  | none => rfl
  | some address =>
    have huntrusted : isTrusted address trusted = false := by
      by_contra htrusted
      exact h ⟨address, haddress, by simpa using htrusted⟩
    dsimp only
    rw [huntrusted]
    rfl

/-! ### Spellings of one address -/

/-- Hops of the same addresses are walked the same way. -/
theorem walk_congr {hops hops' : List String}
    (h : hops.map (fun hop => parseAddress (some hop)) = hops'.map fun hop => parseAddress (some hop))
    (last : Option Address) : walk trusted hops last = walk trusted hops' last := by
  induction hops generalizing hops' last with
  | nil =>
    cases hops' with
    | nil => rfl
    | cons hop rest => cases h
  | cons hop rest ih =>
    cases hops' with
    | nil => cases h
    | cons hop' rest' =>
      rw [List.map_cons, List.map_cons, List.cons.injEq] at h
      rw [walk, walk, h.1]
      cases parseAddress (some hop') with
      | none => rfl
      | some address =>
        dsimp only
        rw [ih h.2]

/-- Two texts of one address, in every place where one is read. -/
structure Interchangeable (trusted : List Network) (raw raw' : String) : Prop where
  peer : ∀ forwarded realIp,
    resolveClientIp (some raw) forwarded realIp trusted = resolveClientIp (some raw') forwarded realIp trusted
  hop : ∀ peer left right forwarded forwarded' realIp, hopsOf forwarded = left ++ raw :: right →
    hopsOf forwarded' = left ++ raw' :: right → forwarded ≠ "" → forwarded' ≠ "" →
      resolveClientIp peer (some forwarded) realIp trusted = resolveClientIp peer (some forwarded') realIp trusted
  realIp : ∀ peer forwarded,
    resolveClientIp peer forwarded (some raw) trusted = resolveClientIp peer forwarded (some raw') trusted

theorem interchangeable {raw raw' : String} {address : Address} (h : parseAddress (some raw) = some address)
    (h' : parseAddress (some raw') = some address) : Interchangeable trusted raw raw' := by
  have hne : ∀ {text : String}, parseAddress (some text) = some address → text ≠ "" := by
    intro text htext heq
    rw [heq] at htext
    cases htext
  refine ⟨?_, ?_, ?_⟩
  · intro forwarded realIp
    rw [resolveClientIp, resolveClientIp, h, h']
  · intro peer left right forwarded forwarded' realIp hhops hhops' hforwarded hforwarded'
    by_cases hpeer : TrustedPeer trusted peer
    · rw [resolve_walk hpeer hforwarded, resolve_walk hpeer hforwarded', hhops, hhops']
      apply congrArg (Option.map shown)
      apply walk_congr
      rw [List.map_reverse, List.map_reverse, List.map_append, List.map_append, List.map_cons, List.map_cons, h, h']
    · rw [resolve_untrusted hpeer, resolve_untrusted hpeer]
  · intro peer forwarded
    have hpresent : (some raw).filter (· ≠ "") = some raw := by simp [hne h]
    have hpresent' : (some raw').filter (· ≠ "") = some raw' := by simp [hne h']
    unfold resolveClientIp
    rw [hpresent, hpresent']
    dsimp only
    rw [h, h']

theorem ipAddress_empty : ipAddress (Text.strip "".toList) = none := by decide +kernel

/-- A text of an IPv4-mapped address is read as the IPv4 address. -/
theorem parseAddress_mapped {raw : String} {ip : BitVec 128} {scope : Option (List Char)} {low : BitVec 32}
    (hraw : ipAddress (Text.strip raw.toList) = some (.v6 ip scope)) (hmapped : ipv4Mapped ip = some low) :
    parseAddress (some raw) = some (.v4 low) := by
  have hne : raw ≠ "" := by
    intro heq
    rw [heq, ipAddress_empty] at hraw
    cases hraw
  rw [parseAddress, Option.bind_some, if_neg hne, hraw, Option.map_some, Address.unmapped, hmapped]

theorem parseAddress_v4 {raw : String} {low : BitVec 32} (hraw : ipAddress (Text.strip raw.toList) = some (.v4 low)) :
    parseAddress (some raw) = some (.v4 low) := by
  have hne : raw ≠ "" := by
    intro heq
    rw [heq, ipAddress_empty] at hraw
    cases hraw
  rw [parseAddress, Option.bind_some, if_neg hne, hraw]
  rfl

/-- **A client cannot choose its address.** From a peer that is no proxy no header counts. From a
proxy only the hops that decide do, of a header that is there and not empty: the
rightmost one that does not pass is the result, whatever is prepended to it, and the
leftmost one if all pass. An IPv4-mapped address is the IPv4 address wherever it stands. -/
theorem client_ip_not_chosen (trusted : List Network) (peer : Option String) :
    (¬ TrustedPeer trusted peer → ∀ forwarded realIp,
      resolveClientIp peer forwarded realIp trusted = (parseAddress peer).map shown) ∧
    (TrustedPeer trusted peer → ∀ forwarded, forwarded ≠ "" →
      (∀ forwarded' realIp realIp', forwarded' ≠ "" →
        decisive trusted (hopsOf forwarded') = decisive trusted (hopsOf forwarded) →
          resolveClientIp peer (some forwarded') realIp' trusted = resolveClientIp peer (some forwarded) realIp trusted) ∧
      (∀ before realIp realIp', (∃ hop ∈ hopsOf forwarded, passes trusted hop = false) →
        resolveClientIp peer (some (before ++ "," ++ forwarded)) realIp' trusted =
          resolveClientIp peer (some forwarded) realIp trusted) ∧
      (∀ left hop right realIp, hopsOf forwarded = left ++ hop :: right → passes trusted hop = false →
        (∀ g ∈ right, passes trusted g = true) →
          resolveClientIp peer (some forwarded) realIp trusted = (parseAddress (some hop)).map shown) ∧
      ∀ hop rest realIp, hopsOf forwarded = hop :: rest → (∀ g ∈ hop :: rest, passes trusted g = true) →
        resolveClientIp peer (some forwarded) realIp trusted = (parseAddress (some hop)).map shown) ∧
    ∀ raw raw' ip scope low, ipAddress (Text.strip raw.toList) = some (.v6 ip scope) → ipv4Mapped ip = some low →
      ipAddress (Text.strip raw'.toList) = some (.v4 low) → Interchangeable trusted raw raw' := by
  refine ⟨fun hpeer => resolve_untrusted hpeer, ?_, ?_⟩
  · intro hpeer forwarded hne
    refine ⟨?_, ?_, ?_, ?_⟩
    · intro forwarded' realIp realIp' hne' hdecisive
      rw [resolve_forwarded hpeer hne', resolve_forwarded hpeer hne, hdecisive]
    · intro before realIp realIp' hstop
      have hne' : before ++ "," ++ forwarded ≠ "" := by
        intro heq
        have hlength := congrArg String.length heq
        simp at hlength
      rw [resolve_forwarded hpeer hne', resolve_forwarded hpeer hne, hopsOf_append, decisive_append hstop]
    · intro left hop right realIp hhops hstop hright
      rw [resolve_forwarded hpeer hne, hhops, decisive_stop hstop hright]
      rfl
    · intro hop rest realIp hhops hall
      rw [resolve_forwarded hpeer hne, hhops, decisive_all hall]
      rfl
  · intro raw raw' ip scope low hraw hmapped hraw'
    exact interchangeable (parseAddress_mapped hraw hmapped) (parseAddress_v4 hraw')

/-- `127.0.0.1/32`. -/
def loopback : Network := .v4 0x7F000001#32 0xFFFFFFFF#32

example : resolveClientIp (some "127.0.0.1") (some "1.1.1.1, ::ffff:10.1.2.3, 127.0.0.1") (some "6.6.6.6") [loopback] =
    some "10.1.2.3" := by
  decide +kernel

/-- An empty header is passed over, though its one hop cannot be read. -/
theorem empty_header_ignored :
    hopsOf "" = [""] ∧ parseAddress (some "") = none ∧
    resolveClientIp (some "127.0.0.1") (some "") (some "10.1.2.3") [loopback] = some "10.1.2.3" ∧
    resolveClientIp (some "127.0.0.1") (some "") none [loopback] = some "127.0.0.1" := by
  decide +kernel

end PyAppRunner.Requests
