import Proskrnl.Resolv.Memory
import Proskrnl.Resolv.Lookups

/-!
# The hosts and services tables in memory

The walks of `wsresolv/resolv.c` over a file that `resolv_read_file` has put into memory with a zero
behind it. The lines are cut in place, at their ends and behind their words, and what is read of them
are the strings between the zeros (`splitLine_eq`, `walk_eq`).
-/

namespace Proskrnl.Resolv
open List CStrings
open Paths (cut cut_append_behind length_of_cut)

/-- What there is of a file in `drivers\etc`, and what the system says to a read of it. -/
structure EtcFile where
  content : List UInt8
  opens : Bool := true
  sized : Bool := true
  allocated : Bool := true
  read : Bool := true

/-- The most bytes that `resolv_read_file` reads. -/
def maxFileBytes : Nat := 1024 * 1024

def resolvReadFile (file : EtcFile) : Option Block :=
  if ¬ file.opens then none
  else if ¬ file.sized ∨ file.content.length > maxFileBytes then none
  else if ¬ file.allocated then none
  else if ¬ file.read then none
  else some (file.content ++ [0])

namespace Memory

/-- `strchr`: where the character is, or none at the terminator. -/
def strchr (block : Block) (c : UInt8) (i : Nat) : Option (Option Nat) :=
  match _h : block[i]? with
  | none => none
  | some x => if x = c then some (some i) else if x = 0 then some none else strchr block c (i + 1)
termination_by block.length - i
decreasing_by
  have := (List.getElem?_eq_some_iff.mp _h).1
  omega

/-- The loops of `split_line`: on as long as the character is one of these. -/
def skip (among : UInt8 → Bool) (block : Block) (i : Nat) : Option Nat :=
  match _h : block[i]? with
  | none => none
  | some c => if among c then skip among block (i + 1) else some i
termination_by block.length - i
decreasing_by
  have := (List.getElem?_eq_some_iff.mp _h).1
  omega

def inWord (c : UInt8) : Bool := c != 0 && !isBlank c

/-- `split_line`, by the room that is left for tokens: the places of the tokens, and the block with the
zeros written into it. -/
def splitLine : Nat → Block → Nat → Option (List Nat × Block)
  | capacity, block, i => do
    let p ← skip isBlank block i
    let c ← block[p]?
    if c = 0 ∨ c = hash then return ([], block)
    else
      match capacity with
      | 0 => return ([], block)
      | capacity + 1 =>
        let q ← skip inWord block p
        let c ← block[q]?
        if c = 0 then return ([p], block)
        else
          let (tokens, block) ← splitLine capacity (block.set q 0) (q + 1)
          return (p :: tokens, block)

/-- `_stricmp(a, b) == 0` -/
def strieq (a : Block) (i : Nat) (b : Block) (j : Nat) : Option Bool :=
  match _h : a[i]?, b[j]? with
  | some x, some y =>
    if tolower x ≠ tolower y then some false
    else if x = 0 then some true
    else strieq a (i + 1) b (j + 1)
  | _, _ => none
termination_by a.length - i
decreasing_by
  have := (List.getElem?_eq_some_iff.mp _h).1
  omega

def parseAddress (block : Block) (i : Nat) : Option (Option Address) := do
  match ← resolvParseIpv4 block i with
  | some bytes => return some ⟨.inet, bytes⟩
  | none =>
    match ← resolvParseIpv6 block i with
    | .ok bytes => return some ⟨.inet6, bytes⟩
    | .error .text => return none
    | .error .overrun => none

/-- `set_canonname`, by the room that is left. -/
def setCanonname (block : Block) : Nat → Nat → Option (List UInt8)
  | room, i => do
    let c ← block[i]?
    if c = 0 then return []
    else
      match room with
      | 0 => return []
      | room + 1 => return c :: (← setCanonname block room (i + 1))

/-- Does a name of the row equal the one that is looked up? -/
def anyNamed (block node : Block) : List Nat → Option Bool
  | [] => some false
  | name :: names => do if ← strieq block name node 0 then return true else anyNamed block node names

def hostsLookupVisit (node : Block) (wantV4 wantV6 : Bool) (block : Block) (address : Address)
    (names : List Nat) (result : ResolvResult) : Option ResolvResult :=
  if address.family = .inet ∧ !wantV4 then some result
  else if address.family = .inet6 ∧ !wantV6 then some result
  else
    (anyNamed block node names).bind fun
    | false => some result
    | true =>
      (if result.addrs = [] then
        (setCanonname block (resolvNameMax - 1) (names.headD 0)).map fun canonname =>
          { result with canonname }
      else some result).map (resolvResultAdd · address)

/-- What `for_each_hosts_row` makes of a line. -/
def hostsLine (node : Block) (wantV4 wantV6 : Bool) (block : Block) (line : Nat)
    (result : ResolvResult) : Option (ResolvResult × Block) := do
  let (tokens, block) ← splitLine 16 block line
  match tokens with
  | token :: name :: names =>
    match ← parseAddress block token with
    | some address =>
      return (← hostsLookupVisit node wantV4 wantV6 block address (name :: names) result, block)
    | none => return (result, block)
  | _ => return (result, block)

/-- The loop of `numeric_port`. -/
def numericPortLoop (block : Block) (i value : Nat) : Option (Option Nat) :=
  match _h : block[i]? with
  | none => none
  | some c =>
    if c = 0 then some (some value)
    else
      match decimalValue c with
      | none => some none
      | some d =>
        if value * 10 + d > 65535 then some none else numericPortLoop block (i + 1) (value * 10 + d)
termination_by block.length - i
decreasing_by
  have := (List.getElem?_eq_some_iff.mp _h).1
  omega

def numericPort (block : Block) (i : Nat) : Option (Option Nat) := do
  if (← block[i]?) = 0 then return none else numericPortLoop block i 0

/-- `socktype` asks for another protocol than the string names. -/
def otherProtocol (block : Block) (i socktype : Nat) : Option Bool :=
  if socktype = 1 then (strieq block i (tcp ++ [0]) 0).map (!·)
  else if socktype = 2 then (strieq block i (udp ++ [0]) 0).map (!·)
  else some false

/-- What `service_port` makes of a line. -/
def servicePortLine (service : Block) (socktype : Nat) (block : Block) (line : Nat)
    (port : Option Nat) : Option (Option Nat × Block) := do
  let (tokens, block) ← splitLine 16 block line
  match tokens with
  | name :: second :: aliases =>
    match ← strchr block slash second with
    | none => return (port, block)
    | some k =>
      let block := block.set k 0
      match ← numericPort block second with
      | none => return (port, block)
      | some value =>
        if ← otherProtocol block (k + 1) socktype then return (port, block)
        else if ← anyNamed block service (name :: aliases) then return (some value, block)
        else return (port, block)
  | _ => return (port, block)

/-- The loop over the lines, by the turns that are left. -/
def walk {σ : Type} (stop : σ → Bool) (visit : Block → Nat → σ → Option (σ × Block)) :
    Nat → Block → Nat → σ → Option σ
  | 0, _, _, _ => none
  | turns + 1, block, line, s =>
    if stop s then some s
    else
      (strchr block newline line).bind fun next =>
      (visit (next.elim block (block.set · 0)) line s).bind fun (s, block) =>
      match next with
      | none => some s
      | some k => walk stop visit turns block (k + 1) s

/-- The lookup of a name in the hosts file, with a zero behind the name. `none` for a read outside of the
memory of the file, or a loop that takes more turns than the file has bytes. -/
def hostsLookup (file : EtcFile) (node : List UInt8) (wantV4 wantV6 : Bool) : Option ResolvResult :=
  match resolvReadFile file with
  | none => some {}
  | some data =>
    walk (fun _ => false) (hostsLine (node ++ [0]) wantV4 wantV6) data.length data 0 {}

def servicePort (file : EtcFile) (service : List UInt8) (socktype : Nat) : Option (Option Nat) :=
  match resolvReadFile file with
  | none => some none
  | some data =>
    walk Option.isSome (servicePortLine (service ++ [0]) socktype) data.length data 0 none

/-! ## The strings of a line -/

section
variable {block : Block} {i e : Nat} {text : List UInt8} {c : UInt8}

theorem strchr_read (h : block[i]? = some c) (sought : UInt8) : strchr block sought i =
    if c = sought then some (some i) else if c = 0 then some none else strchr block sought (i + 1) := by
  conv_lhs => rw [strchr]
  split <;> rename_i heq <;> cases h.symm.trans heq
  rfl

theorem strchr_eq (hc : c ≠ 0) (h : StringAt 0 block i text) :
    strchr block c i = some ((cut c text).2.map fun _ => i + (cut c text).1.length) := by
  induction h with
  | nil hstop =>
    rw [strchr_read hstop, if_neg (Ne.symm hc), if_pos rfl]
    rfl
  | @cons i x text hx hne _ ih =>
    rw [strchr_read hx, cut]
    by_cases heq : x = c
    · rw [if_pos heq, if_pos heq]
      rfl
    · rw [if_neg heq, if_neg heq, if_neg hne, ih, length_cons, ← Nat.add_assoc, Nat.add_right_comm]

theorem skip_read {p : UInt8 → Bool} (h : block[i]? = some c) :
    skip p block i = if p c then skip p block (i + 1) else some i := by
  conv_lhs => rw [skip]
  split <;> rename_i heq <;> cases h.symm.trans heq
  rfl

/-- The loop stands at what is left of the string. -/
theorem skip_eq {p : UInt8 → Bool} (hp : p 0 = false) (h : StringAt 0 block i text) :
    skip p block i = some (i + (text.takeWhile p).length) ∧
      StringAt 0 block (i + (text.takeWhile p).length) (text.dropWhile p) := by
  constructor
  · induction h with
    | nil hstop =>
      rw [skip_read hstop, if_neg (by simp [hp])]
      rfl
    | @cons i c text hc _ _ ih =>
      rw [skip_read hc]
      cases hpc : p c with
      | true =>
        rw [if_pos rfl, ih, takeWhile_cons_of_pos hpc, length_cons, ← Nat.add_assoc,
          Nat.add_right_comm]
      | false =>
        rw [if_neg Bool.false_ne_true, takeWhile_cons_of_neg (by simp [hpc])]
        rfl
  · rw [← takeWhile_append_dropWhile (p := p) (l := text)] at h
    exact h.drop

theorem takeWhile_inWord (h : ∀ c ∈ text, c ≠ 0) :
    text.takeWhile inWord = text.takeWhile (!isBlank ·) ∧
      text.dropWhile inWord = text.dropWhile (!isBlank ·) := by
  induction text with
  | nil => exact ⟨rfl, rfl⟩
  | cons c text ih =>
    obtain ⟨hc, htext⟩ := forall_mem_cons.mp h
    have hsame : inWord c = !isBlank c := by rw [inWord, bne_iff_ne.mpr hc, Bool.true_and]
    rw [takeWhile_cons, takeWhile_cons, dropWhile_cons, dropWhile_cons, hsame, (ih htext).1, (ih htext).2]
    exact ⟨rfl, rfl⟩

/-- The places of the tokens are those of the words, and nothing is written outside of the line. -/
theorem splitLine_eq (capacity : Nat) (h : StringAt 0 block i text) :
    ∃ tokens block', splitLine capacity block i = some (tokens, block') ∧
      Laid 0 block' i (i + text.length) tokens (Resolv.splitLine capacity text) ∧
      ∀ j, j < i ∨ i + text.length ≤ j → block'[j]? = block[j]? := by
  induction capacity generalizing block i text with
  | zero =>
    obtain ⟨hskip, hp⟩ := skip_eq (p := isBlank) rfl h
    refine ⟨[], block, ?_, .nil, fun _ _ => rfl⟩
    rw [splitLine, hskip, Option.bind_eq_bind, Option.bind_some, hp.read, Option.bind_eq_bind,
      Option.bind_some]
    exact ite_self _
  | succ capacity ih =>
    obtain ⟨hskip, hp⟩ := skip_eq (p := isBlank) rfl h
    have hlength := congrArg List.length (takeWhile_append_dropWhile (p := isBlank) (l := text))
    rw [length_append] at hlength
    have hle : i ≤ i + (text.takeWhile isBlank).length := Nat.le_add_right ..
    have hend : i + (text.takeWhile isBlank).length + (text.dropWhile isBlank).length =
        i + text.length := by omega
    rw [splitLine, hskip, Option.bind_eq_bind, Option.bind_some, hp.read, Option.bind_eq_bind,
      Option.bind_some, Resolv.splitLine]
    generalize i + (text.takeWhile isBlank).length = p, text.dropWhile isBlank = rest at hp hle hend ⊢
    simp only [hp.headD_eq_iff, hp.headD_eq_iff_head? (c := hash) (by decide)]
    by_cases hstop : rest = [] ∨ rest.head? = some hash
    · rw [if_pos hstop, if_pos hstop]
      exact ⟨[], block, rfl, .nil, fun _ _ => rfl⟩
    -- the token and what stands behind it
    obtain ⟨hword, hq⟩ := skip_eq (p := inWord) rfl hp
    rw [if_neg hstop, if_neg hstop]
    rw [hword, Option.bind_some, hq.read, Option.bind_some]
    rw [(takeWhile_inWord hp.ne_stop).1, (takeWhile_inWord hp.ne_stop).2] at *
    have hrest := takeWhile_append_dropWhile (p := (!isBlank ·)) (l := rest)
    generalize rest.takeWhile (!isBlank ·) = word, rest.dropWhile (!isBlank ·) = behind at hq hrest ⊢
    subst hrest
    cases behind with
    | nil =>
      rw [append_nil] at hp
      rw [append_nil] at hend
      exact ⟨[p], block, rfl, .cons hle hp hend.le .nil, fun _ _ => rfl⟩
    | cons b behind =>
      obtain ⟨hfirst, hbehind⟩ := hp.cut
      obtain ⟨tokens, block', hsplit, hlaid, hframe⟩ := ih hbehind
      rw [length_append, length_cons] at hend
      rw [show p + word.length + 1 + behind.length = i + text.length by omega] at hlaid
      have hset : ∀ j, j ≠ p + word.length → (block.set (p + word.length) 0)[j]? = block[j]? :=
        fun j hj => getElem?_set_ne (Ne.symm hj)
      refine ⟨p :: tokens, block', ?_, .cons hle ?_ (by omega) hlaid, fun j hj => ?_⟩
      · rw [List.headD_cons, if_neg (hq.ne_stop b mem_cons_self), hsplit]
        rfl
      · exact hfirst.congr fun j _ hj => hframe j (.inl (by omega))
      · rw [hframe j (by omega), hset j (by omega)]

theorem strieq_read {a : Block} {x y : UInt8} {j : Nat} (hx : a[i]? = some x) (hy : block[j]? = some y) :
    strieq a i block j =
      if tolower x ≠ tolower y then some false
      else if x = 0 then some true
      else strieq a (i + 1) block (j + 1) := by
  conv_lhs => rw [strieq]
  split
  · rename_i h h'
    cases hx.symm.trans h
    cases hy.symm.trans h'
    rfl
  · rename_i h
    exact absurd hy (h x y hx)

theorem tolower_eq_zero : tolower c = 0 ↔ c = 0 := by
  revert c
  decide +kernel

theorem strieq_eq {a : Block} {j : Nat} {s t : List UInt8} (hs : StringAt 0 a i s)
    (ht : StringAt 0 block j t) : strieq a i block j = some (Resolv.strieq s t) := by
  induction hs generalizing j t with
  | nil hstop =>
    rw [strieq_read hstop ht.read]
    cases ht with
    | nil => rfl
    | cons _ hne _ => exact if_pos fun h => hne (tolower_eq_zero.mp h.symm)
  | @cons i x s hx hne _ ih =>
    rw [strieq_read hx ht.read]
    cases ht with
    | nil => exact if_pos fun h => hne (tolower_eq_zero.mp h)
    | @cons _ y t _ _ htail =>
      rw [Resolv.strieq, map_cons, map_cons]
      by_cases heq : tolower x = tolower y
      · rw [List.headD_cons, if_neg (not_not.mpr heq), if_neg hne, ih htail, heq]
        simp [Resolv.strieq]
      · rw [List.headD_cons, if_pos heq]
        simp [heq]

theorem parseAddress_eq (h : StringAt 0 block i text) :
    parseAddress block i = some (Resolv.parseAddress text) := by
  rw [parseAddress, resolvParseIpv4_eq h, Option.bind_eq_bind, Option.bind_some, Resolv.parseAddress]
  cases Resolv.resolvParseIpv4 text with
  | some bytes => rfl
  | none =>
    rw [resolvParseIpv6_eq h]
    cases haddress : Resolv.resolvParseIpv6 text with
    | ok bytes => rfl
    | error refusal =>
      cases resolvParseIpv6_error haddress
      rfl

theorem setCanonname_eq {room : Nat} (h : StringAt 0 block i text) :
    setCanonname block room i = some (text.take room) := by
  induction h generalizing room with
  | nil hstop =>
    rw [setCanonname, hstop, take_nil]
    rfl
  | cons hc hne _ ih =>
    rw [setCanonname, hc, Option.bind_eq_bind, Option.bind_some, if_neg hne]
    cases room with
    | zero => rfl
    | succ room =>
      dsimp only
      rw [ih]
      rfl

theorem anyNamed_eq {node : List UInt8} {names : List Nat} {texts : List (List UInt8)}
    (h : Laid 0 block i e names texts) :
    anyNamed block (node ++ [0]) names =
      some (texts.any (Resolv.strieq · (cString 0 node))) := by
  induction h with
  | nil => rfl
  | cons _ htext _ _ ih =>
    rw [anyNamed, strieq_eq htext (stringAt_cString 0 node), Option.bind_eq_bind, Option.bind_some,
      any_cons]
    cases Resolv.strieq _ (cString 0 node) with
    | true => rfl
    | false => exact ih

theorem hostsLookupVisit_eq {node : List UInt8} {wantV4 wantV6 : Bool} {address : Address}
    {name : Nat} {names : List Nat} {first : List UInt8} {texts : List (List UInt8)}
    (h : Laid 0 block i e (name :: names) (first :: texts)) (result : ResolvResult) :
    hostsLookupVisit (node ++ [0]) wantV4 wantV6 block address (name :: names) result =
      some (Resolv.hostsLookupVisit (cString 0 node) wantV4 wantV6 ⟨address, first :: texts⟩ result) := by
  rw [hostsLookupVisit, Resolv.hostsLookupVisit]
  split
  · rfl
  split
  · rfl
  rw [anyNamed_eq h, Option.bind_some]
  cases h with
  | cons _ hfirst _ _ =>
  cases (first :: texts).any (Resolv.strieq · (cString 0 node)) with
  | false => rfl
  | true =>
    dsimp only
    rw [if_pos rfl]
    split
    · rw [List.headD_cons, setCanonname_eq hfirst]
      rfl
    · rfl

/-- On the string of a line the visit in memory does what the visit of its characters does, and writes
nothing outside of the line. -/
def VisitAt {σ : Type} (visit : Block → Nat → σ → Option (σ × Block))
    (visitLine : List UInt8 → σ → σ) : Prop :=
  ∀ block i line s, StringAt 0 block i line →
    ∃ block', visit block i s = some (visitLine line s, block') ∧
      ∀ j, j < i ∨ i + line.length ≤ j → block'[j]? = block[j]?

theorem hostsLine_at (node : List UInt8) (wantV4 wantV6 : Bool) :
    VisitAt (hostsLine (node ++ [0]) wantV4 wantV6)
      (Resolv.hostsLine (Resolv.hostsLookupVisit (cString 0 node) wantV4 wantV6)) := by
  intro block i line result h
  obtain ⟨tokens, block', hsplit, hlaid, hframe⟩ := splitLine_eq 16 h
  refine ⟨block', ?_, hframe⟩
  rw [hostsLine, hsplit, Option.bind_eq_bind, Option.bind_some, Resolv.hostsLine]
  generalize Resolv.splitLine 16 line = words at hlaid
  cases hlaid with
  | nil => rfl
  | cons _ htoken _ hnames =>
  cases hnames with
  | nil => rfl
  | cons hplace hname hend hnames =>
    dsimp only
    rw [parseAddress_eq htoken, Option.bind_eq_bind, Option.bind_some]
    cases Resolv.parseAddress _ with
    | none => rfl
    | some address =>
      dsimp only
      rw [hostsLookupVisit_eq (.cons hplace hname hend hnames)]
      rfl

theorem numericPortLoop_read {value : Nat} (h : block[i]? = some c) : numericPortLoop block i value =
    if c = 0 then some (some value)
    else
      match decimalValue c with
      | none => some none
      | some d =>
        if value * 10 + d > 65535 then some none
        else numericPortLoop block (i + 1) (value * 10 + d) := by
  conv_lhs => rw [numericPortLoop]
  split <;> rename_i heq <;> cases h.symm.trans heq
  rfl

theorem numericPort_eq (h : StringAt 0 block i text) :
    numericPort block i = some (Resolv.numericPort text) := by
  have hloop : ∀ {i text value}, StringAt 0 block i text →
      numericPortLoop block i value = some (Resolv.numericPortLoop text value) := by
    intro i text value h
    induction h generalizing value with
    | nil hstop => rw [numericPortLoop_read hstop, if_pos rfl, Resolv.numericPortLoop]
    | @cons i c text hc hne _ ih =>
      rw [numericPortLoop_read hc, if_neg hne, Resolv.numericPortLoop]
      cases decimalValue c with
      | none => rfl
      | some d =>
        dsimp only
        split
        · rfl
        · exact ih
  rw [numericPort, h.read, Option.bind_eq_bind, Option.bind_some, Resolv.numericPort]
  simp only [h.headD_eq_iff]
  split
  · rfl
  · exact hloop h

theorem otherProtocol_eq (h : StringAt 0 block i text) (socktype : Nat) :
    otherProtocol block i socktype = some (decide (socktype = 1 ∧ !Resolv.strieq text tcp ∨
      socktype = 2 ∧ !Resolv.strieq text udp)) := by
  have htcp : cString 0 tcp = tcp := by decide
  have hudp : cString 0 udp = udp := by decide
  rw [otherProtocol, strieq_eq h (stringAt_cString 0 tcp), strieq_eq h (stringAt_cString 0 udp), htcp,
    hudp]
  split
  · simp [*]
  split
  · simp [*]
  · simp [*]

theorem servicePortLine_at (service : List UInt8) (socktype : Nat) :
    VisitAt (servicePortLine (service ++ [0]) socktype)
      (Resolv.servicePortLine (cString 0 service) socktype) := by
  intro block i line port h
  obtain ⟨tokens, block', hsplit, hlaid, hframe⟩ := splitLine_eq 16 h
  rw [servicePortLine, hsplit, Option.bind_eq_bind, Option.bind_some, Resolv.servicePortLine]
  generalize Resolv.splitLine 16 line = words at hlaid
  cases hlaid with
  | nil => exact ⟨block', rfl, hframe⟩
  | @cons _ _ p₀ name _ _ hle hname _ hrest =>
  cases hrest with
  | nil => exact ⟨block', rfl, hframe⟩
  | @cons _ _ p₁ second _ _ hplace hsecond hend haliases =>
  dsimp only
  rw [strchr_eq (by decide) hsecond, Option.bind_eq_bind, Option.bind_some]
  have hcut := cut_append_behind slash second
  generalize cut slash second = pair at hcut
  rcases pair with ⟨number, _ | protocol⟩
  · exact ⟨block', rfl, hframe⟩
  dsimp only [Paths.behind, Option.map_some] at hcut ⊢
  rw [← hcut] at hsecond haliases hend
  obtain ⟨hnumber, hprotocol⟩ := hsecond.cut
  rw [length_append, length_cons] at hend haliases
  -- the zero over the slash is inside of its own word
  have hset : ∀ j, j ≠ p₁ + number.length → (block'.set (p₁ + number.length) 0)[j]? = block'[j]? :=
    fun j hj => getElem?_set_ne (Ne.symm hj)
  have hframe' : ∀ j, j < i ∨ i + line.length ≤ j →
      (block'.set (p₁ + number.length) 0)[j]? = block[j]? := fun j hj =>
    (hset j (by omega)).trans (hframe j hj)
  have hnames : Laid 0 (block'.set (p₁ + number.length) 0) i (i + line.length) (p₀ :: _) (name :: _) :=
    .cons hle (hname.congr fun j _ hj => hset j (by omega)) (by omega)
      ((haliases.congr fun j hj => hset j (by omega)).mono (by omega))
  rw [numericPort_eq hnumber, Option.bind_some]
  cases Resolv.numericPort number with
  | none => exact ⟨_, rfl, hframe'⟩
  | some value =>
    dsimp only
    rw [otherProtocol_eq hprotocol, anyNamed_eq hnames, Option.bind_eq_bind, Option.bind_some]
    refine ⟨_, ?_, hframe'⟩
    by_cases htcp : socktype = 1 ∧ !Resolv.strieq protocol tcp
    · rw [if_pos htcp, if_pos (decide_eq_true (.inl htcp))]
      rfl
    by_cases hudp : socktype = 2 ∧ !Resolv.strieq protocol udp
    · rw [if_neg htcp, if_pos hudp, if_pos (decide_eq_true (.inr hudp))]
      rfl
    rw [if_neg htcp, if_neg hudp, if_neg (by simpa using not_or.mpr ⟨htcp, hudp⟩),
      Option.bind_some]
    split <;> rfl

/-- The walk in memory is the walk over the lines. -/
theorem walk_eq {σ : Type} {stop : σ → Bool} {visit : Block → Nat → σ → Option (σ × Block)}
    {visitLine : List UInt8 → σ → σ} (hvisit : VisitAt visit visitLine) {turns : Nat}
    (h : StringAt 0 block i text) (hturns : text.length < turns) (s : σ) :
    walk stop visit turns block i s = some (Resolv.walk stop visitLine text s) := by
  induction turns generalizing block i text s with
  | zero => exact absurd hturns (Nat.not_lt_zero _)
  | succ turns ih =>
    rw [walk]
    by_cases hstop : stop s = true
    · rw [if_pos hstop, walk_stopped hstop]
    rw [if_neg hstop, strchr_eq (by decide) h, Option.bind_some]
    have hline := cut_append_behind newline text
    cases hcut : (cut newline text).2 with
    | none =>
      rw [hcut, Paths.behind, append_nil] at hline
      obtain ⟨block', hblock, -⟩ := hvisit block i text s h
      rw [walk_last hstop hcut, hline, Option.map_none, Option.elim_none, hblock]
      rfl
    | some next =>
      have hlength := length_of_cut hcut
      rw [hcut, Paths.behind] at hline
      rw [← hline] at h
      obtain ⟨hfirst, hnext⟩ := h.cut
      obtain ⟨block', hblock, hframe⟩ := hvisit _ i _ s hfirst
      rw [walk_next hstop hcut, Option.map_some, Option.elim_some, hblock, Option.bind_some]
      exact ih (hnext.congr fun j hj _ => hframe j (.inr (by omega))) (by omega) _

end

end Memory

/-- The file opens and tells its size, which is not above a mebibyte, and is read into memory that there
is. -/
def EtcFile.Served (file : EtcFile) : Prop :=
  file.opens ∧ (file.sized ∧ file.content.length ≤ maxFileBytes) ∧ file.allocated ∧ file.read

instance : DecidablePred EtcFile.Served := fun _ => by unfold EtcFile.Served; infer_instance

theorem resolvReadFile_eq (file : EtcFile) :
    resolvReadFile file = if file.Served then some (file.content ++ [0]) else none := by
  rw [resolvReadFile]
  by_cases hopens : file.opens = true
  case neg => rw [if_pos hopens, if_neg fun h : file.Served => hopens h.1]
  by_cases hsized : file.sized = true ∧ file.content.length ≤ maxFileBytes
  case neg =>
    rw [not_and_or, Nat.not_le] at hsized
    rw [if_neg (not_not.mpr hopens), if_pos hsized, if_neg fun h : file.Served => ?_]
    exact hsized.elim (· h.2.1.1) (Nat.not_lt.mpr h.2.1.2)
  by_cases hallocated : file.allocated = true
  case neg =>
    rw [if_neg (not_not.mpr hopens), if_neg, if_pos hallocated,
      if_neg fun h : file.Served => hallocated h.2.2.1]
    exact not_or.mpr ⟨not_not.mpr hsized.1, Nat.not_lt.mpr hsized.2⟩
  rw [if_neg (not_not.mpr hopens), if_neg, if_neg (not_not.mpr hallocated)]
  · split
    case isTrue hread => rw [if_neg fun h : file.Served => hread h.2.2.2]
    case isFalse hread => rw [if_pos ⟨hopens, hsized, hallocated, not_not.mp hread⟩]
  · exact not_or.mpr ⟨not_not.mpr hsized.1, Nat.not_lt.mpr hsized.2⟩

section
variable (file : EtcFile)

theorem stringAt_content :
    StringAt 0 (file.content ++ [0]) 0 (file.content.takeWhile (· ≠ 0)) ∧
      (file.content.takeWhile (· ≠ 0)).length < (file.content ++ [0]).length := by
  refine ⟨stringAt_cString 0 file.content, ?_⟩
  rw [length_append, length_singleton]
  exact Nat.lt_succ_of_le (List.takeWhile_sublist _).length_le

theorem hostsLookup_memory (node : List UInt8) (wantV4 wantV6 : Bool) :
    Memory.hostsLookup file node wantV4 wantV6 =
      some (if file.Served then hostsLookup file.content (cString 0 node) wantV4 wantV6 else {}) := by
  obtain ⟨hfile, hturns⟩ := stringAt_content file
  rw [Memory.hostsLookup, resolvReadFile_eq]
  by_cases hserved : file.Served
  · rw [if_pos hserved, if_pos hserved]
    exact Memory.walk_eq (Memory.hostsLine_at node wantV4 wantV6) hfile hturns {}
  · rw [if_neg hserved, if_neg hserved]

theorem servicePort_memory (service : List UInt8) (socktype : Nat) :
    Memory.servicePort file service socktype =
      some (if file.Served then servicePort file.content (cString 0 service) socktype else none) := by
  obtain ⟨hfile, hturns⟩ := stringAt_content file
  rw [Memory.servicePort, resolvReadFile_eq]
  by_cases hserved : file.Served
  · rw [if_pos hserved, if_pos hserved]
    exact Memory.walk_eq (Memory.servicePortLine_at service socktype) hfile hturns none
  · rw [if_neg hserved, if_neg hserved]

end

/-- What the lookups find, by what the lines of the files say; nothing in a file that is not served. They
come to their ends without a read outside of the memory of the file. -/
theorem table_lookups (file : EtcFile) :
    (∀ node wantV4 wantV6, ∃ result, Memory.hostsLookup file node wantV4 wantV6 = some result ∧
      result.addrs = if file.Served then
        ((((lines file.content).filterMap hostsRow).filter
          (·.Gives (cString 0 node) wantV4 wantV6)).map (·.address)).eraseDups.take resolvMaxAddrs
      else []) ∧
    ∀ service socktype, Memory.servicePort file service socktype =
      some (if file.Served then
        (((lines file.content).filterMap serviceEntry).find?
          (·.Gives (cString 0 service) socktype)).map (·.port)
      else none) := by
  constructor
  · intro node wantV4 wantV6
    refine ⟨_, hostsLookup_memory file node wantV4 wantV6, ?_⟩
    split
    · exact hostsLookup_addrs file.content (cString 0 node) wantV4 wantV6
    · rfl
  · intro service socktype
    rw [servicePort_memory, servicePort_eq]

/-- The name before a carriage return or a glued comment is not found, nor is the sixteenth one, nor any in
a file of a byte more than a mebibyte. -/
theorem table_lookups_missed :
    let row : List UInt8 := [0x31, 0x2E, 0x32, 0x2E, 0x33, 0x2E, 0x34, 0x20, 0x61]
    let found : List UInt8 → List UInt8 → Option (List Address) := fun content node =>
      (Memory.hostsLookup { content } node true true).map (·.addrs)
    found row [0x61] = some [⟨.inet, [1, 2, 3, 4]⟩] ∧
    found (row ++ [0x0D, newline]) [0x61] = some [] ∧
    found (row ++ [hash]) [0x61] = some [] ∧
    found (row ++ (replicate 14 [0x20, 0x61]).flatten ++ [0x20, 0x62]) [0x62] = some [] ∧
    found (row ++ replicate (maxFileBytes - 8) newline) [0x61] = some [] := by
  intro row found
  have hserved : ∀ {content : List UInt8}, content.length ≤ maxFileBytes →
      ({ content } : EtcFile).Served := fun hlength => ⟨rfl, ⟨rfl, hlength⟩, rfl, rfl⟩
  have hfound : ∀ {content : List UInt8} (node : List UInt8), content.length ≤ maxFileBytes →
      found content node = some ((((((lines content).filterMap hostsRow).filter
        (·.Gives (cString 0 node) true true)).map (·.address)).eraseDups.take resolvMaxAddrs)) := by
    intro content node hlength
    show Option.map _ (Memory.hostsLookup _ _ _ _) = _
    rw [hostsLookup_memory, if_pos (hserved hlength), Option.map_some, hostsLookup_addrs]
  refine ⟨(hfound _ (by decide)).trans ?_, (hfound _ (by decide)).trans ?_,
    (hfound _ (by decide)).trans ?_, (hfound _ (by decide)).trans ?_, ?_⟩
  case refine_5 =>
    have hlong : ¬ ({ content := row ++ replicate (maxFileBytes - 8) newline } : EtcFile).Served := by
      intro h
      have hlength := h.2.1.2
      rw [length_append, length_replicate] at hlength
      revert hlength
      decide
    show Option.map _ (Memory.hostsLookup _ _ _ _) = _
    rw [hostsLookup_memory, if_neg hlong]
    rfl
  all_goals decide +kernel

end Proskrnl.Resolv
