import Proskrnl.Library.CStrings
import Proskrnl.Resolv.Literals

/-!
# Numeric addresses in memory

The parsers of `wsresolv/resolv.c` on the memory that they read: a text is a place in a block, and
`text[i]` is a read that may lie outside of it. On a string they give what the parsers of its
characters give, so that no read lies behind the terminator (`Memory.resolvParseIpv6_eq`).
-/

namespace Proskrnl.Resolv
open List CStrings

abbrev Block := List UInt8

namespace Memory

/-- The loop of `resolv_parse_ipv4`; `none` for a read outside of the block. -/
def parseIpv4Loop (block : Block) (i value digits : Nat) (out : List UInt8) :
    Option (Option (List UInt8)) :=
  match _h : block[i]? with
  | none => none
  | some c =>
    match decimalValue c with
    | some d =>
      if value * 10 + d > 255 ∨ digits + 1 > 3 then some none
      else parseIpv4Loop block (i + 1) (value * 10 + d) (digits + 1) out
    | none =>
      if c = dot ∨ c = 0 then
        if digits = 0 ∨ out.length ≥ 4 then some none
        else if c = 0 then some (some (out ++ [UInt8.ofNat value]))
        else parseIpv4Loop block (i + 1) 0 0 (out ++ [UInt8.ofNat value])
      else some none
termination_by block.length - i
decreasing_by
  all_goals
    have := (List.getElem?_eq_some_iff.mp _h).1
    omega

def resolvParseIpv4 (block : Block) (i : Nat) : Option (Option (List UInt8)) :=
  (parseIpv4Loop block i 0 0 []).map (·.filter (·.length = 4))

/-- The loop over the digits of a group: its value, how many digits, and where it ends; none at a fifth
one. -/
def scanGroup (block : Block) (i value digits : Nat) : Option (Option (Nat × Nat × Nat)) :=
  match _h : block[i]? with
  | none => none
  | some c =>
    match hexValue c with
    | none => some (some (value, digits, i))
    | some d =>
      if digits + 1 > 4 then some none else scanGroup block (i + 1) (value <<< 4 ||| d) (digits + 1)
termination_by block.length - i
decreasing_by
  have := (List.getElem?_eq_some_iff.mp _h).1
  omega

/-- The loop that looks for a dot before the next colon, and where it ends. -/
def scanPart (block : Block) (k : Nat) (seesDot : Bool) : Option (Bool × Nat) :=
  match _h : block[k]? with
  | none => none
  | some c =>
    if c = 0 ∨ c = colon then some (seesDot, k) else scanPart block (k + 1) (seesDot || c == dot)
termination_by block.length - k
decreasing_by
  have := (List.getElem?_eq_some_iff.mp _h).1
  omega

def seesQuad (block : Block) (i : Nat) : Option Bool := do
  let (seesDot, k) ← scanPart block i false
  let c ← block[k]?
  return seesDot && c == 0

inductive Turn
  | done (groups : List Nat) (gap : Option Nat)
  | next (i : Nat) (groups : List Nat) (gap : Option Nat)

/-- What follows a group. -/
def behindGroup (block : Block) (i : Nat) (groups : List Nat) (gap : Option Nat) :
    Option (Except Refusal Turn) := do
  let c ← block[i]?
  if c = 0 then return .ok (.done groups gap)
  else if c ≠ colon then return .error .text
  else
    let c ← block[i + 1]?
    if c ≠ colon then return .ok (.next (i + 1) groups gap)
    else if gap.isSome then return .error .text
    else
      let c ← block[i + 2]?
      if c = 0 then return .ok (.done groups (some groups.length))
      else return .ok (.next (i + 2) groups (some groups.length))

/-- A turn of the loop of `resolv_parse_ipv6`. -/
def turn (block : Block) (i : Nat) (groups : List Nat) (gap : Option Nat) :
    Option (Except Refusal Turn) := do
  if ← seesQuad block i then
    match ← resolvParseIpv4 block i with
    | some [a, b, c, d] =>
      if groups.length > 6 then return .error .text
      else return do
        let groups ← push groups (joinBytes a b)
        let groups ← push groups (joinBytes c d)
        return .done groups gap
    | _ => return .error .text
  else
    match ← scanGroup block i 0 0 with
    | none => return .error .text
    | some (value, digits, i) =>
      if digits = 0 ∨ groups.length ≥ 8 then return .error .text
      else
        match push groups value with
        | .error refusal => return .error refusal
        | .ok groups => behindGroup block i groups gap

/-- The loop of `resolv_parse_ipv6`, by the turns that are left. -/
def parseGroups (block : Block) : Nat → Nat → List Nat → Option Nat →
    Option (Except Refusal (List Nat × Option Nat))
  | 0, _, _, _ => none
  | turns + 1, i, groups, gap =>
    (turn block i groups gap).bind fun
    | .error refusal => some (.error refusal)
    | .ok (.done groups gap) => some (.ok (groups, gap))
    | .ok (.next i groups gap) => parseGroups block turns i groups gap

/-- `text[0] == ':' && text[1] == ':'` -/
def beginsWithGap (block : Block) (i : Nat) : Option Bool := do
  let c ← block[i]?
  if c = colon then return (← block[i + 1]?) == colon else return false

def gather (block : Block) (i : Nat) : Option (Except Refusal (List Nat × Option Nat)) := do
  if ← beginsWithGap block i then
    if (← block[i + 2]?) = 0 then return .ok ([], some 0)
    else parseGroups block block.length (i + 2) [] (some 0)
  else parseGroups block block.length i [] none

/-- `resolv_parse_ipv6`; `none` for a read outside of the block, or a loop that takes more turns than the
block has bytes. -/
def resolvParseIpv6 (block : Block) (i : Nat) : Option (Except Refusal (List UInt8)) :=
  (gather block i).map fun r => r.bind fun (groups, gap) => finish groups gap

section
variable {block : Block} {i value digits : Nat} {out text : List UInt8} {c : UInt8}
  {groups : List Nat} {gap : Option Nat}

theorem parseIpv4Loop_read (h : block[i]? = some c) : parseIpv4Loop block i value digits out =
    match decimalValue c with
    | some d =>
      if value * 10 + d > 255 ∨ digits + 1 > 3 then some none
      else parseIpv4Loop block (i + 1) (value * 10 + d) (digits + 1) out
    | none =>
      if c = dot ∨ c = 0 then
        if digits = 0 ∨ out.length ≥ 4 then some none
        else if c = 0 then some (some (out ++ [UInt8.ofNat value]))
        else parseIpv4Loop block (i + 1) 0 0 (out ++ [UInt8.ofNat value])
      else some none := by
  conv_lhs => rw [parseIpv4Loop]
  split <;> rename_i heq <;> cases h.symm.trans heq
  rfl

theorem parseIpv4Loop_eq (h : StringAt 0 block i text) :
    parseIpv4Loop block i value digits out = some (Resolv.parseIpv4Loop text value digits out) := by
  induction h generalizing value digits out with
  | nil hstop =>
    rw [parseIpv4Loop_read hstop, Resolv.parseIpv4Loop, show decimalValue 0 = none by decide]
    dsimp only
    rw [if_pos (.inr rfl), if_pos rfl]
    split <;> rfl
  | @cons i c text hc hne _ ih =>
    rw [parseIpv4Loop_read hc, Resolv.parseIpv4Loop]
    cases decimalValue c with
    | some d =>
      dsimp only
      split
      · rfl
      · exact ih
    | none =>
      by_cases hdot : c = dot
      · simp only [hdot, true_or, if_true, ne_eq, not_true_eq_false, if_false]
        split
        · rfl
        · rw [if_neg (by decide)]
          exact ih
      · simp only [hdot, hne, or_self, if_false, ne_eq, not_false_eq_true, if_true]

theorem resolvParseIpv4_eq (h : StringAt 0 block i text) :
    resolvParseIpv4 block i = some (Resolv.resolvParseIpv4 text) := by
  rw [resolvParseIpv4, parseIpv4Loop_eq h]
  rfl

theorem scanGroup_read (h : block[i]? = some c) : scanGroup block i value digits =
    match hexValue c with
    | none => some (some (value, digits, i))
    | some d =>
      if digits + 1 > 4 then some none
      else scanGroup block (i + 1) (value <<< 4 ||| d) (digits + 1) := by
  conv_lhs => rw [scanGroup]
  split <;> rename_i heq <;> cases h.symm.trans heq
  rfl

/-- The digits end at the place where what follows them stands. -/
theorem scanGroup_eq (value digits : Nat) (h : StringAt 0 block i text) :
    match Resolv.scanGroup text value digits with
    | none => scanGroup block i value digits = some none
    | some (v, n, rest) => ∃ j, scanGroup block i value digits = some (some (v, n, j)) ∧
        StringAt 0 block j rest := by
  induction h generalizing value digits with
  | nil hstop =>
    rw [scanGroup_read hstop, show hexValue 0 = none by decide]
    exact ⟨_, rfl, .nil hstop⟩
  | @cons i c text hc hne htail ih =>
    rw [scanGroup_read hc, Resolv.scanGroup]
    cases hexValue c with
    | none => exact ⟨i, rfl, .cons hc hne htail⟩
    | some d =>
      dsimp only
      by_cases hfifth : digits + 1 > 4
      · rw [if_pos hfifth, if_pos hfifth]
      · rw [if_neg hfifth, if_neg hfifth]
        exact ih _ _

theorem scanPart_read {k : Nat} {seesDot : Bool} (h : block[k]? = some c) :
    scanPart block k seesDot =
      if c = 0 ∨ c = colon then some (seesDot, k)
      else scanPart block (k + 1) (seesDot || c == dot) := by
  conv_lhs => rw [scanPart]
  split <;> rename_i heq <;> cases h.symm.trans heq
  rfl

theorem scanPart_eq (h : StringAt 0 block i text) (seesDot : Bool) :
    scanPart block i seesDot = some (seesDot || (text.takeWhile (· != colon)).contains dot,
      i + (text.takeWhile (· != colon)).length) := by
  induction h generalizing seesDot with
  | nil hstop =>
    rw [scanPart_read hstop, if_pos (.inl rfl)]
    simp
  | @cons i c text hc hne _ ih =>
    rw [scanPart_read hc]
    by_cases hcolon : c = colon
    · simp [hcolon]
    · rw [if_neg (not_or.mpr ⟨hne, hcolon⟩), ih, takeWhile_cons_of_pos (by simpa using hcolon), length_cons, contains_cons,
        Bool.or_assoc, BEq.comm (a := c), Nat.add_assoc, Nat.add_comm 1]

theorem seesQuad_eq (h : StringAt 0 block i text) :
    seesQuad block i = some (Resolv.seesQuad text) := by
  rw [seesQuad, scanPart_eq h, Resolv.seesQuad]
  have hsplit := takeWhile_append_dropWhile (p := (· != colon)) (l := text)
  have hhead := head?_dropWhile_not (· != colon) text
  generalize text.takeWhile (· != colon) = part at hsplit ⊢
  cases hrest : text.dropWhile (· != colon) with
  | nil =>
    rw [hrest, append_nil] at hsplit
    subst hsplit
    simp [h.terminated]
  | cons c rest =>
    rw [hrest] at hhead hsplit
    subst hsplit
    have hcolon : c = colon := by simpa using hhead
    have hzero : (c == 0) = false := by rw [hcolon]; decide
    have hlength : (part.length == (part ++ c :: rest).length) = false := by
      rw [beq_eq_false_iff_ne, length_append, length_cons]
      omega
    rw [hlength, Bool.and_false]
    simp [h.getElem, hzero]

/-- The turns of the two parsers: the same, and on at the place where the rest of the text stands. -/
inductive TurnAt (block : Block) : Except Refusal Resolv.Turn → Except Refusal Turn → Prop
  | error {refusal : Refusal} : TurnAt block (.error refusal) (.error refusal)
  | done {groups : List Nat} {gap : Option Nat} : TurnAt block (.ok (.done groups gap)) (.ok (.done groups gap))
  | next {i : Nat} {text : List UInt8} {groups : List Nat} {gap : Option Nat} :
    StringAt 0 block i text → TurnAt block (.ok (.next text groups gap)) (.ok (.next i groups gap))

/-- `turn` behind its group. -/
def afterGroup (rest : List UInt8) (groups : List Nat) (gap : Option Nat) :
    Except Refusal Resolv.Turn :=
  match rest with
  | [] => .ok (.done groups gap)
  | c :: rest =>
    if c ≠ colon then .error .text
    else if rest.head? ≠ some colon then .ok (.next rest groups gap)
    else if gap.isSome then .error .text
    else if rest.tail = [] then .ok (.done groups (some groups.length))
    else .ok (.next rest.tail groups (some groups.length))

theorem behindGroup_eq (h : StringAt 0 block i text) (groups : List Nat) (gap : Option Nat) :
    ∃ r, behindGroup block i groups gap = some r ∧ TurnAt block (afterGroup text groups gap) r := by
  cases h with
  | nil hstop =>
    rw [behindGroup, hstop]
    exact ⟨_, rfl, .done⟩
  | @cons _ c rest hc hne htail =>
    rw [behindGroup, hc, afterGroup]
    simp only [Option.bind_eq_bind, Option.bind_some, if_neg hne, htail.read, ne_eq,
      htail.headD_eq_iff_head? (c := colon) (by decide)]
    by_cases hcolon : c = colon
    case neg => exact ⟨_, if_pos hcolon, by rw [if_pos hcolon]; exact .error⟩
    by_cases hhead : rest.head? = some colon
    case neg =>
      simp only [hcolon, hhead, not_true_eq_false, not_false_eq_true, if_true, if_false]
      exact ⟨_, rfl, .next htail⟩
    obtain ⟨behind, rfl⟩ := List.head?_eq_some_iff.mp hhead
    cases htail with
    | cons _ _ hbehind =>
    cases gap with
    | some gap =>
      simp only [hcolon, hhead, not_true_eq_false, if_false, Option.isSome_some, if_true]
      exact ⟨_, rfl, .error⟩
    | none =>
      simp only [hcolon, hhead, not_true_eq_false, if_false, Option.isSome_none, Bool.false_eq_true,
        hbehind.read, Option.bind_some, hbehind.headD_eq_iff]
      by_cases hnil : (colon :: behind).tail = []
      · rw [if_pos hnil]
        exact ⟨_, if_pos hnil, .done⟩
      · rw [if_neg hnil]
        exact ⟨_, if_neg hnil, .next hbehind⟩

theorem turn_eq (h : StringAt 0 block i text) (groups : List Nat) (gap : Option Nat) :
    ∃ r, turn block i groups gap = some r ∧ TurnAt block (Resolv.turn text groups gap) r := by
  rw [turn, seesQuad_eq h, Resolv.turn, Option.bind_eq_bind, Option.bind_some]
  split
  case isTrue =>
    rw [resolvParseIpv4_eq h, Option.bind_eq_bind, Option.bind_some]
    rcases Resolv.resolvParseIpv4 text with _ | _ | ⟨a, _ | ⟨b, _ | ⟨c, _ | ⟨d, _ | _⟩⟩⟩⟩
    case some.cons.cons.cons.cons.nil =>
      dsimp only
      by_cases hroom : groups.length > 6
      · rw [if_pos hroom, if_pos hroom]
        exact ⟨_, rfl, .error⟩
      · rw [if_neg hroom, if_neg hroom]
        refine ⟨_, rfl, ?_⟩
        rw [push_eq (by omega)]
        change TurnAt block (push (groups ++ [_]) _ >>= _) (push (groups ++ [_]) _ >>= _)
        rw [push_eq (by rw [length_append, length_singleton]; omega)]
        exact .done
    all_goals exact ⟨_, rfl, .error⟩
  case isFalse =>
    have hscan := scanGroup_eq 0 0 h
    cases hgroup : Resolv.scanGroup text 0 0 with
    | none =>
      rw [hgroup] at hscan
      rw [hscan]
      exact ⟨_, rfl, .error⟩
    | some group =>
      obtain ⟨v, n, rest⟩ := group
      rw [hgroup] at hscan
      obtain ⟨j, hscan, hrest⟩ := hscan
      rw [hscan, Option.bind_eq_bind, Option.bind_some]
      dsimp only
      split
      case isTrue => exact ⟨_, rfl, .error⟩
      case isFalse hroom =>
        rw [push_eq (by omega)]
        exact behindGroup_eq hrest _ gap

/-- A loop that has more turns left than the text has characters comes to its end. -/
theorem parseGroups_eq {turns : Nat} (h : StringAt 0 block i text) (hturns : text.length < turns)
    (groups : List Nat) (gap : Option Nat) :
    parseGroups block turns i groups gap = some (Resolv.parseGroups text groups gap) := by
  induction turns generalizing i text groups gap with
  | zero => exact absurd hturns (Nat.not_lt_zero _)
  | succ turns ih =>
    obtain ⟨r, hturn, hat⟩ := turn_eq h groups gap
    rw [parseGroups, hturn, Option.bind_some]
    generalize hresult : Resolv.turn text groups gap = result at hat
    cases hat with
    | error => rw [parseGroups_stop hresult]
    | done => rw [parseGroups_done hresult]
    | next hrest =>
      rw [parseGroups_next hresult]
      exact ih hrest (by have := turn_next hresult; omega) _ _

theorem beginsWithGap_eq (h : StringAt 0 block i text) :
    beginsWithGap block i = some (text.take 2 == [colon, colon]) := by
  cases h with
  | nil hstop =>
    rw [beginsWithGap, hstop]
    rfl
  | @cons _ c rest hc hne htail =>
    rw [beginsWithGap, hc, htail.read]
    by_cases hcolon : c = colon
    · subst hcolon
      cases rest with
      | nil => rfl
      | cons d rest => simp
    · cases rest <;> simp [hcolon]

theorem gather_eq (h : StringAt 0 block i text) :
    gather block i = some (Resolv.gather text) := by
  have hlength := h.lt_length
  rw [gather, beginsWithGap_eq h, Resolv.gather, Option.bind_eq_bind, Option.bind_some]
  by_cases hgap : text.take 2 = [colon, colon]
  case neg =>
    rw [if_neg (by simpa using hgap), if_neg hgap]
    exact parseGroups_eq h (by omega) _ _
  obtain ⟨rest, rfl⟩ : ∃ rest, text = [colon, colon] ++ rest :=
    ⟨text.drop 2, by rw [← hgap, List.take_append_drop]⟩
  have hrest : StringAt 0 block (i + 2) rest := h.drop
  rw [if_pos (by simp), if_pos hgap, hrest.read, Resolv.behindGap]
  simp only [Option.bind_eq_bind, Option.bind_some, hrest.headD_eq_iff]
  rw [length_append] at hlength
  change (if rest = [] then _ else _) = some (if rest = [] then _ else _)
  split
  · rfl
  · exact parseGroups_eq hrest (by omega) _ _

/-- The parser reads no further than the terminator of its text, and gives what it gives for the
characters. -/
theorem resolvParseIpv6_eq (h : StringAt 0 block i text) :
    resolvParseIpv6 block i = some (Resolv.resolvParseIpv6 text) := by
  rw [resolvParseIpv6, gather_eq h]
  rfl

end

end Memory

/-- Quads and their texts round trip, and what the parser takes is what the grammar denotes. The printed
address is read back but for one kind: a longest run that reaches the last group gets a colon too many.
In memory the parsers read no further than the terminator, which may be the end of the block. -/
theorem numeric_addresses (text : List UInt8) (bytes : Nat → UInt8) :
    (∀ octets, resolvParseIpv4 text = some octets ↔ Dotted text octets ∧ octets.length = 4) ∧
    resolvParseIpv4 (formatIpv4 bytes) = some ((List.range 4).map bytes) ∧
    (∀ octets, resolvParseIpv6 text = .ok octets ↔
      ∃ groups, Denotes text groups ∧ octets = groups.flatMap groupBytes) ∧
    resolvParseIpv6 text ≠ .error .overrun ∧
    (resolvParseIpv6 (formatIpv6 bytes) = .ok ((List.range 16).map bytes) ↔
      ¬ EndsInLongestRun (groupsOf bytes)) ∧
    ∀ front behind,
      Memory.resolvParseIpv4 (front ++ (text ++ 0 :: behind)) front.length =
        some (resolvParseIpv4 (cString 0 text)) ∧
      Memory.resolvParseIpv6 (front ++ (text ++ 0 :: behind)) front.length =
        some (resolvParseIpv6 (cString 0 text)) := by
  refine ⟨fun octets => resolvParseIpv4_eq_some, resolvParseIpv4_eq_some.mpr
    ⟨dotted_formatIpv4 bytes, rfl⟩, fun octets => ⟨denotes_of_resolvParseIpv6, ?_⟩, fun h => ?_,
    round_trip bytes, fun front behind => ?_⟩
  · rintro ⟨groups, hdenotes, rfl⟩
    exact resolvParseIpv6_of_denotes hdenotes
  · cases resolvParseIpv6_error h
  · have htext := cString_append 0 front text behind
    exact ⟨Memory.resolvParseIpv4_eq htext, Memory.resolvParseIpv6_eq htext⟩

/-- The address of all zeros prints as `:::`. -/
theorem numeric_addresses_zero :
    resolvParseIpv6 (formatIpv6 fun _ => 0) ≠ .ok ((List.range 16).map fun _ => 0) := by
  intro h
  exact (round_trip _).mp h (by decide)

end Proskrnl.Resolv
