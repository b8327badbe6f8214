import Proskrnl.Library.Numerals
import Mathlib.Data.List.GetD
import Mathlib.Data.List.TakeWhile

/-!
# Numeric addresses

The literals of `wsresolv/resolv.c`: `resolv_parse_ipv4`, `resolv_parse_ipv6` and the two printers. A text
is the list of its characters, and the end of the list is the terminator; how the parsers read it from
memory is in `Resolv/Memory.lean`.
-/

namespace Proskrnl.Resolv
open Numerals List

def colon : UInt8 := 0x3A

def dot : UInt8 := 0x2E

/-! ## Dotted quads -/

def decimalValue (c : UInt8) : Option Nat := if 0x30 ≤ c ∧ c ≤ 0x39 then some (c.toNat - 0x30) else none

/-- The loop of `resolv_parse_ipv4`, over what is left of the text. -/
def parseIpv4Loop : List UInt8 → Nat → Nat → List UInt8 → Option (List UInt8)
  | [], value, digits, out =>
    if digits = 0 ∨ out.length ≥ 4 then none else some (out ++ [UInt8.ofNat value])
  | c :: rest, value, digits, out =>
    match decimalValue c with
    | some d =>
      if value * 10 + d > 255 ∨ digits + 1 > 3 then none
      else parseIpv4Loop rest (value * 10 + d) (digits + 1) out
    | none =>
      if c ≠ dot then none
      else if digits = 0 ∨ out.length ≥ 4 then none
      else parseIpv4Loop rest 0 0 (out ++ [UInt8.ofNat value])

def resolvParseIpv4 (text : List UInt8) : Option (List UInt8) :=
  (parseIpv4Loop text 0 0 []).filter (·.length = 4)

/-- The digits of `%u` and `%x`. -/
def glyph (d : Nat) : UInt8 := if d < 10 then UInt8.ofNat (0x30 + d) else UInt8.ofNat (0x61 + (d - 10))

def formatIpv4 (bytes : Nat → UInt8) : List UInt8 :=
  print glyph 10 (bytes 0).toNat ++ dot :: (print glyph 10 (bytes 1).toNat ++ dot ::
    (print glyph 10 (bytes 2).toNat ++ dot :: print glyph 10 (bytes 3).toNat))

/-- A decimal of a dotted quad: one to three digits, at most 255. -/
def Part (text : List UInt8) (value : Nat) : Prop :=
  text ≠ [] ∧ text.length ≤ 3 ∧ readFrom decimalValue 10 0 text = some value ∧ value ≤ 255

/-- Decimals between single dots. -/
inductive Dotted : List UInt8 → List UInt8 → Prop
  | last {text value} : Part text value → Dotted text [UInt8.ofNat value]
  | cons {text value rest bytes} : Part text value → Dotted rest bytes →
    Dotted (text ++ dot :: rest) (UInt8.ofNat value :: bytes)

section
variable {text t rest bytes out p result : List UInt8} {value digits v : Nat}

theorem parseIpv4Loop_digits (h : readFrom decimalValue 10 value t = some v) (hv : v ≤ 255)
    (hlength : digits + t.length ≤ 3) :
    parseIpv4Loop (t ++ rest) value digits out = parseIpv4Loop rest v (digits + t.length) out := by
  induction t generalizing value digits with
  | nil =>
    cases h
    rfl
  | cons c t ih =>
    obtain ⟨d, hd, h⟩ := Option.bind_eq_some_iff.mp h
    have hle := le_read (by decide) h
    rw [length_cons] at hlength
    rw [cons_append, parseIpv4Loop, hd]
    refine (if_neg (by omega)).trans ((ih h (by omega)).trans ?_)
    rw [length_cons, Nat.add_assoc, Nat.add_comm 1]

theorem Part.loop (h : Part t v) :
    parseIpv4Loop (t ++ rest) 0 0 out = parseIpv4Loop rest v t.length out := by
  rw [parseIpv4Loop_digits h.2.2.1 h.2.2.2 (by rw [Nat.zero_add]; exact h.2.1), Nat.zero_add]

theorem Part.length_ne (h : Part t v) : t.length ≠ 0 := fun h' => h.1 (length_eq_zero_iff.mp h')

theorem Dotted.loop (h : Dotted text bytes) (hlength : out.length + bytes.length ≤ 4) :
    parseIpv4Loop text 0 0 out = some (out ++ bytes) := by
  induction h generalizing out with
  | @last t v hpart =>
    rw [length_singleton] at hlength
    rw [← append_nil t, hpart.loop]
    exact if_neg fun h => h.elim hpart.length_ne (by omega)
  | @cons t v rest bytes hpart _ ih =>
    rw [length_cons] at hlength
    rw [hpart.loop, parseIpv4Loop, show decimalValue dot = none by decide]
    refine (if_neg (not_not.mpr rfl)).trans ((if_neg fun h => ?_).trans ((ih ?_).trans ?_))
    · exact h.elim hpart.length_ne (by omega)
    · rw [length_append, length_singleton]
      omega
    · rw [append_assoc, singleton_append]

theorem dotted_of_loop (h : parseIpv4Loop text value digits out = some result) (hp : p.length = digits)
    (hdigits : digits ≤ 3) (hread : readFrom decimalValue 10 0 p = some value) (hvalue : value ≤ 255) :
    ∃ bytes, Dotted (p ++ text) bytes ∧ result = out ++ bytes := by
  have hpart (hne : digits ≠ 0) : Part p value :=
    ⟨by rintro rfl; exact hne hp.symm, hp ▸ hdigits, hread, hvalue⟩
  induction text generalizing p value digits out with
  | nil =>
    rw [parseIpv4Loop] at h
    split at h
    · cases h
    rename_i hstop
    cases h
    rw [append_nil]
    exact ⟨_, .last (hpart fun h => hstop (.inl h)), rfl⟩
  | cons c text ih =>
    rw [parseIpv4Loop] at h
    split at h
    · rename_i d hd
      split at h
      · cases h
      rename_i hfits
      have hread' : readFrom decimalValue 10 0 (p ++ [c]) = some (value * 10 + d) := by
        rw [read_append, hread, Option.bind_some, read_singleton, hd, Option.map_some]
      have hp' : (p ++ [c]).length = digits + 1 := by rw [length_append, hp, length_singleton]
      obtain ⟨bytes, hdotted, heq⟩ := ih h hp' (by omega) hread' (by omega) fun _ =>
        ⟨by simp, by omega, hread', by omega⟩
      rw [append_assoc] at hdotted
      exact ⟨bytes, hdotted, heq⟩
    · split at h
      · cases h
      rename_i hdot
      split at h
      · cases h
      rename_i hstop
      obtain ⟨bytes, hdotted, rfl⟩ := ih (p := []) h rfl (by decide) rfl (by decide) (absurd rfl ·)
      rw [not_not.mp hdot, append_assoc]
      exact ⟨_, .cons (hpart fun h => hstop (.inl h)) hdotted, rfl⟩

theorem resolvParseIpv4_eq_some :
    resolvParseIpv4 text = some bytes ↔ Dotted text bytes ∧ bytes.length = 4 := by
  rw [resolvParseIpv4, Option.filter_eq_some_iff]
  refine ⟨fun ⟨h, hlength⟩ => ?_, fun ⟨h, hlength⟩ => ⟨h.loop (by simp [hlength]), by simpa using hlength⟩⟩
  obtain ⟨bytes', hdotted, rfl⟩ := dotted_of_loop (p := []) h rfl (by decide) rfl (by decide)
  exact ⟨hdotted, by simpa using hlength⟩

theorem dotted_formatIpv4 (bytes : Nat → UInt8) :
    Dotted (formatIpv4 bytes) ((List.range 4).map bytes) := by
  have hpart (b : UInt8) : Part (print glyph 10 b.toNat) b.toNat := by
    have hlt := b.toNat_lt
    obtain ⟨hne, hlength⟩ := length_print (k := 2) (by omega : b.toNat < 10 ^ 3)
    exact ⟨hne, hlength, read_print (by decide) (by decide), by omega⟩
  have hbyte (b : UInt8) : UInt8.ofNat b.toNat = b := UInt8.ofNat_toNat
  have h := Dotted.cons (hpart (bytes 0)) (.cons (hpart (bytes 1)) (.cons (hpart (bytes 2))
    (.last (hpart (bytes 3)))))
  rw [hbyte, hbyte, hbyte, hbyte] at h
  exact h

end

/-! ## Groups -/

def hexValue (c : UInt8) : Option Nat :=
  if 0x30 ≤ c ∧ c ≤ 0x39 then some (c.toNat - 0x30)
  else if 0x61 ≤ c ∧ c ≤ 0x66 then some (c.toNat - 0x61 + 10)
  else if 0x41 ≤ c ∧ c ≤ 0x46 then some (c.toNat - 0x41 + 10)
  else none

/-- The loop over the digits of a group; none at a fifth one. -/
def scanGroup : List UInt8 → Nat → Nat → Option (Nat × Nat × List UInt8)
  | [], value, digits => some (value, digits, [])
  | c :: rest, value, digits =>
    match hexValue c with
    | none => some (value, digits, c :: rest)
    | some d => if digits + 1 > 4 then none else scanGroup rest (value <<< 4 ||| d) (digits + 1)

/-- `(hi << 8) | lo`. -/
def joinBytes (hi lo : UInt8) : Nat := hi.toNat <<< 8 ||| lo.toNat

/-- Why there is no address: the text is refused, or a write would be behind the eight groups. -/
inductive Refusal
  | text
  | overrun
deriving DecidableEq

/-- `groups[group_count++] = group`. -/
def push (groups : List Nat) (group : Nat) : Except Refusal (List Nat) :=
  if groups.length < 8 then .ok (groups ++ [group]) else .error .overrun

/-- What stands up to the next colon has a dot and is the last of the text. -/
def seesQuad (text : List UInt8) : Bool :=
  let part := text.takeWhile (· != colon)
  part.contains dot && part.length == text.length

inductive Turn
  | done (groups : List Nat) (gap : Option Nat)
  | next (text : List UInt8) (groups : List Nat) (gap : Option Nat)

/-- A turn of the loop of `resolv_parse_ipv6`. -/
def turn (text : List UInt8) (groups : List Nat) (gap : Option Nat) : Except Refusal Turn :=
  if seesQuad text then
    match resolvParseIpv4 text with
    | some [a, b, c, d] =>
      if groups.length > 6 then .error .text
      else do
        let groups ← push groups (joinBytes a b)
        let groups ← push groups (joinBytes c d)
        return .done groups gap
    | _ => .error .text
  else
    match scanGroup text 0 0 with
    | none => .error .text
    | some (value, digits, rest) =>
      if digits = 0 ∨ groups.length ≥ 8 then .error .text
      else do
        let groups ← push groups value
        match rest with
        | [] => return .done groups gap
        | c :: rest =>
          if c ≠ colon then .error .text
          else if rest.head? ≠ some colon then return .next rest groups gap
          else if gap.isSome then .error .text
          else if rest.tail = [] then return .done groups (some groups.length)
          else return .next rest.tail groups (some groups.length)

/-- One to four hex digits. -/
def Group (text : List UInt8) (value : Nat) : Prop :=
  text ≠ [] ∧ text.length ≤ 4 ∧ readFrom hexValue 16 0 text = some value

/-- What a turn makes of what stands behind its group. -/
inductive After : List UInt8 → List Nat → Option Nat → Turn → Prop
  | done {groups gap} : After [] groups gap (.done groups gap)
  | next {rest groups gap} : rest.head? ≠ some colon →
    After (colon :: rest) groups gap (.next rest groups gap)
  | ends {groups} : After [colon, colon] groups none (.done groups (some groups.length))
  | gap {rest groups} : rest ≠ [] →
    After (colon :: colon :: rest) groups none (.next rest groups (some groups.length))

/-- What a turn makes of a text that it takes. -/
inductive Turned (groups : List Nat) (gap : Option Nat) : List UInt8 → Turn → Prop
  | quad {text a b c d} : Dotted text [a, b, c, d] →
    Turned groups gap text (.done (groups ++ [joinBytes a b, joinBytes c d]) gap)
  | group {t v rest result} : Group t v → After rest (groups ++ [v]) gap result →
    Turned groups gap (t ++ rest) result

section
variable {text t rest l r : List UInt8} {groups groups' vs left right : List Nat} {gap gap' : Option Nat}
  {value digits v n : Nat} {quad : Bool} {a b c d : UInt8} {result : Turn}

theorem hexValue_lt {c : UInt8} {d : Nat} (h : hexValue c = some d) : d < 16 := by
  simp only [hexValue, UInt8.le_iff_toNat_le, UInt8.reduceToNat] at h
  split_ifs at h <;> cases h <;> omega

theorem shift_hex (h : v < 16) : value <<< 4 ||| v = value * 16 + v :=
  (Nat.shiftLeft_add_eq_or_of_lt h value).symm.trans (by rw [Nat.shiftLeft_eq])

theorem scanGroup_append (h : readFrom hexValue 16 value t = some v) (hlength : digits + t.length ≤ 4)
    (hrest : rest.head?.bind hexValue = none) :
    scanGroup (t ++ rest) value digits = some (v, digits + t.length, rest) := by
  induction t generalizing value digits with
  | nil =>
    cases h
    cases rest with
    | nil => rfl
    | cons c rest =>
      change hexValue c = none at hrest
      rw [nil_append, scanGroup, hrest]
      rfl
  | cons c t ih =>
    obtain ⟨d, hd, h⟩ := Option.bind_eq_some_iff.mp h
    rw [length_cons] at hlength
    rw [cons_append, scanGroup, hd]
    refine (if_neg (by omega)).trans ?_
    rw [shift_hex (hexValue_lt hd), ih h (by omega), length_cons, Nat.add_assoc, Nat.add_comm 1]

theorem of_scanGroup (h : scanGroup text value digits = some (v, n, rest)) (hdigits : digits ≤ 4) :
    ∃ t, text = t ++ rest ∧ n = digits + t.length ∧ n ≤ 4 ∧ readFrom hexValue 16 value t = some v := by
  induction text generalizing value digits with
  | nil =>
    cases h
    exact ⟨[], rfl, rfl, hdigits, rfl⟩
  | cons c text ih =>
    rw [scanGroup] at h
    split at h
    · cases h
      exact ⟨[], rfl, rfl, hdigits, rfl⟩
    · rename_i d hd
      split at h
      · cases h
      obtain ⟨t, rfl, rfl, hn, hread⟩ := ih h (by omega)
      rw [shift_hex (hexValue_lt hd)] at hread
      refine ⟨c :: t, rfl, ?_, hn, ?_⟩
      · rw [length_cons, Nat.add_assoc, Nat.add_comm 1]
      · rw [readFrom, hd]
        exact hread

theorem seesQuad_iff : seesQuad text = true ↔ dot ∈ text ∧ colon ∉ text := by
  have hpart : (text.takeWhile (· != colon)).length = text.length ↔ colon ∉ text := by
    refine ⟨fun h hmem => ?_, fun h => ?_⟩
    · have heq := (List.takeWhile_prefix (· != colon)).eq_of_length h
      rw [← heq] at hmem
      simpa using mem_takeWhile_imp hmem
    · rw [takeWhile_eq_self_iff.mpr]
      intro c hc
      exact bne_iff_ne.mpr fun heq => h (heq ▸ hc)
  rw [seesQuad, Bool.and_eq_true, beq_iff_eq, hpart, contains_iff_mem]
  refine and_congr_left fun h => ?_
  rw [takeWhile_eq_self_iff.mpr]
  intro c hc
  exact bne_iff_ne.mpr fun heq => h (heq ▸ hc)

theorem Dotted.mem {bytes : List UInt8} (h : Dotted text bytes) : colon ∉ text ∧
    (bytes.length = 4 → dot ∈ text) := by
  have hcolon {t : List UInt8} {v : Nat} (h : Part t v) : colon ∉ t := fun hmem =>
    value_of_readFrom h.2.2.1 colon hmem (by decide)
  induction h with
  | last hpart => exact ⟨hcolon hpart, nofun⟩
  | cons hpart _ ih =>
    refine ⟨fun hmem => ?_, fun _ => by simp⟩
    obtain hmem | hmem := mem_append.mp hmem
    · exact hcolon hpart hmem
    · exact ih.1 ((mem_cons.mp hmem).resolve_left (by decide))

theorem push_eq {groups : List Nat} {group : Nat} (h : groups.length < 8) :
    push groups group = .ok (groups ++ [group]) := if_pos h

theorem Group.turn (h : Group t v) (hroom : groups.length < 8)
    (hafter : After rest (groups ++ [v]) gap result) : turn (t ++ rest) groups gap = .ok result := by
  have hhex (x : UInt8) (hx : hexValue x = none) : x ∉ t := fun hmem => value_of_readFrom h.2.2 x hmem hx
  have hquad : ¬ seesQuad (t ++ rest) = true := by
    rw [seesQuad_iff, mem_append, mem_append, not_or]
    cases hafter with
    | done => exact fun h => h.1.elim (hhex dot (by decide)) not_mem_nil
    | _ => exact fun h => h.2.2 mem_cons_self
  have hrest : rest.head?.bind hexValue = none := by
    cases hafter with
    | done => rfl
    | _ => exact (by decide : hexValue colon = none)
  rw [Resolv.turn, if_neg hquad, scanGroup_append h.2.2 (by rw [Nat.zero_add]; exact h.2.1) hrest]
  refine (if_neg ?_).trans ?_
  · rw [Nat.zero_add]
    exact fun h' => h'.elim (fun h' => h.1 (length_eq_zero_iff.mp h')) (by omega)
  rw [push_eq hroom]
  cases hafter with
  | done => rfl
  | next hhead => exact if_pos hhead
  | ends => rfl
  | gap hne => exact if_neg hne

theorem Dotted.turn (h : Dotted text [a, b, c, d]) (hroom : groups.length ≤ 6) :
    turn text groups gap = .ok (.done (groups ++ [joinBytes a b, joinBytes c d]) gap) := by
  rw [Resolv.turn, if_pos (seesQuad_iff.mpr ⟨h.mem.2 rfl, h.mem.1⟩), resolvParseIpv4_eq_some.mpr ⟨h, rfl⟩]
  refine (if_neg (by omega)).trans ?_
  rw [push_eq (by omega)]
  change (push (groups ++ [_]) _ >>= _) = _
  rw [push_eq (by rw [length_append, length_singleton]; omega)]
  simp [pure, Except.pure, bind, Except.bind]

theorem turn_cases {r : Except Refusal Turn} (h : turn text groups gap = r) :
    r = .error .text ∨ ∃ result, r = .ok result ∧ Turned groups gap text result := by
  rw [turn] at h
  split at h
  · split at h
    · rename_i a b c d hparse
      split at h
      · exact .inl h.symm
      rename_i hroom
      rw [push_eq (by omega)] at h
      change (push (groups ++ [_]) _ >>= _) = _ at h
      rw [push_eq (by rw [length_append, length_singleton]; omega), append_assoc] at h
      exact .inr ⟨_, h.symm, .quad (resolvParseIpv4_eq_some.mp hparse).1⟩
    · exact .inl h.symm
  · split at h
    · exact .inl h.symm
    rename_i v n rest hscan
    split at h
    · exact .inl h.symm
    rename_i hroom
    obtain ⟨t, rfl, rfl, hn, hread⟩ := of_scanGroup hscan (by decide)
    rw [Nat.zero_add] at hn hroom
    have hgroup : Group t v := ⟨fun h => hroom (.inl (by rw [h]; rfl)), hn, hread⟩
    rw [push_eq (by omega)] at h
    split at h
    · exact .inr ⟨_, h.symm, .group hgroup .done⟩
    split at h
    · exact .inl h.symm
    rename_i hcolon
    rw [not_not.mp hcolon]
    split at h
    · rename_i hhead
      exact .inr ⟨_, h.symm, .group hgroup (.next hhead)⟩
    rename_i hhead
    obtain ⟨u, rfl⟩ := List.head?_eq_some_iff.mp (not_not.mp hhead)
    split at h
    · exact .inl h.symm
    rename_i hgap
    obtain rfl := Option.not_isSome_iff_eq_none.mp hgap
    split at h
    · rename_i hnil
      obtain rfl : u = [] := hnil
      exact .inr ⟨_, h.symm, .group hgroup .ends⟩
    · rename_i hne
      exact .inr ⟨_, h.symm, .group hgroup (.gap hne)⟩

theorem of_turn (h : turn text groups gap = .ok result) : Turned groups gap text result := by
  obtain heq | ⟨_, heq, hturned⟩ := turn_cases h <;> cases heq
  exact hturned

theorem turn_error {refusal : Refusal} (h : turn text groups gap = .error refusal) : refusal = .text := by
  obtain heq | ⟨_, heq, -⟩ := turn_cases h <;> cases heq
  rfl

theorem turn_next (h : turn text groups gap = .ok (.next rest groups' gap')) :
    rest.length < text.length := by
  cases of_turn h with
  | group _ hafter => cases hafter <;> simp only [length_append, length_cons] <;> omega

end

/-! ## The parser -/

def parseGroups (text : List UInt8) (groups : List Nat) (gap : Option Nat) :
    Except Refusal (List Nat × Option Nat) :=
  match _h : turn text groups gap with
  | .error refusal => .error refusal
  | .ok (.done groups gap) => .ok (groups, gap)
  | .ok (.next text groups gap) => parseGroups text groups gap
termination_by text.length
decreasing_by exact turn_next _h

def groupBytes (group : Nat) : List UInt8 := [UInt8.ofNat (group >>> 8), UInt8.ofNat (group &&& 0xFF)]

/-- Behind `done`: the groups before the gap at the front, those behind it at the end, zeros between. -/
def finish (groups : List Nat) (gap : Option Nat) : Except Refusal (List UInt8) :=
  match gap with
  | none => if groups.length ≠ 8 then .error .text else .ok (groups.flatMap groupBytes)
  | some gap =>
    if groups.length ≥ 8 then .error .text
    else .ok ((groups.take gap ++ List.replicate (8 - groups.length) 0 ++ groups.drop gap).flatMap
      groupBytes)

/-- Behind a gap the text may end. -/
def behindGap (text : List UInt8) (groups : List Nat) : Except Refusal (List Nat × Option Nat) :=
  if text = [] then .ok (groups, some groups.length) else parseGroups text groups (some groups.length)

def gather (text : List UInt8) : Except Refusal (List Nat × Option Nat) :=
  if text.take 2 = [colon, colon] then behindGap (text.drop 2) [] else parseGroups text [] none

def resolvParseIpv6 (text : List UInt8) : Except Refusal (List UInt8) :=
  (gather text).bind fun (groups, gap) => finish groups gap

/-- Groups between single colons, with a dotted quad as the last two if the flag allows it. -/
inductive Groups (quad : Bool) : List UInt8 → List Nat → Prop
  | last {text value} : Group text value → Groups quad text [value]
  | quad {text a b c d} : quad = true → Dotted text [a, b, c, d] →
    Groups quad text [joinBytes a b, joinBytes c d]
  | cons {text value rest groups} : Group text value → Groups quad rest groups →
    Groups quad (text ++ colon :: rest) (value :: groups)

/-- What stands on a side of a gap. -/
def Side (quad : Bool) (text : List UInt8) (groups : List Nat) : Prop :=
  text = [] ∧ groups = [] ∨ Groups quad text groups

/-- The eight groups that a text denotes. -/
inductive Denotes : List UInt8 → List Nat → Prop
  | full {text groups} : Groups true text groups → groups.length = 8 → Denotes text groups
  | gap {l r left right} : Side false l left → Side true r right → left.length + right.length < 8 →
    Denotes (l ++ colon :: colon :: r)
      (left ++ List.replicate (8 - (left.length + right.length)) 0 ++ right)

section
variable {text t rest l r : List UInt8} {groups groups' vs left right : List Nat} {gap gap' : Option Nat}
  {v : Nat} {quad : Bool}

theorem parseGroups_stop {e : Refusal} (h : turn text groups gap = .error e) :
    parseGroups text groups gap = .error e := by
  rw [parseGroups]
  split <;> rename_i heq <;> rw [h] at heq <;> cases heq
  rfl

theorem parseGroups_done (h : turn text groups gap = .ok (.done groups' gap')) :
    parseGroups text groups gap = .ok (groups', gap') := by
  rw [parseGroups]
  split <;> rename_i heq <;> rw [h] at heq <;> cases heq
  rfl

theorem parseGroups_next (h : turn text groups gap = .ok (.next rest groups' gap')) :
    parseGroups text groups gap = parseGroups rest groups' gap' := by
  rw [parseGroups]
  split <;> rename_i heq <;> rw [h] at heq <;> cases heq
  rfl

theorem Group.head (h : Group t v) : (t ++ rest).head? ≠ some colon := by
  obtain ⟨c, u, rfl⟩ := exists_cons_of_ne_nil h.1
  intro heq
  cases heq
  exact value_of_readFrom h.2.2 colon mem_cons_self (by decide)

theorem Groups.head (h : Groups quad text vs) : text.head? ≠ some colon ∧ text ≠ [] := by
  cases h with
  | last hgroup => exact ⟨append_nil text ▸ hgroup.head, hgroup.1⟩
  | quad _ hdotted =>
    have hmem := hdotted.mem
    exact ⟨fun h => hmem.1 (List.mem_of_mem_head? h), ne_nil_of_mem (hmem.2 rfl)⟩
  | cons hgroup _ => exact ⟨hgroup.head, append_ne_nil_of_left_ne_nil hgroup.1 _⟩

theorem Groups.parse (h : Groups true text vs) (hlength : groups.length + vs.length ≤ 8) :
    parseGroups text groups gap = .ok (groups ++ vs, gap) := by
  induction h generalizing groups with
  | @last t v hgroup =>
    rw [length_singleton] at hlength
    rw [← append_nil t]
    exact parseGroups_done (hgroup.turn hlength .done)
  | quad _ hdotted => exact parseGroups_done (hdotted.turn (Nat.le_sub_of_add_le hlength))
  | cons hgroup hrest ih =>
    rw [length_cons] at hlength
    rw [parseGroups_next (hgroup.turn (by omega) (.next hrest.head.1)), ih, append_assoc]
    · rfl
    · rw [length_append, length_singleton]
      omega

theorem Groups.parse_gap (h : Groups false l left) (hlength : groups.length + left.length ≤ 8) :
    parseGroups (l ++ colon :: colon :: r) groups none = behindGap r (groups ++ left) := by
  induction h generalizing groups with
  | last hgroup =>
    rw [length_singleton] at hlength
    rw [behindGap]
    split
    · rename_i hr
      rw [hr]
      exact parseGroups_done (hgroup.turn hlength .ends)
    · rename_i hr
      exact parseGroups_next (hgroup.turn hlength (.gap hr))
  | quad hquad => cases hquad
  | @cons t v l left hgroup hrest ih =>
    rw [length_cons] at hlength
    have hhead : (l ++ colon :: colon :: r).head? ≠ some colon := by
      obtain ⟨c, u, rfl⟩ := exists_cons_of_ne_nil hrest.head.2
      exact hrest.head.1
    rw [append_assoc, cons_append, parseGroups_next (hgroup.turn (by omega) (.next hhead)), ih,
      append_assoc]
    · rfl
    · rw [length_append, length_singleton]
      omega

theorem of_parseGroups (h : parseGroups text groups gap = .ok (groups', gap')) :
    (∃ vs, Groups true text vs ∧ groups' = groups ++ vs ∧ gap' = gap) ∨
    gap = none ∧ ∃ l r left right, text = l ++ colon :: colon :: r ∧ Groups false l left ∧
      Side true r right ∧ groups' = groups ++ left ++ right ∧ gap' = some (groups ++ left).length := by
  induction text, groups, gap using parseGroups.induct with
  | case1 text groups gap refusal hturn =>
    rw [parseGroups_stop hturn] at h
    cases h
  | case2 text groups gap gs g hturn =>
    rw [parseGroups_done hturn] at h
    cases h
    cases of_turn hturn with
    | quad hdotted => exact .inl ⟨_, .quad rfl hdotted, rfl, rfl⟩
    | @group t v rest _ hgroup hafter =>
      cases hafter with
      | done =>
        rw [append_nil]
        exact .inl ⟨_, .last hgroup, rfl, rfl⟩
      | ends => exact .inr ⟨rfl, t, [], [v], [], rfl, .last hgroup, .inl ⟨rfl, rfl⟩, by simp, rfl⟩
  | case3 text groups gap text' gs g hturn ih =>
    rw [parseGroups_next hturn] at h
    cases of_turn hturn with
    | @group t v rest _ hgroup hafter =>
      cases hafter with
      | next _ =>
        obtain ⟨vs, hgroups, rfl, rfl⟩ | ⟨rfl, l, r, left, right, rfl, hleft, hright, rfl, rfl⟩ := ih h
        · exact .inl ⟨v :: vs, .cons hgroup hgroups, by simp, rfl⟩
        · exact .inr ⟨rfl, t ++ colon :: l, r, v :: left, right, by simp, .cons hgroup hleft, hright,
            by simp, by simp⟩
      | gap _ =>
        obtain ⟨vs, hgroups, rfl, rfl⟩ | ⟨hnone, -⟩ := ih h
        · exact .inr ⟨rfl, t, _, [v], vs, rfl, .last hgroup, .inr hgroups, rfl, rfl⟩
        · cases hnone

theorem parseGroups_error {refusal : Refusal} (h : parseGroups text groups gap = .error refusal) :
    refusal = .text := by
  induction text, groups, gap using parseGroups.induct with
  | case1 text groups gap refusal' hturn =>
    rw [parseGroups_stop hturn] at h
    cases h
    exact turn_error hturn
  | case2 text groups gap gs g hturn =>
    rw [parseGroups_done hturn] at h
    cases h
  | case3 text groups gap text' gs g hturn ih =>
    rw [parseGroups_next hturn] at h
    exact ih h

theorem gather_eq (h : text.head? ≠ some colon) : gather text = parseGroups text [] none := by
  cases text with
  | nil => rfl
  | cons c text => exact if_neg fun heq => h (congrArg some (List.cons.inj heq).1)

theorem resolvParseIpv6_gap (h : Side false l left) (hlength : left.length ≤ 8) :
    resolvParseIpv6 (l ++ colon :: colon :: r) = (behindGap r left).bind fun x => finish x.1 x.2 := by
  obtain ⟨rfl, rfl⟩ | h := h
  · rfl
  have hhead : (l ++ colon :: colon :: r).head? ≠ some colon := by
    obtain ⟨c, u, rfl⟩ := exists_cons_of_ne_nil h.head.2
    exact h.head.1
  rw [resolvParseIpv6, gather_eq hhead, h.parse_gap (by simpa using hlength)]
  rfl

theorem resolvParseIpv6_of_denotes (h : Denotes text groups) :
    resolvParseIpv6 text = .ok (groups.flatMap groupBytes) := by
  cases h with
  | full h hlength =>
    rw [resolvParseIpv6, gather_eq h.head.1, h.parse (by rw [hlength]; rfl)]
    exact if_neg (not_not.mpr hlength)
  | @gap l r left right hleft hright hlength =>
    have hparse : behindGap r left = .ok (left ++ right, some left.length) := by
      obtain ⟨rfl, rfl⟩ | hright := hright
      · rw [append_nil]
        rfl
      · rw [behindGap, if_neg hright.head.2, hright.parse hlength.le]
    rw [resolvParseIpv6_gap hleft (by omega), hparse]
    change finish (left ++ right) (some left.length) = _
    rw [finish, if_neg (by rw [length_append]; omega), take_left, drop_left,
      length_append]

theorem denotes_of_resolvParseIpv6 {bytes : List UInt8} (h : resolvParseIpv6 text = .ok bytes) :
    ∃ groups, Denotes text groups ∧ bytes = groups.flatMap groupBytes := by
  have hparts : ∃ groups gap, gather text = .ok (groups, gap) ∧ finish groups gap = .ok bytes := by
    rw [resolvParseIpv6] at h
    cases hparse : gather text with
    | error =>
      rw [hparse] at h
      cases h
    | ok x =>
      rw [hparse] at h
      exact ⟨x.1, x.2, rfl, h⟩
  obtain ⟨groups, gap, hparse, hfinish⟩ := hparts
  rw [gather] at hparse
  have hdone {l r : List UInt8} {left right : List Nat} (hleft : Side false l left)
      (hright : Side true r right) (hfinish : finish (left ++ right) (some left.length) = .ok bytes) :
      ∃ groups, Denotes (l ++ colon :: colon :: r) groups ∧ bytes = groups.flatMap groupBytes := by
    rw [finish] at hfinish
    split at hfinish
    · cases hfinish
    rename_i hroom
    cases hfinish
    rw [take_left, drop_left]
    rw [length_append] at hroom ⊢
    exact ⟨_, .gap hleft hright (by omega), rfl⟩
  split at hparse
  · rename_i hcolons
    have htext : text = [] ++ colon :: colon :: text.drop 2 := by
      conv_lhs => rw [← take_append_drop 2 text, hcolons]
      rfl
    rw [htext]
    rw [behindGap] at hparse
    split at hparse
    · rename_i hnil
      cases hparse
      rw [hnil]
      exact hdone (.inl ⟨rfl, rfl⟩) (.inl ⟨rfl, rfl⟩) hfinish
    · obtain ⟨vs, hgroups, rfl, rfl⟩ | ⟨hnone, -⟩ := of_parseGroups hparse
      · exact hdone (.inl ⟨rfl, rfl⟩) (.inr hgroups) hfinish
      · cases hnone
  · obtain ⟨vs, hgroups, rfl, rfl⟩ | ⟨-, l, r, left, right, rfl, hleft, hright, rfl, rfl⟩ :=
      of_parseGroups hparse
    · rw [finish] at hfinish
      split at hfinish
      · cases hfinish
      rename_i hlength
      cases hfinish
      exact ⟨_, .full hgroups (not_not.mp hlength), rfl⟩
    · exact hdone (.inr hleft) hright hfinish

theorem resolvParseIpv6_error {refusal : Refusal} (h : resolvParseIpv6 text = .error refusal) :
    refusal = .text := by
  have hfinish {groups : List Nat} {gap : Option Nat} (h : finish groups gap = .error refusal) :
      refusal = .text := by
    rw [finish.eq_def] at h
    split at h <;> split at h <;> cases h <;> rfl
  rw [resolvParseIpv6] at h
  cases hparse : gather text with
  | ok x =>
    rw [hparse] at h
    exact hfinish h
  | error =>
    rw [hparse] at h
    cases h
    rw [gather] at hparse
    split at hparse
    · rw [behindGap] at hparse
      split at hparse
      · cases hparse
      · exact parseGroups_error hparse
    · exact parseGroups_error hparse

end

/-! ## The printed address -/

/-- The loop that looks for the longest run of zero groups; `run` is where the current one starts. -/
def findRun : List Nat → Nat → Option Nat → Option (Nat × Nat) → Option (Nat × Nat)
  | [], _, _, best => best
  | group :: rest, i, run, best =>
    if group = 0 then
      let start := run.getD i
      let length := i - start + 1
      findRun rest (i + 1) (some start)
        (if length > (best.map Prod.snd).getD 0 then some (start, length) else best)
    else findRun rest (i + 1) none best

/-- The run that is left out: from where, and how long. -/
def bestRun (groups : List Nat) : Option (Nat × Nat) :=
  (findRun groups 0 none none).filter fun best => 2 ≤ best.2

/-- The loop that prints the groups. -/
def printGroups (groups : List Nat) (best : Option (Nat × Nat)) : Nat → Nat → List UInt8
  | 0, _ => []
  | turns + 1, i =>
    if i ≥ 8 then []
    else
      match best.filter (·.1 = i) with
      | some (_, length) =>
        colon :: ((if i = 0 then [colon] else []) ++
          ((if i + (length - 1) = 7 then [colon] else []) ++
            printGroups groups best turns (i + (length - 1) + 1)))
      | none =>
        print glyph 16 (groups.getD i 0) ++ ((if i ≠ 7 then [colon] else []) ++
          printGroups groups best turns (i + 1))

def groupsOf (bytes : Nat → UInt8) : List Nat :=
  (List.range 8).map fun i => joinBytes (bytes (i * 2)) (bytes (i * 2 + 1))

def formatIpv6 (bytes : Nat → UInt8) : List UInt8 :=
  printGroups (groupsOf bytes) (bestRun (groupsOf bytes)) 8 0

/-- The last groups are zero, two of them or more, and no run of as many zeros starts before. -/
def EndsInLongestRun (groups : List Nat) : Prop :=
  ∃ n ≤ 8, 2 ≤ n ∧ (∀ i < 8, 8 - n ≤ i → groups.getD i 0 = 0) ∧
    ∀ start < 8 - n, ∃ i < n, groups.getD (start + i) 0 ≠ 0

section
variable {groups : List Nat} {quad : Bool} {v : Nat}

theorem group_print (h : v < 0x10000) : Group (print glyph 16 v) v := by
  obtain ⟨hne, hlength⟩ := length_print (k := 3) (show v < 16 ^ 4 from h)
  exact ⟨hne, hlength, read_print (by decide) (by decide)⟩

theorem printGroups_end {best : Option (Nat × Nat)} {turns : Nat} :
    printGroups groups best turns 8 = [] := by
  cases turns <;> rfl

section
variable {best : Option (Nat × Nat)} {n i k m : Nat} (hlength : groups.length = 8)
  (hlt : ∀ v ∈ groups, v < 0x10000)
include hlength hlt

theorem printGroups_none (hi : i < 8) (hbest : best.filter (·.1 = i) = none) :
    Group (print glyph 16 (groups.getD i 0)) (groups.getD i 0) ∧
    groups.drop i = groups.getD i 0 :: groups.drop (i + 1) ∧
    printGroups groups best (n + 1) i = print glyph 16 (groups.getD i 0) ++
      ((if i ≠ 7 then [colon] else []) ++ printGroups groups best n (i + 1)) := by
  have hi' : i < groups.length := hlength ▸ hi
  have hget := getD_eq_getElem groups 0 hi'
  refine ⟨group_print (hget ▸ hlt _ (getElem_mem hi')), ?_, ?_⟩
  · rw [hget]
    exact List.drop_eq_getElem_cons hi'
  · rw [printGroups, if_neg (Nat.not_le.mpr hi), hbest]

theorem groups_printGroups (hbest : ∀ j ≥ i, best.filter (·.1 = j) = none) (hi : i < 8)
    (hturns : 8 ≤ i + n) : Groups quad (printGroups groups best n i) (groups.drop i) := by
  induction n generalizing i with
  | zero => omega
  | succ n ih =>
    obtain ⟨hgroup, hdrop, hprint⟩ := printGroups_none (n := n) hlength hlt hi (hbest i i.le_refl)
    rw [hprint, hdrop]
    split
    · exact .cons hgroup (ih (fun j hj => hbest j (by omega)) (by omega) (by omega))
    · obtain rfl : i = 7 := by omega
      rw [drop_of_length_le hlength.le, printGroups_end]
      exact .last (by rwa [append_nil, append_nil])

theorem printGroups_before {start : Nat} (hstart : i + k + 1 = start) (hrun : start < 8) :
    ∃ l, Groups false l ((groups.drop i).take (k + 1)) ∧
      printGroups groups (some (start, m)) (n + k + 1) i =
        l ++ colon :: printGroups groups (some (start, m)) n start := by
  have hstep {n i : Nat} (hi : i < start) := printGroups_none (n := n) hlength hlt
    (hi.trans hrun) (Option.filter_some_neg (by simpa using hi.ne') : (some (start, m)).filter _ = none)
  induction k generalizing i with
  | zero =>
    obtain ⟨hgroup, hdrop, hprint⟩ := hstep (n := n) (by omega : i < start)
    rw [Nat.add_zero, hprint, hdrop, if_pos (by omega), ← hstart]
    exact ⟨_, .last hgroup, rfl⟩
  | succ k ih =>
    obtain ⟨hgroup, hdrop, hprint⟩ := hstep (n := n + (k + 1)) (by omega : i < start)
    obtain ⟨l, hgroups, hrest⟩ := ih (i := i + 1) (by omega)
    rw [hprint, hdrop, if_pos (by omega), take_succ_cons]
    refine ⟨_, .cons hgroup hgroups, ?_⟩
    rw [append_assoc, cons_append, cons_append, ← hrest]
    rfl

theorem resolvParseIpv6_printGroups {start : Nat} (htwo : 2 ≤ m) (hle : start + m ≤ 8)
    (hzero : (groups.drop start).take m = List.replicate m 0) :
    resolvParseIpv6 (printGroups groups (some (start, m)) 8 0) = .ok (groups.flatMap groupBytes) ↔
      start + m ≠ 8 := by
  have hat {n : Nat} : printGroups groups (some (start, m)) (n + 1) start = colon ::
      ((if start = 0 then [colon] else []) ++ ((if start + m = 8 then [colon] else []) ++
        printGroups groups (some (start, m)) n (start + m))) := by
    rw [printGroups, if_neg (by omega), Option.filter_some_pos (by simp)]
    simp only [show start + (m - 1) + 1 = start + m by omega,
      show start + (m - 1) = 7 ↔ start + m = 8 by omega]
  obtain ⟨l, n, hturns, hleft, hprint⟩ : ∃ l n, 8 ≤ start + m + n ∧
      Side false l (groups.take start) ∧ printGroups groups (some (start, m)) 8 0 = l ++ colon ::
        colon :: ((if start + m = 8 then [colon] else []) ++
          printGroups groups (some (start, m)) n (start + m)) := by
    cases start with
    | zero => exact ⟨[], 7, by omega, .inl ⟨rfl, rfl⟩, hat⟩
    | succ k =>
      obtain ⟨l, hgroups, hprint⟩ := printGroups_before (m := m) (n := 6 - k + 1) hlength hlt
        (Nat.zero_add (k + 1)) (by omega)
      rw [hat, show 6 - k + 1 + k + 1 = 8 by omega] at hprint
      exact ⟨l, 6 - k, by omega, .inr hgroups, hprint⟩
  have hside : (groups.take start).length = start := by
    rw [length_take]
    omega
  rw [hprint]
  by_cases hend : start + m = 8
  · rw [resolvParseIpv6_gap hleft (by omega), if_pos hend, hend, printGroups_end, behindGap, if_neg nofun,
      parseGroups_stop (e := .text) rfl]
    exact iff_of_false nofun (absurd rfl)
  refine iff_of_true (resolvParseIpv6_of_denotes ?_) hend
  have hright : Groups true (printGroups groups (some (start, m)) n (start + m))
      (groups.drop (start + m)) :=
    groups_printGroups hlength hlt (fun j hj => Option.filter_some_neg (by simp; omega)) (by omega) hturns
  have hwhole := Denotes.gap hleft (.inr hright) (by rw [hside, length_drop]; omega)
  rw [hside, length_drop, show 8 - (start + (groups.length - (start + m))) = m by omega,
    ← hzero, ← drop_drop, append_assoc, take_append_drop, take_append_drop] at hwhole
  rwa [if_neg hend]

end

/-- What the search finds, and when it reaches the last group. -/
def Found (groups : List Nat) : Prop :=
  (∀ best ∈ bestRun groups, 2 ≤ best.2 ∧ best.1 + best.2 ≤ 8 ∧
    (groups.drop best.1).take best.2 = List.replicate best.2 0) ∧
  ((∃ best ∈ bestRun groups, best.1 + best.2 = 8) ↔ EndsInLongestRun groups)

instance : DecidablePred EndsInLongestRun := fun _ => by unfold EndsInLongestRun; infer_instance

instance : DecidablePred Found := fun _ => by unfold Found; infer_instance

theorem findRun_map {i : Nat} {run : Option Nat} {best : Option (Nat × Nat)} :
    findRun (groups.map fun v => (v != 0).toNat) i run best = findRun groups i run best := by
  induction groups generalizing i run best with
  | nil => rfl
  | cons v groups ih => cases v <;> exact ih

theorem endsInLongestRun_map :
    EndsInLongestRun (groups.map fun v => (v != 0).toNat) ↔ EndsInLongestRun groups := by
  have hget (i : Nat) : (groups.map fun v => (v != 0).toNat).getD i 0 = 0 ↔ groups.getD i 0 = 0 := by
    have hmap := List.getD_map (l := groups) (d := 0) (n := i) fun v => (v != 0).toNat
    change (groups.map _).getD i 0 = _ at hmap
    rw [hmap]
    cases groups.getD i 0 <;> simp
  simp only [EndsInLongestRun, ne_eq, hget]

theorem found_bits : ∀ a b c d e f g h : Bool,
    Found [a.toNat, b.toNat, c.toNat, d.toNat, e.toNat, f.toNat, g.toNat, h.toNat] := by
  decide +kernel

theorem found (f : Nat → Nat) : Found ((List.range 8).map f) := by
  obtain ⟨hwindow, hends⟩ : Found (((List.range 8).map f).map fun v => (v != 0).toNat) := found_bits ..
  rw [endsInLongestRun_map] at hends
  unfold bestRun at hwindow hends
  rw [findRun_map] at hwindow hends
  refine ⟨fun best hbest => ?_, hends⟩
  obtain ⟨htwo, hle, hzero⟩ := hwindow best hbest
  refine ⟨htwo, hle, ?_⟩
  rw [← map_drop, ← List.map_take, List.eq_replicate_iff, length_map] at hzero
  refine List.eq_replicate_iff.mpr ⟨hzero.1, fun v hv => ?_⟩
  have hbit := hzero.2 _ (List.mem_map_of_mem hv)
  cases v with
  | zero => rfl
  | succ v => cases hbit

theorem joinBytes_eq (hi lo : UInt8) : joinBytes hi lo = hi.toNat * 256 + lo.toNat :=
  (Nat.shiftLeft_add_eq_or_of_lt lo.toNat_lt hi.toNat).symm.trans (by rw [Nat.shiftLeft_eq])

theorem groupBytes_joinBytes (hi lo : UInt8) : groupBytes (joinBytes hi lo) = [hi, lo] := by
  have hlt := lo.toNat_lt
  have hhigh : joinBytes hi lo >>> 8 = hi.toNat := by
    rw [joinBytes_eq, Nat.shiftRight_eq_div_pow]
    omega
  have hlow : joinBytes hi lo &&& 0xFF = lo.toNat := by
    rw [joinBytes_eq, Nat.and_two_pow_sub_one_eq_mod _ 8]
    omega
  rw [groupBytes, hhigh, hlow, UInt8.ofNat_toNat, UInt8.ofNat_toNat]

theorem flatMap_groupsOf (bytes : Nat → UInt8) :
    (groupsOf bytes).flatMap groupBytes = (List.range 16).map bytes := by
  simp [groupsOf, groupBytes_joinBytes, range_succ]

theorem round_trip (bytes : Nat → UInt8) :
    resolvParseIpv6 (formatIpv6 bytes) = .ok ((List.range 16).map bytes) ↔
      ¬ EndsInLongestRun (groupsOf bytes) := by
  have hlength : (groupsOf bytes).length = 8 := rfl
  have hlt : ∀ v ∈ groupsOf bytes, v < 0x10000 := by
    intro v hv
    obtain ⟨i, -, rfl⟩ := List.mem_map.mp hv
    have := (bytes (i * 2)).toNat_lt
    have := (bytes (i * 2 + 1)).toNat_lt
    rw [joinBytes_eq]
    omega
  obtain ⟨hwindow, hends⟩ : Found (groupsOf bytes) := found _
  rw [formatIpv6, ← flatMap_groupsOf, ← hends]
  cases hbest : bestRun (groupsOf bytes) with
  | none =>
    have hgroups : Groups true (printGroups (groupsOf bytes) none 8 0) (groupsOf bytes) :=
      groups_printGroups hlength hlt (fun _ _ => rfl) (by decide : 0 < 8) (Nat.le_add_left 8 0)
    exact iff_of_true (resolvParseIpv6_of_denotes (.full hgroups hlength)) nofun
  | some best =>
    obtain ⟨htwo, hle, hzero⟩ := hwindow best hbest
    rw [resolvParseIpv6_printGroups hlength hlt htwo hle hzero]
    simp

end

end Proskrnl.Resolv
