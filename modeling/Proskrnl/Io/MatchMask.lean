import Proskrnl.Library.CallStack
import Proskrnl.Library.PositionSets
import Proskrnl.Ke.KernelStack
import Proskrnl.Lib.Upcase

/-!
# Wildcard masks

`IopMatchMask` (`kernel/io/query.c`): the case-insensitive matcher behind directory queries. A mask
is a string over `*`, `?`, the DOS forms `<` (DOS_STAR), `>` (DOS_QM), `"` (DOS_DOT) and literals.

The matcher calls itself for what follows a `*` or a `<`, on the kernel stack of the caller. What it
computes is `iopMatchMask`; `iopMatchMaskOn` is the same with room for so many nested calls, and a mask
with more of these wildcards than that runs it off the stack.
-/

namespace Proskrnl.Io
open List
open CallStack (nest firstYes firstYes_sound isSome_firstYes firstYes_none nest_eq_some)

abbrev unitOf (c : Char) : UInt16 := UInt16.ofNat c.toNat

/-- The loop over `skip`: the rest of the mask is tried at each of the first `count` units. -/
def tryEach (resume : WStr → Bool) (name : WStr) (count : Nat) : Bool :=
  (List.range count).any fun skip => resume (name.drop skip)

/-- The units before the next full stop. -/
def segmentUnits (name : WStr) : Nat := (name.takeWhile (· ≠ unitOf '.')).length

theorem segmentUnits_le (name : WStr) : segmentUnits name ≤ name.length :=
  (takeWhile_sublist _).length_le

/-- The walk of `<` over the segments of the name: the answer it returns, or `none` where it falls
through with the name used up. -/
def walkSegments (resume : WStr → Bool) (sawDot : Bool) (name : WStr) : Option Bool :=
  match name with
  | [] => none
  | unit :: tail =>
    let segment := segmentUnits (unit :: tail)
    if segment = (unit :: tail).length then
      -- the tail past the final dot: one resume point, at its start
      if sawDot then some (resume (unit :: tail))
      else if tryEach resume (unit :: tail) segment then some true
      else none
    else
      -- the dot belongs to the segment it ends
      if tryEach resume (unit :: tail) (segment + 1) then some true
      else walkSegments resume true ((unit :: tail).drop (segment + 1))
termination_by name.length
decreasing_by simp

/-- `IopMatchMask` on a stack with room for every call. -/
def iopMatchMask (name mask : WStr) : Bool :=
  match mask with
  | [] => name.isEmpty
  | m :: rest =>
    if m = unitOf '*' then
      tryEach (fun tail => iopMatchMask tail rest) name (name.length + 1)
    else if m = unitOf '<' then
      match walkSegments (fun tail => !rest.isEmpty && iopMatchMask tail rest) false name with
      | some answer => answer
      | none => iopMatchMask [] rest
    else
      match name with
      | [] => if m = unitOf '>' ∨ m = unitOf '"' then iopMatchMask [] rest else false
      | unit :: tail =>
        if m = unitOf '>' then
          if unit = unitOf '.' then
            -- the whole run collapses; a mask that ends in it consumes the dot
            let rest := rest.dropWhile (· = unitOf '>')
            iopMatchMask (if rest.isEmpty then tail else unit :: tail) rest
          else iopMatchMask tail rest
        else if m = unitOf '?' then iopMatchMask tail rest
        else
          let want := if m = unitOf '"' then unitOf '.' else m
          if rtlUpcaseUnicodeChar want ≠ rtlUpcaseUnicodeChar unit then false
          else iopMatchMask tail rest
termination_by mask.length
decreasing_by
  all_goals simp only [length_cons]
  all_goals first
    | exact Nat.lt_succ_self _
    | exact Nat.lt_succ_of_le (dropWhile_sublist _).length_le

/-- The loop over `skip` on a bounded stack. -/
def tryEachOn (resume : WStr → Option Bool) (name : WStr) (count : Nat) : Option Bool :=
  firstYes (fun skip => resume (name.drop skip)) (List.range count)

/-- The walk of `<` on a bounded stack: `none` where it runs off it, and the answer of `walkSegments`
otherwise. -/
def walkSegmentsOn (resume : WStr → Option Bool) (sawDot : Bool) (name : WStr) :
    Option (Option Bool) :=
  match name with
  | [] => some none
  | unit :: tail =>
    let segment := segmentUnits (unit :: tail)
    if segment = (unit :: tail).length then
      if sawDot then (resume (unit :: tail)).map some
      else (tryEachOn resume (unit :: tail) segment).map fun yes => if yes then some true else none
    else
      (tryEachOn resume (unit :: tail) (segment + 1)).bind fun yes =>
        if yes then some (some true)
        else walkSegmentsOn resume true ((unit :: tail).drop (segment + 1))
termination_by name.length
decreasing_by simp

/-- `IopMatchMask` on a stack with room for `frames` nested calls: `none` where it runs off it. Only
`*` and `<` make calls; every other token is a turn of the loop, in the frame there is. -/
def iopMatchMaskOn (frames : Nat) (name mask : WStr) : Option Bool :=
  match mask with
  | [] => some name.isEmpty
  | m :: rest =>
    if m = unitOf '*' then
      tryEachOn (fun tail => nest frames fun frames => iopMatchMaskOn frames tail rest) name
        (name.length + 1)
    else if m = unitOf '<' then
      (walkSegmentsOn
        (fun tail =>
          if rest.isEmpty then some false
          else nest frames fun frames => iopMatchMaskOn frames tail rest)
        false name).bind fun
      | some answer => some answer
      | none => iopMatchMaskOn frames [] rest
    else
      match name with
      | [] => if m = unitOf '>' ∨ m = unitOf '"' then iopMatchMaskOn frames [] rest else some false
      | unit :: tail =>
        if m = unitOf '>' then
          if unit = unitOf '.' then
            let rest := rest.dropWhile (· = unitOf '>')
            iopMatchMaskOn frames (if rest.isEmpty then tail else unit :: tail) rest
          else iopMatchMaskOn frames tail rest
        else if m = unitOf '?' then iopMatchMaskOn frames tail rest
        else
          let want := if m = unitOf '"' then unitOf '.' else m
          if rtlUpcaseUnicodeChar want ≠ rtlUpcaseUnicodeChar unit then some false
          else iopMatchMaskOn frames tail rest
termination_by mask.length
decreasing_by
  all_goals simp only [length_cons]
  all_goals first
    | exact Nat.lt_succ_self _
    | exact Nat.lt_succ_of_le (dropWhile_sublist _).length_le

/-- How deep the calls for a mask may nest: its `*`, and its `<` that something follows. -/
def nestedWildcards : WStr → Nat
  | [] => 0
  | m :: rest =>
    (if m = unitOf '*' ∨ m = unitOf '<' ∧ rest ≠ [] then 1 else 0) + nestedWildcards rest

/-- Where a run of `<` may end: just after the last full stop of what remains of the name, or anywhere
when there is none. -/
def starLimit (name : WStr) : Nat :=
  if unitOf '.' ∈ name then (name.rdropWhile (· ≠ unitOf '.')).length else name.length

/-- How many units the first token of the mask may take of what remains of the name. In a run of `>` at
a full stop no token takes a unit, but where the mask ends in the run its last token takes the full
stop. -/
def maskRule : WStr → WStr → Nat → Bool
  | [], _, _ => false
  | m :: rest, name, n =>
    if m = unitOf '*' then true
    else if m = unitOf '<' then n ≤ starLimit name
    else
      match name with
      | [] => (m = unitOf '>' ∨ m = unitOf '"') ∧ n = 0
      | unit :: _ =>
        if m = unitOf '>' then n = if unit = unitOf '.' ∧ rest ≠ [] then 0 else 1
        else if m = unitOf '?' then n = 1
        else if m = unitOf '"' then unit = unitOf '.' ∧ n = 1
        else rtlUpcaseUnicodeChar m = rtlUpcaseUnicodeChar unit ∧ n = 1

open PositionSets

def walkLimit (sawDot : Bool) (name : WStr) : Nat :=
  if sawDot then (name.rdropWhile (· ≠ unitOf '.')).length else starLimit name

variable {name tail rest : WStr} {unit : UInt16}

theorem segmentUnits_eq_length (h : segmentUnits name = name.length) :
    unitOf '.' ∉ name := by
  intro hmem
  have hall := takeWhile_eq_self_iff.mp
    ((List.takeWhile_prefix (fun u => decide (u ≠ unitOf '.'))).eq_of_length h)
  simpa using hall _ hmem

theorem rdropWhile_append_cons {p : UInt16 → Bool} (hunit : ¬ p unit) (front tail : WStr) :
    (front ++ unit :: tail).rdropWhile p = front ++ unit :: tail.rdropWhile p := by
  induction tail using List.reverseRecOn with
  | nil => rw [rdropWhile_nil, rdropWhile_concat_neg _ _ _ hunit]
  | append_singleton tail last ih =>
    rw [← cons_append, ← append_assoc, rdropWhile_concat, rdropWhile_concat, ih]
    split
    · rfl
    · simp only [cons_append, append_assoc]

theorem segment_append (h : segmentUnits name ≠ name.length) :
    name = name.takeWhile (· ≠ unitOf '.') ++ unitOf '.' :: name.drop (segmentUnits name + 1) := by
  induction name with
  | nil => exact absurd rfl h
  | cons unit tail ih =>
    rw [segmentUnits, takeWhile_cons] at h ⊢
    split at h
    case isTrue hunit =>
      rw [if_pos hunit, length_cons, drop_succ_cons, cons_append]
      rw [length_cons, length_cons] at h
      exact congrArg _ (ih fun heq => h (congrArg _ heq))
    case isFalse hunit =>
      have hstop : unit = unitOf '.' := by simpa using hunit
      rw [if_neg hunit, length_nil, nil_append, Nat.zero_add, drop_succ_cons,
        drop_zero, hstop]

theorem length_rdropWhile_segment (h : segmentUnits name ≠ name.length) :
    unitOf '.' ∈ name ∧
      (name.rdropWhile (· ≠ unitOf '.')).length =
        segmentUnits name + 1 +
          ((name.drop (segmentUnits name + 1)).rdropWhile (· ≠ unitOf '.')).length := by
  have hname := segment_append h
  generalize hrest : name.drop (segmentUnits name + 1) = rest at hname ⊢
  constructor
  · rw [hname]
    exact mem_append_right _ mem_cons_self
  · conv_lhs => rw [hname]
    rw [rdropWhile_append_cons (by simp), length_append, length_cons, segmentUnits]
    omega

theorem walkLimit_segment (sawDot : Bool) (h : segmentUnits name ≠ name.length) :
    walkLimit sawDot name =
      segmentUnits name + 1 + walkLimit true (name.drop (segmentUnits name + 1)) := by
  obtain ⟨hmem, hlength⟩ := length_rdropWhile_segment h
  cases sawDot
  · simp only [walkLimit, starLimit, if_pos hmem, Bool.false_eq_true, if_false, if_true, hlength]
  · simp only [walkLimit, if_true, hlength]

theorem walkLimit_plain (sawDot : Bool) (h : unitOf '.' ∉ name) :
    walkLimit sawDot name = if sawDot then 0 else name.length := by
  have hall : name.rdropWhile (· ≠ unitOf '.') = [] := by
    rw [rdropWhile_eq_nil_iff]
    intro u hu
    simpa using fun heq : u = unitOf '.' => h (heq ▸ hu)
  cases sawDot
  · simp only [walkLimit, starLimit, if_neg h, Bool.false_eq_true, if_false]
  · simp only [walkLimit, if_true, hall, length_nil]

theorem tryEach_eq_true {resume : WStr → Bool} {count : Nat} :
    tryEach resume name count = true ↔ ∃ n < count, resume (name.drop n) = true := by
  simp [tryEach]

/-- The walk answers, or falls through to the end of the name, as trying the rest of the mask at every
position up to its limit would. -/
theorem walkSegments_iff {resume : WStr → Bool} (accepted : WStr → Bool)
    (hresume : ∀ t ≠ [], resume t = accepted t)
    (sawDot : Bool) (name : WStr) :
    (walkSegments resume sawDot name).getD (accepted []) = true ↔
      ∃ n ≤ walkLimit sawDot name, accepted (name.drop n) = true := by
  have htry : ∀ (name : WStr) {count : Nat}, count ≤ name.length →
      (tryEach resume name count = true ↔ ∃ n < count, accepted (name.drop n) = true) := by
    intro name count hcount
    rw [tryEach_eq_true]
    apply exists_congr
    intro n
    apply and_congr_right
    intro hn
    rw [hresume _ (drop_eq_nil_iff.not.mpr (by omega))]
  fun_induction walkSegments resume sawDot name with
  | case1 sawDot =>
    -- the name is used up
    rw [walkLimit_plain sawDot not_mem_nil]
    simp
  | case2 unit tail segment hlength =>
    rw [walkLimit_plain _ (segmentUnits_eq_length hlength)]
    simp [hresume]
  | case3 sawDot unit tail segment hlength hsaw htries =>
    rw [walkLimit_plain _ (segmentUnits_eq_length hlength), if_neg hsaw, Option.getD_some]
    obtain ⟨n, hn, haccepted⟩ := (htry _ hlength.le).mp htries
    exact iff_of_true rfl ⟨n, hn.le.trans hlength.le, haccepted⟩
  | case4 sawDot unit tail segment hlength hsaw htries =>
    rw [walkLimit_plain _ (segmentUnits_eq_length hlength), if_neg hsaw, Option.getD_none]
    constructor
    · intro h
      exact ⟨_, le_rfl, by rwa [drop_length]⟩
    · rintro ⟨n, hn, haccepted⟩
      obtain hlt | heq := Nat.lt_or_eq_of_le hn
      · exact absurd ((htry _ hlength.le).mpr ⟨n, hlength.symm ▸ hlt, haccepted⟩) htries
      · rwa [heq, drop_length] at haccepted
  | case5 sawDot unit tail segment hlength htries =>
    rw [walkLimit_segment sawDot hlength, Option.getD_some]
    have hle := segmentUnits_le (unit :: tail)
    obtain ⟨n, hn, haccepted⟩ := (htry _ (by omega)).mp htries
    exact iff_of_true rfl ⟨n, by omega, haccepted⟩
  | case6 sawDot unit tail segment hlength htries ih =>
    have hsegment : segment = segmentUnits (unit :: tail) := rfl
    rw [hsegment] at ih htries ⊢
    rw [walkLimit_segment sawDot hlength]
    apply ih.trans
    have hle := segmentUnits_le (unit :: tail)
    constructor
    · rintro ⟨n, hn, haccepted⟩
      rw [drop_drop] at haccepted
      exact ⟨segmentUnits (unit :: tail) + 1 + n, by omega, haccepted⟩
    · rintro ⟨n, hn, haccepted⟩
      by_cases hsegment : n < segmentUnits (unit :: tail) + 1
      · exact absurd ((htry _ (by omega)).mpr ⟨n, hsegment, haccepted⟩) htries
      · refine ⟨n - (segmentUnits (unit :: tail) + 1), by omega, ?_⟩
        rwa [drop_drop, Nat.add_sub_of_le (by omega)]

theorem exists_one {p : Prop} [Decidable p] :
    (∃ n ≤ (unit :: tail).length, decide (p ∧ n = 1) = true ∧
        Takes maskRule rest ((unit :: tail).drop n)) ↔ p ∧ Takes maskRule rest tail := by
  constructor
  · rintro ⟨n, -, hrule, h⟩
    obtain ⟨hp, rfl⟩ := of_decide_eq_true hrule
    exact ⟨hp, h⟩
  · rintro ⟨hp, h⟩
    exact ⟨1, by simp, decide_eq_true ⟨hp, rfl⟩, h⟩

theorem starLimit_le (name : WStr) : starLimit name ≤ name.length := by
  rw [starLimit]
  split
  · exact (List.rdropWhile_prefix _ _).length_le
  · exact le_rfl

theorem takes_star :
    Takes maskRule (unitOf '*' :: rest) name ↔ ∃ n ≤ name.length, Takes maskRule rest (name.drop n) := by
  simp [Takes, maskRule]

theorem takes_dosStar :
    Takes maskRule (unitOf '<' :: rest) name ↔ ∃ n ≤ starLimit name, Takes maskRule rest (name.drop n) := by
  have hrule : ∀ n, maskRule (unitOf '<' :: rest) name n = decide (n ≤ starLimit name) := by
    intro n
    simp [maskRule]
  simp only [Takes, hrule, decide_eq_true_eq]
  apply exists_congr
  intro n
  have hle := starLimit_le name
  constructor
  · rintro ⟨-, hn, h⟩
    exact ⟨hn, h⟩
  · rintro ⟨hn, h⟩
    exact ⟨by omega, hn, h⟩

theorem takes_nil {m : UInt16} (hstar : m ≠ unitOf '*') (hdosStar : m ≠ unitOf '<') :
    Takes maskRule (m :: rest) [] ↔ (m = unitOf '>' ∨ m = unitOf '"') ∧ Takes maskRule rest [] := by
  simp only [Takes, maskRule, if_neg hstar, if_neg hdosStar, length_nil, drop_nil]
  constructor
  · rintro ⟨n, -, hrule, h⟩
    exact ⟨(of_decide_eq_true hrule).1, h⟩
  · rintro ⟨hm, h⟩
    exact ⟨0, le_rfl, decide_eq_true ⟨hm, rfl⟩, h⟩

theorem takes_dosQm_stop (rest : WStr) :
    Takes maskRule (unitOf '>' :: rest) (unitOf '.' :: tail) ↔
      Takes maskRule (rest.dropWhile (· = unitOf '>'))
        (if (rest.dropWhile (· = unitOf '>')).isEmpty then tail else unitOf '.' :: tail) := by
  induction rest with
  | nil => simp [Takes, maskRule]
  | cons m rest ih =>
    have hstep : Takes maskRule (unitOf '>' :: m :: rest) (unitOf '.' :: tail) ↔
        Takes maskRule (m :: rest) (unitOf '.' :: tail) := by
      conv_lhs => rw [Takes]
      simp [maskRule]
    rw [hstep]
    by_cases hm : m = unitOf '>'
    · rw [hm, ih, dropWhile_cons_of_pos (by simp)]
    · rw [dropWhile_cons_of_neg (by simpa using hm), isEmpty_cons, if_neg (by simp)]

theorem takes_dosQm_unit (hunit : unit ≠ unitOf '.') :
    Takes maskRule (unitOf '>' :: rest) (unit :: tail) ↔ Takes maskRule rest tail := by
  have hrule : ∀ n, maskRule (unitOf '>' :: rest) (unit :: tail) n = decide (True ∧ n = 1) := by
    intro n
    have hplain : ¬ (unit = unitOf '.' ∧ rest ≠ []) := fun h => hunit h.1
    simp only [maskRule, if_neg hplain]
    simp
  simp only [Takes, hrule]
  exact exists_one.trans (iff_of_eq (true_and _))

theorem takes_questionMark :
    Takes maskRule (unitOf '?' :: rest) (unit :: tail) ↔ Takes maskRule rest tail := by
  have hrule : ∀ n, maskRule (unitOf '?' :: rest) (unit :: tail) n = decide (True ∧ n = 1) := by
    intro n
    simp [maskRule]
  simp only [Takes, hrule]
  exact exists_one.trans (iff_of_eq (true_and _))

theorem takes_literal {m : UInt16} (hstar : m ≠ unitOf '*')
    (hdosStar : m ≠ unitOf '<') (hdosQm : m ≠ unitOf '>') (hquestion : m ≠ unitOf '?') :
    Takes maskRule (m :: rest) (unit :: tail) ↔
      rtlUpcaseUnicodeChar (if m = unitOf '"' then unitOf '.' else m) = rtlUpcaseUnicodeChar unit ∧
        Takes maskRule rest tail := by
  by_cases hdosDot : m = unitOf '"'
  · have hrule : ∀ n, maskRule (m :: rest) (unit :: tail) n = decide (unit = unitOf '.' ∧ n = 1) := by
      intro n
      simp only [maskRule, if_neg hstar, if_neg hdosStar, if_neg hdosQm, if_neg hquestion, if_pos hdosDot]
    have hstop : rtlUpcaseUnicodeChar (unitOf '.') = unitOf '.' := by decide +kernel
    have hunit : unit = unitOf '.' ↔ rtlUpcaseUnicodeChar (unitOf '.') = rtlUpcaseUnicodeChar unit := by
      constructor
      · rintro rfl
        rfl
      · intro h
        exact rtlUpcaseUnicodeChar_stop (h.symm.trans hstop)
    simp only [Takes, hrule, if_pos hdosDot]
    rw [exists_one, hunit]
  · have hrule : ∀ n, maskRule (m :: rest) (unit :: tail) n =
        decide (rtlUpcaseUnicodeChar m = rtlUpcaseUnicodeChar unit ∧ n = 1) := by
      intro n
      simp only [maskRule, if_neg hstar, if_neg hdosStar, if_neg hdosQm, if_neg hquestion, if_neg hdosDot]
    simp only [Takes, hrule, if_neg hdosDot]
    rw [exists_one]

theorem walkSegments_takes (name : WStr)
    (ih : ∀ tail : WStr, iopMatchMask tail rest = true ↔ Takes maskRule rest tail) :
    (walkSegments (fun tail => !rest.isEmpty && iopMatchMask tail rest) false name).getD
        (iopMatchMask [] rest) = true ↔
      Takes maskRule (unitOf '<' :: rest) name := by
  have hresume : ∀ t : WStr, t ≠ [] →
      (!rest.isEmpty && iopMatchMask t rest) = iopMatchMask t rest := by
    intro t ht
    cases rest with
    | nil =>
      rw [iopMatchMask]
      simpa using ht
    | cons m rest => rfl
  rw [walkSegments_iff (fun tail => iopMatchMask tail rest) hresume, takes_dosStar]
  simp only [ih, walkLimit, Bool.false_eq_true, if_false]

theorem iopMatchMask_iff (name mask : WStr) :
    iopMatchMask name mask = true ↔ Takes maskRule mask name := by
  fun_induction iopMatchMask name mask with
  | case1 name => simp [Takes]
  | case2 name rest ih =>
    rw [takes_star, tryEach_eq_true]
    simp only [Nat.lt_succ_iff, ih]
  | case3 name rest answer hwalk _ ih =>
    have htakes := walkSegments_takes name ih
    rwa [hwalk, Option.getD_some] at htakes
  | case4 name rest hwalk _ ih =>
    have htakes := walkSegments_takes name ih
    rwa [hwalk, Option.getD_none] at htakes
  | case5 m rest hstar hdosStar hm ih => rw [takes_nil hstar hdosStar, ih, and_iff_right hm]
  | case6 m rest hstar hdosStar hm =>
    rw [takes_nil hstar hdosStar]
    exact iff_of_false Bool.false_ne_true fun h => hm h.1
  | case7 rest tail run _ _ ih =>
    rw [takes_dosQm_stop]
    exact ih
  | case8 rest unit tail hunit _ _ ih => rw [takes_dosQm_unit hunit, ih]
  | case9 rest unit tail _ _ _ ih => rw [takes_questionMark, ih]
  | case10 m rest hstar hdosStar unit tail hdosQm hquestion want hwant =>
    rw [takes_literal hstar hdosStar hdosQm hquestion]
    exact iff_of_false Bool.false_ne_true fun h => hwant h.1
  | case11 m rest hstar hdosStar unit tail hdosQm hquestion want hwant ih =>
    rw [takes_literal hstar hdosStar hdosQm hquestion, ih]
    exact (and_iff_right (not_not.mp hwant)).symm

theorem iopMatchMask_correct (name mask : WStr) :
    (iopMatchMask name mask = true ↔ ∃ p, Assigns maskRule mask name p) ∧
      iopMatchMask name mask = accepts maskRule mask name := by
  have htakes := iopMatchMask_iff name mask
  refine ⟨htakes.trans takes_iff_assigns, ?_⟩
  rw [Bool.eq_iff_iff, htakes, accepts_iff_takes]

/-! ## On the kernel stack -/

section
variable {mask : WStr} {frames : Nat} {resume : WStr → Option Bool} {answer : WStr → Bool}

theorem tryEachOn_sound (h : ∀ tail b, resume tail = some b → answer tail = b) {count : Nat} {b : Bool}
    (htry : tryEachOn resume name count = some b) : tryEach answer name count = b :=
  firstYes_sound (fun skip _ => h (name.drop skip)) htry

theorem isSome_tryEachOn (h : ∀ tail, (resume tail).isSome) (name : WStr) (count : Nat) :
    (tryEachOn resume name count).isSome :=
  isSome_firstYes fun skip _ => h (name.drop skip)

theorem walkSegmentsOn_sound (h : ∀ tail b, resume tail = some b → answer tail = b) {sawDot : Bool}
    {result : Option Bool} (hwalk : walkSegmentsOn resume sawDot name = some result) :
    walkSegments answer sawDot name = result := by
  fun_induction walkSegmentsOn resume sawDot name with
  | case1 sawDot =>
    rw [walkSegments]
    exact Option.some.inj hwalk
  | case2 unit tail segment hlength =>
    obtain ⟨b, hresume, rfl⟩ := Option.map_eq_some_iff.mp hwalk
    rw [walkSegments, if_pos hlength, if_pos rfl, h _ b hresume]
  | case3 sawDot unit tail segment hlength hsaw =>
    obtain ⟨yes, htry, rfl⟩ := Option.map_eq_some_iff.mp hwalk
    rw [walkSegments, if_pos hlength, if_neg hsaw, tryEachOn_sound h htry]
  | case4 sawDot unit tail segment hlength ih =>
    obtain ⟨yes, htry, hrest⟩ := Option.bind_eq_some_iff.mp hwalk
    rw [walkSegments, if_neg hlength, tryEachOn_sound h htry]
    cases yes with
    | true => exact Option.some.inj hrest
    | false => exact ih hrest

theorem isSome_walkSegmentsOn (h : ∀ tail, (resume tail).isSome) (sawDot : Bool) (name : WStr) :
    (walkSegmentsOn resume sawDot name).isSome := by
  fun_induction walkSegmentsOn resume sawDot name with
  | case1 sawDot => rfl
  | case2 unit tail segment hlength => rw [Option.isSome_map, h]
  | case3 sawDot unit tail segment hlength hsaw => rw [Option.isSome_map, isSome_tryEachOn h]
  | case4 sawDot unit tail segment hlength ih =>
    obtain ⟨yes, htry⟩ := Option.isSome_iff_exists.mp (isSome_tryEachOn h (unit :: tail) (segment + 1))
    rw [htry, Option.bind_some]
    cases yes with
    | true => rfl
    | false => exact ih

theorem nestedWildcards_cons (m : UInt16) (rest : WStr) :
    nestedWildcards rest ≤ nestedWildcards (m :: rest) := Nat.le_add_left ..

theorem nestedWildcards_dropWhile (p : UInt16 → Bool) (mask : WStr) :
    nestedWildcards (mask.dropWhile p) ≤ nestedWildcards mask := by
  induction mask with
  | nil => exact le_rfl
  | cons m rest ih =>
    rw [dropWhile_cons]
    split
    · exact ih.trans (nestedWildcards_cons m rest)
    · exact le_rfl

/-- An answer on a bounded stack is the one there is on a stack with room for every call. -/
theorem iopMatchMaskOn_sound :
    ∀ b, iopMatchMaskOn frames name mask = some b → iopMatchMask name mask = b := by
  have hnest : ∀ {rest : WStr} {frames : Nat},
      (∀ tail frames b, iopMatchMaskOn frames tail rest = some b → iopMatchMask tail rest = b) →
      ∀ tail b, (nest frames fun frames => iopMatchMaskOn frames tail rest) = some b →
        iopMatchMask tail rest = b := by
    intro rest frames ih tail b h
    obtain ⟨room, -, hcall⟩ := nest_eq_some.mp h
    exact ih tail room b hcall
  fun_induction iopMatchMaskOn frames name mask with
  | case1 frames name =>
    intro b h
    rw [iopMatchMask]
    exact Option.some.inj h
  | case2 frames name rest ih =>
    intro b h
    rw [iopMatchMask.eq_def]
    dsimp only
    rw [if_pos rfl]
    exact tryEachOn_sound (hnest ih) h
  | case3 frames name rest hstar ih ihEnd =>
    intro b h
    obtain ⟨result, hwalk, hresult⟩ := Option.bind_eq_some_iff.mp h
    have hresume : ∀ tail b,
        (if rest.isEmpty then some false
          else nest frames fun frames => iopMatchMaskOn frames tail rest) = some b →
        (!rest.isEmpty && iopMatchMask tail rest) = b := by
      intro tail b h
      cases hempty : rest.isEmpty with
      | true =>
        rw [hempty, if_pos rfl] at h
        exact Option.some.inj h
      | false =>
        rw [hempty, if_neg Bool.false_ne_true] at h
        exact hnest ih tail b h
    rw [iopMatchMask.eq_def]
    dsimp only
    rw [if_neg hstar, if_pos rfl, walkSegmentsOn_sound hresume hwalk]
    cases result with
    | some answer => exact Option.some.inj hresult
    | none => exact ihEnd b hresult
  | case4 frames m rest hstar hdosStar hm ih =>
    intro b h
    rw [iopMatchMask, if_neg hstar, if_neg hdosStar, if_pos hm]
    exact ih b h
  | case5 frames m rest hstar hdosStar hm =>
    intro b h
    rw [iopMatchMask, if_neg hstar, if_neg hdosStar, if_neg hm]
    exact Option.some.inj h
  | case6 frames rest tail run hstar hdosStar ih =>
    intro b h
    rw [iopMatchMask, if_neg hstar, if_neg hdosStar]
    dsimp only
    rw [if_pos rfl, if_pos rfl]
    exact ih b h
  | case7 frames rest unit tail hunit hstar hdosStar ih =>
    intro b h
    rw [iopMatchMask, if_neg hstar, if_neg hdosStar]
    dsimp only
    rw [if_pos rfl, if_neg hunit]
    exact ih b h
  | case8 frames rest unit tail hstar hdosStar hdosQm ih =>
    intro b h
    rw [iopMatchMask, if_neg hstar, if_neg hdosStar]
    dsimp only
    rw [if_neg hdosQm, if_pos rfl]
    exact ih b h
  | case9 frames m rest hstar hdosStar unit tail hdosQm hquestion want hwant =>
    intro b h
    rw [iopMatchMask, if_neg hstar, if_neg hdosStar]
    dsimp only
    rw [if_neg hdosQm, if_neg hquestion]
    exact (if_pos hwant).trans (Option.some.inj h)
  | case10 frames m rest hstar hdosStar unit tail hdosQm hquestion want hwant ih =>
    intro b h
    rw [iopMatchMask, if_neg hstar, if_neg hdosStar]
    dsimp only
    rw [if_neg hdosQm, if_neg hquestion]
    exact (if_neg hwant).trans (ih b h)

theorem nestedWildcards_star (rest : WStr) :
    nestedWildcards (unitOf '*' :: rest) = nestedWildcards rest + 1 := by
  rw [nestedWildcards, if_pos (.inl rfl), Nat.add_comm]

theorem nestedWildcards_dosStar {rest : WStr} (h : rest ≠ []) :
    nestedWildcards (unitOf '<' :: rest) = nestedWildcards rest + 1 := by
  rw [nestedWildcards, if_pos (.inr ⟨rfl, h⟩), Nat.add_comm]

/-- A stack with room for the nested wildcards of the mask is enough, whatever the name. -/
theorem isSome_iopMatchMaskOn (h : nestedWildcards mask ≤ frames) (name : WStr) :
    (iopMatchMaskOn frames name mask).isSome := by
  have hnest : ∀ {rest : WStr} {frames : Nat},
      (∀ tail frames, nestedWildcards rest ≤ frames → (iopMatchMaskOn frames tail rest).isSome) →
      nestedWildcards rest + 1 ≤ frames →
      ∀ tail, (nest frames fun frames => iopMatchMaskOn frames tail rest).isSome := by
    intro rest frames ih hroom tail
    cases frames with
    | zero => exact absurd hroom (Nat.not_succ_le_zero _)
    | succ room => exact ih tail room (Nat.le_of_succ_le_succ hroom)
  fun_induction iopMatchMaskOn frames name mask with
  | case1 frames name => rfl
  | case2 frames name rest ih =>
    rw [nestedWildcards_star] at h
    exact isSome_tryEachOn (hnest ih h) name _
  | case3 frames name rest hstar ih ihEnd =>
    have hresume : ∀ tail : WStr,
        (if rest.isEmpty then some false
          else nest frames fun frames => iopMatchMaskOn frames tail rest).isSome := by
      intro tail
      cases rest with
      | nil => rfl
      | cons m rest =>
        rw [nestedWildcards_dosStar (cons_ne_nil _ _)] at h
        exact hnest ih h tail
    obtain ⟨result, hwalk⟩ := Option.isSome_iff_exists.mp (isSome_walkSegmentsOn hresume false name)
    rw [hwalk, Option.bind_some]
    cases result with
    | some answer => rfl
    | none => exact ihEnd ((nestedWildcards_cons _ rest).trans h)
  | case6 frames rest tail run hstar hdosStar ih =>
    exact ih ((nestedWildcards_dropWhile _ rest).trans ((nestedWildcards_cons _ rest).trans h))
  | case5 | case9 => rfl
  | case4 frames m rest _ _ _ ih | case7 frames rest _ _ _ _ _ ih | case8 frames rest _ _ _ _ _ ih
  | case10 frames m rest _ _ _ _ _ _ _ _ ih => exact ih ((nestedWildcards_cons _ rest).trans h)

/-- A name on which every wildcard of the mask makes its first call: it takes nothing for them, a unit
for each of the others and has a unit left at the end. -/
def deepestName : WStr → WStr
  | [] => [unitOf 'a']
  | m :: rest =>
    if m = unitOf '*' ∨ m = unitOf '<' then deepestName rest
    else if m = unitOf '>' ∨ m = unitOf '?' then unitOf 'a' :: deepestName rest
    else if m = unitOf '"' then unitOf '.' :: deepestName rest
    else m :: deepestName rest

theorem deepestName_ne_nil (mask : WStr) : deepestName mask ≠ [] := by
  induction mask with
  | nil => exact cons_ne_nil _ _
  | cons m rest ih =>
    rw [deepestName]
    split
    · exact ih
    · split
      · exact cons_ne_nil _ _
      · split
        · exact cons_ne_nil _ _
        · exact cons_ne_nil _ _

theorem tryEachOn_none (h : resume name = none) (count : Nat) :
    tryEachOn resume name (count + 1) = none := by
  rw [tryEachOn, range_succ_eq_map]
  exact firstYes_none h

theorem walkSegmentsOn_none (hname : name ≠ []) (h : resume name = none) :
    walkSegmentsOn resume false name = none := by
  obtain ⟨unit, tail, rfl⟩ := exists_cons_of_ne_nil hname
  rw [walkSegmentsOn]
  split
  case isTrue hlength =>
    rw [if_neg Bool.false_ne_true, hlength, length_cons, tryEachOn_none h, Option.map_none]
  case isFalse => rw [tryEachOn_none h, Option.bind_none]

/-- With less room than that there is a name on which the calls run off the stack. -/
theorem iopMatchMaskOn_deepest (h : frames < nestedWildcards mask) :
    iopMatchMaskOn frames (deepestName mask) mask = none := by
  have hnest : ∀ {rest : WStr} {frames : Nat},
      (∀ {frames}, frames < nestedWildcards rest → iopMatchMaskOn frames (deepestName rest) rest = none) →
      frames < nestedWildcards rest + 1 →
      (nest frames fun frames => iopMatchMaskOn frames (deepestName rest) rest) = none := by
    intro rest frames ih hroom
    cases frames with
    | zero => rfl
    | succ room => exact ih (Nat.lt_of_succ_lt_succ hroom)
  induction mask generalizing frames with
  | nil => exact absurd h (Nat.not_lt_zero _)
  | cons m rest ih =>
    rw [deepestName]
    by_cases hstar : m = unitOf '*'
    · subst hstar
      rw [nestedWildcards_star] at h
      rw [iopMatchMaskOn.eq_def, if_pos (.inl rfl)]
      dsimp only
      rw [if_pos rfl]
      exact tryEachOn_none (hnest ih h) _
    by_cases hdosStar : m = unitOf '<'
    · subst hdosStar
      obtain rfl | hrest := eq_or_ne rest []
      · exact absurd h (Nat.not_lt_zero _)
      rw [nestedWildcards_dosStar hrest] at h
      rw [iopMatchMaskOn.eq_def, if_pos (.inr rfl)]
      dsimp only
      have hresume : (if rest.isEmpty then some false
          else nest frames fun frames => iopMatchMaskOn frames (deepestName rest) rest) = none := by
        rw [if_neg (List.isEmpty_iff.not.mpr hrest)]
        exact hnest ih h
      rw [if_neg hstar, if_pos rfl, walkSegmentsOn_none (deepestName_ne_nil rest) hresume,
        Option.bind_none]
    -- any other token takes the first unit, in the frame there is
    have hroom : frames < nestedWildcards rest := by
      rw [nestedWildcards, if_neg (not_or.mpr ⟨hstar, fun h => hdosStar h.1⟩), Nat.zero_add] at h
      exact h
    rw [if_neg (not_or.mpr ⟨hstar, hdosStar⟩)]
    by_cases hdosQm : m = unitOf '>'
    · rw [if_pos (.inl hdosQm), iopMatchMaskOn, if_neg hstar, if_neg hdosStar]
      dsimp only
      rw [if_pos hdosQm, if_neg (by decide), ih hroom]
    by_cases hquestion : m = unitOf '?'
    · rw [if_pos (.inr hquestion), iopMatchMaskOn, if_neg hstar, if_neg hdosStar]
      dsimp only
      rw [if_neg hdosQm, if_pos hquestion, ih hroom]
    rw [if_neg (not_or.mpr ⟨hdosQm, hquestion⟩)]
    split
    case isTrue hdosDot =>
      rw [iopMatchMaskOn, if_neg hstar, if_neg hdosStar]
      dsimp only
      rw [if_neg hdosQm, if_neg hquestion, if_pos hdosDot, if_neg (not_not.mpr rfl), ih hroom]
    case isFalse hdosDot =>
      rw [iopMatchMaskOn, if_neg hstar, if_neg hdosStar]
      dsimp only
      rw [if_neg hdosQm, if_neg hquestion, if_neg hdosDot, if_neg (not_not.mpr rfl), ih hroom]

end

/-- For every name the matcher comes to an answer, which is the one of the rules: positions of the name
can be assigned to the mask, and the evaluation by sets of positions accepts it. -/
def ComputesLanguage (frames : Nat) (mask : WStr) : Prop :=
  ∀ name, ∃ answer, iopMatchMaskOn frames name mask = some answer ∧
    (answer = true ↔ ∃ p, Assigns maskRule mask name p) ∧ answer = accepts maskRule mask name

/-- `IopMatchMask` computes the language of the rules for the masks whose nested wildcards the stack has
room for; and where it answers at all, it answers by the rules. -/
theorem iopMatchMask_language (frames : Nat) (mask : WStr) :
    (ComputesLanguage frames mask ↔ nestedWildcards mask ≤ frames) ∧
      ∀ name answer, iopMatchMaskOn frames name mask = some answer →
        (answer = true ↔ ∃ p, Assigns maskRule mask name p) ∧
          answer = accepts maskRule mask name := by
  have hanswer : ∀ name answer, iopMatchMaskOn frames name mask = some answer →
      (answer = true ↔ ∃ p, Assigns maskRule mask name p) ∧
        answer = accepts maskRule mask name := by
    intro name answer h
    rw [← iopMatchMaskOn_sound answer h]
    exact iopMatchMask_correct name mask
  refine ⟨⟨?_, ?_⟩, hanswer⟩
  · intro h
    by_contra hroom
    obtain ⟨answer, hanswer, -⟩ := h (deepestName mask)
    rw [iopMatchMaskOn_deepest (Nat.lt_of_not_le hroom)] at hanswer
    cases hanswer
  · intro hroom name
    obtain ⟨answer, h⟩ := Option.isSome_iff_exists.mp (isSome_iopMatchMaskOn hroom name)
    exact ⟨answer, h, hanswer name answer h⟩

theorem nestedWildcards_replicate (n : Nat) :
    nestedWildcards (replicate n (unitOf '*')) = n := by
  induction n with
  | zero => rfl
  | succ n ih => rw [replicate_succ, nestedWildcards_star, ih]

theorem deepestName_replicate (n : Nat) :
    deepestName (replicate n (unitOf '*')) = [unitOf 'a'] := by
  induction n with
  | zero => rfl
  | succ n ih => rw [replicate_succ, deepestName, if_pos (.inl rfl), ih]

theorem takes_stars (n : Nat) (name : WStr) :
    Takes maskRule (replicate (n + 1) (unitOf '*')) name := by
  induction n with
  | zero => exact takes_star.mpr ⟨name.length, le_rfl, drop_length⟩
  | succ n ih => exact takes_star.mpr ⟨0, Nat.zero_le _, ih⟩

/-- A mask of 1025 stars accepts the name `a`, and no kernel stack has room for its calls. -/
theorem iopMatchMask_overruns :
    iopMatchMaskOn Ke.kernelStackFrames [unitOf 'a'] (replicate 1025 (unitOf '*')) = none ∧
      (∃ p, Assigns maskRule (replicate 1025 (unitOf '*')) [unitOf 'a'] p) ∧
      ¬ ComputesLanguage Ke.kernelStackFrames (replicate 1025 (unitOf '*')) := by
  have hroom : Ke.kernelStackFrames < nestedWildcards (replicate 1025 (unitOf '*')) := by
    rw [nestedWildcards_replicate]
    decide
  have hover := iopMatchMaskOn_deepest hroom
  rw [deepestName_replicate] at hover
  refine ⟨hover, takes_iff_assigns.mp (takes_stars 1024 _), ?_⟩
  intro h
  obtain ⟨answer, hanswer, -⟩ := h [unitOf 'a']
  rw [hover] at hanswer
  cases hanswer

end Proskrnl.Io
