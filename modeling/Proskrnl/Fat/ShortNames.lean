import Proskrnl.Lib.Upcase
import Proskrnl.Fat.RoundTrip

/-!
# Which short names are written

A short name that `FatWriteEntrySlots` stores is legal but for its extension: the loop of
`FatGenerateShortName` that fills the base puts '_' in place of what an 8.3 name cannot hold, and the
loop that fills the extension does not.
-/

namespace Proskrnl.Fat
open List

/-- A byte that a short name may hold: a character that `FatBuildExact83` takes. -/
def legalShortChar (b : UInt8) : Bool := exact83Char b.toUInt16

/-- A legal short name: a base and an extension of legal characters, padded with spaces. -/
def LegalShortName (sfn : List UInt8) : Prop :=
  ∃ base ext : List UInt8, sfn = padName 8 base ++ padName 3 ext ∧ base ≠ [] ∧ base.length ≤ 8 ∧
    ext.length ≤ 3 ∧ ∀ b ∈ base ++ ext, legalShortChar b = true

/-- What is asked of a short name for a directory with these slots. -/
structure FitsDirectory (slots : List Slot) (sfn : List UInt8) : Prop where
  legal : LegalShortName sfn
  rendered : (fatRenderShortName sfn).length ≤ 12
  unique : ∀ e ∈ entries slots, e.sfn.take 11 ≠ sfn

section
variable {name : WStr} {sfn : List UInt8} {slots : List Slot}

theorem length_fatRenderShortName (sfn : List UInt8) : (fatRenderShortName sfn).length ≤ 12 := by
  have hlead : ∀ l : List UInt8, (restoreLead l).length = l.length := by
    intro l
    cases l <;> rfl
  have hbase : ((sfn.take 8).takeWhile (fun c => decide (c ≠ 0x20))).length ≤ 8 :=
    Nat.le_trans (takeWhile_sublist _).length_le (length_take_le ..)
  have hext : (((sfn.drop 8).take 3).takeWhile (fun c => decide (c ≠ 0x20))).length ≤ 3 :=
    Nat.le_trans (takeWhile_sublist _).length_le (length_take_le ..)
  rw [fatRenderShortName, length_map, length_append, hlead]
  split
  · rw [length_cons]
    omega
  · rw [length_nil]
    omega

variable {c : UInt16}

theorem legalShortChar_toUInt8 (h : exact83Char c = true) :
    legalShortChar c.toUInt8 = true := by
  rw [legalShortChar, toUInt16_toUInt8 (exact83Char_range h).2]
  exact h

theorem exact83Char_of_kept (hlow : 0x20 < c) (hhigh : c ≤ 0x7E) (hdot : c ≠ 0x2E)
    (hlower : isLower c.toNat = false)
    (hkept : ([0x22, 0x2A, 0x2B, 0x2C, 0x2F, 0x3A, 0x3B, 0x3C, 0x3D, 0x3E, 0x3F, 0x5B, 0x5C, 0x5D,
      0x7C] : List UInt16).contains c = false) : exact83Char c = true := by
  have hall : ∀ n < 0x7F, 0x20 < n → n ≠ 0x2E → isLower n = false →
      ([0x22, 0x2A, 0x2B, 0x2C, 0x2F, 0x3A, 0x3B, 0x3C, 0x3D, 0x3E, 0x3F, 0x5B, 0x5C, 0x5D,
        0x7C] : List UInt16).contains (UInt16.ofNat n) = false →
      exact83Char (UInt16.ofNat n) = true := by
    decide +kernel
  have hlow : 0x20 < c.toNat := UInt16.lt_iff_toNat_lt.mp hlow
  have hhigh : c.toNat ≤ 0x7E := UInt16.le_iff_toNat_le.mp hhigh
  have h := hall c.toNat (by omega) hlow (fun heq => hdot (UInt16.toNat_inj.mp heq)) hlower
  rw [UInt16.ofNat_toNat] at h
  exact h hkept

theorem legalShortChar_shortBaseChar {u : UInt16} {b : UInt8} (h : shortBaseChar u = some b) :
    legalShortChar b = true := by
  have hlower := isLower_rtlUpcaseUnicodeChar u
  rw [shortBaseChar] at h
  generalize rtlUpcaseUnicodeChar u = c at h hlower
  split at h
  case isTrue => cases h
  case isFalse hrange =>
    simp only [not_or, UInt16.not_le, gt_iff_lt, UInt16.not_lt] at hrange
    split at h
    case isTrue =>
      cases h
      decide
    case isFalse hkept =>
      cases h
      exact legalShortChar_toUInt8 (exact83Char_of_kept hrange.1 hrange.2.1 hrange.2.2 hlower
        (Bool.eq_false_iff.mpr hkept))

theorem legalShortChar_shortBase (name : WStr) : ∀ b ∈ shortBase name, legalShortChar b = true := by
  intro b hb
  rw [shortBase] at hb
  split at hb
  case isTrue =>
    rw [mem_singleton.mp hb]
    decide
  case isFalse =>
    obtain ⟨u, _, hu⟩ := mem_filterMap.mp (mem_of_mem_take hb)
    exact legalShortChar_shortBaseChar hu

theorem legalShortChar_tailDigits (width tail : Nat) :
    ∀ b ∈ tailDigits width tail, legalShortChar b = true := by
  have hdigit : ∀ d < 10, legalShortChar (UInt8.ofNat (0x30 + d)) = true := by decide
  intro b hb
  rw [tailDigits, mem_reverse, mem_append] at hb
  obtain hb | hb := hb
  · obtain ⟨d, hd, rfl⟩ := List.mem_map.mp hb
    exact hdigit d (Nat.digits_lt_base (by decide) hd)
  · rw [eq_of_mem_replicate hb]
    decide

theorem padName_inj {n : Nat} {s t : List UInt8} (hs : ∀ c ∈ s, c ≠ 0x20) (ht : ∀ c ∈ t, c ≠ 0x20)
    (h : padName n s = padName n t) : s = t := by
  rw [← takeWhile_padName (n := n) hs, h, takeWhile_padName ht]

theorem ne_space_of_legal {b : UInt8} (h : legalShortChar b = true) : b ≠ 0x20 := by
  rintro rfl
  exact absurd h (by decide)

theorem legalShortName_iff {base ext : List UInt8} (hne : base ≠ []) (hbase : base.length ≤ 8)
    (hlegal : ∀ b ∈ base, legalShortChar b = true) (hext : ext.length ≤ 3) (hspace : ∀ b ∈ ext, b ≠ 0x20) :
    LegalShortName (padName 8 base ++ padName 3 ext) ↔ ∀ b ∈ ext, legalShortChar b = true := by
  constructor
  · rintro ⟨base', ext', heq, _, hbase', hext', hchars⟩
    -- the two fields have their places, and the padding is no part of them
    obtain ⟨_, htail⟩ := append_inj heq (by rw [length_padName hbase, length_padName hbase'])
    have hsame : ext = ext' := padName_inj hspace
      (fun b hb => ne_space_of_legal (hchars b (mem_append_right _ hb))) htail
    intro b hb
    exact hchars b (mem_append_right _ (hsame ▸ hb))
  · intro hchars
    refine ⟨base, ext, rfl, hne, hbase, hext, fun b hb => ?_⟩
    exact (mem_append.mp hb).elim (hlegal b) (hchars b)

theorem legalShortName_shortNameFor_iff (name : WStr) {tail : Nat} (htail : tail < 1000000) :
    LegalShortName (shortNameFor name tail) ↔ ∀ b ∈ shortExt name, legalShortChar b = true := by
  obtain ⟨hne, hlength, _⟩ := shortBase_spec name
  have hpos := length_pos_iff.mpr hne
  have hdigits : (tailDigits (3 - (shortBase name).length) tail).length ≤ 6 :=
    length_tailDigits (by omega) htail
  obtain ⟨hextLength, hextRange⟩ := shortExt_spec name
  apply legalShortName_iff
  · exact append_ne_nil_of_right_ne_nil _ (cons_ne_nil _ _)
  · rw [length_append, length_take, length_cons]
    omega
  · intro b hb
    obtain hb | hb := mem_append.mp hb
    · exact legalShortChar_shortBase name b (mem_of_mem_take hb)
    · obtain rfl | hb := mem_cons.mp hb
      · decide
      · exact legalShortChar_tailDigits _ _ b hb
  · exact hextLength
  · rintro b hb rfl
    exact absurd (hextRange _ hb).1 (by decide)

theorem fatBuildExact83_parts (h : fatBuildExact83 name = some sfn) :
    ∃ base ext : WStr, sfn = padName 8 (base.map fun c => c.toUInt8) ++ padName 3 (ext.map fun c => c.toUInt8) ∧
      base ≠ [] ∧ base.length ≤ 8 ∧ ext.length ≤ 3 ∧ (∀ c ∈ base ++ ext, exact83Char c = true) ∧
      ∀ c ∈ name, c ≠ 0x2E → c ∈ base ++ ext := by
  rw [fatBuildExact83] at h
  split at h
  case isTrue => cases h
  case isFalse =>
    split at h
    case isTrue => cases h
    case isFalse hshape =>
      split at h
      case isFalse => cases h
      case isTrue hchars =>
        cases h
        simp only [not_or, Nat.not_lt] at hshape
        obtain ⟨hne, hbase, hext, _⟩ := hshape
        refine ⟨_, _, rfl, fun hnil => hne (congrArg List.length hnil), hbase, hext,
          List.all_eq_true.mp hchars, fun c hc hdot => ?_⟩
        rw [← takeWhile_append_dropWhile (p := fun c => decide (c ≠ 0x2E)) (l := name)] at hc
        obtain hc | hc := mem_append.mp hc
        · exact mem_append_left _ hc
        · apply mem_append_right
          cases hrest : name.dropWhile (fun c => decide (c ≠ 0x2E)) with
          | nil =>
            rw [hrest] at hc
            cases hc
          | cons d rest =>
            have hd : d = 0x2E := by
              have hhead := head_dropWhile_not (fun c => decide (c ≠ 0x2E))
                (show name.dropWhile (fun c => decide (c ≠ 0x2E)) ≠ [] by
                  rw [hrest]; exact cons_ne_nil _ _)
              simpa only [hrest, head_cons, decide_eq_false_iff_not, ne_eq, Classical.not_not]
                using hhead
            rw [hrest] at hc
            obtain rfl | hc := mem_cons.mp hc
            · exact absurd hd hdot
            · exact hc

theorem mem_of_mem_splitLastDot (h : c ∈ (splitLastDot name).2) : c ∈ name ∧ c ≠ 0x2E := by
  rw [splitLastDot] at h
  split at h
  case isTrue =>
    have hmem := mem_reverse.mp h
    have hdot := mem_takeWhile_imp hmem
    refine ⟨?_, of_decide_eq_true hdot⟩
    exact (dropWhile_sublist _).subset (mem_reverse.mp ((takeWhile_sublist _).subset hmem))
  case isFalse => cases h

theorem legal_shortExt_of_exact (h : fatBuildExact83 name = some sfn) :
    ∀ b ∈ shortExt name, legalShortChar b = true := by
  obtain ⟨base, ext, _, _, _, _, hchars, hall⟩ := fatBuildExact83_parts h
  intro b hb
  obtain ⟨u, hu, hchar⟩ := mem_filterMap.mp (mem_of_mem_take hb)
  obtain ⟨hmem, hdot⟩ := mem_of_mem_splitLastDot hu
  have hexact := hchars u (hall u hmem hdot)
  obtain ⟨hlow, hhigh⟩ := exact83Char_range hexact
  have hlower : isLower u.toNat = false := by
    rw [isLower, decide_eq_false_iff_not]
    rintro ⟨hfrom, hto⟩
    rw [exact83Char, Bool.and_eq_true, Bool.and_eq_true] at hexact
    exact (of_decide_eq_true hexact.1.1).2.2 ⟨UInt16.le_iff_toNat_le.mpr hfrom,
      UInt16.le_iff_toNat_le.mpr hto⟩
  rw [shortExtChar, rtlUpcaseUnicodeChar_ascii (by omega) hhigh hlower] at hchar
  split at hchar
  · cases hchar
    exact legalShortChar_toUInt8 hexact
  · cases hchar

theorem legalShortName_of_exact (h : fatBuildExact83 name = some sfn) : LegalShortName sfn := by
  obtain ⟨base, ext, rfl, hne, hbase, hext, hchars, _⟩ := fatBuildExact83_parts h
  refine ⟨_, _, rfl, fun hnil => hne (map_eq_nil_iff.mp hnil), by rwa [length_map],
    by rwa [length_map], fun b hb => ?_⟩
  rw [← map_append] at hb
  obtain ⟨c, hc, rfl⟩ := List.mem_map.mp hb
  exact legalShortChar_toUInt8 (hchars c hc)

theorem chooseShortName_fits_iff {needLfn : Bool} (h : chooseShortName slots name = some (sfn, needLfn)) :
    FitsDirectory slots sfn ↔ ∀ b ∈ shortExt name, legalShortChar b = true := by
  obtain ⟨_, hfree, hexact, hgenerated⟩ := chooseShortName_some h
  have hunique : ∀ e ∈ entries slots, e.sfn.take 11 ≠ sfn := by
    intro e he heq
    rw [fatShortNameExists, List.any_eq_false] at hfree
    exact hfree e he (decide_eq_true heq)
  have hlegal : LegalShortName sfn ↔ ∀ b ∈ shortExt name, legalShortChar b = true := by
    cases needLfn with
    | false => exact ⟨fun _ => legal_shortExt_of_exact (hexact rfl),
        fun _ => legalShortName_of_exact (hexact rfl)⟩
    | true =>
      obtain ⟨t, _, ht, rfl, _⟩ := findTail_some (hgenerated rfl)
      exact legalShortName_shortNameFor_iff name ht
  exact ⟨fun hfits => hlegal.mp hfits.legal,
    fun hext => ⟨hlegal.mpr hext, length_fatRenderShortName sfn, hunique⟩⟩

/-- The short name that `FatWriteEntrySlots` stores in any directory for any name fits it exactly when
the extension that is kept of the name holds legal characters only. -/
theorem fatWriteEntrySlots_shortName_iff {v v' : Volume} {first : Nat} {component : WStr}
    {shortEntry : Slot} {written : Written}
    (hwrite : fatWriteEntrySlots v first component shortEntry = (.ok written, v')) :
    FitsDirectory (slotsOf v first) (written.shortEntry.take 11) ↔
      ∀ b ∈ shortExt component, legalShortChar b = true := by
  rw [fatWriteEntrySlots] at hwrite
  split at hwrite
  · cases hwrite
  · cases hchoose : chooseShortName (slotsOf v first) component with
    | none =>
      rw [hchoose] at hwrite
      cases hwrite
    | some chosen =>
      obtain ⟨sfn, needLfn⟩ := chosen
      rw [hchoose] at hwrite
      simp only at hwrite
      have hstored : written.shortEntry = withShortName sfn shortEntry := by
        split at hwrite
        · cases hwrite
        · split at hwrite
          · cases hwrite
          · cases hwrite
            rfl
      have htake : (withShortName sfn shortEntry).take 11 = sfn :=
        take_left' (chooseShortName_some hchoose).1.length
      rw [hstored, htake]
      exact chooseShortName_fits_iff hchoose

end

/-- The name "a.t" in an empty directory. -/
theorem fatWriteEntrySlots_shortName_at : ∃ written v',
    fatWriteEntrySlots emptyVolume 2 [0x61, 0x2E, 0x74] newFileEntry = (.ok written, v') ∧
    (FitsDirectory (slotsOf emptyVolume 2) (written.shortEntry.take 11) ↔
      ∀ b ∈ shortExt [0x61, 0x2E, 0x74], legalShortChar b = true) := by
  have hok : (fatWriteEntrySlots emptyVolume 2 [0x61, 0x2E, 0x74] newFileEntry).1.isOk = true := by
    decide +kernel
  generalize hwrite : fatWriteEntrySlots emptyVolume 2 [0x61, 0x2E, 0x74] newFileEntry = result at hok
  obtain ⟨_ | written, v'⟩ := result
  · cases hok
  · exact ⟨written, v', rfl, fatWriteEntrySlots_shortName_iff hwrite⟩

/-- The name "a.b+c", which `FatValidateNtPath` takes, gets the extension "B+C". -/
theorem fatWriteEntrySlots_illegal_extension : fatValidateNtPath [0x61, 0x2E, 0x62, 0x2B, 0x63] = true ∧
    ∃ written v', fatWriteEntrySlots emptyVolume 2 [0x61, 0x2E, 0x62, 0x2B, 0x63] newFileEntry =
        (.ok written, v') ∧
      written.shortEntry.take 11 = [0x41, 0x7E, 0x30, 0x31, 0x20, 0x20, 0x20, 0x20, 0x42, 0x2B, 0x43] ∧
      ¬ LegalShortName (written.shortEntry.take 11) := by
  refine ⟨by decide, ?_⟩
  have hname : ((fatWriteEntrySlots emptyVolume 2 [0x61, 0x2E, 0x62, 0x2B, 0x63] newFileEntry).1.map
      fun written => written.shortEntry.take 11).toOption =
      some [0x41, 0x7E, 0x30, 0x31, 0x20, 0x20, 0x20, 0x20, 0x42, 0x2B, 0x43] := by
    decide +kernel
  generalize fatWriteEntrySlots emptyVolume 2 [0x61, 0x2E, 0x62, 0x2B, 0x63] newFileEntry = result
    at hname
  obtain ⟨_ | written, v'⟩ := result
  · cases hname
  · have hsfn : written.shortEntry.take 11 = _ := Option.some.inj hname
    refine ⟨written, v', rfl, hsfn, ?_⟩
    rw [hsfn]
    have hparts : LegalShortName (padName 8 [0x41, 0x7E, 0x30, 0x31] ++ padName 3 [0x42, 0x2B, 0x43]) ↔
        _ := legalShortName_iff (cons_ne_nil _ _) (by decide) (by decide +kernel) (by decide)
          (by decide +kernel)
    exact fun hlegal => absurd (hparts.mp hlegal) (by decide +kernel)

end Proskrnl.Fat
