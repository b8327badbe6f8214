import Proskrnl.Cm.Durability
import Proskrnl.Cm.TornAppend

/-!
# Crashes and corrupt records
-/

namespace Proskrnl.Cm
open Bytes List

/-- A log with something behind it that is no record replays to the tree of the log. -/
theorem Replays.cmpReplayImage_stop {log b : List UInt8} {now : UInt64} {t : Key}
    (h : Replays log now t) (hb : cmpReadRecord b = none)
    (hcap : (log ++ b).length ≤ cmpHiveMaxBytes) :
    Cm.cmpReplayImage now 1 (emptyRoot now) (log ++ b) true = (statusSuccess, t) := by
  have hlen := h.length_ge
  obtain ⟨k, hk, hloop⟩ := h.records.cmpReplayRecords_append
  obtain ⟨r, hr⟩ : ∃ r, (log ++ b).length = k + r := by
    refine Nat.exists_eq_add_of_le ?_
    rw [length_drop] at hk
    rw [length_append]
    omega
  have hend : cmpReplayRecords now 1 r t b (0 + k) = (t, b, 0 + k) := by
    cases r with
    | zero => rfl
    | succ r => rw [cmpReplayRecords, hb]
  rw [Cm.cmpReplayImage, field_append_left _ (by omega), field_append_left _ (by omega), h.magic,
    h.version, if_neg (by rw [length_append] at hcap ⊢; omega), if_neg (by decide), hr,
    drop_append_of_le_length hlen, hloop, hend]
  simp

/-- A record with a byte changed behind its checksum is none, whatever stands behind it. -/
theorem Framed.read_changed {p q : List UInt8} {c c' : UInt8} (h : Framed (p ++ c :: q))
    (hp : 8 ≤ p.length) (hc : c ≠ c') (rest : List UInt8) :
    cmpReadRecord (p ++ c' :: q ++ rest) = none := by
  have hlength : field (p ++ c' :: q ++ rest) 0 4 = (p ++ c :: q).length := by
    rw [← h.length, append_assoc, field_append_left _ (by omega), field_append_left _ (by omega)]
  have hsum : field (p ++ c' :: q ++ rest) 4 4 = field (p ++ c :: q) 4 4 := by
    rw [append_assoc, field_append_left _ (by omega), field_append_left _ (by omega)]
  have hcovered : ((p ++ c' :: q ++ rest).drop 8).take ((p ++ c :: q).length - 8) =
      p.drop 8 ++ c' :: q := by
    rw [take_drop_append rest (by simp; omega), drop_append_of_le_length hp, take_of_length_le]
    simp
    omega
  have hcrc := h.checksum
  rw [drop_append_of_le_length hp] at hcrc
  unfold cmpReadRecord
  simp only [hlength, hsum, hcovered, ← hcrc]
  split
  · rfl
  · rw [if_pos (fun heq => kiCrc32_ne (p.drop 8) q hc (UInt32.toNat_inj.mp heq).symm), ite_self]

/-- What a crash within an append or a bad sector leaves behind a log: a part of a record, or one with a
byte changed behind its checksum and what was appended after it. -/
inductive Damaged : List UInt8 → Prop
  | torn {b : List UInt8} {n : Nat} : Framed b → n < b.length → Damaged (b.take n)
  | changed {p q : List UInt8} {c c' : UInt8} (rest : List UInt8) : Framed (p ++ c :: q) →
    8 ≤ p.length → c ≠ c' → Damaged (p ++ c' :: q ++ rest)

/-- **Damage behind a log loses nothing of it.** After a run the boot replay rebuilds the tree that the
run left, whatever happened to the records appended since. -/
theorem damaged_log_restores {s₀ s : CmState} (hs₀ : Inv s₀) (hclosed : s₀.root.Closed)
    (hrun : Run Kept s₀ s) {b : List UInt8} (hb : Damaged b)
    (hcap : (s.log ++ b).length ≤ cmpHiveMaxBytes) (now : UInt64) :
    ∃ t, cmpReplayImage now 1 (emptyRoot now) (s.log ++ b) true = (statusSuccess, t) ∧
      t.untimed = s.root.image := by
  obtain ⟨t, ht, himage⟩ := (hrun.kept hs₀ hclosed).1.replays now
  refine ⟨t, ht.cmpReplayImage_stop ?_ hcap, himage⟩
  cases hb with
  | torn hb hn => exact hb.read_take hn
  | changed rest hb hp hc => exact hb.read_changed hp hc rest

theorem damaged_log_restores_created : ∃ t,
    cmpReplayImage 0 1 (emptyRoot 0) (createCall.2.log ++ (createA 0).take 20) true =
      (statusSuccess, t) ∧ t.untimed = createCall.2.root.image := by
  obtain ⟨hcap, hok⟩ := bootRoot_ok [] (by simp)
  have hcall : (ntSuccess createCall.1 = true ∧
        createCall.2.lost = (bootState (bootRoot []) []).lost) ∧
      (createCall.2.log ++ (createA 0).take 20).length ≤ cmpHiveMaxBytes ∧ Framed (createA 0) ∧
      20 < (createA 0).length ∧ (bootState (bootRoot []) []).root.checkClosed = true := by
    decide +kernel
  exact damaged_log_restores (bootState_inv hcap rfl rfl hok []) (Key.closed_of_check hcall.2.2.2.2)
    (.call .refl {} (.createKey (.absolute (machinePath ++ [0x5C, 0x41])) {}) (r := createCall) rfl
      ⟨rfl, hcall.1⟩) (.torn hcall.2.2.1 hcall.2.2.2.1) hcall.2.1 0

end Proskrnl.Cm
