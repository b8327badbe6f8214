import Proskrnl.Cm.Durability

/-!
# The log is accepted

`log_is_accepted`: any run, with failures and loaded hives, leaves a log of which every record is
accepted, as long as each call meets `StepOk`, nothing was reported lost before it, and what it
writes reaches the file. A create that fails for its handle is the shortest run that breaks the log.
-/

namespace Proskrnl.Cm
open Bytes ListUpdate

section
variable {env : Env} {s s' : CmState} {st : NtStatus} {path : KeyPath} {handle : KeyRef}

theorem cmpRewriteHive_whole (hw : env.Writes) (hroot : s'.lost = s.lost ∧ s'.log = s.log) :
    Whole s (cmpRewriteHive env s') := by
  rw [cmpRewriteHive]
  split
  · exact .inr hroot.2
  rw [if_pos hw.write]
  exact .inl hroot.1

theorem ntLoadKey_whole {file : Except NtStatus (List UInt8)}
    (h : ntLoadKey env path file s = (st, s')) : Whole s s' := by
  rw [ntLoadKey] at h
  split at h
  · cases h; exact .inl rfl
  split at h
  · cases h; exact .inl rfl
  split at h
  · cases h; exact .inl rfl
  split at h
  · cases h; exact .inl rfl
  · cases h; exact .inl rfl
  · cases h; exact .inl rfl
  split at h
  · cases h; exact .inl rfl
  split at h
  · cases h; exact .inl rfl
  cases h
  exact .inl rfl

theorem ntUnloadKey_whole (hw : env.Writes)
    (h : ntUnloadKey env path s = (st, s')) : Whole s s' := by
  rw [ntUnloadKey] at h
  split at h
  · cases h; exact .inl rfl
  split at h
  · cases h; exact .inl rfl
  split at h
  · cases h; exact .inl rfl
  · cases h; exact .inl rfl
  split at h
  · cases h; exact .inl rfl
  split at h
  · cases h; exact .inl rfl
  split at h
  · cases h; exact .inl rfl
  split at h
  · cases h; exact .inl rfl
  cases h
  split
  · exact .inl rfl
  · exact cmpRewriteHive_whole hw ⟨rfl, rfl⟩

theorem ntRestoreKey_whole (hw : env.Writes) {file : Except NtStatus (List UInt8)} {flags : UInt32}
    (h : ntRestoreKey env handle file flags s = (st, s')) : Whole s s' := by
  rw [ntRestoreKey] at h
  split at h
  · cases h; exact .inl rfl
  split at h
  · cases h; exact .inl rfl
  split at h
  · cases h; exact .inl rfl
  split at h
  · cases h; exact .inl rfl
  split at h
  · cases h; exact .inl rfl
  split at h
  · cases h; exact .inl rfl
  dsimp only at h
  split at h
  · cases h
    split
    · exact .inl rfl
    · exact cmpRewriteHive_whole hw ⟨rfl, rfl⟩
  · cases h; exact .inl rfl

theorem step_whole (hw : env.Writes) {op : Op} (h : step env op s = some (st, s')) :
    Whole s s' := by
  cases hop : op.basic with
  | true => exact (step_leaves hop h).whole hw
  | false =>
    cases op with
    | loadKey path file => exact ntLoadKey_whole (Option.some.inj h)
    | unloadKey path => exact ntUnloadKey_whole hw (Option.some.inj h)
    | restoreKey handle file flags => exact ntRestoreKey_whole hw (Option.some.inj h)
    | _ => cases hop

end

/-- The boot replay accepts every record of the file, to the last byte. -/
def Accepted (s : CmState) : Prop :=
  ∀ now, ∃ t n, cmpReplayRecords now 1 s.log.length (emptyRoot now) (s.log.drop 16) 0 = (t, [], n)

/-- A call, successful or not, before which nothing was reported lost, that writes what it has to
write and meets its condition. -/
def Sound (lost : Nat) (env : Env) (s : CmState) (op : Op) (_ : NtStatus) (_ : CmState) : Prop :=
  s.lost = lost ∧ env.Writes ∧ StepOk env s op

theorem Inv.accepted {s : CmState} (hs : Inv s) : Accepted s := by
  intro now
  obtain ⟨t, ht, -⟩ := hs.replays now
  obtain ⟨n, hn⟩ := ht.loop
  exact ⟨t, n, hn⟩

theorem Run.sound {s₀ s : CmState} (hs₀ : Inv s₀) (hrun : Run (Sound s₀.lost) s₀ s) :
    Accepted s ∧ (s.lost = s₀.lost → Inv s) := by
  induction hrun with
  | refl => exact ⟨hs₀.accepted, fun _ => hs₀⟩
  | @step s s' env op st _ hstep hsound ih =>
    obtain ⟨hlost, hw, hok⟩ := hsound
    have hkept (h : s'.lost = s.lost) : Inv s' := step_inv (ih.2 hlost) hok hstep h
    refine ⟨?_, fun h => hkept (h.trans hlost.symm)⟩
    rcases step_whole hw hstep with h | h
    · exact (hkept h).accepted
    · rw [Accepted, h]; exact ih.1

/-- **The log is accepted.** After any run of sound calls the boot replay accepts every record. -/
theorem log_is_accepted {s₀ s : CmState} (hs₀ : Inv s₀) (hrun : Run (Sound s₀.lost) s₀ s) :
    Accepted s :=
  (hrun.sound hs₀).1

/-- A file that is no hive: the load makes its mount and then refuses the image. -/
def mountCall : NtStatus × CmState :=
  ntLoadKey {} (.absolute (machinePath ++ [0x5C, 0x4D])) (.ok (List.replicate 40 0))
    (bootState (bootRoot []) [])

/-- A value set on `User` after it. -/
def userCall : NtStatus × CmState := ntSetValueKey {} (.key [1]) [0x77] 4 [2] mountCall.2

theorem log_is_accepted_mounted : ¬ ntSuccess mountCall.1 ∧
    Run (Sound 0) (bootState (bootRoot []) []) userCall.2 ∧ Accepted userCall.2 := by
  obtain ⟨hcap, hok⟩ := bootRoot_ok [] (by simp)
  have hinv : Inv (bootState (bootRoot []) []) := bootState_inv hcap rfl rfl hok []
  have hwrites : ({} : Env).Writes := ⟨rfl, rfl, by decide⟩
  have hcalls : ¬ ntSuccess mountCall.1 = true ∧ (bootState (bootRoot []) []).lost = 0 ∧
      mountCall.2.lost = 0 ∧ mountCall.2.root.visible [1] = true := by
    decide +kernel
  have hrun : Run (Sound 0) (bootState (bootRoot []) []) userCall.2 := by
    refine .call (.call .refl {} (.loadKey (.absolute (machinePath ++ [0x5C, 0x4D]))
      (.ok (List.replicate 40 0))) (r := mountCall) rfl ?_) {}
      (.setValueKey (.key [1]) [0x77] 4 [2]) rfl ?_
    · exact ⟨hcalls.2.1, hwrites, trivial⟩
    · exact ⟨hcalls.2.2.1, hwrites, fun _ _ _ => hcalls.2.2.2⟩
  exact ⟨hcalls.1, hrun, log_is_accepted hinv (hcalls.2.1 ▸ hrun)⟩

theorem ntOpenKeyEx_log {env : Env} {path : KeyPath} {openLink access : Bool} {s : CmState} :
    (ntOpenKeyEx env path openLink access s).2.log = s.log := by
  rw [ntOpenKeyEx]
  split
  · rfl
  split
  · rfl
  · rfl
  split
  · rfl
  split <;> rfl

theorem ntCreateKey_log {env : Env} {path : KeyPath} {options : CreateOptions} {s : CmState}
    (hhandle : ¬ ntSuccess env.handle = true) : (ntCreateKey env path options s).2.log = s.log := by
  rw [ntCreateKey]
  split
  · rfl
  split
  · rfl
  · split
    · rfl
    split <;> rfl
  · rfl
  split
  · rfl
  split
  · rfl
  split
  · rfl
  split <;> rfl

def noHandle : Env := { handle := statusInsufficientResources }

def failedCall : NtStatus × CmState :=
  ntCreateKey noHandle (.absolute (machinePath ++ [0x5C, 0x41])) {} (bootState (bootRoot []) [])

def openCall : NtStatus × CmState :=
  ntOpenKeyEx {} (.absolute (machinePath ++ [0x5C, 0x41])) false true failedCall.2

def orphanCall : NtStatus × CmState := ntSetValueKey {} (.key [0, 0]) [0x76] 4 [1] openCall.2

def afterCall : NtStatus × CmState := ntSetValueKey {} (.key [1]) [0x77] 4 [2] orphanCall.2

/-- **Not after every run.** The key of a failed create is never logged, what is set on it is. -/
theorem log_is_accepted_orphan :
    ¬ ∀ s₀ s, Inv s₀ → Run (fun _ _ _ _ _ => True) s₀ s → Accepted s := by
  intro hclaim
  obtain ⟨hcap, hok⟩ := bootRoot_ok [] (by simp)
  have hboot := bootState_eq hcap []
  have hrun : Run (fun _ _ _ _ _ => True) (bootState (bootRoot []) []) afterCall.2 :=
    .call (.call (.call (.call .refl noHandle (.createKey (.absolute (machinePath ++ [0x5C, 0x41]))
      {}) (r := failedCall) rfl trivial) {} (.openKey (.absolute (machinePath ++ [0x5C, 0x41]))
      false true) (r := openCall) rfl trivial) {} (.setValueKey (.key [0, 0]) [0x76] 4 [1])
      (r := orphanCall) rfl trivial) {} (.setValueKey (.key [1]) [0x77] 4 [2]) rfl trivial
  -- the file after the calls: the snapshot and one record for each set value
  have hfirst := @ntSetValueKey_log {} [0, 0] [0x76] 4 [1] openCall.2 orphanCall
    { newNode 0 [0x41] with bodyCount := 1 } ⟨[0x76], 4, [1]⟩ [machinePath, [0x41]] rfl
    (by decide +kernel)
  have hsecond := @ntSetValueKey_log {} [1] [0x77] 4 [2] orphanCall.2 afterCall
    (newNode 0 userPath) ⟨[0x77], 4, [2]⟩ [userPath] rfl (by decide +kernel)
  have hlog : openCall.2.log = snapshot (bootRoot []) := by
    rw [openCall, ntOpenKeyEx_log, failedCall, ntCreateKey_log (by decide), hboot]
  rw [hlog] at hfirst
  obtain ⟨t, n, hloop⟩ := hclaim _ _ (bootState_inv hcap rfl rfl hok []) hrun 0
  have hstop := (snapshot_replays hok hcap 0).refused
    (e := logEntry cmpOpSetValues 0 [machinePath, [0x41]] ({} : Env).now (.value ⟨[0x76], 4, [1]⟩))
    ⟨by decide +kernel, by decide +kernel, by decide +kernel⟩ (by decide +kernel)
    (logEntry cmpOpSetValues 0 [userPath] ({} : Env).now (.value ⟨[0x77], 4, [2]⟩)).encode
  rw [← List.append_assoc, ← hfirst, ← hsecond, hloop] at hstop
  have hlen := Entry.length_encode_pos (logEntry cmpOpSetValues 0 [userPath] ({} : Env).now
    (.value ⟨[0x77], 4, [2]⟩))
  rw [← hstop] at hlen
  exact absurd hlen (by simp)

end Proskrnl.Cm
