import Mathlib

/-!
# Thread contexts and their groups

The conversions between a trap frame and a CONTEXT (`kernel/ps/usermode.c`) behind
`NtGetContextThread` and `NtSetContextThread`. `ContextFlags` names the groups of fields a caller asks
for. The tests for a group are made with the constants of `abi/ntcontext.h`, each of which carries the
architecture tag, and so succeed for every word that carries the tag: a partial request is served as a
request for all four groups.
-/

namespace Proskrnl.Ps

def contextAmd64 : BitVec 32 := 0x00100000

def contextControl : BitVec 32 := contextAmd64 ||| 0x0001

def contextInteger : BitVec 32 := contextAmd64 ||| 0x0002

def contextSegments : BitVec 32 := contextAmd64 ||| 0x0004

def contextFloatingPoint : BitVec 32 := contextAmd64 ||| 0x0008

def contextFull : BitVec 32 := contextControl ||| contextInteger ||| contextFloatingPoint

def kiUserCsSelector : BitVec 16 := 0x30 ||| 3

def kiUserDsSelector : BitVec 16 := 0x28 ||| 3

structure XmmSaveArea32 where
  controlWord : BitVec 16
  statusWord : BitVec 16
  tagWord : BitVec 8
  reserved1 : BitVec 8
  errorOpcode : BitVec 16
  errorOffset : BitVec 32
  errorSelector : BitVec 16
  reserved2 : BitVec 16
  dataOffset : BitVec 32
  dataSelector : BitVec 16
  reserved3 : BitVec 16
  mxCsr : BitVec 32
  mxCsrMask : BitVec 32
  floatRegisters : Vector (BitVec 128) 8
  xmmRegisters : Vector (BitVec 128) 16
  reserved4 : Vector (BitVec 8) 96
  deriving Inhabited

structure KTrapFrame where
  r15 : BitVec 64
  r14 : BitVec 64
  r13 : BitVec 64
  r12 : BitVec 64
  r11 : BitVec 64
  r10 : BitVec 64
  r9 : BitVec 64
  r8 : BitVec 64
  rbp : BitVec 64
  rdi : BitVec 64
  rsi : BitVec 64
  rdx : BitVec 64
  rcx : BitVec 64
  rbx : BitVec 64
  rax : BitVec 64
  vector : BitVec 64
  errorCode : BitVec 64
  rip : BitVec 64
  segCs : BitVec 64
  eflags : BitVec 64
  rsp : BitVec 64
  segSs : BitVec 64
  deriving Inhabited

/-- `CONTEXT`. The fields that no conversion touches are `homes`, `debug`, `vectorRegister` and
`vectorControl` to `lastExceptionFromRip`. -/
structure Context where
  homes : Vector (BitVec 64) 6
  contextFlags : BitVec 32
  mxCsr : BitVec 32
  segCs : BitVec 16
  segDs : BitVec 16
  segEs : BitVec 16
  segFs : BitVec 16
  segGs : BitVec 16
  segSs : BitVec 16
  eFlags : BitVec 32
  debug : Vector (BitVec 64) 6
  rax : BitVec 64
  rcx : BitVec 64
  rdx : BitVec 64
  rbx : BitVec 64
  rsp : BitVec 64
  rbp : BitVec 64
  rsi : BitVec 64
  rdi : BitVec 64
  r8 : BitVec 64
  r9 : BitVec 64
  r10 : BitVec 64
  r11 : BitVec 64
  r12 : BitVec 64
  r13 : BitVec 64
  r14 : BitVec 64
  r15 : BitVec 64
  rip : BitVec 64
  fltSave : XmmSaveArea32
  vectorRegister : Vector (BitVec 128) 26
  vectorControl : BitVec 64
  debugControl : BitVec 64
  lastBranchToRip : BitVec 64
  lastBranchFromRip : BitVec 64
  lastExceptionToRip : BitVec 64
  lastExceptionFromRip : BitVec 64
  deriving Inhabited

structure Cpu where
  /-- `KiMxcsrMask`, zero until it is first read. -/
  kiMxcsrMask : BitVec 32
  /-- `MxCsr_Mask` of a clean image. -/
  cleanMask : BitVec 32
  /-- What `fxsave64` stores once `fxrstor64` has loaded an area. -/
  reload : XmmSaveArea32 → XmmSaveArea32

/-- The mask that `KiEnsureMxcsrMask` leaves in `KiMxcsrMask`. -/
def kiEnsureMxcsrMask (cpu : Cpu) : BitVec 32 :=
  if cpu.kiMxcsrMask = 0 then if cpu.cleanMask ≠ 0 then cpu.cleanMask else 0xffbf
  else cpu.kiMxcsrMask

/-- The target of a conversion: its trap frame, and its x87/SSE state as an FXSAVE image. The state is
live in the CPU for the caller itself, and lies in `fxArea` for a suspended thread. -/
structure Target where
  frame : KTrapFrame
  fx : XmmSaveArea32
  foreign : Bool

def kiCaptureFxState (fx : XmmSaveArea32) (context : Context) : Context :=
  { context with fltSave := fx, mxCsr := fx.mxCsr }

/-- The image that `KiRestoreFxState` stores or loads. -/
def restoredArea (cpu : Cpu) (context : Context) : XmmSaveArea32 :=
  { context.fltSave with
    mxCsr := context.mxCsr &&& kiEnsureMxcsrMask cpu
    mxCsrMask := kiEnsureMxcsrMask cpu }

def kiRestoreFxState (cpu : Cpu) (context : Context) (t : Target) : XmmSaveArea32 :=
  if t.foreign then restoredArea cpu context else cpu.reload (restoredArea cpu context)

def wantedGroups (contextFlags : BitVec 32) : BitVec 32 :=
  if contextFlags &&& contextAmd64 ≠ contextAmd64 then contextFull else contextFlags

def Context.fillSegments (context : Context) : Context :=
  { context with
    segDs := kiUserDsSelector
    segEs := kiUserDsSelector
    segFs := kiUserDsSelector
    segGs := kiUserDsSelector }

def Context.fillControl (frame : KTrapFrame) (context : Context) : Context :=
  { context with
    segSs := frame.segSs.setWidth 16
    rsp := frame.rsp
    segCs := frame.segCs.setWidth 16
    rip := frame.rip
    eFlags := frame.eflags.setWidth 32 }

def Context.fillInteger (frame : KTrapFrame) (context : Context) : Context :=
  { context with
    rax := frame.rax
    rcx := frame.rcx
    rdx := frame.rdx
    rbx := frame.rbx
    rbp := frame.rbp
    rsi := frame.rsi
    rdi := frame.rdi
    r8 := frame.r8
    r9 := frame.r9
    r10 := frame.r10
    r11 := frame.r11
    r12 := frame.r12
    r13 := frame.r13
    r14 := frame.r14
    r15 := frame.r15 }

def kiTrapFrameToContext (t : Target) (context : Context) : Context :=
  let wanted := wantedGroups context.contextFlags
  let context := { context with contextFlags := wanted }
  let context := if wanted &&& contextSegments ≠ 0 then context.fillSegments else context
  let context := if wanted &&& contextControl ≠ 0 then context.fillControl t.frame else context
  let context :=
    if wanted &&& contextFloatingPoint ≠ 0 then kiCaptureFxState t.fx context else context
  if wanted &&& contextInteger = 0 then context else context.fillInteger t.frame

/-- The flags that a CONTEXT may set, with the interrupt flag and the always-one bit forced on. -/
def sanitizedFlags (eFlags : BitVec 32) : BitVec 64 :=
  (eFlags.setWidth 64 &&& 0x00000dd5) ||| 0x202

def KTrapFrame.applyInteger (context : Context) (frame : KTrapFrame) : KTrapFrame :=
  { frame with
    rax := context.rax
    rcx := context.rcx
    rdx := context.rdx
    rbx := context.rbx
    rbp := context.rbp
    rsi := context.rsi
    rdi := context.rdi
    r8 := context.r8
    r9 := context.r9
    r10 := context.r10
    r11 := context.r11
    r12 := context.r12
    r13 := context.r13
    r14 := context.r14
    r15 := context.r15 }

def KTrapFrame.applyControl (context : Context) (frame : KTrapFrame) : KTrapFrame :=
  { frame with
    rsp := context.rsp
    rip := context.rip
    eflags := sanitizedFlags context.eFlags }

def kiContextToTrapFrame (cpu : Cpu) (context : Context) (t : Target) : Target :=
  let wanted := wantedGroups context.contextFlags
  let frame :=
    if wanted &&& contextInteger ≠ 0 then t.frame.applyInteger context else t.frame
  let fx := if wanted &&& contextFloatingPoint ≠ 0 then kiRestoreFxState cpu context t else t.fx
  let frame := if wanted &&& contextControl ≠ 0 then frame.applyControl context else frame
  -- the selectors are forced, whatever the caller declared
  { t with
    frame :=
      { frame with
        segCs := kiUserCsSelector.setWidth 64
        segSs := kiUserDsSelector.setWidth 64 }
    fx }

/-- `NtGetContextThread` on a target it has resolved: what it leaves in the caller's CONTEXT. -/
def ntGetContextThread (t : Target) (context : Context) : Context :=
  kiTrapFrameToContext t context

def ntSetContextThread (cpu : Cpu) (context : Context) (t : Target) : Target :=
  kiContextToTrapFrame cpu context t

inductive ContextGroup where
  | control
  | integer
  | segments
  | floatingPoint

namespace ContextGroup

def bit : ContextGroup → BitVec 32
  | control => 1
  | integer => 2
  | segments => 4
  | floatingPoint => 8

def Requested (g : ContextGroup) (contextFlags : BitVec 32) : Prop := contextFlags &&& g.bit ≠ 0

instance (g : ContextGroup) (contextFlags : BitVec 32) : Decidable (g.Requested contextFlags) :=
  inferInstanceAs (Decidable (_ ≠ _))

/-- Two contexts agree on the group's fields. -/
def Same : ContextGroup → Context → Context → Prop
  | control, c, d =>
    c.segSs = d.segSs ∧ c.rsp = d.rsp ∧ c.segCs = d.segCs ∧ c.rip = d.rip ∧ c.eFlags = d.eFlags
  | integer, c, d =>
    c.rax = d.rax ∧ c.rcx = d.rcx ∧ c.rdx = d.rdx ∧ c.rbx = d.rbx ∧ c.rbp = d.rbp ∧ c.rsi = d.rsi ∧
      c.rdi = d.rdi ∧ c.r8 = d.r8 ∧ c.r9 = d.r9 ∧ c.r10 = d.r10 ∧ c.r11 = d.r11 ∧ c.r12 = d.r12 ∧
      c.r13 = d.r13 ∧ c.r14 = d.r14 ∧ c.r15 = d.r15
  | segments, c, d =>
    c.segDs = d.segDs ∧ c.segEs = d.segEs ∧ c.segFs = d.segFs ∧ c.segGs = d.segGs
  | floatingPoint, c, d => c.fltSave = d.fltSave ∧ c.mxCsr = d.mxCsr

/-- The group's fields hold the thread's values. -/
def Holds (t : Target) (c : Context) : ContextGroup → Prop
  | control =>
    c.segSs = t.frame.segSs.setWidth 16 ∧ c.rsp = t.frame.rsp ∧ c.segCs = t.frame.segCs.setWidth 16 ∧
      c.rip = t.frame.rip ∧ c.eFlags = t.frame.eflags.setWidth 32
  | integer =>
    c.rax = t.frame.rax ∧ c.rcx = t.frame.rcx ∧ c.rdx = t.frame.rdx ∧ c.rbx = t.frame.rbx ∧
      c.rbp = t.frame.rbp ∧ c.rsi = t.frame.rsi ∧ c.rdi = t.frame.rdi ∧ c.r8 = t.frame.r8 ∧
      c.r9 = t.frame.r9 ∧ c.r10 = t.frame.r10 ∧ c.r11 = t.frame.r11 ∧ c.r12 = t.frame.r12 ∧
      c.r13 = t.frame.r13 ∧ c.r14 = t.frame.r14 ∧ c.r15 = t.frame.r15
  | segments =>
    c.segDs = kiUserDsSelector ∧ c.segEs = kiUserDsSelector ∧ c.segFs = kiUserDsSelector ∧
      c.segGs = kiUserDsSelector
  | floatingPoint => c.fltSave = t.fx ∧ c.mxCsr = t.fx.mxCsr

/-- The thread's registers of the group are the same in two states. The data selectors are in no trap
frame. -/
def Kept (t t' : Target) : ContextGroup → Prop
  | control =>
    t'.frame.rsp = t.frame.rsp ∧ t'.frame.rip = t.frame.rip ∧ t'.frame.eflags = t.frame.eflags
  | integer =>
    t'.frame.rax = t.frame.rax ∧ t'.frame.rcx = t.frame.rcx ∧ t'.frame.rdx = t.frame.rdx ∧
      t'.frame.rbx = t.frame.rbx ∧ t'.frame.rbp = t.frame.rbp ∧ t'.frame.rsi = t.frame.rsi ∧
      t'.frame.rdi = t.frame.rdi ∧ t'.frame.r8 = t.frame.r8 ∧ t'.frame.r9 = t.frame.r9 ∧
      t'.frame.r10 = t.frame.r10 ∧ t'.frame.r11 = t.frame.r11 ∧ t'.frame.r12 = t.frame.r12 ∧
      t'.frame.r13 = t.frame.r13 ∧ t'.frame.r14 = t.frame.r14 ∧ t'.frame.r15 = t.frame.r15
  | segments => True
  | floatingPoint => t'.fx = t.fx

/-- The thread's registers of the group are the CONTEXT's, its flags sanitised. -/
def Applied (cpu : Cpu) (c : Context) (t : Target) : ContextGroup → Prop
  | control =>
    t.frame.rsp = c.rsp ∧ t.frame.rip = c.rip ∧ t.frame.eflags = sanitizedFlags c.eFlags
  | integer =>
    t.frame.rax = c.rax ∧ t.frame.rcx = c.rcx ∧ t.frame.rdx = c.rdx ∧ t.frame.rbx = c.rbx ∧
      t.frame.rbp = c.rbp ∧ t.frame.rsi = c.rsi ∧ t.frame.rdi = c.rdi ∧ t.frame.r8 = c.r8 ∧
      t.frame.r9 = c.r9 ∧ t.frame.r10 = c.r10 ∧ t.frame.r11 = c.r11 ∧ t.frame.r12 = c.r12 ∧
      t.frame.r13 = c.r13 ∧ t.frame.r14 = c.r14 ∧ t.frame.r15 = c.r15
  | segments => True
  | floatingPoint => t.fx = kiRestoreFxState cpu c t

/-- The group's fields of `d` are what `c` set, with the selectors forced and the flags sanitised. -/
def Returned (cpu : Cpu) (t : Target) (c d : Context) : ContextGroup → Prop
  | control =>
    d.segSs = kiUserDsSelector ∧ d.rsp = c.rsp ∧ d.segCs = kiUserCsSelector ∧ d.rip = c.rip ∧
      d.eFlags = (c.eFlags &&& 0xdd5) ||| 0x202
  | integer => integer.Same d c
  | segments =>
    d.segDs = kiUserDsSelector ∧ d.segEs = kiUserDsSelector ∧ d.segFs = kiUserDsSelector ∧
      d.segGs = kiUserDsSelector
  | floatingPoint =>
    d.fltSave = kiRestoreFxState cpu c t ∧ d.mxCsr = (kiRestoreFxState cpu c t).mxCsr

end ContextGroup

/-- The fields of no group are the same in two contexts, and so are the flags. -/
def Context.SameElsewhere (c d : Context) : Prop :=
  c.homes = d.homes ∧ c.contextFlags = d.contextFlags ∧ c.debug = d.debug ∧
    c.vectorRegister = d.vectorRegister ∧ c.vectorControl = d.vectorControl ∧
    c.debugControl = d.debugControl ∧ c.lastBranchToRip = d.lastBranchToRip ∧
    c.lastBranchFromRip = d.lastBranchFromRip ∧ c.lastExceptionToRip = d.lastExceptionToRip ∧
    c.lastExceptionFromRip = d.lastExceptionFromRip

/-- The get side: the requested groups are the thread's, the others and all else the caller's. -/
structure GetHonours (t : Target) (c c' : Context) : Prop where
  requested : ∀ g : ContextGroup, g.Requested c.contextFlags → g.Holds t c'
  others : ∀ g : ContextGroup, ¬ g.Requested c.contextFlags → g.Same c' c
  elsewhere : c'.SameElsewhere c

/-- The set side: the declared groups are the caller's, the others as they were, and the code and
stack selectors are forced. -/
structure SetHonours (cpu : Cpu) (c : Context) (t t' : Target) : Prop where
  declared : ∀ g : ContextGroup, g.Requested c.contextFlags → g.Applied cpu c t'
  others : ∀ g : ContextGroup, ¬ g.Requested c.contextFlags → g.Kept t t'
  selectors : t'.frame.segCs = kiUserCsSelector.setWidth 64 ∧
    t'.frame.segSs = kiUserDsSelector.setWidth 64
  elsewhere : t'.frame.vector = t.frame.vector ∧ t'.frame.errorCode = t.frame.errorCode ∧
    t'.foreign = t.foreign

/-- Access to a thread's context goes group by group. -/
structure ContextAccess (cpu : Cpu) (t : Target) (c : Context) : Prop where
  get : GetHonours t c (ntGetContextThread t c)
  set : SetHonours cpu c t (ntSetContextThread cpu c t)
  /-- Get, modify within the requested groups, and set again. -/
  getModifySet : ∀ d : Context, d.contextFlags = c.contextFlags →
    (∀ g : ContextGroup, ¬ g.Requested c.contextFlags → g.Same d (ntGetContextThread t c)) →
    ∀ g : ContextGroup, ¬ g.Requested c.contextFlags → g.Kept t (ntSetContextThread cpu d t)
  /-- A get after a set. -/
  setGet : ∀ d : Context, d.contextFlags &&& contextAmd64 = contextAmd64 →
    ∀ g : ContextGroup, g.Requested c.contextFlags → g.Requested d.contextFlags →
      g.Returned cpu t c (ntGetContextThread (ntSetContextThread cpu c t) d)

theorem and_tagged_ne_zero {w : BitVec 32} (hw : w &&& contextAmd64 = contextAmd64) (b : BitVec 32) :
    w &&& (contextAmd64 ||| b) ≠ 0 := by
  intro h
  have htag : contextAmd64 &&& (w &&& (contextAmd64 ||| b)) = contextAmd64 := by
    ext i hi
    have hbit := congrArg (·[i]) hw
    simp only [BitVec.getElem_and, BitVec.getElem_or] at hbit ⊢
    revert hbit
    cases w[i] <;> cases contextAmd64[i] <;> simp
  rw [h] at htag
  exact absurd htag (by decide)

theorem wantedGroups_tagged {w : BitVec 32} (hw : w &&& contextAmd64 = contextAmd64) :
    wantedGroups w = w :=
  if_neg (not_not_intro hw)

theorem kiTrapFrameToContext_eq {t : Target} {c : Context}
    (hc : c.contextFlags &&& contextAmd64 = contextAmd64) :
    kiTrapFrameToContext t c =
      (kiCaptureFxState t.fx (c.fillSegments.fillControl t.frame)).fillInteger t.frame := by
  have hsegments : c.contextFlags &&& contextSegments ≠ 0 := and_tagged_ne_zero hc _
  have hcontrol : c.contextFlags &&& contextControl ≠ 0 := and_tagged_ne_zero hc _
  have hfloatingPoint : c.contextFlags &&& contextFloatingPoint ≠ 0 := and_tagged_ne_zero hc _
  have hinteger : c.contextFlags &&& contextInteger ≠ 0 := and_tagged_ne_zero hc _
  unfold kiTrapFrameToContext
  rw [wantedGroups_tagged hc]
  dsimp only
  rw [if_neg hinteger, if_pos hfloatingPoint, if_pos hcontrol, if_pos hsegments]

theorem kiContextToTrapFrame_eq (cpu : Cpu) (t : Target) {c : Context}
    (hc : c.contextFlags &&& contextAmd64 = contextAmd64) :
    kiContextToTrapFrame cpu c t =
      { t with
        frame :=
          { (t.frame.applyInteger c).applyControl c with
            segCs := kiUserCsSelector.setWidth 64
            segSs := kiUserDsSelector.setWidth 64 }
        fx := kiRestoreFxState cpu c t } := by
  have hcontrol : c.contextFlags &&& contextControl ≠ 0 := and_tagged_ne_zero hc _
  have hfloatingPoint : c.contextFlags &&& contextFloatingPoint ≠ 0 := and_tagged_ne_zero hc _
  have hinteger : c.contextFlags &&& contextInteger ≠ 0 := and_tagged_ne_zero hc _
  unfold kiContextToTrapFrame
  rw [wantedGroups_tagged hc]
  dsimp only
  rw [if_pos hinteger, if_pos hfloatingPoint, if_pos hcontrol]

theorem holds_kiTrapFrameToContext {t : Target} {c : Context}
    (hc : c.contextFlags &&& contextAmd64 = contextAmd64) (g : ContextGroup) :
    g.Holds t (kiTrapFrameToContext t c) := by
  rw [kiTrapFrameToContext_eq hc]
  cases g with
  | control => exact ⟨rfl, rfl, rfl, rfl, rfl⟩
  | integer => exact ⟨rfl, rfl, rfl, rfl, rfl, rfl, rfl, rfl, rfl, rfl, rfl, rfl, rfl, rfl, rfl⟩
  | segments => exact ⟨rfl, rfl, rfl, rfl⟩
  | floatingPoint => exact ⟨rfl, rfl⟩

theorem sameElsewhere_kiTrapFrameToContext {t : Target} {c : Context}
    (hc : c.contextFlags &&& contextAmd64 = contextAmd64) :
    (kiTrapFrameToContext t c).SameElsewhere c := by
  rw [kiTrapFrameToContext_eq hc]
  exact ⟨rfl, rfl, rfl, rfl, rfl, rfl, rfl, rfl, rfl, rfl⟩

theorem applied_kiContextToTrapFrame {cpu : Cpu} {t : Target} {c : Context}
    (hc : c.contextFlags &&& contextAmd64 = contextAmd64) (g : ContextGroup) :
    g.Applied cpu c (kiContextToTrapFrame cpu c t) := by
  rw [kiContextToTrapFrame_eq _ _ hc]
  cases g with
  | control => exact ⟨rfl, rfl, rfl⟩
  | integer => exact ⟨rfl, rfl, rfl, rfl, rfl, rfl, rfl, rfl, rfl, rfl, rfl, rfl, rfl, rfl, rfl⟩
  | segments => trivial
  | floatingPoint => rfl

namespace ContextGroup
variable {g : ContextGroup} {cpu : Cpu} {t t' : Target} {c d : Context}

theorem Holds.of_same (h : g.Holds t c) (hsame : g.Same d c) : g.Holds t d := by
  cases g <;> simp only [Same, Holds] at h hsame ⊢ <;> grind

theorem Holds.of_same_left (h : g.Holds t c) (hsame : g.Same c d) : g.Holds t d := by
  cases g <;> simp only [Same, Holds] at h hsame ⊢ <;> grind

theorem Holds.same (hc : g.Holds t c) (hd : g.Holds t d) : g.Same c d := by
  cases g <;> simp only [Same, Holds] at hc hd ⊢ <;> grind

theorem Applied.of_same (h : g.Applied cpu c t) (hsame : g.Same d c) : g.Applied cpu d t := by
  cases g with
  | floatingPoint =>
    obtain ⟨hsave, hmxCsr⟩ := hsame
    simpa only [Applied, kiRestoreFxState, restoredArea, hsave, hmxCsr] using h
  | _ => simp only [Same, Applied] at h hsame ⊢ <;> grind

theorem Applied.kept (h : g.Applied cpu c t) (h' : g.Applied cpu c t') (hforeign : t'.foreign = t.foreign) :
    g.Kept t t' := by
  cases g with
  | floatingPoint =>
    simp only [Applied, Kept, kiRestoreFxState, hforeign] at h h' ⊢
    exact h'.trans h.symm
  | _ => simp only [Applied, Kept] at h h' ⊢ <;> grind

theorem Applied.of_kept (h : g.Applied cpu c t') (hkept : g.Kept t t') (hforeign : t'.foreign = t.foreign) :
    g.Applied cpu c t := by
  cases g with
  | floatingPoint =>
    simp only [Applied, Kept, kiRestoreFxState, hforeign] at h hkept ⊢
    exact hkept.symm.trans h
  | _ => simp only [Applied, Kept] at h hkept ⊢ <;> grind

theorem setWidth_sanitizedFlags (eFlags : BitVec 32) :
    (sanitizedFlags eFlags).setWidth 32 = (eFlags &&& 0xdd5) ||| 0x202 := by
  rw [sanitizedFlags, BitVec.setWidth_or, BitVec.setWidth_and, BitVec.setWidth_setWidth_of_le _ (by decide),
    BitVec.setWidth_eq]
  rfl

theorem Holds.returned (hd : g.Holds t' d) (happlied : g.Applied cpu c t')
    (hcs : t'.frame.segCs = kiUserCsSelector.setWidth 64)
    (hss : t'.frame.segSs = kiUserDsSelector.setWidth 64) (hforeign : t'.foreign = t.foreign) :
    g.Returned cpu t c d := by
  cases g with
  | control =>
    obtain ⟨hsegSs, hrsp, hsegCs, hrip, heFlags⟩ := hd
    obtain ⟨hrsp', hrip', heflags'⟩ := happlied
    rw [hss] at hsegSs
    rw [hcs] at hsegCs
    rw [heflags', setWidth_sanitizedFlags] at heFlags
    exact ⟨hsegSs, hrsp.trans hrsp', hsegCs, hrip.trans hrip', heFlags⟩
  | integer =>
    simp only [Holds, Applied, Returned, Same] at hd happlied ⊢
    grind
  | segments => exact hd
  | floatingPoint =>
    obtain ⟨hsave, hmxCsr⟩ := hd
    have hfx : t'.fx = kiRestoreFxState cpu c t := by
      rw [happlied, kiRestoreFxState, hforeign]
      rfl
    rw [hfx] at hsave hmxCsr
    exact ⟨hsave, hmxCsr⟩

/-- The group is already the thread's in the CONTEXT, and what a set would put into the thread's
registers is what they hold. -/
def Invisible (cpu : Cpu) (t : Target) (c : Context) (g : ContextGroup) : Prop :=
  g.Holds t c ∧ g.Applied cpu c t

end ContextGroup

section
variable {cpu : Cpu} {t : Target} {c : Context}

theorem ContextAccess.of_invisible (hc : c.contextFlags &&& contextAmd64 = contextAmd64)
    (hinvisible : ∀ g : ContextGroup, ¬ g.Requested c.contextFlags → g.Invisible cpu t c) :
    ContextAccess cpu t c := by
  have hset := kiContextToTrapFrame_eq cpu t hc
  have hget : ∀ g : ContextGroup, g.Holds t (kiTrapFrameToContext t c) := holds_kiTrapFrameToContext hc
  have happlied : ∀ g : ContextGroup, g.Applied cpu c (kiContextToTrapFrame cpu c t) :=
    applied_kiContextToTrapFrame hc
  refine ⟨⟨?_, ?_, sameElsewhere_kiTrapFrameToContext hc⟩, ⟨?_, ?_, ?_, ?_⟩, ?_, ?_⟩
  · intro g _
    exact hget g
  · intro g hg
    exact (hget g).same (hinvisible g hg).1
  · intro g _
    exact happlied g
  · intro g hg
    apply (hinvisible g hg).2.kept (happlied g)
    rw [hset]
  · rw [ntSetContextThread, hset]
    exact ⟨rfl, rfl⟩
  · rw [ntSetContextThread, hset]
    exact ⟨rfl, rfl, rfl⟩
  · intro d hflags hsame g hg
    have hd : d.contextFlags &&& contextAmd64 = contextAmd64 := hflags ▸ hc
    -- the modified context still holds the thread's values in the group
    have hdc : g.Same d c := ((hget g).of_same (hsame g hg)).same (hinvisible g hg).1
    apply ((hinvisible g hg).2.of_same hdc).kept (applied_kiContextToTrapFrame hd g)
    rw [kiContextToTrapFrame_eq _ _ hd]
  · intro d hd g _ _
    apply (holds_kiTrapFrameToContext hd g).returned (happlied g)
    all_goals rw [hset]

theorem ContextAccess.invisible (hc : c.contextFlags &&& contextAmd64 = contextAmd64)
    (h : ContextAccess cpu t c) {g : ContextGroup} (hg : ¬ g.Requested c.contextFlags) :
    g.Invisible cpu t c := by
  constructor
  · exact (holds_kiTrapFrameToContext hc g).of_same_left (h.get.others g hg)
  · apply (applied_kiContextToTrapFrame hc g).of_kept (h.set.others g hg)
    rw [kiContextToTrapFrame_eq _ _ hc]

end

def zeroContext (contextFlags : BitVec 32) : Context := { (default : Context) with contextFlags }

def busyTarget : Target where
  frame := { (default : KTrapFrame) with rax := 1, rip := 0x401000 }
  fx := { (default : XmmSaveArea32) with mxCsr := 0x1f80 }
  foreign := true

theorem not_holds_zeroContext (contextFlags : BitVec 32) (g : ContextGroup) :
    ¬ g.Holds busyTarget (zeroContext contextFlags) := by
  cases g with
  | control =>
    rintro ⟨-, -, -, hrip, -⟩
    exact absurd hrip (by decide : (0 : BitVec 64) ≠ 0x401000)
  | integer =>
    rintro ⟨hrax, -⟩
    exact absurd hrax (by decide : (0 : BitVec 64) ≠ 1)
  | segments =>
    rintro ⟨hsegDs, -⟩
    exact absurd hsegDs (by decide : (0 : BitVec 16) ≠ kiUserDsSelector)
  | floatingPoint =>
    rintro ⟨-, hmxCsr⟩
    exact absurd hmxCsr (by decide : (0 : BitVec 32) ≠ 0x1f80)

/-- Which requests are honoured: for every thread and every CONTEXT, exactly where the groups whose bit
is clear are invisible; and whatever they hold, exactly where the word requests all four groups. -/
theorem contextAccess_iff (cpu : Cpu) (contextFlags : BitVec 32)
    (htag : contextFlags &&& contextAmd64 = contextAmd64) :
    (∀ t c, c.contextFlags = contextFlags →
      (ContextAccess cpu t c ↔
        ∀ g : ContextGroup, ¬ g.Requested contextFlags → g.Invisible cpu t c)) ∧
    ((∀ t c, c.contextFlags = contextFlags → ContextAccess cpu t c) ↔
      ∀ g : ContextGroup, g.Requested contextFlags) := by
  refine ⟨?_, ?_, ?_⟩
  · rintro t c rfl
    exact ⟨fun h g hg => h.invisible htag hg, ContextAccess.of_invisible htag⟩
  · intro h g
    by_contra hg
    have haccess := h busyTarget (zeroContext contextFlags) rfl
    exact not_holds_zeroContext contextFlags g (haccess.invisible htag hg).1
  · rintro h t c rfl
    exact ContextAccess.of_invisible htag fun g hg => absurd (h g) hg

def plainCpu : Cpu := ⟨0, 0xffff, id⟩

/-- The request for the control group. -/
theorem contextAccess_iff_control :
    contextControl &&& contextAmd64 = contextAmd64 ∧
      ((∀ t c, c.contextFlags = contextControl → ContextAccess plainCpu t c) ↔
        ∀ g : ContextGroup, g.Requested contextControl) :=
  ⟨by decide, (contextAccess_iff plainCpu contextControl (by decide)).2⟩

/-- A get of the integer group alone overwrites the caller's `Rip`. -/
theorem not_contextAccess_integer :
    ¬ ∀ cpu t c, c.contextFlags &&& contextAmd64 = contextAmd64 → ContextAccess cpu t c := by
  intro h
  have haccess := h plainCpu busyTarget (zeroContext contextInteger) (by decide)
  have hother : ¬ ContextGroup.control.Requested (zeroContext contextInteger).contextFlags := by decide
  obtain ⟨-, -, -, hrip, -⟩ := haccess.get.others .control hother
  exact absurd hrip (by decide)

end Proskrnl.Ps
