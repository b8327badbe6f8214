import Proskrnl.Npfs.Invariant

/-!
# The ends of an instance

What each step does to the ends of an instance, and that no assertion about its ends or the requests on
them fails. The listens that are parked wait on the server end of a listening instance (`Listens`), and
an end that the instance has is live and has its handle (`Members`).
-/

namespace Proskrnl.Npfs
open MessageQueue Outcome List

section
variable {s s' t : Instance} {e : EndId} {r : Request} {hand hand' : List Request} {result : Result}
  {allows : Allows}

structure Listens (s : Instance) : Prop where
  file : ∀ r ∈ s.pendingListens, r.file = .server
  waiting : s.pendingListens ≠ [] → s.state = .listening ∧ s.serverEnd = true
  parked : ∀ r ∈ s.parked.map Park.request, r.verb = .listen → r.file = .server ∧ r.synchronous = true

theorem Initial.listens (h : Initial s) : Listens s where
  file r hr := by
    rw [h.pendingListens] at hr
    cases hr
  waiting hne := absurd h.pendingListens hne
  parked r hr := by
    rw [h.parked] at hr
    cases hr

theorem Listens.of_frame (h : Listens s) (hframe : Frame s s') : Listens s' where
  file r hr := h.file r (by rwa [hframe.pendingListens] at hr)
  waiting hne := by
    rw [hframe.state, hframe.serverEnd]
    exact h.waiting (by rwa [hframe.pendingListens] at hne)
  parked r hr := h.parked r (by rwa [hframe.parked] at hr)

structure Kept (s s' : Instance) : Prop where
  serverEnd : s'.serverEnd = s.serverEnd
  clientEnd : s'.clientEnd = s.clientEnd
  openEnds : s'.openEnds = s.openEnds
  connection : s'.connection = s.connection
  ends : ∀ e, (s'.ends e).pipe = (s.ends e).pipe ∧ (s'.ends e).handle = (s.ends e).handle

structure Steady (s s' : Instance) : Prop extends Kept s s' where
  listens : Listens s → Listens s'

theorem Kept.refl (s : Instance) : Kept s s := ⟨rfl, rfl, rfl, rfl, fun _ => ⟨rfl, rfl⟩⟩

theorem Kept.trans (h : Kept s t) (h' : Kept t s') : Kept s s' where
  serverEnd := h'.serverEnd.trans h.serverEnd
  clientEnd := h'.clientEnd.trans h.clientEnd
  openEnds := h'.openEnds.trans h.openEnds
  connection := h'.connection.trans h.connection
  ends e := ⟨(h'.ends e).1.trans (h.ends e).1, (h'.ends e).2.trans (h.ends e).2⟩

theorem Kept.of_frame (h : Frame s s') : Kept s s' where
  serverEnd := h.serverEnd
  clientEnd := h.clientEnd
  openEnds := h.openEnds
  connection := h.connection
  ends e := by rw [h.ends]; exact ⟨rfl, rfl⟩

theorem Steady.refl (s : Instance) : Steady s s := ⟨.refl s, id⟩

theorem Steady.trans (h : Steady s t) (h' : Steady t s') : Steady s s' :=
  ⟨h.toKept.trans h'.toKept, h'.listens ∘ h.listens⟩

theorem Steady.of_frame (h : Frame s s') : Steady s s' := ⟨.of_frame h, fun hs => hs.of_frame h⟩

theorem Steady.complete (s : Instance) (r : Request) (result : Result) :
    Steady s (s.complete r result) :=
  ⟨{ Kept.refl s with }, fun h => { h with }⟩

theorem Steady.park {wait : Wait}
    (hr : r.verb = .listen → r.file = .server ∧ r.synchronous = true) : Steady s (s.park r wait) where
  toKept := { Kept.refl s with }
  listens h :=
    { h with
      parked := fun q hq => by
        rw [Instance.park, map_append] at hq
        rcases mem_append.mp hq with hq | hq
        · exact h.parked q hq
        · obtain rfl := mem_singleton.mp hq
          exact hr }

/-- The assertions that are about bytes, and not about ends and requests. -/
def AboutBytes (halt : Halt) : Prop := halt = .bytesAvailable ∨ halt = .copied

theorem npfsReadDrain_steady (n : Nat) :
    Ends AboutBytes (npfsReadDrain s e n) fun x => Steady s x.1 := by
  cases h : npfsReadDrain s e n with
  | ok x => exact .of_frame (npfsReadDrain_frame h).1
  | error halt =>
    simp only [npfsReadDrain] at h
    split at h
    · cases h
      exact .inl rfl
    · cases h

theorem servicePendingReads_steady (l : List Request) (s : Instance) :
    Ends AboutBytes (servicePendingReads e l s) (Steady s) := by
  induction l generalizing s with
  | nil => exact Ends.ok (.refl s)
  | cons r rest ih =>
    have hanswer {s1 : Instance} (result : Result) (h : Steady s s1) :
        Ends AboutBytes (servicePendingReads e rest
          ({ s1 with pendingReads := s1.pendingReads.erase r }.complete r result)) (Steady s) := by
      have hdrop : Steady s1 { s1 with pendingReads := s1.pendingReads.erase r } :=
        ⟨{ Kept.refl s1 with }, fun h => { h with }⟩
      exact (ih _).mono fun s' hs' => (h.trans (hdrop.trans (.complete _ r result))).trans hs'
    rw [servicePendingReads]
    refine Ends.ite (fun _ => Ends.ok (.refl s)) fun _ => Ends.ite (fun _ => ?_) fun _ => ?_
    · exact (npfsReadDrain_steady r.length).bind fun x hx => hanswer x.2 hx
    · exact hanswer _ (.refl s)

theorem serviceClient_steady (s : Instance) : Ends AboutBytes (serviceClient s) (Steady s) := by
  rw [serviceClient]
  split
  · exact servicePendingReads_steady _ s
  · exact Ends.ok (.refl s)

theorem npfsServiceInstance_steady (s : Instance) :
    Ends AboutBytes (npfsServiceInstance s) (Steady s) := by
  rw [npfsServiceInstance]
  refine Ends.ite (fun _ => ?_) fun _ => serviceClient_steady s
  exact (servicePendingReads_steady _ s).bind fun t ht =>
    (serviceClient_steady t).mono fun s' hs' => ht.trans hs'

theorem Steady.wake (s : Instance) (event : KEvent) : Steady s (s.keSetEvent event) :=
  .of_frame (.keSetEvent event)

theorem npfsWakeAll_steady (s : Instance) : Ends AboutBytes (npfsWakeAll s) (Steady s) := by
  refine (npfsServiceInstance_steady _).mono fun s' hs' => Steady.trans ?_ hs'
  exact (((((Steady.wake _ _).trans (.wake _ _)).trans (.wake _ _)).trans (.wake _ _)).trans
    (.wake _ _))

theorem npfsAwaitRead_steady (honourCompletionMode : Bool) (prepare : Prepare) (hr : r.verb ≠ .listen) :
    Ends AboutBytes (npfsAwaitRead s r honourCompletionMode prepare) (Steady s) := by
  simp only [npfsAwaitRead]
  refine Ends.ite (fun _ => ?_) fun _ => Ends.ite (fun _ => Ends.ok (.complete ..)) fun _ =>
    Ends.ite (fun _ => Ends.ok (.complete ..)) fun _ => Ends.ite (fun _ => Ends.ok ?_) fun _ => Ends.ok ?_
  · exact (npfsReadDrain_steady r.length).bind fun x hx => Ends.ok (hx.trans (.complete ..))
  · rw [pendRead]
    split
    · exact ⟨{ Kept.refl s with }, fun h => { h with }⟩
    · exact .complete ..
  · exact .park fun h => absurd h hr

theorem npfsFlush_steady (drainSeq : Nat) (parked : Bool) (hr : r.verb ≠ .listen) :
    Steady s (npfsFlush s r drainSeq parked) := by
  simp only [npfsFlush]
  repeat' split
  all_goals first | exact .complete .. | exact .park fun h => absurd h hr

theorem npfsAppendBuffer_steady (data : List Octet) :
    Ends AboutBytes (npfsAppendBuffer s r data) (Steady s) := by
  refine (npfsServiceInstance_steady _).mono fun s' hs' => Steady.trans ?_ hs'
  have haccept : Steady s (accept s r data) := ⟨{ Kept.refl s with }, fun h => { h with }⟩
  exact haccept.trans (.wake _ _)

theorem writeMessage_steady (pool : Nat) (hr : r.verb ≠ .listen) :
    Ends AboutBytes (writeMessage s r pool) (Steady s) := by
  simp only [writeMessage]
  refine Ends.ite (fun _ => Ends.ok (.complete ..)) fun _ => Ends.ite (fun _ => ?_) fun _ =>
    Ends.ok (.park fun h => absurd h hr)
  refine Ends.ite (fun _ => Ends.ok (.complete ..)) fun _ => ?_
  exact (npfsAppendBuffer_steady r.data).bind fun t ht => Ends.ok (ht.trans (.complete ..))

theorem writeBytes_steady (pool : Nat) (rest : List Octet) (hr : r.verb ≠ .listen) :
    Ends AboutBytes (writeBytes r pool rest s) (Steady s) := by
  fun_induction writeBytes r pool rest s with
  | case1 | case2 | case4 => exact Ends.ok (.complete ..)
  | case3 => exact Ends.ok (.park fun h => absurd h hr)
  | case5 rest s queue status space _ _ _ pool ih =>
    exact (npfsAppendBuffer_steady _).bind fun t ht => (ih t).mono fun s' hs' => ht.trans hs'

theorem npfsWrite_steady (pool : Nat) (hr : r.verb ≠ .listen) :
    Ends AboutBytes (npfsWrite s r pool) (Steady s) := by
  simp only [npfsWrite]
  refine Ends.ite (fun _ => Ends.ok (.complete ..)) fun _ => ?_
  split
  · exact writeMessage_steady pool hr
  · exact writeBytes_steady pool _ hr

theorem npfsTransceive_steady (pool : Nat) (prepare : Prepare) (hr : r.verb ≠ .listen) :
    Ends AboutBytes (npfsTransceive s r pool prepare) (Steady s) := by
  simp only [npfsTransceive]
  refine Ends.ite (fun _ => Ends.ok (.complete ..)) fun _ => Ends.ite (fun _ => Ends.ok (.complete ..))
    fun _ => Ends.ite (fun _ => Ends.ok (.complete ..)) fun _ => Ends.ite
    (fun _ => Ends.ok (.complete ..)) fun _ => Ends.ite (fun _ => Ends.ok (.complete ..)) fun _ => ?_
  exact (npfsAppendBuffer_steady r.data).bind fun t ht =>
    (npfsAwaitRead_steady false prepare hr).mono fun s' hs' => ht.trans hs'

theorem listenLoop_steady (prepare : Prepare) (hfile : r.file = .server)
    (hserver : r.synchronous = false → s.serverEnd = true) :
    Ends AboutBytes (listenLoop s r prepare) (Steady s) := by
  rw [listenLoop]
  split
  · exact Ends.ok (.complete ..)
  · exact Ends.ok (.complete ..)
  · rename_i hstate
    refine Ends.ite (fun _ => Ends.ok (.complete ..)) fun _ => Ends.ite (fun hasync => ?_) fun hsync => ?_
    · have hserver : s.serverEnd = true := hserver (by simpa using hasync)
      refine Ends.ite (fun h => by simp [hserver] at h) fun _ => Ends.ite (fun _ => Ends.ok ?_) fun _ =>
        Ends.ok (.complete ..)
      exact ⟨{ Kept.refl s with }, fun h =>
        { h with
          file := fun q hq => (mem_append.mp hq).elim (h.file q) fun hq => by
            obtain rfl := mem_singleton.mp hq
            exact hfile
          waiting := fun _ => ⟨hstate, hserver⟩ }⟩
    · exact Ends.ok (.park fun _ => ⟨hfile, by simpa using hsync⟩)
  · exact Ends.ok (.complete ..)

theorem npfsListen_steady (prepare : Prepare)
    (hserver : r.file = .server → s.serverEnd = true) :
    Ends AboutBytes (npfsListen s r prepare) (Steady s) := by
  rw [npfsListen]
  refine Ends.ite (fun _ => Ends.ok (.complete ..)) fun hfile => ?_
  have hfile := not_not.mp hfile
  refine Ends.ite (fun hstate => ?_) fun _ => listenLoop_steady prepare hfile fun _ => hserver hfile
  refine (npfsWakeAll_steady _).bind fun t ht => ?_
  have hrelisten : Steady s { s with state := .listening } :=
    ⟨{ Kept.refl s with }, fun h =>
      { h with waiting := fun hne => absurd (h.waiting hne).1 (by rw [hstate]; simp) }⟩
  refine (listenLoop_steady prepare hfile fun _ => ?_).mono fun s' hs' => (hrelisten.trans ht).trans hs'
  rw [ht.serverEnd]
  exact hserver hfile

theorem npfsCancelPending_steady (filter : List Nat) : Steady s (npfsCancelPending s e filter) := by
  rw [npfsCancelPending_eq]
  have hreads (drop : Request → Bool) : Steady s (cancelReads s drop) := by
    rw [cancelReads, completeAll_eq]
    exact ⟨{ Kept.refl s with }, fun h => { h with }⟩
  have hlistens (s : Instance) (drop : Request → Bool) :
      Steady s (answerListens s statusCancelled drop) := by
    rw [answerListens, completeAll_eq]
    exact ⟨{ Kept.refl s with }, fun h =>
      { h with
        file := fun q hq => h.file q (mem_of_mem_filter hq)
        waiting := fun hne => h.waiting fun hnil => hne (by simp [hnil]) }⟩
  split
  · exact (hreads _).trans (hlistens _ _)
  · exact hreads _

theorem npfsSetPipeInfo_steady (access : NtStatus) (readMode : Mode) (completionMode : CompletionMode) :
    Steady s (npfsSetPipeInfo s e access readMode completionMode).1 := by
  rw [npfsSetPipeInfo]
  repeat' split
  all_goals first | exact .refl s | skip
  refine ⟨{ Kept.refl s with ends := fun e' => ?_ }, fun h => { h with }⟩
  by_cases he : e' = e
  · subst he
    simp [Instance.setEnd]
  · simp [Instance.setEnd, he]

theorem Steady.unpark (s : Instance) (p : Park) : Steady s { s with parked := s.parked.erase p } where
  toKept := { Kept.refl s with }
  listens h :=
    { h with
      parked := fun q hq => by
        obtain ⟨x, hx, rfl⟩ := List.mem_map.mp hq
        exact h.parked _ (List.mem_map_of_mem (mem_of_mem_erase hx)) }

theorem resume_steady {p : Park} (pool : Nat) (prepare : Prepare) (hfit : Fitting s) (hs : Listens s)
    (hp : p ∈ s.parked) : Ends AboutBytes (resume s p pool prepare) (Steady s) := by
  have hunpark := Steady.unpark s p
  have hfits := hfit p hp
  rw [Park.Fits] at hfits
  suffices h : Ends AboutBytes (resume s p pool prepare) (Steady { s with parked := s.parked.erase p }) from
    h.mono fun s' hs' => hunpark.trans hs'
  rw [resume]
  split
  · rename_i hwait
    rw [hwait] at hfits
    refine npfsAwaitRead_steady _ prepare fun hverb => ?_
    rw [hverb] at hfits
    cases hfits.1
  · rename_i hwait
    rw [hwait] at hfits
    exact writeMessage_steady pool (by rw [hfits]; simp)
  · rename_i hwait
    rw [hwait] at hfits
    exact writeBytes_steady pool _ (by rw [hfits.1]; simp)
  · rename_i hwait
    rw [hwait] at hfits
    exact Ends.ok (npfsFlush_steady _ _ (by rw [hfits]; simp))
  · rename_i hwait
    rw [hwait] at hfits
    obtain ⟨hfile, hsync⟩ := hs.parked _ (List.mem_map_of_mem hp) hfits
    refine Ends.ite (fun _ => Ends.ok (.complete ..)) fun _ => ?_
    exact listenLoop_steady prepare hfile fun h => by rw [hsync] at h; cases h

def Op.Moves : Op → Prop
  | .attach .. | .disconnect _ | .cleanup _ | .close _ => True
  | _ => False

theorem Steady.issue (s : Instance) : Steady s s.issue :=
  ⟨{ Kept.refl s with }, fun h => { h with }⟩

theorem step_steady {op : Op} (ha : Attached s) (hfit : Fitting s) (hs : Listens s)
    (hop : op.Enabled s) (hmoves : ¬ op.Moves) : Ends AboutBytes (step op s) (Steady s) := by
  have hissue {x : Except Halt Instance} (h : Ends AboutBytes x (Steady s.issue)) :
      Ends AboutBytes x (Steady s) := h.mono fun s' hs' => (Steady.issue s).trans hs'
  cases op with
  | attach | disconnect | cleanup | close => exact absurd trivial hmoves
  | read e length prepare => exact hissue (npfsAwaitRead_steady true prepare nofun)
  | write e data pool => exact hissue (npfsWrite_steady pool nofun)
  | transceive e data length pool prepare => exact hissue (npfsTransceive_steady pool prepare nofun)
  | flush e => exact hissue (Ends.ok (npfsFlush_steady _ _ nofun))
  | listen e prepare =>
    refine hissue (npfsListen_steady prepare fun hfile => ha.server ?_)
    obtain rfl : e = .server := hfile
    exact hop.2
  | peek e outputLength =>
    have hpeek : Ends AboutBytes (npfsPeek s e outputLength) fun _ => True := by
      have hqueue (room : Nat) : Ends AboutBytes (peekQueue s e room) fun _ => True := by
        rw [peekQueue]
        exact Ends.ite (fun _ => Ends.error (.inr rfl)) fun _ => Ends.ok trivial
      rw [npfsPeek]
      refine Ends.ite (fun _ => Ends.ok trivial) fun _ => Ends.ite (fun _ => Ends.ok trivial) fun _ => ?_
      split
      · exact hqueue _
      · exact Ends.ite (fun _ => Ends.ok trivial) fun _ => hqueue _
      · exact Ends.ok trivial
    exact hpeek.map fun _ _ => .refl s
  | setPipeInfo e access readMode completionMode => exact Ends.ok (npfsSetPipeInfo_steady ..)
  | cancel e filter => exact Ends.ok (npfsCancelPending_steady filter)
  | resume p pool prepare => exact resume_steady pool prepare hfit hs hop.1
  | interrupt p why => exact Ends.ok ((Steady.unpark s p).trans (.complete ..))

structure Members (hand : List Request) (s : Instance) : Prop where
  nodup : s.openEnds.Nodup
  known : ∀ n, .client n ∈ s.openEnds → n ≤ s.connection
  files : ∀ r ∈ hand ++ outstanding s, ∀ n, r.file = .client n → n ≤ s.connection
  held : ∀ e, s.has e = true → e ∈ s.openEnds ∧ (s.ends e).handle = true

theorem Kept.has (h : Kept s s') (e : EndId) : s'.has e = s.has e := by
  cases e with
  | server => exact h.serverEnd
  | client n => rw [Instance.has, h.clientEnd]; rfl

theorem Initial.members (h : Initial s) : Members [] s where
  nodup := by
    rw [h.openEnds]
    exact nodup_singleton _
  known n hn := by
    rw [h.openEnds] at hn
    cases mem_singleton.mp hn
  files r hr := by simp [outstanding, h.pendingReads, h.pendingListens, h.parked] at hr
  held e he := by
    cases e with
    | server => exact ⟨by rw [h.openEnds]; exact mem_singleton_self _, h.server.2⟩
    | client n =>
      rw [Instance.has, h.clientEnd] at he
      cases he

theorem Members.shrink (hs : Members hand s) (hkept : Kept s s')
    (hsub : hand' ++ outstanding s' ⊆ hand ++ outstanding s) : Members hand' s' where
  nodup := by rw [hkept.openEnds]; exact hs.nodup
  known := by rw [hkept.openEnds, hkept.connection]; exact hs.known
  files r hr := by rw [hkept.connection]; exact hs.files r (hsub hr)
  held e he := by
    rw [hkept.openEnds, (hkept.ends e).2]
    exact hs.held e (by rwa [hkept.has] at he)

theorem outstanding_frame (hframe : Frame s s') : outstanding s' ⊆ outstanding s := by
  intro r hr
  simp only [outstanding, mem_append, hframe.pendingListens, hframe.parked] at hr ⊢
  exact hr.imp_left (.imp_left fun h => hframe.pendingReads h)

theorem Members.of_frame (hs : Members hand s) (hframe : Frame s s') : Members hand s' :=
  hs.shrink (.of_frame hframe) (append_subset.mpr
    ⟨subset_append_left .., fun _ hr => mem_append_right _ (outstanding_frame hframe hr)⟩)

theorem Members.issue {verb : Verb} {length : Nat} {data : List UInt8} (hs : Members [] s)
    (he : e ∈ s.openEnds) : Members [s.request e verb length data] s.issue where
  nodup := hs.nodup
  known := hs.known
  files r hr n hn := by
    rcases mem_append.mp hr with hr | hr
    · obtain rfl := mem_singleton.mp hr
      obtain rfl : e = .client n := hn
      exact hs.known n he
    · exact hs.files r hr n hn
  held := hs.held

theorem Members.connect {synchronousIo : Bool} (hs : Members [] s) :
    Members [] (connect s synchronousIo) where
  nodup := by
    refine nodup_cons.mpr ⟨fun hmem => ?_, hs.nodup⟩
    exact absurd (hs.known _ hmem) (Nat.not_succ_le_self _)
  known n hn := by
    rcases mem_cons.mp hn with hn | hn
    · cases hn
      exact le_refl _
    · exact (hs.known n hn).trans (Nat.le_succ _)
  files r hr n hn := (hs.files r hr n hn).trans (Nat.le_succ _)
  held e he := by
    cases e with
    | server =>
      obtain ⟨hopen, hhandle⟩ := hs.held .server he
      exact ⟨mem_cons_of_mem _ hopen, by simpa [Npfs.connect, Instance.setEnd] using hhandle⟩
    | client n =>
      obtain rfl : s.connection + 1 = n := by simpa [Npfs.connect, Instance.has] using he
      exact ⟨mem_cons_self .., by simp [Npfs.connect, Instance.setEnd]⟩

theorem Members.throwOut (hs : Members hand s) : Members hand (throwOut s) := by
  obtain ⟨-, -, hopen, hends⟩ := throwOut_frame s
  obtain ⟨hparked, -, hlistens, -, -, hconnection⟩ := throwOut_parked (s := s)
  refine ⟨by rw [hopen]; exact hs.nodup, by rw [hopen, hconnection]; exact hs.known, ?_, fun e he => ?_⟩
  · rw [outstanding, hparked, hlistens, throwOut_pendingReads, hconnection]
    exact hs.files
  · rw [has_throwOut, Bool.and_eq_true] at he
    obtain rfl := of_decide_eq_true he.2
    rw [hopen, hends]
    exact hs.held .server he.1

theorem leave_handle {e' : EndId} (he : e' ≠ e) : ((leave s e).ends e').handle = (s.ends e').handle := by
  have hset : (Function.update s.ends e { s.ends e with handle := false } e').handle =
      (s.ends e').handle := by rw [Function.update_of_ne he]
  cases e with
  | server => exact hset
  | client n =>
    simp only [leave]
    split <;> exact hset

theorem Members.leave (hs : Members hand s) (e : EndId) : Members hand (leave s e) := by
  obtain ⟨hconnection, hopen, -, -, -, hlistens, -⟩ := leave_frame s e
  refine ⟨by rw [hopen]; exact hs.nodup, by rw [hopen, hconnection]; exact hs.known, ?_,
    fun e' he => ?_⟩
  · rw [outstanding, leave_parked, hlistens, leave_pendingReads, hconnection]
    exact hs.files
  · rw [has_leave, Bool.and_eq_true] at he
    rw [hopen, leave_handle (of_decide_eq_true he.2)]
    exact hs.held e' he.1

theorem Members.free (hs : Members hand s) (he : s.has e = false) : Members hand (freeEnd s e) := by
  obtain ⟨-, hserver, hclient, hends, hconnection, hopen, hreads, hlistens, hparked, -⟩ := freeEnd_frame s e
  refine ⟨by rw [hopen]; exact hs.nodup.erase _, fun n hn => ?_, ?_, fun e' he' => ?_⟩
  · rw [hopen] at hn
    rw [hconnection]
    exact hs.known n (mem_of_mem_erase hn)
  · rw [outstanding, hreads, hlistens, hparked, hconnection]
    exact hs.files
  · have hhas : s.has e' = true := by
      rw [← he']
      cases e' with
      | server => exact hserver.symm
      | client n => rw [Instance.has, Instance.has, hclient]
    obtain ⟨hmem, hhandle⟩ := hs.held e' hhas
    rw [hopen, hends]
    refine ⟨(mem_erase_of_ne ?_).mpr hmem, hhandle⟩
    rintro rfl
    rw [hhas] at he
    cases he

theorem Members.effect (h : Effect allows hand s hand' s') (hs : Members hand s) : Members hand' s' := by
  have hkept : Kept s s := .refl s
  cases h with
  | issue _ _ _ _ he => exact hs.issue he
  | resume hp =>
    refine hs.shrink { hkept with } fun r hr => ?_
    simp only [outstanding, mem_append, mem_singleton, not_mem_nil, false_or] at hr ⊢
    rcases hr with rfl | hr | hr
    · exact .inr (List.mem_map_of_mem hp)
    · exact .inl hr
    · obtain ⟨q, hq, rfl⟩ := List.mem_map.mp hr
      exact .inr (List.mem_map_of_mem (mem_of_mem_erase hq))
  | wake event => exact hs.of_frame (.keSetEvent event)
  | park =>
    refine hs.shrink { hkept with } fun r hr => ?_
    simp only [outstanding, Instance.park, map_append, map_cons, map_nil, mem_append,
      mem_singleton, not_mem_nil, false_or] at hr ⊢
    tauto
  | pend | pendListen =>
    refine hs.shrink { hkept with } fun r hr => ?_
    simp only [outstanding, mem_append, mem_singleton, not_mem_nil, false_or] at hr ⊢
    tauto
  | append | relisten => exact hs.shrink { hkept with } (Subset.refl _)
  | setModes e readMode completionMode =>
    refine hs.shrink { hkept with ends := fun e' => ?_ } (Subset.refl _)
    by_cases he : e' = e
    · subst he
      simp [Instance.setEnd]
    · simp [Instance.setEnd, he]
  | drain _ _ hdrain =>
    obtain ⟨hframe, -⟩ := npfsReadDrain_frame hdrain
    exact hs.shrink { Kept.of_frame hframe with } fun _ hr =>
      mem_append_right _ (outstanding_frame hframe hr)
  | serve _ _ hdrain => exact hs.of_frame (npfsReadDrain_frame hdrain).1.answer
  | fail => exact hs.of_frame (Frame.refl s).answer
  | finish => exact hs.shrink { hkept with } (subset_append_right _ _)
  | cancelReads drop =>
    rw [Npfs.cancelReads, completeAll_eq]
    refine hs.shrink { hkept with } fun r hr => ?_
    simp only [outstanding, mem_append, mem_filter, not_mem_nil, false_or] at hr ⊢
    tauto
  | answerListens status drop =>
    rw [Npfs.answerListens, completeAll_eq]
    refine hs.shrink { hkept with } fun r hr => ?_
    simp only [outstanding, mem_append, mem_filter, not_mem_nil, false_or] at hr ⊢
    tauto
  | connect => exact hs.connect
  | throwOut => exact hs.throwOut
  | leave e => exact hs.leave e
  | free he => exact hs.free he

/-! ## Threads and handles -/

/-- A thread waits on a live end, and once the handle is closed its wait is over. -/
structure Waiting (hand : List Request) (s : Instance) : Prop where
  parked : ∀ p ∈ s.parked, p.request.file ∈ s.openEnds ∧
    ((s.ends p.request.file).handle = true ∨ p.woken = true)
  inHand : ∀ r ∈ hand, r.file ∈ s.openEnds ∧ (s.ends r.file).handle = true

theorem Initial.waits (h : Initial s) : Waiting [] s where
  parked p hp := by
    rw [h.parked] at hp
    cases hp
  inHand _ hr := absurd hr not_mem_nil

theorem Waiting.mono (h : Waiting hand s) (hparked : s'.parked = s.parked)
    (hends : ∀ e ∈ s.openEnds, e ∈ s'.openEnds ∧
      ((s.ends e).handle = true → (s'.ends e).handle = true))
    (hhand : hand' ⊆ hand) : Waiting hand' s' where
  parked p hp := by
    rw [hparked] at hp
    obtain ⟨hopen, hwait⟩ := h.parked p hp
    obtain ⟨hopen', hhandle⟩ := hends _ hopen
    exact ⟨hopen', hwait.imp_left hhandle⟩
  inHand r hr := by
    obtain ⟨hopen, hhandle⟩ := h.inHand r (hhand hr)
    obtain ⟨hopen', hkeeps⟩ := hends _ hopen
    exact ⟨hopen', hkeeps hhandle⟩

theorem Waiting.wake (h : Waiting hand s) (event : KEvent) : Waiting hand (s.keSetEvent event) where
  parked p hp := by
    obtain ⟨q, hq, rfl⟩ := List.mem_map.mp hp
    split
    · exact ⟨(h.parked q hq).1, .inr rfl⟩
    · exact h.parked q hq
  inHand := h.inHand

theorem Waiting.drain {n : Nat} (h : Waiting hand s) (hdrain : npfsReadDrain s e n = .ok (s', result)) :
    Waiting hand s' := by
  simp only [npfsReadDrain] at hdrain
  split at hdrain
  · cases hdrain
  · cases hdrain
    exact Waiting.wake (s := s.setQueue e.incoming _) { h with } _

theorem Waiting.unpark (h : Waiting hand s) (p : Park) :
    Waiting hand { s with parked := s.parked.erase p } where
  parked q hq := h.parked q (mem_of_mem_erase hq)
  inHand := h.inHand

theorem Waiting.free (h : Waiting [] s) (he : ∀ p ∈ s.parked, p.request.file ≠ e) :
    Waiting [] (freeEnd s e) := by
  obtain ⟨-, -, -, hends, -, hopen, -, -, hparked, -⟩ := freeEnd_frame s e
  refine ⟨fun p hp => ?_, fun _ hr => absurd hr not_mem_nil⟩
  rw [hparked] at hp
  obtain ⟨hmem, hwait⟩ := h.parked p hp
  rw [hopen, hends]
  exact ⟨(mem_erase_of_ne (he p hp)).mpr hmem, hwait⟩

theorem throwOut_handle : ((throwOut s).ends e).handle = (s.ends e).handle := by
  rw [throwOut, orphanClient]
  split
  · rename_i n _
    show (Function.update s.ends (.client n) _ e).handle = _
    rw [Function.update_apply]
    split
    · rename_i he
      rw [he]
      rfl
    · rfl
  · rfl

/-- No parked thread goes on, and no end loses its handle. -/
def allowsStay : Allows where
  attach _ := True
  resume _ := False
  leave _ := False

theorem Waiting.effect (h : Effect allowsStay hand s hand' s') (hs : Waiting hand s) : Waiting hand' s' := by
  have hsame (e : EndId) (he : e ∈ s.openEnds) :
      e ∈ s.openEnds ∧ ((s.ends e).handle = true → (s.ends e).handle = true) := ⟨he, id⟩
  cases h with
  | issue e verb length data he hhandle =>
    refine ⟨hs.parked, fun r hr => ?_⟩
    obtain rfl := mem_singleton.mp hr
    exact ⟨he, hhandle⟩
  | resume _ hallowed | leave _ hallowed => exact hallowed.elim
  | wake event => exact hs.wake event
  | park =>
    refine ⟨fun p hp => ?_, fun _ hr => absurd hr not_mem_nil⟩
    rcases mem_append.mp hp with hp | hp
    · exact hs.parked p hp
    · obtain rfl := mem_singleton.mp hp
      exact (hs.inHand _ (mem_singleton_self _)).imp_right .inl
  | pend | pendListen | finish => exact hs.mono rfl hsame (nil_subset _)
  | append | relisten | fail => exact hs.mono rfl hsame (Subset.refl _)
  | drain _ _ hdrain => exact (hs.drain hdrain).mono rfl (fun _ he => ⟨he, id⟩) (nil_subset _)
  | serve _ _ hdrain => exact (hs.drain hdrain).mono rfl (fun _ he => ⟨he, id⟩) (Subset.refl _)
  | cancelReads drop =>
    rw [Npfs.cancelReads, completeAll_eq]
    exact hs.mono rfl hsame (Subset.refl _)
  | answerListens status drop =>
    rw [Npfs.answerListens, completeAll_eq]
    exact hs.mono rfl hsame (Subset.refl _)
  | connect synchronousIo =>
    refine hs.mono rfl (fun e he => ⟨mem_cons_of_mem _ he, fun hhandle => ?_⟩) (Subset.refl _)
    show (Function.update s.ends _ _ e).handle = true
    rw [Function.update_apply]
    split
    · rfl
    · exact hhandle
  | throwOut =>
    obtain ⟨-, -, hopen, -⟩ := throwOut_frame s
    obtain ⟨hparked, -⟩ := throwOut_parked (s := s)
    refine hs.mono hparked (fun e he => ?_) (Subset.refl _)
    rw [hopen, throwOut_handle]
    exact ⟨he, id⟩
  | setModes e readMode completionMode =>
    refine hs.mono rfl (fun e' he => ⟨he, fun hhandle => ?_⟩) (Subset.refl _)
    show (Function.update s.ends _ _ e').handle = true
    rw [Function.update_apply]
    split
    · rename_i heq
      rw [← heq]
      exact hhandle
    · exact hhandle
  | free _ he => exact hs.free he

theorem Waiting.effects (hs : Waiting hand s) (h : Effects allowsStay (hand, s) (hand', s')) : Waiting hand' s' :=
  h.preserves Waiting.effect hs

def Woken (events : List KEvent) (s : Instance) : Prop :=
  ∀ p ∈ s.parked, p.event ∈ events → p.woken = true

theorem Woken.keSetEvent {events : List KEvent} (h : Woken events s) (event : KEvent) :
    Woken (event :: events) (s.keSetEvent event) := by
  intro p hp hevent
  obtain ⟨q, hq, rfl⟩ := List.mem_map.mp hp
  split at hevent
  · rename_i hq
    rw [if_pos hq]
  · rename_i hne
    rw [if_neg hne]
    exact h q hq ((mem_cons.mp hevent).resolve_left hne)

/-- `NpfsWakeAll` ends every wait. -/
theorem npfsWakeAll_waits (hs : ∀ p ∈ s.parked, p.request.file ∈ s.openEnds)
    (h : npfsWakeAll s = .ok s') : Waiting [] s' := by
  obtain ⟨heffects, -⟩ := npfsServiceInstance_spec allowsStay [] h
  have hnone : Woken [] s := fun _ _ hevent => absurd hevent not_mem_nil
  have hwoken := ((((hnone.keSetEvent (.data .inbound)).keSetEvent (.space .inbound)).keSetEvent
    (.data .outbound)).keSetEvent (.space .outbound)).keSetEvent .connect
  refine Waiting.effects ⟨fun p hp => ⟨?_, .inr (hwoken p hp ?_)⟩, fun _ hr => absurd hr not_mem_nil⟩ heffects
  · have hrequest := List.mem_map_of_mem (f := Park.request) hp
    simp only [map_request_keSetEvent] at hrequest
    obtain ⟨q, hq, heq⟩ := List.mem_map.mp hrequest
    rw [← heq]
    exact hs q hq
  · rcases hevent : p.event with (_ | _) | (_ | _) | _ <;> simp

/-- A thread is answered, and the others wait on. -/
def Answered (s s' : Instance) (r : Request) : Prop :=
  ∃ t result, s' = t.complete r result ∧ Frame s t ∧ (Waiting [] s → Waiting [] t)

theorem Answered.now (s : Instance) (r : Request) (result : Result) :
    Answered s (s.complete r result) r := ⟨s, result, rfl, .refl s, id⟩

theorem Answered.appended {data : List Octet} (h : npfsAppendBuffer s r data = .ok s') (result : Result) :
    Answered s (s'.complete r result) r := by
  obtain ⟨heffects, hframe, -⟩ := npfsServiceInstance_spec allowsStay [] h
  have haccept : Frame s (accept s r data) := { Frame.refl s with }
  refine ⟨s', result, rfl, (haccept.trans (.keSetEvent _)).trans hframe, fun hs => ?_⟩
  have hs1 : Waiting [] (accept s r data) := { hs with }
  exact (hs1.wake _).effects heffects

theorem npfsAwaitRead_answered {honourCompletionMode : Bool} {prepare : Prepare}
    (hnone : s.pendingOn r.file = [])
    (hover : npfsReadReady s r.file false ≠ statusPending ∨
      honourCompletionMode = true ∧ (s.ends r.file).completionMode = .complete)
    (h : npfsAwaitRead s r honourCompletionMode prepare = .ok s') : Answered s s' r := by
  have hahead : decide (s.pendingOn r.file ≠ []) = false := by simp [hnone]
  simp only [npfsAwaitRead, hahead] at h
  split at h
  · obtain ⟨⟨t, result⟩, hdrain, h⟩ := bind_eq_ok h
    cases h
    exact ⟨t, result, rfl, (npfsReadDrain_frame hdrain).1, fun hs => hs.drain hdrain⟩
  split at h
  · cases h
    exact .now ..
  · rename_i hpending
    rw [if_pos (hover.resolve_left fun hne => hne (not_not.mp hpending))] at h
    cases h
    exact .now ..

theorem writeMessage_answered {pool : Nat}
    (hover : npfsCheckWritableState s r.file ≠ statusSuccess ∨
      (s.queue r.file.outgoing).bytesAvailable = 0 ∨
      ((s.queue r.file.outgoing).bytesAvailable + r.data.length) % ulong ≤
        (s.queue r.file.outgoing).quota)
    (h : writeMessage s r pool = .ok s') : Answered s s' r := by
  simp only [writeMessage] at h
  split at h
  · cases h
    exact .now ..
  · rename_i hstatus
    rw [if_pos (hover.resolve_left hstatus)] at h
    split at h
    · cases h
      exact .now ..
    · obtain ⟨t, happend, h⟩ := bind_eq_ok h
      cases h
      exact .appended happend _

theorem writeBytes_nil (pool : Nat) (s : Instance) :
    writeBytes r pool [] s = .ok (s.complete r ⟨statusSuccess, r.data.length, []⟩) := by
  rw [writeBytes.eq_def]
  exact if_pos rfl

theorem writeBytes_answered {pool : Nat} {rest : List Octet} (hrest : rest ≠ [])
    (hover : npfsCheckWritableState s r.file ≠ statusSuccess ∨
      rest.length ≤ (s.queue r.file.outgoing).quota - (s.queue r.file.outgoing).bytesAvailable)
    (h : writeBytes r pool rest s = .ok s') : Answered s s' r := by
  rw [writeBytes.eq_def] at h
  simp only [if_neg hrest] at h
  split at h
  · cases h
    exact .now ..
  · rename_i hstatus
    have hfits := hover.resolve_left hstatus
    have hpos := length_pos_of_ne_nil hrest
    rw [if_neg (by omega)] at h
    split at h
    · cases h
      exact .now ..
    · obtain ⟨t, happend, h⟩ := bind_eq_ok h
      rw [drop_eq_nil_of_le hfits, writeBytes_nil] at h
      cases h
      exact .appended happend _

theorem npfsFlush_answered {drainSeq : Nat}
    (hover : (s.queue r.file.outgoing).drainSeq ≠ drainSeq ∨ (s.ends r.file).pipe = false ∨
      s.state ≠ .connected ∨ (s.queue r.file.outgoing).bufferList = []) :
    Answered s (npfsFlush s r drainSeq true) r := by
  simp only [npfsFlush]
  repeat' split
  all_goals first | exact .now .. | skip
  simp_all

theorem listenLoop_answered {prepare : Prepare}
    (hover : s.state ≠ .listening ∨ (s.ends r.file).completionMode = .complete)
    (h : listenLoop s r prepare = .ok s') : Answered s s' r := by
  rw [listenLoop] at h
  split at h
  · cases h
    exact .now ..
  · cases h
    exact .now ..
  · rename_i hstate
    rw [if_pos (hover.resolve_left fun hne => hne hstate)] at h
    cases h
    exact .now ..
  · cases h
    exact .now ..

/-- A thread whose wait is over is answered when it runs. -/
theorem resume_answered {p : Park} {pool : Nat} {prepare : Prepare} (hfit : Fitting s)
    (hp : p ∈ s.parked) (hnone : s.pendingOn p.request.file = []) (hover : p.Over s)
    (h : resume s p pool prepare = .ok s') :
    Answered { s with parked := s.parked.erase p } s' p.request := by
  have hfits := hfit p hp
  rw [Park.Fits] at hfits
  rw [Park.Over] at hover
  simp only [resume] at h
  split at h
  · rename_i hwait
    rw [hwait] at hover
    exact npfsAwaitRead_answered hnone hover h
  · rename_i hwait
    rw [hwait] at hover
    exact writeMessage_answered hover h
  · rename_i hwait
    rw [hwait] at hfits hover
    exact writeBytes_answered hfits.2.2.2 hover h
  · rename_i hwait
    rw [hwait] at hover
    cases h
    exact npfsFlush_answered hover
  · rename_i hwait
    rw [hwait] at hover
    split at h
    · cases h
      exact .now ..
    · exact listenLoop_answered hover h

section
variable {orderly : Prop}

/-- `orderly` is whether every step was. -/
structure Intact (orderly : Prop) (s : Instance) : Prop where
  settled : Settled s
  sound : Sound [] s
  listens : Listens s
  members : Members [] s
  waits : orderly → Waiting [] s

theorem Initial.intact (h : Initial s) : Intact orderly s :=
  ⟨.of_nil h.pendingReads, h.sound, h.listens, h.members, fun _ => h.waits⟩

theorem Intact.effects (hs : Intact orderly s) (h : Effects allowsAll ([], s) ([], s') ∧ Settled s')
    (hlistens : Listens s') (hwaits : orderly → Waiting [] s') : Intact orderly s' :=
  ⟨h.2, h.1.preserves Sound.effect hs.sound, hlistens, h.1.preserves Members.effect hs.members, hwaits⟩

theorem Intact.handle_of_pending (hs : Intact orderly s) (hr : r ∈ s.pendingReads ++ s.pendingListens) :
    r.file ∈ s.openEnds ∧ (s.ends r.file).handle = true := by
  apply hs.members.held
  rcases mem_append.mp hr with hr | hr
  · exact (hs.settled r hr).1
  · rw [hs.listens.file r hr]
    exact (hs.listens.waiting (ne_nil_of_mem hr)).2

theorem Intact.pendingOn_closed (hs : Intact orderly s) (hclosed : (s.ends e).handle = false) :
    s.pendingOn e = [] := by
  refine eq_nil_iff_forall_not_mem.mpr fun r hr => ?_
  obtain ⟨hmem, hfile⟩ := mem_pendingOn.mp hr
  obtain ⟨-, hhandle⟩ := hs.handle_of_pending (mem_append_left _ hmem)
  rw [hfile, hclosed] at hhandle
  cases hhandle

theorem step_waits {op : Op} (hs : Intact orderly s) (hop : op.Enabled s) (hmoves : ¬ op.Moves)
    (horderly : op.Orderly s) (hwaits : Waiting [] s) (h : step op s = .ok s') : Waiting [] s' := by
  have ha : Attached s := hs.sound.linked.toAttached
  have hfit := hs.sound.fitting
  cases op with
  | attach | disconnect | cleanup | close => exact absurd trivial hmoves
  | resume p pool prepare =>
    by_cases hhandle : (s.ends p.request.file).handle = true
    · obtain ⟨heffects, -⟩ := resume_carriesOn allowsStay hs.settled hfit hop.1 h
      refine Waiting.effects ⟨(hwaits.unpark p).parked, fun r hr => ?_⟩ heffects
      obtain rfl := mem_singleton.mp hr
      exact ⟨(hwaits.parked p hop.1).1, hhandle⟩
    · obtain ⟨t, result, rfl, -, ht⟩ := resume_answered hfit hop.1
        (hs.pendingOn_closed (Bool.eq_false_iff.mpr hhandle)) (horderly.resolve_left hhandle) h
      exact { ht (hwaits.unpark p) with }
  | interrupt p why =>
    cases h
    exact { hwaits.unpark p with }
  | read | write | transceive | flush | listen | peek | setPipeInfo | cancel =>
    exact hwaits.effects (step_effects hs.settled ha hfit hop trivial h).1

theorem step_intact {op : Op} (hs : Intact orderly s) (hop : op.Enabled s)
    (horderly : orderly → op.Orderly s) (hmoves : ¬ op.Moves) :
    Ends AboutBytes (step op s) fun s' => Intact orderly s' ∧ Kept s s' := by
  have hsteady := step_steady hs.sound.linked.toAttached hs.sound.fitting hs.listens hop hmoves
  cases h : step op s with
  | error halt => exact hsteady.of_error h
  | ok s' =>
    have hs' := hsteady.of_ok h
    have hallowed : op.Allowed allowsAll s := by cases op <;> trivial
    refine ⟨hs.effects (step_effects hs.settled hs.sound.linked.toAttached hs.sound.fitting hop hallowed h)
      (hs'.listens hs.listens) fun h' => ?_, hs'.toKept⟩
    exact step_waits hs hop hmoves (horderly h') (hs.waits h') h

theorem npfsWakeAll_framed (s : Instance) : Ends AboutBytes (npfsWakeAll s) (Frame s) := by
  cases h : npfsWakeAll s with
  | error halt => exact (npfsWakeAll_steady s).of_error h
  | ok s' => exact (npfsWakeAll_spec allowsAll [] h).2.1

theorem Listens.of_nil (hs : Listens s) (hnil : s'.pendingListens = [])
    (hparked : s'.parked.map Park.request = s.parked.map Park.request) : Listens s' where
  file r hr := by
    rw [hnil] at hr
    cases hr
  waiting hne := absurd hnil hne
  parked r hr := hs.parked r (by rwa [hparked] at hr)

theorem npfsAttachClient_intact (wantsRead wantsWrite synchronousIo : Bool) (pool : Nat)
    (hs : Intact orderly s) :
    Ends AboutBytes (npfsAttachClient s wantsRead wantsWrite synchronousIo pool) fun x =>
      Intact orderly x.1 ∧
      ((x.2 ≠ statusSuccess ∧ x.1 = s) ∨ (x.2 = statusSuccess ∧ Kept (connect s synchronousIo) x.1 ∧
        outstanding x.1 ⊆ outstanding s)) := by
  have hkept : Ends AboutBytes (npfsAttachClient s wantsRead wantsWrite synchronousIo pool) fun x =>
      Listens x.1 ∧
        ((x.2 ≠ statusSuccess ∧ x.1 = s) ∨ (x.2 = statusSuccess ∧ Kept (connect s synchronousIo) x.1 ∧
          outstanding x.1 ⊆ outstanding s)) := by
    simp only [npfsAttachClient]
    have hrefused (status : NtStatus) (h : status ≠ statusSuccess) : Listens s ∧
        ((status ≠ statusSuccess ∧ s = s) ∨ (status = statusSuccess ∧ Kept (connect s synchronousIo) s ∧
          outstanding s ⊆ outstanding s)) :=
      ⟨hs.listens, .inl ⟨h, rfl⟩⟩
    refine Ends.ite (fun _ => Ends.ok (hrefused statusPipeNotAvailable (by decide))) fun _ =>
      Ends.ite (fun _ => Ends.ok (hrefused statusAccessDenied (by decide))) fun _ =>
      Ends.ite (fun _ => Ends.ok (hrefused statusInsufficientResources (by decide))) fun _ => ?_
    refine (npfsWakeAll_framed (connect s synchronousIo)).bind fun t ht => Ends.ok ?_
    rw [completeAll_eq]
    refine ⟨hs.listens.of_nil rfl ht.parked, .inr ⟨rfl, { Kept.of_frame ht with }, fun r hr => ?_⟩⟩
    have hsub : outstanding t ⊆ outstanding (connect s synchronousIo) := outstanding_frame ht
    apply hsub
    simp only [outstanding, mem_append, not_mem_nil, or_false] at hr ⊢
    exact hr.imp_left .inl
  cases h : npfsAttachClient s wantsRead wantsWrite synchronousIo pool with
  | error halt => exact hkept.of_error h
  | ok x =>
    obtain ⟨hlistens, hcases⟩ := hkept.of_ok h
    have hattach : npfsAttachClient s wantsRead wantsWrite synchronousIo pool = .ok (x.1, x.2) := h
    refine ⟨hs.effects (npfsAttachClient_spec hs.settled trivial hattach) hlistens fun h' => ?_, hcases⟩
    exact (hs.waits h').effects (npfsAttachClient_spec hs.settled trivial hattach).1

theorem npfsDisconnect_intact (hs : Intact orderly s) :
    Ends AboutBytes (npfsDisconnect s e) fun x => Intact orderly x.1 ∧
      ((x.2 ≠ statusSuccess ∧ x.1 = s) ∨ (x.2 = statusSuccess ∧ Kept (throwOut s) x.1)) := by
  have hkept : Ends AboutBytes (npfsDisconnect s e) fun x => Listens x.1 ∧
      ((x.2 ≠ statusSuccess ∧ x.1 = s) ∨ (x.2 = statusSuccess ∧ Kept (throwOut s) x.1)) := by
    simp only [npfsDisconnect]
    have hrefused (status : NtStatus) (h : status ≠ statusSuccess) : Listens s ∧
        ((status ≠ statusSuccess ∧ s = s) ∨ (status = statusSuccess ∧ Kept (throwOut s) s)) :=
      ⟨hs.listens, .inl ⟨h, rfl⟩⟩
    refine Ends.ite (fun _ => Ends.ok (hrefused statusInvalidParameter (by decide))) fun _ =>
      Ends.ite (fun _ => Ends.ok (hrefused statusPipeDisconnected (by decide))) fun hstate =>
      Ends.ite (fun hne => ?_) fun hnil => ?_
    · obtain ⟨hlistening, -⟩ := hs.listens.waiting hne
      exact absurd ⟨by rw [hlistening]; simp, by rw [hlistening]; simp⟩ hstate
    obtain ⟨hparked, -, hlistens, -⟩ := throwOut_parked (s := s)
    have hthrown : Listens (throwOut s) :=
      hs.listens.of_nil (hlistens.trans (not_not.mp hnil)) (by rw [hparked])
    refine (npfsWakeAll_framed (throwOut s)).bind fun t ht => ?_
    split
    · refine (servicePendingReads_steady _ t).bind fun t' ht' => Ends.ok ?_
      exact ⟨ht'.listens (hthrown.of_frame ht), .inr ⟨rfl, (Kept.of_frame ht).trans ht'.toKept⟩⟩
    · exact Ends.ok ⟨hthrown.of_frame ht, .inr ⟨rfl, .of_frame ht⟩⟩
  cases h : npfsDisconnect s e with
  | error halt => exact hkept.of_error h
  | ok x =>
    obtain ⟨hlistens, hcases⟩ := hkept.of_ok h
    have hdisconnect : npfsDisconnect s e = .ok (x.1, x.2) := h
    refine ⟨hs.effects (npfsDisconnect_spec hs.settled hdisconnect) hlistens fun h' => ?_, hcases⟩
    exact (hs.waits h').effects (npfsDisconnect_spec hs.settled hdisconnect).1

theorem cancelReads_kept (drop : Request → Bool) : Kept s (cancelReads s drop) := by
  rw [cancelReads, completeAll_eq]
  exact { Kept.refl s with }

theorem answerListens_kept (status : NtStatus) (drop : Request → Bool) :
    Kept s (answerListens s status drop) := by
  rw [answerListens, completeAll_eq]
  exact { Kept.refl s with }

theorem leave_kept (h : Kept s s') (e : EndId) : Kept (leave s e) (leave s' e) := by
  obtain ⟨hconnection, hopen, -⟩ := leave_frame s e
  obtain ⟨hconnection', hopen', -⟩ := leave_frame s' e
  have hhas (e' : EndId) : (leave s' e).has e' = (leave s e).has e' := by
    rw [has_leave, has_leave, h.has]
  refine ⟨hhas .server, Option.ext fun n => ?_, ?_, ?_, fun e' => ⟨?_, ?_⟩⟩
  · have := hhas (.client n)
    simp only [Instance.has] at this
    rw [← beq_iff_eq, this, beq_iff_eq]
  · rw [hopen, hopen', h.openEnds]
  · rw [hconnection, hconnection', h.connection]
  · rw [leave_ends.1, leave_ends.1, (h.ends e').1]
  · by_cases he : e' = e
    · subst he
      have hfalse (t : Instance) : ((leave t e').ends e').handle = false :=
        Bool.eq_false_iff.mpr fun h => (leave_ends.2 h).2 rfl
      rw [hfalse, hfalse]
    · rw [leave_handle he, leave_handle he, (h.ends e').2]

theorem detach_listens (hs : Listens s) : Kept (leave s e) (detach s e) ∧ Listens (detach s e) ∧
    outstanding (detach s e) ⊆ outstanding s := by
  have hcancel : Kept s (cancelReads s (·.file = e)) := cancelReads_kept _
  have hleave := leave_kept hcancel e
  obtain ⟨-, -, -, -, -, hlistens, -⟩ := leave_frame (cancelReads s (·.file = e)) e
  have hreads : (detach s e).pendingReads = s.pendingReads.filter (·.file ≠ e) :=
    (@detach_spec allowsAll s e trivial).2.2.1
  have hparked : (detach s e).parked = s.parked := (@detach_spec allowsAll s e trivial).2.1
  have hsub (h : (detach s e).pendingListens ⊆ s.pendingListens) :
      outstanding (detach s e) ⊆ outstanding s := by
    intro r hr
    simp only [outstanding, mem_append, hreads, hparked] at hr ⊢
    exact hr.imp_left (.imp mem_of_mem_filter fun hr => h hr)
  have hcancelled : (cancelReads s (·.file = e)).pendingListens = s.pendingListens := by
    rw [cancelReads, completeAll_eq]
  rw [hcancelled] at hlistens
  by_cases hserver : e = .server ∧ s.serverEnd = true
  · have heq : detach s e = answerListens (leave (cancelReads s (·.file = e)) e) statusCancelled
        fun _ => true := by rw [detach_eq, if_pos hserver]
    have hnil : (detach s e).pendingListens = [] := by
      rw [heq, answerListens, completeAll_eq]
      simp
    refine ⟨?_, hs.of_nil hnil (by rw [hparked]), hsub (by rw [hnil]; exact nil_subset _)⟩
    rw [heq]
    exact hleave.trans (answerListens_kept _ _)
  · have heq : detach s e = leave (cancelReads s (·.file = e)) e := by rw [detach_eq, if_neg hserver]
    have hsame : (detach s e).pendingListens = s.pendingListens := by rw [heq, hlistens]
    refine ⟨heq ▸ hleave, ⟨?_, fun hne => ?_, ?_⟩, hsub (by rw [hsame]; exact Subset.refl _)⟩
    · rw [hsame]
      exact hs.file
    · rw [hsame] at hne
      obtain ⟨hstate, hend⟩ := hs.waiting hne
      have hne' : e ≠ .server := fun he => hserver ⟨he, hend⟩
      have hhas : (detach s e).has .server = true := by
        rw [(@detach_spec allowsAll s e trivial).2.2.2, Instance.has, hend]
        simpa using hne'.symm
      refine ⟨?_, hhas⟩
      have hstate' : (cancelReads s (·.file = e)).state = s.state := by
        rw [cancelReads, completeAll_eq]
      rw [heq, leave_state, hstate', hstate, if_neg (by rintro ⟨-, h⟩; cases h)]
    · rw [hparked]
      exact hs.parked

theorem npfsVfsCleanup_intact (e : EndId) (hs : Intact orderly s) :
    Ends AboutBytes (npfsVfsCleanup s e) fun s' =>
      Intact orderly s' ∧ Kept (leave s e) s' ∧ outstanding s' ⊆ outstanding s := by
  obtain ⟨hkept, hlistens, hsub⟩ := detach_listens (e := e) hs.listens
  have hframed : Ends AboutBytes (npfsVfsCleanup s e) (Frame (detach s e)) := npfsWakeAll_framed _
  cases h : npfsVfsCleanup s e with
  | error halt => exact hframed.of_error h
  | ok s' =>
    have hframe := hframed.of_ok h
    obtain ⟨heffects, hsettled, -⟩ := npfsVfsCleanup_spec allowsAll trivial hs.settled h
    refine ⟨hs.effects ⟨heffects, hsettled⟩ (hlistens.of_frame hframe) fun h' => ?_,
      hkept.trans (.of_frame hframe), fun _ hr => hsub (outstanding_frame hframe hr)⟩
    obtain ⟨-, hopen, -⟩ := leave_frame s e
    refine npfsWakeAll_waits (s := detach s e) (fun p hp => ?_) h
    rw [(@detach_spec allowsAll s e trivial).2.1] at hp
    rw [hkept.openEnds, hopen]
    exact ((hs.waits h').parked p hp).1

theorem closable_iff : Closable s e ↔ e ∈ s.openEnds ∧ ∀ r ∈ outstanding s, r.file ≠ e := by
  simp only [Closable, outstanding, mem_append, List.mem_map]
  refine and_congr_right fun _ => ⟨?_, fun h => ?_⟩
  · rintro ⟨hreads, hlistens, hparked⟩ r ((hr | hr) | ⟨p, hp, rfl⟩)
    · exact hreads r hr
    · exact hlistens r hr
    · exact hparked p hp
  · exact ⟨fun r hr => h r (.inl (.inl hr)), fun r hr => h r (.inl (.inr hr)),
      fun p hp => h _ (.inr ⟨p, hp, rfl⟩)⟩

theorem Closable.pendingOn (h : Closable s e) : s.pendingOn e = [] :=
  filter_eq_nil_iff.mpr fun r hr => by simpa using h.2.1 r hr

theorem Intact.free (hs : Intact orderly s) (he : s.has e = false) (hclosable : Closable s e) :
    Intact orderly (freeEnd s e) := by
  have hfree : Effect allowsAll [] s [] (freeEnd s e) := .free he hclosable.2.2.2
  obtain ⟨hstate, hserver, -, -, -, -, -, hlistens, hparked, -⟩ := freeEnd_frame s e
  refine hs.effects ⟨hfree.effects, hs.settled.freeEnd⟩ ⟨?_, ?_, ?_⟩ fun h' =>
    (hs.waits h').free hclosable.2.2.2
  · rw [hlistens]
    exact hs.listens.file
  · rw [hlistens, hstate, hserver]
    exact hs.listens.waiting
  · rw [hparked]
    exact hs.listens.parked

end

end

end Proskrnl.Npfs
