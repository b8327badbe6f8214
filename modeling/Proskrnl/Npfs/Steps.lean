import Proskrnl.Library.Outcome
import Proskrnl.Npfs.Effects

/-!
# Every step is a sequence of effects

With it goes that no read stays parked that could be answered (`Settled`): a step that makes a read
ready answers it before it ends.
-/

namespace Proskrnl.Npfs
open MessageQueue Outcome List

section
variable {s s' : Instance} {e : EndId} {r : Request} {hand : List Request} {result : Result}
  {allows : Allows}

/-! ## Servicing -/

structure Frame (s s' : Instance) : Prop where
  state : s'.state = s.state
  serverEnd : s'.serverEnd = s.serverEnd
  clientEnd : s'.clientEnd = s.clientEnd
  ends : s'.ends = s.ends
  openEnds : s'.openEnds = s.openEnds
  pendingListens : s'.pendingListens = s.pendingListens
  pipeType : s'.pipeType = s.pipeType
  connection : s'.connection = s.connection
  requests : s'.requests = s.requests
  parked : s'.parked.map Park.request = s.parked.map Park.request
  pendingReads : s'.pendingReads ⊆ s.pendingReads

theorem Frame.refl (s : Instance) : Frame s s :=
  ⟨rfl, rfl, rfl, rfl, rfl, rfl, rfl, rfl, rfl, rfl, fun _ h => h⟩

theorem Frame.trans {s1 s2 s3 : Instance} (h : Frame s1 s2) (h' : Frame s2 s3) : Frame s1 s3 where
  state := h'.state.trans h.state
  serverEnd := h'.serverEnd.trans h.serverEnd
  clientEnd := h'.clientEnd.trans h.clientEnd
  ends := h'.ends.trans h.ends
  openEnds := h'.openEnds.trans h.openEnds
  pendingListens := h'.pendingListens.trans h.pendingListens
  pipeType := h'.pipeType.trans h.pipeType
  connection := h'.connection.trans h.connection
  requests := h'.requests.trans h.requests
  parked := h'.parked.trans h.parked
  pendingReads := fun _ hr => h.pendingReads (h'.pendingReads hr)

theorem Frame.has (h : Frame s s') : s'.has e = s.has e := by
  cases e with
  | server => exact h.serverEnd
  | client n => rw [Instance.has, h.clientEnd]; rfl

theorem map_request_keSetEvent (event : KEvent) :
    (s.keSetEvent event).parked.map Park.request = s.parked.map Park.request := by
  rw [Instance.keSetEvent, List.map_map]
  refine map_congr_left fun p _ => ?_
  rw [Function.comp_apply]
  split <;> rfl

theorem Frame.keSetEvent (event : KEvent) : Frame s (s.keSetEvent event) :=
  { Frame.refl s with parked := map_request_keSetEvent event }

theorem npfsReadDrain_frame {n : Nat} (h : npfsReadDrain s e n = .ok (s', result)) :
    Frame s s' ∧ s'.pendingReads = s.pendingReads ∧ s'.trace = s.trace ∧
      ∀ d, d ≠ e.incoming → s'.queue d = s.queue d := by
  simp only [npfsReadDrain] at h
  split at h
  · cases h
  · cases h
    exact ⟨{ Frame.refl s with parked := map_request_keSetEvent (.space e.incoming) }, rfl, rfl,
      fun d hd => Function.update_of_ne hd ..⟩

theorem Frame.answer (hr : Frame s s') :
    Frame s ({ s' with pendingReads := s'.pendingReads.erase r }.complete r result) :=
  { hr with pendingReads := fun _ h => hr.pendingReads (mem_of_mem_erase h) }

theorem pendingOn_erase (h : s.pendingOn e = r :: hand) :
    ({ s with pendingReads := s.pendingReads.erase r }.complete r result).pendingOn e = hand := by
  show (s.pendingReads.erase r).filter _ = hand
  rw [← erase_filter]
  show (s.pendingOn e).erase r = hand
  rw [h, erase_cons_head]

structure Serviced (allows : Allows) (hand : List Request) (e : EndId) (s s' : Instance) : Prop extends Frame s s' where
  effects : Effects allows (hand, s) (hand, s')
  queue : ∀ d, d ≠ e.incoming → s'.queue d = s.queue d
  settled : s'.pendingOn e ≠ [] → npfsReadReady s' e false = statusPending

theorem servicePendingReads_serviced {l : List Request} (hl : s.pendingOn e = l)
    (h : servicePendingReads e l s = .ok s') : Serviced allows hand e s s' := by
  induction l generalizing s with
  | nil =>
    cases h
    exact ⟨.refl _, .refl, fun _ _ => rfl, fun hne => absurd hl hne⟩
  | cons r rest ih =>
    have hfile : r.file = e := by
      have hr : r ∈ s.pendingOn e := by rw [hl]; exact mem_cons_self ..
      simpa using (mem_filter.mp hr).2
    subst hfile
    rw [servicePendingReads] at h
    split at h
    · rename_i hpending
      cases h
      exact ⟨.refl _, .refl, fun _ _ => rfl, fun _ => hpending⟩
    rename_i hpending
    split at h
    · rename_i hready
      obtain ⟨⟨s1, result⟩, hdrain, h⟩ := bind_eq_ok h
      obtain ⟨hframe, hreads, -, hqueue⟩ := npfsReadDrain_frame hdrain
      have hrest : s1.pendingOn r.file = r :: rest := by
        rw [Instance.pendingOn, hreads]; exact hl
      have hs := ih (pendingOn_erase hrest) h
      refine ⟨hframe.answer.trans hs.toFrame, ?_, fun d hd => (hs.queue d hd).trans (hqueue d hd),
        hs.settled⟩
      exact (Effect.serve hl hready hdrain).effects.trans hs.effects
    · rename_i hready
      have hs := ih (pendingOn_erase hl) h
      refine ⟨(Frame.refl s).answer.trans hs.toFrame, ?_, hs.queue, hs.settled⟩
      exact (Effect.fail hl rfl (npfsReadReady_not_transfers hready)).effects.trans hs.effects

theorem npfsServicePendingReads_serviced (h : npfsServicePendingReads s e = .ok s') :
    Serviced allows hand e s s' :=
  servicePendingReads_serviced rfl h

def Quiet (s : Instance) : Prop :=
  ∀ r ∈ s.pendingReads, s.has r.file = true → npfsReadReady s r.file false = statusPending

theorem mem_pendingOn : r ∈ s.pendingOn e ↔ r ∈ s.pendingReads ∧ r.file = e := by
  simp [Instance.pendingOn]

theorem serviceClient_spec (allows : Allows) (hand : List Request) (h : serviceClient s = .ok s') :
    Effects allows (hand, s) (hand, s') ∧ Frame s s' ∧ s'.queue .inbound = s.queue .inbound ∧
      ∀ r ∈ s'.pendingReads, s'.has r.file = true → r.file ≠ .server →
        npfsReadReady s' r.file false = statusPending := by
  rw [serviceClient] at h
  split at h
  · rename_i n hclient
    have hs : Serviced allows hand (.client n) s s' := npfsServicePendingReads_serviced h
    refine ⟨hs.effects, hs.toFrame, hs.queue _ nofun, fun r hr hhas hne => ?_⟩
    cases hfile : r.file with
    | server => exact absurd hfile hne
    | client m =>
      rw [hfile, Instance.has, hs.clientEnd, hclient] at hhas
      obtain rfl : n = m := by simpa using hhas
      exact hs.settled (ne_nil_of_mem (mem_pendingOn.mpr ⟨hr, hfile⟩))
  · rename_i hclient
    cases h
    refine ⟨.refl, .refl s, rfl, fun r hr hhas hne => ?_⟩
    cases hfile : r.file with
    | server => exact absurd hfile hne
    | client m =>
      rw [hfile, Instance.has, hclient] at hhas
      cases hhas

theorem npfsServiceInstance_spec (allows : Allows) (hand : List Request)
    (h : npfsServiceInstance s = .ok s') :
    Effects allows (hand, s) (hand, s') ∧ Frame s s' ∧ Quiet s' := by
  rw [npfsServiceInstance] at h
  split at h
  · obtain ⟨s1, h1, h⟩ := bind_eq_ok h
    have hs : Serviced allows hand .server s s1 := npfsServicePendingReads_serviced h1
    obtain ⟨heffects, hframe, hqueue, hclient⟩ := serviceClient_spec allows hand h
    refine ⟨hs.effects.trans heffects, hs.toFrame.trans hframe, fun r hr hhas => ?_⟩
    by_cases hfile : r.file = .server
    · rw [hfile]
      have hready := hs.settled
        (ne_nil_of_mem (mem_pendingOn.mpr ⟨hframe.pendingReads hr, hfile⟩))
      rw [← hready]
      exact npfsReadReady_congr hframe.state (by rw [hframe.ends]) (by rw [EndId.incoming, hqueue])
    · exact hclient r hr hhas hfile
  · rename_i hserver
    obtain ⟨heffects, hframe, -, hclient⟩ := serviceClient_spec allows hand h
    refine ⟨heffects, hframe, fun r hr hhas => ?_⟩
    by_cases hfile : r.file = .server
    · rw [hfile, Instance.has, hframe.serverEnd] at hhas
      exact absurd hhas hserver
    · exact hclient r hr hhas hfile

theorem npfsWakeAll_spec (allows : Allows) (hand : List Request) (h : npfsWakeAll s = .ok s') :
    Effects allows (hand, s) (hand, s') ∧ Frame s s' ∧ Quiet s' := by
  obtain ⟨heffects, hframe, hquiet⟩ := npfsServiceInstance_spec allows hand h
  refine ⟨?_, ?_, hquiet⟩
  · have hwake {s : Instance} (event : KEvent) : Effects allows (hand, s) (hand, s.keSetEvent event) :=
      (Effect.wake event).effects
    exact ((((hwake _).trans (hwake _)).trans (hwake _)).trans (hwake _)).trans
      ((hwake _).trans heffects)
  · exact ((((Frame.keSetEvent _).trans (.keSetEvent _)).trans (.keSetEvent _)).trans
      (.keSetEvent _)).trans ((Frame.keSetEvent _).trans hframe)

/-! ## Requests -/

def Settled (s : Instance) : Prop :=
  ∀ r ∈ s.pendingReads, s.has r.file = true ∧ npfsReadReady s r.file false = statusPending

section
variable (hs : Settled s)
include hs

theorem Settled.queue (hr : r ∈ s.pendingReads) :
    (s.queue r.file.incoming).bufferList = [] := (npfsReadReady_pending (hs r hr).2).1

theorem Settled.pendingReads_eq_nil (h : s.state ≠ .connected) :
    s.pendingReads = [] := by
  refine eq_nil_iff_forall_not_mem.mpr fun r hr => h ?_
  exact (npfsReadReady_pending (hs r hr).2).2.1

theorem Settled.congr (hreads : s'.pendingReads ⊆ s.pendingReads)
    (hhas : ∀ e, s.has e = true → s'.has e = true) (hstate : s'.state = s.state)
    (hpipe : ∀ e, (s'.ends e).pipe = (s.ends e).pipe)
    (hqueue : ∀ d, (s.queue d).bufferList = [] → (s'.queue d).bufferList = []) : Settled s' := by
  intro r hr
  have hr := hreads hr
  refine ⟨hhas _ (hs r hr).1, ?_⟩
  rw [← (hs r hr).2]
  refine npfsReadReady_congr hstate (hpipe _) ?_
  rw [hs.queue hr, hqueue _ (hs.queue hr)]

theorem Settled.complete : Settled (s.complete r result) :=
  hs.congr (fun _ h => h) (fun _ h => h) rfl (fun _ => rfl) fun _ h => h

theorem Settled.park {wait : Wait} : Settled (s.park r wait) :=
  hs.congr (fun _ h => h) (fun _ h => h) rfl (fun _ => rfl) fun _ h => h

theorem Settled.of_quiet (hframe : Frame s s') (hquiet : Quiet s') : Settled s' := by
  intro r hr
  have hhas : s'.has r.file = true := by
    rw [hframe.has]
    exact (hs r (hframe.pendingReads hr)).1
  exact ⟨hhas, hquiet r hr hhas⟩

theorem Settled.pending
    (h : npfsReadReady s e (s.pendingOn e ≠ []) = statusPending) :
    npfsReadReady s e false = statusPending := by
  by_cases hnil : s.pendingOn e = []
  · simpa [hnil] using h
  · obtain ⟨q, hq⟩ := exists_mem_of_ne_nil _ hnil
    obtain ⟨hmem, rfl⟩ := mem_pendingOn.mp hq
    exact (hs q hmem).2

theorem Settled.drain {n : Nat}
    (hne : (s.queue e.incoming).bufferList ≠ []) (h : npfsReadDrain s e n = .ok (s', result)) :
    Settled s' := by
  obtain ⟨hframe, hreads, -, hqueue⟩ := npfsReadDrain_frame h
  intro r hr
  rw [hreads] at hr
  refine ⟨by rw [hframe.has]; exact (hs r hr).1, ?_⟩
  have hd : r.file.incoming ≠ e.incoming := fun hd => hne (hd ▸ hs.queue hr)
  rw [← (hs r hr).2]
  exact npfsReadReady_congr hframe.state (by rw [hframe.ends]) (by rw [hqueue _ hd])

end

structure Reads (s : Instance) (r : Request) : Prop where
  verb : r.verb.reads = true
  newest : r.synchronous = false → r.id + 1 = s.requests
  has : r.synchronous = false → (s.ends r.file).pipe = true → s.has r.file = true

theorem park_spec {wait : Wait} (hs : Settled s)
    (hstate : s.state = .connected ∧ (s.ends r.file).pipe = true ∨ wait = .listen)
    (hfits : Park.Fits s.pipeType ⟨r, wait, false⟩) :
    Effects allows ([r], s) ([], s.park r wait) ∧ Settled (s.park r wait) :=
  ⟨(Effect.park hstate hfits).effects, hs.park⟩

variable {prepare : Prepare} {pool : Nat} {status : NtStatus}

theorem pendRead_spec (hs : Settled s) (hr : Reads s r)
    (hsync : r.synchronous = false) (hready : npfsReadReady s r.file false = statusPending) :
    Effects allows ([r], s) ([], pendRead s r prepare) ∧ Settled (pendRead s r prepare) := by
  rw [pendRead]
  split
  · refine ⟨(Effect.pend hready (hr.newest hsync) hr.verb hsync).effects, fun q hq => ?_⟩
    rcases mem_append.mp hq with hq | hq
    · exact hs q hq
    · obtain rfl := mem_singleton.mp hq
      exact ⟨hr.has hsync (npfsReadReady_pending hready).2.2, hready⟩
  · rename_i hprepare
    refine ⟨(Effect.finish rfl (fun _ => ?_) fun hmem => ?_).effects, hs.complete⟩
    · cases prepare with
      | prepared => exact absurd rfl hprepare
      | noPool | badHandle | badType | noAccess => decide
    · cases prepare with
      | prepared => exact absurd rfl hprepare
      | noPool | badHandle | badType | noAccess => exact absurd hmem (by decide)

theorem npfsAwaitRead_spec {honourCompletionMode : Bool} (hs : Settled s)
    (hr : Reads s r) (h : npfsAwaitRead s r honourCompletionMode prepare = .ok s') :
    Effects allows ([r], s) ([], s') ∧ Settled s' := by
  simp only [npfsAwaitRead] at h
  split at h
  · rename_i hready
    obtain ⟨⟨s1, result⟩, hdrain, h⟩ := bind_eq_ok h
    cases h
    obtain ⟨hne, -, hahead, -⟩ := npfsReadReady_success hready
    refine ⟨(Effect.drain hr.verb hready hdrain fun hsync _ => ⟨hr.newest hsync, ?_⟩).effects,
      (hs.drain hne hdrain).complete⟩
    simpa using hahead
  rename_i hready
  split at h
  · rename_i hpending
    cases h
    refine ⟨(Effect.finish rfl (fun _ => npfsReadReady_not_transfers hready)
      fun _ hsync _ => ⟨hr.newest hsync, ?_⟩).effects, hs.complete⟩
    -- a read that is ahead would wait for bytes, and so would this one
    refine eq_nil_iff_forall_not_mem.mpr fun q hq => hpending ?_
    obtain ⟨hq, hfile⟩ := mem_pendingOn.mp hq
    rw [← npfsReadReady_of_failed hpending hready, ← hfile]
    exact (hs q hq).2
  rename_i hpending
  have hready : npfsReadReady s r.file false = statusPending := hs.pending (not_not.mp hpending)
  split at h
  · cases h
    refine ⟨(Effect.finish rfl (fun _ => ?_) fun hmem => ?_).effects, hs.complete⟩
    · decide
    · exact absurd hmem (by decide)
  split at h
  · rename_i hsync
    cases h
    exact pendRead_spec hs hr (by simpa using hsync) hready
  · rename_i hsync
    cases h
    refine park_spec hs (.inl (npfsReadReady_pending hready).2) ⟨hr.verb, ?_⟩
    simpa using hsync

theorem npfsCheckWritableState_connected (h : npfsCheckWritableState s e = statusSuccess) :
    s.state = .connected ∧ (s.ends e).pipe = true := by
  unfold npfsCheckWritableState npfsEndDisconnected at h
  split at h
  · exact absurd h (by decide)
  rename_i hpipe
  cases hstate : s.state with
  | disconnected => simp [hstate] at hpipe
  | listening => rw [hstate] at h; exact absurd h (by decide)
  | connected => exact ⟨rfl, by simpa [hstate] using hpipe⟩
  | closing => rw [hstate] at h; exact absurd h (by decide)

theorem npfsAppendBuffer_spec {data : List Octet} (hs : Settled s) (hverb : r.verb ≠ .listen)
    (hwritable : npfsCheckWritableState s r.file = statusSuccess) (hdata : data ⊆ r.data)
    (hwhole : s.pipeType = .message → data = r.data) (h : npfsAppendBuffer s r data = .ok s') :
    Effects allows ([r], s) ([r], s') ∧ Frame s s' ∧ Settled s' := by
  obtain ⟨heffects, hframe, hquiet⟩ := npfsServiceInstance_spec allows [r] h
  have hframe : Frame s s' := by
    refine Frame.trans ?_ hframe
    exact { Frame.refl s with parked := map_request_keSetEvent (.data r.file.outgoing) }
  refine ⟨?_, hframe, hs.of_quiet hframe hquiet⟩
  exact (Effect.append hverb hwritable hdata hwhole).effects.trans ((Effect.wake _).effects.trans heffects)

theorem finish_spec (hs : Settled s) (hverb : r.verb.reads = false) (hdata : result.data = []) :
    Effects allows ([r], s) ([], s.complete r result) ∧ Settled (s.complete r result) := by
  refine ⟨(Effect.finish hdata (fun h => ?_) fun _ _ h => ?_).effects, hs.complete⟩
  · rw [hverb] at h; cases h
  · rw [hverb] at h; cases h

theorem writeMessage_spec (hs : Settled s) (hverb : r.verb = .write)
    (h : writeMessage s r pool = .ok s') : Effects allows ([r], s) ([], s') ∧ Settled s' := by
  have hreads : r.verb.reads = false := by rw [hverb]; rfl
  simp only [writeMessage] at h
  split at h
  · cases h
    exact finish_spec hs hreads rfl
  rename_i hwritable
  have hwritable := not_not.mp hwritable
  split at h
  · split at h
    · cases h
      exact finish_spec hs hreads rfl
    · obtain ⟨s1, happend, h⟩ := bind_eq_ok h
      cases h
      obtain ⟨heffects, -, hs1⟩ :=
        npfsAppendBuffer_spec hs (by rw [hverb]; nofun) hwritable (fun _ h => h) (fun _ => rfl) happend
      have hfinish : Effects allows ([r], s1) ([], s1.complete r ⟨statusSuccess, r.data.length, []⟩) ∧
          Settled (s1.complete r ⟨statusSuccess, r.data.length, []⟩) := finish_spec hs1 hreads rfl
      exact ⟨heffects.trans hfinish.1, hfinish.2⟩
  · cases h
    exact park_spec hs (.inl (npfsCheckWritableState_connected hwritable)) hverb

theorem writeBytes_spec {rest : List Octet} (hs : Settled s) (hverb : r.verb = .write)
    (htype : s.pipeType = .bytes) (hrest : rest ⊆ r.data) (h : writeBytes r pool rest s = .ok s') :
    Effects allows ([r], s) ([], s') ∧ Settled s' := by
  have hreads : r.verb.reads = false := by rw [hverb]; rfl
  fun_induction writeBytes r pool rest s with
  | case1 | case2 | case4 =>
    cases h
    exact finish_spec hs hreads rfl
  | case3 pool rest s queue status space hnil hwritable =>
    cases h
    have hwritable := not_not.mp hwritable
    exact park_spec hs (.inl (npfsCheckWritableState_connected hwritable))
      ⟨hverb, htype, hrest, hnil⟩
  | case5 rest s queue status space _ hwritable _ pool ih =>
    obtain ⟨s1, happend, h⟩ := bind_eq_ok h
    obtain ⟨heffects, hframe, hs1⟩ := npfsAppendBuffer_spec hs (by rw [hverb]; nofun)
      (not_not.mp hwritable) (fun o ho => hrest (mem_of_mem_take ho)) (by rw [htype]; nofun) happend
    obtain ⟨hmore, hs'⟩ := ih s1 hs1 (hframe.pipeType.trans htype)
      (fun o ho => hrest (mem_of_mem_drop ho)) h
    exact ⟨heffects.trans hmore, hs'⟩

theorem npfsWrite_spec (hs : Settled s) (hverb : r.verb = .write)
    (h : npfsWrite s r pool = .ok s') : Effects allows ([r], s) ([], s') ∧ Settled s' := by
  simp only [npfsWrite] at h
  split at h
  · cases h
    exact finish_spec hs (by rw [hverb]; rfl) rfl
  split at h
  · exact writeMessage_spec hs hverb h
  · rename_i htype
    exact writeBytes_spec hs hverb htype (fun _ h => h) h

theorem npfsFlush_spec (drainSeq : Nat) (parked : Bool) (hs : Settled s) (hverb : r.verb = .flush) :
    Effects allows ([r], s) ([], npfsFlush s r drainSeq parked) ∧
      Settled (npfsFlush s r drainSeq parked) := by
  have hfinish (status : NtStatus) : Effects allows ([r], s) ([], s.complete r ⟨status, 0, []⟩) ∧
      Settled (s.complete r ⟨status, 0, []⟩) := finish_spec hs (by rw [hverb]; rfl) rfl
  simp only [npfsFlush]
  split
  · exact hfinish _
  split
  · exact hfinish _
  rename_i hpipe
  split
  · split
    · exact hfinish _
    split
    · exact hfinish _
    · exact hfinish _
  rename_i hstate
  split
  · exact hfinish _
  · exact park_spec hs (.inl ⟨not_not.mp hstate, by simpa using hpipe⟩) hverb

theorem npfsTransceive_spec (hs : Settled s) (hr : Reads s r)
    (h : npfsTransceive s r pool prepare = .ok s') : Effects allows ([r], s) ([], s') ∧ Settled s' := by
  -- what is refused before the append is refused to a request that waits for nothing
  have hrefuse (status : NtStatus) (hnot : status ∉ servedStatuses) :
      Effects allows ([r], s) ([], s.complete r ⟨status, 0, []⟩) ∧
        Settled (s.complete r ⟨status, 0, []⟩) := by
    refine ⟨(Effect.finish rfl (fun _ htransfers => hnot ?_) fun hmem => absurd hmem hnot).effects,
      hs.complete⟩
    rcases htransfers with h | h
    · exact mem_cons.mpr (.inl h)
    · exact mem_cons.mpr (.inr (mem_cons.mpr (.inl h)))
  simp only [npfsTransceive] at h
  split at h
  · rename_i hpipe
    cases h
    refine ⟨(Effect.finish rfl (fun _ => by decide) fun _ hsync _ => ⟨hr.newest hsync, ?_⟩).effects,
      hs.complete⟩
    refine eq_nil_iff_forall_not_mem.mpr fun q hq => ?_
    obtain ⟨hq, hfile⟩ := mem_pendingOn.mp hq
    have := (npfsReadReady_pending (hs q hq).2).2.2
    rw [hfile] at this
    simp [this] at hpipe
  rename_i hpipe
  split at h
  · cases h
    exact hrefuse _ (by decide)
  rename_i hstate
  split at h
  · cases h
    exact hrefuse _ (by decide)
  split at h
  · cases h
    exact hrefuse _ (by decide)
  split at h
  · cases h
    exact hrefuse _ (by decide)
  obtain ⟨s1, happend, h⟩ := bind_eq_ok h
  have hwritable : npfsCheckWritableState s r.file = statusSuccess := by
    have hstate := not_not.mp hstate
    have hpipe : (s.ends r.file).pipe = true := by simpa using hpipe
    simp [npfsCheckWritableState, npfsEndDisconnected, hstate, hpipe]
  have hlisten : r.verb ≠ .listen := by
    intro hverb
    have := hr.verb
    rw [hverb] at this
    cases this
  obtain ⟨heffects, hframe, hs1⟩ :=
    npfsAppendBuffer_spec hs hlisten hwritable (fun _ h => h) (fun _ => rfl) happend
  have hr1 : Reads s1 r := by
    refine ⟨hr.verb, fun hsync => ?_, fun hsync hpipe => ?_⟩
    · rw [hframe.requests]
      exact hr.newest hsync
    · rw [hframe.has]
      rw [hframe.ends] at hpipe
      exact hr.has hsync hpipe
  obtain ⟨hread, hs'⟩ := npfsAwaitRead_spec hs1 hr1 h
  exact ⟨heffects.trans hread, hs'⟩

/-! ## Control -/

theorem listenLoop_spec (hs : Settled s) (hverb : r.verb = .listen)
    (h : listenLoop s r prepare = .ok s') : Effects allows ([r], s) ([], s') ∧ Settled s' := by
  have hreads : r.verb.reads = false := by rw [hverb]; rfl
  rw [listenLoop] at h
  split at h
  · cases h
    exact finish_spec hs hreads rfl
  · cases h
    exact finish_spec hs hreads rfl
  · split at h
    · cases h
      exact finish_spec hs hreads rfl
    split at h
    · split at h
      · cases h
      split at h
      · cases h
        exact ⟨(Effect.pendListen hverb).effects,
          hs.congr (fun _ h => h) (fun _ h => h) rfl (fun _ => rfl) fun _ h => h⟩
      · cases h
        exact finish_spec hs hreads rfl
    · cases h
      exact park_spec hs (.inr rfl) hverb
  · cases h
    exact finish_spec hs hreads rfl

theorem Settled.of_nil (h : s.pendingReads = []) : Settled s := by
  intro r hr
  rw [h] at hr
  cases hr

theorem Frame.pendingReads_eq_nil (h : Frame s s') (hnil : s.pendingReads = []) :
    s'.pendingReads = [] := by
  refine eq_nil_iff_forall_not_mem.mpr fun r hr => ?_
  have := h.pendingReads hr
  rw [hnil] at this
  cases this

theorem npfsListen_spec (hs : Settled s) (hverb : r.verb = .listen)
    (h : npfsListen s r prepare = .ok s') : Effects allows ([r], s) ([], s') ∧ Settled s' := by
  rw [npfsListen] at h
  split at h
  · cases h
    exact finish_spec hs (by rw [hverb]; rfl) rfl
  split at h
  · rename_i hstate
    obtain ⟨s1, hwake, h⟩ := bind_eq_ok h
    obtain ⟨heffects, hframe, -⟩ := npfsWakeAll_spec allows [r] hwake
    have hnil : s1.pendingReads = [] :=
      hframe.pendingReads_eq_nil (hs.pendingReads_eq_nil (by rw [hstate]; nofun))
    obtain ⟨hloop, hs'⟩ := listenLoop_spec (Settled.of_nil hnil) hverb h
    exact ⟨((Effect.relisten hstate).effects.trans heffects).trans hloop, hs'⟩
  · exact listenLoop_spec hs hverb h

theorem has_throwOut : (throwOut s).has e = (s.has e && decide (e = .server)) := by
  rw [throwOut, orphanClient]
  cases e with
  | server => cases hclient : (npfsFlushQueue (npfsFlushQueue s .inbound) .outbound).clientEnd <;> simp [Instance.has, npfsFlushQueue, Instance.setQueue, Instance.setEnd]
  | client n =>
    cases hclient : (npfsFlushQueue (npfsFlushQueue s .inbound) .outbound).clientEnd with
    | none => simp [Instance.has, hclient]
    | some m => simp [Instance.has]

theorem throwOut_pendingReads : (throwOut s).pendingReads = s.pendingReads := by
  rw [throwOut, orphanClient]
  split <;> rfl

theorem Quiet.server (hquiet : Quiet s) (hstate : s.state = .disconnected)
    (hr : r ∈ s.pendingReads) : s.has r.file = false := by
  refine Bool.eq_false_iff.mpr fun hhas => ?_
  have := (npfsReadReady_pending (hquiet r hr hhas)).2.1
  rw [hstate] at this
  cases this

theorem npfsDisconnect_spec (hs : Settled s)
    (h : npfsDisconnect s e = .ok (s', status)) : Effects allows ([], s) ([], s') ∧ Settled s' := by
  simp only [npfsDisconnect] at h
  split at h
  · cases h
    exact ⟨.refl, hs⟩
  split at h
  · cases h
    exact ⟨.refl, hs⟩
  rename_i hstate
  split at h
  · cases h
  obtain ⟨s1, hwake, h⟩ := bind_eq_ok h
  have hthrow : Effect allows [] s [] (throwOut s) := .throwOut (by tauto)
  obtain ⟨heffects, hframe, hquiet⟩ := npfsWakeAll_spec (s := throwOut s) allows [] hwake
  have hdisconnected : s1.state = .disconnected := hframe.state
  -- what is left is parked on the client that was thrown out
  have hleft : ∀ r ∈ s1.pendingReads, ∃ n, s.clientEnd = some n ∧ r.file = .client n := by
    intro r hr
    have hnot := hquiet.server hdisconnected hr
    rw [hframe.has, has_throwOut] at hnot
    have hmem := hframe.pendingReads hr
    rw [throwOut_pendingReads] at hmem
    have hhas := (hs r hmem).1
    cases hfile : r.file with
    | server => simp [hfile, hfile ▸ hhas] at hnot
    | client n =>
      rw [hfile] at hhas
      exact ⟨n, by simpa [Instance.has] using hhas, rfl⟩
  split at h
  · rename_i n hclient
    obtain ⟨s2, hservice, h⟩ := bind_eq_ok h
    cases h
    have hserviced : Serviced allows [] (.client n) s1 s' := npfsServicePendingReads_serviced hservice
    refine ⟨(hthrow.effects.trans heffects).trans hserviced.effects, .of_nil ?_⟩
    refine eq_nil_iff_forall_not_mem.mpr fun r hr => ?_
    obtain ⟨m, hm, hfile⟩ := hleft r (hserviced.pendingReads hr)
    rw [hclient] at hm
    cases hm
    have hready := hserviced.settled (ne_nil_of_mem (mem_pendingOn.mpr ⟨hr, hfile⟩))
    have := (npfsReadReady_pending hready).2.1
    rw [hserviced.state, hdisconnected] at this
    cases this
  · rename_i hclient
    cases h
    refine ⟨hthrow.effects.trans heffects, .of_nil ?_⟩
    refine eq_nil_iff_forall_not_mem.mpr fun r hr => ?_
    obtain ⟨m, hm, -⟩ := hleft r hr
    rw [hclient] at hm
    cases hm

/-! ## Opening and closing -/

theorem completeAll_eq {l : List Request} :
    completeAll status l s = { s with
      trace := (l.map fun r => .completed r s.connection (s.ends r.file).readMode
        ⟨status, 0, []⟩).reverse ++ s.trace } := by
  induction l generalizing s with
  | nil => rfl
  | cons r rest ih =>
    rw [completeAll, ih]
    simp [Instance.complete]

theorem npfsAttachClient_spec {wantsRead wantsWrite synchronousIo : Bool}
    (hs : Settled s) (hallows : allows.attach s)
    (h : npfsAttachClient s wantsRead wantsWrite synchronousIo pool = .ok (s', status)) :
    Effects allows ([], s) ([], s') ∧ Settled s' := by
  simp only [npfsAttachClient] at h
  split at h
  · cases h
    exact ⟨.refl, hs⟩
  rename_i hlistening
  split at h
  · cases h
    exact ⟨.refl, hs⟩
  split at h
  · cases h
    exact ⟨.refl, hs⟩
  obtain ⟨s1, hwake, h⟩ := bind_eq_ok h
  cases h
  simp only [not_or, not_not, Bool.not_eq_true', Bool.not_eq_false] at hlistening
  have hnil : s.pendingReads = [] := hs.pendingReads_eq_nil (by rw [hlistening.1]; nofun)
  obtain ⟨heffects, hframe, -⟩ :=
    npfsWakeAll_spec (s := connect s synchronousIo) allows [] hwake
  have hanswer : Effect allows [] s1 [] (answerListens s1 statusSuccess fun _ => true) := .answerListens _ _
  have hconnect : Effect allows [] s [] (connect s synchronousIo) :=
    .connect _ hallows hlistening.1 hlistening.2 hnil
  have hs1 := hframe.pendingReads_eq_nil hnil
  refine ⟨?_, .of_nil (by rw [completeAll_eq]; exact hs1)⟩
  have heq : answerListens s1 statusSuccess (fun _ => true) =
      completeAll statusSuccess s1.pendingListens { s1 with pendingListens := [] } := by
    simp [answerListens]
  rw [← heq]
  exact (hconnect.effects.trans heffects).trans hanswer.effects

theorem detach_eq : detach s e =
    if e = .server ∧ s.serverEnd = true then
      answerListens (leave (cancelReads s (·.file = e)) e) statusCancelled fun _ => true
    else leave (cancelReads s (·.file = e)) e := by
  have hcancel : completeAll statusCancelled (s.pendingOn e)
      { s with pendingReads := s.pendingReads.filter (·.file ≠ e) } = cancelReads s (·.file = e) := by
    simp [cancelReads, Instance.pendingOn]
  simp only [detach, hcancel]
  have hend : (cancelReads s (·.file = e)).serverEnd = s.serverEnd := by
    rw [cancelReads, completeAll_eq]
  cases e with
  | server =>
    cases hserver : s.serverEnd with
    | true => simp [hend, hserver, answerListens, leave, Instance.setEnd]
    | false => simp [hend, hserver, leave, Instance.setEnd]
  | client n => simp [leave]

theorem leave_pendingReads : (leave s e).pendingReads = s.pendingReads := by
  cases e with
  | server => rfl
  | client n => simp only [leave]; split <;> rfl

theorem leave_parked : (leave s e).parked = s.parked := by
  cases e with
  | server => rfl
  | client n => simp only [leave]; split <;> rfl

theorem has_leave {e' : EndId} : (leave s e).has e' = (s.has e' && decide (e' ≠ e)) := by
  cases e with
  | server =>
    cases e' with
    | server => simp [leave, Instance.has]
    | client m => simp [leave, Instance.has, Instance.setEnd]
  | client n =>
    simp only [leave]
    cases e' with
    | server => split <;> simp [Instance.has, Instance.setEnd]
    | client m =>
      split
      · rename_i hclient
        have hclient : s.clientEnd = some n := hclient
        by_cases hmn : m = n
        · simp [Instance.has, hmn]
        · simp [Instance.has, hclient, Ne.symm hmn]
      · rename_i hclient
        have hclient : s.clientEnd ≠ some n := hclient
        by_cases hmn : m = n
        · subst hmn
          simp [Instance.has, Instance.setEnd, hclient]
        · simp [Instance.has, Instance.setEnd, hmn]

theorem answerListens_frame (s : Instance) (status : NtStatus) (drop : Request → Bool) :
    (answerListens s status drop).pendingReads = s.pendingReads ∧
      (answerListens s status drop).parked = s.parked ∧
      (answerListens s status drop).has = s.has := by
  rw [answerListens, completeAll_eq]
  refine ⟨rfl, rfl, funext fun e => ?_⟩
  cases e <;> rfl

theorem cancelReads_frame (s : Instance) (drop : Request → Bool) :
    (cancelReads s drop).pendingReads = s.pendingReads.filter (fun r => !drop r) ∧
      (cancelReads s drop).parked = s.parked ∧ (cancelReads s drop).has = s.has := by
  rw [cancelReads, completeAll_eq]
  refine ⟨rfl, rfl, funext fun e => ?_⟩
  cases e <;> rfl

theorem detach_spec (s : Instance) (e : EndId) (hallowed : allows.leave e) :
    Effects allows ([], s) ([], detach s e) ∧ (detach s e).parked = s.parked ∧
    (detach s e).pendingReads = s.pendingReads.filter (·.file ≠ e) ∧
    ∀ e', (detach s e).has e' = (s.has e' && decide (e' ≠ e)) := by
  rw [detach_eq]
  have hcancel : Effect allows [] s [] (cancelReads s (·.file = e)) := .cancelReads _
  have hleave : Effect allows [] (cancelReads s (·.file = e)) [] (leave (cancelReads s (·.file = e)) e) :=
    .leave e hallowed
  obtain ⟨hreads, hparked, hhas⟩ := cancelReads_frame s (·.file = e)
  have hreads' : (leave (cancelReads s (·.file = e)) e).pendingReads =
      s.pendingReads.filter (·.file ≠ e) := by
    rw [leave_pendingReads, hreads]
    simp
  have hhas' (e' : EndId) : (leave (cancelReads s (·.file = e)) e).has e' =
      (s.has e' && decide (e' ≠ e)) := by rw [has_leave, hhas]
  split
  · obtain ⟨hlreads, hlparked, hlhas⟩ := answerListens_frame
      (leave (cancelReads s (·.file = e)) e) statusCancelled fun _ => true
    refine ⟨(hcancel.effects.trans hleave.effects).trans (Effect.answerListens _ _).effects, ?_, ?_,
      fun e' => ?_⟩
    · rw [hlparked, leave_parked, hparked]
    · rw [hlreads, hreads']
    · rw [hlhas, hhas']
  · exact ⟨hcancel.effects.trans hleave.effects, leave_parked.trans hparked, hreads', hhas'⟩

theorem npfsVfsCleanup_spec (allows : Allows) (hallowed : allows.leave e) (hs : Settled s) (h : npfsVfsCleanup s e = .ok s') :
    Effects allows ([], s) ([], s') ∧ Settled s' ∧ s'.has e = false ∧
      s'.parked.map Park.request = s.parked.map Park.request := by
  obtain ⟨heffects, hparked, hreads, hhas⟩ := detach_spec s e hallowed
  obtain ⟨hwake, hframe, hquiet⟩ := npfsWakeAll_spec allows [] h
  refine ⟨heffects.trans hwake, fun r hr => ?_, ?_, ?_⟩
  · have hmem := hframe.pendingReads hr
    rw [hreads] at hmem
    obtain ⟨hmem, hfile⟩ := mem_filter.mp hmem
    have hhas' : s'.has r.file = true := by
      rw [hframe.has, hhas, (hs r hmem).1]
      simpa using hfile
    exact ⟨hhas', hquiet r hr hhas'⟩
  · rw [hframe.has, hhas]
    simp
  · rw [hframe.parked, hparked]

theorem Settled.freeEnd (hs : Settled s) : Settled (freeEnd s e) := by
  simp only [Npfs.freeEnd]
  split
  · refine hs.congr (fun _ h => h) (fun e h => ?_) rfl (fun _ => rfl) fun d _ => ?_
    · cases e <;> exact h
    · cases d <;> simp [npfsFlushQueue, Instance.setQueue]
  · refine hs.congr (fun _ h => h) (fun e h => ?_) rfl (fun _ => rfl) fun _ h => h
    cases e <;> exact h

theorem npfsVfsClose_spec (hallowed : allows.leave e) (hs : Settled s) (hclosable : Closable s e)
    (h : npfsVfsClose s e = .ok s') : Effects allows ([], s) ([], s') ∧ Settled s' := by
  rw [npfsVfsClose] at h
  split at h
  · obtain ⟨s1, hcleanup, h⟩ := bind_eq_ok h
    obtain ⟨heffects, hs1, hhas, hparked⟩ := npfsVfsCleanup_spec allows hallowed hs hcleanup
    split at h
    · cases h
    cases h
    refine ⟨heffects.trans (Effect.free hhas fun p hp => ?_).effects, hs1.freeEnd⟩
    have hp : p.request ∈ s.parked.map Park.request := hparked ▸ List.mem_map_of_mem hp
    obtain ⟨q, hq, heq⟩ := List.mem_map.mp hp
    rw [← heq]
    exact hclosable.2.2.2 q hq
  · rename_i hhas
    split at h
    · cases h
    cases h
    exact ⟨(Effect.free (Bool.eq_false_iff.mpr hhas) hclosable.2.2.2).effects, hs.freeEnd⟩

theorem npfsCancelPending_eq {filter : List Nat} : npfsCancelPending s e filter =
    if e = .server then
      answerListens (cancelReads s fun r => r.file = e ∧ r.id ∈ filter) statusCancelled (·.id ∈ filter)
    else cancelReads s fun r => r.file = e ∧ r.id ∈ filter := by
  have hcancel : completeAll statusCancelled ((s.pendingOn e).filter (·.id ∈ filter))
      { s with pendingReads := s.pendingReads.filter fun r => !(r.file = e ∧ r.id ∈ filter) } =
        cancelReads s fun r => r.file = e ∧ r.id ∈ filter := by
    simp [cancelReads, Instance.pendingOn, List.filter_filter, Bool.and_comm]
  simp only [npfsCancelPending, hcancel]
  split
  · simp [answerListens]
  · rfl

theorem npfsCancelPending_spec {filter : List Nat} (hs : Settled s) :
    Effects allows ([], s) ([], npfsCancelPending s e filter) ∧ Settled (npfsCancelPending s e filter) := by
  rw [npfsCancelPending_eq]
  have hcancel : Effect allows [] s [] (cancelReads s fun r => r.file = e ∧ r.id ∈ filter) := .cancelReads _
  have hs1 : Settled (cancelReads s fun r => r.file = e ∧ r.id ∈ filter) := by
    rw [cancelReads, completeAll_eq]
    refine hs.congr (fun _ h => (mem_filter.mp h).1) (fun e h => ?_) rfl (fun _ => rfl)
      fun _ h => h
    cases e <;> exact h
  split
  · refine ⟨hcancel.effects.trans (Effect.answerListens _ _).effects, ?_⟩
    rw [answerListens, completeAll_eq]
    refine hs1.congr (fun _ h => h) (fun e h => ?_) rfl (fun _ => rfl) fun _ h => h
    cases e <;> exact h
  · exact ⟨hcancel.effects, hs1⟩

theorem npfsSetPipeInfo_spec {access : NtStatus} {readMode : Mode} {completionMode : CompletionMode}
    (hs : Settled s) :
    Effects allows ([], s) ([], (npfsSetPipeInfo s e access readMode completionMode).1) ∧
      Settled (npfsSetPipeInfo s e access readMode completionMode).1 := by
  rw [npfsSetPipeInfo]
  split
  · exact ⟨.refl, hs⟩
  split
  · exact ⟨.refl, hs⟩
  split
  · exact ⟨.refl, hs⟩
  refine ⟨(Effect.setModes e readMode completionMode).effects, ?_⟩
  refine hs.congr (fun _ h => h) (fun e h => ?_) rfl (fun e' => ?_) fun _ h => h
  · cases e <;> exact h
  · by_cases he : e' = e
    · subst he
      simp [Instance.setEnd]
    · simp [Instance.setEnd, he]

/-! ## Steps -/

structure Attached (s : Instance) : Prop where
  server : (s.ends .server).handle = true → s.serverEnd = true
  client : ∀ n, (s.ends (.client n)).handle = true → (s.ends (.client n)).pipe = true →
    s.clientEnd = some n

theorem Attached.has (ha : Attached s) (hhandle : (s.ends e).handle = true)
    (hpipe : (s.ends e).pipe = true) : s.has e = true := by
  cases e with
  | server => exact ha.server hhandle
  | client n => simpa [Instance.has] using ha.client n hhandle hpipe

theorem Attached.reads {verb : Verb} {length : Nat} {data : List UInt8} (ha : Attached s)
    (hhandle : (s.ends e).handle = true) (hverb : verb.reads = true) :
    Reads s.issue (s.request e verb length data) where
  verb := hverb
  newest _ := rfl
  has _ hpipe := by
    have := ha.has hhandle hpipe
    cases e <;> exact this

theorem Settled.issue (hs : Settled s) : Settled s.issue := by
  refine hs.congr (fun _ h => h) (fun e h => ?_) rfl (fun _ => rfl) fun _ h => h
  cases e <;> exact h

theorem Settled.unpark {p : Park} (hs : Settled s) :
    Settled { s with parked := s.parked.erase p } := by
  refine hs.congr (fun _ h => h) (fun e h => ?_) rfl (fun _ => rfl) fun _ h => h
  cases e <;> exact h

def Fitting (s : Instance) : Prop := ∀ p ∈ s.parked, p.Fits s.pipeType

/-- What a thread does once it runs again, with its request in hand. -/
theorem resume_carriesOn {p : Park} (allows : Allows) (hs : Settled s) (hfit : Fitting s)
    (hp : p ∈ s.parked) (h : resume s p pool prepare = .ok s') :
    Effects allows ([p.request], { s with parked := s.parked.erase p }) ([], s') ∧ Settled s' := by
  have hs1 : Settled { s with parked := s.parked.erase p } := hs.unpark
  have hfits := hfit p hp
  rw [Park.Fits] at hfits
  simp only [resume] at h
  split at h
  · rename_i hwait
    rw [hwait] at hfits
    have hnot : ¬ p.request.synchronous = false := by rw [hfits.2]; nofun
    exact npfsAwaitRead_spec hs1 ⟨hfits.1, fun h => absurd h hnot, fun h => absurd h hnot⟩ h
  · rename_i hwait
    rw [hwait] at hfits
    exact writeMessage_spec hs1 hfits h
  · rename_i hwait
    rw [hwait] at hfits
    exact writeBytes_spec hs1 hfits.1 hfits.2.1 hfits.2.2.1 h
  · rename_i hwait
    rw [hwait] at hfits
    cases h
    exact npfsFlush_spec _ _ hs1 hfits
  · rename_i hwait
    rw [hwait] at hfits
    split at h
    · cases h
      exact finish_spec hs1 (by rw [hfits]; rfl) rfl
    · exact listenLoop_spec hs1 hfits h

theorem resume_spec {p : Park} (hs : Settled s) (hfit : Fitting s)
    (hp : p ∈ s.parked) (hallowed : allows.resume p) (h : resume s p pool prepare = .ok s') :
    Effects allows ([], s) ([], s') ∧ Settled s' := by
  have hresume : Effect allows [] s [p.request] { s with parked := s.parked.erase p } := .resume hp hallowed
  obtain ⟨heffects, hs'⟩ := resume_carriesOn allows hs hfit hp h
  exact ⟨hresume.effects.trans heffects, hs'⟩

/-- Whether a step is one that the run makes. -/
def Op.Allowed (allows : Allows) (s : Instance) : Op → Prop
  | .attach .. => allows.attach s
  | .resume p .. | .interrupt p _ => allows.resume p
  | .cleanup e | .close e => allows.leave e
  | _ => True

/-- Every step is a sequence of effects, and leaves no read parked that could be answered. -/
theorem step_effects {op : Op} (hs : Settled s) (ha : Attached s) (hfit : Fitting s)
    (hop : op.Enabled s)
    (hallowed : op.Allowed allows s)
    (h : step op s = .ok s') : Effects allows ([], s) ([], s') ∧ Settled s' := by
  have hissue {e : EndId} (he : e ∈ s.openEnds ∧ (s.ends e).handle = true) (verb : Verb)
      (length : Nat) (data : List UInt8) :
      Effects allows ([], s) ([s.request e verb length data], s.issue) :=
    (Effect.issue e verb length data he.1 he.2).effects
  cases op with
  | attach wantsRead wantsWrite synchronousIo pool =>
    obtain ⟨⟨s1, status⟩, hattach, rfl⟩ := map_eq_ok h
    exact npfsAttachClient_spec hs hallowed hattach
  | read e length prepare =>
    obtain ⟨heffects, hs'⟩ := npfsAwaitRead_spec hs.issue (ha.reads hop.2 rfl) h
    exact ⟨(hissue hop _ _ _).trans heffects, hs'⟩
  | write e data pool =>
    obtain ⟨heffects, hs'⟩ := npfsWrite_spec hs.issue rfl h
    exact ⟨(hissue hop _ _ _).trans heffects, hs'⟩
  | transceive e data length pool prepare =>
    obtain ⟨heffects, hs'⟩ := npfsTransceive_spec hs.issue (ha.reads hop.2 rfl) h
    exact ⟨(hissue hop _ _ _).trans heffects, hs'⟩
  | flush e =>
    cases h
    obtain ⟨heffects, hs'⟩ := npfsFlush_spec (r := s.request e .flush 0 [])
      (s.queue e.outgoing).drainSeq false hs.issue rfl
    exact ⟨(hissue hop _ _ _).trans heffects, hs'⟩
  | listen e prepare =>
    obtain ⟨heffects, hs'⟩ := npfsListen_spec hs.issue rfl h
    exact ⟨(hissue hop _ _ _).trans heffects, hs'⟩
  | disconnect e =>
    obtain ⟨⟨s1, status⟩, hdisconnect, rfl⟩ := map_eq_ok h
    exact npfsDisconnect_spec hs hdisconnect
  | peek e outputLength =>
    obtain ⟨_, -, rfl⟩ := map_eq_ok h
    exact ⟨.refl, hs⟩
  | setPipeInfo e access readMode completionMode =>
    cases h
    exact npfsSetPipeInfo_spec hs
  | cancel e filter =>
    cases h
    exact npfsCancelPending_spec hs
  | cleanup e =>
    obtain ⟨heffects, hs', -⟩ := npfsVfsCleanup_spec allows hallowed hs h
    exact ⟨heffects, hs'⟩
  | close e => exact npfsVfsClose_spec hallowed hs hop h
  | resume p pool prepare => exact resume_spec hs hfit hop.1 hallowed h
  | interrupt p why =>
    cases h
    have hnot : why.status ∉ servedStatuses := by cases why <;> decide
    have hresume : Effect allows [] s [p.request] { s with parked := s.parked.erase p } :=
      .resume hop.1 hallowed
    refine ⟨hresume.effects.trans (Effect.finish rfl (fun _ => ?_) fun hmem => absurd hmem hnot).effects,
      hs.unpark.complete⟩
    cases why <;> decide

end

end Proskrnl.Npfs
