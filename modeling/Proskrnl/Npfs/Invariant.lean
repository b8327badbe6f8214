import Proskrnl.Npfs.Steps

/-!
# What effects keep

How the ends and the state of an instance go together, that every request is answered once, and that
asynchronous reads are answered in the order in which they were made.
-/

namespace Proskrnl.Npfs
open MessageQueue Outcome List

section
variable {s s' : Instance} {e : EndId} {r : Request} {hand hand' : List Request} {result : Result}
  {allows : Allows}

theorem Effects.preserves {P : List Request → Instance → Prop}
    (hstep : ∀ {hand s hand' s'}, Effect allows hand s hand' s' → P hand s → P hand' s')
    (h : Effects allows (hand, s) (hand', s')) (hP : P hand s) : P hand' s' := by
  suffices hall : ∀ a b : List Request × Instance, Effects allows a b → P a.1 a.2 → P b.1 b.2 from
    hall _ _ h hP
  intro a b hab
  induction hab with
  | refl => exact id
  | tail _ hlast ih => exact fun hP => hstep hlast (ih hP)

/-! ## Ends -/

structure Linked (s : Instance) : Prop extends Attached s where
  serverPipe : (s.ends .server).pipe = true
  clientPipe : ∀ n, s.clientEnd = some n → (s.ends (.client n)).pipe = true ∧ n = s.connection
  idle : s.state ≠ .connected → s.state ≠ .closing → s.clientEnd = none
  connected : s.state = .connected → s.serverEnd = true ∧ s.clientEnd ≠ none
  serverOpen : s.serverEnd = true → .server ∈ s.openEnds

theorem Initial.linked (h : Initial s) : Linked s where
  server _ := h.serverEnd
  client n hhandle _ := by
    rw [h.clients] at hhandle
    cases hhandle
  serverPipe := h.server.1
  clientPipe n hn := by
    rw [h.clientEnd] at hn
    cases hn
  idle _ _ := h.clientEnd
  connected hstate := by
    rw [h.state] at hstate
    cases hstate
  serverOpen _ := by
    rw [h.openEnds]
    exact mem_singleton_self _

theorem Linked.of_frame (hs : Linked s) (hframe : Frame s s') : Linked s' where
  server h := by
    rw [hframe.serverEnd]
    exact hs.server (by rwa [hframe.ends] at h)
  client n hhandle hpipe := by
    rw [hframe.ends] at hhandle hpipe
    rw [hframe.clientEnd]
    exact hs.client n hhandle hpipe
  serverPipe := by
    rw [hframe.ends]
    exact hs.serverPipe
  clientPipe n hn := by
    rw [hframe.ends, hframe.connection]
    exact hs.clientPipe n (by rwa [hframe.clientEnd] at hn)
  idle hconnected hclosing := by
    rw [hframe.state] at hconnected hclosing
    rw [hframe.clientEnd]
    exact hs.idle hconnected hclosing
  connected h := by
    rw [hframe.serverEnd, hframe.clientEnd]
    exact hs.connected (by rwa [hframe.state] at h)
  serverOpen h := by
    rw [hframe.openEnds]
    exact hs.serverOpen (by rwa [hframe.serverEnd] at h)

theorem Linked.of_connect (hs : Linked s) {synchronousIo : Bool} (hstate : s.state = .listening)
    (hserver : s.serverEnd = true) : Linked (connect s synchronousIo) where
  server _ := hserver
  client n hhandle hpipe := by
    by_cases hn : n = s.connection + 1
    · rw [hn]
      rfl
    · -- an older client with both would be the client of a listening instance
      have hne : EndId.client n ≠ .client (s.connection + 1) := by simpa using hn
      have hhandle' : (s.ends (.client n)).handle = true := by
        simpa [connect, Instance.setEnd, hne] using hhandle
      have hpipe' : (s.ends (.client n)).pipe = true := by
        simpa [connect, Instance.setEnd, hne] using hpipe
      have hclient := hs.client n hhandle' hpipe'
      rw [hs.idle (by rw [hstate]; simp) (by rw [hstate]; simp)] at hclient
      cases hclient
  serverPipe := by simpa [connect, Instance.setEnd] using hs.serverPipe
  clientPipe n hn := by
    obtain rfl : s.connection + 1 = n := Option.some.inj hn
    exact ⟨by simp [connect, Instance.setEnd], rfl⟩
  idle h := absurd rfl h
  connected _ := ⟨hserver, Option.some_ne_none _⟩
  serverOpen _ := mem_cons_of_mem _ (hs.serverOpen hserver)

theorem throwOut_frame (s : Instance) : (throwOut s).clientEnd = none ∧
    (throwOut s).serverEnd = s.serverEnd ∧ (throwOut s).openEnds = s.openEnds ∧
    (throwOut s).ends .server = s.ends .server := by
  rw [throwOut, orphanClient]
  split
  · exact ⟨rfl, rfl, rfl, rfl⟩
  · rename_i hclient
    exact ⟨hclient, rfl, rfl, rfl⟩

theorem throwOut_client (s : Instance) (n : Nat) :
    ((throwOut s).ends (.client n)).handle = (s.ends (.client n)).handle ∧
      ((throwOut s).ends (.client n)).pipe =
        ((s.ends (.client n)).pipe && !(s.clientEnd == some n)) := by
  rw [throwOut, orphanClient]
  split
  · rename_i m hclient
    have hclient : s.clientEnd = some m := hclient
    by_cases hn : n = m
    · subst hn
      simp [Instance.setEnd, npfsFlushQueue, Instance.setQueue, hclient]
    · simp [Instance.setEnd, npfsFlushQueue, Instance.setQueue, hclient, hn, Ne.symm hn]
  · rename_i hclient
    have hclient : s.clientEnd = none := hclient
    simp [npfsFlushQueue, Instance.setQueue, hclient]

theorem Linked.of_throwOut (hs : Linked s) : Linked (throwOut s) := by
  obtain ⟨hclient, hserver, hopen, hends⟩ := throwOut_frame s
  refine ⟨⟨fun h => ?_, fun n hhandle hpipe => ?_⟩, ?_, fun n hn => ?_, fun _ _ => hclient, nofun,
    fun h => ?_⟩
  · rw [hserver]
    exact hs.server (by rwa [hends] at h)
  · obtain ⟨hh, hp⟩ := throwOut_client s n
    rw [hh] at hhandle
    rw [hp, Bool.and_eq_true] at hpipe
    -- a client with both was the client, and lost its pipe
    simp [hs.client n hhandle hpipe.1] at hpipe
  · rw [hends]
    exact hs.serverPipe
  · rw [hclient] at hn
    cases hn
  · rw [hopen]
    exact hs.serverOpen (by rwa [hserver] at h)

theorem leave_ends {e' : EndId} : ((leave s e).ends e').pipe = (s.ends e').pipe ∧
    (((leave s e).ends e').handle = true → (s.ends e').handle = true ∧ e' ≠ e) := by
  have hset : ∀ {t : Instance}, t.ends = Function.update s.ends e { s.ends e with handle := false } →
      (t.ends e').pipe = (s.ends e').pipe ∧
        ((t.ends e').handle = true → (s.ends e').handle = true ∧ e' ≠ e) := by
    intro t ht
    rw [ht]
    by_cases he : e' = e
    · subst he
      simp
    · rw [Function.update_of_ne he]
      exact ⟨rfl, fun h => ⟨h, he⟩⟩
  cases e with
  | server => exact hset rfl
  | client n =>
    simp only [leave]
    split
    · exact hset rfl
    · exact hset rfl

theorem leave_state : (leave s e).state =
    if (s.ends e).pipe = true ∧ s.state = .connected then .closing else s.state := by
  cases e with
  | server => rfl
  | client n => simp only [leave]; split <;> rfl

theorem leave_frame (s : Instance) (e : EndId) : (leave s e).connection = s.connection ∧
    (leave s e).openEnds = s.openEnds ∧ (leave s e).queue = s.queue ∧
    (leave s e).trace = s.trace ∧ (leave s e).requests = s.requests ∧
    (leave s e).pendingListens = s.pendingListens ∧ (leave s e).pipeType = s.pipeType := by
  cases e with
  | server => exact ⟨rfl, rfl, rfl, rfl, rfl, rfl, rfl⟩
  | client n => simp only [leave]; split <;> exact ⟨rfl, rfl, rfl, rfl, rfl, rfl, rfl⟩

variable {n : Nat} {l : List Request} {a q : Request}

theorem leave_clientEnd (h : (leave s e).clientEnd = some n) :
    s.clientEnd = some n ∧ e ≠ .client n := by
  have hhas : (leave s e).has (.client n) = true := by simp [Instance.has, h]
  rw [has_leave, Bool.and_eq_true] at hhas
  exact ⟨by simpa [Instance.has] using hhas.1, by simpa using (of_decide_eq_true hhas.2).symm⟩

theorem Linked.of_leave (hs : Linked s) : Linked (leave s e) := by
  obtain ⟨hconnection, hopen, -⟩ := leave_frame s e
  have hserver : (leave s e).serverEnd = (s.serverEnd && decide (EndId.server ≠ e)) :=
    (has_leave : (leave s e).has .server = _)
  refine ⟨⟨fun h => ?_, fun n hhandle hpipe => ?_⟩, ?_, fun n hn => ?_, fun hconnected hclosing => ?_,
    fun h => ?_, fun h => ?_⟩
  · obtain ⟨hhandle, hne⟩ := leave_ends.2 h
    rw [hserver, hs.server hhandle]
    simpa using hne
  · obtain ⟨hhandle, hne⟩ := leave_ends.2 hhandle
    rw [leave_ends.1] at hpipe
    have hhas : (leave s e).has (.client n) = true := by
      rw [has_leave, Instance.has, hs.client n hhandle hpipe]
      simpa using hne
    simpa [Instance.has] using hhas
  · rw [leave_ends.1]
    exact hs.serverPipe
  · rw [leave_ends.1, hconnection]
    exact hs.clientPipe n (leave_clientEnd hn).1
  · rw [leave_state] at hconnected hclosing
    split at hconnected
    · rename_i hboth
      rw [if_pos hboth] at hclosing
      exact absurd rfl hclosing
    · rename_i hboth
      rw [if_neg hboth] at hclosing
      have hnone := hs.idle hconnected hclosing
      refine Option.eq_none_iff_forall_ne_some.mpr fun n hn => ?_
      rw [(leave_clientEnd hn).1] at hnone
      cases hnone
  · rw [leave_state] at h
    split at h
    · cases h
    · rename_i hboth
      obtain ⟨hend, hclient⟩ := hs.connected h
      -- an end without its pipe is none that the instance has
      have hne : s.has e = false := by
        refine Bool.eq_false_iff.mpr fun hhas => hboth ⟨?_, h⟩
        cases e with
        | server => exact hs.serverPipe
        | client n => exact (hs.clientPipe n (by simpa [Instance.has] using hhas)).1
      have hkeep (e' : EndId) (he' : s.has e' = true) : (leave s e).has e' = true := by
        rw [has_leave, he', Bool.true_and, decide_eq_true_eq]
        rintro rfl
        rw [he'] at hne
        cases hne
      obtain ⟨n, hn⟩ := Option.ne_none_iff_exists'.mp hclient
      have hn' : (leave s e).has (.client n) = true := hkeep _ (by simp [Instance.has, hn])
      refine ⟨hkeep .server hend, ?_⟩
      rw [show (leave s e).clientEnd = some n by simpa [Instance.has] using hn']
      simp
  · rw [hserver, Bool.and_eq_true] at h
    rw [hopen]
    exact hs.serverOpen h.1

theorem mem_erase_server (he : s.has e = false) (hopen : s.serverEnd = true → .server ∈ s.openEnds)
    (hserver : s.serverEnd = true) : .server ∈ s.openEnds.erase e := by
  refine (mem_erase_of_ne ?_).mpr (hopen hserver)
  rintro rfl
  rw [Instance.has, hserver] at he
  cases he

theorem freeEnd_frame (s : Instance) (e : EndId) : (freeEnd s e).state = s.state ∧
    (freeEnd s e).serverEnd = s.serverEnd ∧ (freeEnd s e).clientEnd = s.clientEnd ∧
    (freeEnd s e).ends = s.ends ∧ (freeEnd s e).connection = s.connection ∧
    (freeEnd s e).openEnds = s.openEnds.erase e ∧ (freeEnd s e).pendingReads = s.pendingReads ∧
    (freeEnd s e).pendingListens = s.pendingListens ∧ (freeEnd s e).parked = s.parked ∧
    (freeEnd s e).requests = s.requests ∧ (freeEnd s e).trace = s.trace ∧
    (freeEnd s e).pipeType = s.pipeType := by
  simp only [freeEnd]
  split <;> exact ⟨rfl, rfl, rfl, rfl, rfl, rfl, rfl, rfl, rfl, rfl, rfl, rfl⟩

theorem Linked.of_free (hs : Linked s) (he : s.has e = false) : Linked (freeEnd s e) := by
  obtain ⟨hstate, hserver, hclient, hends, hconnection, hopen, -⟩ := freeEnd_frame s e
  refine ⟨⟨?_, ?_⟩, ?_, ?_, ?_, ?_, ?_⟩
  · rw [hends, hserver]; exact hs.server
  · rw [hends, hclient]; exact hs.client
  · rw [hends]; exact hs.serverPipe
  · rw [hclient, hends, hconnection]; exact hs.clientPipe
  · rw [hstate, hclient]; exact hs.idle
  · rw [hstate, hserver, hclient]; exact hs.connected
  · rw [hserver, hopen]
    exact mem_erase_server he hs.serverOpen

theorem Linked.of_setModes (hs : Linked s) {readMode : Mode} {completionMode : CompletionMode} :
    Linked (s.setEnd e { s.ends e with readMode, completionMode }) := by
  have hends (e' : EndId) : ((s.setEnd e { s.ends e with readMode, completionMode }).ends e').pipe =
      (s.ends e').pipe ∧
      ((s.setEnd e { s.ends e with readMode, completionMode }).ends e').handle =
        (s.ends e').handle := by
    by_cases he : e' = e
    · subst he
      simp [Instance.setEnd]
    · simp [Instance.setEnd, he]
  refine ⟨⟨fun h => ?_, fun n hhandle hpipe => ?_⟩, ?_, fun n hn => ?_, hs.idle, hs.connected,
    hs.serverOpen⟩
  · exact hs.server (by rwa [(hends _).2] at h)
  · exact hs.client n (by rwa [(hends _).2] at hhandle) (by rwa [(hends _).1] at hpipe)
  · rw [(hends _).1]
    exact hs.serverPipe
  · rw [(hends _).1]
    exact hs.clientPipe n hn

theorem Linked.effect (h : Effect allows hand s hand' s') (hs : Linked s) : Linked s' := by
  cases h with
  | issue | resume | park | pend | pendListen | append | fail | finish => exact { hs with }
  | wake event => exact hs.of_frame (.keSetEvent event)
  | drain _ _ hdrain => exact { hs.of_frame (npfsReadDrain_frame hdrain).1 with }
  | serve _ _ hdrain => exact { hs.of_frame (npfsReadDrain_frame hdrain).1 with }
  | cancelReads | answerListens =>
    simp only [cancelReads, answerListens, completeAll_eq]
    exact { hs with }
  | connect _ _ hstate hserver => exact hs.of_connect hstate hserver
  | relisten hstate =>
    exact { hs with
      idle := fun _ _ => hs.idle (by rw [hstate]; simp) (by rw [hstate]; simp)
      connected := (by simp) }
  | throwOut => exact hs.of_throwOut
  | leave e => exact hs.of_leave
  | setModes => exact hs.of_setModes
  | free he => exact hs.of_free he

/-! ## Parked threads -/

theorem Fits.wake {pipeType : Mode} {p : Park} {event : KEvent} (h : p.Fits pipeType) :
    (if p.event = event then { p with woken := true } else p).Fits pipeType := by
  split <;> exact h

theorem throwOut_parked : (throwOut s).parked = s.parked ∧ (throwOut s).pipeType = s.pipeType ∧
    (throwOut s).pendingListens = s.pendingListens ∧ (throwOut s).trace = s.trace ∧
    (throwOut s).requests = s.requests ∧ (throwOut s).connection = s.connection := by
  rw [throwOut, orphanClient]
  split <;> exact ⟨rfl, rfl, rfl, rfl, rfl, rfl⟩

theorem npfsReadDrain_parked (h : npfsReadDrain s e n = .ok (s', result)) :
    s'.parked = (s.keSetEvent (.space e.incoming)).parked := by
  simp only [npfsReadDrain] at h
  split at h
  · cases h
  · cases h
    rfl

theorem Fitting.wake (hs : Fitting s) {event : KEvent} : Fitting (s.keSetEvent event) := by
  intro p hp
  obtain ⟨q, hq, rfl⟩ := List.mem_map.mp hp
  exact Fits.wake (hs q hq)

theorem Fitting.drain (hs : Fitting s) (h : npfsReadDrain s e n = .ok (s', result)) :
    Fitting s' := by
  intro p hp
  rw [npfsReadDrain_parked h] at hp
  rw [(npfsReadDrain_frame h).1.pipeType]
  exact hs.wake p hp

theorem Fitting.effect (h : Effect allows hand s hand' s') (hs : Fitting s) : Fitting s' := by
  cases h with
  | issue | pend | pendListen | append | fail | finish | connect | relisten | setModes => exact hs
  | resume => exact fun p hp => hs p (mem_of_mem_erase hp)
  | wake event => exact hs.wake
  | park _ hfits =>
    intro p hp
    rcases mem_append.mp hp with hp | hp
    · exact hs p hp
    · obtain rfl := mem_singleton.mp hp
      exact hfits
  | drain _ _ hdrain | serve _ _ hdrain =>
    have hs' := hs.drain hdrain
    exact hs'
  | cancelReads | answerListens =>
    simp only [cancelReads, answerListens, completeAll_eq]
    exact hs
  | throwOut =>
    obtain ⟨hparked, htype, -⟩ := throwOut_parked (s := s)
    rw [Fitting, hparked, htype]
    exact hs
  | leave e =>
    obtain ⟨-, -, -, -, -, -, htype⟩ := leave_frame s e
    rw [Fitting, leave_parked, htype]
    exact hs
  | free =>
    obtain ⟨-, -, -, -, -, -, -, -, hparked, -, -, htype⟩ := freeEnd_frame s _
    rw [Fitting, hparked, htype]
    exact hs

/-! ## Accounts -/

def outstanding (s : Instance) : List Request :=
  s.pendingReads ++ s.pendingListens ++ s.parked.map Park.request

def Event.answered? : Event → Option Request
  | .accepted .. => none
  | .completed r .. => some r

def answered (trace : List Event) : List Request := trace.filterMap Event.answered?

def Accounted (hand : List Request) (s : Instance) : Prop :=
  ((hand ++ outstanding s ++ answered s.trace).map Request.id).Perm (List.range s.requests)

theorem Initial.accounted (h : Initial s) : Accounted [] s := by
  simp [Accounted, outstanding, answered, h.pendingReads, h.pendingListens, h.parked, h.trace,
    h.requests]

def tally (hand : List Request) (s : Instance) (a : Request) : Nat :=
  hand.count a + s.pendingReads.count a + s.pendingListens.count a +
    (s.parked.map Park.request).count a + (answered s.trace).count a

theorem Accounted.congr (hs : Accounted hand s) (h : ∀ a, tally hand' s' a = tally hand s a)
    (hrequests : s'.requests = s.requests) : Accounted hand' s' := by
  rw [Accounted, hrequests]
  refine List.Perm.trans (Perm.map _ ?_) hs
  rw [perm_iff_count]
  intro a
  have ha := h a
  simp only [tally, outstanding, count_append] at ha ⊢
  omega

theorem answered_completeAll {status : NtStatus} :
    answered (completeAll status l s).trace = l.reverse ++ answered s.trace := by
  rw [completeAll_eq, answered, filterMap_append, ← map_reverse, filterMap_map]
  exact congrArg (· ++ answered s.trace) filterMap_some

theorem count_erase_add (hr : r ∈ l) (a : Request) :
    (l.erase r).count a + [r].count a = l.count a := by
  rw [(perm_cons_erase hr).count_eq a, ← singleton_append (x := r) (l := l.erase r), count_append]
  omega

theorem count_filter_add (drop : Request → Bool) (a : Request) :
    (l.filter fun r => !drop r).count a + (l.filter drop).count a = l.count a := by
  rw [← (filter_append_perm drop l).count_eq a, count_append]
  omega

theorem mem_of_pendingOn {rest : List Request} (h : s.pendingOn r.file = r :: rest) :
    r ∈ s.pendingReads := by
  have hr : r ∈ s.pendingOn r.file := by rw [h]; exact mem_cons_self ..
  exact (mem_pendingOn.mp hr).1

theorem answered_complete : answered (s.complete r result).trace = [r] ++ answered s.trace := rfl

theorem tally_complete :
    tally hand (s.complete r result) a = tally hand s a + [r].count a := by
  have hcount : (answered (s.complete r result).trace).count a =
      [r].count a + (answered s.trace).count a := by rw [answered_complete, count_append]
  have hrest : tally hand (s.complete r result) a = hand.count a + s.pendingReads.count a +
      s.pendingListens.count a + (s.parked.map Park.request).count a +
      (answered (s.complete r result).trace).count a := rfl
  rw [hrest, hcount, tally]
  omega

theorem tally_cons : tally [r] s a = tally [] s a + [r].count a := by
  simp only [tally, count_nil]
  omega

theorem tally_erase (hr : r ∈ s.pendingReads) :
    tally hand { s with pendingReads := s.pendingReads.erase r } a + [r].count a = tally hand s a := by
  have := count_erase_add hr a
  simp only [tally]
  omega

theorem tally_of_frame (hframe : Frame s s') (hreads : s'.pendingReads = s.pendingReads)
    (htrace : s'.trace = s.trace) : tally hand s' a = tally hand s a := by
  simp only [tally, hreads, hframe.pendingListens, hframe.parked, htrace]

theorem Accounted.issue {verb : Verb} {length : Nat} {data : List UInt8} (hs : Accounted [] s) :
    Accounted [s.request e verb length data] s.issue := by
  rw [Accounted, append_assoc, map_append]
  refine List.Perm.trans (Perm.append_left _ hs) ?_
  show (s.requests :: List.range s.requests).Perm (List.range (s.requests + 1))
  rw [range_succ]
  exact (perm_append_singleton ..).symm

theorem Accounted.effect (h : Effect allows hand s hand' s') (hs : Accounted hand s) :
    Accounted hand' s' := by
  cases h with
  | issue => exact hs.issue
  | resume hp =>
    refine hs.congr (fun a => ?_) rfl
    have hcount := ((perm_cons_erase hp).map Park.request).count_eq a
    rw [map_cons, ← singleton_append, count_append] at hcount
    simp only [tally, count_nil]
    omega
  | wake event => exact hs.congr (fun a => tally_of_frame (.keSetEvent event) rfl rfl) rfl
  | park =>
    refine hs.congr (fun a => ?_) rfl
    simp only [tally, Instance.park, map_append, count_append, count_nil, map_cons,
      map_nil]
    omega
  | pend | pendListen =>
    refine hs.congr (fun a => ?_) rfl
    simp only [tally, count_append, count_nil]
    omega
  | append | connect | relisten | setModes => exact hs
  | drain _ _ hdrain =>
    obtain ⟨hframe, hreads, htrace, -⟩ := npfsReadDrain_frame hdrain
    refine hs.congr (fun a => ?_) hframe.requests
    rw [tally_complete, tally_of_frame hframe hreads htrace, tally_cons]
  | serve hfirst _ hdrain =>
    obtain ⟨hframe, hreads, htrace, -⟩ := npfsReadDrain_frame hdrain
    refine hs.congr (fun a => ?_) hframe.requests
    rw [tally_complete, tally_erase (hreads ▸ mem_of_pendingOn hfirst),
      tally_of_frame hframe hreads htrace]
  | fail hfirst =>
    refine hs.congr (fun a => ?_) rfl
    rw [tally_complete, tally_erase (mem_of_pendingOn hfirst)]
  | finish =>
    refine hs.congr (fun a => ?_) rfl
    rw [tally_complete, tally_cons]
  | cancelReads drop =>
    refine hs.congr (fun a => ?_) (by rw [cancelReads, completeAll_eq])
    obtain ⟨hreads, hparked, -⟩ := cancelReads_frame s drop
    have hcount := count_filter_add (l := s.pendingReads) drop a
    have hlistens : (cancelReads s drop).pendingListens = s.pendingListens := by
      rw [cancelReads, completeAll_eq]
    have htrace : answered (cancelReads s drop).trace =
        (s.pendingReads.filter drop).reverse ++ answered s.trace := answered_completeAll
    rw [tally, hreads, hparked, hlistens, htrace, count_append, count_reverse, tally]
    omega
  | answerListens status drop =>
    refine hs.congr (fun a => ?_) (by rw [answerListens, completeAll_eq])
    obtain ⟨hreads, hparked, -⟩ := answerListens_frame s status drop
    have hcount := count_filter_add (l := s.pendingListens) drop a
    have hlistens : (answerListens s status drop).pendingListens =
        s.pendingListens.filter fun r => !drop r := by rw [answerListens, completeAll_eq]
    have htrace : answered (answerListens s status drop).trace =
        (s.pendingListens.filter drop).reverse ++ answered s.trace := answered_completeAll
    rw [tally, hreads, hparked, hlistens, htrace, count_append, count_reverse, tally]
    omega
  | throwOut =>
    obtain ⟨hparked, -, hlistens, htrace, hrequests, -⟩ := throwOut_parked (s := s)
    refine hs.congr (fun a => ?_) hrequests
    rw [tally, hparked, hlistens, htrace, throwOut_pendingReads, tally]
  | leave e =>
    obtain ⟨-, -, -, htrace, hrequests, hlistens, -⟩ := leave_frame s e
    refine hs.congr (fun a => ?_) hrequests
    rw [tally, leave_parked, hlistens, htrace, leave_pendingReads, tally]
  | free =>
    obtain ⟨-, -, -, -, -, -, hreads, hlistens, hparked, hrequests, htrace, -⟩ := freeEnd_frame s _
    refine hs.congr (fun a => ?_) hrequests
    rw [tally, hreads, hlistens, hparked, htrace, tally]

theorem Accounted.lt (hs : Accounted hand s) (hr : r ∈ hand ++ outstanding s ++ answered s.trace) :
    r.id < s.requests := by
  have := (Perm.mem_iff hs).mp (List.mem_map_of_mem hr)
  exact mem_range.mp this

theorem Accounted.ne (hs : Accounted [r] s) (hq : q ∈ outstanding s ++ answered s.trace) :
    q.id ≠ r.id := by
  have hnodup : (([r] ++ outstanding s ++ answered s.trace).map Request.id).Nodup :=
    (Perm.nodup_iff hs).mpr nodup_range
  rw [append_assoc, map_append, map_cons, map_nil, singleton_append,
    nodup_cons] at hnodup
  intro heq
  exact hnodup.1 (heq ▸ List.mem_map_of_mem hq)

theorem Accounted.newest (hs : Accounted [r] s) (hr : r.id + 1 = s.requests)
    (hq : q ∈ outstanding s ++ answered s.trace) : q.id < r.id := by
  have hlt := hs.lt (r := q) (by rw [append_assoc]; exact mem_append_right _ hq)
  have hne := hs.ne hq
  omega

/-! ## Order -/

/-- Whether the answer is one that an asynchronous read on the end waits its turn for. -/
def Event.served? (e : EndId) : Event → Option Request
  | .accepted .. => none
  | .completed r _ _ result =>
    if r.file = e ∧ r.synchronous = false ∧ r.verb.reads = true ∧ result.status ∈ servedStatuses then
      some r
    else none

/-- The asynchronous reads on an end that were answered in their turn, the last first. -/
def served (e : EndId) (trace : List Event) : List Request := trace.filterMap (Event.served? e)

theorem mem_answered_of_served {trace : List Event} (hq : q ∈ served e trace) :
    q ∈ answered trace ∧ q.file = e := by
  obtain ⟨event, hevent, heq⟩ := mem_filterMap.mp hq
  cases event with
  | accepted => cases heq
  | completed r c mode result =>
    rw [Event.served?] at heq
    split at heq
    · rename_i hserved
      cases heq
      exact ⟨mem_filterMap.mpr ⟨_, hevent, rfl⟩, hserved.1⟩
    · cases heq

structure Ordered (s : Instance) : Prop where
  pending : s.pendingReads.Pairwise fun q r => q.id < r.id
  served : ∀ e, (served e s.trace).Pairwise fun q r => r.id < q.id
  ahead : ∀ e, ∀ q ∈ Npfs.served e s.trace, ∀ r ∈ s.pendingReads, r.file = e → q.id < r.id
  reads : ∀ r ∈ s.pendingReads, r.verb.reads = true ∧ r.synchronous = false
  listens : ∀ r ∈ s.pendingListens, r.verb.reads = false

theorem Initial.ordered (h : Initial s) : Ordered s := by
  refine ⟨?_, fun e => ?_, fun e q hq => ?_, fun r hr => ?_, fun r hr => ?_⟩
  · rw [h.pendingReads]; exact .nil
  · rw [h.trace]; exact .nil
  · rw [h.trace] at hq; cases hq
  · rw [h.pendingReads] at hr; cases hr
  · rw [h.pendingListens] at hr; cases hr

theorem Ordered.congr (hs : Ordered s) (hreads : s'.pendingReads.Sublist s.pendingReads)
    (htrace : ∀ e, Npfs.served e s'.trace = Npfs.served e s.trace)
    (hlistens : s'.pendingListens ⊆ s.pendingListens) : Ordered s' where
  pending := hs.pending.sublist hreads
  served e := by
    rw [htrace]
    exact hs.served e
  ahead e q hq r hr := by
    rw [htrace] at hq
    exact hs.ahead e q hq r (hreads.subset hr)
  reads r hr := hs.reads r (hreads.subset hr)
  listens r hr := hs.listens r (hlistens hr)

theorem Ordered.answer (hs : Ordered s) (hreads : s'.pendingReads.Sublist s.pendingReads)
    (htrace : s'.trace = (s.complete r result).trace) (hlistens : s'.pendingListens = s.pendingListens)
    (hserved : Event.served? r.file (.completed r s.connection (s.ends r.file).readMode result) =
      some r → (∀ q ∈ Npfs.served r.file s.trace, q.id < r.id) ∧
        ∀ q ∈ s'.pendingReads, q.file = r.file → r.id < q.id) : Ordered s' := by
  have hcons (e : EndId) : Npfs.served e s'.trace =
      (Event.served? e (.completed r s.connection (s.ends r.file).readMode result)).toList ++
        Npfs.served e s.trace := by
    rw [htrace, Npfs.served, Instance.complete, filterMap_cons]
    cases Event.served? e (.completed r s.connection (s.ends r.file).readMode result) <;> rfl
  have hfile {e : EndId} {q : Request}
      (h : Event.served? e (.completed r s.connection (s.ends r.file).readMode result) = some q) :
      q = r ∧ r.file = e := by
    rw [Event.served?] at h
    split at h
    · rename_i hif
      exact ⟨(Option.some.inj h).symm, hif.1⟩
    · cases h
  refine ⟨hs.pending.sublist hreads, fun e => ?_, fun e q hq p hp hpfile => ?_,
    fun q hq => hs.reads q (hreads.subset hq), fun q hq => hs.listens q (hlistens ▸ hq)⟩
  · rw [hcons]
    cases heq : Event.served? e (.completed r s.connection (s.ends r.file).readMode result) with
    | none => exact hs.served e
    | some q =>
      obtain ⟨rfl, rfl⟩ := hfile heq
      exact pairwise_cons.mpr ⟨(hserved heq).1, hs.served _⟩
  · rw [hcons] at hq
    rcases mem_append.mp hq with hq | hq
    · rw [Option.mem_toList] at hq
      obtain ⟨rfl, rfl⟩ := hfile hq
      exact (hserved hq).2 p hp hpfile
    · exact hs.ahead e q hq p (hreads.subset hp) hpfile

theorem Ordered.first (hs : Ordered s) {rest : List Request} (hfirst : s.pendingOn r.file = r :: rest) :
    ∀ q ∈ s.pendingReads.erase r, q.file = r.file → r.id < q.id := by
  intro q hq hfile
  have hpairwise : (s.pendingOn r.file).Pairwise fun q r => q.id < r.id :=
    hs.pending.sublist filter_sublist
  rw [hfirst, pairwise_cons] at hpairwise
  refine hpairwise.1 q ?_
  have hq : q ∈ (s.pendingReads.erase r).filter (·.file = r.file) := by simpa [hfile] using hq
  rw [← erase_filter] at hq
  have hrest : (s.pendingOn r.file).erase r = rest := by rw [hfirst, erase_cons_head]
  rwa [← hrest]

theorem Accounted.foremost (ha : Accounted [r] s) (hf : Foremost s r)
    (hserved : Event.served? r.file (.completed r s.connection (s.ends r.file).readMode result) =
      some r) :
    (∀ q ∈ Npfs.served r.file s.trace, q.id < r.id) ∧
      ∀ q ∈ s.pendingReads, q.file = r.file → r.id < q.id := by
  rw [Event.served?] at hserved
  split at hserved
  · rename_i hif
    obtain ⟨hnewest, hnil⟩ := hf hif.2.1 hif.2.2.1
    refine ⟨fun q hq => ha.newest hnewest ?_, fun q hq hfile => ?_⟩
    · exact mem_append_right _ (mem_answered_of_served hq).1
    · have hq : q ∈ s.pendingOn r.file := mem_pendingOn.mpr ⟨hq, hfile⟩
      rw [hnil] at hq
      cases hq
  · cases hserved

theorem served_completeAll {status : NtStatus}
    (h : ∀ r ∈ l, r.verb.reads = true → status ∉ servedStatuses) :
    served e (completeAll status l s).trace = served e s.trace := by
  induction l generalizing s with
  | nil => rfl
  | cons r rest ih =>
    rw [completeAll, ih fun q hq => h q (.tail _ hq), served, Instance.complete, filterMap_cons,
      Event.served?, if_neg]
    · rfl
    · rintro ⟨-, -, hreads, hmem⟩
      exact h r mem_cons_self hreads hmem

theorem Ordered.effect (h : Effect allows hand s hand' s') (ha : Accounted hand s) (hs : Ordered s) :
    Ordered s' := by
  cases h with
  | issue | resume | wake | park | connect | relisten | setModes => exact { hs with }
  | append => exact hs.congr (.refl _) (fun _ => rfl) (fun _ h => h)
  | @pend _ r _ hnewest hverb hsync =>
    have hlt {q : Request} (hq : q ∈ outstanding s ++ answered s.trace) : q.id < r.id :=
      ha.newest hnewest hq
    refine ⟨?_, hs.served, fun e q hq p hp hfile => ?_, fun q hq => ?_, hs.listens⟩
    · refine pairwise_append.mpr ⟨hs.pending, pairwise_singleton .., fun q hq p hp => ?_⟩
      obtain rfl := mem_singleton.mp hp
      refine hlt (mem_append_left _ ?_)
      rw [outstanding, append_assoc]
      exact mem_append_left _ hq
    · rcases mem_append.mp hp with hp | hp
      · exact hs.ahead e q hq p hp hfile
      · obtain rfl := mem_singleton.mp hp
        exact hlt (mem_append_right _ (mem_answered_of_served hq).1)
    · rcases mem_append.mp hq with hq | hq
      · exact hs.reads q hq
      · obtain rfl := mem_singleton.mp hq
        exact ⟨hverb, hsync⟩
  | @pendListen _ r hreads =>
    refine { hs with listens := fun q hq => ?_ }
    rcases mem_append.mp hq with hq | hq
    · exact hs.listens q hq
    · obtain rfl := mem_singleton.mp hq
      rw [hreads]
      rfl
  | @drain _ s1 r result _ _ hdrain hf =>
    obtain ⟨hframe, hreads, htrace, -⟩ := npfsReadDrain_frame hdrain
    have hevent : (s1.complete r result).trace = (s.complete r result).trace := by
      rw [Instance.complete, Instance.complete, htrace, hframe.connection, hframe.ends]
    refine hs.answer (by rw [← hreads]; exact .refl _) hevent hframe.pendingListens fun hserved => ?_
    obtain ⟨hbefore, hafter⟩ := ha.foremost hf hserved
    exact ⟨hbefore, fun q hq => hafter q (hreads ▸ hq)⟩
  | @serve _ _ s1 r _ result hfirst _ hdrain =>
    obtain ⟨hframe, hreads, htrace, -⟩ := npfsReadDrain_frame hdrain
    have hevent : (s1.complete r result).trace = (s.complete r result).trace := by
      rw [Instance.complete, Instance.complete, htrace, hframe.connection, hframe.ends]
    refine hs.answer ?_ hevent hframe.pendingListens fun _ => ?_
    · rw [← hreads]
      exact erase_sublist
    · refine ⟨fun q hq => hs.ahead _ q hq r (mem_of_pendingOn hfirst) rfl, fun q hq => ?_⟩
      exact hs.first hfirst q (hreads ▸ hq)
  | @fail _ _ r _ _ hfirst =>
    refine hs.answer erase_sublist rfl rfl fun _ => ?_
    exact ⟨fun q hq => hs.ahead _ q hq r (mem_of_pendingOn hfirst) rfl, hs.first hfirst⟩
  | finish _ _ hf =>
    refine hs.answer (.refl _) rfl rfl fun hserved => ?_
    refine ha.foremost (hf ?_) hserved
    rw [Event.served?] at hserved
    split at hserved
    · rename_i hif
      exact hif.2.2.2
    · cases hserved
  | cancelReads drop =>
    obtain ⟨hreads, -, -⟩ := cancelReads_frame s drop
    refine hs.congr ?_ (fun e => served_completeAll fun _ _ _ => by decide) ?_
    · rw [hreads]
      exact filter_sublist
    · rw [cancelReads, completeAll_eq]
      exact fun _ h => h
  | answerListens status drop =>
    obtain ⟨hreads, -, -⟩ := answerListens_frame s status drop
    refine hs.congr ?_ (fun e => served_completeAll fun r hr hverb => ?_) ?_
    · rw [hreads]
    · rw [hs.listens r (mem_filter.mp hr).1] at hverb
      cases hverb
    · rw [answerListens, completeAll_eq]
      exact fun _ h => (mem_filter.mp h).1
  | throwOut =>
    obtain ⟨-, -, hlistens, htrace, -⟩ := throwOut_parked (s := s)
    refine hs.congr ?_ (fun e => by rw [htrace]) (by rw [hlistens]; exact fun _ h => h)
    rw [throwOut_pendingReads]
  | leave e =>
    obtain ⟨-, -, -, htrace, -, hlistens, -⟩ := leave_frame s e
    refine hs.congr ?_ (fun e => by rw [htrace]) (by rw [hlistens]; exact fun _ h => h)
    rw [leave_pendingReads]
  | free =>
    obtain ⟨-, -, -, -, -, -, hreads, hlistens, -, -, htrace, -⟩ := freeEnd_frame s _
    refine hs.congr ?_ (fun e => by rw [htrace]) (by rw [hlistens]; exact fun _ h => h)
    rw [hreads]

structure Sound (hand : List Request) (s : Instance) : Prop where
  linked : Linked s
  fitting : Fitting s
  accounted : Accounted hand s
  ordered : Ordered s

theorem Sound.effect (h : Effect allows hand s hand' s') (hs : Sound hand s) : Sound hand' s' where
  linked := hs.linked.effect h
  fitting := hs.fitting.effect h
  accounted := hs.accounted.effect h
  ordered := hs.ordered.effect h hs.accounted

theorem Initial.sound (h : Initial s) : Sound [] s where
  linked := h.linked
  fitting p hp := by
    rw [h.parked] at hp
    cases hp
  accounted := h.accounted
  ordered := h.ordered

inductive RunWith (allows : Allows) (s0 : Instance) : Instance → Prop
  | refl : RunWith allows s0 s0
  | step {op : Op} {s s' : Instance} : RunWith allows s0 s → op.Enabled s → op.Allowed allows s →
    step op s = .ok s' → RunWith allows s0 s'

def allowsAll : Allows where
  attach _ := True
  resume _ := True

theorem Run.runWith {s0 : Instance} (h : Run s0 s) : RunWith allowsAll s0 s := by
  induction h with
  | refl => exact .refl
  | @step op _ _ _ hop hstep ih => exact ih.step hop (by cases op <;> trivial) hstep

theorem RunWith.effects {s0 : Instance} (h0 : Initial s0) (h : RunWith allows s0 s) :
    Effects allows ([], s0) ([], s) ∧ Settled s ∧ Sound [] s := by
  induction h with
  | refl => exact ⟨.refl, .of_nil h0.pendingReads, h0.sound⟩
  | step _ hop hallowed hstep ih =>
    obtain ⟨heffects, hsettled, hsound⟩ := ih
    obtain ⟨hmore, hsettled'⟩ :=
      step_effects hsettled hsound.linked.toAttached hsound.fitting hop hallowed hstep
    exact ⟨heffects.trans hmore, hsettled', hmore.preserves Sound.effect hsound⟩

end

end Proskrnl.Npfs
