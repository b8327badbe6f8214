import Proskrnl.Npfs.Delivery

/-!
# Connections of one instance

A thread that is parked looks at the instance again when it runs, and not at the connection it was
parked in.
-/

namespace Proskrnl.Npfs
open MessageQueue Outcome List

section
variable {s s' : Instance} {e : EndId} {r : Request} {hand hand' : List Request} {result : Result}
  {d : Direction}

/-- Clients attach when no read, write or flush is parked. -/
def attachesFree : Allows where
  attach s := ∀ p ∈ s.parked, p.request.verb = .listen
  resume _ := True

/-! ## Bytes -/

def Request.Of (c : Nat) (r : Request) : Prop := r.issued = c ∧ ∀ n, r.file = .client n → n = c

structure Isolated (hand : List Request) (s : Instance) : Prop where
  queued : ∀ d, ∀ o ∈ (s.queue d).unread.flatten, o.origin = s.connection
  stamped : ∀ r ∈ hand ++ s.parked.map Park.request, ∀ o ∈ r.data, o.origin = r.issued
  inHand : ∀ r ∈ hand, r.verb ≠ .listen →
    r.issued = s.connection ∧ ((s.ends r.file).pipe = true → r.Of s.connection)
  parked : ∀ r ∈ s.parked.map Park.request, r.verb ≠ .listen → r.Of s.connection
  pending : ∀ r ∈ s.pendingReads, r.Of s.connection
  delivered : ∀ r c mode result, .completed r c mode result ∈ s.trace → ∀ o ∈ result.data,
    o.origin = r.issued ∧ ∀ n, r.file = .client n → n = o.origin

theorem Initial.isolated (h : Initial s) : Isolated [] s where
  queued d o ho := by
    rw [Queue.unread, (h.queue d).1] at ho
    cases ho
  stamped r hr := by
    rw [h.parked] at hr
    cases hr
  inHand r hr := by cases hr
  parked r hr := by
    rw [h.parked] at hr
    cases hr
  pending r hr := by
    rw [h.pendingReads] at hr
    cases hr
  delivered r c mode result hmem := by
    rw [h.trace] at hmem
    cases hmem

theorem not_listen_of_reads (h : r.verb.reads = true) : r.verb ≠ .listen := by
  intro hverb
  rw [hverb] at h
  cases h

theorem Isolated.congr (hs : Isolated hand s)
    (hqueue : ∀ d, ∀ o ∈ (s'.queue d).unread.flatten, o ∈ (s.queue d).unread.flatten)
    (hhand : hand' ⊆ hand) (hparked : s'.parked.map Park.request ⊆ s.parked.map Park.request)
    (hreads : s'.pendingReads ⊆ s.pendingReads)
    (htrace : ∀ r c mode result, .completed r c mode result ∈ s'.trace → result.data ≠ [] →
      .completed r c mode result ∈ s.trace)
    (hconnection : s'.connection = s.connection)
    (hpipe : ∀ e, (s'.ends e).pipe = true → (s.ends e).pipe = true) : Isolated hand' s' where
  queued d o ho := by
    rw [hconnection]
    exact hs.queued d o (hqueue d o ho)
  stamped r hr := by
    refine hs.stamped r ?_
    rcases mem_append.mp hr with hr | hr
    · exact mem_append_left _ (hhand hr)
    · exact mem_append_right _ (hparked hr)
  inHand r hr hverb := by
    rw [hconnection]
    obtain ⟨hissued, hof⟩ := hs.inHand r (hhand hr) hverb
    exact ⟨hissued, fun h => hof (hpipe _ h)⟩
  parked r hr hverb := by
    rw [hconnection]
    exact hs.parked r (hparked hr) hverb
  pending r hr := by
    rw [hconnection]
    exact hs.pending r (hreads hr)
  delivered r c mode result hmem o ho :=
    hs.delivered r c mode result (htrace r c mode result hmem (ne_nil_of_mem ho)) o ho

theorem Isolated.answer (hs : Isolated hand s) (hdata : result.data = []) :
    Isolated hand (s.complete r result) := by
  refine hs.congr (fun _ _ h => h) (fun _ h => h) (fun _ h => h) (fun _ h => h)
    (fun _ _ _ _ hmem hne => ?_) rfl fun _ h => h
  rcases mem_cons.mp hmem with h | h
  · cases h
    exact absurd hdata hne
  · exact h

theorem Isolated.answerAll {status : NtStatus} {l : List Request} (hs : Isolated hand s) :
    Isolated hand (completeAll status l s) := by
  induction l generalizing s with
  | nil => exact hs
  | cons r rest ih => exact ih (hs.answer rfl)

theorem Isolated.issue {verb : Verb} {length : Nat} {data : List UInt8} (hs : Isolated [] s)
    (hl : Linked s) (hhandle : (s.ends e).handle = true) :
    Isolated [s.request e verb length data] s.issue := by
  refine { hs with stamped := fun r hr o ho => ?_, inHand := fun r hr _ => ?_ }
  · rcases mem_append.mp hr with hr | hr
    · obtain rfl := mem_singleton.mp hr
      obtain ⟨b, -, rfl⟩ := List.mem_map.mp ho
      rfl
    · exact hs.stamped r (mem_append_right _ hr) o ho
  · obtain rfl := mem_singleton.mp hr
    refine ⟨rfl, fun hpipe => ⟨rfl, fun n hn => ?_⟩⟩
    obtain rfl : e = .client n := hn
    exact (hl.clientPipe n (hl.client n hhandle hpipe)).2

theorem Isolated.resume {p : Park} (hs : Isolated [] s) (hp : p ∈ s.parked) :
    Isolated [p.request] { s with parked := s.parked.erase p } := by
  have hmem : p.request ∈ s.parked.map Park.request := List.mem_map_of_mem hp
  have hsub : (s.parked.erase p).map Park.request ⊆ s.parked.map Park.request :=
    map_subset _ erase_subset
  refine { hs with stamped := fun r hr => ?_, inHand := fun r hr hverb => ?_, parked := fun r hr => ?_ }
  · refine hs.stamped r (mem_append_right _ ?_)
    rcases mem_append.mp hr with hr | hr
    · obtain rfl := mem_singleton.mp hr
      exact hmem
    · exact hsub hr
  · obtain rfl := mem_singleton.mp hr
    exact ⟨(hs.parked _ hmem hverb).1, fun _ => hs.parked _ hmem hverb⟩
  · exact hs.parked r (hsub hr)

theorem Isolated.park {wait : Wait} (hs : Isolated [r] s)
    (hstate : s.state = .connected ∧ (s.ends r.file).pipe = true ∨ wait = .listen)
    (hfits : Park.Fits s.pipeType ⟨r, wait, false⟩) : Isolated [] (s.park r wait) := by
  have hmem {q : Request} (hq : q ∈ (s.park r wait).parked.map Park.request) :
      q ∈ s.parked.map Park.request ∨ q = r := by
    rw [Instance.park, map_append] at hq
    simpa using hq
  refine { hs with stamped := fun q hq => ?_, inHand := (by simp), parked := fun q hq hverb => ?_ }
  · rcases hmem (by simpa using hq) with hq | rfl
    · exact hs.stamped q (mem_append_right _ hq)
    · exact hs.stamped q (mem_append_left _ mem_cons_self)
  · rcases hmem hq with hq | rfl
    · exact hs.parked q hq hverb
    · rcases hstate with hstate | rfl
      · exact (hs.inHand q mem_cons_self hverb).2 hstate.2
      · exact absurd hfits hverb

theorem Isolated.accept {data : List Octet} (hs : Isolated [r] s) (hverb : r.verb ≠ .listen)
    (hdata : data ⊆ r.data) : Isolated [r] (accept s r data) := by
  have hdelivered : ∀ r' c mode result, .completed r' c mode result ∈ (Npfs.accept s r data).trace →
      .completed r' c mode result ∈ s.trace := by
    intro r' c mode result hmem
    rcases mem_cons.mp hmem with h | h
    · cases h
    · exact h
  refine { hs with
    queued := fun d o ho => ?_
    delivered := fun r' c mode result hmem => hs.delivered r' c mode result (hdelivered _ _ _ _ hmem) }
  by_cases hd : r.file.outgoing = d
  · subst hd
    simp only [Npfs.accept, Instance.setQueue, Function.update_self] at ho
    rw [unread_append, flatten_append, mem_append] at ho
    rcases ho with ho | ho
    · exact hs.queued _ o ho
    · have ho : o ∈ data := by simpa using ho
      show o.origin = s.connection
      rw [hs.stamped r (mem_append_left _ mem_cons_self) o (hdata ho)]
      exact (hs.inHand r mem_cons_self hverb).1
  · simp only [Npfs.accept, Instance.setQueue, Function.update_of_ne (Ne.symm hd)] at ho
    exact hs.queued d o ho

theorem mem_unread_of_drain {n : Nat} (hb : Books s) (h : npfsReadDrain s e n = .ok (s', result)) :
    (∀ o ∈ result.data, o ∈ (s.queue e.incoming).unread.flatten) ∧
      ∀ d, ∀ o ∈ (s'.queue d).unread.flatten, o ∈ (s.queue d).unread.flatten := by
  obtain ⟨-, -, -, hother⟩ := npfsReadDrain_frame h
  obtain ⟨hresult, -, hrest, -⟩ := npfsReadDrain_eq (hb.bounded _) h
  have hsplit := readResult_append_flatten (s.ends e).readMode n (s.queue e.incoming).unread
  rw [← hresult, ← hrest] at hsplit
  refine ⟨fun o ho => ?_, fun d o ho => ?_⟩
  · rw [← hsplit]
    exact mem_append_left _ ho
  · by_cases hd : d = e.incoming
    · subst hd
      rw [← hsplit]
      exact mem_append_right _ ho
    · rwa [hother d hd] at ho

theorem Isolated.deliver (hs : Isolated hand s) (hb : Books s) (hof : r.Of s.connection)
    (hdrain : npfsReadDrain s r.file r.length = .ok (s', result)) (hhand : hand' ⊆ hand)
    {reads : List Request} (hreads : reads ⊆ s'.pendingReads) :
    Isolated hand' ({ s' with pendingReads := reads }.complete r result) := by
  obtain ⟨hframe, hpending, htrace, -⟩ := npfsReadDrain_frame hdrain
  obtain ⟨hdata, hqueue⟩ := mem_unread_of_drain hb hdrain
  have hbase : Isolated hand' { s' with pendingReads := reads } := by
    refine hs.congr hqueue hhand ?_ ?_ (fun _ _ _ _ hmem _ => ?_) hframe.connection fun e h => ?_
    · rw [hframe.parked]
      exact fun _ h => h
    · rw [← hpending]
      exact hreads
    · rwa [htrace] at hmem
    · rwa [hframe.ends] at h
  refine { hbase with delivered := fun r' c mode result' hmem o ho => ?_ }
  rcases mem_cons.mp hmem with h | h
  · cases h
    have horigin := hs.queued _ o (hdata o ho)
    rw [horigin]
    exact ⟨hof.1.symm, hof.2⟩
  · exact hbase.delivered r' c mode result' h o ho

theorem Isolated.effect (h : Effect attachesFree hand s hand' s') (hsound : Sound hand s)
    (hb : Books s) (hs : Isolated hand s) : Isolated hand' s' := by
  cases h with
  | issue e verb length data _ hhandle => exact hs.issue hsound.linked hhandle
  | resume hp => exact hs.resume hp
  | wake event =>
    refine hs.congr (fun _ _ h => h) (fun _ h => h) ?_ (fun _ h => h) (fun _ _ _ _ h _ => h) rfl
      fun _ h => h
    rw [map_request_keSetEvent]
    exact fun _ h => h
  | park hstate hfits => exact hs.park hstate hfits
  | @pend _ r hready _ hverb _ =>
    refine { hs with
      stamped := fun q hq => hs.stamped q (mem_append_right _ (by simpa using hq))
      inHand := nofun
      pending := fun q hq => ?_ }
    rcases mem_append.mp hq with hq | hq
    · exact hs.pending q hq
    · obtain rfl := mem_singleton.mp hq
      exact (hs.inHand q mem_cons_self (not_listen_of_reads hverb)).2
        (npfsReadReady_pending hready).2.2
  | pendListen =>
    exact { hs with
      stamped := fun q hq => hs.stamped q (mem_append_right _ (by simpa using hq))
      inHand := nofun }
  | append hverb _ hdata => exact hs.accept hverb hdata
  | @drain _ _ r _ hverb hready hdrain =>
    have hof := (hs.inHand r mem_cons_self (not_listen_of_reads hverb)).2
      (npfsReadReady_success hready).2.2.2
    exact hs.deliver hb hof hdrain (nil_subset _) (fun _ h => h)
  | @serve _ _ _ r _ _ hfirst _ hdrain =>
    exact hs.deliver hb (hs.pending r (mem_of_pendingOn hfirst)) hdrain (fun _ h => h)
      erase_subset
  | @fail _ _ r =>
    have hs' : Isolated hand { s with pendingReads := s.pendingReads.erase r } :=
      { hs with pending := fun q hq => hs.pending q (mem_of_mem_erase hq) }
    exact hs'.answer rfl
  | finish hdata =>
    have hs' : Isolated [] s := { hs with
      stamped := fun q hq => hs.stamped q (mem_append_right _ (by simpa using hq))
      inHand := nofun }
    exact hs'.answer hdata
  | cancelReads drop =>
    have hs' : Isolated [] { s with pendingReads := s.pendingReads.filter fun r => !drop r } :=
      { hs with pending := fun q hq => hs.pending q (mem_filter.mp hq).1 }
    exact hs'.answerAll
  | answerListens status drop =>
    have hs' : Isolated [] { s with pendingListens := s.pendingListens.filter fun r => !drop r } :=
      { hs with }
    exact hs'.answerAll
  | connect _ hfree hstate _ hnil =>
    have hidle := hb.idle (.inl (by rw [hstate]; nofun))
    refine { hs with
      queued := fun d o ho => ?_
      inHand := nofun
      parked := fun r hr hverb => ?_
      pending := fun r hr => ?_ }
    · have ho : o ∈ (s.queue d).unread.flatten := ho
      rw [Queue.unread, hidle d] at ho
      cases ho
    · obtain ⟨p, hp, rfl⟩ := List.mem_map.mp hr
      exact absurd (hfree p hp) hverb
    · have hr : r ∈ s.pendingReads := hr
      rw [hnil] at hr
      cases hr
  | relisten | setModes =>
    refine hs.congr (fun _ _ h => h) (fun _ h => h) (fun _ h => h) (fun _ h => h)
      (fun _ _ _ _ h _ => h) rfl fun e h => ?_
    first
      | exact h
      | simp only [Instance.setEnd, Function.update_apply] at h
        split at h <;> simp_all
  | throwOut =>
    obtain ⟨hparked, -, -, htrace, -, hconnection⟩ := throwOut_parked (s := s)
    refine hs.congr (fun d o ho => ?_) (fun _ h => h) (by rw [hparked]; exact fun _ h => h)
      (by rw [throwOut_pendingReads]; exact fun _ h => h) (fun _ _ _ _ h _ => ?_) hconnection
      fun e h => ?_
    · have hq : (throwOut s).queue d = { s.queue d with bufferList := [], bytesAvailable := 0 } := by
        rw [← flushed_queue s d, throwOut, orphanClient]
        split <;> rfl
      rw [hq] at ho
      cases ho
    · rwa [htrace] at h
    · cases e with
      | server => rwa [(throwOut_frame s).2.2.2] at h
      | client n =>
        rw [(throwOut_client s n).2, Bool.and_eq_true] at h
        exact h.1
  | leave e =>
    obtain ⟨hconnection, -, hqueue, htrace, -⟩ := leave_frame s e
    refine hs.congr (fun d o ho => by rwa [hqueue] at ho) (fun _ h => h)
      (by rw [leave_parked]; exact fun _ h => h) (by rw [leave_pendingReads]; exact fun _ h => h)
      (fun _ _ _ _ h _ => by rwa [htrace] at h) hconnection fun e' h => ?_
    rwa [leave_ends.1] at h
  | @free _ e =>
    obtain ⟨-, -, -, hends, hconnection, -, hreads, -, hparked, -, htrace, -⟩ := freeEnd_frame s e
    refine hs.congr (fun d o ho => ?_) (fun _ h => h) (by rw [hparked]; exact fun _ h => h)
      (by rw [hreads]; exact fun _ h => h) (fun _ _ _ _ h _ => by rwa [htrace] at h) hconnection
      fun e' h => by rwa [hends] at h
    simp only [freeEnd] at ho
    split at ho
    · rw [flushed_queue] at ho
      cases ho
    · exact ho

theorem RunWith.isolated {s₀ : Instance} (h₀ : Initial s₀) (h : RunWith attachesFree s₀ s) :
    Isolated [] s := by
  obtain ⟨heffects, -, -⟩ := h.effects h₀
  have hall := heffects.preserves (P := fun hand s => Sound hand s ∧ Books s ∧ Isolated hand s)
    (fun heffect hs => ⟨hs.1.effect heffect, hs.2.1.effect heffect hs.1,
      hs.2.2.effect heffect hs.1 hs.2.1⟩) ⟨h₀.sound, h₀.books, h₀.isolated⟩
  exact hall.2.2

/-! ## Parked threads -/

/-- The connection in which a thread parked for a read, a write or a flush has ended: the instance was
disconnected, or the peer closed it and nothing is left to read. A flush that was satisfied before
that is done. -/
def Ended (s : Instance) (p : Park) : Prop :=
  match p.wait with
  | .read _ => s.state = .disconnected ∨ s.state = .listening ∨
    s.state = .closing ∧ (s.queue p.request.file.incoming).bufferList = []
  | .writeMessage | .writeBytes _ => s.state ≠ .connected
  | .flush drainSeq => (s.state = .disconnected ∨ s.state = .listening) ∧
    (s.queue p.request.file.outgoing).drainSeq = drainSeq
  | .listen => False

variable {p q : Park}

theorem Ended.not_connected (h : Ended s p) : s.state ≠ .connected := by
  intro hstate
  rw [Ended] at h
  split at h
  · simp [hstate] at h
  · exact h hstate
  · exact h hstate
  · simp [hstate] at h
  · exact h

theorem Ended.congr (h : Ended s p) (hrequest : q.request = p.request) (hwait : q.wait = p.wait) :
    Ended s q := by
  rw [Ended, hrequest, hwait]
  exact h

theorem Ended.of_frame (h : Ended s p) (hstate : s'.state = s.state)
    (hqueue : ∀ d, (s.queue d).bufferList = [] → (s'.queue d).bufferList = [])
    (hdrain : ∀ d, s.state = .disconnected ∨ s.state = .listening →
      (s'.queue d).drainSeq = (s.queue d).drainSeq) : Ended s' p := by
  rw [Ended] at *
  split at h
  · rw [hstate]
    rcases h with h | h | ⟨h, hnil⟩
    · exact .inl h
    · exact .inr (.inl h)
    · exact .inr (.inr ⟨h, hqueue _ hnil⟩)
  · rwa [hstate]
  · rwa [hstate]
  · rw [hstate, hdrain _ h.1]
    exact h
  · exact h

theorem Ended.drain {n : Nat} (h : Ended s p) (hready : npfsReadReady s e false = statusSuccess)
    (hdrain : npfsReadDrain s e n = .ok (s', result)) : Ended s' p := by
  obtain ⟨hframe, -, -, hother⟩ := npfsReadDrain_frame hdrain
  obtain ⟨hne, hactive, -⟩ := npfsReadReady_success hready
  refine h.of_frame hframe.state (fun d hnil => ?_) fun d hidle => ?_
  · have hd : d ≠ e.incoming := fun hd => hne (hd ▸ hnil)
    rw [hother d hd, hnil]
  · rcases hidle with h | h <;> simp [h] at hactive

def ParkedFor (p : Park) (s : Instance) : Prop :=
  ∃ q ∈ s.parked, q.request = p.request ∧ q.wait = p.wait

def othersRun (p : Park) : Allows where
  attach := attachesFree.attach
  resume q := q.request ≠ p.request

theorem ParkedFor.effect (h : Effect (othersRun p) hand s hand' s') (hs : ParkedFor p s) :
    ParkedFor p s' := by
  obtain ⟨q, hq, hrequest, hwait⟩ := hs
  have hkeep {t : Instance} (h : t.parked = s.parked) : ParkedFor p t :=
    ⟨q, h ▸ hq, hrequest, hwait⟩
  have hwake {t : Instance} {event : KEvent} (h : t.parked = (s.keSetEvent event).parked) :
      ParkedFor p t := by
    refine ⟨if q.event = event then { q with woken := true } else q, ?_, ?_⟩
    · rw [h]
      exact List.mem_map_of_mem hq
    · split <;> exact ⟨hrequest, hwait⟩
  cases h with
  | issue | pend | pendListen | append | fail | finish | connect | relisten | setModes =>
    exact hkeep rfl
  | resume hp hother =>
    refine ⟨q, (mem_erase_of_ne ?_).mpr hq, hrequest, hwait⟩
    rintro rfl
    exact hother hrequest
  | wake event => exact hwake rfl
  | park => exact ⟨q, mem_append_left _ hq, hrequest, hwait⟩
  | drain _ _ hdrain | serve _ _ hdrain =>
    have hparked := npfsReadDrain_parked hdrain
    exact hwake hparked
  | cancelReads | answerListens => exact hkeep (by simp only [cancelReads, answerListens, completeAll_eq])
  | throwOut => exact hkeep throwOut_parked.1
  | leave => exact hkeep leave_parked
  | free => exact hkeep (freeEnd_frame s _).2.2.2.2.2.2.2.2.1

theorem Ended.effect (h : Effect (othersRun p) hand s hand' s') (hparked : ParkedFor p s)
    (hverb : p.request.verb ≠ .listen) (hs : Ended s p) : Ended s' p := by
  cases h with
  | issue | resume | wake | park | pend | pendListen | fail | finish | setModes =>
    exact hs.of_frame rfl (fun _ h => h) fun _ _ => rfl
  | append _ hwritable =>
    exact absurd (npfsCheckWritableState_connected hwritable).1 hs.not_connected
  | @drain _ _ r _ _ hready hdrain =>
    have hready' : npfsReadReady s r.file false = statusSuccess := by
      rwa [(npfsReadReady_success hready).2.2.1] at hready
    exact (hs.drain hready' hdrain).of_frame rfl (fun _ h => h) fun _ _ => rfl
  | serve _ hready hdrain =>
    exact (hs.drain hready hdrain).of_frame rfl (fun _ h => h) fun _ _ => rfl
  | cancelReads | answerListens =>
    simp only [cancelReads, answerListens, completeAll_eq]
    exact hs.of_frame rfl (fun _ h => h) fun _ _ => rfl
  | connect _ hfree =>
    obtain ⟨q, hq, hrequest, -⟩ := hparked
    exact absurd (hrequest ▸ hfree q hq) hverb
  | relisten hstate =>
    rw [Ended] at *
    split at hs
    · exact .inr (.inl rfl)
    · rintro ⟨⟩
    · rintro ⟨⟩
    · exact ⟨.inr rfl, hs.2⟩
    · exact hs
  | throwOut hstate =>
    rw [Ended] at *
    split at hs
    · exact .inl rfl
    · rintro ⟨⟩
    · rintro ⟨⟩
    · rcases hs.1 with h | h <;> simp [h] at hstate
    · exact hs
  | leave e =>
    obtain ⟨-, -, hqueue, -⟩ := leave_frame s e
    refine hs.of_frame ?_ (fun d h => by rwa [hqueue]) fun d _ => by rw [hqueue]
    rw [leave_state, if_neg fun h => hs.not_connected h.2]
  | @free _ e =>
    refine hs.of_frame (freeEnd_frame s e).1 (fun d hnil => ?_) fun d _ => ?_
    · simp only [freeEnd]
      split
      · rw [flushed_queue]
      · exact hnil
    · simp only [freeEnd]
      split
      · rw [flushed_queue]
      · rfl

/-! ## Going on after the end -/

theorem npfsReadReady_ended (ahead : Bool) (h : s.state = .disconnected ∨ s.state = .listening ∨
      s.state = .closing ∧ (s.queue e.incoming).bufferList = []) :
    npfsReadReady s e ahead ≠ statusSuccess ∧ npfsReadReady s e ahead ≠ statusPending := by
  unfold npfsReadReady npfsEndDisconnected
  rcases h with h | h | ⟨h, hnil⟩
  · simp [h]
    decide
  · cases (s.ends e).pipe
    · simp [h]
      decide
    · simp [h]
      decide
  · cases (s.ends e).pipe
    · simp [h]
      decide
    · simp [h, hnil]
      decide

theorem npfsCheckWritableState_not_transfers (h : s.state ≠ .connected) :
    npfsCheckWritableState s e ≠ statusSuccess ∧ ¬ Transfers (npfsCheckWritableState s e) := by
  refine ⟨fun hsuccess => h (npfsCheckWritableState_connected hsuccess).1, ?_⟩
  unfold npfsCheckWritableState npfsEndDisconnected
  split
  · decide
  · cases hstate : s.state with
    | disconnected => simp_all
    | listening => decide
    | connected => exact absurd hstate h
    | closing => decide

theorem resume_ended {pool : Nat} {prepare : Prepare} (hs : Ended s p) (hfits : p.Fits s.pipeType)
    (h : resume s p pool prepare = .ok s') :
    ∃ status, ¬ Transfers status ∧
      s' = { s with parked := s.parked.erase p }.complete p.request ⟨status, 0, []⟩ := by
  rw [Ended] at hs
  rw [Park.Fits] at hfits
  simp only [resume] at h
  split at h
  · rename_i hwait
    rw [hwait] at hs
    have hended (ahead : Bool) :=
      npfsReadReady_ended (s := { s with parked := s.parked.erase p }) ahead hs
    simp only [npfsAwaitRead] at h
    rw [if_neg (hended _).1, if_pos (hended _).2] at h
    cases h
    exact ⟨_, npfsReadReady_not_transfers (hended _).1, rfl⟩
  · rename_i hwait
    rw [hwait] at hs
    obtain ⟨hsuccess, hnot⟩ :=
      npfsCheckWritableState_not_transfers (s := { s with parked := s.parked.erase p })
        (e := p.request.file) hs
    simp only [writeMessage] at h
    rw [if_pos hsuccess] at h
    cases h
    exact ⟨_, hnot, rfl⟩
  · rename_i rest hwait
    rw [hwait] at hs hfits
    obtain ⟨hsuccess, hnot⟩ :=
      npfsCheckWritableState_not_transfers (s := { s with parked := s.parked.erase p })
        (e := p.request.file) hs
    unfold writeBytes at h
    simp only at h
    rw [if_neg hfits.2.2.2, if_pos hsuccess] at h
    cases h
    exact ⟨_, hnot, rfl⟩
  · rename_i drainSeq hwait
    rw [hwait] at hs
    cases h
    have hconnected : s.state ≠ .connected := by
      rcases hs.1 with h | h <;> simp [h]
    simp only [npfsFlush, hs.2, hconnected, ne_eq, not_true_eq_false, not_false_eq_true, and_false,
      if_false, if_true]
    split
    · exact ⟨_, by decide, rfl⟩
    split
    · rename_i h
      cases h
    split
    · exact ⟨_, by decide, rfl⟩
    · exact ⟨_, by decide, rfl⟩
  · rename_i hwait
    rw [hwait] at hs
    exact absurd hs id

theorem Accounted.unique (hs : Accounted [] s) {q' : Park} (hq : q ∈ s.parked) (hq' : q' ∈ s.parked)
    (h : q.request = q'.request) : q = q' := by
  have hnodup : ((outstanding s ++ answered s.trace).map Request.id).Nodup :=
    (Perm.nodup_iff hs).mpr nodup_range
  have hparked : (s.parked.map Park.request).Nodup := by
    have := (Nodup.of_map _ hnodup).of_append_left
    exact this.of_append_right
  exact inj_on_of_nodup_map hparked hq hq' h

theorem Accounted.unanswered (hs : Accounted [] s) (hr : r ∈ outstanding s) : r ∉ answered s.trace := by
  have hnodup : ((outstanding s ++ answered s.trace).map Request.id).Nodup :=
    (Perm.nodup_iff hs).mpr nodup_range
  have := disjoint_of_nodup_append (Nodup.of_map _ hnodup)
  exact fun h => this hr h

theorem mem_answered {c : Nat} {mode : Mode} {trace : List Event}
    (h : .completed r c mode result ∈ trace) : r ∈ answered trace :=
  mem_filterMap.mpr ⟨_, h, rfl⟩

theorem trace_suffix {allows : Allows} (h : Effect allows hand s hand' s') : s.trace <:+ s'.trace := by
  cases h with
  | issue | resume | wake | park | pend | pendListen | connect | relisten | setModes =>
    exact suffix_refl _
  | append | fail | finish => exact suffix_cons ..
  | drain _ _ hdrain | serve _ _ hdrain =>
    rw [← (npfsReadDrain_frame hdrain).2.2.1]
    exact suffix_cons ..
  | cancelReads | answerListens =>
    simp only [cancelReads, answerListens, completeAll_eq]
    exact suffix_append ..
  | throwOut => rw [throwOut_parked.2.2.2.1]
  | leave e => rw [(leave_frame s e).2.2.2.1]
  | @free _ e =>
    obtain ⟨-, -, -, -, -, -, -, -, -, -, htrace, -⟩ := freeEnd_frame s e
    rw [htrace]

def Fails (p : Park) (s : Instance) : Prop :=
  ParkedFor p s ∧ Ended s p ∨
    p.request ∈ answered s.trace ∧
      ∀ c mode result, .completed p.request c mode result ∈ s.trace → ¬ Transfers result.status

theorem Fails.answered (hsound' : Sound [] s') (hsuffix : s.trace <:+ s'.trace)
    (hanswered : p.request ∈ Npfs.answered s.trace)
    (hfailed : ∀ c mode result, .completed p.request c mode result ∈ s.trace →
      ¬ Transfers result.status) : Fails p s' := by
  obtain ⟨new, hnew⟩ := hsuffix
  have hold : p.request ∈ Npfs.answered s'.trace := by
    rw [← hnew, Npfs.answered, filterMap_append]
    exact mem_append_right _ hanswered
  refine .inr ⟨hold, fun c mode result hmem => hfailed c mode result ?_⟩
  rw [← hnew] at hmem
  rcases mem_append.mp hmem with hmem | hmem
  · -- it would be answered twice
    have hnodup : (Npfs.answered s'.trace).Nodup := by
      have hall : ((outstanding s' ++ Npfs.answered s'.trace).map Request.id).Nodup :=
        (Perm.nodup_iff hsound'.accounted).mpr nodup_range
      exact (Nodup.of_map _ hall).of_append_right
    rw [← hnew, Npfs.answered, filterMap_append] at hnodup
    exact absurd hanswered
      (disjoint_of_nodup_append hnodup (mem_answered hmem))
  · exact hmem

theorem Fails.of_complete {status : NtStatus} (hs : Accounted [] s) (hq : q ∈ s.parked)
    (hrequest : q.request = p.request) (hstatus : ¬ Transfers status) :
    Fails p ({ s with parked := s.parked.erase q }.complete q.request ⟨status, 0, []⟩) := by
  rw [hrequest]
  refine .inr ⟨mem_cons_self, fun c mode result hmem => ?_⟩
  rcases mem_cons.mp hmem with h | h
  · cases h
    exact hstatus
  · refine absurd (mem_answered h) (hs.unanswered ?_)
    rw [← hrequest]
    exact mem_append_right _ (List.mem_map_of_mem hq)

theorem Fails.step {op : Op} (hs : Fails p s) (hverb : p.request.verb ≠ .listen)
    (hsettled : Settled s) (hsound : Sound [] s) (hsound' : Sound [] s') (hop : op.Enabled s)
    (hallowed : op.Allowed attachesFree s) (h : step op s = .ok s') : Fails p s' := by
  rcases hs with ⟨hparked, hended⟩ | ⟨hanswered, hfailed⟩
  · by_cases hother : op.Allowed (othersRun p) s
    · obtain ⟨heffects, -⟩ :=
        step_effects hsettled hsound.linked.toAttached hsound.fitting hop hother h
      refine .inl (heffects.preserves (P := fun _ s => ParkedFor p s ∧ Ended s p) ?_
        ⟨hparked, hended⟩)
      exact fun heffect hs => ⟨hs.1.effect heffect, hs.2.effect heffect hs.1 hverb⟩
    · -- the step is the one that the thread itself takes
      obtain ⟨q', hq', hrequest', hwait'⟩ := hparked
      cases op with
      | attach => exact absurd hallowed hother
      | read | write | transceive | flush | listen | disconnect | peek | setPipeInfo | cancel | cleanup
      | close => exact absurd trivial hother
      | resume q pool prepare =>
        have hrequest : q.request = p.request := not_not.mp hother
        obtain rfl := hsound.accounted.unique hop.1 hq' (hrequest.trans hrequest'.symm)
        obtain ⟨status, hstatus, rfl⟩ :=
          resume_ended (hended.congr hrequest hwait') (hsound.fitting q hop.1) h
        exact .of_complete hsound.accounted hop.1 hrequest hstatus
      | interrupt q why =>
        have hrequest : q.request = p.request := not_not.mp hother
        cases h
        exact .of_complete hsound.accounted hop.1 hrequest (by cases why <;> decide)
  · obtain ⟨heffects, -⟩ :=
      step_effects hsettled hsound.linked.toAttached hsound.fitting hop hallowed h
    refine .answered hsound' ?_ hanswered hfailed
    exact heffects.preserves (P := fun _ t => s.trace <:+ t.trace)
      (fun heffect hs => hs.trans (trace_suffix heffect)) (suffix_refl _)

/-! ## Isolation -/

theorem RunWith.trans {allows : Allows} {s₀ : Instance} (h : RunWith allows s₀ s)
    (h' : RunWith allows s s') : RunWith allows s₀ s' := by
  induction h' with
  | refl => exact h
  | step _ hop hallowed hstep ih => exact ih.step hop hallowed hstep

theorem RunWith.fails {s₀ : Instance} (h₀ : Initial s₀) (h : RunWith attachesFree s₀ s)
    (hp : p ∈ s.parked) (hended : Ended s p) (h' : RunWith attachesFree s s') : Fails p s' := by
  have hverb : p.request.verb ≠ .listen := by
    obtain ⟨-, -, hsound⟩ := h.effects h₀
    have hfits := hsound.fitting p hp
    intro hlisten
    rw [Ended] at hended
    rw [Park.Fits, hlisten] at hfits
    split at hended
    · rename_i hwait
      rw [hwait] at hfits
      exact absurd hfits.1 (by decide)
    · rename_i hwait
      rw [hwait] at hfits
      cases hfits
    · rename_i hwait
      rw [hwait] at hfits
      cases hfits.1
    · rename_i hwait
      rw [hwait] at hfits
      cases hfits
    · exact hended
  induction h' with
  | refl => exact .inl ⟨⟨p, hp, rfl, rfl⟩, hended⟩
  | step h₁ hop hallowed hstep ih =>
    have hrun := h.trans h₁
    obtain ⟨-, hsettled, hsound⟩ := hrun.effects h₀
    obtain ⟨-, -, hsound'⟩ := (hrun.step hop hallowed hstep).effects h₀
    exact ih.step hverb hsettled hsound hsound' hop hallowed hstep

/-- Where clients attach when no read, write or flush is parked: a read gets bytes that were written in
its own connection; no read stays parked past the end of its connection; and a thread that was parked
when its connection ended fails, whatever happens before it runs. -/
theorem connections_isolated {s₀ : Instance} (h₀ : Initial s₀) (h : RunWith attachesFree s₀ s) :
    (∀ r c mode result, .completed r c mode result ∈ s.trace → ∀ o ∈ result.data,
      o.origin = r.issued ∧ ∀ n, r.file = .client n → n = o.origin) ∧
    (∀ r ∈ s.pendingReads, s.state = .connected ∧ r.issued = s.connection) ∧
    ∀ p ∈ s.parked, Ended s p → ∀ s', RunWith attachesFree s s' → ∀ c mode result,
      .completed p.request c mode result ∈ s'.trace → ¬ Transfers result.status := by
  have hisolated := h.isolated h₀
  obtain ⟨-, hsettled, -⟩ := h.effects h₀
  refine ⟨hisolated.delivered, fun r hr => ?_, fun p hp hended s' h' c mode result hmem => ?_⟩
  · exact ⟨(npfsReadReady_pending (hsettled r hr).2).2.1, (hisolated.pending r hr).1⟩
  · rcases h.fails h₀ hp hended h' with ⟨⟨q, hq, hrequest, -⟩, -⟩ | ⟨-, hfailed⟩
    · obtain ⟨-, -, hsound'⟩ := (h.trans h').effects h₀
      refine absurd (mem_answered hmem) (hsound'.accounted.unanswered ?_)
      rw [← hrequest]
      exact mem_append_right _ (List.mem_map_of_mem hq)
    · exact hfailed c mode result hmem

end

def staleWrite (woken : Bool) : Park where
  request := ⟨0, .server, .write, 0, [⟨1, 1⟩, ⟨2, 1⟩], true, 1⟩
  wait := .writeBytes [⟨2, 1⟩]
  woken := woken

/-- The write parks, the server disconnects and listens, and a second client attaches before the
writer runs. -/
def reuse : List Op :=
  [.attach true true true 1, .write .server [1, 2] 1, .disconnect .server, .listen .server .prepared,
    .attach true true true 1, .resume (staleWrite true) 1 .prepared, .read (.client 2) 1 .prepared]

/-- The second client gets a byte that was written to the first, and the write succeeds. -/
theorem stale_write_delivered : ∃ s, Run (newPipe .bytes 1) s ∧
    .completed (staleWrite true).request 2 .bytes ⟨statusSuccess, 2, []⟩ ∈ s.trace ∧
    ∃ r result, .completed r 2 .bytes result ∈ s.trace ∧ r.file = .client 2 ∧ r.issued = 2 ∧
      result.data = [⟨2, 1⟩] := by
  have hrun : (runOps allowsAll reuse (newPipe .bytes 1)).any fun s =>
      .completed (staleWrite true).request 2 .bytes ⟨statusSuccess, 2, []⟩ ∈ s.trace ∧
      .completed ⟨2, .client 2, .read, 1, [], true, 2⟩ 2 .bytes ⟨statusSuccess, 1, [⟨2, 1⟩]⟩ ∈
        s.trace := by decide +kernel
  obtain ⟨s, hs, hevents⟩ := Option.any_eq_true _ _ |>.mp hrun
  obtain ⟨hwrite, hread⟩ := of_decide_eq_true hevents
  exact ⟨s, Run.ofOps hs, hwrite, _, _, hread, rfl, rfl, rfl⟩

instance (op : Op) (s : Instance) : Decidable (op.Allowed attachesFree s) :=
  match op with
  | .attach .. => inferInstanceAs (Decidable (∀ p ∈ s.parked, p.request.verb = .listen))
  | .read .. | .write .. | .transceive .. | .flush .. | .listen .. | .disconnect .. | .peek ..
  | .setPipeInfo .. | .cancel .. | .cleanup .. | .close .. | .resume .. | .interrupt .. => .isTrue trivial

/-- The write parks and the server disconnects: the write fails, whatever comes next. -/
theorem connections_isolated_sample : ∃ s,
    runOps attachesFree [.attach true true true 1, .write .server [1, 2] 1, .disconnect .server]
      (newPipe .bytes 1) = some s ∧ staleWrite true ∈ s.parked ∧
    ∀ s', RunWith attachesFree s s' → ∀ c mode result,
      .completed (staleWrite true).request c mode result ∈ s'.trace → ¬ Transfers result.status := by
  have hrun :
      (runOps attachesFree [.attach true true true 1, .write .server [1, 2] 1, .disconnect .server]
        (newPipe .bytes 1)).any fun s => staleWrite true ∈ s.parked ∧ s.state ≠ .connected := by
    decide +kernel
  obtain ⟨s, hs, hafter⟩ := Option.any_eq_true _ _ |>.mp hrun
  obtain ⟨hparked, hstate⟩ := of_decide_eq_true hafter
  have h₀ := newPipe_initial .bytes (by decide : 1 ≠ 0)
  have hended : Ended s (staleWrite true) := hstate
  exact ⟨s, hs, hparked, (connections_isolated h₀ (RunWith.refl.ofOps hs)).2.2 _ hparked hended⟩

end Proskrnl.Npfs
