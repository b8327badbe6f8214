import Proskrnl.Npfs.Invariant

/-!
# What the reads of a pipe get

Each direction of a connection is a queue of messages: its log says what was accepted and what was
handed out, and the log is faithful.
-/

namespace Proskrnl.Npfs
open MessageQueue Outcome List

section
variable {s s' : Instance} {e : EndId} {r : Request} {hand hand' : List Request} {result : Result}
  {allows : Allows} {d : Direction} {c : Nat}

/-! ## Draining -/

def Bounded (buffers : List Buffer) : Prop := ∀ b ∈ buffers, b.consumed ≤ b.data.length

theorem length_unread (b : Buffer) : b.unread.length = b.data.length - b.consumed :=
  length_drop

theorem take_unread (b : Buffer) (n : Nat) :
    b.unread.take (min (b.data.length - b.consumed) n) = b.unread.take n := by
  rw [← length_unread, Nat.min_comm, ← take_take, take_length]

variable {b : Buffer} {n : Nat} {buffers : List Buffer}

theorem consumed_iff (hb : b.consumed ≤ b.data.length) (n : Nat) :
    b.consumed + min (b.data.length - b.consumed) n = b.data.length ↔ b.unread.length ≤ n := by
  rw [length_unread]
  omega

theorem unread_consume (h : ¬ b.unread.length ≤ n) :
    Buffer.unread { b with consumed := b.consumed + min (b.data.length - b.consumed) n } =
      b.unread.drop n := by
  rw [length_unread] at h
  rw [Buffer.unread, Buffer.unread, drop_drop, Nat.min_eq_right (by omega)]

theorem drainMessage_eq (hb : Bounded buffers) :
    (drainMessage n buffers).1 = (readMessage n (buffers.map Buffer.unread)).1 ∧
      (drainMessage n buffers).2.1 = (if (readMessage n (buffers.map Buffer.unread)).2.1 then
        statusBufferOverflow else statusSuccess) ∧
      (drainMessage n buffers).2.2.map Buffer.unread =
        (readMessage n (buffers.map Buffer.unread)).2.2 ∧
      Bounded (drainMessage n buffers).2.2 := by
  cases buffers with
  | nil => exact ⟨rfl, rfl, rfl, hb⟩
  | cons m rest =>
    have hm := hb m mem_cons_self
    rw [drainMessage, map_cons, readMessage]
    by_cases hle : m.unread.length ≤ n
    · rw [if_pos ((consumed_iff hm n).mpr hle), if_pos hle, take_unread, take_of_length_le hle]
      exact ⟨rfl, rfl, rfl, fun b h => hb b (.tail _ h)⟩
    · rw [if_neg (mt (consumed_iff hm n).mp hle), if_neg hle, take_unread]
      refine ⟨rfl, rfl, ?_, ?_⟩
      · rw [map_cons, unread_consume hle]
      · rintro b (_ | ⟨_, h⟩)
        · show m.consumed + min (m.data.length - m.consumed) n ≤ m.data.length
          omega
        · exact hb b (.tail _ h)

theorem drainBytes_eq (hb : Bounded buffers) :
    (drainBytes n buffers).1 = (readBytes n (buffers.map Buffer.unread)).1 ∧
      (drainBytes n buffers).2.map Buffer.unread =
        (readBytes n (buffers.map Buffer.unread)).2 ∧
      Bounded (drainBytes n buffers).2 := by
  induction buffers generalizing n with
  | nil => exact ⟨rfl, rfl, hb⟩
  | cons m rest ih =>
    have hm := hb m mem_cons_self
    have hrest : Bounded rest := fun b h => hb b (.tail _ h)
    rw [drainBytes, map_cons, readBytes]
    split
    · exact ⟨rfl, rfl, hb⟩
    by_cases hle : m.unread.length ≤ n
    · obtain ⟨htaken, hleft, hbounded⟩ := ih (n := n - m.unread.length) hrest
      have hmin : min (m.data.length - m.consumed) n = m.unread.length := by
        rw [length_unread] at *
        omega
      rw [if_pos ((consumed_iff hm n).mpr hle), if_pos hle, take_unread, take_of_length_le hle,
        hmin]
      exact ⟨congrArg (m.unread ++ ·) htaken, hleft, hbounded⟩
    · rw [if_neg (mt (consumed_iff hm n).mp hle), if_neg hle, take_unread]
      refine ⟨rfl, ?_, ?_⟩
      · rw [map_cons, unread_consume hle]
      · rintro b (_ | ⟨_, h⟩)
        · show m.consumed + min (m.data.length - m.consumed) n ≤ m.data.length
          omega
        · exact hrest b h

theorem drainBuffers_eq (mode : Mode) (n : Nat) (hb : Bounded buffers) :
    ((drainBuffers mode n buffers).1,
        decide ((drainBuffers mode n buffers).2.1 = statusBufferOverflow)) =
        readResult mode n (buffers.map Buffer.unread) ∧
      (drainBuffers mode n buffers).2.2.map Buffer.unread =
        readRest mode n (buffers.map Buffer.unread) ∧
      Bounded (drainBuffers mode n buffers).2.2 ∧ Transfers (drainBuffers mode n buffers).2.1 := by
  cases mode with
  | bytes =>
    obtain ⟨htaken, hleft, hbounded⟩ := drainBytes_eq (n := n) hb
    exact ⟨Prod.ext htaken rfl, hleft, hbounded, .inl rfl⟩
  | message =>
    obtain ⟨htaken, hstatus, hleft, hbounded⟩ := drainMessage_eq (n := n) hb
    refine ⟨Prod.ext htaken ?_, hleft, hbounded, ?_⟩
    · show decide ((drainMessage n buffers).2.1 = statusBufferOverflow) = _
      rw [hstatus, readResult]
      cases (readMessage n (buffers.map Buffer.unread)).2.1 <;> rfl
    · show Transfers (drainMessage n buffers).2.1
      rw [hstatus]
      cases (readMessage n (buffers.map Buffer.unread)).2.1
      · exact .inl rfl
      · exact .inr rfl

theorem npfsReadDrain_eq (hb : Bounded (s.queue e.incoming).bufferList)
    (h : npfsReadDrain s e n = .ok (s', result)) :
    (result.data, decide (result.status = statusBufferOverflow)) =
        readResult (s.ends e).readMode n (s.queue e.incoming).unread ∧
      Transfers result.status ∧
      (s'.queue e.incoming).unread = readRest (s.ends e).readMode n (s.queue e.incoming).unread ∧
      Bounded (s'.queue e.incoming).bufferList ∧
      (s'.queue e.incoming).bytesAvailable + result.data.length =
        (s.queue e.incoming).bytesAvailable := by
  obtain ⟨hresult, hrest, hbounded, htransfers⟩ := drainBuffers_eq (s.ends e).readMode n hb
  simp only [npfsReadDrain] at h
  split at h
  · cases h
  rename_i hle
  cases h
  refine ⟨hresult, htransfers, ?_, ?_, ?_⟩
  · simpa [Instance.setQueue, Instance.keSetEvent, Queue.unread] using hrest
  · simpa [Instance.setQueue, Instance.keSetEvent] using hbounded
  · simp only [Instance.setQueue, Instance.keSetEvent, Function.update_self]
    omega

/-! ## Logs -/

def Event.entry? (d : Direction) (c : Nat) : Event → Option (Entry Octet)
  | .accepted r c' data => if r.file.outgoing = d ∧ c' = c then some (.accepted data) else none
  | .completed r c' mode result =>
    if r.file.incoming = d ∧ c' = c ∧ r.verb.reads = true ∧ Transfers result.status then
      some (.delivered mode r.length result.data (result.status = statusBufferOverflow))
    else none

def log (d : Direction) (c : Nat) (trace : List Event) : List (Entry Octet) :=
  trace.filterMap (Event.entry? d c)

structure Books (s : Instance) : Prop where
  bounded : ∀ d, Bounded (s.queue d).bufferList
  bytesAvailable : ∀ d, (s.queue d).bytesAvailable = (s.queue d).unread.flatten.length % ulong
  faithful : ∀ d c, Faithful (log d c s.trace)
  current : s.state = .connected ∨ s.state = .closing → s.openEnds ≠ [] →
    ∀ d, (s.queue d).unread = remaining (log d s.connection s.trace)
  idle : ¬ (s.state = .connected ∨ s.state = .closing) ∨ s.openEnds = [] →
    ∀ d, (s.queue d).bufferList = []
  later : ∀ d c, s.connection < c → log d c s.trace = []
  whole : s.pipeType = .message → ∀ r c data, .accepted r c data ∈ s.trace → data = r.data

theorem Initial.books (h : Initial s) : Books s where
  bounded d := by
    rw [(h.queue d).1]
    nofun
  bytesAvailable d := by
    rw [Queue.unread, (h.queue d).1, (h.queue d).2.1]
    rfl
  faithful d c := by
    rw [h.trace]
    trivial
  current hstate := by
    rw [h.state] at hstate
    rcases hstate with h | h <;> cases h
  idle _ d := (h.queue d).1
  later d c _ := by
    rw [h.trace]
    rfl
  whole _ r c data hmem := by
    rw [h.trace] at hmem
    cases hmem

theorem Books.congr (hs : Books s) (hqueue : s'.queue = s.queue)
    (htrace : ∀ d c, log d c s'.trace = log d c s.trace)
    (haccepted : ∀ r c data, .accepted r c data ∈ s'.trace → .accepted r c data ∈ s.trace)
    (hstate : s'.state = .connected ∨ s'.state = .closing ↔ s.state = .connected ∨ s.state = .closing)
    (hopen : s'.openEnds = s.openEnds) (hconnection : s'.connection = s.connection)
    (htype : s'.pipeType = s.pipeType) : Books s' := by
  refine ⟨?_, ?_, fun d c => ?_, ?_, ?_, ?_, ?_⟩
  · rw [hqueue]; exact hs.bounded
  · rw [hqueue]; exact hs.bytesAvailable
  · rw [htrace]; exact hs.faithful d c
  · rw [hstate, hopen, hqueue, hconnection]
    simp only [htrace]
    exact hs.current
  · rw [hstate, hopen, hqueue]; exact hs.idle
  · rw [hconnection]
    simp only [htrace]
    exact hs.later
  · rw [htype]
    exact fun h r c data hmem => hs.whole h r c data (haccepted r c data hmem)

theorem Books.answer (hs : Books s) (h : r.verb.reads = true → ¬ Transfers result.status) :
    Books (s.complete r result) := by
  refine hs.congr rfl (fun d c => ?_) (fun r c data hmem => ?_) Iff.rfl rfl rfl rfl
  · rw [log, Instance.complete, filterMap_cons, Event.entry?, if_neg]
    · rfl
    · rintro ⟨-, -, hreads, htransfers⟩
      exact h hreads htransfers
  · rcases mem_cons.mp hmem with h | h
    · cases h
    · exact h

theorem Books.answerAll {status : NtStatus} {l : List Request} (hs : Books s)
    (h : ∀ r ∈ l, r.verb.reads = true → ¬ Transfers status) : Books (completeAll status l s) := by
  induction l generalizing s with
  | nil => exact hs
  | cons r rest ih =>
    rw [completeAll]
    exact ih (hs.answer (h r mem_cons_self)) fun q hq => h q (.tail _ hq)

theorem log_cons {event : Event} {trace : List Event} :
    log d c (event :: trace) = (event.entry? d c).toList ++ log d c trace := by
  rw [log, filterMap_cons]
  cases event.entry? d c <;> rfl

theorem unread_append {q : Queue} {data : List Octet} {bytes : Nat} :
    Queue.unread { q with bufferList := q.bufferList ++ [⟨data, 0⟩], bytesAvailable := bytes } =
      q.unread ++ [data] := by
  simp [Queue.unread, Buffer.unread]

theorem Books.accept {data : List Octet} (hs : Books s) (hconnected : s.state = .connected)
    (hopen : s.openEnds ≠ []) (hwhole : s.pipeType = .message → data = r.data) :
    Books (accept s r data) := by
  have hqueue (d : Direction) : (Npfs.accept s r data).queue d =
      if r.file.outgoing = d then
        { s.queue d with
          bufferList := (s.queue d).bufferList ++ [⟨data, 0⟩]
          bytesAvailable := ((s.queue d).bytesAvailable + data.length) % ulong }
      else s.queue d := by
    by_cases hd : r.file.outgoing = d
    · subst hd
      simp [Npfs.accept, Instance.setQueue]
    · simp [Npfs.accept, Instance.setQueue, hd, Function.update_of_ne (Ne.symm hd)]
  have hlog (d : Direction) (c : Nat) : log d c (Npfs.accept s r data).trace =
      (if r.file.outgoing = d ∧ s.connection = c then [.accepted data] else []) ++
        log d c s.trace := by
    rw [Npfs.accept, log_cons, Event.entry?]
    split <;> rfl
  refine ⟨fun d => ?_, fun d => ?_, fun d c => ?_, fun _ _ d => ?_, fun h => ?_, fun d c hc => ?_,
    fun htype r' c' data' hmem => ?_⟩
  · rw [hqueue]
    split
    · intro b hb
      rcases mem_append.mp hb with hb | hb
      · exact hs.bounded d b hb
      · obtain rfl := mem_singleton.mp hb
        exact Nat.zero_le _
    · exact hs.bounded d
  · rw [hqueue]
    split
    · rw [unread_append, flatten_append, length_append]
      show ((s.queue d).bytesAvailable + data.length) % ulong = _
      rw [hs.bytesAvailable d, Nat.mod_add_mod]
      simp
    · exact hs.bytesAvailable d
  · rw [hlog]
    split <;> exact hs.faithful d c
  · rw [hqueue, hlog]
    have hremaining := hs.current (.inl hconnected) hopen d
    by_cases hd : r.file.outgoing = d
    · rw [if_pos hd, if_pos ⟨hd, rfl⟩, unread_append, hremaining]
      rfl
    · rw [if_neg hd, if_neg fun h => hd h.1, hremaining]
      rfl
  · rcases h with h | h
    · exact absurd (.inl hconnected) h
    · exact absurd h hopen
  · have hc : s.connection < c := hc
    rw [hlog, if_neg fun h => by omega, hs.later d c hc]
    rfl
  · rcases mem_cons.mp hmem with h | h
    · cases h
      exact hwhole htype
    · exact hs.whole htype r' c' data' h

theorem mod_sub_of_le {total taken rest : Nat} (htotal : taken + rest = total)
    (hle : taken ≤ total % ulong) : rest % ulong = total % ulong - taken := by
  rw [ulong] at *
  omega

theorem Books.drain (hs : Books s) (hreads : r.verb.reads = true)
    (hne : (s.queue r.file.incoming).bufferList ≠ [])
    (hdrain : npfsReadDrain s r.file r.length = .ok (s', result)) :
    Books (s'.complete r result) := by
  obtain ⟨hframe, -, htrace, hother⟩ := npfsReadDrain_frame hdrain
  obtain ⟨hresult, htransfers, hrest, hbounded, hbytes⟩ := npfsReadDrain_eq (hs.bounded _) hdrain
  have hlog (d : Direction) (c : Nat) : log d c (s'.complete r result).trace =
      (if r.file.incoming = d ∧ s.connection = c then
        [.delivered (s.ends r.file).readMode r.length result.data
          (result.status = statusBufferOverflow)] else []) ++ log d c s.trace := by
    rw [Instance.complete, log_cons, Event.entry?, htrace, hframe.connection, hframe.ends]
    by_cases hd : r.file.incoming = d ∧ s.connection = c
    · rw [if_pos ⟨hd.1, hd.2, hreads, htransfers⟩, if_pos hd]
      rfl
    · rw [if_neg fun h => hd ⟨h.1, h.2.1⟩, if_neg hd]
      rfl
  have hactive : (s.state = .connected ∨ s.state = .closing) ∧ s.openEnds ≠ [] := by
    by_contra hnot
    rw [not_and_or, not_not] at hnot
    exact hne (hs.idle hnot _)
  have hcurrent := hs.current hactive.1 hactive.2
  have hqueue (d : Direction) : (s'.complete r result).queue d = s'.queue d := rfl
  refine ⟨fun d => ?_, fun d => ?_, fun d c => ?_, fun _ _ d => ?_, fun h => ?_, fun d c hc => ?_,
    fun htype r' c' data' hmem => ?_⟩
  · by_cases hd : d = r.file.incoming
    · subst hd
      exact hbounded
    · rw [hqueue, hother d hd]
      exact hs.bounded d
  · by_cases hd : d = r.file.incoming
    · subst hd
      have hsplit := readResult_append_flatten (s.ends r.file).readMode r.length
        (s.queue r.file.incoming).unread
      rw [← hresult, ← hrest] at hsplit
      have hlength : result.data.length + (s'.queue r.file.incoming).unread.flatten.length =
          (s.queue r.file.incoming).unread.flatten.length := by rw [← hsplit, length_append]
      have hold := hs.bytesAvailable r.file.incoming
      rw [hqueue, mod_sub_of_le hlength (by omega)]
      omega
    · rw [hqueue, hother d hd]
      exact hs.bytesAvailable d
  · rw [hlog]
    split
    · rename_i hd
      obtain ⟨rfl, rfl⟩ := hd
      rw [singleton_append, Faithful, ← hcurrent]
      exact ⟨by simpa [Queue.unread] using hne, hresult, hs.faithful _ _⟩
    · exact hs.faithful d c
  · rw [hlog, hqueue]
    show (s'.queue d).unread = remaining (_ ++ log d s'.connection _)
    rw [hframe.connection]
    by_cases hd : r.file.incoming = d
    · subst hd
      rw [if_pos ⟨rfl, by exact hframe.connection.symm⟩, hrest, hcurrent]
      rfl
    · rw [if_neg fun h => hd h.1, hother d (Ne.symm hd), hcurrent]
      rfl
  · refine absurd ?_ (not_or.mpr ⟨not_not.mpr hactive.1, hactive.2⟩)
    rw [← hframe.state, ← hframe.openEnds]
    exact h
  · have hc : s.connection < c := by
      rw [← hframe.connection]
      exact hc
    rw [hlog, if_neg fun h => by omega, hs.later d c hc]
    rfl
  · rcases mem_cons.mp hmem with h | h
    · cases h
    · refine hs.whole (hframe.pipeType ▸ htype) r' c' data' ?_
      rw [← htrace]
      exact h

theorem Books.of_connect {synchronousIo : Bool} (hs : Books s) (hstate : s.state = .listening) :
    Books (connect s synchronousIo) := by
  have hidle := hs.idle (.inl (by rw [hstate]; nofun))
  refine ⟨hs.bounded, hs.bytesAvailable, hs.faithful, fun _ _ d => ?_, fun h => ?_, fun d c hc => ?_,
    hs.whole⟩
  · show (s.queue d).unread = remaining (log d (s.connection + 1) s.trace)
    rw [Queue.unread, hidle d, hs.later d _ (Nat.lt_succ_self _)]
    rfl
  · rcases h with h | h
    · exact absurd (.inl rfl) h
    · cases h
  · have hc : s.connection + 1 < c := hc
    exact hs.later d c (by omega)

theorem flushed_queue (s : Instance) (d : Direction) :
    (npfsFlushQueue (npfsFlushQueue s .inbound) .outbound).queue d =
      { s.queue d with bufferList := [], bytesAvailable := 0 } := by
  cases d <;> simp [npfsFlushQueue, Instance.setQueue]

theorem Books.flush (hs : Books s) (hqueue : ∀ d, s'.queue d =
      { s.queue d with bufferList := [], bytesAvailable := 0 })
    (htrace : s'.trace = s.trace) (hconnection : s'.connection = s.connection)
    (htype : s'.pipeType = s.pipeType)
    (hidle : ¬ (s'.state = .connected ∨ s'.state = .closing) ∨ s'.openEnds = []) : Books s' := by
  refine ⟨fun d => ?_, fun d => ?_, ?_, fun hactive hopen => ?_, fun _ d => ?_, ?_, ?_⟩
  · rw [hqueue]
    nofun
  · rw [hqueue]
    rfl
  · rw [htrace]
    exact hs.faithful
  · rcases hidle with h | h
    · exact absurd hactive h
    · exact absurd h hopen
  · rw [hqueue]
  · rw [hconnection, htrace]
    exact hs.later
  · rw [htype, htrace]
    exact hs.whole

theorem Books.of_free (hs : Books s) : Books (freeEnd s e) := by
  obtain ⟨hstate, -, -, -, hconnection, hopen, -, -, -, -, htrace, htype⟩ := freeEnd_frame s e
  by_cases hnil : s.openEnds.erase e = []
  · refine hs.flush (fun d => ?_) htrace hconnection htype (.inr (hopen.trans hnil))
    simp only [freeEnd, hnil, if_true]
    exact flushed_queue _ d
  · have hqueue : (freeEnd s e).queue = s.queue := by simp only [freeEnd, if_neg hnil]
    have hne : s.openEnds ≠ [] := by
      rintro h
      rw [h] at hnil
      exact hnil rfl
    refine ⟨?_, ?_, ?_, fun hactive _ => ?_, fun h => ?_, ?_, ?_⟩
    · rw [hqueue]; exact hs.bounded
    · rw [hqueue]; exact hs.bytesAvailable
    · rw [htrace]; exact hs.faithful
    · rw [hqueue, hconnection, htrace]
      exact hs.current (by rwa [hstate] at hactive) hne
    · rw [hqueue]
      rw [hstate, hopen] at h
      rcases h with h | h
      · exact hs.idle (.inl h)
      · exact absurd h hnil
    · rw [hconnection, htrace]; exact hs.later
    · rw [htype, htrace]; exact hs.whole

theorem leave_active : (leave s e).state = .connected ∨ (leave s e).state = .closing ↔
    s.state = .connected ∨ s.state = .closing := by
  rw [leave_state]
  split
  · rename_i h
    exact ⟨fun _ => .inl h.2, fun _ => .inr rfl⟩
  · exact Iff.rfl

theorem Books.effect (h : Effect allows hand s hand' s') (hsound : Sound hand s) (hs : Books s) :
    Books s' := by
  cases h with
  | issue | resume | wake | park | pend | pendListen | setModes => exact { hs with }
  | append _ hwritable _ hwhole =>
    have hconnected := (npfsCheckWritableState_connected hwritable).1
    have hserver := hsound.linked.serverOpen (hsound.linked.connected hconnected).1
    exact hs.accept hconnected (ne_nil_of_mem hserver) hwhole
  | drain hreads hready hdrain => exact hs.drain hreads (npfsReadReady_success hready).1 hdrain
  | serve hfirst hready hdrain =>
    have hreads := (hsound.ordered.reads _ (mem_of_pendingOn hfirst)).1
    exact { hs.drain hreads (npfsReadReady_success hready).1 hdrain with }
  | @fail _ _ r _ _ _ _ hnot =>
    have hs' : Books { s with pendingReads := s.pendingReads.erase r } := { hs with }
    exact hs'.answer fun _ => hnot
  | finish _ hnot => exact hs.answer hnot
  | cancelReads drop =>
    have hs' : Books { s with pendingReads := s.pendingReads.filter fun r => !drop r } := { hs with }
    exact hs'.answerAll fun _ _ _ => by decide
  | answerListens status drop =>
    have hs' : Books { s with pendingListens := s.pendingListens.filter fun r => !drop r } :=
      { hs with }
    refine hs'.answerAll fun r hr hreads => ?_
    rw [hsound.ordered.listens r (mem_filter.mp hr).1] at hreads
    cases hreads
  | connect _ _ hstate => exact hs.of_connect hstate
  | relisten hstate =>
    refine hs.congr rfl (fun _ _ => rfl) (fun _ _ _ h => h) ?_ rfl rfl rfl
    rw [hstate]
    simp
  | throwOut =>
    obtain ⟨-, htype, -, htrace, -, hconnection⟩ := throwOut_parked (s := s)
    refine hs.flush (fun d => ?_) htrace hconnection htype (.inl nofun)
    rw [← flushed_queue s d, throwOut, orphanClient]
    split <;> rfl
  | leave e =>
    obtain ⟨hconnection, hopen, hqueue, htrace, -, -, htype⟩ := leave_frame s e
    refine hs.congr hqueue (fun _ _ => by rw [htrace]) (fun _ _ _ h => ?_) leave_active hopen
      hconnection htype
    rwa [htrace] at h
  | free => exact hs.of_free

theorem RunWith.books {s₀ : Instance} (h₀ : Initial s₀) (h : RunWith allows s₀ s) :
    Settled s ∧ Sound [] s ∧ Books s := by
  obtain ⟨heffects, hsettled, hsound⟩ := h.effects h₀
  refine ⟨hsettled, hsound, ?_⟩
  have hboth := heffects.preserves (P := fun hand s => Sound hand s ∧ Books s)
    (fun heffect hs => ⟨hs.1.effect heffect, hs.2.effect heffect hs.1⟩) ⟨h₀.sound, h₀.books⟩
  exact hboth.2

/-! ## Peeking -/

theorem peekCopy_eq :
    peekCopy n buffers = (buffers.map Buffer.unread).flatten.take n := by
  induction buffers generalizing n with
  | nil => simp [peekCopy]
  | cons b rest ih =>
    have hmin : n - min (b.data.length - b.consumed) n = n - b.unread.length := by
      rw [length_unread]
      omega
    simp only [peekCopy, map_cons, flatten_cons, take_append, ih]
    rw [take_unread, hmin]
    split
    · rename_i h
      rw [h]
      simp
    · rfl

theorem peekQueue_bytes (htype : s.pipeType = .bytes)
    (hbytes : (s.queue e.incoming).bytesAvailable = (s.queue e.incoming).unread.flatten.length) :
    peekQueue s e n = .ok (statusSuccess, some ⟨(s.queue e.incoming).bytesAvailable, 0,
      (s.queue e.incoming).unread.flatten.take n⟩) := by
  have hcopy : peekCopy (min n (s.queue e.incoming).bytesAvailable) (s.queue e.incoming).bufferList =
      (s.queue e.incoming).unread.flatten.take n := by
    rw [peekCopy_eq, hbytes, ← take_take, Queue.unread, take_length]
  have hlength : ((s.queue e.incoming).unread.flatten.take n).length =
      min n (s.queue e.incoming).bytesAvailable := by rw [length_take, hbytes]
  simp only [peekQueue, htype, reduceCtorEq, and_false, if_false, hcopy, hlength, ne_eq,
    not_true_eq_false, gt_iff_lt, Nat.not_lt_zero]

theorem peekQueue_message {rest : List Buffer} (htype : s.pipeType = .message)
    (hlist : (s.queue e.incoming).bufferList = b :: rest)
    (hbytes : (s.queue e.incoming).bytesAvailable = (s.queue e.incoming).unread.flatten.length) :
    ∃ messageLength, peekQueue s e n =
      .ok (if b.unread.length ≤ n then statusSuccess else statusBufferOverflow,
        some ⟨(s.queue e.incoming).bytesAvailable, messageLength, b.unread.take n⟩) := by
  have hunread : (s.queue e.incoming).unread = b.unread :: rest.map Buffer.unread := by
    rw [Queue.unread, hlist, map_cons]
  have hle : b.unread.length ≤ (s.queue e.incoming).bytesAvailable := by
    rw [hbytes, hunread, flatten_cons, length_append]
    omega
  by_cases hzero : (s.queue e.incoming).bytesAvailable = 0
  · -- nothing but empty messages is queued
    have hnil : b.unread = [] := eq_nil_of_length_eq_zero (by omega)
    refine ⟨0, ?_⟩
    simp [peekQueue, hzero, hlist, peekCopy, hnil]
  · refine ⟨b.unread.length, ?_⟩
    have hcapacity : min (min n (s.queue e.incoming).bytesAvailable) b.unread.length =
        min n b.unread.length := by omega
    have hcopy : peekCopy (min n b.unread.length) (b :: rest) = b.unread.take n := by
      rw [peekCopy_eq, map_cons, flatten_cons, take_append_of_le_length (by omega),
        ← take_take, take_length]
    simp only [peekQueue, htype, hlist, hzero, ← length_unread, ne_eq, not_false_eq_true, and_self,
      if_true, hcapacity, hcopy, length_take, not_true_eq_false, if_false]
    congr 2
    by_cases hn : b.unread.length ≤ n
    · rw [if_pos hn, if_neg (by omega)]
    · rw [if_neg hn, if_pos (by omega)]

theorem npfsPeek_eq_peekQueue (hpipe : (s.ends e).pipe = true)
    (hactive : s.state = .connected ∨ s.state = .closing)
    (hne : (s.queue e.incoming).bufferList ≠ []) :
    npfsPeek s e (peekFixed + n) = peekQueue s e n := by
  rw [npfsPeek, if_neg (by omega), hpipe, Nat.add_sub_cancel_left]
  rcases hactive with h | h
  · simp [h]
  · simp [h, hne]

section
variable (hb : Bounded (s.queue e.incoming).bufferList)
  (hbytes : (s.queue e.incoming).bytesAvailable = (s.queue e.incoming).unread.flatten.length)
include hb hbytes

theorem npfsReadDrain_ok :
    ∃ s' result, npfsReadDrain s e n = .ok (s', result) := by
  obtain ⟨hresult, -⟩ := drainBuffers_eq (s.ends e).readMode n hb
  have hle : (drainBuffers (s.ends e).readMode n (s.queue e.incoming).bufferList).1.length ≤
      (s.queue e.incoming).bytesAvailable := by
    have hsplit := readResult_append_flatten (s.ends e).readMode n (s.queue e.incoming).unread
    rw [Queue.unread, ← hresult] at hsplit
    rw [hbytes, Queue.unread, ← hsplit, length_append]
    exact Nat.le_add_right ..
  simp only [npfsReadDrain]
  rw [if_neg (by omega)]
  exact ⟨_, _, rfl⟩

theorem npfsPeek_eq_drain
    (hmode : (s.ends e).readMode = s.pipeType) (hpipe : (s.ends e).pipe = true)
    (hactive : s.state = .connected ∨ s.state = .closing)
    (hne : (s.queue e.incoming).bufferList ≠ [])
    (hdrain : npfsReadDrain s e n = .ok (s', result)) :
    ∃ buffer, npfsPeek s e (peekFixed + n) = .ok (result.status, some buffer) ∧
      buffer.data = result.data := by
  obtain ⟨hresult, htransfers, -⟩ := npfsReadDrain_eq hb hdrain
  rw [npfsPeek_eq_peekQueue hpipe hactive hne]
  cases htype : s.pipeType with
  | bytes =>
    rw [hmode, htype, readResult, readBytes_eq_take] at hresult
    have hstatus : result.status = statusSuccess := by
      have hnot : ¬ result.status = statusBufferOverflow :=
        of_decide_eq_false (congrArg Prod.snd hresult)
      exact htransfers.resolve_right hnot
    rw [peekQueue_bytes htype hbytes, hstatus]
    exact ⟨_, rfl, (congrArg Prod.fst hresult).symm⟩
  | message =>
    cases hlist : (s.queue e.incoming).bufferList with
    | nil => exact absurd hlist hne
    | cons b rest =>
      obtain ⟨messageLength, hpeek⟩ := peekQueue_message (n := n) htype hlist hbytes
      rw [hmode, htype, readResult, Queue.unread, hlist, map_cons, readMessage] at hresult
      refine ⟨⟨(s.queue e.incoming).bytesAvailable, messageLength, b.unread.take n⟩, hpeek.trans ?_, ?_⟩
      · by_cases hle : b.unread.length ≤ n
        · rw [if_pos hle] at hresult ⊢
          have hnot : ¬ result.status = statusBufferOverflow :=
            of_decide_eq_false (congrArg Prod.snd hresult)
          rw [htransfers.resolve_right hnot]
        · rw [if_neg hle] at hresult ⊢
          have hover : result.status = statusBufferOverflow :=
            of_decide_eq_true (congrArg Prod.snd hresult)
          rw [hover]
      · show b.unread.take n = result.data
        have hdata := congrArg Prod.fst hresult
        by_cases hle : b.unread.length ≤ n
        · rw [if_pos hle] at hdata
          exact (take_of_length_le hle).trans hdata.symm
        · rw [if_neg hle] at hdata
          exact hdata.symm

end

/-! ## Delivery -/

structure Delivers (s : Instance) : Prop where
  /-- Reads get what writes gave, in the order in which it was accepted. -/
  ordered : ∀ d c, deliveredBytes (log d c s.trace) <+: (acceptedMessages (log d c s.trace)).flatten
  /-- What was accepted and not read is queued, until the connection or the instance ends. -/
  complete : s.state = .connected ∨ s.state = .closing → s.openEnds ≠ [] → ∀ d,
    deliveredBytes (log d s.connection s.trace) ++ (s.queue d).unread.flatten =
      (acceptedMessages (log d s.connection s.trace)).flatten
  /-- A pipe of messages accepts what a request writes as one message. -/
  whole : s.pipeType = .message → ∀ r c data, .accepted r c data ∈ s.trace → data = r.data
  /-- Reads by message give back the messages with their boundaries. -/
  boundaries : ∀ d c, ByMessage (log d c s.trace) →
    (assembled (log d c s.trace)).1 ++
        resumed (assembled (log d c s.trace)).2 (remaining (log d c s.trace)) =
      acceptedMessages (log d c s.trace)
  /-- The count of a queue is what is unread, as long as a `ULONG` holds it. -/
  bytesAvailable : ∀ d, (s.queue d).unread.flatten.length < ulong →
    (s.queue d).bytesAvailable = (s.queue d).unread.flatten.length
  /-- Every request is outstanding or was answered, and once. -/
  once : ((outstanding s ++ answered s.trace).map Request.id).Perm (List.range s.requests)
  /-- Asynchronous reads on an end are answered in the order in which they were made, -/
  inTurn : ∀ e, (served e s.trace).Pairwise fun q r => r.id < q.id
  /-- those that wait after those that were answered. -/
  waiting : ∀ e, ∀ q ∈ served e s.trace, ∀ r ∈ s.pendingOn e, q.id < r.id
  /-- No read waits while its queue holds something. -/
  notParked : ∀ r ∈ s.pendingReads, (s.queue r.file.incoming).bufferList = []
  /-- Where the read mode is the type of the pipe, a peek at what is queued shows what the next read
  gets. -/
  peek : ∀ e n prepare, (Op.read e n prepare).Enabled s → (s.ends e).pipe = true →
    (s.ends e).readMode = s.pipeType → (s.queue e.incoming).bufferList ≠ [] →
    (s.queue e.incoming).unread.flatten.length < ulong →
    ∃ s' result buffer, step (.read e n prepare) s = .ok s' ∧
      s'.trace = .completed (s.request e .read n []) s.connection s.pipeType result :: s.trace ∧
      npfsPeek s e (peekFixed + n) = .ok (result.status, some buffer) ∧ buffer.data = result.data
  /-- A peek changes nothing. -/
  peeking : ∀ e n s', step (.peek e n) s = .ok s' → s' = s

theorem Books.byteCount (hs : Books s) (h : (s.queue d).unread.flatten.length < ulong) :
    (s.queue d).bytesAvailable = (s.queue d).unread.flatten.length := by
  rw [hs.bytesAvailable, Nat.mod_eq_of_lt h]

theorem Books.peek {prepare : Prepare} (hs : Books s) (hsettled : Settled s)
    (hpipe : (s.ends e).pipe = true) (hmode : (s.ends e).readMode = s.pipeType)
    (hne : (s.queue e.incoming).bufferList ≠ [])
    (hsmall : (s.queue e.incoming).unread.flatten.length < ulong) :
    ∃ s' result buffer, step (.read e n prepare) s = .ok s' ∧
      s'.trace = .completed (s.request e .read n []) s.connection s.pipeType result :: s.trace ∧
      npfsPeek s e (peekFixed + n) = .ok (result.status, some buffer) ∧
      buffer.data = result.data := by
  have hactive : s.state = .connected ∨ s.state = .closing := by
    by_contra hnot
    exact hne (hs.idle (.inl hnot) _)
  have hahead : s.pendingOn e = [] := by
    refine eq_nil_iff_forall_not_mem.mpr fun q hq => hne ?_
    obtain ⟨hmem, rfl⟩ := mem_pendingOn.mp hq
    exact hsettled.queue hmem
  have hready : npfsReadReady s e false = statusSuccess := by
    rcases hactive with h | h <;> simp [npfsReadReady, npfsEndDisconnected, hpipe, h, hne]
  have hready : npfsReadReady s.issue e (s.issue.pendingOn e ≠ []) = statusSuccess := by
    show npfsReadReady s e (s.pendingOn e ≠ []) = statusSuccess
    rw [hahead]
    exact hready
  obtain ⟨s₁, result, hdrain⟩ := npfsReadDrain_ok (s := s.issue) (n := n) (hs.bounded _)
    (hs.byteCount hsmall)
  obtain ⟨buffer, hpeek, hdata⟩ := npfsPeek_eq_drain (s := s.issue) (hs.bounded _)
    (hs.byteCount hsmall) hmode hpipe hactive hne hdrain
  obtain ⟨hframe, -, htrace, -⟩ := npfsReadDrain_frame hdrain
  refine ⟨s₁.complete (s.request e .read n []) result, result, buffer, ?_, ?_, hpeek, hdata⟩
  · have hfile : (s.request e .read n []).file = e := rfl
    have hlength : (s.request e .read n []).length = n := rfl
    simp only [step, npfsAwaitRead, hfile, hlength]
    rw [if_pos hready, hdrain]
    rfl
  · rw [Instance.complete, htrace, hframe.connection, hframe.ends]
    show Event.completed _ s.connection (s.ends e).readMode result :: s.trace = _
    rw [hmode]

/-- For every state that an instance comes to, whatever its type, modes and quotas. -/
theorem pipe_delivers {s₀ : Instance} (h₀ : Initial s₀) (h : Run s₀ s) : Delivers s := by
  obtain ⟨hsettled, hsound, hbooks⟩ := h.runWith.books h₀
  exact {
    ordered := fun d c => (hbooks.faithful d c).deliveredBytes_start
    complete := fun hactive hopen d => by
      rw [hbooks.current hactive hopen d]
      exact (hbooks.faithful d _).deliveredBytes_append
    whole := hbooks.whole
    boundaries := fun d c hmessage => ((hbooks.faithful d c).assembled_append hmessage).1
    bytesAvailable := fun d => hbooks.byteCount
    once := hsound.accounted
    inTurn := hsound.ordered.served
    waiting := fun e q hq r hr =>
      hsound.ordered.ahead e q hq r (mem_pendingOn.mp hr).1 (mem_pendingOn.mp hr).2
    notParked := fun r hr => hsettled.queue hr
    peek := fun e n prepare _ hpipe hmode hne hsmall => hbooks.peek hsettled hpipe hmode hne hsmall
    peeking := fun e n s' hstep => by
      obtain ⟨_, -, rfl⟩ := map_eq_ok hstep
      rfl }

end

/-! ## A pipe -/

instance (op : Op) (s : Instance) : Decidable (op.Allowed allowsAll s) :=
  .isTrue (by cases op <;> trivial)

def runOps (allows : Allows) [∀ op s, Decidable (Op.Allowed allows s op)] :
    List Op → Instance → Option Instance
  | [], s => some s
  | op :: ops, s =>
    if op.Enabled s ∧ op.Allowed allows s then
      match step op s with
      | .ok s' => runOps allows ops s'
      | .error _ => none
    else none

theorem RunWith.ofOps {allows : Allows} [∀ op s, Decidable (Op.Allowed allows s op)] {ops : List Op}
    {s₀ s s' : Instance} (hs : RunWith allows s₀ s) (h : runOps allows ops s = some s') :
    RunWith allows s₀ s' := by
  induction ops generalizing s with
  | nil =>
    cases h
    exact hs
  | cons op ops ih =>
    rw [runOps] at h
    split at h
    · rename_i hop
      split at h
      · rename_i hstep
        exact ih (hs.step hop.1 hop.2 hstep) h
      · cases h
    · cases h

theorem RunWith.run {allows : Allows} {s₀ s : Instance} (h : RunWith allows s₀ s) : Run s₀ s := by
  induction h with
  | refl => exact .refl
  | step _ hop _ hstep ih => exact ih.step hop hstep

theorem Run.ofOps {ops : List Op} {s₀ s : Instance} (h : runOps allowsAll ops s₀ = some s) :
    Run s₀ s :=
  (RunWith.refl.ofOps h).run

def newPipe (pipeType : Mode) (quota : Nat) : Instance where
  queue _ := { quota }
  ends
    | .server => { pipe := true, handle := true, synchronousIo := true, readMode := pipeType }
    | .client _ => {}
  pipeType := pipeType

theorem newPipe_initial (pipeType : Mode) {quota : Nat} (h : quota ≠ 0) :
    Initial (newPipe pipeType quota) where
  state := rfl
  serverEnd := rfl
  clientEnd := rfl
  queue _ := ⟨rfl, rfl, rfl, h⟩
  server := ⟨rfl, rfl⟩
  clients _ := rfl
  openEnds := rfl
  pendingReads := rfl
  pendingListens := rfl
  parked := rfl
  connection := rfl
  requests := rfl
  trace := rfl

def twoMessages : List Op :=
  [.attach true true false 1, .write .server [1] 1, .write .server [2] 1]

/-- A client attaches and makes two asynchronous reads; the later one is cancelled. -/
def cancelLater : List Op :=
  [.attach true true false 1, .read (.client 1) 5 .prepared, .read (.client 1) 5 .prepared,
    .cancel (.client 1) [1]]

/-- A client makes an asynchronous read, and another after it chose not to wait. -/
def refuseLater : List Op :=
  [.attach true true false 1, .read (.client 1) 5 .prepared,
    .setPipeInfo (.client 1) statusSuccess .bytes .complete, .read (.client 1) 5 .prepared]

/-- A client that reads messages by bytes: the peek stops at the first message, and the read does not.
A later read is answered before an earlier one when it is cancelled, and when it is not to wait. -/
theorem peek_and_turns_differ :
    (∃ s s' buffer result, Run (newPipe .message 4096) s ∧
      npfsPeek s (.client 1) (peekFixed + 10) = .ok (statusSuccess, some buffer) ∧
      step (.read (.client 1) 10 .prepared) s = .ok s' ∧
      s'.trace.head? = some (.completed (s.request (.client 1) .read 10 []) 1 .bytes result) ∧
      buffer.data.map Octet.value = [1] ∧ result.data.map Octet.value = [1, 2]) ∧
    (∃ s, Run (newPipe .bytes 4096) s ∧ s.pendingReads.map Request.id = [0] ∧
      (answered s.trace).map Request.id = [1]) ∧
    ∃ s, Run (newPipe .bytes 4096) s ∧ s.pendingReads.map Request.id = [0] ∧
      ∃ r, s.trace = [.completed r 1 .bytes ⟨statusPipeEmpty, 0, []⟩] ∧ r.id = 1 := by
  refine ⟨?_, ?_, ?_⟩
  · obtain ⟨s, hs⟩ : ∃ s, runOps allowsAll twoMessages (newPipe .message 4096) = some s := ⟨_, rfl⟩
    have hrun : Run (newPipe .message 4096) s := Run.ofOps hs
    cases hs
    exact ⟨_, _, _, _, hrun, rfl, rfl, rfl, rfl, rfl⟩
  · obtain ⟨s, hs⟩ : ∃ s, runOps allowsAll cancelLater (newPipe .bytes 4096) = some s := ⟨_, rfl⟩
    have hrun : Run (newPipe .bytes 4096) s := Run.ofOps hs
    cases hs
    exact ⟨_, hrun, rfl, rfl⟩
  · obtain ⟨s, hs⟩ : ∃ s, runOps allowsAll refuseLater (newPipe .bytes 4096) = some s := ⟨_, rfl⟩
    have hrun : Run (newPipe .bytes 4096) s := Run.ofOps hs
    cases hs
    exact ⟨_, hrun, rfl, _, rfl, rfl⟩

/-- The server reads by message, on a pipe of messages, what the client wrote. -/
theorem pipe_delivers_sample : ∃ s,
    runOps allowsAll [.attach true true false 1, .write (.client 1) [7, 8] 1]
      (newPipe .message 4096) = some s ∧
    (s.queue .inbound).bytesAvailable = (s.queue .inbound).unread.flatten.length := by
  obtain ⟨s, hs, hsmall⟩ : ∃ s,
      runOps allowsAll [.attach true true false 1, .write (.client 1) [7, 8] 1]
        (newPipe .message 4096) = some s ∧ (s.queue .inbound).unread.flatten.length < ulong :=
    ⟨_, rfl, by decide⟩
  have hrun : Run (newPipe .message 4096) s := Run.ofOps hs
  exact ⟨s, hs, (pipe_delivers (newPipe_initial .message (by decide)) hrun).bytesAvailable .inbound
    hsmall⟩

end Proskrnl.Npfs
