import Spcedp.Analysis.Handler
import Spcedp.Analysis.Tracking

/-!
# What goes out on the wire

The writer gives the socket the frames that were queued, in this order, each of them once: only a
write that fails can lose one, and the writer is at its end then (`fifo_of_reachable`). Each is
one whole frame, which the key of the connection decodes, and no other: with a key nothing goes
out in the clear (`written_on_wire`).
-/

set_option autoImplicit false

namespace Spcedp.Client.Handler

open Lib.Transition Spcedp.Wire

/-! ## First in, first out -/

/-- The frames queued so far are those written, one that a failed write has lost, and those
still on the queue. -/
def Fifo (h : Handler) : Prop :=
  ∃ lost, queuedData h.sess.log = h.written ++ lost ++ h.sess.writeQueue ∧
    (lost = [] ∨ ∃ data e, lost = [data] ∧ h.writer.ended = some e ∧ e ≠ .cancelled)

section Steps

variable {env : Env} {server : PanelServer} {h h' : Handler} {a : HandlerAction}

/-- On a new connection nothing is queued. -/
theorem fifo_accept (now : ℚ) : (server.accept now).Fifo := ⟨[], rfl, .inl rfl⟩

/-- Nothing is lost while the writer runs. -/
theorem Fifo.running (hfifo : h.Fifo) (hnone : h.writer.ended = none) :
    queuedData h.sess.log = h.written ++ h.sess.writeQueue := by
  obtain ⟨lost, hqueued, rfl | ⟨data, e, -, he, -⟩⟩ := hfifo
  · rw [hqueued, List.append_nil]
  · rw [hnone] at he
    cases he

/-- **Every step** keeps the order of the frames. -/
theorem fifo_step (ho : Orderly env server h) (hfifo : h.Fifo)
    (hstep : h.step server env a = some h') : h'.Fifo := by
  obtain ⟨hadds, hwritten⟩ | ⟨data, rest, hqueue, hnone, hcancel, hsess, hout⟩ :=
    step_adds ho hstep
  · obtain ⟨lost, hqueued, hlost⟩ := hfifo
    obtain ⟨new, hlog, hqueue, -⟩ := hadds.queued
    refine ⟨lost, ?_, hlost.imp_right ?_⟩
    · rw [hlog, queuedData_append, hqueued, hwritten, hqueue, List.append_assoc]
    · rintro ⟨data, e, hdata, he, hne⟩
      exact ⟨data, e, hdata, (step_ended hstep).1 e he, hne⟩
  · have hqueued := hfifo.running hnone
    rw [hqueue] at hqueued
    unfold Fifo
    rw [hsess]
    obtain ⟨hwritten, -⟩ | ⟨hwritten, fault, hwriter⟩ := hout
    · refine ⟨[], ?_, .inl rfl⟩
      rw [hwritten, List.append_nil, List.append_assoc]
      exact hqueued
    · refine ⟨[data], ?_, .inr ⟨data, fault.end, rfl, ?_, ?_⟩⟩
      · rw [hwritten, List.append_assoc]
        exact hqueued
      · rw [hwriter]
        rfl
      · cases fault <;> decide

/-! ## What is in the history -/

/-- The history of a connection tells of frames that were encoded. -/
theorem entered_step (ho : Orderly env server h) (hentered : Entered env server.key.val h.sess.log)
    (hstep : h.step server env a = some h') : Entered env server.key.val h'.sess.log := by
  obtain ⟨hadds, -⟩ | ⟨data, rest, -, -, -, hsess, -⟩ := step_adds ho hstep
  · obtain ⟨new, hlog, -, hnew⟩ := hadds.queued
    have hkey : h.sess.key = server.key.val := ho.conn.key
    rw [hlog]
    exact hentered.append (hkey ▸ hnew)
  · rw [hsess]
    exact hentered

/-- **The queue, the history and the tasks** in every state that is reached. -/
theorem fifo_of_reachable {now : ℚ}
    (hreach : Reachable (Handler.step server env) (server.accept now) h) :
    Orderly env server h ∧ h.Fifo ∧ Entered env server.key.val h.sess.log := by
  refine hreach.invariant (I := fun h => Orderly env server h ∧ h.Fifo ∧
    Entered env server.key.val h.sess.log) ?_ ⟨orderly_accept now, fifo_accept now,
      entered_of_not_queued (by simp [PanelServer.accept, sess, PanelServer.connect, World.new])⟩
  rintro h a h' ⟨ho, hfifo, hentered⟩ hstep
  exact ⟨orderly_step ho hstep, fifo_step ho hfifo hstep, entered_step ho hentered hstep⟩

/-- **The frames dispatched** all came from the wire. -/
theorem dispatched_fromWire {now : ℚ}
    (hreach : Reachable (Handler.step server env) (server.accept now) h) :
    ∀ f ∈ dispatchedFrames h.sess.log, FromWire f := by
  suffices hall : Orderly env server h ∧ ∀ f ∈ dispatchedFrames h.sess.log, FromWire f from hall.2
  refine hreach.invariant (I := fun h => Orderly env server h ∧
    ∀ f ∈ dispatchedFrames h.sess.log, FromWire f) ?_
      ⟨orderly_accept now, fun _ hf => absurd hf List.not_mem_nil⟩
  rintro h a h' ⟨ho, hfrom⟩ hstep
  refine ⟨orderly_step ho hstep, (step_world (I := fun w => Inv w ∧
    ∀ f ∈ dispatchedFrames w.sess.log, FromWire f) ?_ ?_ ho hstep ⟨ho.conn.inv, hfrom⟩).2⟩
  · rintro w b w' ⟨hinv, hfrom⟩ hwire - - hb
    obtain ⟨-, new, hlog, hrec⟩ := step_records hinv hb
    refine ⟨inv_step hinv hb, fun f hf => ?_⟩
    rw [hlog, dispatchedFrames_append, List.mem_append] at hf
    obtain hf | hf := hf
    · exact hfrom f hf
    · -- only a dispatched frame is entered as one
      cases hrec with
      | nothing => cases hf
      | ticked => cases hf
      | requested => cases hf
      | received =>
          obtain rfl := List.mem_singleton.mp hf
          exact hwire _ rfl
      | acked =>
          obtain rfl := List.mem_singleton.mp hf
          exact hwire _ rfl
  · rintro w panelId new ⟨hinv, hfrom⟩ hnew
    refine ⟨inv_relabel hinv panelId _, fun f hf => ?_⟩
    have hnone : dispatchedFrames new = [] := by
      refine List.filterMap_eq_nil_iff.mpr fun e he => ?_
      rw [hnew e he]
    rw [dispatchedFrames_append, hnone, List.append_nil] at hf
    exact hfrom f hf

end Steps

/-! ## On the wire -/

/-- What `data` is to the panel: one whole frame with the flag of the receiver, which the key
decodes and which nothing is read of without it. It is the request of a command, or it echoes
a frame that was received. -/
structure OnWire (env : Env) (key : Option Bytes) (log : List Entry) (data : Bytes) : Prop where
  whole : ∃ g, WholeFrame env.aes key data g ∧ g.srcFlag = flagFromReceiver ∧
    (IsRequest g ∨ ∃ f ∈ dispatchedFrames log, Echoes f g)
  hidden : key.isSome → Frame.decode env.aes data none = .error .encryptionRequired

/-- The bytes of a queued frame, with the entry about it. -/
theorem mem_queuedData {log : List Entry} {data : Bytes} (hdata : data ∈ queuedData log) :
    ∃ g closed holders, .queued g data closed holders ∈ log := by
  obtain ⟨e, he, hsome⟩ := List.mem_filterMap.mp hdata
  cases e with
  | queued g data' closed holders =>
      cases hsome
      exact ⟨g, closed, holders, he⟩
  | ticked => cases hsome
  | dispatched => cases hsome
  | sessionStarted => cases hsome

/-- A request is one on the wire. -/
theorem isRequest_onWire {g : Frame} (hg : IsRequest g) : IsRequest g.onWire := by
  obtain ⟨c, hmajor, hminor⟩ := hg
  refine ⟨c, ?_, ?_⟩
  · show g.major % 2 ^ 8 = c.major
    rw [hmajor]
    cases c <;> rfl
  · show g.minor % 2 ^ 8 = _
    rw [hminor]
    rfl

/-- A frame with its entry was dispatched. -/
theorem mem_dispatchedFrames {log : List Entry} {f : Frame} (hf : .dispatched f ∈ log) :
    f ∈ dispatchedFrames log :=
  List.mem_filterMap.mpr ⟨.dispatched f, hf, rfl⟩

/-- **What is entered as queued** is fit for the wire. -/
theorem onWire_of_entered {env : Env} {key : Option Bytes} {log : List Entry}
    (hentered : Entered env key log) (hfrom : ∀ f ∈ dispatchedFrames log, FromWire f)
    (hkey : ∀ k ∈ key, k.length = 16) {data : Bytes} (hdata : data ∈ queuedData log) :
    OnWire env key log data := by
  obtain ⟨g, closed, holders, hmem⟩ := mem_queuedData hdata
  obtain ⟨f, henc, hflag⟩ := hentered.encoded g data closed holders hmem
  obtain ⟨hwhole, -, hlen⟩ := encode_whole hkey (by rw [hflag]; decide) henc
  have hframe := encode_ok_frame henc
  refine ⟨⟨g.onWire, hwhole, ?_, ?_⟩, fun hsome => ?_⟩
  · show g.srcFlag = flagFromReceiver
    rw [hframe]
    exact hflag
  · by_cases hreq : IsRequest g
    · exact .inl (isRequest_onWire hreq)
    · obtain ⟨f', hf', hecho⟩ := hentered.answered g data closed holders hmem hreq
      have hmem' := mem_dispatchedFrames hf'
      exact .inr ⟨f', hmem', hecho.onWire (hfrom f' hmem')⟩
  · obtain ⟨k, rfl⟩ := Option.isSome_iff_exists.mp hsome
    exact encode_hidden (hkey k rfl) hlen henc

/-- **What goes out on the wire.** The frames queued so far are those written, in this order,
then one at most that a failed write has lost, then those on the queue; each is fit for the
wire. -/
theorem written_on_wire (env : Env) (server : PanelServer) (now : ℚ) (h : Handler)
    (hreach : Reachable (Handler.step server env) (server.accept now) h) :
    (∃ lost, queuedData h.sess.log = h.written ++ lost ++ h.sess.writeQueue ∧
      lost.length ≤ 1 ∧ (lost ≠ [] → ∃ e, h.writer.ended = some e ∧ e ≠ .cancelled)) ∧
    ∀ data ∈ queuedData h.sess.log, OnWire env server.key.val h.sess.log data := by
  obtain ⟨-, ⟨lost, hqueued, hlost⟩, hentered⟩ := fifo_of_reachable hreach
  refine ⟨⟨lost, hqueued, ?_, ?_⟩, fun data =>
    onWire_of_entered hentered (dispatched_fromWire hreach) server.key.property⟩
  · obtain rfl | ⟨data, e, rfl, -⟩ := hlost
    · exact Nat.zero_le 1
    · exact le_rfl
  · intro hne
    obtain rfl | ⟨data, e, -, he, hne⟩ := hlost
    · exact absurd rfl hne
    · exact ⟨e, he, hne⟩

/-- A captured POLL comes in, and the writer sends the acknowledgement. -/
theorem written_on_wire_poll : ∃ h : Handler, h.written.length = 1 ∧
    ∀ data ∈ queuedData h.sess.log, OnWire clearEnv none h.sess.log data := by
  have hrun : (run (Handler.step clearServer clearEnv) (clearServer.accept 1)
      [.read (.data capturedPoll), .reclaim, .writer]).isSome := by decide +kernel
  obtain ⟨h, hh⟩ := Option.isSome_iff_exists.mp hrun
  have hlength : (run (Handler.step clearServer clearEnv) (clearServer.accept 1)
      [.read (.data capturedPoll), .reclaim, .writer]).map (fun h => h.written.length) =
        some 1 := by decide +kernel
  rw [hh, Option.map_some, Option.some.injEq] at hlength
  exact ⟨h, hlength, (written_on_wire clearEnv clearServer 1 h ⟨_, hh⟩).2⟩

end Spcedp.Client.Handler
