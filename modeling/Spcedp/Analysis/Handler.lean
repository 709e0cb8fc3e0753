import Spcedp.Analysis.TheoremAcks
import Spcedp.Analysis.TheoremAdmission

/-!
# The invariant of a connection's tasks

`Orderly` is the invariant of the tasks around the read loop: who is running, who has been
cancelled, and which callback is still to come. Every step of the handler is a run of the
connection it belongs to (`step_simulates`).
-/

set_option autoImplicit false

namespace Spcedp.Client

open Lib.Transition Spcedp.Wire

/-! ## The tasks -/

namespace Handler

/-- What holds of the tasks between two turns of the event loop. -/
structure Orderly (env : Env) (server : PanelServer) (h : Handler) : Prop where
  conn : Sound env server h.conn
  reading : h.conn.reading = true ↔ h.place.InLoop
  down : ¬h.place.InLoop → h.sess.closed = true ∧ h.sess.teardownRequested = true ∧
    ∀ c, h.sess.pendingOf c = ∅
  writerRuns : h.place.InLoop → h.writer.cancelRequested = false
  writerStops : ¬h.place.InLoop → h.writer.ended = none → h.writer.cancelRequested = true
  writerCancelled : h.writer.ended = some .cancelled → h.writer.cancelRequested = true
  writerEnded : ∀ e, h.writer.ended = some e → e ≠ .cancelled →
    h.writer.callbackDue = true ∨ h.sess.teardownRequested = true
  sessionNew : h.conn.sessionTask = false → h.session = {}
  sessionRaised : h.session.ended = some .raised →
    h.session.callbackDue = true ∨ h.sess.teardownRequested = true
  joining : h.place = .awaitSession → h.conn.sessionTask = true ∧ h.writer.ended.isSome
  finished : h.place = .closing ∨ h.place = .ended → h.writer.ended.isSome ∧
    (h.conn.sessionTask = true → h.session.ended.isSome) ∧ h.socketClosed = true

variable {env : Env} {server : PanelServer} {h h' : Handler} {a : HandlerAction}

/-- The tasks of a new connection are in order. -/
theorem orderly_accept (now : ℚ) : Orderly env server (server.accept now) where
  conn := sound_connect now
  reading := iff_of_true rfl trivial
  down hout := absurd trivial hout
  writerRuns _ := rfl
  writerStops hout := absurd trivial hout
  writerCancelled := nofun
  writerEnded := nofun
  sessionNew _ := rfl
  sessionRaised := nofun
  joining := nofun
  finished hplace := by obtain hplace | hplace := hplace <;> cases hplace

/-! ## Simulation -/

/-- **Every step is a run of the connection**, of at most two steps. -/
theorem step_simulates (ho : Orderly env server h) (hstep : h.step server env a = some h') :
    ∃ as, run (Connection.step server env) h.conn as = some h'.conn := by
  have hpop {rest : List Bytes} {data : Bytes} (hqueue : h.sess.writeQueue = data :: rest) :
      h.conn.step server env (.session .write) =
        some (h.setSess { h.sess with writeQueue := rest }).conn := by
    simp only [Connection.step, World.step]
    rw [show h.conn.world.sess.writeQueue = data :: rest from hqueue]
    rfl
  cases step_does hstep with
  | read => exact ⟨[], rfl⟩
  | @turned r hplace =>
      have hreading : h.conn.reading = true := ho.reading.mpr (by rw [hplace]; trivial)
      have hchunk (chunk : Bytes) : h.conn.step server env (.chunk chunk) =
          some (h.conn.readChunk server env chunk) := if_pos hreading
      obtain ⟨chunk, -, -, -, hturn⟩ | ⟨conn, hturn, hconn⟩ := turn_cases server env hreading r
      · rw [hturn]
        exact ⟨[.chunk chunk], by rw [run_cons, hchunk]; rfl⟩
      · rw [hturn]
        show ∃ as, run (Connection.step server env) h.conn as = some conn.stop
        obtain ⟨chunk, -, hconn⟩ | ⟨chunk, -, hconn, hstill, -⟩ | hconn := hconn
        · exact ⟨[.chunk chunk], by rw [run_cons, hchunk, hconn]; rfl⟩
        · refine ⟨[.chunk chunk, .stop], ?_⟩
          rw [run_cons, hchunk, Option.bind_some, ← hconn, run_cons]
          simp only [Connection.step]
          rw [if_pos hstill]
          rfl
        · refine ⟨[.stop], ?_⟩
          rw [run_cons, hconn]
          simp only [Connection.step]
          rw [if_pos hreading]
          rfl
  | recancelled => exact ⟨[], rfl⟩
  | absorbed => exact ⟨[], rfl⟩
  | joined => exact ⟨[], rfl⟩
  | closed => exact ⟨[], rfl⟩
  | left => exact ⟨[], rfl⟩
  | stopped => exact ⟨[], rfl⟩
  | drained => exact ⟨[], rfl⟩
  | wrote _ _ hqueue => exact ⟨[.session .write], by rw [run_cons, hpop hqueue]; rfl⟩
  | failed => exact ⟨[], rfl⟩
  | lost _ _ hqueue => exact ⟨[.session .write], by rw [run_cons, hpop hqueue]; rfl⟩
  | @writerDone e =>
      cases e with
      | cancelled => exact ⟨[], rfl⟩
      | returned => exact ⟨[.session .requestTeardown], rfl⟩
      | raised => exact ⟨[.session .requestTeardown], rfl⟩
  | sessionEnded => exact ⟨[], rfl⟩
  | @sessionDone e =>
      cases e with
      | cancelled => exact ⟨[], rfl⟩
      | returned => exact ⟨[], rfl⟩
      | raised => exact ⟨[.session .requestTeardown], rfl⟩
  | @app a w happ hcall hw =>
      refine ⟨[.session a], ?_⟩
      have hmap : (h.conn.world.step env a).map (fun world => { h.conn with world := world }) =
          some { h.conn with world := w } := by rw [hw]; rfl
      have hconn : h.conn.step server env (.session a) = some { h.conn with world := w } := by
        cases a with
        | call t cmd =>
            simp only [Connection.step]
            rw [if_pos (hcall t cmd rfl)]
            exact hmap
        | dispatch f => cases happ
        | _ => exact hmap
      rw [run_cons, hconn]
      rfl

/-! ## What a step adds -/

/-- Asking for the teardown queues nothing. -/
theorem requestTeardown_advances (env : Env) (s : Session) : Advances env s s.requestTeardown :=
  ⟨rfl, rfl, fun _ => rfl, fun _ => rfl, [], (List.append_nil _).symm, (List.append_nil _).symm,
    entered_of_not_queued (by simp)⟩

/-- The callback of the writer queues nothing. -/
theorem onWriterDone_advances (env : Env) (e : TaskEnd) (s : Session) :
    Advances env s (onWriterDone e s) := by
  cases e with
  | cancelled => exact .refl env s
  | returned => exact requestTeardown_advances env s
  | raised => exact requestTeardown_advances env s

/-- The callback of `on_session` queues nothing. -/
theorem onSessionDone_advances (env : Env) (e : TaskEnd) (s : Session) :
    Advances env s (onSessionDone e s) := by
  cases e with
  | cancelled => exact .refl env s
  | returned => exact .refl env s
  | raised => exact requestTeardown_advances env s

/-- The turn of the loop only adds to the queue. -/
theorem turn_advances (ho : Orderly env server h) {r : ReadResult}
    (hplace : h.place = .reclaiming r) :
    Advances env h.sess (h.turn server env r).sess ∧
      (h.conn.sessionTask = true → (h.turn server env r).conn.sessionTask = true) := by
  have hreading : h.conn.reading = true := ho.reading.mpr (by rw [hplace]; trivial)
  obtain ⟨chunk, -, -, -, hturn⟩ | ⟨conn, hturn, hconn⟩ := turn_cases server env hreading r
  · rw [hturn]
    exact readChunk_advances server env h.conn chunk
  · rw [hturn]
    show Advances env h.sess conn.stop.world.sess ∧ (h.conn.sessionTask = true → _)
    obtain ⟨chunk, -, hconn⟩ | ⟨chunk, -, rfl, -⟩ | rfl := hconn
    · obtain ⟨hsess, htask⟩ := readChunk_advances server env h.conn chunk
      rw [← hconn] at hsess htask
      exact ⟨hsess, htask⟩
    · obtain ⟨hsess, htask⟩ := readChunk_advances server env h.conn chunk
      exact ⟨hsess.trans stop_advances, htask⟩
    · exact ⟨stop_advances, id⟩

/-- **The writer takes a frame off the queue**, and writes or loses it; everything else only
adds to the queue. -/
theorem step_adds (ho : Orderly env server h) (hstep : h.step server env a = some h') :
    (Advances env h.sess h'.sess ∧ h'.written = h.written) ∨
    ∃ data rest, h.sess.writeQueue = data :: rest ∧ h.writer.ended = none ∧
      h.writer.cancelRequested = false ∧ h'.sess = { h.sess with writeQueue := rest } ∧
      (h'.written = h.written ++ [data] ∧ h'.writer = h.writer ∨
        h'.written = h.written ∧ ∃ fault : SocketFault, h'.writer = h.writer.finish fault.end) := by
  cases step_does hstep with
  | read => exact .inl ⟨.refl _ _, rfl⟩
  | @turned r hplace =>
      refine .inl ⟨(turn_advances ho hplace).1, ?_⟩
      obtain ⟨chunk, -, -, -, hturn⟩ | ⟨conn, hturn, -⟩ :=
        turn_cases server env (ho.reading.mpr (by rw [hplace]; trivial)) r
      · rw [hturn]
      · rw [hturn]
        rfl
  | recancelled => exact .inl ⟨.refl _ _, rfl⟩
  | absorbed => exact .inl ⟨.refl _ _, rfl⟩
  | joined => exact .inl ⟨.refl _ _, rfl⟩
  | closed => exact .inl ⟨.refl _ _, rfl⟩
  | left => exact .inl ⟨.refl _ _, rfl⟩
  | stopped => exact .inl ⟨.refl _ _, rfl⟩
  | drained => exact .inl ⟨.refl _ _, rfl⟩
  | wrote hended hcancel hqueue =>
      exact .inr ⟨_, _, hqueue, hended, hcancel, rfl, .inl ⟨rfl, rfl⟩⟩
  | failed => exact .inl ⟨.refl _ _, rfl⟩
  | @lost fault data rest hended hcancel hqueue =>
      exact .inr ⟨_, _, hqueue, hended, hcancel, rfl, .inr ⟨rfl, fault, rfl⟩⟩
  | writerDone => exact .inl ⟨onWriterDone_advances _ _ _, rfl⟩
  | sessionEnded => exact .inl ⟨.refl _ _, rfl⟩
  | sessionDone => exact .inl ⟨onSessionDone_advances _ _ _, rfl⟩
  | @app a w happ hcall hw =>
      refine .inl ⟨step_advances ho.conn.inv hw ?_, rfl⟩
      rintro rfl
      cases happ

/-- What is closed stays closed. -/
theorem step_closed (ho : Orderly env server h) (hstep : h.step server env a = some h') :
    (h.sess.closed = true → h'.sess.closed = true) ∧
      (h.sess.teardownRequested = true → h'.sess.teardownRequested = true) := by
  obtain ⟨hadds, -⟩ | ⟨data, rest, -, -, -, hsess, -⟩ := step_adds ho hstep
  · exact ⟨hadds.closed, hadds.teardownRequested⟩
  · rw [hsess]
    exact ⟨id, id⟩

/-! ## The invariant is kept -/

/-- Out of the loop nothing is registered again. -/
theorem step_pending (ho : Orderly env server h) (hstep : h.step server env a = some h')
    (hout : ¬h.place.InLoop) (c : Channel) : h'.sess.pendingOf c = ∅ := by
  obtain ⟨hclosed, -, hempty⟩ := ho.down hout
  have hsame (hpending : h'.sess.pendingOf c = h.sess.pendingOf c) : h'.sess.pendingOf c = ∅ :=
    hpending.trans (hempty c)
  cases step_does hstep with
  | turned hplace => exact absurd (hplace ▸ trivial) hout
  | wrote => exact hsame (by cases c <;> rfl)
  | lost => exact hsame (by cases c <;> rfl)
  | @writerDone e => exact hsame (by cases e <;> cases c <;> rfl)
  | @sessionDone e => exact hsame (by cases e <;> cases c <;> rfl)
  | app _ _ hw =>
      refine eq_empty_of_lookup fun q n hl => ?_
      have hl' := (closed_step ho.conn.inv hclosed hw).pending c q n hl
      have hempty' : h.conn.world.sess.pendingOf c = ∅ := hempty c
      rw [hempty', AList.lookup_empty] at hl'
      cases hl'
  | _ => exact hsame rfl

/-- A connection that stops has nothing pending. -/
theorem stop_pending (conn : Connection) (c : Channel) :
    conn.stop.world.sess.pendingOf c = ∅ := by
  cases c <;> rfl

/-- `cancel` asks a task to stop, unless it has ended. -/
theorem cancel_cases (b : Background) :
    b.cancel.ended = b.ended ∧ b.cancel.callbackDue = b.callbackDue ∧
      (b.ended = none → b.cancel.cancelRequested = true) ∧
      (b.ended ≠ none → b.cancel.cancelRequested = b.cancelRequested) := by
  unfold Background.cancel
  cases h : b.ended with
  | none => exact ⟨rfl, rfl, fun _ => rfl, fun hne => absurd rfl hne⟩
  | some e => exact ⟨h, rfl, nofun, fun _ => rfl⟩

/-- A task that has ended has ended for good. -/
theorem step_ended (hstep : h.step server env a = some h') :
    (∀ e, h.writer.ended = some e → h'.writer.ended = some e) ∧
      ∀ e, h.session.ended = some e → h'.session.ended = some e := by
  have hnone {b : Background} (hnone : b.ended = none) (b' : Background) (e : TaskEnd)
      (he : b.ended = some e) : b'.ended = some e := by
    rw [hnone] at he
    cases he
  cases step_does hstep with
  | @turned r hplace =>
      have hteardown (conn : Connection) :
          (∀ e, h.writer.ended = some e → (h.teardown conn).writer.ended = some e) ∧
            ∀ e, h.session.ended = some e → (h.teardown conn).session.ended = some e := by
        refine ⟨fun e he => (cancel_cases h.writer).1.trans he, fun e he => ?_⟩
        show (if conn.sessionTask = true then h.session.cancel else h.session).ended = some e
        split
        · exact (cancel_cases h.session).1.trans he
        · exact he
      unfold turn
      split
      · dsimp only
        split
        · exact hteardown _
        · split
          · exact hteardown _
          · exact ⟨fun _ => id, fun _ => id⟩
      all_goals exact hteardown _
  | stopped hwriter => exact ⟨fun e => hnone hwriter _ e, fun _ => id⟩
  | failed hwriter => exact ⟨fun e => hnone hwriter _ e, fun _ => id⟩
  | lost hwriter => exact ⟨fun e => hnone hwriter _ e, fun _ => id⟩
  | sessionEnded _ hsession => exact ⟨fun _ => id, fun e => hnone hsession _ e⟩
  | _ => exact ⟨fun _ => id, fun _ => id⟩

/-- `_teardown` begins. -/
theorem orderly_teardown (ho : Orderly env server h) {conn : Connection}
    (hconn : Sound env server conn.stop)
    (htask : h.conn.sessionTask = true → conn.stop.sessionTask = true) :
    Orderly env server (h.teardown conn.stop) := by
  have hout : ¬(h.teardown conn.stop).place.InLoop := id
  obtain ⟨hwended, hwdue, hwcancel, hwsame⟩ := cancel_cases h.writer
  have hsession : (h.teardown conn.stop).session.ended = h.session.ended := by
    show (if conn.stop.sessionTask = true then h.session.cancel else h.session).ended = _
    split
    · exact (cancel_cases h.session).1
    · rfl
  refine ⟨hconn, iff_of_false (by simp [teardown, Connection.stop]) hout,
    fun _ => ⟨rfl, rfl, stop_pending conn⟩, fun hin' => absurd hin' hout, ?_, ?_,
    fun _ _ _ => .inr rfl, ?_, fun _ => .inr rfl, nofun, ?_⟩
  · intro _ hended
    exact hwcancel (hwended ▸ hended)
  · intro hended
    have hended' : h.writer.ended = some .cancelled := hwended ▸ hended
    show h.writer.cancel.cancelRequested = true
    rw [hwsame (by rw [hended']; nofun)]
    exact ho.writerCancelled hended'
  · intro hno
    show (if conn.stop.sessionTask = true then h.session.cancel else h.session) = {}
    have hno' : conn.stop.sessionTask = false := hno
    rw [hno', if_neg (by simp)]
    apply ho.sessionNew
    cases hold : h.conn.sessionTask with
    | false => rfl
    | true =>
        rw [htask hold] at hno'
        cases hno'
  · intro hplace
    obtain hplace | hplace := hplace <;> cases hplace

/-- **Every step keeps the tasks in order.** -/
theorem orderly_step (ho : Orderly env server h) (hstep : h.step server env a = some h') :
    Orderly env server h' := by
  obtain ⟨as, hrun⟩ := step_simulates ho hstep
  have hconn : Sound env server h'.conn :=
    run_invariant (I := Sound env server) (fun _ _ _ => sound_step) ho.conn hrun
  obtain ⟨hclosed, hdown⟩ := step_closed ho hstep
  have hpending := step_pending ho hstep
  have hstay (hout : ¬h.place.InLoop) : h'.sess.closed = true ∧
      h'.sess.teardownRequested = true ∧ ∀ c, h'.sess.pendingOf c = ∅ :=
    ⟨hclosed (ho.down hout).1, hdown (ho.down hout).2.1, hpending hout⟩
  have hended (e : TaskEnd) (hended : h.writer.ended = some e) (hne : e ≠ .cancelled) :
      h.writer.callbackDue = true ∨ h'.sess.teardownRequested = true :=
    (ho.writerEnded e hended hne).imp_right hdown
  have hraised (hraised : h.session.ended = some .raised) :
      h.session.callbackDue = true ∨ h'.sess.teardownRequested = true :=
    (ho.sessionRaised hraised).imp_right hdown
  cases step_does hstep with
  | read hplace =>
      have hin : h.place.InLoop := hplace ▸ trivial
      exact { ho with
        reading := iff_of_true (ho.reading.mpr hin) trivial
        down := fun hout => absurd trivial hout
        writerRuns := fun _ => ho.writerRuns hin
        writerStops := fun hout => absurd trivial hout
        joining := nofun
        finished := fun hplace => by obtain hplace | hplace := hplace <;> cases hplace }
  | @turned r hplace =>
      have hin : h.place.InLoop := hplace ▸ trivial
      obtain ⟨hsess, htask⟩ := turn_advances ho hplace
      obtain ⟨chunk, -, hstill, -, hturn⟩ | ⟨conn, hturn, -⟩ :=
        turn_cases server env (ho.reading.mpr hin) r
      · rw [hturn] at hconn htask hended hraised ⊢
        refine ⟨hconn, iff_of_true hstill trivial, fun hout => absurd trivial hout,
          fun _ => ho.writerRuns hin, fun hout => absurd trivial hout, ho.writerCancelled, hended,
          fun hno => ?_, hraised, nofun,
          fun hplace => by obtain hplace | hplace := hplace <;> cases hplace⟩
        apply ho.sessionNew
        cases hold : h.conn.sessionTask with
        | false => rfl
        | true =>
            rw [htask hold] at hno
            cases hno
      · rw [hturn] at hconn htask ⊢
        exact orderly_teardown ho hconn htask
  | @recancelled r hplace =>
      have hin : h.place.InLoop := hplace ▸ trivial
      exact { ho with
        reading := iff_of_true (ho.reading.mpr hin) trivial
        down := fun hout => absurd trivial hout
        writerRuns := fun _ => ho.writerRuns hin
        writerStops := fun hout => absurd trivial hout
        joining := nofun
        finished := fun hplace => by obtain hplace | hplace := hplace <;> cases hplace }
  | absorbed => exact ho
  | joined hplace hwriter htask =>
      have hout : ¬h.place.InLoop := by rw [hplace]; exact id
      exact { ho with
        reading := iff_of_false (fun hr => hout (ho.reading.mp hr)) id
        down := fun _ => hstay hout
        writerRuns := nofun
        writerStops := fun _ => ho.writerStops hout
        joining := fun _ => ⟨htask, hwriter⟩
        finished := fun hplace => by obtain hplace | hplace := hplace <;> cases hplace }
  | closed hplace =>
      have hout : ¬h.place.InLoop := by
        obtain ⟨hplace, -⟩ | ⟨hplace, -⟩ := hplace <;> rw [hplace] <;> exact id
      refine { ho with
        reading := iff_of_false (fun hr => hout (ho.reading.mp hr)) id
        down := fun _ => hstay hout
        writerRuns := nofun
        writerStops := fun _ => ho.writerStops hout
        joining := nofun
        finished := fun _ => ?_ }
      obtain ⟨-, hwriter, htask⟩ | ⟨hplace, hsession⟩ := hplace
      · refine ⟨hwriter, fun hyes => ?_, rfl⟩
        have hyes : h.conn.sessionTask = true := hyes
        rw [htask] at hyes
        cases hyes
      · exact ⟨(ho.joining hplace).2, fun _ => hsession, rfl⟩
  | left _ hplace =>
      have hout : ¬h.place.InLoop := by rw [hplace]; exact id
      exact { ho with
        reading := iff_of_false (fun hr => hout (ho.reading.mp hr)) id
        down := fun _ => hstay hout
        writerRuns := nofun
        writerStops := fun _ => ho.writerStops hout
        joining := nofun
        finished := fun _ => ho.finished (.inl hplace) }
  | stopped hnone hcancel =>
      refine { ho with
        writerStops := nofun
        writerCancelled := fun _ => hcancel
        writerEnded := ?_
        joining := fun hplace => ⟨(ho.joining hplace).1, rfl⟩
        finished := fun hplace => ⟨rfl, (ho.finished hplace).2⟩ }
      rintro e ⟨⟩ hne
      exact absurd rfl hne
  | drained => exact { ho with }
  | wrote hnone hcancel =>
      exact { ho with
        conn := hconn
        down := hstay }
  | @failed fault hnone hcancel =>
      exact { ho with
        writerStops := nofun
        writerCancelled := fun hended => by cases fault <;> cases hended
        writerEnded := fun _ _ _ => .inl rfl
        joining := fun hplace => ⟨(ho.joining hplace).1, rfl⟩
        finished := fun hplace => ⟨rfl, (ho.finished hplace).2⟩ }
  | @lost fault data rest hnone hcancel =>
      exact { ho with
        conn := hconn
        down := hstay
        writerStops := nofun
        writerCancelled := fun hended => by cases fault <;> cases hended
        writerEnded := fun _ _ _ => .inl rfl
        joining := fun hplace => ⟨(ho.joining hplace).1, rfl⟩
        finished := fun hplace => ⟨rfl, (ho.finished hplace).2⟩ }
  | @writerDone e _ he =>
      refine { ho with
        conn := hconn
        down := hstay
        writerEnded := ?_
        sessionRaised := hraised }
      intro e' he' hne
      have he' : h.writer.ended = some e' := he'
      rw [he, Option.some.injEq] at he'
      subst he'
      right
      cases e with
      | cancelled => exact absurd rfl hne
      | returned => rfl
      | raised => rfl
  | sessionEnded htask _ =>
      exact { ho with
        sessionNew := fun hno => by
          have hno : h.conn.sessionTask = false := hno
          rw [htask] at hno
          cases hno
        sessionRaised := fun _ => .inl rfl
        finished := fun hplace => ⟨(ho.finished hplace).1, fun _ => rfl, (ho.finished hplace).2.2⟩ }
  | @sessionDone e hdue he =>
      refine { ho with
        conn := hconn
        down := hstay
        writerEnded := hended
        sessionNew := fun hno => by
          have hnew := ho.sessionNew hno
          rw [hnew] at hdue
          cases hdue
        sessionRaised := ?_ }
      intro hraised
      have hraised : h.session.ended = some .raised := hraised
      rw [he, Option.some.injEq] at hraised
      subst hraised
      exact .inr rfl
  | app =>
      exact { ho with
        conn := hconn
        down := hstay
        writerEnded := hended
        sessionRaised := hraised }

/-- The tasks are in order in every state that is reached. -/
theorem orderly_of_reachable {now : ℚ}
    (hreach : Reachable (Handler.step server env) (server.accept now) h) : Orderly env server h :=
  hreach.invariant (fun _ _ _ => orderly_step) (orderly_accept now)

/-! ## What every step of the world keeps -/

/-- **An invariant of the world** is one of the handler. Frames come off the wire, what the
application does is done to the world before the step, and nobody else calls a command. Naming
the panel and starting `on_session` must not matter. -/
theorem step_world {I : World → Prop}
    (hworld : ∀ w b w', I w → (∀ f, b = .dispatch f → FromWire f) →
      (b.FromApp = true → w = h.conn.world) → (∀ t cmd, b = .call t cmd → a = .app b) →
      w.step env b = some w' → I w')
    (hlabel : ∀ w panelId new, I w → (∀ e ∈ new, e = .sessionStarted) →
      I { w with sess := { w.sess with panelId := panelId, log := w.sess.log ++ new } })
    (ho : Orderly env server h) (hstep : h.step server env a = some h') (hI : I h.conn.world) :
    I h'.conn.world := by
  have hframe (c : Connection) (f : Frame) (hf : FromWire f) (hc : I c.world) :
      I (c.handleFrame server env f).world := by
    have hpanel : ∃ panelId : ℤ,
        (if c.handshakeStarted then c.world.sess else { c.world.sess with panelId := f.srcId }) =
          { c.world.sess with panelId := panelId, log := c.world.sess.log ++ [] } := by
      rw [List.append_nil]
      split
      · exact ⟨c.world.sess.panelId, rfl⟩
      · exact ⟨f.srcId, rfl⟩
    obtain ⟨panelId, hpanel⟩ := hpanel
    have hnamed := hlabel c.world panelId [] hc (by simp)
    have hdispatched := hworld _ (.dispatch f) _ hnamed (fun f' h => by cases h; exact hf) nofun
      nofun rfl
    unfold Connection.handleFrame
    rw [hpanel]
    dsimp only
    split
    · exact hlabel _ _ [.sessionStarted] hdispatched (by simp)
    · exact hdispatched
  have hframes (frames : List Frame) (hfrom : ∀ f ∈ frames, FromWire f) (c : Connection)
      (hc : I c.world) : I (frames.foldl (Connection.handleFrame server env) c).world := by
    induction frames generalizing c with
    | nil => exact hc
    | cons f frames ih =>
        exact ih (fun f hf => hfrom f (List.mem_cons_of_mem _ hf)) _
          (hframe c f (hfrom f List.mem_cons_self) hc)
  have hstop (c : Connection) (hc : I c.world) : I c.stop.world :=
    hworld c.world .teardown _ hc nofun nofun nofun rfl
  have hchunk (chunk : Bytes) : I (h.conn.readChunk server env chunk).world := by
    obtain ⟨d, frames, hfeed, hread⟩ | ⟨d, hread⟩ :=
      readChunk_cases server env h.conn chunk
    · rw [hread]
      exact hframes frames (FrameDecoder.feed_fromWire hfeed) _ hI
    · rw [hread]
      exact hstop { h.conn with decoder := d } hI
  have hclosing : I { h.conn.world with sess := h.conn.world.sess.requestTeardown } :=
    hworld h.conn.world .requestTeardown _ hI nofun (fun _ => rfl) nofun rfl
  have hpop {data : Bytes} {rest : List Bytes} (hqueue : h.sess.writeQueue = data :: rest) :
      I { h.conn.world with sess := { h.sess with writeQueue := rest } } := by
    refine hworld h.conn.world .write _ hI nofun nofun nofun ?_
    simp only [World.step]
    rw [show h.conn.world.sess.writeQueue = data :: rest from hqueue]
    rfl
  cases step_does hstep with
  | @turned r hplace =>
      obtain ⟨chunk, -, -, -, hturn⟩ | ⟨conn, hturn, hconn⟩ :=
        turn_cases server env (ho.reading.mpr (by rw [hplace]; trivial)) r
      · rw [hturn]
        exact hchunk chunk
      · rw [hturn]
        show I conn.stop.world
        obtain ⟨chunk, -, hconn⟩ | ⟨chunk, -, rfl, -⟩ | rfl := hconn
        · rw [hconn]
          exact hchunk chunk
        · exact hstop _ (hchunk chunk)
        · exact hstop _ hI
  | wrote _ _ hqueue => exact hpop hqueue
  | lost _ _ hqueue => exact hpop hqueue
  | @writerDone e =>
      cases e with
      | cancelled => exact hI
      | returned => exact hclosing
      | raised => exact hclosing
  | @sessionDone e =>
      cases e with
      | cancelled => exact hI
      | returned => exact hI
      | raised => exact hclosing
  | @app action w happ _ hw =>
      refine hworld h.conn.world action w hI ?_ (fun _ => rfl) (fun _ _ _ => rfl) hw
      rintro f rfl
      cases happ
  | _ => exact hI

end Handler

end Spcedp.Client
