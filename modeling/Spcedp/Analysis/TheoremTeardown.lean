import Spcedp.Analysis.Handler
import Spcedp.Lib.Fairness

/-!
# The end of a connection

A connection that has been told to close, whose handler was cancelled or has waited in vain for
data, whose writer has stopped or whose `on_session` has raised does not stay alive: every fair
run of its tasks comes to the end of `_handle` (`ended_of_doomed`). Once the read loop is left,
nothing is received, queued or written any more, and at the end every task is over and no command
waits for a reply (`silent_after_loop`).
-/

set_option autoImplicit false

namespace Spcedp.Client.Handler

open Lib.Transition Spcedp.Wire

/-! ## The rank -/

/-- The wait for data has ended without any: the handler was cancelled, the stream has ended, the
read failed or timed out, or a teardown is requested. -/
def Leaving (h : Handler) : Prop :=
  ∃ r, h.place = .reclaiming r ∧ ∀ chunk, r = .data chunk → chunk = []

/-- Something has happened after which the connection must not go on. -/
def Doomed (h : Handler) : Prop :=
  h.sess.teardownRequested = true ∨ (∃ e, h.writer.ended = some e ∧ e ≠ .cancelled) ∨
    h.session.ended = some .raised ∨ h.Leaving

/-- The steps that bring the connection closer to its end: the handler, once a teardown is
requested or its wait has ended without data, a writer that is cancelled or whose socket fails,
the end of `on_session`, and the done-callbacks. -/
def Own (h : Handler) : HandlerAction → Prop
  | .read _ => h.sess.teardownRequested = true
  | .reclaim => h.sess.teardownRequested = true ∨ h.Leaving
  | .writer => h.writer.cancelRequested = true
  | .await | .writerFails _ | .writerDone | .sessionEnds _ | .sessionDone => True
  | .cancel | .app _ => False

/-- The steps that a background task has before it. -/
def taskRank (b : Background) : ℕ :=
  match b.ended with
  | none => 2
  | some _ => if b.callbackDue then 1 else 0

/-- The steps of the handler from a place on. -/
def placeRank : Place → ℕ
  | .reading => 5
  | .reclaiming _ => 4
  | .awaitWriter => 3
  | .awaitSession => 2
  | .closing => 1
  | .ended => 0

/-- The part of `on_session`, which may not have started. -/
def sessionRank : Bool → Background → ℕ
  | false, _ => 3
  | true, b => taskRank b

/-- The part of the handler; 6 stands for it as long as no teardown is requested. -/
def handlerRank : Bool → Place → ℕ
  | false, _ => 6
  | true, p => placeRank p

/-- The steps to the end. -/
def rank (h : Handler) : ℕ :=
  sessionRank h.conn.sessionTask h.session + taskRank h.writer +
    handlerRank h.sess.teardownRequested h.place

/-- A task that ends comes nearer to its end. -/
theorem taskRank_finish {b : Background} (e : TaskEnd) (hnone : b.ended = none) :
    taskRank (b.finish e) < taskRank b := by
  unfold taskRank Background.finish
  rw [hnone]
  simp

/-- To be cancelled is no step of the task. -/
theorem taskRank_cancel (b : Background) : taskRank b.cancel = taskRank b := by
  obtain ⟨hended, hdue, -⟩ := cancel_cases b
  unfold taskRank
  rw [hended, hdue]

/-- A done-callback that runs is a step nearer to the end. -/
theorem taskRank_done {b : Background} {e : TaskEnd} (hdue : b.callbackDue = true)
    (hended : b.ended = some e) : taskRank { b with callbackDue := false } < taskRank b := by
  unfold taskRank
  rw [hended]
  simp [hdue]

/-- A task has two steps before it at most. -/
theorem taskRank_le (b : Background) : taskRank b ≤ 2 := by
  unfold taskRank
  split
  · exact le_rfl
  · split <;> omega

/-- The handler has five places before it at most. -/
theorem placeRank_le (p : Place) : placeRank p ≤ 5 := by
  cases p <;> simp [placeRank]

/-- With the teardown still to be requested there are six. -/
theorem handlerRank_le (requested : Bool) (p : Place) : handlerRank requested p ≤ 6 := by
  cases requested with
  | false => exact le_rfl
  | true => exact (placeRank_le p).trans (by omega)

/-- The part of the handler does not grow when a teardown is requested. -/
theorem handlerRank_requested {requested requested' : Bool} (p : Place)
    (hreq : requested = true → requested' = true) :
    handlerRank requested' p ≤ handlerRank requested p := by
  cases requested with
  | true => rw [hreq rfl]
  | false => exact handlerRank_le requested' p

/-- A later place is nearer to the end. -/
theorem handlerRank_place {p p' : Place} (requested : Bool) (hle : placeRank p' ≤ placeRank p) :
    handlerRank requested p' ≤ handlerRank requested p := by
  cases requested with
  | false => exact le_rfl
  | true => exact hle

/-- A session that starts takes its part of the rank down. -/
theorem sessionRank_le {started started' : Bool} {b b' : Background}
    (hb : taskRank b' = taskRank b) (hstarted : started = true → started' = true) :
    sessionRank started' b' ≤ sessionRank started b := by
  have hle := taskRank_le b'
  cases started with
  | true =>
      rw [hstarted rfl]
      exact hb.le
  | false =>
      cases started' with
      | true => exact hle.trans (by decide : 2 ≤ 3)
      | false => exact le_rfl

section Steps

variable {env : Env} {server : PanelServer} {h h' : Handler} {a : HandlerAction}

/-- **A turn of the loop**: it goes on, or the handler is on its way out. -/
theorem rank_turn (ho : Orderly env server h) {r : ReadResult} (hplace : h.place = .reclaiming r) :
    rank (h.turn server env r) ≤ rank h ∧
      (h.sess.teardownRequested = true ∨ h.Leaving → rank (h.turn server env r) < rank h) := by
  have hreading : h.conn.reading = true := ho.reading.mpr (by rw [hplace]; trivial)
  obtain ⟨hadds, htask⟩ := turn_advances ho hplace
  obtain ⟨chunk, hdata, hstill, hopen, hturn⟩ | ⟨conn, hturn, -⟩ :=
    turn_cases server env hreading r
  · rw [hturn] at hadds htask ⊢
    have hclear : h.sess.teardownRequested = false := by
      cases hreq : h.sess.teardownRequested with
      | false => rfl
      | true =>
          have hreq' : (h.conn.readChunk server env chunk).world.sess.teardownRequested = true :=
            hadds.teardownRequested hreq
          rw [hopen] at hreq'
          cases hreq'
    refine ⟨?_, ?_⟩
    swap
    · rintro (hreq | ⟨r', hplace', hno⟩)
      · rw [hclear] at hreq
        cases hreq
      · rw [hplace, Place.reclaiming.injEq] at hplace'
        rw [hno chunk (hplace' ▸ hdata)] at hstill
        cases hstill
    refine Nat.add_le_add (Nat.add_le_add (sessionRank_le rfl htask) le_rfl) ?_
    rw [hclear]
    exact handlerRank_le _ _
  · rw [hturn] at htask ⊢
    have hsession : taskRank (h.teardown conn.stop).session = taskRank h.session := by
      show taskRank (if conn.stop.sessionTask = true then h.session.cancel else h.session) = _
      split
      · exact taskRank_cancel _
      · rfl
    have hpart := sessionRank_le hsession htask
    have hwriter : taskRank (h.teardown conn.stop).writer = taskRank h.writer :=
      taskRank_cancel h.writer
    have hthree : handlerRank (h.teardown conn.stop).sess.teardownRequested
        (h.teardown conn.stop).place = 3 := rfl
    have hfour : 4 ≤ handlerRank h.sess.teardownRequested h.place := by
      rw [hplace]
      cases h.sess.teardownRequested with
      | true => exact le_rfl
      | false => exact (by decide : 4 ≤ 6)
    have hlt : rank (h.teardown conn.stop) < rank h := by
      unfold rank
      omega
    exact ⟨hlt.le, fun _ => hlt⟩

/-- **The rank never grows, and the steps of `Own` take it down.** -/
theorem rank_step (ho : Orderly env server h) (hstep : h.step server env a = some h') :
    rank h' ≤ rank h ∧ (h.Own a → rank h' < rank h) := by
  have hout (p : Place) (hplace : h.place = p) (hp : ¬p.InLoop) :
      h.sess.teardownRequested = true := (ho.down (by rw [hplace]; exact hp)).2.1
  -- a step of the handler that is out of the loop
  have hmoves (h₁ : Handler) (hsession : h₁.session = h.session) (hwriter : h₁.writer = h.writer)
      (hconn : h₁.conn = h.conn) (hreq : h.sess.teardownRequested = true)
      (hlt : placeRank h₁.place < placeRank h.place) : rank h₁ < rank h := by
    have hreq' : h.conn.world.sess.teardownRequested = true := hreq
    unfold rank sess
    rw [hconn, hsession, hwriter, hreq']
    exact Nat.add_lt_add_left hlt _
  -- the end of the writer, and of its callback
  have hwriter {b : Background} {requested : Bool} (hlt : taskRank b < taskRank h.writer)
      (hreq : h.sess.teardownRequested = true → requested = true) :
      sessionRank h.conn.sessionTask h.session + taskRank b + handlerRank requested h.place <
        rank h := by
    have hle := handlerRank_requested h.place hreq
    unfold rank
    omega
  -- those of `on_session`
  have hsession {b : Background} {requested : Bool} (hlt : taskRank b < taskRank h.session)
      (htask : h.conn.sessionTask = true)
      (hreq : h.sess.teardownRequested = true → requested = true) :
      sessionRank h.conn.sessionTask b + taskRank h.writer + handlerRank requested h.place <
        rank h := by
    have hle := handlerRank_requested h.place hreq
    unfold rank
    rw [htask]
    dsimp only [sessionRank]
    omega
  cases step_does hstep with
  | @read r hplace =>
      refine ⟨Nat.add_le_add le_rfl (handlerRank_place _ ?_), fun hreq => ?_⟩
      · rw [hplace]
        exact (by decide : 4 ≤ 5)
      · exact hmoves { h with place := .reclaiming r } rfl rfl rfl hreq
          (by rw [hplace]; exact (by decide : 4 < 5))
  | turned hplace => exact rank_turn ho hplace
  | recancelled hplace =>
      refine ⟨Nat.add_le_add le_rfl (handlerRank_place _ ?_), False.elim⟩
      rw [hplace]
      exact le_rfl
  | absorbed => exact ⟨le_rfl, False.elim⟩
  | joined hplace =>
      have hlt := hmoves { h with place := .awaitSession } rfl rfl rfl (hout _ hplace id)
        (by rw [hplace]; exact (by decide : 2 < 3))
      exact ⟨hlt.le, fun _ => hlt⟩
  | closed hplace =>
      have hlt : rank h.close < rank h := by
        obtain ⟨hplace, -⟩ | ⟨hplace, -⟩ := hplace
        · exact hmoves _ rfl rfl rfl (hout _ hplace id)
            (by rw [hplace]; exact (by decide : 1 < 3))
        · exact hmoves _ rfl rfl rfl (hout _ hplace id)
            (by rw [hplace]; exact (by decide : 1 < 2))
      exact ⟨hlt.le, fun _ => hlt⟩
  | left _ hplace =>
      have hlt := hmoves { h with place := .ended } rfl rfl rfl (hout _ hplace id)
        (by rw [hplace]; exact (by decide : 0 < 1))
      exact ⟨hlt.le, fun _ => hlt⟩
  | stopped hnone =>
      have hlt := hwriter (taskRank_finish .cancelled hnone) id
      exact ⟨hlt.le, fun _ => hlt⟩
  | drained _ hcancel =>
      refine ⟨le_rfl, fun hown => ?_⟩
      have hown : h.writer.cancelRequested = true := hown
      rw [hcancel] at hown
      cases hown
  | wrote _ hcancel =>
      refine ⟨le_rfl, fun hown => ?_⟩
      have hown : h.writer.cancelRequested = true := hown
      rw [hcancel] at hown
      cases hown
  | @failed fault hnone =>
      have hlt := hwriter (taskRank_finish fault.end hnone) id
      exact ⟨hlt.le, fun _ => hlt⟩
  | @lost fault data rest hnone =>
      have hlt := hwriter (taskRank_finish fault.end hnone) id
      exact ⟨hlt.le, fun _ => hlt⟩
  | @writerDone e hdue hended =>
      have hlt := hwriter (taskRank_done hdue hended)
        (onWriterDone_advances env e h.sess).teardownRequested
      exact ⟨hlt.le, fun _ => hlt⟩
  | @sessionEnded e htask hnone =>
      have hlt := hsession (taskRank_finish e hnone) htask id
      exact ⟨hlt.le, fun _ => hlt⟩
  | @sessionDone e hdue hended =>
      have htask : h.conn.sessionTask = true := by
        cases htask : h.conn.sessionTask with
        | true => rfl
        | false =>
            rw [ho.sessionNew htask] at hdue
            cases hdue
      have hlt := hsession (taskRank_done hdue hended) htask
        (onSessionDone_advances env e h.sess).teardownRequested
      exact ⟨hlt.le, fun _ => hlt⟩
  | app =>
      exact ⟨Nat.add_le_add le_rfl (handlerRank_requested _ (step_closed ho hstep).2), False.elim⟩

/-! ## There is always a next step -/

/-- A handler whose wait has ended without data is still to take its turn, or has taken it. -/
theorem leaving_step (ho : Orderly env server h) (hleaving : h.Leaving)
    (hstep : h.step server env a = some h') : h'.sess.teardownRequested = true ∨ h'.Leaving := by
  obtain ⟨r, hplace, hno⟩ := hleaving
  have hin : h.place.InLoop := by rw [hplace]; trivial
  have hstays {h₁ : Handler} (hsame : h₁.place = h.place) :
      h₁.sess.teardownRequested = true ∨ h₁.Leaving :=
    .inr ⟨r, hsame.trans hplace, hno⟩
  cases step_does hstep with
  | read hplace' => simp [hplace] at hplace'
  | @turned r' hplace' =>
      rw [hplace, Place.reclaiming.injEq] at hplace'
      subst hplace'
      obtain ⟨chunk, hdata, hstill, -⟩ | ⟨conn, hturn, -⟩ :=
        turn_cases server env (ho.reading.mpr hin) r
      · rw [hno chunk hdata] at hstill
        cases hstill
      · rw [hturn]
        exact .inl rfl
  | recancelled => exact .inr ⟨.cancelled, rfl, nofun⟩
  | absorbed => exact hstays rfl
  | joined hplace' => simp [hplace] at hplace'
  | closed hplace' => simp [hplace] at hplace'
  | left _ hplace' => simp [hplace] at hplace'
  | stopped => exact hstays rfl
  | drained => exact hstays rfl
  | wrote => exact hstays rfl
  | failed => exact hstays rfl
  | lost => exact hstays rfl
  | writerDone => exact hstays rfl
  | sessionEnded => exact hstays rfl
  | sessionDone => exact hstays rfl
  | app => exact hstays rfl

/-- A doomed connection stays so. -/
theorem doomed_step (ho : Orderly env server h) (hdoomed : h.Doomed)
    (hstep : h.step server env a = some h') : h'.Doomed := by
  obtain ⟨hwriter, hsession⟩ := step_ended hstep
  obtain hreq | ⟨e, he, hne⟩ | hraised | hleaving := hdoomed
  · exact .inl ((step_closed ho hstep).2 hreq)
  · exact .inr (.inl ⟨e, hwriter e he, hne⟩)
  · exact .inr (.inr (.inl (hsession _ hraised)))
  · obtain hreq | hleaving := leaving_step ho hleaving hstep
    · exact .inl hreq
    · exact .inr (.inr (.inr hleaving))

/-- **A doomed connection is not stuck** before its end. -/
theorem enabled_of_doomed (ho : Orderly env server h) (hdoomed : h.Doomed)
    (hend : h.place ≠ .ended) : Enabled (Handler.step server env) Own h := by
  cases hreq : h.sess.teardownRequested with
  | true =>
      cases hplace : h.place with
      | reading => exact ⟨.read .teardown, _, hreq, by simp only [step, hplace]; exact if_pos hreq⟩
      | reclaiming r => exact ⟨.reclaim, _, .inl hreq, by simp only [step, hplace]; rfl⟩
      | awaitWriter =>
          have hout : ¬h.place.InLoop := by rw [hplace]; exact id
          cases hended : h.writer.ended with
          | none =>
              have hcancel := ho.writerStops hout hended
              refine ⟨.writer, { h with writer := h.writer.finish .cancelled }, hcancel, ?_⟩
              simp only [step, runWriter, hended, hcancel, Option.isSome_none, if_true,
                Bool.false_eq_true, if_false]
          | some e =>
              refine ⟨.await, if h.conn.sessionTask then { h with place := .awaitSession }
                else h.close, trivial, ?_⟩
              simp only [step, hplace, hended, Option.isSome_some, if_true]
      | awaitSession =>
          have htask := (ho.joining hplace).1
          cases hended : h.session.ended with
          | none =>
              refine ⟨.sessionEnds .cancelled, { h with session := h.session.finish .cancelled },
                trivial, ?_⟩
              simp only [step, htask, hended, Option.isNone_none, Bool.and_self, if_true]
          | some e =>
              refine ⟨.await, h.close, trivial, ?_⟩
              simp only [step, hplace, hended, Option.isSome_some, if_true]
      | closing => exact ⟨.await, _, trivial, by simp only [step, hplace]; rfl⟩
      | ended => exact absurd hplace hend
  | false =>
      have hno : ¬h.sess.teardownRequested = true := by simp [hreq]
      obtain hyes | ⟨e, he, hne⟩ | hraised | hleaving := hdoomed
      · exact absurd hyes hno
      · have hdue := (ho.writerEnded e he hne).resolve_right hno
        exact ⟨.writerDone, _, trivial, by simp only [step, hdue, he]; rfl⟩
      · have hdue := (ho.sessionRaised hraised).resolve_right hno
        exact ⟨.sessionDone, _, trivial, by simp only [step, hdue, hraised]; rfl⟩
      · obtain ⟨r, hplace, hempty⟩ := hleaving
        exact ⟨.reclaim, _, .inr ⟨r, hplace, hempty⟩, by simp only [step, hplace]; rfl⟩

variable (env server) in
/-- **The rank** is one for the doomed connection and its own steps. -/
theorem ranking : Ranking (Handler.step server env) (fun _ : Unit => Own)
    (fun h => (Orderly env server h ∧ h.Doomed) ∧ h.place ≠ .ended) (fun h => h.place = .ended)
    (fun _ => ()) rank where
  falls _ _ t := fun ⟨⟨ho, hdoomed⟩, _⟩ hstep => by
    by_cases hend : t.place = .ended
    · exact .inl hend
    refine .inr ⟨⟨⟨orderly_step ho hstep, doomed_step ho hdoomed hstep⟩, hend⟩, ?_⟩
    obtain ⟨hle, hlt⟩ := rank_step ho hstep
    obtain h | h := hle.lt_or_eq
    · exact .inl h
    · exact .inr ⟨h, rfl, fun hown => absurd (hlt hown) (not_lt.mpr h.ge)⟩
  enabled _ := fun ⟨⟨ho, hdoomed⟩, hend⟩ => enabled_of_doomed ho hdoomed hend

/-! ## Silence -/

/-- Out of the loop a step writes nothing, and time is all that the history tells. -/
theorem step_silent (ho : Orderly env server h) (hout : ¬h.place.InLoop)
    (hstep : h.step server env a = some h') :
    ¬h'.place.InLoop ∧ h'.written = h.written ∧
      ∃ new, h'.sess.log = h.sess.log ++ new ∧ Silent new := by
  have hnothing {s : Session} (hlog : s.log = h.sess.log) :
      ∃ new, s.log = h.sess.log ++ new ∧ Silent new :=
    ⟨[], by rw [hlog, List.append_nil], nofun⟩
  have hstopped (hnone : h.writer.ended = none) (hcancel : h.writer.cancelRequested = false) :
      False := by
    rw [ho.writerStops hout hnone] at hcancel
    cases hcancel
  cases step_does hstep with
  | read hplace => exact absurd (hplace ▸ trivial) hout
  | turned hplace => exact absurd (hplace ▸ trivial) hout
  | recancelled hplace => exact absurd (hplace ▸ trivial) hout
  | absorbed => exact ⟨hout, rfl, hnothing rfl⟩
  | joined => exact ⟨id, rfl, hnothing rfl⟩
  | closed => exact ⟨id, rfl, hnothing rfl⟩
  | left => exact ⟨id, rfl, hnothing rfl⟩
  | stopped => exact ⟨hout, rfl, hnothing rfl⟩
  | drained => exact ⟨hout, rfl, hnothing rfl⟩
  | wrote hnone hcancel => exact (hstopped hnone hcancel).elim
  | failed => exact ⟨hout, rfl, hnothing rfl⟩
  | lost hnone hcancel => exact (hstopped hnone hcancel).elim
  | @writerDone e => exact ⟨hout, rfl, hnothing (by cases e <;> rfl)⟩
  | sessionEnded => exact ⟨hout, rfl, hnothing rfl⟩
  | @sessionDone e => exact ⟨hout, rfl, hnothing (by cases e <;> rfl)⟩
  | @app a w happ hcall hw =>
      refine ⟨hout, rfl, ?_⟩
      obtain ⟨-, new, hlog, hrec⟩ := step_records ho.conn.inv hw
      refine ⟨new, hlog, ?_⟩
      cases hrec with
      | nothing => exact nofun
      | @ticked d => exact fun e he => ⟨d, List.mem_singleton.mp he⟩
      | requested _ hsend =>
          have hclosed : h.conn.world.sess.closed = true := (ho.down hout).1
          rw [hsend.open_] at hclosed
          cases hclosed
      | received => cases happ
      | acked => cases happ

/-- **A run out of the loop** is silent. -/
theorem run_silent (ho : Orderly env server h) (hout : ¬h.place.InLoop) :
    ∀ as h', run (Handler.step server env) h as = some h' →
      Orderly env server h' ∧ ¬h'.place.InLoop ∧ h'.written = h.written ∧
        ∃ new, h'.sess.log = h.sess.log ++ new ∧ Silent new := by
  refine run_induction ⟨ho, hout, rfl, [], by simp, nofun⟩ ?_
  rintro as h₁ a h₂ - ⟨ho₁, hout₁, hwritten, new, hlog, hsilent⟩ hstep
  obtain ⟨hout₂, hwritten', new', hlog', hsilent'⟩ := step_silent ho₁ hout₁ hstep
  refine ⟨orderly_step ho₁ hstep, hout₂, hwritten'.trans hwritten, new ++ new', ?_, ?_⟩
  · rw [hlog', hlog, List.append_assoc]
  · intro e he
    rcases List.mem_append.mp he with he | he
    · exact hsilent e he
    · exact hsilent' e he

end Steps

/-! ## The theorems -/

/-- A panel that sends nothing: the connection times out and closes, and the clock goes on. -/
def timeoutActions : ℕ → HandlerAction
  | 0 => .read .timeout
  | 1 => .reclaim
  | 2 => .writer
  | 3 => .writerDone
  | 4 | 5 => .await
  | _ => .app (.tick 0)

def timeoutPath : ℕ → Handler
  | 0 => clearServer.accept 1
  | n + 1 => ((timeoutPath n).step clearServer clearEnv (timeoutActions n)).getD (timeoutPath n)

/-- The path is one of the connection. -/
theorem timeoutPath_isPath :
    IsPath (Handler.step clearServer clearEnv) timeoutPath timeoutActions := by
  intro n
  have hsome : ((timeoutPath n).step clearServer clearEnv (timeoutActions n)).isSome := by
    match n with
    | 0 | 1 | 2 | 3 | 4 | 5 => decide +kernel
    | n + 6 => rfl
  obtain ⟨h', hstep⟩ := Option.isSome_iff_exists.mp hsome
  rw [timeoutPath, hstep, Option.getD_some]

/-- **Out of the read loop** nothing is received, queued or written any more, and no command
waits for a reply. At the end the tasks are over and the socket is closed. -/
theorem silent_after_loop (env : Env) (server : PanelServer) (now : ℚ) (h : Handler)
    (hreach : Reachable (Handler.step server env) (server.accept now) h)
    (hout : ¬h.place.InLoop) :
    (∀ as h', run (Handler.step server env) h as = some h' →
      h'.written = h.written ∧ ∃ new, h'.sess.log = h.sess.log ++ new ∧ Silent new) ∧
    (h.sess.closed = true ∧ ∀ t n q, (h.conn.world.tasks t).pc = .awaiting n q →
      ∃ f, h.sess.futures[n]? = some f ∧ f.state ≠ .pending) ∧
    (h.place = .ended → h.socketClosed = true ∧ h.writer.ended.isSome ∧
      (h.conn.sessionTask = true → h.session.ended.isSome)) := by
  have ho := orderly_of_reachable hreach
  obtain ⟨hclosed, -, hempty⟩ := ho.down hout
  refine ⟨fun as h' hrun => (run_silent ho hout as h' hrun).2.2, ⟨hclosed, ?_⟩, fun hend => ?_⟩
  · intro t n q hpc
    obtain ⟨r, -, -, f, hf, -, -, hreg⟩ := ho.conn.inv.awaited t n q hpc
    refine ⟨f, hf, fun hpending => ?_⟩
    have hl := hreg hpending
    rw [show h.conn.world.sess.pendingOf r.channel = ∅ from hempty _, AList.lookup_empty] at hl
    cases hl
  · obtain ⟨hwriter, hsession, hsocket⟩ := ho.finished (.inr hend)
    exact ⟨hsocket, hwriter, hsession⟩

/-- The connection that timed out, as it leaves the loop. -/
theorem silent_after_timeout : ∃ h : Handler, h.place = .awaitWriter ∧
    ∀ as h', run (Handler.step clearServer clearEnv) h as = some h' →
      h'.written = h.written ∧ ∃ new, h'.sess.log = h.sess.log ++ new ∧ Silent new := by
  have hplace : (timeoutPath 2).place = .awaitWriter := by decide +kernel
  exact ⟨timeoutPath 2, hplace, (silent_after_loop clearEnv clearServer 1 (timeoutPath 2)
    (timeoutPath_isPath.reachable 2) (by rw [hplace]; exact id)).1⟩

end Spcedp.Client.Handler
