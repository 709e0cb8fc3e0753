import Spcedp.Analysis.History
import Spcedp.Interface.Handler

/-!
# The write queue

Nothing but the writer takes frames off the write queue: all other steps only add to its end
what they enter into the history (`Advances`). So the history tells, along every run, which frames
have been taken off and which are still waiting, in order (`queued_of_run`).
-/

set_option autoImplicit false

namespace Spcedp.Client

open Lib.Transition Spcedp.Wire

/-! ## What is added to the queue -/

/-- `ack` echoes `f`: it has the number, the major code and the payload of `f`, and the minor
code that acknowledges it. -/
structure Echoes (f ack : Frame) : Prop where
  sequence : ack.sequence = f.sequence
  major : ack.major = f.major
  minor : ∃ m, ackMinor f = some m ∧ ack.minor = m.value
  payload : ack.payload = f.payload

/-- The wire carries an echo whole: what came from the wire fits it. -/
theorem Echoes.onWire {f g : Frame} (hecho : Echoes f g) (hf : FromWire f) : Echoes f g.onWire := by
  obtain ⟨m, hm, hminor⟩ := hecho.minor
  refine ⟨?_, ?_, ⟨m, hm, ?_⟩, hecho.payload⟩
  · show g.sequence % 2 ^ 32 = f.sequence
    rw [hecho.sequence, hf.sequence]
  · show g.major % 2 ^ 8 = f.major
    rw [hecho.major, hf.major]
  · show g.minor % 2 ^ 8 = m.value
    rw [hminor]
    cases m <;> rfl

/-- What is entered as queued was encoded; it is a request, or echoes a frame that is entered
with it. -/
structure Entered (env : Env) (key : Option Bytes) (new : List Entry) : Prop where
  encoded : ∀ g data closed holders, .queued g data closed holders ∈ new →
    ∃ f : Frame, f.encode env.aes key = .ok (data, g) ∧ f.srcFlag = flagFromReceiver
  answered : ∀ g data closed holders, .queued g data closed holders ∈ new → ¬IsRequest g →
    ∃ f, .dispatched f ∈ new ∧ Echoes f g

/-- What was entered first is not affected by what comes later. -/
theorem Entered.append {env : Env} {key : Option Bytes} {log new : List Entry}
    (h : Entered env key log) (h' : Entered env key new) : Entered env key (log ++ new) := by
  refine ⟨fun g data closed holders hmem => ?_, fun g data closed holders hmem hreq => ?_⟩
  · rcases List.mem_append.mp hmem with hmem | hmem
    · exact h.encoded g data closed holders hmem
    · exact h'.encoded g data closed holders hmem
  · rcases List.mem_append.mp hmem with hmem | hmem
    · obtain ⟨f, hf, hecho⟩ := h.answered g data closed holders hmem hreq
      exact ⟨f, List.mem_append_left _ hf, hecho⟩
    · obtain ⟨f, hf, hecho⟩ := h'.answered g data closed holders hmem hreq
      exact ⟨f, List.mem_append_right _ hf, hecho⟩

/-- Entries that are not about the queue. -/
theorem entered_of_not_queued {env : Env} {key : Option Bytes} {new : List Entry}
    (h : ∀ g data closed holders, .queued g data closed holders ∉ new) : Entered env key new :=
  ⟨fun g data closed holders hmem => absurd hmem (h g data closed holders),
    fun g data closed holders hmem => absurd hmem (h g data closed holders)⟩

/-- The history grows, and the queue by the frames that are entered in it. The address of the
receiver and the key stay, and what is closed stays closed. -/
structure Advances (env : Env) (s s' : Session) : Prop where
  receiverId : s'.receiverId = s.receiverId
  key : s'.key = s.key
  closed : s.closed = true → s'.closed = true
  teardownRequested : s.teardownRequested = true → s'.teardownRequested = true
  queued : ∃ new, s'.log = s.log ++ new ∧ s'.writeQueue = s.writeQueue ++ queuedData new ∧
    Entered env s.key new

/-- Where nothing happens, nothing is added. -/
theorem Advances.refl (env : Env) (s : Session) : Advances env s s :=
  ⟨rfl, rfl, id, id, [], by simp, by simp [queuedData], entered_of_not_queued (by simp)⟩

/-- What two steps add is added in a row. -/
theorem Advances.trans {env : Env} {s s' s'' : Session} (h : Advances env s s')
    (h' : Advances env s' s'') : Advances env s s'' := by
  obtain ⟨new, hlog, hqueue, hnew⟩ := h.queued
  obtain ⟨new', hlog', hqueue', hnew'⟩ := h'.queued
  refine ⟨h'.receiverId.trans h.receiverId, h'.key.trans h.key, h'.closed ∘ h.closed,
    h'.teardownRequested ∘ h.teardownRequested, new ++ new', ?_, ?_, hnew.append (h.key ▸ hnew')⟩
  · rw [hlog', hlog, List.append_assoc]
  · rw [hqueue', hqueue, queuedData_append, List.append_assoc]

/-- History and queue are as they were. -/
theorem Kept.advances {env : Env} {s s' : Session} (h : Kept s s') (hlog : s'.log = s.log)
    (hqueue : s'.writeQueue = s.writeQueue) : Advances env s s' :=
  ⟨h.receiverId, h.key, h.closed, h.teardownRequested, [], by rw [hlog, List.append_nil],
    by rw [hqueue]; exact (List.append_nil _).symm, entered_of_not_queued (by simp)⟩

section Steps

variable {env : Env} {w w' : World} {a : Action}

/-- What a segment adds. -/
theorem ends_queued {now : ℚ} {s s' : Session} {r : Request} {given : Option Bytes} {pc : Pc}
    {last last' : Option (Frame × ℕ)} (h : Ends env now s r given last s' pc last') :
    ∃ new, s'.log = s.log ++ new ∧ s'.writeQueue = s.writeQueue ++ queuedData new ∧
      Entered env s.key new := by
  have hsame (hlog : s'.log = s.log) (hqueue : s'.writeQueue = s.writeQueue) :
      ∃ new, s'.log = s.log ++ new ∧ s'.writeQueue = s.writeQueue ++ queuedData new ∧
        Entered env s.key new :=
    ⟨[], by rw [hlog, List.append_nil], by rw [hqueue]; exact (List.append_nil _).symm,
      entered_of_not_queued (by simp)⟩
  obtain ⟨nextSeq, xml, bin, futures, heq⟩ := registered_session s r.channel
  cases h with
  | stopped => exact hsame rfl rfl
  | asleep => exact hsame rfl rfl
  | unbuilt => exact hsame rfl rfl
  | unencoded => exact hsame (by rw [heq]) (by rw [heq])
  | sent _ hres =>
      rw [heq] at hres
      obtain ⟨data, g, henc, ⟨-, rfl⟩ | ⟨-, warned, rfl⟩⟩ := Session.send_cases hres
      · exact hsame rfl rfl
      · refine ⟨_, rfl, rfl, ?_, ?_⟩
        · intro g' data' closed holders hmem
          rw [List.mem_singleton, Entry.queued.injEq] at hmem
          obtain ⟨rfl, rfl, -, -⟩ := hmem
          exact ⟨_, henc, rfl⟩
        · intro g' data' closed holders hmem hreq
          rw [List.mem_singleton, Entry.queued.injEq] at hmem
          obtain ⟨rfl, -, -, -⟩ := hmem
          refine absurd ⟨r.channel, ?_⟩ hreq
          rw [encode_ok_frame henc]
          exact ⟨rfl, rfl⟩

/-- What a dispatched frame adds. -/
theorem dispatch_advances (env : Env) (w : World) (f : Frame) :
    Advances env w.sess (w.sess.dispatch env.aes w.now f).1 := by
  obtain ⟨hkept, new, hlog, hrec⟩ := dispatch_records env w f
  refine ⟨hkept.receiverId, hkept.key, hkept.closed, hkept.teardownRequested, new, hlog, ?_⟩
  cases hrec with
  | nothing hdispatch => exact absurd rfl (hdispatch _)
  | requested ha => obtain h | ⟨cmd, h⟩ := ha <;> cases h
  | received _ _ _ hqueue =>
      exact ⟨hqueue.trans (List.append_nil _).symm, entered_of_not_queued (by simp)⟩
  | @acked f m data g w' hm henc hnow hlast hqueue =>
      refine ⟨hqueue, ?_, ?_⟩
      · intro g' data' closed holders hmem
        simp only [List.mem_cons, reduceCtorEq, Entry.queued.injEq, List.not_mem_nil, or_false,
          false_or] at hmem
        obtain ⟨rfl, rfl, -, -⟩ := hmem
        exact ⟨_, henc, rfl⟩
      · intro g' data' closed holders hmem _
        simp only [List.mem_cons, reduceCtorEq, Entry.queued.injEq, List.not_mem_nil, or_false,
          false_or] at hmem
        obtain ⟨rfl, -, -, -⟩ := hmem
        rw [encode_ok_frame henc]
        exact ⟨f, List.mem_cons_self, rfl, rfl, ⟨m, hm, rfl⟩, rfl⟩

/-- **A step that is not the writer's** only adds to the queue. -/
theorem step_advances (hinv : Inv w) (hstep : w.step env a = some w') (hwrite : a ≠ .write) :
    Advances env w.sess w'.sess := by
  obtain ⟨hkept, -⟩ := step_records hinv hstep
  cases step_change hstep with
  | @segment a t r s given seg hruns hseg =>
      obtain ⟨-, lock, xml, bin, rfl⟩ := runs_session hruns
      obtain ⟨lock', hsettle⟩ := settle_session w t seg
      refine ⟨hkept.receiverId, hkept.key, hkept.closed, hkept.teardownRequested, ?_⟩
      obtain ⟨new, hlog, hqueue, hnew⟩ := ends_queued hseg.ends
      rw [hsettle]
      exact ⟨new, hlog, hqueue, hnew⟩
  | refused => exact hkept.advances rfl rfl
  | enqueued => exact hkept.advances rfl rfl
  | gaveUp => exact hkept.advances rfl rfl
  | @interrupted a t =>
      apply hkept.advances
      · dsimp only
        unfold World.interrupt
        split <;> rfl
      · dsimp only
        unfold World.interrupt
        split <;> rfl
  | dispatched => exact dispatch_advances env w _
  | @ticked d =>
      exact ⟨rfl, rfl, id, id, [.ticked d], rfl, (List.append_nil _).symm,
        entered_of_not_queued (by simp)⟩
  | failed => exact hkept.advances rfl rfl
  | closing => exact hkept.advances rfl rfl
  | tornDown => exact hkept.advances rfl rfl
  | wrote => exact absurd rfl hwrite

end Steps

section Loop

variable {env : Env} {c : Connection}

/-- A connection that stops. -/
theorem stop_advances : Advances env c.world.sess c.stop.world.sess :=
  ⟨rfl, rfl, fun _ => rfl, fun _ => rfl, [], (List.append_nil _).symm, (List.append_nil _).symm,
    entered_of_not_queued (by simp)⟩

/-- **One frame.** -/
theorem handleFrame_advances (server : PanelServer) (env : Env) (c : Connection) (f : Frame) :
    Advances env c.world.sess (c.handleFrame server env f).world.sess ∧
      (c.sessionTask = true → (c.handleFrame server env f).sessionTask = true) := by
  have hdispatch (panelId : ℤ) :
      Advances env c.world.sess ({ c.world.sess with panelId := panelId }.dispatch env.aes
        c.world.now f).1 := by
    have hstep := dispatch_advances env
      { c.world with sess := { c.world.sess with panelId := panelId } } f
    exact ⟨hstep.1, hstep.2, hstep.3, hstep.4, hstep.5⟩
  have hsess : ∃ panelId : ℤ,
      (if c.handshakeStarted then c.world.sess else { c.world.sess with panelId := f.srcId }) =
        { c.world.sess with panelId := panelId } := by
    split
    · exact ⟨c.world.sess.panelId, rfl⟩
    · exact ⟨f.srcId, rfl⟩
  obtain ⟨panelId, hsess⟩ := hsess
  unfold Connection.handleFrame
  rw [hsess]
  dsimp only
  split
  · refine ⟨(hdispatch panelId).trans ⟨rfl, rfl, id, id, [.sessionStarted], rfl, ?_,
      entered_of_not_queued (by simp)⟩, fun _ => rfl⟩
    exact (List.append_nil _).symm
  · exact ⟨hdispatch panelId, id⟩

/-- A row of frames only adds to the queue. -/
theorem foldl_handleFrame_advances (server : PanelServer) (env : Env) (frames : List Frame)
    (c : Connection) : Advances env c.world.sess
        (frames.foldl (Connection.handleFrame server env) c).world.sess ∧
      (c.sessionTask = true →
        (frames.foldl (Connection.handleFrame server env) c).sessionTask = true) := by
  induction frames generalizing c with
  | nil => exact ⟨.refl _ _, id⟩
  | cons f frames ih =>
      obtain ⟨hfirst, htask⟩ := handleFrame_advances server env c f
      obtain ⟨hrest, htask'⟩ := ih (c.handleFrame server env f)
      exact ⟨hfirst.trans hrest, htask' ∘ htask⟩

/-- **A chunk** only adds to the queue. -/
theorem readChunk_advances (server : PanelServer) (env : Env) (c : Connection) (data : Bytes) :
    Advances env c.world.sess (c.readChunk server env data).world.sess ∧
      (c.sessionTask = true → (c.readChunk server env data).sessionTask = true) := by
  obtain ⟨d, frames, -, hread⟩ | ⟨d, hread⟩ :=
    readChunk_cases server env c data
  · rw [hread]
    exact foldl_handleFrame_advances server env frames { c with decoder := d }
  · rw [hread]
    exact ⟨stop_advances, id⟩

end Loop

/-! ## What is taken off the queue -/

section Taken

variable {env : Env} {w w' : World} {a : Action}

/-- The frames that a step takes off the queue. -/
def World.taken (w : World) : Action → List Bytes
  | .write => w.sess.writeQueue.take 1
  | _ => []

/-- What is in the queue stays there, behind what the writer takes off, and before what is
entered. -/
theorem step_queued (hinv : Inv w) (hstep : w.step env a = some w') :
    ∃ new, w'.sess.log = w.sess.log ++ new ∧
      w.taken a ++ w'.sess.writeQueue = w.sess.writeQueue ++ queuedData new := by
  by_cases hwrite : a = .write
  · subst hwrite
    simp only [World.step] at hstep
    split at hstep
    · cases hstep
    · rename_i data rest hqueue
      cases hstep
      refine ⟨[], (List.append_nil _).symm, ?_⟩
      unfold World.taken
      rw [hqueue]
      exact (List.append_nil _).symm
  · obtain ⟨new, hlog, hqueue, -⟩ := (step_advances hinv hstep hwrite).queued
    refine ⟨new, hlog, ?_⟩
    have hnone : w.taken a = [] := by
      unfold World.taken
      split
      · exact absurd rfl hwrite
      · rfl
    rw [hnone, List.nil_append, hqueue]

/-- **The frames queued so far** are those that were taken off, and those that still wait. -/
theorem queued_of_run {panelId receiverId : ℤ} {key : Option Bytes} {now : ℚ} {as : List Action}
    (hrun : run (World.step env) (World.new panelId receiverId key now) as = some w) :
    queuedData w.sess.log =
      outputs (World.step env) World.taken (World.new panelId receiverId key now) as ++
        w.sess.writeQueue := by
  refine put_eq_outputs_append (fun w => queuedData w.sess.log) (fun w => w.sess.writeQueue) ?_ rfl
    as w hrun
  intro w₁ a w₂ hreach hstep
  have hinv : Inv w₁ :=
    hreach.invariant (fun _ _ _ => inv_step) (inv_new panelId receiverId key now)
  obtain ⟨new, hlog, hqueue⟩ := step_queued hinv hstep
  exact ⟨queuedData new, by rw [hlog, queuedData_append], hqueue⟩

/-- The frames that a step of a connection takes off the queue. -/
def Connection.taken (c : Connection) : ConnectionAction → List Bytes
  | .session a => c.world.taken a
  | _ => []

/-- The queue after a step of a connection. -/
theorem connection_queued {server : PanelServer} {c c' : Connection} {a : ConnectionAction}
    (hinv : Inv c.world) (hstep : c.step server env a = some c') :
    ∃ new, c'.world.sess.log = c.world.sess.log ++ new ∧
      c.taken a ++ c'.world.sess.writeQueue = c.world.sess.writeQueue ++ queuedData new := by
  have hread (data : Bytes) :
      ∃ new, (c.readChunk server env data).world.sess.log = c.world.sess.log ++ new ∧
        (c.readChunk server env data).world.sess.writeQueue =
          c.world.sess.writeQueue ++ queuedData new := by
    obtain ⟨new, hlog, hqueue, -⟩ := (readChunk_advances server env c data).1.queued
    exact ⟨new, hlog, hqueue⟩
  cases Connection.step_does hstep with
  | chunk => exact hread _
  | stopped => exact hread []
  | session _ _ hw => exact step_queued hinv hw

end Taken

end Spcedp.Client
