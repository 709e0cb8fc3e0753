import Spcedp.Analysis.Acknowledgement
import Spcedp.Analysis.Queue
import Spcedp.Analysis.Segmentation
import Spcedp.Analysis.TheoremCodec
import Spcedp.Model.Connection

/-!
# The acknowledgements of a connection

On a connection from which no teardown was requested, every frame that gets an
acknowledgement has it queued at once, and no command precedes the first one
(`acknowledged_of_reachable`). `Sound` is the invariant of the read loop: what it has
received and queued so far, and what the session was started with.
-/

set_option autoImplicit false

namespace Spcedp.Client

open Lib.Transition Spcedp.Wire

/-! ## One acknowledgement -/

section Ack

variable (env : Env) {s : Session} {f : Frame} {m : MinorCode}

/-- **An acknowledgement can be encoded**, and the panel reads it as it should. -/
theorem ack_encode (hkey : ∀ k ∈ s.key, k.length = 16) (hpanel : s.panelId % 2 ^ 32 = s.panelId)
    (hf : FromWire f) (hm : ackMinor f = some m) :
    ∃ data g, (s.ack f m).encode env.aes s.key = .ok (data, g) ∧
      Acknowledges env s.receiverId s.key s.panelId f data := by
  obtain ⟨w, henc, -, hw⟩ := decode_encode env.aes (s.ack f m) s.key hkey (by
    show Frame.encryptedBit flagFromReceiver = false
    decide) hf.payload
  refine ⟨w, _, henc, _, m, hw.decode, hm, hf.sequence, rfl, hf.major, ?_, rfl, hpanel, rfl⟩
  show m.value % 2 ^ 8 = m.value
  cases m <;> rfl

end Ack

section Dispatch

variable {env : Env} {w w' : World} {f : Frame} {new : List Entry}

/-- A dispatched frame is entered once. -/
theorem Records.dispatched (hrec : Records env w (.dispatch f) w' new) :
    dispatchedFrames new = [f] ∧ .sessionStarted ∉ new := by
  cases hrec with
  | nothing hdispatch => exact absurd rfl (hdispatch f)
  | requested ha =>
      obtain h | ⟨cmd, h⟩ := ha <;> cases h
  | received => exact ⟨rfl, by simp⟩
  | acked => exact ⟨rfl, by simp⟩

/-- **A dispatched frame keeps the discipline**, unless a teardown is requested. -/
theorem Records.acknowledged (hrec : Records env w (.dispatch f) w' new)
    (hkey : ∀ k ∈ w.sess.key, k.length = 16) (hpanel : w.sess.panelId % 2 ^ 32 = w.sess.panelId)
    (hf : FromWire f) (hopen : w'.sess.teardownRequested = false)
    (h : Acknowledged env w.sess.receiverId w.sess.key w.sess.panelId w.sess.log) :
    Acknowledged env w.sess.receiverId w.sess.key w.sess.panelId (w.sess.log ++ new) := by
  cases hrec with
  | nothing hdispatch => exact absurd rfl (hdispatch f)
  | requested ha =>
      obtain h | ⟨cmd, h⟩ := ha <;> cases h
  | received _ _ hack =>
      apply h.append_received
      cases hm : ackMinor f with
      | none => rfl
      | some m =>
          obtain ⟨data, g, henc, -⟩ := ack_encode env hkey hpanel hf hm
          obtain ⟨e, he⟩ | hclosed := hack m hm
          · rw [henc] at he
            cases he
          · rw [hopen] at hclosed
            cases hclosed
  | @acked f m data g w' hm henc =>
      obtain ⟨data', g', henc', hdata⟩ := ack_encode env hkey hpanel hf hm
      rw [henc, Except.ok.injEq, Prod.mk.injEq] at henc'
      obtain ⟨rfl, rfl⟩ := henc'
      exact h.append_acked (by rw [hm]; rfl) (ack_not_request hm henc) hdata

end Dispatch

/-! ## The invariant of the read loop -/

/-- What holds between two turns of the event loop. -/
structure Sound (env : Env) (server : PanelServer) (c : Connection) : Prop where
  inv : Inv c.world
  receiverId : c.world.sess.receiverId = server.receiverId
  key : c.world.sess.key = server.key.val
  idle : c.sessionTask = false → ∀ t, (c.world.tasks t).pc = .idle
  before : c.handshakeStarted = false → c.sessionTask = false ∧ Silent c.world.sess.log
  behind : c.handshakeStarted = true → c.world.sess.panelId = panelIdOf c.world.sess.log ∧
    dispatchedFrames c.world.sess.log ≠ [] ∧
    c.world.sess.panelId % 2 ^ 32 = c.world.sess.panelId ∧
    (server.onSession = true → c.sessionTask = true)
  started : c.sessionTask = true ↔ .sessionStarted ∈ c.world.sess.log
  discipline : c.world.sess.teardownRequested = false →
    Acknowledged env server.receiverId server.key.val c.world.sess.panelId c.world.sess.log

section Loop

variable {env : Env} {server : PanelServer} {c c' : Connection}

/-- A new connection is sound. -/
theorem sound_connect (now : ℚ) : Sound env server (server.connect now) where
  inv := inv_new 0 server.receiverId server.key.val now
  receiverId := rfl
  key := rfl
  idle _ _ := rfl
  before _ := ⟨rfl, nofun⟩
  behind := nofun
  started := by simp [PanelServer.connect, World.new]
  discipline _ := acknowledged_of_silent nofun

/-- The decoder and the end of the loop do not matter. -/
theorem Sound.congr (h : Sound env server c) (hworld : c'.world = c.world)
    (hhandshake : c'.handshakeStarted = c.handshakeStarted)
    (htask : c'.sessionTask = c.sessionTask) : Sound env server c' := by
  obtain ⟨world, decoder, handshake, task, reading⟩ := c
  obtain ⟨world', decoder', handshake', task', reading'⟩ := c'
  dsimp only at hworld hhandshake htask
  subst hworld hhandshake htask
  exact ⟨h.1, h.2, h.3, h.4, h.5, h.6, h.7, h.8⟩

/-- The panel keeps the number that its first frame has given it. -/
theorem panelIdOf_append {log new : List Entry} (h : dispatchedFrames log ≠ []) :
    panelIdOf (log ++ new) = panelIdOf log := by
  unfold panelIdOf
  rw [dispatchedFrames_append, List.head?_append_of_ne_nil _ h]

/-- Tasks that have not been called stay so, unless one is called. -/
theorem idle_step {w w' : World} {a : Action} (hidle : ∀ t, (w.tasks t).pc = .idle)
    (hcall : ∀ t cmd, a ≠ .call t cmd) (hstep : w.step env a = some w') :
    (∀ t, (w'.tasks t).pc = .idle) ∧ ∀ t, a ≠ .resume t := by
  have hresume : ∀ t, a ≠ .resume t := by
    rintro t rfl
    simp [World.step, World.resume, hidle t] at hstep
  refine ⟨?_, hresume⟩
  cases step_change hstep with
  | segment hruns =>
      obtain h | ⟨cmd, h⟩ := (runs_session hruns).1
      · exact absurd h (hresume _)
      · exact absurd h (hcall _ cmd)
  | refused => exact absurd rfl (hcall _ _)
  | enqueued => exact absurd rfl (hcall _ _)
  | gaveUp => exact absurd rfl (hresume _)
  | @interrupted a t task ha hpc =>
      intro u
      dsimp only
      rw [Function.update_apply]
      split
      · exact hpc.trans (hidle t)
      · exact hidle u
  | dispatched => exact hidle
  | ticked => exact hidle
  | failed => exact hidle
  | closing => exact hidle
  | tornDown => exact hidle
  | wrote => exact hidle

/-- **The session between two chunks.** -/
theorem sound_session {a : Action} {w' : World} (h : Sound env server c)
    (hdispatch : ∀ f, a ≠ .dispatch f)
    (hcall : c.sessionTask = false → ∀ t cmd, a ≠ .call t cmd)
    (hstep : c.world.step env a = some w') : Sound env server { c with world := w' } := by
  obtain ⟨hkept, new, hlog, hrec⟩ := step_records h.inv hstep
  -- a request needs a command, and so the session
  have hsession (t : ℕ) (ha : a = .resume t ∨ ∃ cmd, a = .call t cmd) : c.sessionTask = true := by
    cases htask : c.sessionTask with
    | true => rfl
    | false =>
        obtain ha | ⟨cmd, ha⟩ := ha
        · exact absurd ha ((idle_step (h.idle htask) (hcall htask) hstep).2 t)
        · exact absurd ha (hcall htask t cmd)
  have hframes : dispatchedFrames new = [] := by
    cases hrec with
    | received => exact absurd rfl (hdispatch _)
    | acked => exact absurd rfl (hdispatch _)
    | _ => rfl
  refine ⟨inv_step h.inv hstep, hkept.receiverId.trans h.receiverId, hkept.key.trans h.key, ?_, ?_,
    ?_, ?_, ?_⟩
  · intro htask
    exact (idle_step (h.idle htask) (hcall htask) hstep).1
  · intro hhandshake
    obtain ⟨htask, hsilent⟩ := h.before hhandshake
    refine ⟨htask, ?_⟩
    show Silent w'.sess.log
    rw [hlog]
    intro e he
    rcases List.mem_append.mp he with he | he
    · exact hsilent e he
    · cases hrec with
      | nothing => cases he
      | ticked => exact ⟨_, List.mem_singleton.mp he⟩
      | requested ha =>
          rw [hsession _ ha] at htask
          cases htask
      | received => exact absurd rfl (hdispatch _)
      | acked => exact absurd rfl (hdispatch _)
  · intro hhandshake
    obtain ⟨hpanel, hne, hmod, hstarts⟩ := h.behind hhandshake
    dsimp only
    rw [hlog, panelIdOf_append hne, dispatchedFrames_append, hframes, List.append_nil,
      hkept.panelId]
    exact ⟨hpanel, hne, hmod, hstarts⟩
  · dsimp only
    rw [h.started, hlog, List.mem_append]
    refine ⟨.inl, fun hmem => hmem.elim id fun hmem => ?_⟩
    cases hrec <;> simp at hmem
  · dsimp only
    intro hopen
    have hdisc := h.discipline (hkept.wasOpen hopen)
    rw [hkept.panelId, hlog]
    cases hrec with
    | nothing =>
        rw [List.append_nil]
        exact hdisc
    | ticked => exact hdisc.append_ticked _
    | @requested a t k payload data g w' ha _ henc =>
        refine hdisc.append_request ?_ (h.started.mp (hsession t ha))
        rw [encode_ok_frame henc]
        exact ⟨k, rfl, rfl⟩
    | received => exact absurd rfl (hdispatch _)
    | acked => exact absurd rfl (hdispatch _)

/-- The history of a session, and where its frames go, do not matter to the tasks. -/
theorem inv_relabel {w : World} (hinv : Inv w) (panelId : ℤ) (log : List Entry) :
    Inv { w with sess := { w.sess with panelId := panelId, log := log } } :=
  inv_settles hinv (SameMaps.settles ⟨rfl, fun k => by cases k <;> rfl⟩ rfl)
    fun _ => ⟨rfl, rfl, rfl⟩

/-- The address of the panel while a frame is dispatched: the first frame gives it. -/
theorem Sound.addressed {f : Frame} (h : Sound env server c) (hf : FromWire f) : ∃ panelId : ℤ,
    (if c.handshakeStarted then c.world.sess else { c.world.sess with panelId := f.srcId }) =
      { c.world.sess with panelId := panelId } ∧ panelId % 2 ^ 32 = panelId ∧
    (c.world.sess.teardownRequested = false →
      Acknowledged env server.receiverId server.key.val panelId c.world.sess.log) ∧
    ∀ new, dispatchedFrames new = [f] → panelId = panelIdOf (c.world.sess.log ++ new) := by
  cases hhandshake : c.handshakeStarted with
  | true =>
      obtain ⟨hpanel, hne, hmod, -⟩ := h.behind hhandshake
      refine ⟨_, rfl, hmod, h.discipline, fun new _ => ?_⟩
      rw [panelIdOf_append hne, hpanel]
  | false =>
      obtain ⟨-, hsilent⟩ := h.before hhandshake
      refine ⟨f.srcId, rfl, hf.srcId, fun _ => acknowledged_of_silent hsilent, fun new hnew => ?_⟩
      unfold panelIdOf
      rw [dispatchedFrames_append, dispatchedFrames_silent hsilent, hnew]
      rfl

/-- **A frame.** The first one names the panel and starts the session. -/
theorem sound_handleFrame {f : Frame} (h : Sound env server c) (hf : FromWire f) :
    Sound env server (c.handleFrame server env f) := by
  obtain ⟨panelId, hpanelId, hmod, hsess, hfirst⟩ := h.addressed hf
  set w₀ : World := { c.world with sess := { c.world.sess with panelId := panelId } } with hw₀
  have hinv₀ : Inv w₀ := inv_relabel h.inv panelId c.world.sess.log
  obtain ⟨hkept, new, hlog, hrec⟩ := dispatch_records env w₀ f
  obtain ⟨hframes, hnostart⟩ := hrec.dispatched
  set s₁ : Session := (w₀.sess.dispatch env.aes w₀.now f).1 with hs₁
  have hinv₁ : Inv { w₀ with sess := s₁ } := inv_step (a := .dispatch f) hinv₀ rfl
  have hdisc : s₁.teardownRequested = false →
      Acknowledged env server.receiverId server.key.val panelId s₁.log := by
    intro hopen
    have hdisc₀ := hsess (hkept.wasOpen hopen)
    rw [← h.receiverId, ← h.key] at hdisc₀ ⊢
    rw [hlog]
    exact hrec.acknowledged (by rw [h.key]; exact server.key.property) hmod hf hopen hdisc₀
  have hstarted : c.sessionTask = true ↔ .sessionStarted ∈ s₁.log := by
    rw [h.started, hlog, List.mem_append]
    exact ⟨.inl, fun hmem => hmem.elim id fun hmem => absurd hmem hnostart⟩
  have hbehind : s₁.panelId = panelIdOf s₁.log ∧ dispatchedFrames s₁.log ≠ [] ∧
      s₁.panelId % 2 ^ 32 = s₁.panelId := by
    rw [hkept.panelId, hlog, dispatchedFrames_append, hframes]
    exact ⟨hfirst new hframes, by simp, hmod⟩
  unfold Connection.handleFrame
  rw [hpanelId]
  dsimp only
  cases hstarts : !c.sessionTask && server.onSession with
  | false =>
      rw [if_neg (by decide)]
      refine ⟨hinv₁, hkept.receiverId.trans h.receiverId, hkept.key.trans h.key, h.idle, nofun,
        fun _ => ⟨hbehind.1, hbehind.2.1, hbehind.2.2, fun hon => ?_⟩, hstarted, ?_⟩
      · simpa [hon] using hstarts
      · intro hopen
        exact hkept.panelId ▸ hdisc hopen
  | true =>
      rw [Bool.and_eq_true, Bool.not_eq_true'] at hstarts
      obtain ⟨htask, hon⟩ := hstarts
      -- the session starts behind the first frame
      have hsilent : Silent c.world.sess.log := by
        cases hhandshake : c.handshakeStarted with
        | false => exact (h.before hhandshake).2
        | true =>
            rw [(h.behind hhandshake).2.2.2 hon] at htask
            cases htask
      have hone : dispatchedFrames s₁.log = [f] := by
        rw [hlog, dispatchedFrames_append, dispatchedFrames_silent hsilent, hframes]
        rfl
      have hpanel : panelId = f.srcId := by
        rw [hfirst new hframes, ← hlog]
        unfold panelIdOf
        rw [hone]
        rfl
      rw [if_pos rfl]
      have hinv₂ := inv_relabel hinv₁ s₁.panelId (s₁.log ++ [.sessionStarted])
      refine ⟨hinv₂, hkept.receiverId.trans h.receiverId, hkept.key.trans h.key, nofun, nofun,
        fun _ => ⟨?_, ?_, hbehind.2.2, fun _ => rfl⟩, by simp, ?_⟩
      · exact hbehind.1.trans (panelIdOf_append hbehind.2.1).symm
      · dsimp only
        rw [dispatchedFrames_append, hone]
        simp
      · intro hopen
        show Acknowledged env server.receiverId server.key.val s₁.panelId
          (s₁.log ++ [.sessionStarted])
        rw [hkept.panelId]
        have hdisc₁ := hdisc hopen
        have hno : .sessionStarted ∉ s₁.log := by
          rw [← hstarted, htask]
          decide
        show Acknowledged env server.receiverId server.key.val panelId (s₁.log ++ [.sessionStarted])
        rw [hpanel] at hdisc₁ ⊢
        exact hdisc₁.append_started hno hone

/-- A chunk that decodes. -/
theorem readChunk_ok {data : Bytes} {decoder : FrameDecoder} {frames : List Frame}
    (hne : data ≠ []) (hfeed : c.decoder.feed env.aes data = (decoder, .ok frames)) :
    c.readChunk server env data =
      frames.foldl (Connection.handleFrame server env) { c with decoder := decoder } := by
  unfold Connection.readChunk
  split
  · exact absurd rfl hne
  · rw [hfeed]

/-- **A chunk.** -/
theorem sound_readChunk (h : Sound env server c) (data : Bytes) :
    Sound env server (c.readChunk server env data) := by
  have hstop (d : FrameDecoder) : Sound env server { c with decoder := d }.stop :=
    (sound_session h nofun (fun _ => nofun) (a := .teardown) rfl).congr rfl rfl rfl
  unfold Connection.readChunk
  split
  · exact hstop c.decoder
  · split
    · rename_i decoder frames hfeed
      have hframes := FrameDecoder.feed_fromWire hfeed
      have hstart : Sound env server { c with decoder := decoder } := h.congr rfl rfl rfl
      generalize { c with decoder := decoder } = c₀ at hstart
      clear hfeed
      induction frames generalizing c₀ with
      | nil => exact hstart
      | cons f frames ih =>
          exact ih (fun g hg => hframes g (List.mem_cons_of_mem f hg)) _
            (sound_handleFrame hstart (hframes f List.mem_cons_self))
    · exact hstop _

/-- **Every step keeps the invariant.** -/
theorem sound_step {a : ConnectionAction} (h : Sound env server c)
    (hstep : c.step server env a = some c') : Sound env server c' := by
  cases Connection.step_does hstep with
  | chunk => exact sound_readChunk h _
  | stopped => exact sound_readChunk h []
  | session hdispatch hcall hw =>
      refine sound_session h hdispatch (fun hno t cmd ha => ?_) hw
      rw [hcall t cmd ha] at hno
      cases hno

end Loop

/-! ## The theorem -/

/-- **Acknowledgement discipline**, on every connection from which no teardown was
requested. The history that it is about tells exactly what is on the queue: along every run that
leads there, the frames queued are those that the writer has taken off, and those on the queue. -/
theorem acknowledged_of_reachable (env : Env) (server : PanelServer) (now : ℚ) (c : Connection)
    (hreach : Reachable (Connection.step server env) (server.connect now) c)
    (hopen : c.world.sess.teardownRequested = false) :
    Acknowledged env server.receiverId server.key.val (panelIdOf c.world.sess.log)
        c.world.sess.log ∧
      ∀ as, run (Connection.step server env) (server.connect now) as = some c →
        queuedData c.world.sess.log =
          outputs (Connection.step server env) Connection.taken (server.connect now) as ++
            c.world.sess.writeQueue := by
  have h : Sound env server c := hreach.invariant (fun _ _ _ => sound_step) (sound_connect now)
  refine ⟨?_, fun as hrun => ?_⟩
  · cases hhandshake : c.handshakeStarted with
    | true => exact (h.behind hhandshake).1 ▸ h.discipline hopen
    | false => exact acknowledged_of_silent (h.before hhandshake).2
  · refine put_eq_outputs_append (fun c => queuedData c.world.sess.log)
      (fun c => c.world.sess.writeQueue) ?_ rfl as c hrun
    intro c₁ a c₂ hreach₁ hstep
    have h₁ : Sound env server c₁ :=
      hreach₁.invariant (fun _ _ _ => sound_step) (sound_connect now)
    obtain ⟨new, hlog, hqueue⟩ := connection_queued h₁.inv hstep
    exact ⟨queuedData new, by rw [hlog, queuedData_append], hqueue⟩

/-- A server without a key that starts a session. -/
def clearServer : PanelServer where
  receiverId := 1001
  key := .clear
  onSession := true

/-- A connection on which a captured POLL frame has come in. -/
theorem acknowledged_capturedPoll : ∃ c : Connection,
    dispatchedFrames c.world.sess.log = [capturedFrame] ∧ c.sessionTask = true ∧
    Acknowledged clearEnv 1001 none (panelIdOf c.world.sess.log) c.world.sess.log ∧
    queuedData c.world.sess.log = outputs (Connection.step clearServer clearEnv) Connection.taken
      (clearServer.connect 1) [.chunk capturedPoll] ++ c.world.sess.writeQueue := by
  have henc : capturedFrame.encode clearEnv.aes none = .ok (capturedPoll, capturedFrame) := by
    decide +kernel
  obtain ⟨w, henc', -, hw⟩ :=
    decode_encode clearEnv.aes capturedFrame none (by simp) rfl (by decide)
  rw [henc, Except.ok.injEq, Prod.mk.injEq] at henc'
  obtain ⟨rfl, hframe⟩ := henc'
  rw [← hframe] at hw
  have hfeed := FrameDecoder.feed_whole hw (by decide)
  have hread : (clearServer.connect 1).readChunk clearServer clearEnv capturedPoll =
      [capturedFrame.onWire].foldl (Connection.handleFrame clearServer clearEnv)
        (clearServer.connect 1) := readChunk_ok (by decide) hfeed
  have hstep : (clearServer.connect 1).step clearServer clearEnv (.chunk capturedPoll) =
      some ((clearServer.connect 1).handleFrame clearServer clearEnv capturedFrame.onWire) :=
    congrArg some hread
  obtain ⟨hack, hqueued⟩ := acknowledged_of_reachable clearEnv clearServer 1 _
    (Reachable.refl.snoc hstep) (by decide +kernel)
  refine ⟨_, ?_, ?_, hack, hqueued _ ?_⟩
  · decide +kernel
  · decide +kernel
  · rw [run_cons, hstep]
    rfl

end Spcedp.Client
