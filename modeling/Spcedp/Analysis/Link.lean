import Spcedp.Analysis.TheoremOutbound
import Spcedp.Interface.Link

/-!
# The two ends of a link

What the handler hands to `_dispatch` is what its decoder returns (`step_received`), and what it
writes was queued. `Synced` is the invariant of the link: in either direction, what the decoder
of one end has returned and the bytes on their way are what the other end has sent, as long as
the frames are short enough to be cut anywhere (`Cuttable`).
-/

set_option autoImplicit false

namespace Spcedp.Client

open Lib.Transition Spcedp.Wire Spcedp.Wire.FrameDecoder

/-! ## What is received -/

section Receive

variable {server : PanelServer} {env : Env}

/-- One frame is dispatched. -/
theorem handleFrame_dispatched (server : PanelServer) (env : Env) (c : Connection) (f : Frame) :
    dispatchedFrames (c.handleFrame server env f).world.sess.log =
        dispatchedFrames c.world.sess.log ++ [f] ∧
      (c.handleFrame server env f).decoder = c.decoder := by
  have hdispatch (panelId : ℤ) :
      dispatchedFrames ({ c.world.sess with panelId := panelId }.dispatch env.aes
        c.world.now f).1.log = dispatchedFrames c.world.sess.log ++ [f] := by
    obtain ⟨-, new, hlog, hrec⟩ := dispatch_records env
      { c.world with sess := { c.world.sess with panelId := panelId } } f
    rw [hlog, dispatchedFrames_append, hrec.dispatched.1]
  have hsess : ∃ panelId : ℤ,
      (if c.handshakeStarted then c.world.sess else { c.world.sess with panelId := f.srcId }) =
        { c.world.sess with panelId := panelId } := by
    split
    · exact ⟨c.world.sess.panelId, rfl⟩
    · exact ⟨f.srcId, rfl⟩
  obtain ⟨panelId, hsess⟩ := hsess
  unfold Connection.handleFrame
  rw [hsess]
  dsimp only
  split
  · refine ⟨?_, rfl⟩
    dsimp only
    rw [dispatchedFrames_append, hdispatch]
    exact List.append_nil _
  · exact ⟨hdispatch panelId, rfl⟩

/-- **The frames of a chunk are dispatched**, in order. -/
theorem foldl_handleFrame_dispatched (server : PanelServer) (env : Env) (frames : List Frame)
    (c : Connection) :
    dispatchedFrames (frames.foldl (Connection.handleFrame server env) c).world.sess.log =
        dispatchedFrames c.world.sess.log ++ frames ∧
      (frames.foldl (Connection.handleFrame server env) c).decoder = c.decoder := by
  induction frames generalizing c with
  | nil => exact ⟨(List.append_nil _).symm, rfl⟩
  | cons f frames ih =>
      obtain ⟨hfirst, hdecoder⟩ := handleFrame_dispatched server env c f
      obtain ⟨hrest, hdecoder'⟩ := ih (c.handleFrame server env f)
      refine ⟨?_, hdecoder'.trans hdecoder⟩
      rw [List.foldl_cons, hrest, hfirst, List.append_assoc]
      rfl

/-- What has been read of the socket and not been decoded yet, as long as the loop goes on. -/
def Place.chunk : Place → Option Bytes
  | .reading => some []
  | .reclaiming (.data chunk) => some chunk
  | _ => none

namespace Handler

/-- The frames that have been handed to `_dispatch`. -/
def received (h : Handler) : List Frame := dispatchedFrames h.sess.log

/-- What a step does to the bytes that come in. -/
inductive Receives (env : Env) (h : Handler) : HandlerAction → Handler → Prop
  | took {chunk h'} : h.place = .reading → h'.place = .reclaiming (.data chunk) →
      h'.conn = h.conn → Receives env h (.read (.data chunk)) h'
  | decoded {chunk d now h'} : h.place = .reclaiming (.data chunk) →
      h.conn.decoder.feed env.aes chunk = (d, .ok now) → h'.received = h.received ++ now →
      (h'.place = .reading ∧ h'.conn.decoder = d ∨ h'.place.chunk = none) →
      Receives env h .reclaim h'
  | left {a h'} : a.BringsData = false → h'.received = h.received → h'.place.chunk = none →
      Receives env h a h'
  | idle {a h'} : a.BringsData = false → h'.received = h.received → h'.place.chunk = h.place.chunk →
      h'.conn.decoder = h.conn.decoder → Receives env h a h'

variable {h h' : Handler} {a : HandlerAction}

/-- **The turn of the loop on a chunk.** -/
theorem turn_receives {chunk : Bytes} (hplace : h.place = .reclaiming (.data chunk)) :
    Receives env h .reclaim (h.turn server env (.data chunk)) := by
  have hteardown (conn : Connection) : (h.teardown conn).place.chunk = none := rfl
  unfold turn
  dsimp only
  obtain ⟨d, now, hfeed, hread⟩ | ⟨d, hread⟩ :=
    readChunk_cases server env h.conn chunk
  · obtain ⟨hreceived, hdecoder⟩ := foldl_handleFrame_dispatched server env now
      { h.conn with decoder := d }
    rw [← hread] at hreceived hdecoder
    split
    · exact .decoded hplace hfeed hreceived (.inr (hteardown _))
    · split
      · exact .decoded hplace hfeed hreceived (.inr (hteardown _))
      · exact .decoded hplace hfeed hreceived (.inl ⟨rfl, hdecoder⟩)
  · have hstopped : (Connection.stop { h.conn with decoder := d }).reading = false := rfl
    rw [hread, hstopped, Bool.not_false, if_pos rfl]
    exact .left rfl rfl (hteardown _)

/-- What the application does brings no frames. -/
theorem app_received {action : Action} {w : World} (hinv : Inv h.conn.world)
    (happ : action.FromApp = true) (hw : h.conn.world.step env action = some w) :
    dispatchedFrames w.sess.log = h.received := by
  obtain ⟨-, new, hlog, hrec⟩ := step_records hinv hw
  rw [hlog, dispatchedFrames_append]
  have hnew : dispatchedFrames new = [] := by
    cases hrec with
    | received => cases happ
    | acked => cases happ
    | _ => rfl
  rw [hnew, List.append_nil]
  rfl

/-- **The bytes that come in**, step by step. -/
theorem step_received (ho : Orderly env server h) (hstep : h.step server env a = some h') :
    Receives env h a h' := by
  cases step_does hstep with
  | @read r hplace =>
      cases r with
      | data chunk => exact .took hplace rfl rfl
      | _ => exact .left rfl rfl rfl
  | @turned r hplace =>
      cases r with
      | data chunk => exact turn_receives hplace
      | _ => exact .left rfl rfl rfl
  | recancelled => exact .left rfl rfl rfl
  | absorbed => exact .idle rfl rfl rfl rfl
  | joined => exact .left rfl rfl rfl
  | closed => exact .left rfl rfl rfl
  | left ha => exact .left (by obtain rfl | rfl := ha <;> rfl) rfl rfl
  | stopped => exact .idle rfl rfl rfl rfl
  | drained => exact .idle rfl rfl rfl rfl
  | wrote => exact .idle rfl rfl rfl rfl
  | failed => exact .idle rfl rfl rfl rfl
  | lost => exact .idle rfl rfl rfl rfl
  | @writerDone e => exact .idle rfl (by cases e <;> rfl) rfl rfl
  | sessionEnded => exact .idle rfl rfl rfl rfl
  | @sessionDone e => exact .idle rfl (by cases e <;> rfl) rfl rfl
  | app happ _ hw => exact .idle rfl (app_received ho.conn.inv happ hw) rfl rfl

end Handler

end Receive

/-! ## From the panel to the receiver -/

/-- The bytes that an action takes off the socket. -/
def HandlerAction.taken : HandlerAction → Bytes
  | .read (.data chunk) => chunk
  | _ => []

/-- Without data nothing is taken off the wire. -/
theorem HandlerAction.taken_eq_nil {a : HandlerAction} (h : a.BringsData = false) :
    a.taken = [] := by
  unfold BringsData at h
  split at h
  · cases h
  · rename_i hdata
    cases a with
    | read r =>
        cases r with
        | data chunk =>
            cases chunk with
            | nil => rfl
            | cons b chunk => exact absurd rfl (hdata b chunk)
        | _ => rfl
    | _ => rfl

section Directions

variable {env : Env} {key : Option Bytes} {frames inbound : List Frame} {h h' : Handler}
  {a : HandlerAction} {toReceiver toPanel : Bytes} {d : FrameDecoder}

/-- The panel has sent `frames`, and `toReceiver` is on its way. What the decoder has not been
fed is in the hands of the read loop, or still to come. -/
def Inbound (env : Env) (key : Option Bytes) (frames : List Frame) (h : Handler)
    (toReceiver : Bytes) : Prop :=
  ∃ sent : List (Sent env.aes key), sent.map Sent.frame = frames.map Frame.onWire ∧
    h.received <+: sent.map Sent.frame ∧ (∀ s ∈ sent, s.wire.length ≤ maxCutFrame) ∧
    ∀ chunk ∈ h.place.chunk, ∃ seen, stream sent = seen ++ chunk ++ toReceiver ∧
      Tracks sent seen h.conn.decoder h.received

/-- **The panel sends another frame.** -/
theorem Inbound.send (hin : Inbound env key frames h toReceiver) {g : Frame} {data : Bytes}
    (hwhole : WholeFrame env.aes key data g.onWire) (hshort : data.length ≤ maxCutFrame) :
    Inbound env key (frames ++ [g]) h (toReceiver ++ data) := by
  obtain ⟨sent, hframes, hprefix, hsent, htracks⟩ := hin
  have hle : data.length ≤ maxPlausibleFrame := by
    simp only [maxCutFrame, headerLen, resyncLimit, maxPlausibleFrame] at hshort ⊢
    omega
  set s : Sent env.aes key := ⟨data, g.onWire, hwhole, hle⟩ with hs
  refine ⟨sent ++ [s], ?_, ?_, ?_, ?_⟩
  · rw [List.map_append, List.map_append, hframes]
    rfl
  · rw [List.map_append]
    exact hprefix.trans (List.prefix_append _ _)
  · intro s' hs'
    rcases List.mem_append.mp hs' with hs' | hs'
    · exact hsent s' hs'
    · rw [List.mem_singleton.mp hs']
      exact hshort
  · intro chunk hchunk
    obtain ⟨seen, hstream, htrack⟩ := htracks chunk hchunk
    refine ⟨seen, ?_, htrack.send ?_ s⟩
    · rw [stream_append, hstream, stream_cons, stream_nil, List.append_nil, List.append_assoc]
    · rw [hstream, List.append_assoc]
      exact List.prefix_append _ _

/-- **The receiver goes on.** -/
theorem Inbound.receive {rest : Bytes} (hin : Inbound env key frames h toReceiver)
    (hreceives : h.Receives env a h') (hbytes : toReceiver = a.taken ++ rest) :
    Inbound env key frames h' rest := by
  obtain ⟨sent, hframes, hprefix, hsent, htracks⟩ := hin
  cases hreceives with
  | @took chunk _ hplace hplace' hconn =>
      have hreceived : h'.received = h.received := by
        unfold Handler.received Handler.sess
        rw [hconn]
      refine ⟨sent, hframes, hreceived ▸ hprefix, hsent, fun chunk' hchunk' => ?_⟩
      rw [hplace'] at hchunk'
      cases hchunk'
      obtain ⟨seen, hstream, htrack⟩ := htracks [] (by rw [hplace]; rfl)
      refine ⟨seen, ?_, by rw [hconn, hreceived]; exact htrack⟩
      rw [hstream, hbytes, List.append_nil, List.append_assoc]
      rfl
  | @decoded chunk d now _ hplace hfeed hreceived hgoes =>
      obtain ⟨seen, hstream, htrack⟩ := htracks chunk (by rw [hplace]; rfl)
      obtain ⟨d', now', hfeed', htrack'⟩ :=
        htrack.feed hsent (hstream ▸ List.prefix_append _ _)
      rw [hfeed, Prod.mk.injEq, Except.ok.injEq] at hfeed'
      obtain ⟨rfl, rfl⟩ := hfeed'
      refine ⟨sent, hframes, hreceived ▸ htrack'.out_prefix, hsent, fun chunk' hchunk' => ?_⟩
      obtain ⟨hplace', hdecoder⟩ | hnone := hgoes
      · rw [hplace'] at hchunk'
        cases hchunk'
        refine ⟨seen ++ chunk, ?_, by rw [hdecoder, hreceived]; exact htrack'⟩
        rw [hstream, hbytes, List.append_nil]
        rfl
      · rw [hnone] at hchunk'
        cases hchunk'
  | left _ hreceived hnone =>
      refine ⟨sent, hframes, hreceived ▸ hprefix, hsent, fun chunk' hchunk' => ?_⟩
      rw [hnone] at hchunk'
      cases hchunk'
  | idle ha hreceived hplace hdecoder =>
      rw [a.taken_eq_nil ha, List.nil_append] at hbytes
      subst hbytes
      refine ⟨sent, hframes, hreceived ▸ hprefix, hsent, fun chunk' hchunk' => ?_⟩
      rw [hdecoder, hreceived]
      exact htracks chunk' (hplace ▸ hchunk')

/-! ## From the receiver to the panel -/

/-- The frames queued, as the panel will read them, with their bytes. -/
def queuedFrames (log : List Entry) : List (Frame × Bytes) :=
  log.filterMap fun
    | .queued g data _ _ => some (g.onWire, data)
    | _ => none

/-- The frames queued by two parts of the history. -/
theorem queuedFrames_append (log new : List Entry) :
    queuedFrames (log ++ new) = queuedFrames log ++ queuedFrames new := List.filterMap_append

/-- The bytes of the frames queued are the bytes queued. -/
theorem map_snd_queuedFrames (log : List Entry) :
    (queuedFrames log).map Prod.snd = queuedData log := by
  unfold queuedFrames queuedData
  rw [List.map_filterMap]
  congr 1
  funext e
  cases e <;> rfl

/-- A frame that is queued has its entry in the history. -/
theorem mem_queuedFrames {log : List Entry} {f : Frame} {data : Bytes}
    (hmem : (f, data) ∈ queuedFrames log) :
    ∃ g closed holders, .queued g data closed holders ∈ log ∧ f = g.onWire := by
  obtain ⟨e, he, hsome⟩ := List.mem_filterMap.mp hmem
  cases e with
  | queued g data' closed holders =>
      cases hsome
      exact ⟨g, closed, holders, he, rfl⟩
  | ticked => cases hsome
  | dispatched => cases hsome
  | sessionStarted => cases hsome

/-- The handler has written the first ones of the frames in its history, and `toPanel` is on its
way. The rest has been fed to the decoder `d` of the panel, which returned `inbound`. -/
def Outbound (env : Env) (key : Option Bytes) (h : Handler) (toPanel : Bytes) (d : FrameDecoder)
    (inbound : List Frame) : Prop :=
  ∃ (sent : List (Sent env.aes key)) (seen : Bytes),
    sent.map (fun s => (s.frame, s.wire)) <+: queuedFrames h.sess.log ∧
    sent.map Sent.wire = h.written ∧ (∀ s ∈ sent, s.wire.length ≤ maxCutFrame) ∧
    stream sent = seen ++ toPanel ∧ Tracks sent seen d inbound

/-- **The panel reads on.** -/
theorem Outbound.read {c rest : Bytes} (hout : Outbound env key h toPanel d inbound)
    (hbytes : toPanel = c ++ rest) :
    ∃ d' now, d.feed env.aes c = (d', .ok now) ∧
      Outbound env key h rest d' (inbound ++ now) := by
  obtain ⟨sent, seen, hqueued, hwritten, hsent, hstream, htrack⟩ := hout
  rw [hbytes, ← List.append_assoc] at hstream
  obtain ⟨d', now, hfeed, htrack'⟩ := htrack.feed hsent (hstream ▸ List.prefix_append _ _)
  exact ⟨d', now, hfeed, sent, seen ++ c, hqueued, hwritten, hsent, hstream, htrack'⟩

/-- The history goes on, and nothing is written. -/
theorem Outbound.stay (hout : Outbound env key h toPanel d inbound)
    (hlog : h.sess.log <+: h'.sess.log) (hwritten : h'.written = h.written) :
    Outbound env key h' (toPanel ++ (h'.written.drop h.written.length).flatten) d inbound := by
  obtain ⟨sent, seen, hqueued, hwires, hsent, hstream, htrack⟩ := hout
  obtain ⟨new, hnew⟩ := hlog
  refine ⟨sent, seen, ?_, hwires.trans hwritten.symm, hsent, ?_, htrack⟩
  · rw [← hnew, queuedFrames_append]
    exact hqueued.trans (List.prefix_append _ _)
  · rw [hwritten, List.drop_length, List.flatten_nil, List.append_nil]
    exact hstream

/-- **The writer writes the next frame.** -/
theorem Outbound.write {data : Bytes} (hkey : ∀ k ∈ key, k.length = 16)
    (hentered : Entered env key h.sess.log)
    (hshort : ∀ data ∈ queuedData h.sess.log, data.length ≤ maxCutFrame)
    (hout : Outbound env key h toPanel d inbound) (hlog : h'.sess.log = h.sess.log)
    (hwritten : h'.written = h.written ++ [data])
    (hnext : h.written ++ [data] <+: queuedData h.sess.log) :
    Outbound env key h' (toPanel ++ (h'.written.drop h.written.length).flatten) d inbound := by
  obtain ⟨sent, seen, ⟨rest, hqueued⟩, hwires, hsent, hstream, htrack⟩ := hout
  -- the next one in the history
  have hrest : [data] <+: rest.map Prod.snd := by
    rw [← map_snd_queuedFrames, ← hqueued, List.map_append, List.map_map] at hnext
    have hmap : sent.map (Prod.snd ∘ fun s => (s.frame, s.wire)) = h.written := hwires
    rwa [hmap, List.prefix_append_right_inj] at hnext
  obtain ⟨f, more, rfl⟩ : ∃ f more, rest = (f, data) :: more := by
    cases rest with
    | nil => simp at hrest
    | cons p more =>
        rw [List.map_cons, List.cons_prefix_cons] at hrest
        exact ⟨p.1, more, by rw [hrest.1]⟩
  have hmem : (f, data) ∈ queuedFrames h.sess.log := by
    rw [← hqueued]
    simp
  obtain ⟨g, closed, holders, hg, rfl⟩ := mem_queuedFrames hmem
  obtain ⟨f₀, henc, hflag⟩ := hentered.encoded g data closed holders hg
  obtain ⟨hwhole, -, -⟩ := encode_whole hkey (by rw [hflag]; decide) henc
  have hlen : data.length ≤ maxCutFrame := by
    apply hshort
    rw [← map_snd_queuedFrames]
    exact List.mem_map.mpr ⟨_, hmem, rfl⟩
  have hle : data.length ≤ maxPlausibleFrame := by
    simp only [maxCutFrame, headerLen, resyncLimit, maxPlausibleFrame] at hlen ⊢
    omega
  set s : Sent env.aes key := ⟨data, g.onWire, hwhole, hle⟩ with hs
  refine ⟨sent ++ [s], seen, ?_, ?_, ?_, ?_, htrack.send (hstream ▸ List.prefix_append _ _) s⟩
  · rw [hlog, ← hqueued, List.map_append]
    exact ⟨more, List.append_assoc _ _ _⟩
  · rw [List.map_append, hwires, hwritten]
    rfl
  · intro s' hs'
    rcases List.mem_append.mp hs' with hs' | hs'
    · exact hsent s' hs'
    · rw [List.mem_singleton.mp hs']
      exact hlen
  · rw [hwritten, List.drop_left, stream_append, hstream, List.append_assoc]
    rfl

end Directions

/-! ## The link -/

/-- The history of a connection only grows. -/
theorem Handler.step_log {server : PanelServer} {env : Env} {h h' : Handler} {a : HandlerAction}
    (ho : Handler.Orderly env server h) (hstep : h.step server env a = some h') :
    h.sess.log <+: h'.sess.log := by
  obtain ⟨hadds, -⟩ | ⟨data, rest, -, -, -, hsess, -⟩ := Handler.step_adds ho hstep
  · obtain ⟨new, hlog, -⟩ := hadds.queued
    exact ⟨new, hlog.symm⟩
  · rw [hsess]

namespace Link

/-- All frames are short enough to be cut anywhere. -/
structure Cuttable (server : PanelServer) (l : Link) : Prop where
  sent : ∀ f ∈ l.panel.sent, wireLength server.key.val f.payload.length ≤ maxCutFrame
  queued : ∀ data ∈ queuedData l.handler.sess.log, data.length ≤ maxCutFrame

/-- What holds of the link between two steps. -/
structure Synced (env : Env) (server : PanelServer) (l : Link) : Prop where
  orderly : Handler.Orderly env server l.handler
  fifo : l.handler.Fifo
  entered : Entered env server.key.val l.handler.sess.log
  key : l.panel.key = server.key.val
  inbound : Inbound env server.key.val l.panel.sent l.handler l.toReceiver
  outbound : Outbound env server.key.val l.handler l.toPanel l.panel.decoder l.panel.inbound
  pumping : l.panel.pumping = true

section Steps

variable {env : Env} {server : PanelServer} {l l' : Link} {a : LinkAction}

/-- Nothing is on its way on a new link. -/
theorem synced_link (now : ℚ) (panelId : ℤ) : Synced env server (server.link now panelId) where
  orderly := Handler.orderly_accept now
  fifo := Handler.fifo_accept now
  entered := entered_of_not_queued (by
    simp [PanelServer.link, PanelServer.accept, Handler.sess, PanelServer.connect, World.new])
  key := rfl
  inbound := by
    refine ⟨[], rfl, List.prefix_rfl, by simp, fun chunk hchunk => ?_⟩
    cases hchunk
    exact ⟨[], rfl, tracks_new⟩
  outbound := ⟨[], [], List.nil_prefix, rfl, by simp, rfl, tracks_new⟩
  pumping := rfl

/-- Frames that may be cut anywhere now might be so before. -/
theorem Cuttable.before (h : Cuttable server l') (ho : Handler.Orderly env server l.handler)
    (hstep : l.step server env a = some l') : Cuttable server l := by
  have hgrows (handler : Handler) (hlog : l.handler.sess.log <+: handler.sess.log)
      (hqueued : ∀ data ∈ queuedData handler.sess.log, data.length ≤ maxCutFrame) :
      ∀ data ∈ queuedData l.handler.sess.log, data.length ≤ maxCutFrame := by
    obtain ⟨new, hnew⟩ := hlog
    intro data hdata
    apply hqueued
    rw [← hnew, queuedData_append]
    exact List.mem_append_left _ hdata
  cases step_does hstep with
  | started => exact ⟨fun f hf => h.sent f (List.mem_append_left _ hf), h.queued⟩
  | replied => exact ⟨fun f hf => h.sent f (List.mem_append_left _ hf), h.queued⟩
  | @arrived n handler _ hh => exact ⟨h.sent, hgrows handler (Handler.step_log ho hh) h.queued⟩
  | departed =>
      refine ⟨fun f hf => h.sent f ?_, h.queued⟩
      dsimp only
      unfold MockPanel.pump
      split <;> exact hf
  | @handled _ handler _ hh => exact ⟨h.sent, hgrows handler (Handler.step_log ho hh) h.queued⟩

/-- The panel sends a frame. -/
theorem Synced.wrote (hs : Synced env server l) {f g : Frame} {data : Bytes}
    (hflag : f.srcFlag = 0) (henc : f.encode env.aes l.panel.key = .ok (data, g))
    (hcut : ∀ f ∈ l.panel.sent ++ [g], wireLength server.key.val f.payload.length ≤ maxCutFrame) :
    Synced env server (l.wrote g data) := by
  rw [hs.key] at henc
  obtain ⟨hwhole, hlen, -⟩ := encode_whole server.key.property (by rw [hflag]; decide) henc
  refine { hs with inbound := hs.inbound.send hwhole ?_ }
  have hg := hcut g (by simp)
  rw [encode_ok_frame henc] at hg
  rw [hlen]
  exact hg

/-- The handler takes a step. -/
theorem Synced.after (hs : Synced env server l) {a : HandlerAction} {h : Handler} {rest : Bytes}
    (hstep : l.handler.step server env a = some h) (hbytes : l.toReceiver = a.taken ++ rest)
    (hcut : ∀ data ∈ queuedData h.sess.log, data.length ≤ maxCutFrame) :
    Synced env server { l.after h with toReceiver := rest } := by
  refine { hs with
    orderly := Handler.orderly_step hs.orderly hstep
    fifo := Handler.fifo_step hs.orderly hs.fifo hstep
    entered := Handler.entered_step hs.orderly hs.entered hstep
    inbound := hs.inbound.receive (Handler.step_received hs.orderly hstep) hbytes
    outbound := ?_ }
  have hlog := Handler.step_log hs.orderly hstep
  obtain ⟨-, hwritten⟩ | ⟨data, more, hqueue, hnone, -, hsess, ⟨hwritten, -⟩ | ⟨hwritten, -⟩⟩ :=
    Handler.step_adds hs.orderly hstep
  · exact hs.outbound.stay hlog hwritten
  · rw [hsess] at hcut
    have hsame : h.sess.log = l.handler.sess.log := by rw [hsess]
    refine hs.outbound.write server.key.property hs.entered hcut hsame hwritten ?_
    rw [hs.fifo.running hnone, hqueue]
    exact ⟨more, List.append_assoc _ _ _⟩
  · exact hs.outbound.stay hlog hwritten

/-- **Every step keeps the two ends in step.** -/
theorem synced_step (hs : Synced env server l) (hcut : Cuttable server l')
    (hstep : l.step server env a = some l') : Synced env server l' := by
  cases step_does hstep with
  | started henc => exact hs.wrote rfl henc hcut.sent
  | replied _ henc => exact { hs.wrote rfl henc hcut.sent with }
  | @arrived n h hn hh =>
      exact hs.after hh (List.take_append_drop n l.toReceiver).symm hcut.queued
  | @departed n =>
      obtain ⟨d, now, hfeed, hout⟩ := hs.outbound.read (List.take_append_drop n l.toPanel).symm
      unfold MockPanel.pump
      rw [hfeed]
      exact { hs with outbound := hout }
  | @handled a h ha hh =>
      exact hs.after hh (by rw [a.taken_eq_nil ha]; rfl) hcut.queued

/-- The two ends are in step in every state that is reached. -/
theorem synced_of_reachable {now : ℚ} {panelId : ℤ} (hcut : Cuttable server l)
    (hreach : Reachable (Link.step server env) (server.link now panelId) l) :
    Synced env server l := by
  refine hreach.invariant (I := fun l => Handler.Orderly env server l.handler ∧
    (Cuttable server l → Synced env server l)) ?_
    ⟨Handler.orderly_accept now, fun _ => synced_link now panelId⟩ |>.2 hcut
  rintro l a l' ⟨ho, hs⟩ hstep
  refine ⟨?_, fun hcut => synced_step (hs (hcut.before ho hstep)) hcut hstep⟩
  cases step_does hstep with
  | arrived _ hh => exact Handler.orderly_step ho hh
  | handled _ hh => exact Handler.orderly_step ho hh
  | _ => exact ho

/-! ## The script of the panel -/

/-- What the panel has sent: the start of an exchange, or a reply to a frame that it has read. -/
structure Scripted (panelId : ℤ) (l : Link) : Prop where
  address : l.panel.panelId = panelId
  srcId : ∀ f ∈ l.panel.sent, f.srcId = panelId
  replied : ∀ p ∈ l.panel.replies, p.1 ∈ l.panel.inbound
  sent : ∀ f ∈ l.panel.sent, (∃ m : PanelMessage, f.major = m.major ∧ f.minor = m.minor) ∨
    ∃ p ∈ l.panel.replies, f.major = p.1.major ∧ f.minor = replyMinor p.1 ∧
      f.sequence = p.1.sequence ∧ f.payload = p.2

/-- The panel of a new link has sent nothing. -/
theorem scripted_link (now : ℚ) (panelId : ℤ) : Scripted panelId (server.link now panelId) :=
  ⟨rfl, by simp [PanelServer.link, MockPanel.new], by simp [PanelServer.link, MockPanel.new],
    by simp [PanelServer.link, MockPanel.new]⟩

/-- **Every step keeps to the script.** -/
theorem scripted_step {panelId : ℤ} (hs : Scripted panelId l)
    (hstep : l.step server env a = some l') : Scripted panelId l' := by
  cases step_does hstep with
  | @started m payload sequence data g henc =>
      have hg := encode_ok_frame henc
      refine ⟨hs.address, fun f hf => ?_, hs.replied, fun f hf => ?_⟩
      · rcases List.mem_append.mp hf with hf | hf
        · exact hs.srcId f hf
        · rw [List.mem_singleton.mp hf, hg]
          exact hs.address
      · rcases List.mem_append.mp hf with hf | hf
        · exact hs.sent f hf
        · rw [List.mem_singleton.mp hf, hg]
          exact .inl ⟨m, rfl, rfl⟩
  | @replied req payload data g hreq henc =>
      have hg := encode_ok_frame henc
      refine ⟨hs.address, fun f hf => ?_, fun p hp => ?_, fun f hf => ?_⟩
      · rcases List.mem_append.mp hf with hf | hf
        · exact hs.srcId f hf
        · rw [List.mem_singleton.mp hf, hg]
          exact hs.address
      · rcases List.mem_append.mp hp with hp | hp
        · exact hs.replied p hp
        · rw [List.mem_singleton.mp hp]
          exact hreq
      · rcases List.mem_append.mp hf with hf | hf
        · exact (hs.sent f hf).imp_right fun ⟨p, hp, heq⟩ => ⟨p, List.mem_append_left _ hp, heq⟩
        · rw [List.mem_singleton.mp hf, hg]
          exact .inr ⟨(req, payload), List.mem_append_right _ (List.mem_singleton_self _), rfl, rfl,
            rfl, rfl⟩
  | arrived => exact ⟨hs.address, hs.srcId, hs.replied, hs.sent⟩
  | @departed n =>
      have hpump : ∃ d now pumping, l.panel.pump env.aes (l.toPanel.take n) = { l.panel with
          decoder := d, inbound := l.panel.inbound ++ now, pumping := pumping } := by
        unfold MockPanel.pump
        split
        · exact ⟨_, _, _, rfl⟩
        · exact ⟨_, [], _, by rw [List.append_nil]⟩
      obtain ⟨d, now, pumping, hpump⟩ := hpump
      rw [hpump]
      exact ⟨hs.address, hs.srcId, fun p hp => List.mem_append_left _ (hs.replied p hp), hs.sent⟩
  | handled => exact ⟨hs.address, hs.srcId, hs.replied, hs.sent⟩

/-- The panel keeps to its script. -/
theorem scripted_of_reachable {now : ℚ} {panelId : ℤ}
    (hreach : Reachable (Link.step server env) (server.link now panelId) l) :
    Scripted panelId l :=
  hreach.invariant (fun _ _ _ => scripted_step) (scripted_link now panelId)

end Steps

end Link

end Spcedp.Client
