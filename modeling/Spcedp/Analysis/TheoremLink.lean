import Spcedp.Analysis.Link

/-!
# A reliable link

However the bytes are cut on their way and whatever happens in between, neither end of a link
reads a frame that the other has not sent, or in another order, and none is lost but what is
still on its way when the connection ends (`delivered_on_link`). Over this the acknowledgements
match: the `k`-th one that the panel reads is that of the `k`-th frame which it sent and
which gets one (`acknowledged_on_link`).
-/

set_option autoImplicit false

namespace Spcedp.Client.Link

open Lib.Transition Spcedp.Wire Spcedp.Wire.FrameDecoder

/-! ## Delivery -/

section Delivery

variable {env : Env} {server : PanelServer} {l : Link}

/-- The panel has read the first frames of the history of the receiver. -/
theorem Synced.inbound_prefix (hs : Synced env server l) :
    l.panel.inbound <+: (queuedFrames l.handler.sess.log).map Prod.fst := by
  obtain ⟨sent, seen, hqueued, -, -, -, htrack⟩ := hs.outbound
  refine htrack.out_prefix.trans ?_
  have hfst : sent.map Sent.frame = (sent.map fun s => (s.frame, s.wire)).map Prod.fst := by
    rw [List.map_map]
    rfl
  rw [hfst]
  exact hqueued.map Prod.fst

/-- Once nothing is on its way to the panel, it has read all that has been written. -/
theorem Synced.inbound_eq_take (hs : Synced env server l) (hnil : l.toPanel = []) :
    l.panel.inbound =
      ((queuedFrames l.handler.sess.log).map Prod.fst).take l.handler.written.length := by
  obtain ⟨sent, seen, hqueued, hwires, -, hstream, htrack⟩ := hs.outbound
  rw [hnil, List.append_nil] at hstream
  rw [← hstream] at htrack
  have hlength : l.handler.written.length = (sent.map fun s => (s.frame, s.wire)).length := by
    rw [← hwires, List.length_map, List.length_map]
  rw [htrack.finished, ← List.map_take, hlength, ← List.prefix_iff_eq_take.mp hqueued,
    List.map_map]
  rfl

/-- The receiver has read the first frames that the panel has sent. -/
theorem Synced.received_prefix (hs : Synced env server l) :
    l.handler.received <+: l.panel.sent.map Frame.onWire := by
  obtain ⟨sent, hframes, hprefix, -⟩ := hs.inbound
  exact hframes ▸ hprefix

/-- Once nothing is on its way to the receiver, it has read all that the panel has sent, as long
as it reads. -/
theorem Synced.received_eq (hs : Synced env server l) (hplace : l.handler.place = .reading)
    (hnil : l.toReceiver = []) : l.handler.received = l.panel.sent.map Frame.onWire := by
  obtain ⟨sent, hframes, -, -, htracks⟩ := hs.inbound
  obtain ⟨seen, hstream, htrack⟩ := htracks [] (by rw [hplace]; rfl)
  rw [hnil, List.append_nil, List.append_nil] at hstream
  rw [← hstream] at htrack
  rw [← hframes]
  exact htrack.finished

/-- **Delivery, in either direction.** -/
theorem delivered_on_link (env : Env) (server : PanelServer) (now : ℚ) (panelId : ℤ) (l : Link)
    (hreach : Reachable (Link.step server env) (server.link now panelId) l)
    (hcut : l.Cuttable server) :
    (l.handler.received <+: l.panel.sent.map Frame.onWire ∧
      (l.handler.place = .reading → l.toReceiver = [] →
        l.handler.received = l.panel.sent.map Frame.onWire)) ∧
    (l.panel.inbound <+: (queuedFrames l.handler.sess.log).map Prod.fst ∧
      (l.toPanel = [] → l.panel.inbound =
        ((queuedFrames l.handler.sess.log).map Prod.fst).take l.handler.written.length)) ∧
    l.panel.pumping = true := by
  have hs := synced_of_reachable hcut hreach
  refine ⟨⟨hs.received_prefix, hs.received_eq⟩, ⟨hs.inbound_prefix, hs.inbound_eq_take⟩, ?_⟩
  exact hs.pumping

/-- The nonce of the tests. -/
def nonce : Bytes := [49, 50, 51, 52, 53, 54, 55, 56]

/-- The panel polls, its frame comes in two pieces, and so does the acknowledgement. -/
def pollActions : List LinkAction :=
  [.start .poll nonce 1, .arrive 10, .handler .reclaim, .arrive 21, .handler .reclaim,
    .handler .writer, .depart 5, .depart 26]

def pollLink : Link :=
  (run (Link.step clearServer clearEnv) (clearServer.link 1 1000) pollActions).getD
    (clearServer.link 1 1000)

/-- The link on which the panel polls can be reached. -/
theorem pollLink_reachable :
    Reachable (Link.step clearServer clearEnv) (clearServer.link 1 1000) pollLink := by
  have hsome : (run (Link.step clearServer clearEnv) (clearServer.link 1 1000)
      pollActions).isSome := by decide +kernel
  obtain ⟨l, hl⟩ := Option.isSome_iff_exists.mp hsome
  refine ⟨pollActions, ?_⟩
  rw [hl, pollLink, hl, Option.getD_some]

/-- Its frames are short. -/
theorem pollLink_cuttable : pollLink.Cuttable clearServer :=
  ⟨by decide +kernel, by decide +kernel⟩

/-- The poll has been received, and the acknowledgement been read. -/
theorem delivered_on_pollLink : pollLink.handler.received = pollLink.panel.sent.map Frame.onWire ∧
    pollLink.panel.inbound.length = 1 :=
  ⟨(delivered_on_link clearEnv clearServer 1 1000 pollLink pollLink_reachable
    pollLink_cuttable).1.2 (by decide +kernel) (by decide +kernel), by decide +kernel⟩

end Delivery

/-! ## Acknowledgements -/

section Acknowledgements

variable {env : Env} {key : Option Bytes} {receiverId panelId : ℤ} {f ack : Frame}
  {log : List Entry}

/-- `ack` is the acknowledgement of `f`, from this receiver to the panel. -/
def AckOf (receiverId panelId : ℤ) (f ack : Frame) : Prop :=
  ∃ m, ackMinor f = some m ∧ ack.sequence = f.sequence ∧ ack.payload = f.payload ∧
    ack.major = f.major ∧ ack.minor = m.value ∧ ack.srcId = receiverId % 2 ^ 32 ∧
    ack.dstId = panelId ∧ ack.srcFlag = flagFromReceiver

/-- An acknowledgement is read as one by the panel. -/
theorem ackOf_of_acknowledges {data : Bytes}
    (h : Acknowledges env receiverId key panelId f data)
    (hdecode : Frame.decode env.aes data key = .ok ack) : AckOf receiverId panelId f ack := by
  obtain ⟨ack', m, hdecode', hm, hrest⟩ := h
  rw [hdecode, Except.ok.injEq] at hdecode'
  subst hdecode'
  exact ⟨m, hm, hrest⟩

/-- An acknowledgement is not the request of a command. -/
theorem AckOf.not_request (h : AckOf receiverId panelId f ack) : ¬IsRequest ack := by
  obtain ⟨m, hm, -, -, hmajor, -⟩ := h
  rintro ⟨c, hc, -⟩
  rw [hmajor] at hc
  unfold ackMinor at hm
  cases c <;> simp [hc, Channel.major] at hm

/-- The queued frames that are not requests, as the panel will read them, with their bytes. -/
def queuedAcks (log : List Entry) : List (Frame × Bytes) :=
  log.filterMap fun
    | .queued g data _ _ => if IsRequest g then none else some (g.onWire, data)
    | _ => none

/-- The bytes of the acknowledgements queued. -/
theorem map_snd_queuedAcks (log : List Entry) :
    (queuedAcks log).map Prod.snd = acknowledgements log := by
  unfold queuedAcks acknowledgements
  rw [List.map_filterMap]
  congr 1
  funext e
  cases e with
  | queued g data closed holders => by_cases hg : IsRequest g <;> simp [hg]
  | _ => rfl

/-- An acknowledgement that is queued has its entry in the history. -/
theorem mem_queuedAcks {p : Frame × Bytes} : p ∈ queuedAcks log ↔
    ∃ g closed holders, .queued g p.2 closed holders ∈ log ∧ ¬IsRequest g ∧ p.1 = g.onWire := by
  constructor
  · intro hmem
    obtain ⟨e, he, hsome⟩ := List.mem_filterMap.mp hmem
    cases e with
    | queued g data closed holders =>
        by_cases hg : IsRequest g
        · simp [hg] at hsome
        · simp only [hg, if_false, Option.some.injEq] at hsome
          subst hsome
          exact ⟨g, closed, holders, he, hg, rfl⟩
    | ticked => cases hsome
    | dispatched => cases hsome
    | sessionStarted => cases hsome
  · rintro ⟨g, closed, holders, he, hg, hp⟩
    refine List.mem_filterMap.mpr ⟨_, he, ?_⟩
    simp only [hg, if_false, ← hp]

/-- They are what is left of all queued frames without the requests. -/
theorem map_fst_queuedAcks (hacks : ∀ p ∈ queuedAcks log, ¬IsRequest p.1) :
    (queuedAcks log).map Prod.fst =
      ((queuedFrames log).map Prod.fst).filter fun f => ¬IsRequest f := by
  induction log with
  | nil => rfl
  | cons e log ih =>
      have hmono : ∀ p ∈ queuedAcks log, ¬IsRequest p.1 := by
        intro p hp
        obtain ⟨g, closed, holders, he, hg⟩ := mem_queuedAcks.mp hp
        exact hacks p (mem_queuedAcks.mpr ⟨g, closed, holders, List.mem_cons_of_mem _ he, hg⟩)
      cases e with
      | queued g data closed holders =>
          by_cases hg : IsRequest g
          · have hleft : queuedAcks (.queued g data closed holders :: log) = queuedAcks log := by
              simp [queuedAcks, hg]
            have hright : queuedFrames (.queued g data closed holders :: log) =
                (g.onWire, data) :: queuedFrames log := rfl
            rw [hleft, hright, List.map_cons, List.filter_cons_of_neg, ih hmono]
            simpa using Handler.isRequest_onWire hg
          · have hleft : queuedAcks (.queued g data closed holders :: log) =
                (g.onWire, data) :: queuedAcks log := by
              simp [queuedAcks, hg]
            have hright : queuedFrames (.queued g data closed holders :: log) =
                (g.onWire, data) :: queuedFrames log := rfl
            rw [hleft] at hacks
            have hno := hacks _ List.mem_cons_self
            rw [hleft, hright, List.map_cons, List.map_cons, List.filter_cons_of_pos, ih hmono]
            simpa using hno
      | ticked => exact ih hmono
      | dispatched => exact ih hmono
      | sessionStarted => exact ih hmono

/-- **The acknowledgements that the panel will read** are those in the history. -/
theorem ackOf_queued (hentered : Entered env key log) (hkey : ∀ k ∈ key, k.length = 16)
    {asked : List Frame}
    (h : List.Forall₂ (Acknowledges env receiverId key panelId) asked (acknowledgements log)) :
    List.Forall₂ (AckOf receiverId panelId) asked
      (((queuedFrames log).map Prod.fst).filter fun f => ¬IsRequest f) := by
  rw [← map_snd_queuedAcks, List.forall₂_map_right_iff] at h
  have hdecode : ∀ p ∈ queuedAcks log, Frame.decode env.aes p.2 key = .ok p.1 := by
    intro p hp
    obtain ⟨g, closed, holders, he, -, hg⟩ := mem_queuedAcks.mp hp
    obtain ⟨f, henc, hflag⟩ := hentered.encoded g p.2 closed holders he
    rw [hg]
    exact (encode_whole hkey (by rw [hflag]; decide) henc).1.decode
  have hacks : List.Forall₂ (fun f p => AckOf receiverId panelId f p.1) asked
      (queuedAcks log) := by
    rw [List.forall₂_iff_get] at h ⊢
    refine ⟨h.1, fun i hi hi' => ?_⟩
    exact ackOf_of_acknowledges (h.2 i hi hi') (hdecode _ (List.get_mem _ _))
  rw [← map_fst_queuedAcks, List.forall₂_map_right_iff]
  · exact hacks
  · intro p hp
    obtain ⟨i, hi, rfl⟩ := List.mem_iff_getElem.mp hp
    rw [List.forall₂_iff_get] at hacks
    exact (hacks.2 i (hacks.1 ▸ hi) hi).not_request

end Acknowledgements

/-- Nothing is on its way, in either direction, and the connection is up. -/
structure Quiet (l : Link) : Prop where
  reading : l.handler.place = .reading
  toReceiver : l.toReceiver = []
  writer : l.handler.writer.ended = none
  queue : l.handler.sess.writeQueue = []
  toPanel : l.toPanel = []

/-- The discipline of the receiver, with the address of the panel. -/
theorem acknowledged_panel {env : Env} {server : PanelServer} {panelId : ℤ} {l : Link}
    (hs : Synced env server l) (hscript : Scripted panelId l)
    (hopen : l.handler.sess.teardownRequested = false) :
    Acknowledged env server.receiverId server.key.val (panelId % 2 ^ 32) l.handler.sess.log := by
  have hsound := hs.orderly.conn
  cases hhandshake : l.handler.conn.handshakeStarted with
  | false => exact acknowledged_of_silent (hsound.before hhandshake).2
  | true =>
      obtain ⟨hpanel, hne, -⟩ := hsound.behind hhandshake
      have hdisc := hsound.discipline hopen
      obtain ⟨sent, hframes, hprefix, -⟩ := hs.inbound
      -- the first frame has been sent by this panel
      have hfirst : panelIdOf l.handler.conn.world.sess.log = panelId % 2 ^ 32 := by
        unfold panelIdOf
        cases hreceived : dispatchedFrames l.handler.conn.world.sess.log with
        | nil => exact absurd hreceived hne
        | cons f more =>
            have hmem : f ∈ l.panel.sent.map Frame.onWire := by
              rw [← hframes]
              apply hprefix.subset
              show f ∈ dispatchedFrames l.handler.conn.world.sess.log
              rw [hreceived]
              exact List.mem_cons_self
            obtain ⟨f₀, hf₀, rfl⟩ := List.mem_map.mp hmem
            show f₀.srcId % 2 ^ 32 = panelId % 2 ^ 32
            rw [hscript.srcId f₀ hf₀]
      rwa [hpanel, hfirst] at hdisc

/-- **The acknowledgements that the panel reads** are, in order, those of the first frames that
it has sent and that get one, and of all of them once nothing is on its way. -/
theorem acknowledged_on_link (env : Env) (server : PanelServer) (now : ℚ) (panelId : ℤ) (l : Link)
    (hreach : Reachable (Link.step server env) (server.link now panelId) l)
    (hcut : l.Cuttable server) (hopen : l.handler.sess.teardownRequested = false) :
    ∃ asked rest, (l.panel.sent.map Frame.onWire).filter (fun f => (ackMinor f).isSome) =
        asked ++ rest ∧
      List.Forall₂ (AckOf server.receiverId (panelId % 2 ^ 32)) asked
        (l.panel.inbound.filter fun f => ¬IsRequest f) ∧
      (l.Quiet → rest = []) := by
  have hs := synced_of_reachable hcut hreach
  have hacks := ackOf_queued hs.entered server.key.property
    (acknowledged_panel hs (scripted_of_reachable hreach) hopen).acks
  have hasked : acknowledged l.handler.sess.log <+:
      (l.panel.sent.map Frame.onWire).filter fun f => (ackMinor f).isSome :=
    hs.received_prefix.filter _
  have hgot := hs.inbound_prefix.filter fun f => decide ¬IsRequest f
  obtain ⟨more, hmore⟩ := hasked
  generalize hk : (l.panel.inbound.filter fun f => ¬IsRequest f).length = k
  have hgot' := List.prefix_iff_eq_take.mp hgot
  rw [hk] at hgot'
  refine ⟨(acknowledged l.handler.sess.log).take k,
    (acknowledged l.handler.sess.log).drop k ++ more, ?_, ?_, fun hquiet => ?_⟩
  · rw [← hmore, ← List.append_assoc, List.take_append_drop]
  · rw [hgot']
    exact List.forall₂_take k hacks
  · have hfull : acknowledged l.handler.sess.log =
        (l.panel.sent.map Frame.onWire).filter fun f => (ackMinor f).isSome := by
      rw [← hs.received_eq hquiet.reading hquiet.toReceiver]
      rfl
    -- everything queued has been written, and read
    have hwritten : l.handler.written.length =
        ((queuedFrames l.handler.sess.log).map Prod.fst).length := by
      have hrunning := hs.fifo.running hquiet.writer
      rw [hquiet.queue, List.append_nil] at hrunning
      rw [← hrunning, ← map_snd_queuedFrames, List.length_map, List.length_map]
    rw [hs.inbound_eq_take hquiet.toPanel, hwritten, List.take_length, ← hacks.length_eq] at hk
    rw [← hk, List.drop_length, List.nil_append]
    rw [hfull] at hmore
    exact List.append_right_eq_self.mp hmore

/-- The poll has been acknowledged. -/
theorem acknowledged_on_pollLink : ∃ asked rest,
    (pollLink.panel.sent.map Frame.onWire).filter (fun f => (ackMinor f).isSome) = asked ++ rest ∧
      List.Forall₂ (AckOf 1001 (1000 % 2 ^ 32)) asked
        (pollLink.panel.inbound.filter fun f => ¬IsRequest f) ∧
      (pollLink.Quiet → rest = []) :=
  acknowledged_on_link clearEnv clearServer 1 1000 pollLink pollLink_reachable pollLink_cuttable
    (by decide +kernel)

end Spcedp.Client.Link
