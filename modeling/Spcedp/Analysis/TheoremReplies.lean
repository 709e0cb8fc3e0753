import Spcedp.Analysis.Replies
import Spcedp.Analysis.TheoremLink

/-!
# Requests and replies, end to end

Short of the wrap of the counter, the panel reads no request twice, and the payload that a
command gets is what the panel has answered to just this request (`answered_on_link`). So a
command that ends with success was answered by the panel: its requests, in their order, are
among those that the panel read, and the panel has accepted the binary command, or sent all the
pieces of the XML reply (`completed_on_link`).
-/

set_option autoImplicit false

namespace Spcedp.Client.Link

open Lib.Transition Spcedp.Wire Spcedp.Wire.FrameDecoder

/-- The counter does not stand at the wrap. -/
def ShortOfWrap (l : Link) (_ : LinkAction) (_ : Link) : Prop :=
  l.handler.sess.nextSeq ≠ 0xFFFFFFFF

section Replies

variable {env : Env} {server : PanelServer} {l l' : Link} {panelId : ℤ}

/-! ## Requests that are read -/

/-- Sessions and events are not on a channel of commands. -/
theorem major_of_ackMinor {f : Frame} (hf : (ackMinor f).isSome) (c : Channel) :
    f.major % 2 ^ 8 ≠ c.major := by
  unfold ackMinor at hf
  intro hc
  split at hf
  · rename_i hmajor
    rw [hmajor] at hc
    cases c <;> cases hc
  · split at hf
    · rename_i hevent
      rw [hevent.1] at hc
      cases c <;> cases hc
    · cases hf

/-- What the panel reads as the request of a command is one. -/
theorem isRequest_of_onWire {key : Option Bytes} {log : List Entry}
    (hentered : Entered env key log) {g : Frame} {data : Bytes} {closed : Bool} {holders : List ℕ}
    (hmem : .queued g data closed holders ∈ log)
    (hchannel : ∃ c : Channel, g.onWire.major = c.major) : IsRequest g := by
  by_contra hreq
  obtain ⟨f, -, hecho⟩ := hentered.answered g data closed holders hmem hreq
  obtain ⟨m, hm, -⟩ := hecho.minor
  obtain ⟨c, hc⟩ := hchannel
  apply major_of_ackMinor (by rw [hm]; rfl) c
  rw [← hecho.major]
  exact hc

/-- Of the frames queued, the panel will read the requests as such. -/
theorem filter_queuedFrames : ∀ {log : List Entry}, (∀ g data closed holders,
    .queued g data closed holders ∈ log → IsRequest g.onWire → IsRequest g) →
    ((queuedFrames log).map Prod.fst).filter IsRequest = (requestFrames log).map Frame.onWire := by
  intro log hlog
  induction log with
  | nil => rfl
  | cons e log ih =>
      have ih := ih fun g data closed holders hmem =>
        hlog g data closed holders (List.mem_cons_of_mem _ hmem)
      cases e with
      | queued g data closed holders =>
          have hleft : queuedFrames (.queued g data closed holders :: log) =
              (g.onWire, data) :: queuedFrames log := rfl
          rw [hleft, List.map_cons]
          by_cases hg : IsRequest g
          · have hright : requestFrames (.queued g data closed holders :: log) =
                g :: requestFrames log := by
              simp [requestFrames, hg]
            rw [hright, List.map_cons, List.filter_cons_of_pos, ih]
            simpa using Handler.isRequest_onWire hg
          · have hright : requestFrames (.queued g data closed holders :: log) =
                requestFrames log := by
              simp [requestFrames, hg]
            rw [hright, List.filter_cons_of_neg, ih]
            simpa using fun h => hg (hlog g data closed holders List.mem_cons_self h)
      | ticked => exact ih
      | dispatched => exact ih
      | sessionStarted => exact ih

/-- **The panel reads requests with larger and larger numbers.** -/
theorem Synced.requests_increasing (hs : Synced env server l)
    (hn : Numbering l.handler.sess) :
    (l.panel.inbound.filter IsRequest).Pairwise fun g g' => g.sequence < g'.sequence := by
  have hread := hs.inbound_prefix.filter fun f => decide (IsRequest f)
  rw [filter_queuedFrames fun g data closed holders hmem hreq =>
    isRequest_of_onWire hs.entered hmem ⟨_, hreq.choose_spec.1⟩] at hread
  refine List.Pairwise.sublist hread.sublist ?_
  rw [List.pairwise_map]
  refine hn.increasing.imp_of_mem fun hg hg' hlt => ?_
  rwa [hn.onWire_sequence hg, hn.onWire_sequence hg']

/-! ## Replies that are read -/

/-- **A payload comes from the panel**, which has answered the request for it. -/
theorem Synced.answered (hs : Synced env server l) (hscript : Scripted panelId l)
    (hn : Numbered l.handler.conn.world) {fr : Frame} {n : ℕ} {payload : Bytes}
    (hstanding : Standing l.handler.sess fr n)
    (hgiven : l.handler.sess.payloadOf n = some payload) :
    ∃ req, (req, payload) ∈ l.panel.replies ∧ req ∈ l.panel.inbound ∧ IsRequest req ∧
      req.sequence = fr.sequence ∧ req.major = fr.major ∧ req.payload = fr.payload := by
  obtain ⟨f, hf, hstate⟩ := payloadOf_eq_some hgiven
  obtain ⟨f', hf', hseq, hmajor, hminor⟩ := hstanding.future
  obtain rfl : f' = f := Option.some.inj (hf'.symm.trans hf)
  obtain ⟨g, hg, hreply, hgseq, rfl⟩ := hn.answered n f' payload hf hstate
  -- the reply has been sent by the panel, to a frame that it has read
  obtain ⟨f₀, hf₀, rfl⟩ := List.mem_map.mp (hs.received_prefix.subset hg)
  obtain ⟨p, hp, hpmajor, hpseq, hppayload⟩ : ∃ p ∈ l.panel.replies, f₀.major = p.1.major ∧
      f₀.sequence = p.1.sequence ∧ f₀.payload = p.2 := by
    obtain ⟨m, hm, -⟩ | ⟨p, hp, hpmajor, -, hpseq, hppayload⟩ := hscript.sent f₀ hf₀
    · have hc : f₀.major % 2 ^ 8 = f'.channel.major := hreply.1
      rw [hm] at hc
      cases m <;> cases hchannel : f'.channel <;> rw [hchannel] at hc <;> cases hc
    · exact ⟨p, hp, hpmajor, hpseq, hppayload⟩
  have hread := hscript.replied p hp
  -- and that frame has been queued by the receiver
  obtain ⟨⟨h, data⟩, hq, hfst⟩ := List.mem_map.mp (hs.inbound_prefix.subset hread)
  obtain ⟨g, closed, holders, hmem, rfl⟩ := mem_queuedFrames hq
  have hwire : p.1 = g.onWire := hfst.symm
  have hc : g.onWire.major = f'.channel.major := by
    have hreplied : f₀.major % 2 ^ 8 = f'.channel.major := hreply.1
    rw [hpmajor, hwire] at hreplied
    rw [← hreplied]
    exact (Int.emod_emod_of_dvd _ dvd_rfl).symm
  have hreq := isRequest_of_onWire hs.entered hmem ⟨_, hc⟩
  have hgmem : g ∈ requestFrames l.handler.sess.log :=
    mem_requestFrames.mpr ⟨hreq, data, closed, holders, hmem⟩
  have hgwire := hn.numbering.onWire_sequence hgmem
  -- so it is the request of the future
  have hsame : g.sequence = fr.sequence := by
    have hgseq : f₀.sequence % 2 ^ 32 = f'.seq := hgseq
    rw [hpseq, hwire, hgwire] at hgseq
    rw [hseq, ← hgseq]
    exact (hgwire.symm : g.sequence = g.sequence % 2 ^ 32)
  have hfr := hstanding.queued g hgmem hsame
  refine ⟨p.1, ?_, hread, ?_, ?_, ?_, ?_⟩
  · have hpair : (p.1, f₀.onWire.payload) = p := by
      show (p.1, f₀.payload) = p
      rw [hppayload]
    rw [hpair]
    exact hp
  · rw [hwire]
    exact Handler.isRequest_onWire hreq
  · rw [hwire, hgwire, hsame]
  · rw [hwire, hc, hmajor]
  · rw [hwire, hfr]
    rfl

/-! ## Runs -/

/-- The handler keeps its order, numbers and rounds along a step of the link. -/
theorem told_step {a : LinkAction}
    (h : Handler.Orderly env server l.handler ∧ Told env l.handler.conn.world)
    (hstep : l.step server env a = some l') (hwrap : ShortOfWrap l a l') :
    Handler.Orderly env server l'.handler ∧ Told env l'.handler.conn.world := by
  obtain ⟨ho, ht⟩ := h
  cases step_does hstep with
  | started => exact ⟨ho, ht⟩
  | replied => exact ⟨ho, ht⟩
  | arrived _ hh => exact ⟨Handler.orderly_step ho hh, Handler.told_step ho ht hwrap hh⟩
  | departed => exact ⟨ho, ht⟩
  | handled _ hh => exact ⟨Handler.orderly_step ho hh, Handler.told_step ho ht hwrap hh⟩

/-- What the tasks were told is what was received, after every run short of the wrap. -/
theorem told_of_conforms {now : ℚ} {as : List LinkAction}
    (hrun : Conforms (Link.step server env) ShortOfWrap (server.link now panelId) as l) :
    Told env l.handler.conn.world :=
  (hrun.invariant (I := fun l => Handler.Orderly env server l.handler ∧
    Told env l.handler.conn.world) (fun _ _ _ => told_step)
    ⟨Handler.orderly_accept now, told_new env _ _ _ _⟩).2

end Replies

/-- **Requests and replies match, end to end.** -/
theorem answered_on_link (env : Env) (server : PanelServer) (now : ℚ) (panelId : ℤ)
    (as : List LinkAction) (l : Link)
    (hrun : Conforms (Link.step server env) ShortOfWrap (server.link now panelId) as l)
    (hcut : l.Cuttable server) :
    ((l.panel.inbound.filter IsRequest).Pairwise fun g g' => g.sequence < g'.sequence) ∧
    ∀ t fr n payload, (l.handler.conn.world.tasks t).lastRequest = some (fr, n) →
      l.handler.sess.payloadOf n = some payload →
      ∃ req, (req, payload) ∈ l.panel.replies ∧ req ∈ l.panel.inbound ∧ IsRequest req ∧
        req.sequence = fr.sequence ∧ req.major = fr.major ∧ req.payload = fr.payload := by
  have hs := synced_of_reachable hcut hrun.reachable
  have ht := told_of_conforms hrun
  refine ⟨hs.requests_increasing ht.numbered.numbering, fun t fr n payload hlast hgiven => ?_⟩
  exact hs.answered (scripted_of_reachable hrun.reachable) ht.numbered
    (ht.numbered.standing t fr n hlast) hgiven

/-! ## Arming an area -/

/-- The request that arms the first area, as the panel reads it. -/
def armRequest : Frame where
  srcId := 1001
  dstId := 1000
  sequence := 2
  major := MajorCode.binaryCmd.value
  minor := MinorCode.request.value
  payload := [1, 1, 0]
  checksum := 54870
  srcFlag := flagFromReceiver

/-- After a poll, the first area is armed. -/
def armActions : List LinkAction :=
  pollActions ++ [.handler (.app (.tick 1)), .handler (.app (.call 0 (.binary 1 1 5))),
    .handler .writer, .handler .writer, .depart 26, .reply armRequest [replyOk], .arrive 24,
    .handler .reclaim, .handler (.app (.resume 0))]

def armLink : Link :=
  (run (Link.step clearServer clearEnv) (clearServer.link 1 1000) armActions).getD
    (clearServer.link 1 1000)

/-- The run that arms an area is short of the wrap. -/
theorem armLink_conforms :
    Conforms (Link.step clearServer clearEnv) ShortOfWrap (clearServer.link 1 1000) armActions
      armLink := by
  have hsome : (run (Link.step clearServer clearEnv) (clearServer.link 1 1000)
      armActions).isSome := by decide +kernel
  obtain ⟨l, hl⟩ := Option.isSome_iff_exists.mp hsome
  have hlink : armLink = l := by rw [armLink, hl, Option.getD_some]
  have hshort : armActions.inits.all fun bs =>
      ((run (Link.step clearServer clearEnv) (clearServer.link 1 1000) bs).map
        fun l => l.handler.sess.nextSeq) ≠ some 0xFFFFFFFF := by decide +kernel
  rw [hlink]
  refine .of_run armActions l hl fun bs t a u hbs hrun hwrap => ?_
  rw [List.all_eq_true] at hshort
  have hne := of_decide_eq_true (hshort bs ((List.mem_inits _ _).mpr hbs))
  rw [hrun, Option.map_some, hwrap] at hne
  exact hne rfl

/-- Its frames are short. -/
theorem armLink_cuttable : armLink.Cuttable clearServer :=
  ⟨by decide +kernel, by decide +kernel⟩

/-- The panel has read one request, which it has answered. -/
theorem answered_on_armLink : (armLink.panel.inbound.filter IsRequest).length = 1 ∧
    ∃ fr n, (armLink.handler.conn.world.tasks 0).lastRequest = some (fr, n) ∧
      ∃ req, (req, [replyOk]) ∈ armLink.panel.replies ∧ req ∈ armLink.panel.inbound ∧
        IsRequest req ∧ req.sequence = fr.sequence ∧ req.major = fr.major ∧
        req.payload = fr.payload := by
  refine ⟨by decide +kernel, ?_⟩
  have hlast : ((armLink.handler.conn.world.tasks 0).lastRequest).map Prod.snd = some 0 := by
    decide +kernel
  obtain ⟨⟨fr, n⟩, hlast, rfl⟩ := Option.map_eq_some_iff.mp hlast
  exact ⟨fr, 0, hlast, (answered_on_link clearEnv clearServer 1 1000 armActions armLink
    armLink_conforms armLink_cuttable).2 0 fr 0 [replyOk] hlast (by decide +kernel)⟩

/-! ## Commands that succeed -/

/-- **A command that succeeds was answered by the panel**: to the requests of the command, which
it read in this order, it has made replies that yield the outcome. -/
theorem completed_on_link (env : Env) (server : PanelServer) (now : ℚ) (panelId : ℤ)
    (as : List LinkAction) (l : Link)
    (hrun : Conforms (Link.step server env) ShortOfWrap (server.link now panelId) as l)
    (hcut : l.Cuttable server) (t : ℕ) (o : Outcome)
    (hend : (l.handler.conn.world.tasks t).pc = .finished o) (ho : o.Succeeds) :
    ∃ (r : Request) (exchanges : List (Frame × Bytes)),
      (l.handler.conn.world.tasks t).request = some r ∧
      Yields env r (exchanges.map Prod.snd) o ∧
      (∀ e ∈ exchanges, e ∈ l.panel.replies) ∧
      (exchanges.map Prod.fst).Sublist l.panel.inbound ∧
      ∀ (i : ℕ) (e : Frame × Bytes), exchanges[i]? = some e → IsRequest e.1 ∧
        e.1.major = r.channel.major ∧ r.payload (i ≠ 0) = .ok e.1.payload := by
  have hs := synced_of_reachable hcut hrun.reachable
  have ht := told_of_conforms hrun
  obtain ⟨r, rounds, hr, hrounds, hyields⟩ := (ht.gathered t).ended o hend ho
  -- the panel has answered each round
  have hanswered : ∀ x : Round, ∃ req, x ∈ rounds → (req, x.payload) ∈ l.panel.replies ∧
      req ∈ l.panel.inbound ∧ IsRequest req ∧ req.sequence = x.request.sequence ∧
      req.major = x.request.major ∧ req.payload = x.request.payload := by
    intro x
    by_cases hx : x ∈ rounds
    · obtain ⟨req, hreq⟩ := hs.answered (scripted_of_reachable hrun.reachable) ht.numbered
        (hrounds.standing x hx) (hrounds.given x hx)
      exact ⟨req, fun _ => hreq⟩
    · exact ⟨x.request, fun h => absurd h hx⟩
  choose req hreq using hanswered
  refine ⟨r, rounds.map fun x => (req x, x.payload), hr, ?_, ?_, ?_, ?_⟩
  · rw [List.map_map]
    exact hyields
  · intro e he
    obtain ⟨x, hx, rfl⟩ := List.mem_map.mp he
    exact (hreq x hx).1
  · rw [List.map_map]
    -- both have larger and larger numbers
    have hnumbers : (rounds.map req).Pairwise fun g g' => g.sequence < g'.sequence := by
      rw [List.pairwise_map]
      refine hrounds.increasing.imp_of_mem fun hx hy hlt => ?_
      rwa [(hreq _ hx).2.2.2.1, (hreq _ hy).2.2.2.1]
    have hsub : rounds.map req ⊆ l.panel.inbound.filter IsRequest := by
      intro g hg
      obtain ⟨x, hx, rfl⟩ := List.mem_map.mp hg
      exact List.mem_filter.mpr ⟨(hreq x hx).2.1, decide_eq_true (hreq x hx).2.2.1⟩
    have hanti : Std.Antisymm fun g g' : Frame => g.sequence < g'.sequence :=
      ⟨fun g g' h h' => absurd (h.trans h') (lt_irrefl _)⟩
    have hirrefl : Std.Irrefl fun g g' : Frame => g.sequence < g'.sequence :=
      ⟨fun g => lt_irrefl _⟩
    exact (List.sublist_of_subperm_of_pairwise (List.subperm_of_subset hnumbers.nodup hsub)
      hnumbers (hs.requests_increasing ht.numbered.numbering)).trans List.filter_sublist
  · intro i e he
    rw [List.getElem?_map] at he
    obtain ⟨x, hx, rfl⟩ := Option.map_eq_some_iff.mp he
    obtain ⟨-, -, hrequest, -, hmajor, hpayload⟩ := hreq x (List.mem_of_getElem? hx)
    exact ⟨hrequest, hmajor.trans (hrounds.major x (List.mem_of_getElem? hx)),
      hpayload ▸ hrounds.said i x hx⟩

/-- Has the command been accepted? -/
def accepted : Pc → Bool
  | .finished .ok => true
  | _ => false

/-- A place that tests as accepted is the end with success. -/
theorem eq_of_accepted {pc : Pc} (h : accepted pc = true) : pc = .finished .ok := by
  unfold accepted at h
  split at h
  · rfl
  · cases h

/-- The first area is armed. -/
theorem completed_on_armLink : ∃ (r : Request) (exchanges : List (Frame × Bytes)),
    (armLink.handler.conn.world.tasks 0).request = some r ∧
      Yields clearEnv r (exchanges.map Prod.snd) .ok ∧
      (∀ e ∈ exchanges, e ∈ armLink.panel.replies) ∧
      (exchanges.map Prod.fst).Sublist armLink.panel.inbound ∧
      ∀ (i : ℕ) (e : Frame × Bytes), exchanges[i]? = some e → IsRequest e.1 ∧
        e.1.major = r.channel.major ∧ r.payload (i ≠ 0) = .ok e.1.payload :=
  completed_on_link clearEnv clearServer 1 1000 armActions armLink armLink_conforms
    armLink_cuttable 0 .ok (eq_of_accepted (by decide +kernel)) trivial

end Spcedp.Client.Link
