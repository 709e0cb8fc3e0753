import Spcedp.Analysis.Consumers
import Spcedp.Analysis.Emission
import Spcedp.Analysis.TaskRuns
import Spcedp.Analysis.TheoremUpdates
import Spcedp.Interface.Listener

/-!
# The application at its link

The generator of the application is a consumer of the events of the session and touches nothing
else, so that the link under it stays as it is (`Seated`). What the link emits and
what the generator yields are steps of one stream (`step_moves`), and the zones of the snapshot
are changed by the events yielded alone, once they have been read (`Mirrors`).
-/

set_option autoImplicit false

namespace Spcedp

open Lib Lib.Table Lib.Transition Spcedp.PyText Spcedp.Xmlcmd Spcedp.Events Spcedp.Wire
  Spcedp.Client Panel

/-! ## The link under the application -/

/-- The loop of the application is a consumer. -/
theorem fromConsumer_of_fromLoop {a : StreamAction} (ha : a.FromLoop = true) :
    a.FromConsumer = true := by
  cases a with
  | emitEvent => cases ha
  | requestTeardown => cases ha
  | _ => rfl

/-- What holds of the link between two steps. -/
structure Seated (env : Env) (server : PanelServer) (panelId : ℤ) (k : Link) : Prop where
  orderly : Handler.Orderly env server k.handler
  synced : k.Cuttable server → Link.Synced env server k
  scripted : k.Scripted panelId

section Seated

variable {env : Env} {server : PanelServer} {panelId : ℤ} {k k' : Link} {l l' : Listener}

/-- A new link is seated. -/
theorem seated_link (now : ℚ) : Seated env server panelId (server.link now panelId) where
  orderly := Handler.orderly_accept now
  synced _ := Link.synced_link now panelId
  scripted := Link.scripted_link now panelId

/-- **A step of the link** keeps it seated. -/
theorem seated_step {a : LinkAction} (h : Seated env server panelId k)
    (hstep : k.step server env a = some k') : Seated env server panelId k' where
  orderly := by
    cases Link.step_does hstep with
    | arrived _ hh => exact Handler.orderly_step h.orderly hh
    | handled _ hh => exact Handler.orderly_step h.orderly hh
    | _ => exact h.orderly
  synced hcut := Link.synced_step (h.synced (hcut.before h.orderly hstep)) hcut hstep
  scripted := Link.scripted_step h.scripted hstep

/-- The two ends of the link know nothing of the events. -/
theorem synced_withEvents (hs : Link.Synced env server k) (events : List SiaEvent) :
    Link.Synced env server { k with handler := k.handler.withEvents events } where
  orderly := orderly_withEvents hs.orderly events
  fifo := hs.fifo
  entered := hs.entered
  key := hs.key
  inbound := hs.inbound
  outbound := hs.outbound
  pumping := hs.pumping

/-- The link stays seated when a consumer changes the queue of events. -/
theorem seated_withEvents (h : Seated env server panelId k) (events : List SiaEvent) :
    Seated env server panelId { k with handler := k.handler.withEvents events } where
  orderly := orderly_withEvents h.orderly events
  synced hcut := synced_withEvents (h.synced ⟨hcut.sent, hcut.queued⟩) events
  scripted := ⟨h.scripted.address, h.scripted.srcId, h.scripted.replied, h.scripted.sent⟩

namespace Listener

/-- The link under a step of the generator. -/
theorem follow_link {st : Stream} {a : StreamAction} (ha : a.FromLoop = true)
    (hstep : l.stream.step a = some st) : (l.follow st).link =
      { l.link with handler := l.link.handler.withEvents st.sess.events } := by
  obtain ⟨hsess, -⟩ := step_aside (fromConsumer_of_fromLoop ha) hstep
  show { l.link with handler := l.link.handler.setSess st.sess } = _
  rw [hsess]
  rfl

/-- **Every step of the application** is one of the link, or takes events off the queue. -/
theorem step_link {a : ListenerAction} (hstep : l.step server env a = some l') :
    (∃ a, l.link.step server env a = some l'.link) ∨
      ∃ events, l'.link = { l.link with handler := l.link.handler.withEvents events } := by
  have hsame {l' : Listener} (h : l'.link = l.link) : ∃ events,
      l'.link = { l.link with handler := l.link.handler.withEvents events } :=
    ⟨l.sess.events, h⟩
  cases step_does hstep with
  | linked hlink => exact .inl ⟨_, hlink⟩
  | ready => exact .inr (hsame rfl)
  | refused => exact .inr (hsame rfl)
  | cancelled => exact .inr (hsame rfl)
  | called _ hlink => exact .inl ⟨_, hlink⟩
  | replied _ _ hans =>
      right
      apply hsame
      cases hans <;> rfl
  | failed => exact .inr (hsame rfl)
  | @next a st _ _ ha hst hturn =>
      refine .inr ⟨st.sess.events, Eq.trans ?_ (follow_link ha hst)⟩
      cases hturn with
      | received _ hrec => cases hrec <;> rfl
      | returned => rfl
      | cancelled => rfl
      | waits => rfl

/-- **A step of the application** keeps the link under it seated. -/
theorem step_seated {a : ListenerAction} (h : Seated env server panelId l.link)
    (hstep : l.step server env a = some l') : Seated env server panelId l'.link := by
  obtain ⟨a, hlink⟩ | ⟨events, hlink⟩ := step_link hstep
  · exact seated_step h hlink
  · rw [hlink]
    exact seated_withEvents h events

end Listener

end Seated

/-! ## The stream -/

namespace Listener

section Stream

variable {env : Env} {server : PanelServer} {panelId : ℤ} {l l' : Listener}

/-- What the link emits moves the stream on. -/
theorem moves_of_emits (hemits : Emits l.sess l'.sess) (hgen : l'.generator = l.generator)
    (hyielded : l'.yielded = l.yielded) : l.stream.Moves l'.stream := by
  obtain ⟨new, hlog, hsub, hroom⟩ := hemits
  refine ⟨new, hlog, ?_, fun hle htransit => ?_⟩
  · unfold Client.Stream.transit
    show List.Sublist (l'.yielded ++ Client.Stream.held l'.generator ++ l'.sess.events) _
    rw [hgen, hyielded, List.append_assoc _ l.stream.sess.events]
    exact hsub.append_left _
  · have hlen := congrArg List.length htransit
    have hle' : (emittedEvents l'.sess.log).length ≤ l'.yielded.length + eventQueueMaxsize := hle
    rw [hlog, hyielded] at hle'
    unfold Client.Stream.transit at hlen ⊢
    have hlen' : (l.yielded ++ Client.Stream.held l.generator ++ l.sess.events).length =
        (emittedEvents l.sess.log).length := hlen
    simp only [List.length_append] at hle' hlen'
    show l'.yielded ++ Client.Stream.held l'.generator ++ l'.sess.events =
      l.yielded ++ Client.Stream.held l.generator ++ l.sess.events ++ new
    rw [hgen, hyielded, hroom (by omega), ← List.append_assoc]

/-- The stream under a step of the generator. -/
theorem stream_follow {st : Stream} {a : StreamAction} (ha : a.FromLoop = true)
    (hstep : l.stream.step a = some st) : (l.follow st).stream = st := by
  obtain ⟨hsess, hemitted, -⟩ := step_aside (fromConsumer_of_fromLoop ha) hstep
  obtain ⟨sess, generator, emitted, yielded⟩ := st
  dsimp only at hsess hemitted
  subst hemitted
  show Stream.mk sess generator (emittedEvents sess.log) yielded = _
  rw [hsess]
  rfl

/-- The stream is closed for good, so the end of an iterator stays justified. -/
theorem ending_of_closed {st st' : Stream} (hgen : st'.generator = st.generator)
    (hclosed : st.sess.closed = true → st'.sess.closed = true) (h : st.Ending) : st'.Ending := by
  unfold Client.Stream.Ending at h ⊢
  rw [hgen]
  split at h
  · exact ⟨h.1, h.2.imp_right hclosed⟩
  · exact h.imp_right hclosed
  · exact hclosed h
  · exact hclosed h
  · trivial

/-- A session that is closed stays so, whatever happens at the link. -/
theorem link_closed {k k' : Link} {a : LinkAction} (ho : Handler.Orderly env server k.handler)
    (hstep : k.step server env a = some k') (hclosed : k.handler.sess.closed = true) :
    k'.handler.sess.closed = true := by
  have hhandler {a : HandlerAction} {h' : Handler}
      (hh : k.handler.step server env a = some h') : h'.sess.closed = true := by
    obtain ⟨hadds, -⟩ | ⟨data, rest, -, -, -, hsess, -⟩ := Handler.step_adds ho hh
    · exact hadds.closed hclosed
    · rw [hsess]
      exact hclosed
  cases Link.step_does hstep with
  | arrived _ hh => exact hhandler hh
  | handled _ hh => exact hhandler hh
  | _ => exact hclosed

/-- While the snapshot is read there is no generator. -/
def Unfed (l : Listener) : Prop :=
  l.stage.Early → l.generator = .finished .closed ∧ l.yielded = []

/-- Until the snapshot is read, no step takes a generator or yields an event. -/
theorem unfed_step {a : ListenerAction} (h : l.Unfed) (hstep : l.step server env a = some l') :
    l'.Unfed := by
  intro hearly
  cases step_does hstep with
  | linked => exact h hearly
  | ready hstage => exact h (by rw [hstage]; trivial)
  | refused => exact hearly.elim
  | cancelled => exact hearly.elim
  | @called t q link hstage =>
      refine h ?_
      rw [hstage]
      cases q with
      | info => trivial
      | job j => cases j <;> trivial
  | replied hstage _ hans =>
      cases hans with
      | info => exact h (by rw [hstage]; trivial)
      | areas => exact h (by rw [hstage]; trivial)
      | zones => exact hearly.elim
      | reconciled => exact hearly.elim
      | raised => exact hearly.elim
  | failed => exact hearly.elim
  | next hstage _ _ hturn =>
      exfalso
      have hloop : ¬l.stage.Early := by
        rw [hstage]
        exact id
      cases hturn with
      | received _ hrec =>
          cases hrec with
          | needs => exact hearly.elim
          | applied => exact hloop hearly
          | raised => exact hearly.elim
      | returned => exact hearly.elim
      | cancelled => exact hearly.elim
      | waits => exact hloop hearly

/-- While the loop goes on its iterator has not returned. -/
def Alive (l : Listener) : Prop := l.stage.Listening → l.generator ≠ .finished .returned

/-- While the loop goes on, no step makes its iterator return. -/
theorem alive_step {a : ListenerAction} (h : l.Alive) (hstep : l.step server env a = some l') :
    l'.Alive := by
  intro hlisten
  cases step_does hstep with
  | linked => exact h hlisten
  | ready => exact hlisten.elim
  | refused => exact hlisten.elim
  | cancelled => exact hlisten.elim
  | @called t q link hstage =>
      refine h ?_
      rw [hstage]
      cases q with
      | info => exact hlisten.elim
      | job j => cases j <;> trivial
  | replied hstage _ hans =>
      cases hans with
      | info => exact hlisten.elim
      | areas => exact hlisten.elim
      | zones => exact nofun
      | reconciled => exact h (by rw [hstage]; trivial)
      | raised => exact hlisten.elim
  | failed => exact hlisten.elim
  | @next a st l' _ _ hst hturn =>
      cases hturn with
      | received hnew hrec =>
          have hgen : st.generator ≠ .finished .returned := by
            refine step_goesOn hst fun hsame => ?_
            rw [show st.yielded = l.yielded from hsame, List.drop_length] at hnew
            cases hnew
          cases hrec <;> exact hgen
      | returned => exact hlisten.elim
      | cancelled => exact hlisten.elim
      | waits _ hgen => exact hgen

/-- **What a step does to the stream.** -/
theorem step_moves {a : ListenerAction} (hs : Seated env server panelId l.link) (hfed : l.Unfed)
    (hstep : l.step server env a = some l') :
    l.stream.Moves l'.stream ∧ (l.stream.Ending → l'.stream.Ending) := by
  have hlinked {a : LinkAction} {l' : Listener} (hlink : l.link.step server env a = some l'.link)
      (hgen : l'.generator = l.generator) (hyielded : l'.yielded = l.yielded) :
      l.stream.Moves l'.stream ∧ (l.stream.Ending → l'.stream.Ending) :=
    ⟨moves_of_emits (link_emits hs.orderly hlink) hgen hyielded,
      ending_of_closed hgen (link_closed hs.orderly hlink)⟩
  have hsame {l' : Listener} (h : l'.stream = l.stream) :
      l.stream.Moves l'.stream ∧ (l.stream.Ending → l'.stream.Ending) := by
    rw [h]
    exact ⟨Client.Stream.moves_of_eq rfl rfl, id⟩
  cases step_does hstep with
  | linked hlink => exact hlinked hlink rfl rfl
  | ready => exact hsame rfl
  | refused => exact hsame rfl
  | cancelled => exact hsame rfl
  | called _ hlink => exact hlinked hlink rfl rfl
  | replied hstage _ hans =>
      cases hans with
      | info => exact hsame rfl
      | areas => exact hsame rfl
      | zones =>
          obtain ⟨hgen, -⟩ := hfed (by rw [hstage]; trivial)
          refine ⟨Client.Stream.moves_of_eq rfl ?_, fun _ => trivial⟩
          unfold Client.Stream.transit
          show l.yielded ++ Client.Stream.held .fresh ++ l.sess.events =
            l.yielded ++ Client.Stream.held l.generator ++ l.sess.events
          rw [hgen]
          rfl
      | reconciled => exact hsame rfl
      | raised => exact hsame rfl
  | failed => exact hsame rfl
  | @next a st l' _ ha hst hturn =>
      have hstream : l'.stream = st := by
        rw [← stream_follow ha hst]
        cases hturn with
        | received _ hrec => cases hrec <;> rfl
        | returned => rfl
        | cancelled => rfl
        | waits => rfl
      rw [hstream]
      exact ⟨Client.Stream.step_transit hst, fun h => Client.Stream.step_ending h hst⟩

end Stream

end Listener

/-! ## The tasks of the session -/

section Tasks

variable {env : Env} {server : PanelServer} {w w' : World} {h h' : Handler} {k k' : Link} {t : ℕ}

/-- Calls keep their requests, and what has ended stays as it is. -/
structure Lasting (w w' : World) : Prop where
  begun : ∀ t, Begun (w'.tasks t)
  request : ∀ t r, (w.tasks t).request = some r → (w'.tasks t).request = some r
  finished : ∀ t o, (w.tasks t).pc = .finished o → (w'.tasks t).pc = .finished o

/-- Where nothing happens, all calls last. -/
theorem lasting_refl (hbegun : ∀ t, Begun (w.tasks t)) : Lasting w w :=
  ⟨hbegun, fun _ _ => id, fun _ _ => id⟩

/-- Calls keep their requests and ends in a step of the handler. -/
theorem handler_lasting {a : HandlerAction} (ho : Handler.Orderly env server h)
    (hbegun : ∀ t, Begun (h.conn.world.tasks t)) (hstep : h.step server env a = some h') :
    Lasting h.conn.world h'.conn.world := by
  apply Handler.step_world ?_ ?_ ho hstep (lasting_refl hbegun)
  · intro w a w' hw _ _ _ hstep
    refine ⟨fun t => begun_step (hw.begun t) hstep, fun t r hr => ?_, fun t o hpc => ?_⟩
    · exact request_step (hw.begun t) hstep (hw.request t r hr)
    · have hend := hw.finished t o hpc
      rw [(step_other hstep (not_moves_of_finished hstep hend)).pc, hend]
  · intro w panelId new hw _
    exact ⟨hw.begun, hw.request, hw.finished⟩

/-- Calls keep their requests and ends in a step of the link. -/
theorem link_lasting {a : LinkAction} (ho : Handler.Orderly env server k.handler)
    (hbegun : ∀ t, Begun (k.handler.conn.world.tasks t)) (hstep : k.step server env a = some k') :
    Lasting k.handler.conn.world k'.handler.conn.world := by
  cases Link.step_does hstep with
  | arrived _ hh => exact handler_lasting ho hbegun hh
  | handled _ hh => exact handler_lasting ho hbegun hh
  | _ => exact lasting_refl hbegun

end Tasks

/-! ## The zones of the snapshot -/

/-- The zone that an event opens or closes. -/
def zoneOf (ev : SiaEvent) : Option ℤ := (zoneEvent ev).map Prod.fst

/-- Whether the last event about zone `z` has opened it. -/
def heard (evs : List SiaEvent) (z : ℤ) : Option Bool :=
  (lastRow zoneOf evs z).bind fun ev => (zoneEvent ev).map Prod.snd

/-- A zone, with what has been heard of it. -/
def Zone.hearing (zone : Zone) : Option Bool → Zone
  | some open_ => { zone with input := zoneToken open_ }
  | none => zone

/-- **The snapshot shows** for every zone of the reply what the last event about it says, and its
row of the reply where there is none. -/
def Mirrors (p : Panel) (reply : XmlReply) (evs : List SiaEvent) : Prop :=
  ∀ z, p.zones.lookup z =
    (lastRow rowId (zoneRows reply) z).map fun row => (Zone.ofRow row z).hearing (heard evs z)

section Mirrors

variable {p p' : Panel} {reply : XmlReply} {evs : List SiaEvent} {ev : SiaEvent}

/-- One more event is the last one about its own zone. -/
theorem heard_snoc (z : ℤ) : heard (evs ++ [ev]) z =
    if zoneOf ev = some z then (zoneEvent ev).map Prod.snd else heard evs z := by
  unfold heard
  rw [lastRow_snoc]
  split <;> rfl

/-- What was heard last is what counts. -/
theorem hearing_hearing (zone : Zone) (open_ : Bool) (last : Option Bool) :
    { zone.hearing last with input := zoneToken open_ } = zone.hearing (some open_) := by
  cases last <;> rfl

/-- A snapshot that was just read shows its reply. -/
theorem mirrors_refresh (h : p.refreshZones reply = .ok p') : Mirrors p' reply [] :=
  (refreshZones_lookup h).2

/-- An event about no zone. -/
theorem Mirrors.other (h : Mirrors p reply evs) (hzones : p'.zones = p.zones)
    (hnone : zoneEvent ev = none) : Mirrors p' reply (evs ++ [ev]) := by
  intro z
  have hzone : zoneOf ev = none := by rw [zoneOf, hnone]; rfl
  rw [heard_snoc, hzone, if_neg nofun, hzones]
  exact h z

/-- **An event is heard** when it is applied. -/
theorem Mirrors.applied (h : Mirrors p reply evs) :
    Mirrors (p.applied ev) reply (evs ++ [ev]) := by
  cases hev : zoneEvent ev with
  | none => exact h.other (by rw [applied_eq, hev]) hev
  | some named =>
      obtain ⟨z', open_⟩ := named
      intro z
      have hzone : zoneOf ev = some z' := by rw [zoneOf, hev]; rfl
      rw [heard_snoc, hzone, applied_eq, hev]
      dsimp only
      rw [modify_lookup, h z]
      by_cases hz : z = z'
      · subst hz
        rw [if_pos rfl, if_pos rfl, Option.map_map, Option.map_some]
        congr 1
        funext row
        exact hearing_hearing _ _ _
      · rw [if_neg hz, if_neg (by simpa using Ne.symm hz)]

end Mirrors

/-! ## The snapshot of the application -/

namespace Listener

def tasks (l : Listener) : ℕ → Task := l.link.handler.conn.world.tasks

/-- `from_session` has awaited task `t` for the zones, and gets `reply`. -/
def ReadsZones (l : Listener) (a : ListenerAction) (t : ℕ) (reply : XmlReply) : Prop :=
  a = .settled ∧ l.stage = .awaiting (.job .refreshZones) t ∧
    (l.tasks t).pc = .finished (.reply reply)

/-- The command that waits is the one that was called, and the zones are those of the one reply
that was read for them, as the events yielded leave them. -/
structure Mirrored (Read : ℕ → XmlReply → Prop) (l : Listener) : Prop where
  begun : ∀ t, Begun (l.tasks t)
  asked : ∀ q t, l.stage = .awaiting q t → (l.tasks t).request = q.command.check
  unread : l.stage.Early → ∀ t reply, ¬Read t reply
  shows : l.stage.Listening → ∃ t reply,
    (∀ t' reply', Read t' reply' ↔ t' = t ∧ reply' = reply) ∧
    (l.tasks t).request = some (.xml xmlZoneStatus 5 []) ∧
    (l.tasks t).pc = .finished (.reply reply) ∧ Mirrors l.panel reply l.yielded

section Mirrored

variable {env : Env} {server : PanelServer} {panelId : ℤ} {l l' : Listener}
  {Read : ℕ → XmlReply → Prop}

/-- The commands of the application are well formed XML commands. -/
theorem Query.check_command (q : Query) : ∃ commandId,
    q.command.check = some (.xml commandId 5 []) := by
  cases q with
  | info => exact ⟨_, rfl⟩
  | job j => exact ⟨_, rfl⟩

/-- A command that is called has its request. -/
theorem call_request {env : Env} {w w' : World} {t : ℕ} {cmd : Command} {r : Request}
    (hcheck : cmd.check = some r) (hstep : w.step env (.call t cmd) = some w') :
    (w'.tasks t).request = some r := by
  simp only [World.step] at hstep
  split at hstep
  · have hcall := Option.some.inj hstep
    unfold World.call at hcall
    rw [hcheck] at hcall
    dsimp only at hcall
    split at hcall
    · subst hcall
      rw [settle_tasks, Function.update_self]
      exact (@enterCommand_ends env w.now _ _ r none _ rfl rfl).request
    · subst hcall
      dsimp only
      rw [Function.update_self]
  · cases hstep

/-- A command that is called at the link has its request. -/
theorem link_call {k k' : Link} {t : ℕ} {cmd : Command} {r : Request} (hcheck : cmd.check = some r)
    (hstep : k.step server env (.handler (.app (.call t cmd))) = some k') :
    (k'.handler.conn.world.tasks t).request = some r := by
  cases Link.step_does hstep with
  | handled _ hh =>
      cases Handler.step_does hh with
      | left ha => obtain ha | ha := ha <;> cases ha
      | app _ _ hw => exact call_request hcheck hw

/-- The tasks have gone on, and the rest is as it was. -/
theorem Mirrored.lasting (h : l.Mirrored Read)
    (hlast : Lasting l.link.handler.conn.world l'.link.handler.conn.world)
    (hasked : ∀ q t, l'.stage = .awaiting q t → (l'.tasks t).request = q.command.check)
    (hearly : l'.stage.Early → l.stage.Early) (hlisten : l'.stage.Listening → l.stage.Listening)
    (hzones : l'.panel.zones = l.panel.zones) (hyielded : l'.yielded = l.yielded) :
    l'.Mirrored Read where
  begun := hlast.begun
  asked := hasked
  unread he := h.unread (hearly he)
  shows hl := by
    obtain ⟨t, reply, hread, hr, hpc, hmirrors⟩ := h.shows (hlisten hl)
    refine ⟨t, reply, hread, hlast.request t _ hr, hlast.finished t _ hpc, fun z => ?_⟩
    rw [hzones, hyielded]
    exact hmirrors z

/-- The snapshot shows one event more. -/
theorem Mirrored.yields {ev : SiaEvent} (h : l.Mirrored Read) (htasks : l'.tasks = l.tasks)
    (hstage : ∀ q t, l'.stage ≠ .awaiting q t) (hearly : ¬l'.stage.Early)
    (hlisten : l.stage.Listening)
    (hshows : ∀ reply, Mirrors l.panel reply l.yielded →
      Mirrors l'.panel reply (l.yielded ++ [ev]))
    (hyielded : l'.yielded = l.yielded ++ [ev]) : l'.Mirrored Read where
  begun := by rw [htasks]; exact h.begun
  asked q t hq := absurd hq (hstage q t)
  unread he := absurd he hearly
  shows _ := by
    obtain ⟨t, reply, hread, hr, hpc, hmirrors⟩ := h.shows hlisten
    rw [htasks, hyielded]
    exact ⟨t, reply, hread, hr, hpc, hshows reply hmirrors⟩

/-- The application is over. -/
theorem Mirrored.over {e : TaskEnd} {Read' : ℕ → XmlReply → Prop} (h : l.Mirrored Read)
    (htasks : l'.tasks = l.tasks) (hstage : l'.stage = .ended e) : l'.Mirrored Read' where
  begun := by rw [htasks]; exact h.begun
  asked q t hq := by rw [hstage] at hq; cases hq
  unread he := by rw [hstage] at he; exact he.elim
  shows hl := by rw [hstage] at hl; exact hl.elim

/-- The loop has got an event. -/
theorem mirrored_received {st : Stream} {ev : SiaEvent} {rest : List SiaEvent}
    {a : StreamAction} (h : l.Mirrored Read) (hstage : l.stage = .looping) (ha : a.FromLoop = true)
    (hst : l.stream.step a = some st) (hnew : st.yielded.drop l.yielded.length = ev :: rest)
    (hrec : Received (l.follow st) ev l') : l'.Mirrored Read := by
  have hlisten : l.stage.Listening := by rw [hstage]; trivial
  have hyielded : st.yielded = l.yielded ++ [ev] := by
    obtain ⟨-, -, new, hyielded, hone⟩ := step_aside (fromConsumer_of_fromLoop ha) hst
    have hyielded : st.yielded = l.yielded ++ new := hyielded
    rw [hyielded, List.drop_left] at hnew
    subst hnew
    cases rest with
    | nil => exact hyielded
    | cons _ _ => simp at hone
  cases hrec with
  | needs hneeds =>
      refine h.yields rfl nofun id hlisten (fun reply hmirrors => ?_) hyielded
      have hnone : zoneEvent ev = none := by
        unfold zoneEvent
        rw [opens_of_needsAreaStatus hneeds]
        cases number (strip ev.address) <;> rfl
      exact hmirrors.other rfl hnone
  | @applied panel update happly =>
      have hpanel : panel = l.panel.applied ev := by
        have happly : l.panel.applyEvent ev = .ok (panel, update) := happly
        unfold Panel.applied
        rw [happly]
        rfl
      refine h.yields rfl ?_ ?_ hlisten (fun reply hmirrors => ?_) hyielded
      · intro q t hq
        exact absurd (hstage.symm.trans hq) nofun
      · show ¬l.stage.Early
        rw [hstage]
        exact id
      · rw [hpanel]
        exact hmirrors.applied
  | raised => exact h.over rfl rfl

/-- The application has a reply. The one for the zones starts the snapshot. -/
theorem mirrored_replied {q : Query} {t : ℕ} {reply : XmlReply} (hfed : l.Unfed)
    (h : l.Mirrored Read) (hstage : l.stage = .awaiting q t)
    (hpc : (l.tasks t).pc = .finished (.reply reply)) (hans : Answered l reply q l') :
    l'.Mirrored fun t reply => Read t reply ∨ l.ReadsZones .settled t reply := by
  have hsame : Lasting l.link.handler.conn.world l.link.handler.conn.world :=
    lasting_refl h.begun
  have hother (hq : q ≠ .job .refreshZones) (h' : l'.Mirrored Read) :
      l'.Mirrored fun t reply => Read t reply ∨ l.ReadsZones .settled t reply := by
    convert h' using 3
    apply or_iff_left
    rintro ⟨-, hstage', -⟩
    rw [hstage, Stage.awaiting.injEq] at hstage'
    exact hq hstage'.1
  have hearly : q = .info ∨ q = .job .refreshAreas → l.stage.Early := by
    rw [hstage]
    rintro (rfl | rfl) <;> trivial
  cases hans with
  | info =>
      exact hother nofun (h.lasting hsame nofun (fun _ => hearly (.inl rfl)) False.elim rfl rfl)
  | areas =>
      exact hother nofun ⟨h.begun, nofun, fun _ => h.unread (hearly (.inr rfl)), False.elim⟩
  | zones hpanel =>
      have hunread := h.unread (by rw [hstage]; trivial)
      refine ⟨h.begun, nofun, False.elim, fun _ => ⟨t, reply, ?_, h.asked _ t hstage, hpc, ?_⟩⟩
      · intro t' reply'
        constructor
        · rintro (hread | ⟨-, hstage', hpc'⟩)
          · exact absurd hread (hunread t' reply')
          · rw [hstage, Stage.awaiting.injEq] at hstage'
            obtain ⟨-, rfl⟩ := hstage'
            rw [hpc, Pc.finished.injEq, Outcome.reply.injEq] at hpc'
            exact ⟨rfl, hpc'.symm⟩
        · rintro ⟨rfl, rfl⟩
          exact .inr ⟨rfl, hstage, hpc⟩
      · obtain ⟨-, hyielded⟩ := hfed (by rw [hstage]; trivial)
        show Mirrors _ reply l.yielded
        rw [hyielded]
        exact mirrors_refresh hpanel
  | reconciled hzones =>
      exact hother nofun (h.lasting hsame nofun False.elim (fun _ => by rw [hstage]; trivial)
        hzones rfl)
  | raised => exact h.over rfl rfl

/-- **Every step keeps the snapshot in step with the events.** -/
theorem mirrored_step {a : ListenerAction} (hs : Seated env server panelId l.link)
    (hfed : l.Unfed) (h : l.Mirrored Read) (hstep : l.step server env a = some l') :
    l'.Mirrored fun t reply => Read t reply ∨ l.ReadsZones a t reply := by
  have hsame : Lasting l.link.handler.conn.world l.link.handler.conn.world :=
    lasting_refl h.begun
  -- only a command that has settled reads the zones
  have hkeep (hnot : a ≠ .settled) (h' : l'.Mirrored Read) :
      l'.Mirrored fun t reply => Read t reply ∨ l.ReadsZones a t reply := by
    convert h' using 3
    exact or_iff_left fun hreads => hnot hreads.1
  cases step_does hstep with
  | linked hlink =>
      have hlast := link_lasting hs.orderly h.begun hlink
      refine hkeep nofun (h.lasting hlast (fun q t hq => ?_) id id rfl rfl)
      obtain ⟨commandId, hcheck⟩ := Query.check_command q
      have hr := h.asked q t hq
      rw [hcheck] at hr ⊢
      exact hlast.request t _ hr
  | ready hstage =>
      refine hkeep nofun (h.lasting hsame nofun (fun _ => ?_) False.elim rfl rfl)
      rw [hstage]
      trivial
  | refused => exact h.over rfl rfl
  | cancelled => exact h.over rfl rfl
  | @called t q link hstage hlink =>
      have hlast := link_lasting hs.orderly h.begun hlink
      refine hkeep nofun (h.lasting hlast ?_ ?_ ?_ rfl rfl)
      · rintro q' t' hq'
        cases hq'
        obtain ⟨commandId, hcheck⟩ := Query.check_command q
        rw [hcheck]
        exact link_call hcheck hlink
      · rw [hstage]
        cases q with
        | info => exact id
        | job j => cases j <;> exact id
      · rw [hstage]
        cases q with
        | info => exact False.elim
        | job j => cases j <;> exact id
  | replied hstage hpc hans => exact mirrored_replied hfed h hstage hpc hans
  | failed => exact h.over rfl rfl
  | @next a st l' hstage ha hst hturn =>
      apply hkeep nofun
      cases hturn with
      | received hnew hrec => exact mirrored_received h hstage ha hst hnew hrec
      | returned => exact h.over rfl rfl
      | cancelled => exact h.over rfl rfl
      | waits hnew =>
          obtain ⟨-, -, new, hyielded, -⟩ := step_aside (fromConsumer_of_fromLoop ha) hst
          have hyielded : st.yielded = l.yielded ++ new := hyielded
          rw [hyielded, List.drop_left] at hnew
          subst hnew
          refine h.lasting ⟨h.begun, fun _ _ => id, fun _ _ => id⟩ ?_ id id rfl
            (hyielded.trans (List.append_nil _))
          intro q t hq
          exact absurd (hstage.symm.trans hq) nofun

end Mirrored

end Listener

end Spcedp
