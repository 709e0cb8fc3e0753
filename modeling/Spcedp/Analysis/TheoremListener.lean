import Spcedp.Analysis.Listener
import Spcedp.Analysis.TheoremLink
import Spcedp.Analysis.TheoremRefresh

/-!
# The application sees what the panel announces

The events that the loop of the application gets are those that the panel has pushed, in this
order and each at most once, and all of them if the loop keeps up (`yielded_on_link`). The
snapshot starts from the panel's own list of its zones and shows for every zone what the panel
has announced last about it (`mirrored_on_link`).
-/

set_option autoImplicit false

namespace Spcedp.Listener

open Lib Lib.Table Lib.Transition Spcedp.PyText Spcedp.Xmlcmd Spcedp.Events Spcedp.Wire
  Spcedp.Client Panel
open scoped List

/-- What the panel has pushed, as the receiver reads it. -/
def announced (k : Link) : List SiaEvent := (k.panel.sent.map Frame.onWire).filterMap pushedEvent

/-- Nothing is on its way to the loop. -/
structure UpToDate (l : Listener) : Prop where
  reading : l.link.handler.place = .reading
  toReceiver : l.link.toReceiver = []
  events : l.sess.events = []
  held : Client.Stream.held l.generator = []

/-- At no time in the run are more events undelivered than the queue holds. -/
def KeepsUp (server : PanelServer) (env : Env) (l₀ : Listener) (as : List ListenerAction) : Prop :=
  ∀ pre l, pre <+: as → run (step server env) l₀ pre = some l →
    (emittedEvents l.sess.log).length ≤ l.yielded.length + eventQueueMaxsize

/-- In the run `as` from `l₀`, `from_session` has awaited task `t` for the zones, and has got
`reply`. -/
def ReadZones (server : PanelServer) (env : Env) (l₀ : Listener) (as : List ListenerAction) (t : ℕ)
    (reply : XmlReply) : Prop :=
  ∃ l a l', Happens (step server env) l₀ as l a l' ∧ l.ReadsZones a t reply

section Runs

variable {env : Env} {server : PanelServer} {now : ℚ} {panelId : ℤ} {as : List ListenerAction}
  {l : Listener}

/-- What every step keeps. -/
structure Fed (env : Env) (server : PanelServer) (panelId : ℤ) (l : Listener) : Prop where
  seated : Seated env server panelId l.link
  unfed : l.Unfed
  alive : l.Alive
  ending : l.stream.Ending
  transit : l.stream.transit <+ l.stream.emitted

/-- **Every step** keeps the link seated, the loop alive and the events in order. -/
theorem fed_step {a : ListenerAction} {l' : Listener} (h : Fed env server panelId l)
    (hstep : l.step server env a = some l') : Fed env server panelId l' := by
  obtain ⟨⟨new, hemitted, hsub, -⟩, hending⟩ := step_moves h.seated h.unfed hstep
  refine ⟨step_seated h.seated hstep, unfed_step h.unfed hstep, alive_step h.alive hstep,
    hending h.ending, ?_⟩
  rw [hemitted]
  exact hsub.trans (h.transit.append_right new)

/-- After a run. A loop that keeps up has lost nothing. -/
theorem fed_run (hrun : run (step server env) (server.listener now panelId) as = some l) :
    Fed env server panelId l ∧ (KeepsUp server env (server.listener now panelId) as →
      l.stream.transit = l.stream.emitted) := by
  have hstart : Fed env server panelId (server.listener now panelId) :=
    ⟨seated_link now, fun _ => ⟨rfl, rfl⟩, False.elim, trivial, List.Sublist.refl _⟩
  have hruns : ∀ as l, run (step server env) (server.listener now panelId) as = some l →
      Fed env server panelId l ∧ (KeepsUp server env (server.listener now panelId) as →
        l.stream.transit = l.stream.emitted) := by
    refine run_induction ⟨hstart, fun _ => rfl⟩ ?_
    rintro as l a l' hrun ⟨hfed, hall⟩ hstep
    refine ⟨fed_step hfed hstep, fun hkeeps => ?_⟩
    obtain ⟨⟨new, hemitted, -, hroom⟩, -⟩ := step_moves hfed.seated hfed.unfed hstep
    have heq := hall fun pre l hpre => hkeeps pre l (hpre.trans (List.prefix_append as [a]))
    have hle := hkeeps (as ++ [a]) l' List.prefix_rfl (run_snoc_iff.mpr ⟨l, hrun, hstep⟩)
    rw [hroom hle heq, hemitted, heq]
  exact hruns as l hrun

/-- What has been read after one step more. -/
theorem readZones_snoc {l₀ l' : Listener} {a : ListenerAction}
    (hrun : run (step server env) l₀ as = some l) (hstep : l.step server env a = some l') :
    ReadZones server env l₀ (as ++ [a]) =
      fun t reply => ReadZones server env l₀ as t reply ∨ l.ReadsZones a t reply := by
  funext t reply
  apply propext
  constructor
  · rintro ⟨l₁, b, l₂, hhappens, hreads⟩
    obtain hbefore | ⟨rfl, rfl, -⟩ := (happens_last_iff hrun hstep).mp hhappens
    · exact .inl ⟨l₁, b, l₂, hbefore, hreads⟩
    · exact .inr hreads
  · rintro (⟨l₁, b, l₂, hhappens, hreads⟩ | hreads)
    · exact ⟨l₁, b, l₂, (happens_last_iff hrun hstep).mpr (.inl hhappens), hreads⟩
    · exact ⟨l, a, l', (happens_last_iff hrun hstep).mpr (.inr ⟨rfl, rfl, rfl⟩), hreads⟩

/-- **The snapshot after a run.** -/
theorem mirrored_run (hrun : run (step server env) (server.listener now panelId) as = some l) :
    l.Mirrored (ReadZones server env (server.listener now panelId) as) := by
  have hruns : ∀ as l, run (step server env) (server.listener now panelId) as = some l →
      l.Mirrored (ReadZones server env (server.listener now panelId) as) := by
    refine run_induction ⟨fun _ => begun_new, nofun, ?_, False.elim⟩ ?_
    · rintro - t reply ⟨l, a, l', hhappens, -⟩
      exact not_happens_nil hhappens
    · intro as l a l' hrun ih hstep
      obtain ⟨hfed, -⟩ := fed_run hrun
      rw [readZones_snoc hrun hstep]
      exact mirrored_step hfed.seated hfed.unfed ih hstep
  exact hruns as l hrun

/-- A run with no more events than the queue holds. -/
theorem keepsUp_of_few (hrun : run (step server env) (server.listener now panelId) as = some l)
    (hfew : (emittedEvents l.sess.log).length ≤ eventQueueMaxsize) :
    KeepsUp server env (server.listener now panelId) as := by
  rintro pre l₁ ⟨rest, rfl⟩ hpre
  rw [run_append, hpre, Option.bind_some] at hrun
  have hgrows : ∀ bs l', run (step server env) l₁ bs = some l' →
      Fed env server panelId l' ∧ emittedEvents l₁.sess.log <+: emittedEvents l'.sess.log := by
    refine run_induction ⟨(fed_run hpre).1, List.prefix_rfl⟩ ?_
    rintro bs l' a l'' - ⟨hfed, hprefix⟩ hstep
    obtain ⟨⟨new, hemitted, -⟩, -⟩ := step_moves hfed.seated hfed.unfed hstep
    exact ⟨fed_step hfed hstep, hprefix.trans ⟨new, hemitted.symm⟩⟩
  have hle := (hgrows rest l hrun).2.length_le
  omega

/-- What is emitted has been pushed by the panel. -/
theorem Fed.emitted_prefix (h : Fed env server panelId l) (hcut : l.link.Cuttable server) :
    emittedEvents l.sess.log <+: announced l.link := by
  rw [emittedEvents_eq]
  have hreceived := Link.Synced.received_prefix (h.seated.synced hcut)
  exact hreceived.filterMap pushedEvent

/-- All that was pushed has been emitted, once nothing is on its way. -/
theorem Fed.emitted_eq (h : Fed env server panelId l) (hcut : l.link.Cuttable server)
    (hnow : l.UpToDate) : emittedEvents l.sess.log = announced l.link := by
  rw [emittedEvents_eq]
  exact congrArg (List.filterMap pushedEvent)
    ((h.seated.synced hcut).received_eq hnow.reading hnow.toReceiver)

/-- What the loop gets was emitted, in this order. -/
theorem Fed.yielded_sublist (h : Fed env server panelId l) :
    l.yielded <+ emittedEvents l.sess.log := by
  refine List.Sublist.trans ?_ h.transit
  unfold Client.Stream.transit
  rw [List.append_assoc]
  exact List.sublist_append_left _ _

/-- A loop that keeps up and is up to date has got everything. -/
theorem Fed.yielded_eq (h : Fed env server panelId l) (hcut : l.link.Cuttable server)
    (hall : l.stream.transit = l.stream.emitted) (hnow : l.UpToDate) :
    l.yielded = announced l.link := by
  rw [← h.emitted_eq hcut hnow]
  refine Eq.trans ?_ hall
  show l.yielded = l.yielded ++ Client.Stream.held l.generator ++ l.sess.events
  rw [hnow.held, hnow.events, List.append_nil, List.append_nil]

/-- The loop ends by itself when the session is closed and the queue empty. -/
theorem Fed.returned {a : ListenerAction} {l' : Listener} (h : Fed env server panelId l)
    (hstep : l.step server env a = some l') (hloop : l.stage = .looping)
    (hend : l'.stage = .ended .returned) : l'.sess.closed = true ∧ l'.sess.events = [] := by
  have hgen : l.generator ≠ .finished .returned := h.alive (by rw [hloop]; trivial)
  cases step_does hstep with
  | linked => simp [hloop] at hend
  | ready hstage => simp [hloop] at hstage
  | refused hstage => simp [hloop] at hstage
  | cancelled hstage => simp [hloop] at hstage
  | called hstage => simp [hloop] at hstage
  | replied hstage => simp [hloop] at hstage
  | failed hstage => simp [hloop] at hstage
  | @next a st l' _ ha hst hturn =>
      cases hturn with
      | received _ hrec =>
          cases hrec with
          | needs => cases hend
          | applied => exact absurd (hloop.symm.trans hend) nofun
          | raised => cases hend
      | returned _ hreturned => exact Client.Stream.step_returned h.ending hst hgen hreturned
      | cancelled => cases hend
      | waits => exact absurd (hloop.symm.trans hend) nofun

end Runs

/-! ## The theorems -/

/-- **The loop gets what the panel pushes**, in this order and each event at most once; all of it,
if it keeps up, once nothing is on its way. It ends by itself only when the session is closed and
the queue is empty. -/
theorem yielded_on_link (env : Env) (server : PanelServer) (now : ℚ) (panelId : ℤ)
    (as : List ListenerAction) (l : Listener)
    (hrun : run (Listener.step server env) (server.listener now panelId) as = some l)
    (hcut : l.link.Cuttable server) :
    l.yielded <+ announced l.link ∧
    (KeepsUp server env (server.listener now panelId) as → l.UpToDate →
      l.yielded = announced l.link) ∧
    ∀ a l', l.step server env a = some l' → l.stage = .looping → l'.stage = .ended .returned →
      l'.sess.closed = true ∧ l'.sess.events = [] := by
  obtain ⟨hfed, hall⟩ := fed_run hrun
  refine ⟨?_, fun hkeeps hnow => hfed.yielded_eq hcut (hall hkeeps) hnow,
    fun a l' hstep => hfed.returned hstep⟩
  exact hfed.yielded_sublist.trans (hfed.emitted_prefix hcut).sublist

/-- The receiver's request for one of the lists. -/
def request (commandId : String) (sequence : ℤ) (checksum : ℕ) : Frame where
  srcId := 1001
  dstId := 1000
  sequence := sequence
  major := MajorCode.xmlCmd.value
  minor := MinorCode.request.value
  payload := 1 :: (text ("<COMMAND ID=\"" ++ commandId ++ "\" />")).map UInt8.ofNat
  checksum := checksum
  srcFlag := flagFromReceiver

def emptyReply : Wire.Bytes := (text "<COMMAND_REPLY></COMMAND_REPLY>").map UInt8.ofNat

/-- `expat` on the replies. -/
def listenEnv : Env where
  aes := clearEnv.aes
  expat := fun xml =>
    if xml = emptyReply then .document (.node (text "COMMAND_REPLY") [] [])
    else PanelWorld.zoneEnv.expat xml

/-- Task `t` asks the panel, which answers `req` with `body`. -/
def asks (t : ℕ) (req : Frame) (body : Wire.Bytes) : List ListenerAction :=
  [.link (.handler (.app (.tick 1))), .call t, .link (.handler .writer), .link (.handler .writer),
    .link (.depart (23 + req.payload.length)), .link (.reply req (1 :: body)),
    .link (.arrive (24 + body.length)), .link (.handler .reclaim),
    .link (.handler (.app (.resume t))), .settled]

/-- The panel polls and lists zone 5 as closed; then it pushes an event that opens it, which the
loop yields. -/
def listenActions : List ListenerAction :=
  [.link (.start .poll Link.nonce 1), .link (.arrive 31), .link (.handler .reclaim), .ready,
    .link (.handler .writer), .link (.handler .writer), .link (.depart 31)] ++
  asks 0 (request "info" 2 2705) emptyReply ++
  asks 1 (request "area_status" 3 44706) emptyReply ++
  asks 2 (request "zone_status" 4 63339)
    (PanelWorld.firstFragment ++ PanelWorld.lastFragment) ++
  [.next .anext, .link (.start .event PanelWorld.push 5),
    .link (.arrive (23 + PanelWorld.push.length)), .link (.handler .reclaim), .next .getTask,
    .next .resume, .next .closedTask, .next .resume]

/-- What is seen at the end. -/
structure Seen (l : Listener) : Prop where
  listening : l.stage.Listening
  yielded : l.yielded = [PanelWorld.opened]
  zone : (l.panel.zones.lookup 5).map Zone.input = some zoneOpen
  few : (emittedEvents l.sess.log).length ≤ eventQueueMaxsize
  upToDate : l.UpToDate
  cuttable : l.link.Cuttable clearServer

/-- The run, with what is seen at its end. -/
theorem listening_run : ∃ l, run (Listener.step clearServer listenEnv)
    (clearServer.listener 1 1000) listenActions = some l ∧ Seen l := by
  have hseen : (run (Listener.step clearServer listenEnv) (clearServer.listener 1 1000)
      listenActions).any (fun l =>
        l.stage.Listening ∧ l.yielded = [PanelWorld.opened] ∧
        (l.panel.zones.lookup 5).map Zone.input = some zoneOpen ∧
        (emittedEvents l.sess.log).length ≤ eventQueueMaxsize ∧
        (l.link.handler.place = .reading ∧ l.link.toReceiver = [] ∧ l.sess.events = [] ∧
          Client.Stream.held l.generator = []) ∧
        (∀ f ∈ l.link.panel.sent,
          wireLength clearServer.key.val f.payload.length ≤ maxCutFrame) ∧
        ∀ data ∈ queuedData l.link.handler.sess.log, data.length ≤ maxCutFrame) = true := by
    decide +kernel
  generalize run (Listener.step clearServer listenEnv) (clearServer.listener 1 1000)
    listenActions = o at hseen ⊢
  cases o with
  | none => cases hseen
  | some l =>
      obtain ⟨hlisten, hyielded, hzone, hfew, ⟨hplace, hto, hevents, hheld⟩, hsent, hqueued⟩ :=
        of_decide_eq_true hseen
      exact ⟨l, rfl, hlisten, hyielded, hzone, hfew, ⟨hplace, hto, hevents, hheld⟩,
        ⟨hsent, hqueued⟩⟩

/-- The loop has got the event. -/
theorem yielded_on_listening : ∃ l, run (Listener.step clearServer listenEnv)
    (clearServer.listener 1 1000) listenActions = some l ∧
      l.yielded = announced l.link ∧ l.yielded = [PanelWorld.opened] := by
  obtain ⟨l, hrun, hseen⟩ := listening_run
  exact ⟨l, hrun, (yielded_on_link listenEnv clearServer 1 1000 listenActions l hrun
    hseen.cuttable).2.1 (keepsUp_of_few hrun hseen.few) hseen.upToDate, hseen.yielded⟩

/-- **The snapshot shows what the panel has announced last.** In the loop, `from_session` has
awaited exactly one task for the zones, a `ZONE_STATUS` command. Every zone of its reply is as the
last event about it says, of those that the loop has got, and as its row says where there is none;
and of all that the panel has pushed, if the loop keeps up, once nothing is on its way. -/
theorem mirrored_on_link (env : Env) (server : PanelServer) (now : ℚ) (panelId : ℤ)
    (as : List ListenerAction) (l : Listener)
    (hrun : run (Listener.step server env) (server.listener now panelId) as = some l)
    (hcut : l.link.Cuttable server) (hlisten : l.stage.Listening) :
    ∃ t reply, (∀ t' reply', ReadZones server env (server.listener now panelId) as t' reply' ↔
        t' = t ∧ reply' = reply) ∧
      (l.tasks t).request = some (.xml xmlZoneStatus 5 []) ∧
      (l.tasks t).pc = .finished (.reply reply) ∧ Mirrors l.panel reply l.yielded ∧
      (KeepsUp server env (server.listener now panelId) as → l.UpToDate →
        Mirrors l.panel reply (announced l.link)) := by
  obtain ⟨hfed, hall⟩ := fed_run hrun
  obtain ⟨t, reply, hread, hr, hpc, hmirrors⟩ := (mirrored_run hrun).shows hlisten
  refine ⟨t, reply, hread, hr, hpc, hmirrors, fun hkeeps hnow => ?_⟩
  rw [← hfed.yielded_eq hcut (hall hkeeps) hnow]
  exact hmirrors

/-- The zone that was listed as closed is open. -/
theorem mirrored_on_listening : ∃ l t reply, run (Listener.step clearServer listenEnv)
    (clearServer.listener 1 1000) listenActions = some l ∧
      (l.panel.zones.lookup 5).map Zone.input = some zoneOpen ∧
      ReadZones clearServer listenEnv (clearServer.listener 1 1000) listenActions t reply ∧
      (l.tasks t).request = some (.xml xmlZoneStatus 5 []) ∧
      (l.tasks t).pc = .finished (.reply reply) ∧ Mirrors l.panel reply (announced l.link) := by
  obtain ⟨l, hrun, hseen⟩ := listening_run
  obtain ⟨t, reply, hread, hr, hpc, -, hmirrors⟩ := mirrored_on_link listenEnv clearServer 1 1000
    listenActions l hrun hseen.cuttable hseen.listening
  exact ⟨l, t, reply, hrun, hseen.zone, (hread t reply).mpr ⟨rfl, rfl⟩, hr, hpc,
    hmirrors (keepsUp_of_few hrun hseen.few) hseen.upToDate⟩

end Spcedp.Listener
