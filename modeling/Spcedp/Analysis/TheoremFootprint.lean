import Spcedp.Analysis.Consumers
import Spcedp.Analysis.TheoremAccounting
import Spcedp.Interface.Outcomes

/-!
# What a connection can hold

Whatever the panel sends, however slowly it reads and whatever the application does, a connection
holds a bounded number of frames on their way out, of events that nobody has taken, of requests
that wait for a reply and of bytes that are no frame or no reply yet (`bounded_of_reachable`). A
request that cannot be encoded stays in its dictionary, so the third bound is for sessions on
which no call has ended that way.
-/

set_option autoImplicit false

namespace Spcedp.Client

open Lib.FairLock Lib.Transition Spcedp.Events Spcedp.Wire Spcedp.Xmlcmd

/-! ## The queues of a session -/

/-- The queues of a session are within their bounds. -/
structure Session.Fits (s : Session) : Prop where
  queue : s.writeQueue.length ≤ writeQueueMaxsize
  events : s.events.length ≤ eventQueueMaxsize

section Fits

variable {env : Env} {s s' : Session} {f : Frame}

/-- The bounds depend on the two queues only. -/
theorem Session.Fits.congr (h : s.Fits) (hqueue : s'.writeQueue = s.writeQueue)
    (hevents : s'.events = s.events) : s'.Fits :=
  ⟨hqueue ▸ h.queue, hevents ▸ h.events⟩

/-- **A full queue takes no frame.** -/
theorem Session.Fits.send {aes : AesEcb} (h : s.Fits) (hsend : s.send aes f = .ok s') :
    s'.Fits := by
  obtain ⟨data, g, -, ⟨-, rfl⟩ | ⟨hroom, warned, rfl⟩⟩ := Session.send_cases hsend
  · exact ⟨h.queue, h.events⟩
  · refine ⟨?_, h.events⟩
    rw [List.length_append, List.length_singleton]
    exact hroom

/-- **A full stream drops its oldest event.** -/
theorem Session.Fits.emitEvent (h : s.Fits) (event : SiaEvent) : (s.emitEvent event).Fits := by
  have hevents := h.events
  unfold Session.emitEvent
  split
  · rename_i hroom
    refine ⟨h.queue, ?_⟩
    rw [List.length_append, List.length_singleton]
    exact hroom
  · refine ⟨h.queue, ?_⟩
    rw [List.length_append, List.length_drop, List.length_singleton]
    dsimp only [eventQueueMaxsize] at hevents ⊢
    omega

/-- **A frame that is dispatched** keeps the queues within their bounds. -/
theorem Session.Fits.dispatch {aes : AesEcb} {now : ℚ} (h : s.Fits) (f : Frame) :
    (s.dispatch aes now f).1.Fits := by
  have hreceived : (s.received now f).Fits := ⟨h.queue, h.events⟩
  have hreply (c : Channel) : ((s.received now f).dispatchReply c f).Fits := by
    unfold Session.dispatchReply
    split
    · refine hreceived.congr ?_ ?_ <;> cases c <;> rfl
    · exact hreceived
  have hecho {m : MinorCode} {s₁ : Session}
      (hm : (s.received now f).replyEcho aes f m.value = .ok s₁) : s₁.Fits := hreceived.send hm
  unfold Session.dispatch
  dsimp only
  split
  · exact hreply .xml
  split
  · exact hreply .bin
  split
  · split
    · split
      · rename_i s₁ hm
        exact (hecho hm).congr rfl rfl
      · exact hreceived
    · split
      · split
        · rename_i s₁ hm
          exact hecho hm
        · exact hreceived
      · exact hreceived
  · split
    · split
      · rename_i s₁ hm
        split
        · exact (hecho hm).emitEvent _
        · exact hecho hm
      · exact hreceived
    · exact hreceived

/-- **A segment of a task** keeps the queues within their bounds. -/
theorem Session.Fits.ends {now : ℚ} {r : Request} {given : Option Bytes} {pc : Pc}
    {last last' : Option (Frame × ℕ)} (h : s.Fits)
    (hends : Ends env now s r given last s' pc last') : s'.Fits := by
  have hregistered : (s.registered r.channel).Fits := by
    refine h.congr ?_ ?_ <;> cases r.channel <;> rfl
  cases hends with
  | stopped => exact h
  | asleep => exact h
  | unbuilt => exact h.congr rfl rfl
  | unencoded => exact hregistered
  | sent _ hsend => exact hregistered.send hsend

/-- **Every step keeps the queues within their bounds.** -/
theorem step_fits {w w' : World} {a : Action} (h : w.sess.Fits)
    (hstep : w.step env a = some w') : w'.sess.Fits := by
  cases step_change hstep with
  | @segment a t r s given seg hruns hseg =>
      have hstart : s.Fits := by
        obtain ⟨-, lock, xml, bin, rfl⟩ := runs_session hruns
        exact h.congr rfl rfl
      have hend := hstart.ends hseg.ends
      obtain ⟨lock', hsettle⟩ := settle_session w t seg
      rw [hsettle]
      exact hend.congr rfl rfl
  | interrupted =>
      dsimp only
      unfold World.interrupt
      split <;> exact h.congr rfl rfl
  | dispatched => exact h.dispatch _
  | wrote hqueue =>
      refine ⟨?_, h.events⟩
      have hle := h.queue
      rw [hqueue, List.length_cons] at hle
      dsimp only
      omega
  | _ => exact h.congr rfl rfl

end Fits

/-! ## Pieces of a reply -/

section Assembler

variable (env : Env) (now : ℚ) {s : Session} {task : Task} {r : Request}

/-- Sending a request does not touch the pieces of the reply. -/
theorem sendRequest_assembler :
    (sendRequest env s task r).2.assembler = task.assembler := by
  unfold sendRequest
  dsimp only
  split
  · rfl
  · split <;> rfl

/-- Nor does waiting to send. -/
theorem waitToSend_assembler :
    (waitToSend env now s task r).2.assembler = task.assembler := by
  unfold waitToSend
  split
  · split <;> rfl
  · split
    · rfl
    · exact sendRequest_assembler env

/-- A task that gets the lock starts without pieces, or stops. -/
theorem enterCommand_assembler (h : task.assembler.length ≤ maxReplyBytes) :
    (enterCommand env now s task r).2.assembler.length ≤ maxReplyBytes := by
  unfold enterCommand
  split
  · exact h
  · rw [waitToSend_assembler]
    exact Nat.zero_le _

/-- A task that has slept keeps its pieces. -/
theorem wakeQuiet_assembler (h : task.assembler.length ≤ maxReplyBytes) :
    (wakeQuiet env now s task r).2.assembler.length ≤ maxReplyBytes := by
  unfold wakeQuiet
  split
  · exact h
  · split
    · exact h
    · rw [waitToSend_assembler]
      exact h

/-- **A reply that goes on for too long is given up.** -/
theorem assemble_length {buf payload rest : Bytes} (h : buf.length ≤ maxReplyBytes)
    (hassemble : assemble buf payload = .ok (rest, none)) : rest.length ≤ maxReplyBytes := by
  unfold assemble at hassemble
  cases payload with
  | nil =>
      cases hassemble
      exact h
  | cons marker piece =>
      dsimp only at hassemble
      split at hassemble
      · cases hassemble
      · rename_i hshort
        split at hassemble
        · cases hassemble
        · cases hassemble
          exact not_lt.mp hshort

/-- A reply adds its piece, within the bound, or ends the task. -/
theorem handleReply_assembler (h : task.assembler.length ≤ maxReplyBytes) (payload : Bytes) :
    (handleReply env now s task r payload).2.assembler.length ≤ maxReplyBytes := by
  unfold handleReply
  cases r with
  | xml commandId timeout attrs =>
      dsimp only
      split
      · exact h
      · split <;> exact h
      · rename_i hassemble
        split
        · rw [waitToSend_assembler]
          exact assemble_length h hassemble
        · exact assemble_length h hassemble
  | binary op targetId timeout =>
      dsimp only
      split
      · exact h
      · split <;> exact h

/-- A task that is woken from its `await` stays within the bound. -/
theorem wakeAwaiting_assembler (h : task.assembler.length ≤ maxReplyBytes) (n : ℕ) (q : ℤ) :
    (wakeAwaiting env now s task r n q).2.assembler.length ≤ maxReplyBytes := by
  unfold wakeAwaiting
  dsimp only
  split
  · exact h
  split
  · exact h
  split
  · exact handleReply_assembler env now h _
  · exact h
  · exact h

/-- **Every step keeps the pieces within their bound.** -/
theorem step_assembler {env : Env} {w w' : World} {a : Action} {t : ℕ}
    (h : (w.tasks t).assembler.length ≤ maxReplyBytes) (hstep : w.step env a = some w') :
    (w'.tasks t).assembler.length ≤ maxReplyBytes := by
  by_cases ha : a.Moves t
  · have hupdate {task : Task} (htask : task.assembler.length ≤ maxReplyBytes) :
        (Function.update w.tasks t task t).assembler.length ≤ maxReplyBytes := by
      rw [Function.update_self]
      exact htask
    obtain rfl | ⟨cmd, rfl⟩ := ha
    · simp only [World.step, World.resume] at hstep
      split at hstep
      · split at hstep
        · cases hstep
          exact hupdate h
        · split at hstep
          · cases hstep
            exact hupdate (enterCommand_assembler env w.now h)
          · cases hstep
      · cases hstep
        exact hupdate (wakeQuiet_assembler env w.now h)
      · split at hstep
        · cases hstep
        · cases hstep
          exact hupdate (wakeAwaiting_assembler env w.now h _ _)
      · cases hstep
    · simp only [World.step] at hstep
      split at hstep
      · have hcall := Option.some.inj hstep
        unfold World.call at hcall
        split at hcall
        · subst hcall
          exact hupdate h
        · dsimp only at hcall
          split at hcall
          · subst hcall
            exact hupdate (enterCommand_assembler env w.now h)
          · subst hcall
            exact hupdate h
      · cases hstep
  · rw [(step_other hstep ha).assembler]
    exact h

end Assembler

/-! ## Requests that wait for a reply -/

/-- A call has ended because its request could not be encoded. -/
def World.Unencoded (w : World) : Prop := ∃ t e, (w.tasks t).pc = .finished (.wireError e)

/-- What is in the dictionaries is awaited, unless a request could not be encoded. -/
def World.Tidy (w : World) : Prop :=
  ∀ c q n, (w.sess.pendingOf c).lookup q = some n → w.Unencoded ∨
    ∃ t r, (w.tasks t).pc = .awaiting n q ∧ (w.tasks t).request = some r ∧ r.channel = c

section Tidy

variable {env : Env} {w w' : World} {a : Action}

/-- A call that has ended stays so. -/
theorem unencoded_step (h : w.Unencoded) (hstep : w.step env a = some w') : w'.Unencoded := by
  obtain ⟨t, e, hend⟩ := h
  exact ⟨t, e, (step_pc hstep t).2 _ hend⟩

/-- The task that runs has left the dictionary, and no other task is in it. -/
theorem World.Tidy.start (h : w.Tidy) (hinv : Inv w) {t : ℕ} {r : Request} {s : Session}
    {given : Option Bytes} (hruns : Runs w a t r s given) {c : Channel} {q : ℤ} {n : ℕ}
    (hl : (s.pendingOf c).lookup q = some n) : w.Unencoded := by
  have hinside := runs_inside hinv hruns
  obtain hleft | ⟨u, r', hpc, hr', rfl⟩ := h c q n (hinside.pending c q n hl)
  · exact hleft
  · exfalso
    obtain rfl : u = t := by
      by_contra hne
      exact hinside.alone hinv hne (hpc ▸ trivial)
    cases hruns with
    | called hidle => rw [hpc] at hidle; cases hidle
    | woken hwait => rw [hpc] at hwait; cases hwait
    | slept hquiet => rw [hpc] at hquiet; cases hquiet
    | answered hawait hr =>
        rw [hpc, Pc.awaiting.injEq] at hawait
        obtain ⟨rfl, rfl⟩ := hawait
        rw [hr', Option.some.injEq] at hr
        rw [hr, Session.unregister, Session.pendingOf_setPending, AList.lookup_erase] at hl
        cases hl

/-- A step that lets no task run inside the lock. -/
theorem World.Tidy.keep (h : w.Tidy) (hstep : w.step env a = some w')
    (hpending : ∀ c q n, (w'.sess.pendingOf c).lookup q = some n →
      (w.sess.pendingOf c).lookup q = some n)
    (hother : ∀ t, a.Moves t → ¬(w.tasks t).pc.InCommand) : w'.Tidy := by
  intro c q n hl
  obtain hleft | ⟨t, r, hpc, hr, hc⟩ := h c q n (hpending c q n hl)
  · exact .inl (unencoded_step hleft hstep)
  · have hsame := step_other hstep fun ha => hother t ha (hpc ▸ trivial)
    exact .inr ⟨t, r, hsame.pc.trans hpc, hsame.request.trans hr, hc⟩

/-- **Every step keeps the dictionaries tidy.** -/
theorem World.Tidy.step (h : w.Tidy) (hinv : Inv w) (hstep : w.step env a = some w') : w'.Tidy := by
  have hcalled {t : ℕ} {cmd : Command} (hidle : (w.tasks t).pc = .idle) :
      ∀ u, (Action.call t cmd).Moves u → ¬(w.tasks u).pc.InCommand := by
    rintro u (hu | ⟨cmd', hu⟩)
    · cases hu
    · cases hu
      rw [hidle]
      exact id
  cases step_change hstep with
  | @segment a t r s given seg hruns hseg =>
      have hold {c : Channel} {q : ℤ} {n : ℕ} (hl : (s.pendingOf c).lookup q = some n) :
          (w.settle t seg).Unencoded := unencoded_step (h.start hinv hruns hl) hstep
      have hpc : ((w.settle t seg).tasks t).pc = seg.2.pc := by
        rw [settle_tasks, Function.update_self]
      have hr : ((w.settle t seg).tasks t).request = some r := by
        rw [settle_tasks, Function.update_self, hseg.request]
      intro c q n hl
      rw [(settle_same w t seg).pending] at hl
      have hends := hseg.ends
      generalize seg.1 = s' at hends hl
      generalize seg.2.pc = pc at hends hpc
      generalize seg.2.lastRequest = last' at hends
      cases hends with
      | stopped => exact .inl (hold hl)
      | asleep => exact .inl (hold hl)
      | unbuilt =>
          have hsame : s.allocSeq.1.pendingOf c = s.pendingOf c := by cases c <;> rfl
          exact .inl (hold (hsame ▸ hl))
      | unencoded => exact .inl ⟨t, _, hpc⟩
      | sent _ hsend =>
          rw [(send_same hsend).1.pending] at hl
          have hreg := (registered_registered s r.channel).1
          by_cases hc : c = r.channel
          · subst hc
            rw [hreg.pending] at hl
            by_cases hq : q = s.allocSeq.2
            · subst hq
              rw [AList.lookup_insert, Option.some.injEq] at hl
              exact .inr ⟨t, r, hl ▸ hpc, hr, rfl⟩
            · rw [AList.lookup_insert_ne hq] at hl
              exact .inl (hold hl)
          · rw [hreg.other c hc] at hl
            exact .inl (hold hl)
  | refused hidle => exact h.keep hstep (fun _ _ _ hl => hl) (hcalled hidle)
  | enqueued hidle => exact h.keep hstep (fun c _ _ hl => by cases c <;> exact hl) (hcalled hidle)
  | gaveUp hwait =>
      refine h.keep hstep (fun c _ _ hl => by cases c <;> exact hl) ?_
      rintro u (hu | ⟨cmd, hu⟩)
      · cases hu
        rw [hwait]
        exact id
      · cases hu
  | interrupted hstop =>
      refine h.keep hstep (fun c q n hl => ?_) ?_
      · dsimp only at hl
        unfold World.interrupt at hl
        split at hl <;> cases c <;> exact hl
      · rintro u (rfl | ⟨cmd, rfl⟩) <;> simp at hstop
  | dispatched =>
      exact h.keep hstep (settles_dispatch env.aes w.sess w.now _).pending
        (by rintro u (hu | ⟨cmd, hu⟩) <;> cases hu)
  | failed =>
      exact h.keep hstep (settles_failPending w.sess _).pending
        (by rintro u (hu | ⟨cmd, hu⟩) <;> cases hu)
  | tornDown =>
      refine h.keep hstep (fun c q n hl => ?_) (by rintro u (hu | ⟨cmd, hu⟩) <;> cases hu)
      refine (settles_failPending w.sess .panelDisconnected).pending c q n ?_
      cases c <;> exact hl
  | _ =>
      exact h.keep hstep (fun c _ _ hl => by cases c <;> exact hl)
        (by rintro u (hu | ⟨cmd, hu⟩) <;> cases hu)

/-- **One request at most waits for its reply.** -/
theorem World.Tidy.length_le (h : w.Tidy) (hinv : Inv w) (hencoded : ¬w.Unencoded) :
    w.sess.pendingXml.keys.length + w.sess.pendingBin.keys.length ≤ 1 := by
  have hwaits {c : Channel} {q : ℤ} (hq : q ∈ (w.sess.pendingOf c).keys) : ∃ t r n,
      (w.tasks t).pc = .awaiting n q ∧ (w.tasks t).request = some r ∧ r.channel = c := by
    obtain ⟨n, hl⟩ := Option.isSome_iff_exists.mp (AList.lookup_isSome.mpr (AList.mem_keys.mpr hq))
    obtain ⟨t, r, hpc, hr⟩ := (h c q n hl).resolve_left hencoded
    exact ⟨t, r, n, hpc, hr⟩
  -- whatever waits is the request of the same task
  have hsame {c c' : Channel} {q q' : ℤ} (hq : q ∈ (w.sess.pendingOf c).keys)
      (hq' : q' ∈ (w.sess.pendingOf c').keys) : c' = c ∧ q' = q := by
    obtain ⟨t, r, n, hpc, hr, hc⟩ := hwaits hq
    obtain ⟨t', r', n', hpc', hr', hc'⟩ := hwaits hq'
    obtain rfl : t' = t := hinv.lock.inside_unique ((hinv.inside t').mpr (hpc' ▸ trivial))
      ((hinv.inside t).mpr (hpc ▸ trivial))
    rw [hr, Option.some.injEq] at hr'
    rw [hpc, Pc.awaiting.injEq] at hpc'
    exact ⟨by rw [← hc, ← hc', hr'], hpc'.2.symm⟩
  have hone (c : Channel) : (w.sess.pendingOf c).keys.length ≤ 1 := by
    cases hkeys : (w.sess.pendingOf c).keys with
    | nil => exact Nat.zero_le _
    | cons q rest =>
        have hnodup := (w.sess.pendingOf c).keys_nodup
        have hsub : (w.sess.pendingOf c).keys ⊆ [q] := fun q' hq' =>
          List.mem_singleton.mpr (hsame (hkeys ▸ List.mem_cons_self) hq').2
        rw [← hkeys]
        exact (List.subperm_of_subset hnodup hsub).length_le
  have hxml : w.sess.pendingXml.keys.length ≤ 1 := hone .xml
  have hbin : w.sess.pendingBin.keys.length ≤ 1 := hone .bin
  have hapart : w.sess.pendingXml.keys = [] ∨ w.sess.pendingBin.keys = [] := by
    by_contra hboth
    rw [not_or] at hboth
    obtain ⟨q, hq⟩ := List.exists_mem_of_ne_nil _ hboth.1
    obtain ⟨q', hq'⟩ := List.exists_mem_of_ne_nil _ hboth.2
    obtain ⟨hc, -⟩ := @hsame .xml .bin q q' hq hq'
    cases hc
  obtain hnil | hnil := hapart
  · rw [hnil]
    simpa using hbin
  · rw [hnil]
    simpa using hxml

end Tidy

/-! ## The connection -/

/-- What a session and its calls hold. -/
structure World.Bounded (w : World) : Prop where
  inv : Inv w
  fits : w.sess.Fits
  tidy : w.Tidy
  assembler : ∀ t, (w.tasks t).assembler.length ≤ maxReplyBytes

/-- A new session holds nothing. -/
theorem bounded_new (panelId receiverId : ℤ) (key : Option Bytes) (now : ℚ) :
    (World.new panelId receiverId key now).Bounded where
  inv := inv_new panelId receiverId key now
  fits := ⟨Nat.zero_le _, Nat.zero_le _⟩
  tidy c q n hl := by
    have hempty : (World.new panelId receiverId key now).sess.pendingOf c = ∅ := by
      cases c <;> rfl
    rw [hempty, AList.lookup_empty] at hl
    cases hl
  assembler _ := Nat.zero_le _

/-- **Every step of the session** keeps it within its bounds. -/
theorem World.Bounded.step {env : Env} {w w' : World} {a : Action} (h : w.Bounded)
    (hstep : w.step env a = some w') : w'.Bounded :=
  ⟨inv_step h.inv hstep, step_fits h.fits hstep, h.tidy.step h.inv hstep,
    fun t => step_assembler (h.assembler t) hstep⟩

namespace Handler

variable {env : Env} {server : PanelServer} {h h' : Handler} {a : HandlerAction}

/-- As long as the loop reads, the decoder waits for a plausible frame at most. -/
structure Holds (h : Handler) : Prop where
  world : h.conn.world.Bounded
  anchors : FrameDecoder.Anchors h.conn.decoder
  settled : h.place.InLoop → FrameDecoder.Settled h.conn.decoder

/-- A new connection holds nothing. -/
theorem holds_accept (now : ℚ) : Holds (server.accept now) where
  world := bounded_new 0 server.receiverId server.key.val now
  anchors := FrameDecoder.anchors_of_none rfl
  settled _ := FrameDecoder.settled_fresh _

variable (server env) in
/-- **A chunk leaves the decoder settled**, or the connection stops. -/
theorem readChunk_decoder {c : Connection} (h : FrameDecoder.Anchors c.decoder)
    (hsettled : FrameDecoder.Settled c.decoder) (data : Bytes) :
    FrameDecoder.Anchors (c.readChunk server env data).decoder ∧
      ((c.readChunk server env data).reading = true →
        FrameDecoder.Settled (c.readChunk server env data).decoder) := by
  have hfeed : FrameDecoder.Anchors (c.decoder.feed env.aes data).1 ∧ _ := h.feed data
  obtain ⟨hanchors, hok⟩ := hfeed
  unfold Connection.readChunk
  split
  · exact ⟨h, fun _ => hsettled⟩
  · split
    · rename_i d frames hfeed
      rw [hfeed] at hanchors hok
      rw [foldl_handleFrame_decoder]
      exact ⟨hanchors, fun _ => hok frames rfl⟩
    · rename_i d e hfeed
      rw [hfeed] at hanchors
      exact ⟨hanchors, fun hreading => by cases hreading⟩

/-- **Every step keeps it.** -/
theorem holds_step (ho : Orderly env server h) (hh : Holds h)
    (hstep : h.step server env a = some h') : Holds h' := by
  have hworld : h'.conn.world.Bounded := by
    refine step_world (fun w b w' hw _ _ _ hb => hw.step hb) (fun w panelId new hw _ => ?_)
      ho hstep hh.world
    refine ⟨inv_relabel hw.inv panelId _, hw.fits.congr rfl rfl, fun c q n hl => ?_,
      hw.assembler⟩
    refine hw.tidy c q n ?_
    cases c <;> exact hl
  -- the decoder is as it was, and so is the place in the loop or outside
  have hkeep (hdecoder : h'.conn.decoder = h.conn.decoder)
      (hplace : h'.place.InLoop → h.place.InLoop) : Holds h' :=
    ⟨hworld, hdecoder ▸ hh.anchors, fun hin => hdecoder ▸ hh.settled (hplace hin)⟩
  cases step_does hstep with
  | @turned r hplace =>
      have hin : h.place.InLoop := by rw [hplace]; trivial
      have hreading := ho.reading.mpr hin
      have hchunk (chunk : Bytes) :=
        readChunk_decoder env server hh.anchors (hh.settled hin) chunk
      obtain ⟨chunk, -, hstill, -, hturn⟩ | ⟨conn, hturn, hconn⟩ :=
        turn_cases server env hreading r
      · rw [hturn] at hworld ⊢
        exact ⟨hworld, (hchunk chunk).1, fun _ => (hchunk chunk).2 hstill⟩
      · rw [hturn] at hworld ⊢
        refine ⟨hworld, ?_, fun hin => hin.elim⟩
        show FrameDecoder.Anchors conn.stop.decoder
        obtain ⟨chunk, -, hconn⟩ | ⟨chunk, -, rfl, -⟩ | rfl := hconn
        · rw [hconn]
          exact (hchunk chunk).1
        · exact (hchunk chunk).1
        · exact hh.anchors
  | read hplace => exact hkeep rfl fun _ => by rw [hplace]; trivial
  | recancelled hplace => exact hkeep rfl fun _ => by rw [hplace]; trivial
  | joined => exact hkeep rfl fun hin => hin.elim
  | closed => exact hkeep rfl fun hin => hin.elim
  | left => exact hkeep rfl fun hin => hin.elim
  | _ => exact hkeep rfl id

end Handler

/-- The queue of events is another one, within its bound. -/
theorem Handler.Holds.withEvents {h : Handler} (hh : h.Holds) {events : List SiaEvent}
    (hle : events.length ≤ eventQueueMaxsize) : (h.withEvents events).Holds where
  world := {
    inv := inv_withEvents hh.world.inv events
    fits := ⟨hh.world.fits.queue, hle⟩
    tidy := fun c q n hl => hh.world.tidy c q n (by cases c <;> exact hl)
    assembler := hh.world.assembler }
  anchors := hh.anchors
  settled := hh.settled

/-- **What a connection holds is bounded**, whatever any number of consumers of its events do. (A
connection without consumers is a special case: `Consumers.reachable_of_handler`.) -/
theorem bounded_of_reachable (env : Env) (server : PanelServer) (now : ℚ) (c : Consumers)
    (hreach : Reachable (Consumers.step server env) (server.consumers now) c) :
    c.handler.sess.writeQueue.length ≤ writeQueueMaxsize ∧
    c.handler.sess.events.length ≤ eventQueueMaxsize ∧
    (∀ t, (c.handler.conn.world.tasks t).assembler.length ≤ maxReplyBytes) ∧
    ((∀ t e, (c.handler.conn.world.tasks t).pc ≠ .finished (.wireError e)) →
      c.handler.sess.pendingXml.keys.length + c.handler.sess.pendingBin.keys.length ≤ 1) ∧
    (c.handler.place.InLoop → c.handler.conn.decoder.buf.length < maxPlausibleFrame) := by
  have hboth : Handler.Orderly env server c.handler ∧ c.handler.Holds := by
    refine hreach.invariant (I := fun c => Handler.Orderly env server c.handler ∧
      c.handler.Holds) ?_ ⟨Handler.orderly_accept now, Handler.holds_accept now⟩
    rintro c a c' ⟨ho, hh⟩ hstep
    obtain ⟨b, hb⟩ | ⟨events, heq, hle⟩ := Consumers.step_cases hstep
    · exact ⟨Handler.orderly_step ho hb, Handler.holds_step ho hh hb⟩
    · rw [heq]
      exact ⟨orderly_withEvents ho events, hh.withEvents (hle hh.world.fits.events)⟩
  obtain ⟨-, hworld, -, hsettled⟩ := hboth
  refine ⟨hworld.fits.queue, hworld.fits.events, hworld.assembler, fun hencoded => ?_,
    fun hin => (hsettled hin).length_lt⟩
  refine hworld.tidy.length_le hworld.inv ?_
  rintro ⟨t, e, hend⟩
  exact hencoded t e hend

/-- A poll is acknowledged, a command awaits its reply, half a header has come in, and of two
iterators that waited for events one was cancelled. -/
theorem bounded_of_reachable_arming : ∃ c : Consumers,
    c.handler.sess.writeQueue.length + c.handler.sess.pendingBin.keys.length +
      c.handler.conn.decoder.buf.length = 13 ∧
    c.handler.sess.writeQueue.length ≤ writeQueueMaxsize ∧
    c.handler.sess.events.length ≤ eventQueueMaxsize ∧
    (∀ t, (c.handler.conn.world.tasks t).assembler.length ≤ maxReplyBytes) ∧
    ((∀ t e, (c.handler.conn.world.tasks t).pc ≠ .finished (.wireError e)) →
      c.handler.sess.pendingXml.keys.length + c.handler.sess.pendingBin.keys.length ≤ 1) ∧
    (c.handler.place.InLoop → c.handler.conn.decoder.buf.length < maxPlausibleFrame) := by
  have hheld : (run (Consumers.step clearServer clearEnv) (clearServer.consumers 1)
      [.handler (.read (.data capturedPoll)), .handler .reclaim, .generator 0 .events,
        .generator 0 .anext, .handler (.app (.tick 1)), .handler (.app (.call 0 (.binary 1 1 5))),
        .generator 1 .events, .generator 1 .anext, .generator 0 .cancel, .generator 0 .resume,
        .handler (.read (.data (capturedPoll.take 10))), .handler .reclaim]).map
      (fun c => c.handler.sess.writeQueue.length + c.handler.sess.pendingBin.keys.length +
        c.handler.conn.decoder.buf.length) = some 13 := by decide +kernel
  obtain ⟨c, hc, hheld⟩ := Option.map_eq_some_iff.mp hheld
  exact ⟨c, hheld, bounded_of_reachable clearEnv clearServer 1 c ⟨_, hc⟩⟩

end Spcedp.Client
