import Spcedp.Interface.Session
import Spcedp.Model.Commands

/-!
# What a command does between two suspensions

A segment that runs inside the lock ends in one of five ways (`SegmentEnd`): it stops
without touching the session, it goes to sleep, its request cannot be built or cannot be
encoded, or its request is sent. Only `sendRequest` registers a future, and it is reached
from `waitToSend` alone, which has checked the session and the clock (`Sendable`).
-/

set_option autoImplicit false

namespace Spcedp.Client

open Lib.FairLock Spcedp.Wire Spcedp.Xmlcmd

/-- A command may send: the session is open and the panel has been quiet. -/
structure Sendable (now : ℚ) (s : Session) : Prop where
  open_ : s.closed = false
  quiet : s.lastReceived + commandQuietTime ≤ now

/-- The session with a future registered under the next number. -/
def Session.registered (s : Session) (c : Channel) : Session :=
  s.allocSeq.1.register c s.allocSeq.2

/-- The request frame of a command, with a given payload. -/
def Session.request (s : Session) (c : Channel) (payload : Bytes) : Frame :=
  s.frame c.major MinorCode.request.value payload s.allocSeq.2

/-- The ends of a segment of the command `r` that starts in session `s`, after `last` was
its last request. A command whose last reply is `given` succeeds only if that reply says
so. -/
inductive Ends (env : Env) (now : ℚ) (s : Session) (r : Request) (given : Option Bytes)
    (last : Option (Frame × ℕ)) : Session → Pc → Option (Frame × ℕ) → Prop
  | stopped {o} (hok : o = .ok → ∃ rest, given = some (replyOk :: rest))
      (hwire : ∀ e, o ≠ .wireError e) : Ends env now s r given last s (.finished o) last
  | asleep : s.closed = false → Ends env now s r given last s .quiet last
  | unbuilt {continuation o} : Sendable now s → r.payload continuation = .error o →
      Ends env now s r given last s.allocSeq.1 (.finished o) last
  | unencoded {continuation payload e} : Sendable now s →
      (s.registered r.channel).send env.aes (s.request r.channel payload) = .error e →
      r.payload continuation = .ok payload →
      Ends env now s r given last (s.registered r.channel) (.finished (.wireError e)) last
  | sent {continuation payload s'} : Sendable now s →
      (s.registered r.channel).send env.aes (s.request r.channel payload) = .ok s' →
      r.payload continuation = .ok payload →
      Ends env now s r given last s' (.awaiting s.futures.length s.allocSeq.2)
        (some (s.request r.channel payload, s.futures.length))

/-- A segment ends as `Ends` says, and the task is still that of the command `r`. -/
structure SegmentEnd (env : Env) (now : ℚ) (s : Session) (r : Request) (given : Option Bytes)
    (last : Option (Frame × ℕ)) (seg : Segment) : Prop where
  request : seg.2.request = some r
  ends : Ends env now s r given last seg.1 seg.2.pc seg.2.lastRequest

/-- A segment whose request cannot be encoded was free to send it. -/
theorem Ends.sendable_of_wire {env : Env} {now : ℚ} {s s' : Session} {r : Request}
    {given : Option Bytes} {last last' : Option (Frame × ℕ)} {pc : Pc} {e : WireError}
    (h : Ends env now s r given last s' pc last') (hpc : pc = .finished (.wireError e)) :
    Sendable now s := by
  cases h with
  | stopped _ hwire => exact absurd (Pc.finished.inj hpc) (hwire e)
  | asleep => cases hpc
  | unbuilt hsend => exact hsend
  | unencoded hsend => exact hsend
  | sent => cases hpc

section Segments

variable {env : Env} {now : ℚ} {s : Session} {task : Task} {r : Request} {given : Option Bytes}
  {last : Option (Frame × ℕ)}

/-- Registering a future does not change how frames are addressed. -/
theorem register_frame (c : Channel) (q major minor sequence : ℤ) (payload : Bytes) :
    (s.register c q).frame major minor payload sequence =
      s.frame major minor payload sequence := by
  cases c <;> rfl

/-- A command without attributes passes its check. -/
@[simp] theorem check_xml (commandId : PyText.Text) (timeout : ℚ) :
    (Command.xml commandId timeout []).check = some (.xml commandId timeout []) := rfl

/-- A request that cannot be built raises what `build_request` raises. -/
theorem buildError_of_payload {continuation : Bool} {o : Outcome}
    (h : r.payload continuation = .error o) : ∃ e, o = .buildError e := by
  cases r with
  | xml commandId timeout attrs =>
      unfold Request.payload at h
      dsimp only at h
      split at h
      · cases h
      · rename_i e _
        exact ⟨e, (Except.error.inj h).symm⟩
  | binary op targetId timeout => cases h

/-- **The request is sent, or cannot be built or encoded.** -/
theorem sendRequest_ends (hsend : Sendable now s) (hr : task.request = some r)
    (hlast : task.lastRequest = last) :
    SegmentEnd env now s r given last (sendRequest env s task r) := by
  subst hlast
  unfold sendRequest
  dsimp only
  cases hpayload : r.payload (task.rounds ≠ 0) with
  | error o => exact ⟨hr, .unbuilt hsend hpayload⟩
  | ok payload =>
      dsimp only
      rw [register_frame]
      have hframe : s.allocSeq.1.frame r.channel.major MinorCode.request.value payload
          s.allocSeq.2 = s.request r.channel payload := rfl
      rw [hframe]
      cases hres : (s.allocSeq.1.register r.channel s.allocSeq.2).send env.aes
          (s.request r.channel payload) with
      | error e => exact ⟨hr, .unencoded hsend hres hpayload⟩
      | ok s' => exact ⟨hr, .sent hsend hres hpayload⟩

/-- The wait for the quiet channel ends asleep, with an error or with the request sent. -/
theorem waitToSend_ends (hr : task.request = some r)
    (hlast : task.lastRequest = last) :
    SegmentEnd env now s r given last (waitToSend env now s task r) := by
  subst hlast
  unfold waitToSend
  split
  · split
    · exact ⟨hr, .stopped nofun nofun⟩
    · rename_i hopen
      exact ⟨hr, .asleep (Bool.not_eq_true _ ▸ hopen)⟩
  · rename_i hquiet
    split
    · exact ⟨hr, .stopped nofun nofun⟩
    · rename_i hopen
      refine sendRequest_ends ⟨Bool.not_eq_true _ ▸ hopen, ?_⟩ hr rfl
      linarith

/-- A command that enters the lock of an open session starts anew, and waits to send. -/
theorem enterCommand_open (hclosed : s.closed = false) : enterCommand env now s task r =
    waitToSend env now s { task with assembler := [], rounds := 0, expired := false } r := by
  unfold enterCommand
  rw [if_neg (by simp [hclosed])]

/-- **An open session and a quiet panel** let a command send its request. -/
theorem waitToSend_of_sendable (h : Sendable now s) :
    waitToSend env now s task r = sendRequest env s task r := by
  unfold waitToSend
  rw [if_neg (by linarith [h.quiet]), if_neg (by simp [h.open_])]

/-- On an open session that is quiet it sends its request at once. -/
theorem enterCommand_of_sendable (h : Sendable now s) : enterCommand env now s task r =
    sendRequest env s { task with assembler := [], rounds := 0, expired := false } r := by
  rw [enterCommand_open h.open_, waitToSend_of_sendable h]

/-- Behind the lock a command stops or waits to send. -/
theorem enterCommand_ends (hr : task.request = some r)
    (hlast : task.lastRequest = last) :
    SegmentEnd env now s r given last (enterCommand env now s task r) := by
  subst hlast
  unfold enterCommand
  split
  · exact ⟨hr, .stopped nofun nofun⟩
  · exact waitToSend_ends hr rfl

/-- A task that has slept stops or waits to send. -/
theorem wakeQuiet_ends (hr : task.request = some r)
    (hlast : task.lastRequest = last) :
    SegmentEnd env now s r given last (wakeQuiet env now s task r) := by
  subst hlast
  unfold wakeQuiet
  split
  · exact ⟨hr, .stopped nofun nofun⟩
  split
  · exact ⟨hr, .stopped nofun nofun⟩
  · exact waitToSend_ends hr rfl

/-- A reply ends the command, or leads to its next request. -/
theorem handleReply_ends (hr : task.request = some r)
    (hlast : task.lastRequest = last) (payload : Bytes) :
    SegmentEnd env now s r (some payload) last (handleReply env now s task r payload) := by
  subst hlast
  unfold handleReply
  cases r with
  | xml commandId timeout attrs =>
      dsimp only
      split
      · exact ⟨hr, .stopped nofun nofun⟩
      · split
        · exact ⟨hr, .stopped nofun nofun⟩
        · exact ⟨hr, .stopped nofun nofun⟩
        · exact ⟨hr, .stopped nofun nofun⟩
      · split
        · exact waitToSend_ends hr rfl
        · exact ⟨hr, .stopped nofun nofun⟩
  | binary op targetId timeout =>
      dsimp only
      split
      · exact ⟨hr, .stopped nofun nofun⟩
      · rename_i code rest
        split
        · exact ⟨hr, .stopped nofun nofun⟩
        · rename_i hcode
          rw [not_not] at hcode
          exact ⟨hr, .stopped (fun _ => ⟨rest, by rw [hcode]⟩) nofun⟩

/-- The session after the `finally` clause of a command. -/
def Session.unregister (s : Session) (c : Channel) (seq : ℤ) : Session :=
  s.setPending c ((s.pendingOf c).erase seq)

/-- The payload of a future. -/
def Session.payloadOf (s : Session) (n : ℕ) : Option Bytes :=
  match (s.futures[n]?).map Future.state with
  | some (.result payload) => some payload
  | _ => none

/-- The payload of a future is the result that it was completed with. -/
theorem payloadOf_eq_some {payload : Bytes} {n : ℕ} (h : s.payloadOf n = some payload) :
    ∃ f, s.futures[n]? = some f ∧ f.state = .result payload := by
  unfold Session.payloadOf at h
  cases hf : s.futures[n]? with
  | none => simp [hf] at h
  | some f =>
      refine ⟨f, rfl, ?_⟩
      rw [hf, Option.map_some] at h
      split at h
      · rename_i payload' heq
        rw [Option.some.inj heq, Option.some.inj h]
      · cases h

/-- A task that has awaited a reply leaves the dictionary first, and then goes on with what it got.
-/
theorem wakeAwaiting_ends (hr : task.request = some r)
    (hlast : task.lastRequest = last) (n : ℕ) (seq : ℤ) :
    SegmentEnd env now (s.unregister r.channel seq) r (s.payloadOf n)
      last (wakeAwaiting env now s task r n seq) := by
  subst hlast
  unfold wakeAwaiting Session.payloadOf
  dsimp only
  by_cases hcancel : task.cancelRequested = true
  · rw [if_pos hcancel]
    exact ⟨hr, .stopped nofun nofun⟩
  rw [if_neg hcancel]
  by_cases hexpired : task.expired = true
  · rw [if_pos hexpired]
    exact ⟨hr, .stopped nofun nofun⟩
  rw [if_neg hexpired]
  match (s.futures[n]?).map Future.state with
  | some (.result payload) => exact handleReply_ends hr rfl payload
  | some (.failed e) => exact ⟨hr, .stopped nofun nofun⟩
  | some .pending => exact ⟨hr, .stopped nofun nofun⟩
  | some .cancelled => exact ⟨hr, .stopped nofun nofun⟩
  | none => exact ⟨hr, .stopped nofun nofun⟩

end Segments

/-! ## One step of the event loop -/

/-- Action `a` lets task `t` run the command `r` inside the lock: from session `s`, and
with the payload `given` if a reply has just come. -/
inductive Runs (w : World) : Action → ℕ → Request → Session → Option Bytes → Prop
  | called {t cmd r} : (w.tasks t).pc = .idle → cmd.check = some r →
      (w.sess.commandLock.acquire t).2 = true →
      Runs w (.call t cmd) t r
        { w.sess with commandLock := (w.sess.commandLock.acquire t).1 } none
  | woken {t r} : (w.tasks t).pc = .lockWait → (t, Waiter.woken) ∈ w.sess.commandLock.waiters →
      Runs w (.resume t) t r { w.sess with commandLock := w.sess.commandLock.enter t } none
  | slept {t r} : (w.tasks t).pc = .quiet → Runs w (.resume t) t r w.sess none
  | answered {t r n q} : (w.tasks t).pc = .awaiting n q → (w.tasks t).request = some r →
      Runs w (.resume t) t r (w.sess.unregister r.channel q) (w.sess.payloadOf n)

/-- What a step does. -/
inductive Change (env : Env) (w : World) : Action → World → Prop
  | segment {a t r s given seg} : Runs w a t r s given →
      SegmentEnd env w.now s r given (w.tasks t).lastRequest seg →
      Change env w a (w.settle t seg)
  | refused {t cmd} : (w.tasks t).pc = .idle → Change env w (.call t cmd) { w with
      tasks := Function.update w.tasks t { w.tasks t with pc := .finished .badArgument } }
  | enqueued {t cmd task} : (w.tasks t).pc = .idle → (w.sess.commandLock.acquire t).2 = false →
      task.pc = .lockWait → Change env w (.call t cmd) { w with
        sess := { w.sess with commandLock := (w.sess.commandLock.acquire t).1 }
        tasks := Function.update w.tasks t task }
  | gaveUp {t} : (w.tasks t).pc = .lockWait → Change env w (.resume t) { w with
      sess := { w.sess with commandLock := w.sess.commandLock.giveUp t }
      tasks := Function.update w.tasks t { w.tasks t with pc := .finished .cancelled } }
  | interrupted {a t task} : a = .cancel t ∨ a = .expire t → task.pc = (w.tasks t).pc →
      task.request = (w.tasks t).request → task.lastRequest = (w.tasks t).lastRequest →
      Change env w a { w with
        sess := w.interrupt t
        tasks := Function.update w.tasks t task }
  | dispatched {f} : Change env w (.dispatch f)
      { w with sess := (w.sess.dispatch env.aes w.now f).1 }
  | ticked {d} : 0 ≤ d → Change env w (.tick d) { w with
      sess := { w.sess with log := w.sess.log ++ [.ticked d] }
      now := w.now + d }
  | failed {e} : Change env w (.failPending e) { w with sess := w.sess.failPending e }
  | closing : Change env w .requestTeardown { w with sess := w.sess.requestTeardown }
  | tornDown : Change env w .teardown
      { w with sess := (w.sess.failPending .panelDisconnected).requestTeardown }
  | wrote {data rest} : w.sess.writeQueue = data :: rest →
      Change env w .write { w with sess := { w.sess with writeQueue := rest } }

/-- **Every step is one of these.** -/
theorem step_change {env : Env} {w w' : World} {a : Action} (h : w.step env a = some w') :
    Change env w a w' := by
  cases a with
  | call t cmd =>
      cases hpc : (w.tasks t).pc with
      | idle =>
          simp only [World.step, hpc, Option.some.injEq] at h
          unfold World.call at h
          cases hcheck : cmd.check with
          | none =>
              rw [hcheck] at h
              rw [← h]
              exact .refused hpc
          | some r =>
              rw [hcheck] at h
              dsimp only at h
              cases hgot : (w.sess.commandLock.acquire t).2 with
              | true =>
                  rw [hgot, if_pos rfl] at h
                  rw [← h]
                  exact .segment (.called hpc hcheck hgot) (enterCommand_ends rfl rfl)
              | false =>
                  rw [hgot, if_neg (by simp)] at h
                  rw [← h]
                  exact .enqueued hpc hgot rfl
      | _ => simp [World.step, hpc] at h
  | resume t =>
      simp only [World.step, World.resume] at h
      cases hreq : (w.tasks t).request with
      | none => cases hpc : (w.tasks t).pc <;> simp [hpc, hreq] at h
      | some r =>
          cases hpc : (w.tasks t).pc with
          | idle => simp [hpc] at h
          | finished o => simp [hpc] at h
          | lockWait =>
              simp only [hpc, hreq] at h
              split at h
              · cases h
                have := @Change.gaveUp env w t hpc
                simpa only [hreq] using this
              · split at h
                · rename_i hwoken
                  cases h
                  exact .segment (.woken hpc hwoken) (enterCommand_ends hreq rfl)
                · cases h
          | quiet =>
              simp only [hpc, hreq, Option.some.injEq] at h
              rw [← h]
              exact .segment (.slept hpc) (wakeQuiet_ends hreq rfl)
          | awaiting n q =>
              simp only [hpc, hreq] at h
              split at h
              · cases h
              · cases h
                exact .segment (.answered hpc hreq) (wakeAwaiting_ends hreq rfl n q)
  | cancel t =>
      simp only [World.step] at h
      split at h
      · cases h
        exact .interrupted (.inl rfl) rfl rfl rfl
      · cases h
        exact .interrupted (.inl rfl) rfl rfl rfl
      · cases h
        exact .interrupted (.inl rfl) rfl rfl rfl
      · cases h
  | expire t =>
      simp only [World.step] at h
      split at h
      · cases h
        exact .interrupted (.inr rfl) rfl rfl rfl
      · cases h
        exact .interrupted (.inr rfl) rfl rfl rfl
      · cases h
  | dispatch f =>
      cases h
      exact .dispatched
  | tick d =>
      simp only [World.step] at h
      split at h
      · rename_i hd
        cases h
        exact .ticked hd
      · cases h
  | failPending e =>
      cases h
      exact .failed
  | requestTeardown =>
      cases h
      exact .closing
  | teardown =>
      cases h
      exact .tornDown
  | write =>
      simp only [World.step] at h
      split at h
      · cases h
      · rename_i data rest hqueue
        cases h
        exact .wrote hqueue

end Spcedp.Client
