import Spcedp.Interface.Commands
import Spcedp.Interface.Requests

/-!
# How a call ends

Every end of a call has its reason in the world in which the task last ran: `Ending` lists
them, with what a reply decides in `Answers`. A task moves only when it is called or
resumed (`step_other`), and `step_ending` says that it then ends as listed or is still on
its way.
-/

set_option autoImplicit false

namespace Spcedp.Client

open Lib.FairLock Spcedp.PyText Spcedp.Wire Spcedp.Xmlcmd

/-! ## Requests -/

/-- Whether a request can be built, and how long it is, does not depend on the round. -/
theorem Request.payload_uniform (r : Request) :
    (∃ len, ∀ continuation, ∃ payload, r.payload continuation = .ok payload ∧
      payload.length = len) ∨
    ∃ e, ∀ continuation, r.payload continuation = .error (.buildError e) := by
  cases r with
  | xml commandId timeout attrs =>
      obtain ⟨body, hbody⟩ | ⟨e, he⟩ := buildRequest_uniform commandId attrs
      · refine .inl ⟨body.length + 1, fun continuation =>
          ⟨(if continuation then fragCont else fragFirst) :: body, ?_, List.length_cons⟩⟩
        unfold Request.payload
        dsimp only
        rw [hbody]
      · refine .inr ⟨e, fun continuation => ?_⟩
        unfold Request.payload
        dsimp only
        rw [he]
  | binary op targetId timeout => exact .inl ⟨3, fun continuation => ⟨_, rfl, rfl⟩⟩

/-- The request fits a frame, if it can be built. -/
def Request.Fits (r : Request) : Prop :=
  ∀ payload, r.payload false = .ok payload → payload.length ≤ 65514

/-- A request that fits has no payload too long for a frame. -/
theorem Request.Fits.length_le {r : Request} (h : r.Fits) {continuation : Bool} {payload : Bytes}
    (hpayload : r.payload continuation = .ok payload) : payload.length ≤ 65514 := by
  obtain ⟨len, hlen⟩ | ⟨e, he⟩ := r.payload_uniform
  · obtain ⟨p, hp, rfl⟩ := hlen continuation
    obtain ⟨p', hp', hsame⟩ := hlen false
    rw [hp, Except.ok.injEq] at hpayload
    rw [← hpayload, ← hsame]
    exact h p' hp'
  · rw [he] at hpayload
    cases hpayload

/-- A request that does not fit can be built, in every round, and is too long. -/
theorem Request.payload_of_not_fits {r : Request} (h : ¬r.Fits) (continuation : Bool) :
    ∃ payload, r.payload continuation = .ok payload ∧ 65514 < payload.length := by
  by_contra hnone
  apply h
  obtain ⟨len, hlen⟩ | ⟨e, he⟩ := r.payload_uniform
  · obtain ⟨p, hp, hsame⟩ := hlen continuation
    intro p' hp'
    obtain ⟨q, hq, hsame'⟩ := hlen false
    rw [hp', Except.ok.injEq] at hq
    by_contra hlong
    exact hnone ⟨p, hp, by rw [hsame, ← hsame', ← hq]; omega⟩
  · intro p hp
    rw [he] at hp
    cases hp

/-- A request fits if it does in one round. -/
theorem Request.fits_of_length_le {r : Request} {continuation : Bool} {payload : Bytes}
    (hpayload : r.payload continuation = .ok payload) (hlen : payload.length ≤ 65514) :
    r.Fits := by
  by_contra hfits
  obtain ⟨p, hp, hlong⟩ := Request.payload_of_not_fits hfits continuation
  rw [hpayload, Except.ok.injEq] at hp
  subst hp
  omega

/-- A frame that is not too long is encoded. -/
theorem encode_of_fits (aes : AesEcb) {key : Option Bytes} (hkey : ∀ k ∈ key, k.length = 16)
    {f : Frame} (hlen : f.payload.length ≤ 65514) :
    ∃ data f', f.encode aes key = .ok (data, f') := by
  cases key with
  | none => exact ⟨_, _, encode_clear f aes hlen⟩
  | some k => exact ⟨_, _, encode_encrypted f aes k (hkey k rfl) hlen⟩

/-! ## Reasons -/

/-- What the reply `payload` ends the command with. -/
inductive Answers (env : Env) (task : Task) (payload : Bytes) : Request → Outcome → Prop
  | malformed {commandId timeout attrs e} : assemble task.assembler payload = .error e →
      Answers env task payload (.xml commandId timeout attrs)
        (.spcError (.malformedFragment commandId e))
  | parsed {commandId timeout attrs buf b reply} :
      assemble task.assembler payload = .ok (buf, some b) → parseReply env.expat b = .ok reply →
      Answers env task payload (.xml commandId timeout attrs) (.reply reply)
  | unparsed {commandId timeout attrs buf b e} :
      assemble task.assembler payload = .ok (buf, some b) →
      parseReply env.expat b = .error (.valueError e) →
      Answers env task payload (.xml commandId timeout attrs)
        (.spcError (.unparsedReply commandId e))
  | unknownEncoding {commandId timeout attrs buf b} :
      assemble task.assembler payload = .ok (buf, some b) →
      parseReply env.expat b = .error .lookupError →
      Answers env task payload (.xml commandId timeout attrs) .lookupError
  | neverClosed {commandId timeout attrs buf} :
      assemble task.assembler payload = .ok (buf, none) →
      Answers env task payload (.xml commandId timeout attrs) (.spcError (.neverClosed commandId))
  | empty {op targetId timeout} : payload = [] →
      Answers env task payload (.binary op targetId timeout) (.spcError (.emptyReply op targetId))
  | rejected {op targetId timeout code rest} : payload = code :: rest → code ≠ replyOk →
      Answers env task payload (.binary op targetId timeout)
        (.spcError (.panelRejected code op targetId))
  | accepted {op targetId timeout rest} : payload = replyOk :: rest →
      Answers env task payload (.binary op targetId timeout) .ok

/-- Why a call of `r` by task `t` can end in world `w`. -/
inductive Ending (env : Env) (w : World) (t : ℕ) (r : Request) : Outcome → Prop
  | disconnected : Ending env w t r (.spcError .panelDisconnected)
  | unbuilt {continuation o} : r.payload continuation = .error o → Ending env w t r o
  | unencoded {continuation payload e} {f : Frame} : r.payload continuation = .ok payload →
      f.payload = payload → f.encode env.aes w.sess.key = .error e →
      Ending env w t r (.wireError e)
  | cancelled : (w.tasks t).cancelRequested = true → Ending env w t r .cancelled
  | notIdle : Ending env w t r (.spcError .notIdle)
  | timedOut : Ending env w t r (.spcError r.timeoutError)
  | failed {n q f e} : (w.tasks t).pc = .awaiting n q → w.sess.futures[n]? = some f →
      f.state = .failed e → Ending env w t r (.spcError e)
  | lost {n q} : (w.tasks t).pc = .awaiting n q → (w.tasks t).expired = false →
      (∀ f, w.sess.futures[n]? = some f → f.state = .cancelled) → Ending env w t r .cancelled
  | answered {n q payload o} : (w.tasks t).pc = .awaiting n q →
      (w.tasks t).cancelRequested = false → (w.tasks t).expired = false →
      w.sess.payloadOf n = some payload → Answers env (w.tasks t) payload r o →
      Ending env w t r o

/-! ## Segments -/

/-- What a segment of the command `r` may do: end with an outcome that `Q` allows, and send a
request only if there is one. It does not ask its task to stop. -/
structure Lawful (r : Request) (last : Option (Frame × ℕ)) (stop : Bool) (Q : Outcome → Prop)
    (seg : Segment) : Prop where
  finished : ∀ o, seg.2.pc = .finished o → Q o
  cancelRequested : seg.2.cancelRequested = stop
  built : seg.2.lastRequest = last ∨ ∃ continuation payload, r.payload continuation = .ok payload

/-- `Q` allows what can go wrong before a request is sent. -/
structure Allows (env : Env) (key : Option Bytes) (r : Request) (Q : Outcome → Prop) : Prop where
  disconnected : Q (.spcError .panelDisconnected)
  unbuilt : ∀ continuation o, r.payload continuation = .error o → Q o
  unencoded : ∀ continuation payload (f : Frame) e, r.payload continuation = .ok payload →
    f.payload = payload → f.encode env.aes key = .error e → Q (.wireError e)

section Segments

variable {env : Env} {now : ℚ} {key : Option Bytes} {s : Session} {task : Task} {r : Request}
  {last : Option (Frame × ℕ)} {stop : Bool} {Q : Outcome → Prop}

/-- A segment that ends at once. -/
theorem Lawful.ended {seg : Segment} {o : Outcome} (ho : Q o) (hpc : seg.2.pc = .finished o)
    (hlast : seg.2.lastRequest = last) (hstop : seg.2.cancelRequested = stop) :
    Lawful r last stop Q seg := by
  refine ⟨fun o' h => ?_, hstop, .inl hlast⟩
  rw [hpc, Pc.finished.injEq] at h
  exact h ▸ ho

/-- A task that sends its request ends as it may. -/
theorem sendRequest_lawful (h : Allows env key r Q) (hkey : s.key = key)
    (hlast : task.lastRequest = last) (hstop : task.cancelRequested = stop) :
    Lawful r last stop Q (sendRequest env s task r) := by
  unfold sendRequest
  dsimp only
  cases hpayload : r.payload (task.rounds ≠ 0) with
  | error o => exact .ended (h.unbuilt _ _ hpayload) rfl hlast hstop
  | ok payload =>
      dsimp only
      split
      next e hsend =>
        have hkey' : (s.allocSeq.1.register r.channel s.allocSeq.2).key = key := by
          cases r.channel <;> exact hkey
        have henc := Session.send_error hsend
        rw [hkey'] at henc
        exact .ended (h.unencoded _ payload _ e hpayload rfl henc) rfl hlast hstop
      next s' hsend => exact ⟨nofun, hstop, .inr ⟨_, payload, hpayload⟩⟩

/-- A task that waits to send ends as it may. -/
theorem waitToSend_lawful (h : Allows env key r Q) (hkey : s.key = key)
    (hlast : task.lastRequest = last) (hstop : task.cancelRequested = stop) :
    Lawful r last stop Q (waitToSend env now s task r) := by
  unfold waitToSend
  split
  · split
    · exact .ended h.disconnected rfl hlast hstop
    · exact ⟨nofun, hstop, .inl hlast⟩
  · split
    · exact .ended h.disconnected rfl hlast hstop
    · exact sendRequest_lawful h hkey hlast hstop

/-- A task that has got the lock ends as it may. -/
theorem enterCommand_lawful (h : Allows env key r Q) (hkey : s.key = key)
    (hlast : task.lastRequest = last) (hstop : task.cancelRequested = stop) :
    Lawful r last stop Q (enterCommand env now s task r) := by
  unfold enterCommand
  split
  · exact .ended h.disconnected rfl hlast hstop
  · exact waitToSend_lawful h hkey hlast hstop

/-- A task that has slept ends as it may. -/
theorem wakeQuiet_lawful (h : Allows env key r Q) (hkey : s.key = key)
    (hlast : task.lastRequest = last) (hstop : task.cancelRequested = stop)
    (hcancel : task.cancelRequested = true → Q .cancelled)
    (hexpired : Q (.spcError .notIdle)) : Lawful r last stop Q (wakeQuiet env now s task r) := by
  unfold wakeQuiet
  split
  next hc => exact .ended (hcancel hc) rfl hlast hstop
  next =>
    split
    · exact .ended hexpired rfl hlast hstop
    · exact waitToSend_lawful h hkey hlast hstop

/-- A task that has a reply ends as it may, if the reply does. -/
theorem handleReply_lawful (h : Allows env key r Q) (hkey : s.key = key)
    (hlast : task.lastRequest = last) (hstop : task.cancelRequested = stop) {payload : Bytes}
    (hanswer : ∀ o, Answers env task payload r o → Q o) :
    Lawful r last stop Q (handleReply env now s task r payload) := by
  unfold handleReply
  cases r with
  | xml commandId timeout attrs =>
      dsimp only
      split
      next e hassemble => exact .ended (hanswer _ (.malformed hassemble)) rfl hlast hstop
      next buf b hassemble =>
        split
        next reply hparse => exact .ended (hanswer _ (.parsed hassemble hparse)) rfl hlast hstop
        next e hparse => exact .ended (hanswer _ (.unparsed hassemble hparse)) rfl hlast hstop
        next hparse => exact .ended (hanswer _ (.unknownEncoding hassemble hparse)) rfl hlast hstop
      next buf hassemble =>
        split
        · exact waitToSend_lawful h hkey hlast hstop
        · exact .ended (hanswer _ (.neverClosed hassemble)) rfl hlast hstop
  | binary op targetId timeout =>
      dsimp only
      split
      · exact .ended (hanswer _ (.empty rfl)) rfl hlast hstop
      next code rest =>
        split
        next hcode => exact .ended (hanswer _ (.rejected rfl hcode)) rfl hlast hstop
        next hcode =>
          rw [not_not] at hcode
          exact .ended (hanswer _ (.accepted (by rw [hcode]))) rfl hlast hstop

/-- The task wakes up in `wait_for` in the world `w`. -/
theorem wakeAwaiting_lawful {w : World} {t n : ℕ} {q : ℤ} (hpc : (w.tasks t).pc = .awaiting n q)
    (hpending : (w.sess.futures[n]?).map Future.state ≠ some .pending)
    (h : Allows env w.sess.key r (Ending env w t r)) :
    Lawful r (w.tasks t).lastRequest (w.tasks t).cancelRequested (Ending env w t r)
      (wakeAwaiting env now w.sess (w.tasks t) r n q) := by
  unfold wakeAwaiting
  dsimp only
  by_cases hcancel : (w.tasks t).cancelRequested = true
  · rw [if_pos hcancel]
    exact .ended (.cancelled hcancel) rfl rfl rfl
  rw [if_neg hcancel]
  by_cases hexpired : (w.tasks t).expired = true
  · rw [if_pos hexpired]
    exact .ended .timedOut rfl rfl rfl
  rw [if_neg hexpired]
  rw [Bool.not_eq_true] at hcancel hexpired
  cases hf : w.sess.futures[n]? with
  | none => exact .ended (.lost hpc hexpired (by simp [hf])) rfl rfl rfl
  | some f =>
      rw [Option.map_some]
      cases hstate : f.state with
      | pending => simp [hf, hstate] at hpending
      | cancelled => exact .ended (.lost hpc hexpired (by simp [hf, hstate])) rfl rfl rfl
      | failed e => exact .ended (.failed hpc hf hstate) rfl rfl rfl
      | result payload =>
          have hkey : (w.sess.setPending r.channel
              ((w.sess.pendingOf r.channel).erase q)).key = w.sess.key := by
            cases r.channel <;> rfl
          have hgiven : w.sess.payloadOf n = some payload := by
            simp [Session.payloadOf, hf, hstate]
          exact handleReply_lawful h hkey rfl rfl fun o ho =>
            .answered hpc hcancel hexpired hgiven ho

end Segments

/-! ## Steps -/

section Steps

variable {env : Env} {w w' : World} {a : Action} {t : ℕ}

/-- A segment moves its own task only. -/
@[simp] theorem settle_tasks (w : World) (t : ℕ) (seg : Segment) :
    (w.settle t seg).tasks = Function.update w.tasks t seg.2 := rfl

/-- Task `t` runs. -/
def Action.Moves (t : ℕ) (a : Action) : Prop := a = .resume t ∨ ∃ cmd, a = .call t cmd

/-- What the action `a` leaves of task `t`, if the task does not run: everything, but a
cancellation and a timeout ask it to stop. -/
structure SameTask (a : Action) (t : ℕ) (task task' : Task) : Prop where
  pc : task'.pc = task.pc
  request : task'.request = task.request
  assembler : task'.assembler = task.assembler
  rounds : task'.rounds = task.rounds
  lastRequest : task'.lastRequest = task.lastRequest
  cancelRequested : task'.cancelRequested = true ↔ task.cancelRequested = true ∨ a = .cancel t
  expired : task'.expired = true ↔ task.expired = true ∨ a = .expire t

/-- A task that is neither cancelled nor timed out may stay as it is. -/
theorem SameTask.refl (task : Task) (hcancel : a ≠ .cancel t) (hexpire : a ≠ .expire t) :
    SameTask a t task task :=
  ⟨rfl, rfl, rfl, rfl, rfl, by simp [hcancel], by simp [hexpire]⟩

/-- Whoever runs has its turn. -/
theorem Runs.moves {r : Request} {s : Session} {given : Option Bytes}
    (h : Runs w a t r s given) : a.Moves t := by
  cases h with
  | called => exact .inr ⟨_, rfl⟩
  | woken => exact .inl rfl
  | slept => exact .inl rfl
  | answered => exact .inl rfl

/-- A task that is asked to stop is left as it is otherwise. -/
theorem step_asked (hstep : w.step env a = some w') (ha : a = .cancel t ∨ a = .expire t) :
    SameTask a t (w.tasks t) (w'.tasks t) := by
  obtain rfl | rfl := ha
  all_goals
    simp only [World.step] at hstep
    split at hstep <;> cases hstep
  all_goals
    dsimp only
    rw [Function.update_self]
    exact ⟨rfl, rfl, rfl, rfl, rfl, by simp, by simp⟩

/-- **A task moves by its own steps only.** Others may ask it to stop. -/
theorem step_other (hstep : w.step env a = some w') (ha : ¬a.Moves t) :
    SameTask a t (w.tasks t) (w'.tasks t) := by
  by_cases hask : a = .cancel t ∨ a = .expire t
  · exact step_asked hstep hask
  obtain ⟨hcancel, hexpire⟩ := not_or.mp hask
  -- any other step changes another task, or none
  have hupdate {u : ℕ} (task : Task) (hu : a.Moves u ∨ a = .cancel u ∨ a = .expire u) :
      SameTask a t (w.tasks t) (Function.update w.tasks u task t) := by
    have hne : t ≠ u := by
      rintro rfl
      exact hu.elim ha hask
    rw [Function.update_of_ne hne]
    exact .refl _ hcancel hexpire
  cases step_change hstep with
  | segment hruns hseg =>
      rw [settle_tasks]
      exact hupdate _ (.inl hruns.moves)
  | refused => exact hupdate _ (.inl (.inr ⟨_, rfl⟩))
  | enqueued => exact hupdate _ (.inl (.inr ⟨_, rfl⟩))
  | gaveUp => exact hupdate _ (.inl (.inl rfl))
  | interrupted hstop => exact hupdate _ (.inr hstop)
  | dispatched => exact .refl _ hcancel hexpire
  | ticked => exact .refl _ hcancel hexpire
  | failed => exact .refl _ hcancel hexpire
  | closing => exact .refl _ hcancel hexpire
  | tornDown => exact .refl _ hcancel hexpire
  | wrote => exact .refl _ hcancel hexpire

/-- What a step of its own does to task `t`: the call is refused or has to wait for the lock, the
task gives up waiting, or it runs its command inside the lock. -/
inductive Moved (env : Env) (w : World) (a : Action) (t : ℕ) : World → Prop
  | refused : (w.tasks t).pc = .idle → Moved env w a t { w with
      tasks := Function.update w.tasks t { w.tasks t with pc := .finished .badArgument } }
  | enqueued {r lock} : (w.tasks t).pc = .idle → Moved env w a t { w with
      sess := { w.sess with commandLock := lock }
      tasks := Function.update w.tasks t { w.tasks t with request := some r, pc := .lockWait } }
  | gaveUp {lock} : (w.tasks t).pc = .lockWait → (w.tasks t).cancelRequested = true →
      Moved env w a t { w with
        sess := { w.sess with commandLock := lock }
        tasks := Function.update w.tasks t { w.tasks t with pc := .finished .cancelled } }
  | ran {r s given seg} : (w.tasks t).pc = .idle ∨ (w.tasks t).request = some r →
      Runs w a t r s given → SegmentEnd env w.now s r given (w.tasks t).lastRequest seg →
      Lawful r (w.tasks t).lastRequest (w.tasks t).cancelRequested (Ending env w t r) seg →
      Moved env w a t (w.settle t seg)

/-- A call may end as the model says that it does. -/
theorem allows_ending (w : World) (t : ℕ) (r : Request) :
    Allows env w.sess.key r (Ending env w t r) :=
  ⟨.disconnected, fun _ _ => .unbuilt, fun _ _ _ _ => .unencoded⟩

/-- **A reply that has come is handled**, if nobody has stopped the task. -/
theorem resume_answered {n : ℕ} {q : ℤ} {r : Request} {payload : Bytes}
    (hpc : (w.tasks t).pc = .awaiting n q) (hr : (w.tasks t).request = some r)
    (hcancel : (w.tasks t).cancelRequested = false) (hexpired : (w.tasks t).expired = false)
    (hgiven : w.sess.payloadOf n = some payload) : w.step env (.resume t) = some (w.settle t
      (handleReply env w.now (w.sess.unregister r.channel q) (w.tasks t) r payload)) := by
  obtain ⟨f, hf, hstate⟩ := payloadOf_eq_some hgiven
  have hwake : wakeAwaiting env w.now w.sess (w.tasks t) r n q =
      handleReply env w.now (w.sess.unregister r.channel q) (w.tasks t) r payload := by
    unfold wakeAwaiting
    dsimp only
    rw [if_neg (by simp [hcancel]), if_neg (by simp [hexpired]), hf, Option.map_some, hstate]
    rfl
  simp only [World.step, World.resume, hpc, hr]
  rw [if_neg (by simp [hf, hstate]), hwake]

/-- **A command goes on** after its wait for the panel to be quiet, if nobody has stopped it. -/
theorem resume_slept {r : Request} (hpc : (w.tasks t).pc = .quiet)
    (hr : (w.tasks t).request = some r) (hcancel : (w.tasks t).cancelRequested = false)
    (hexpired : (w.tasks t).expired = false) : w.step env (.resume t) =
      some (w.settle t (waitToSend env w.now w.sess (w.tasks t) r)) := by
  simp only [World.step, World.resume, hpc, hr]
  unfold wakeQuiet
  rw [if_neg (by simp [hcancel]), if_neg (by simp [hexpired])]

/-- **A task that is woken enters the lock**, if nobody has stopped it. -/
theorem resume_woken {r : Request} (hpc : (w.tasks t).pc = .lockWait)
    (hr : (w.tasks t).request = some r) (hcancel : (w.tasks t).cancelRequested = false)
    (hwoken : (t, Waiter.woken) ∈ w.sess.commandLock.waiters) : w.step env (.resume t) =
      some (w.settle t (enterCommand env w.now
        { w.sess with commandLock := w.sess.commandLock.enter t } (w.tasks t) r)) := by
  simp only [World.step, World.resume, hpc, hr]
  rw [if_neg (by simp [hcancel]), if_pos hwoken]

/-- **Every step of its own is one of these.** -/
theorem step_moved (hstep : w.step env a = some w') (ha : a.Moves t) : Moved env w a t w' := by
  obtain rfl | ⟨cmd, rfl⟩ := ha
  · simp only [World.step, World.resume] at hstep
    cases hreq : (w.tasks t).request with
    | none => cases hpc : (w.tasks t).pc <;> simp [hpc, hreq] at hstep
    | some r =>
        cases hpc : (w.tasks t).pc with
        | idle => simp [hpc] at hstep
        | finished o => simp [hpc] at hstep
        | lockWait =>
            simp only [hpc, hreq] at hstep
            split at hstep
            next hcancel =>
              cases hstep
              have := @Moved.gaveUp env w (.resume t) t (w.sess.commandLock.giveUp t) hpc hcancel
              simpa only [hreq] using this
            next =>
              split at hstep
              next hwoken =>
                cases hstep
                exact .ran (.inr hreq) (.woken hpc hwoken) (enterCommand_ends hreq rfl)
                  (enterCommand_lawful (allows_ending w t r) rfl rfl rfl)
              next => cases hstep
        | quiet =>
            simp only [hpc, hreq, Option.some.injEq] at hstep
            rw [← hstep]
            exact .ran (.inr hreq) (.slept hpc) (wakeQuiet_ends hreq rfl)
              (wakeQuiet_lawful (allows_ending w t r) rfl rfl rfl .cancelled .notIdle)
        | awaiting n q =>
            simp only [hpc, hreq] at hstep
            split at hstep
            next => cases hstep
            next hpending =>
              cases hstep
              exact .ran (.inr hreq) (.answered hpc hreq) (wakeAwaiting_ends hreq rfl n q)
                (wakeAwaiting_lawful hpc hpending (allows_ending w t r))
  · cases hpc : (w.tasks t).pc with
    | idle =>
        simp only [World.step, hpc, Option.some.injEq] at hstep
        unfold World.call at hstep
        cases hcheck : cmd.check with
        | none =>
            rw [hcheck] at hstep
            rw [← hstep]
            exact .refused hpc
        | some r =>
            rw [hcheck] at hstep
            dsimp only at hstep
            cases hgot : (w.sess.commandLock.acquire t).2 with
            | true =>
                rw [hgot, if_pos rfl] at hstep
                rw [← hstep]
                exact .ran (.inl hpc) (.called hpc hcheck hgot) (enterCommand_ends rfl rfl)
                  (enterCommand_lawful (allows_ending w t r) rfl rfl rfl)
            | false =>
                rw [hgot, if_neg (by simp)] at hstep
                rw [← hstep]
                exact .enqueued hpc
    | _ => simp [World.step, hpc] at hstep

end Steps

end Spcedp.Client
