import Spcedp.Analysis.TaskRuns
import Spcedp.Interface.Assembly
import Spcedp.Model.Connection

/-!
# Requests and pieces in turn

A panel that answers the requests of one command with the pieces of a reply (`Serves`), and
what then holds of the command at every suspension (`Stage`): it has sent one request for each
piece so far, and its assembler has just these pieces. `serviced_step` is the step; what
other tasks do in between does not matter.
-/

set_option autoImplicit false

namespace Spcedp.Client

open Lib.FairLock Lib.Transition Spcedp.PyText Spcedp.Wire Spcedp.Xmlcmd

/-! ## Requests in the history -/

/-- The payloads of the requests that task `t` has queued, in order. -/
def requestsOf (t : ℕ) (log : List Entry) : List Bytes :=
  log.filterMap fun
    | .queued f _ _ holders => if IsRequest f ∧ holders = [t] then some f.payload else none
    | _ => none

/-- The requests of a task in two parts of the history. -/
@[simp] theorem requestsOf_append (t : ℕ) (log new : List Entry) :
    requestsOf t (log ++ new) = requestsOf t log ++ requestsOf t new := List.filterMap_append

/-- A request that is queued is one of the task in the lock. -/
theorem requestsOf_request {t : ℕ} {f : Frame} {data : Bytes} {closed : Bool} (hf : IsRequest f) :
    requestsOf t [.queued f data closed [t]] = [f.payload] := by
  simp [requestsOf, hf]

/-- `k` requests for one reply: the first has the marker `FRAG_FIRST`, the others `FRAG_CONT`,
and `body` comes behind it in all of them. -/
def requestSeq (body : Bytes) (k : ℕ) : List Bytes :=
  (List.range k).map fun i => (if i = 0 then fragFirst else fragCont) :: body

/-- One payload for each request. -/
@[simp] theorem length_requestSeq (body : Bytes) (k : ℕ) : (requestSeq body k).length = k := by
  simp [requestSeq]

/-- The next request is a continuation, unless it is the first. -/
theorem requestSeq_succ (body : Bytes) (k : ℕ) : requestSeq body (k + 1) =
    requestSeq body k ++ [(if k = 0 then fragFirst else fragCont) :: body] := by
  unfold requestSeq
  rw [List.range_succ, List.map_append, List.map_singleton]

/-- Other tasks do not send requests for task `t`. -/
theorem requestsOf_other {env : Env} {w w' : World} {a : Action} {t : ℕ} (hinv : Inv w)
    (hstep : w.step env a = some w') (ha : ¬a.Moves t) :
    requestsOf t w'.sess.log = requestsOf t w.sess.log := by
  obtain ⟨-, new, hlog, hrec⟩ := step_records hinv hstep
  have hnew : requestsOf t new = [] := by
    unfold requestsOf
    rw [List.filterMap_eq_nil_iff]
    intro e he
    cases e with
    | queued f data closed holders =>
        dsimp only
        rw [if_neg]
        rintro ⟨hf, rfl⟩
        obtain ⟨-, -, u, hu, hmoves⟩ := hrec.request he hf
        obtain rfl := List.singleton_inj.mp hu
        exact ha hmoves
    | _ => rfl
  rw [hlog, requestsOf_append, hnew, List.append_nil]

/-! ## The exchange -/

/-- What the step from `w` to `w'` takes for granted: the session is open, the call of task `t`
is that of `commandId` and nobody stops it, and the reply to its latest request has the next
one of the `pieces` behind a marker. -/
structure Serves (commandId : Text) (timeout : ℚ) (pieces : List Bytes) (t : ℕ) (w : World)
    (a : Action) (w' : World) : Prop where
  open_ : w'.sess.closed = false
  call : ∀ cmd, a = .call t cmd → cmd = .xml commandId timeout []
  cancel : a ≠ .cancel t
  expire : a ≠ .expire t
  failPending : ∀ e, a ≠ .failPending e
  answer : ∀ f n q, a = .dispatch f → IsReply .xml f → (w.tasks t).pc = .awaiting n q →
    (w.sess.pendingOf .xml).lookup f.sequence = some n →
    ∃ marker piece, pieces[(requestsOf t w.sess.log).length - 1]? = some piece ∧
      f.payload = marker :: piece

/-- The command, its reply `b` in `pieces`, and what becomes of them. -/
structure Setting (env : Env) (commandId : Text) (body b : Bytes) (reply : XmlReply)
    (pieces : List Bytes) : Prop where
  built : ∀ continuation, buildRequest commandId continuation [] =
    .ok ((if continuation then fragCont else fragFirst) :: body)
  fits : body.length + 1 ≤ 65514
  cut : Cut b pieces
  tag : OnlyAtEnd closingTag b
  size : b.length ≤ maxReplyBytes
  parsed : parseReply env.expat b = .ok reply

/-- What the command ends with. -/
def resultOf (commandId : Text) (reply : XmlReply) (pieces : List Bytes) : Outcome :=
  if pieces.length ≤ maxXmlFragments then .reply reply else .spcError (.neverClosed commandId)

/-- The command has got the first pieces, and may ask for more. -/
structure Going (commandId : Text) (timeout : ℚ) (pieces : List Bytes) (task : Task) : Prop where
  request : task.request = some (.xml commandId timeout [])
  expired : task.expired = false
  fragments : task.rounds < maxXmlFragments
  more : task.rounds < pieces.length
  assembler : task.assembler = (pieces.take task.rounds).flatten

/-- Where the command of task `t` stands in `w`. -/
inductive Stage (commandId : Text) (timeout : ℚ) (body : Bytes) (reply : XmlReply)
    (pieces : List Bytes) (t : ℕ) (w : World) : Prop
  | idle : (w.tasks t).pc = .idle → requestsOf t w.sess.log = [] →
      Stage commandId timeout body reply pieces t w
  | lockWait : (w.tasks t).pc = .lockWait →
      (w.tasks t).request = some (.xml commandId timeout []) → requestsOf t w.sess.log = [] →
      Stage commandId timeout body reply pieces t w
  | quiet : (w.tasks t).pc = .quiet → Going commandId timeout pieces (w.tasks t) →
      requestsOf t w.sess.log = requestSeq body (w.tasks t).rounds →
      Stage commandId timeout body reply pieces t w
  | awaiting {n q} : (w.tasks t).pc = .awaiting n q → Going commandId timeout pieces (w.tasks t) →
      requestsOf t w.sess.log = requestSeq body ((w.tasks t).rounds + 1) →
      (∀ f, w.sess.futures[n]? = some f → f.state = .pending ∨ ∃ marker piece,
        pieces[(w.tasks t).rounds]? = some piece ∧ f.state = .result (marker :: piece)) →
      Stage commandId timeout body reply pieces t w
  | finished : (w.tasks t).pc = .finished (resultOf commandId reply pieces) →
      requestsOf t w.sess.log = requestSeq body (min pieces.length maxXmlFragments) →
      Stage commandId timeout body reply pieces t w

/-- The invariant of an exchange. -/
structure Serviced (key : Option Bytes) (commandId : Text) (timeout : ℚ) (body : Bytes)
    (reply : XmlReply) (pieces : List Bytes) (t : ℕ) (w : World) : Prop where
  coherent : Coherent key w
  open_ : w.sess.closed = false
  cancelRequested : (w.tasks t).cancelRequested = false
  sleeps : w.sess.commandLock.Sleeps t
  stage : Stage commandId timeout body reply pieces t w

/-! ## Segments -/

/-- A segment that leaves the command waiting: for the panel to be quiet, or for the reply to
the request that it has sent. -/
inductive Continues (body : Bytes) (t : ℕ) (s : Session) (task : Task) (seg : Segment) : Prop
  | quiet : seg = (s, { task with pc := .quiet }) → Continues body t s task seg
  | sent {n q last} : seg.2 = { task with pc := .awaiting n q, lastRequest := last } →
      requestsOf t seg.1.log =
        requestsOf t s.log ++ [(if task.rounds = 0 then fragFirst else fragCont) :: body] →
      (∀ f, seg.1.futures[n]? = some f → f.state = .pending) → Continues body t s task seg

section Segments

variable {env : Env} {commandId : Text} {timeout : ℚ} {body b : Bytes} {reply : XmlReply}
  {pieces : List Bytes} {t : ℕ} {now : ℚ} {s : Session} {task : Task}

/-- The payload of the next request. -/
theorem Setting.payload (hset : Setting env commandId body b reply pieces) :
    (Request.xml commandId timeout []).payload (task.rounds ≠ 0) =
      .ok ((if task.rounds = 0 then fragFirst else fragCont) :: body) := by
  unfold Request.payload
  dsimp only
  rw [hset.built]
  by_cases hrounds : task.rounds = 0 <;> simp [hrounds]

/-- **The request is sent.** -/
theorem sendRequest_sends (timeout : ℚ) (task : Task)
    (hset : Setting env commandId body b reply pieces) (hkey : ∀ k ∈ s.key, k.length = 16) :
    ∃ payload s',
    payload = (if task.rounds = 0 then fragFirst else fragCont) :: body ∧
      (s.registered .xml).send env.aes (s.request .xml payload) = .ok s' ∧
      sendRequest env s task (.xml commandId timeout []) = (s', { task with
        pc := .awaiting s.futures.length s.allocSeq.2
        lastRequest := some (s.request .xml payload, s.futures.length) }) := by
  generalize hpayload : (if task.rounds = 0 then fragFirst else fragCont) :: body = payload
  have hlen : (s.request .xml payload).payload.length ≤ 65514 := hpayload ▸ hset.fits
  have hkey' : ∀ k ∈ (s.registered .xml).key, k.length = 16 := hkey
  obtain ⟨data, f', henc⟩ := encode_of_fits env.aes hkey' hlen
  cases hres : (s.registered .xml).send env.aes (s.request .xml payload) with
  | error e =>
      rw [Session.send_error hres] at henc
      cases henc
  | ok s' =>
      refine ⟨payload, s', rfl, hres, ?_⟩
      unfold sendRequest
      dsimp only
      rw [hset.payload, hpayload]
      dsimp only
      rw [register_frame]
      have hres : (s.allocSeq.1.register (Request.xml commandId timeout []).channel
          s.allocSeq.2).send env.aes (s.allocSeq.1.frame
            (Request.xml commandId timeout []).channel.major MinorCode.request.value payload
            s.allocSeq.2) = .ok s' := hres
      rw [hres]
      rfl

/-- A request is in the history, unless the queue is full and the session closes. -/
theorem sendRequest_continues (hset : Setting env commandId body b reply pieces)
    (hkey : ∀ k ∈ s.key, k.length = 16) (hins : s.commandLock.inside = [t])
    (hopen : (sendRequest env s task (.xml commandId timeout [])).1.closed = false) :
    Continues body t s task (sendRequest env s task (.xml commandId timeout [])) := by
  obtain ⟨payload, s', rfl, hres, hseg⟩ := sendRequest_sends timeout task hset hkey
  rw [hseg] at hopen ⊢
  obtain ⟨data, f', henc, ⟨-, rfl⟩ | ⟨-, warned, rfl⟩⟩ := Session.send_cases hres
  · cases hopen
  · refine .sent rfl ?_ ?_
    · have hf' := encode_ok_frame henc
      have hrequest : IsRequest f' := by
        rw [hf']
        exact ⟨.xml, rfl, rfl⟩
      show requestsOf t (s.log ++ [.queued f' data s.closed s.commandLock.inside]) = _
      rw [requestsOf_append, hins, requestsOf_request hrequest, hf']
      rfl
    · intro f hf
      have hlast : (s.futures ++ [Future.mk .pending .xml s.allocSeq.2])[s.futures.length]? =
          some f := hf
      rw [List.getElem?_concat_length, Option.some.injEq] at hlast
      rw [← hlast]

/-- **The command asks for the next piece**, or waits for the panel to be quiet. -/
theorem waitToSend_continues (hset : Setting env commandId body b reply pieces)
    (hkey : ∀ k ∈ s.key, k.length = 16) (hins : s.commandLock.inside = [t])
    (hclosed : s.closed = false)
    (hopen : (waitToSend env now s task (.xml commandId timeout [])).1.closed = false) :
    Continues body t s task (waitToSend env now s task (.xml commandId timeout [])) := by
  unfold waitToSend at hopen ⊢
  rw [if_neg (by simp [hclosed] : ¬s.closed = true)] at hopen ⊢
  split
  · exact .quiet rfl
  · next hquiet =>
      rw [if_neg hquiet] at hopen
      rw [if_neg (by simp [hclosed])] at hopen ⊢
      exact sendRequest_continues hset hkey hins hopen

/-- A segment that goes on is at the next stage of the exchange. -/
theorem Continues.stage {w : World} {seg : Segment} (h : Continues body t s task seg)
    (hgoing : Going commandId timeout pieces task)
    (hlog : requestsOf t s.log = requestSeq body task.rounds) :
    Stage commandId timeout body reply pieces t (w.settle t seg) := by
  obtain ⟨lock, hsess⟩ := settle_session w t seg
  have htask : (w.settle t seg).tasks t = seg.2 := by rw [settle_tasks, Function.update_self]
  obtain ⟨hrequest, hexpired, hfragments, hmore, hassembler⟩ := hgoing
  cases h with
  | quiet hseg =>
      subst hseg
      refine .quiet (by rw [htask]) ?_ ?_
      · rw [htask]
        exact ⟨hrequest, hexpired, hfragments, hmore, hassembler⟩
      · rw [hsess, htask]
        exact hlog
  | sent hseg hsent hpending =>
      refine .awaiting (by rw [htask, hseg]) ?_ ?_ ?_
      · rw [htask, hseg]
        exact ⟨hrequest, hexpired, hfragments, hmore, hassembler⟩
      · rw [hsess, htask, hseg]
        show requestsOf t seg.1.log = _
        rw [hsent, hlog, ← requestSeq_succ]
      · rw [hsess]
        exact fun f hf => .inl (hpending f hf)

/-- **A piece is handled**: it is the last, or the command asks for another, or it gives up. -/
theorem handleReply_stage {w : World} {marker : UInt8} {piece : Bytes}
    (hset : Setting env commandId body b reply pieces) (hkey : ∀ k ∈ s.key, k.length = 16)
    (hins : s.commandLock.inside = [t]) (hclosed : s.closed = false)
    (hgoing : Going commandId timeout pieces task)
    (hlog : requestsOf t s.log = requestSeq body (task.rounds + 1))
    (hpiece : pieces[task.rounds]? = some piece)
    (hopen : (handleReply env now s task (.xml commandId timeout []) (marker :: piece)).1.closed =
      false) : Stage commandId timeout body reply pieces t
        (w.settle t
          (handleReply env now s task (.xml commandId timeout []) (marker :: piece))) := by
  obtain ⟨hrequest, hexpired, hfragments, hmore, hassembler⟩ := hgoing
  generalize hseg : handleReply env now s task (.xml commandId timeout []) (marker :: piece) = seg
    at hopen ⊢
  -- a command that has ended has sent its last request
  have hend (hs : seg.1 = s) (hpc : seg.2.pc = .finished (resultOf commandId reply pieces))
      (hrounds : task.rounds + 1 = min pieces.length maxXmlFragments) :
      Stage commandId timeout body reply pieces t (w.settle t seg) := by
    obtain ⟨lock, hsess⟩ := settle_session w t seg
    refine .finished ?_ ?_
    · rw [settle_tasks, Function.update_self, hpc]
    · rw [hsess, hs, ← hrounds]
      exact hlog
  unfold handleReply at hseg
  dsimp only at hseg
  rw [hassembler] at hseg
  obtain hlast | hmiddle : task.rounds + 1 = pieces.length ∨ task.rounds + 1 < pieces.length := by
    omega
  · rw [assemble_last hset.cut hset.tag hset.size hpiece marker hlast] at hseg
    dsimp only at hseg
    rw [hset.parsed] at hseg
    have hfew : pieces.length ≤ maxXmlFragments := hlast ▸ hfragments
    subst hseg
    refine hend rfl ?_ (by rw [hlast, min_eq_left hfew])
    unfold resultOf
    rw [if_pos hfew]
  · rw [assemble_middle hset.cut hset.tag hset.size hpiece marker hmiddle] at hseg
    dsimp only at hseg
    by_cases hmax : task.rounds + 1 < maxXmlFragments
    · rw [if_pos hmax] at hseg
      subst hseg
      exact (waitToSend_continues hset hkey hins hclosed hopen).stage
        ⟨hrequest, rfl, hmax, hmiddle, rfl⟩ hlog
    · rw [if_neg hmax] at hseg
      have hmany : maxXmlFragments ≤ pieces.length := (not_lt.mp hmax).trans hmiddle.le
      subst hseg
      refine hend rfl ?_ (by rw [min_eq_right hmany]; omega)
      unfold resultOf
      rw [if_neg (by omega)]

/-- A reply is not empty, and neither is the list of its pieces. -/
theorem Setting.pieces_pos (hset : Setting env commandId body b reply pieces) :
    0 < pieces.length := by
  rw [List.length_pos_iff]
  rintro rfl
  have htag := hset.tag.suffix
  rw [← hset.cut.flatten, List.flatten_nil, List.suffix_nil] at htag
  cases htag

/-- The command enters the lock. -/
theorem enterCommand_stage {w : World} (hset : Setting env commandId body b reply pieces)
    (hkey : ∀ k ∈ s.key, k.length = 16) (hins : s.commandLock.inside = [t])
    (hclosed : s.closed = false) (hrequest : task.request = some (.xml commandId timeout []))
    (hlog : requestsOf t s.log = [])
    (hopen : (enterCommand env now s task (.xml commandId timeout [])).1.closed = false) :
    Stage commandId timeout body reply pieces t
      (w.settle t (enterCommand env now s task (.xml commandId timeout []))) := by
  rw [enterCommand_open hclosed] at hopen ⊢
  refine (waitToSend_continues hset hkey hins hclosed hopen).stage ?_ hlog
  exact ⟨hrequest, rfl, Nat.succ_pos 63, hset.pieces_pos, rfl⟩

end Segments

/-! ## Steps -/

section Steps

variable {env : Env} {key : Key} {commandId : Text} {timeout : ℚ} {body b : Bytes}
  {reply : XmlReply} {pieces : List Bytes} {t : ℕ} {w w' : World} {a : Action}

/-- What happens to the other tasks does not stop the exchange. -/
theorem Going.other {task task' : Task} (h : Going commandId timeout pieces task)
    (hsame : SameTask a t task task') (hexpire : a ≠ .expire t) :
    Going commandId timeout pieces task' := by
  refine ⟨hsame.request.trans h.request, ?_, hsame.rounds ▸ h.fragments, hsame.rounds ▸ h.more, ?_⟩
  · rw [Bool.eq_false_iff, ne_eq, hsame.expired, h.expired]
    simp [hexpire]
  · rw [hsame.assembler, hsame.rounds, h.assembler]

/-- What others do does not matter to the command. -/
theorem Stage.other (h : Stage commandId timeout body reply pieces t w) (hinv : Inv w)
    (hstep : w.step env a = some w') (ha : ¬a.Moves t)
    (hserves : Serves commandId timeout pieces t w a w') :
    Stage commandId timeout body reply pieces t w' := by
  have hsame := step_other hstep ha
  have hlog := requestsOf_other hinv hstep ha
  cases h with
  | idle hpc hnone => exact .idle (hsame.pc.trans hpc) (hlog.trans hnone)
  | lockWait hpc hrequest hnone =>
      exact .lockWait (hsame.pc.trans hpc) (hsame.request.trans hrequest) (hlog.trans hnone)
  | quiet hpc hgoing hsent =>
      refine .quiet (hsame.pc.trans hpc) (hgoing.other hsame hserves.expire) ?_
      rw [hlog, hsame.rounds, hsent]
  | @awaiting n q hpc hgoing hsent hfuture =>
      refine .awaiting (hsame.pc.trans hpc) (hgoing.other hsame hserves.expire) ?_ ?_
      · rw [hlog, hsame.rounds, hsent]
      intro f' hf'
      rw [hsame.rounds]
      obtain hf | hfate := step_fate hinv hstep hf'
      · exact hfuture f' hf
      generalize hstate : f'.state = state at hfate
      cases hfate with
      | made => exact .inl rfl
      | @answered f c _ ha hc hlookup =>
          subst ha
          obtain ⟨r, hr, -, g, hg, hgc, -⟩ := hinv.awaited t n q hpc
          obtain ⟨g', hg', hgc', -⟩ := hinv.registered c _ n hlookup
          rw [hgoing.request, Option.some.injEq] at hr
          rw [hg, Option.some.injEq] at hg'
          obtain rfl : c = .xml := by rw [← hgc', ← hg', hgc, ← hr]; rfl
          obtain ⟨marker, piece, hpiece, hpayload⟩ := hserves.answer f n q rfl hc hpc hlookup
          rw [hsent, length_requestSeq, Nat.add_sub_cancel] at hpiece
          exact .inr ⟨marker, piece, hpiece, by rw [hpayload]⟩
      | failed ha => exact absurd ha (hserves.failPending _)
      | lost ha =>
          subst ha
          cases hstep
          cases hserves.open_
      | @interrupted u q' hstop hu =>
          obtain rfl : u = t := hinv.alone (hu ▸ trivial) (hpc ▸ trivial)
          obtain rfl | rfl := hstop
          · exact absurd rfl hserves.cancel
          · exact absurd rfl hserves.expire
  | finished hpc hsent => exact .finished (hsame.pc.trans hpc) (hlog.trans hsent)

/-- **The command takes its turn.** -/
theorem Stage.own (hset : Setting env commandId body b reply pieces)
    (h : Stage commandId timeout body reply pieces t w) (hinv : Inv w)
    (hkey : ∀ k ∈ w.sess.key, k.length = 16) (hclosed : w.sess.closed = false)
    (hcancel : (w.tasks t).cancelRequested = false) (hstep : w.step env a = some w')
    (ha : a.Moves t) (hserves : Serves commandId timeout pieces t w a w') :
    Stage commandId timeout body reply pieces t w' := by
  have hinside {s : Session} {given : Option Bytes}
      (hruns : Runs w a t (.xml commandId timeout []) s given) : s.commandLock.inside = [t] := by
    have hins := runs_inside hinv hruns
    exact hins.lock.inside_eq hins.self
  have hopen {seg : Segment} (hw' : w' = w.settle t seg) : seg.1.closed = false := by
    rw [← settle_closed w t seg, ← hw']
    exact hserves.open_
  obtain rfl | ⟨cmd, rfl⟩ := ha
  · cases h with
    | idle hpc => simp [World.step, World.resume, hpc] at hstep
    | finished hpc => simp [World.step, World.resume, hpc] at hstep
    | lockWait hpc hrequest hnone =>
        by_cases hwoken : (t, Waiter.woken) ∈ w.sess.commandLock.waiters
        · rw [resume_woken hpc hrequest hcancel hwoken] at hstep
          have hw' := (Option.some.inj hstep).symm
          rw [hw']
          exact enterCommand_stage hset hkey (hinside (.woken hpc hwoken)) hclosed hrequest hnone
            (hopen hw')
        · simp [World.step, World.resume, hpc, hrequest, hcancel, hwoken] at hstep
    | quiet hpc hgoing hsent =>
        rw [resume_slept hpc hgoing.request hcancel hgoing.expired] at hstep
        have hw' := (Option.some.inj hstep).symm
        rw [hw']
        exact (waitToSend_continues hset hkey (hinside (.slept hpc)) hclosed (hopen hw')).stage
          hgoing hsent
    | @awaiting n q hpc hgoing hsent hfuture =>
        obtain ⟨r, -, -, f, hf, -⟩ := hinv.awaited t n q hpc
        obtain hstate | ⟨marker, piece, hpiece, hstate⟩ := hfuture f hf
        · simp [World.step, World.resume, hpc, hgoing.request, hf, hstate] at hstep
        have hgiven : w.sess.payloadOf n = some (marker :: piece) := by
          simp [Session.payloadOf, hf, hstate]
        rw [resume_answered hpc hgoing.request hcancel hgoing.expired hgiven] at hstep
        have hw' := (Option.some.inj hstep).symm
        rw [hw']
        exact handleReply_stage hset hkey (hinside (.answered hpc hgoing.request)) hclosed hgoing
          hsent hpiece (hopen hw')
  · obtain rfl := hserves.call cmd rfl
    cases h with
    | idle hpc hnone =>
        simp only [World.step, hpc, Option.some.injEq] at hstep
        unfold World.call at hstep
        rw [check_xml] at hstep
        dsimp only at hstep
        split at hstep
        next hgot =>
          have hw' := hstep.symm
          rw [hw']
          exact enterCommand_stage hset hkey (hinside (.called hpc rfl hgot)) hclosed rfl hnone
            (hopen hw')
        next =>
          subst hstep
          refine .lockWait ?_ ?_ hnone
          · dsimp only
            rw [Function.update_self]
          · dsimp only
            rw [Function.update_self]
    | lockWait hpc => simp [World.step, hpc] at hstep
    | quiet hpc => simp [World.step, hpc] at hstep
    | awaiting hpc => simp [World.step, hpc] at hstep
    | finished hpc => simp [World.step, hpc] at hstep

/-- **A step of an exchange.** -/
theorem serviced_step (hset : Setting env commandId body b reply pieces)
    (h : Serviced key.val commandId timeout body reply pieces t w)
    (hstep : w.step env a = some w') (hserves : Serves commandId timeout pieces t w a w') :
    Serviced key.val commandId timeout body reply pieces t w' := by
  obtain ⟨hcoherent, hclosed, hcancel, hsleeps, hstage⟩ := h
  refine ⟨hcoherent.step hstep, hserves.open_, ?_, ?_, ?_⟩
  · rw [Bool.eq_false_iff, ne_eq]
    intro hstop
    obtain h | h := cancelRequested_step hstep hstop
    · rw [hcancel] at h
      cases h
    · exact hserves.cancel h
  · refine step_lock (P := fun l => l.Sleeps t) (fun _ u h => h.acquire u)
      (fun _ u h => h.dequeue u) (fun _ u h => h.release u) (fun _ u h => h.giveUp u) ?_
      hstep hsleeps
    intro l u hstop h
    apply h.cancel
    rintro rfl
    exact hstop.elim hserves.cancel hserves.expire
  · by_cases ha : a.Moves t
    · have hkey : ∀ k ∈ w.sess.key, k.length = 16 := hcoherent.key ▸ key.property
      exact hstage.own hset hcoherent.inv hkey hclosed hcancel hstep ha hserves
    · exact hstage.other hcoherent.inv hstep ha hserves

/-- On a new session nothing of the exchange has happened. -/
theorem serviced_new {panelId receiverId : ℤ} {now : ℚ} :
    Serviced key.val commandId timeout body reply pieces t
      (World.new panelId receiverId key.val now) :=
  ⟨coherent_new, rfl, rfl, by simp [World.new, Lock.Sleeps], .idle rfl rfl⟩

end Steps

end Spcedp.Client
