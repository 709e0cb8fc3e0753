import Spcedp.Analysis.Handler
import Spcedp.Analysis.TaskRuns
import Spcedp.Analysis.TheoremSequence

/-!
# The numbers of requests

As long as the counter does not stand at the wrap when a command takes a number, the requests in
the history have larger and larger numbers (`Numbering`), and what a task remembers of its last
request is the one with that number (`Standing`). A future with a payload has it from a reply in
the history with its number (`Answered`).
-/

set_option autoImplicit false

namespace Spcedp.Client

open Lib.FairLock Lib.Transition Spcedp.Wire Spcedp.Xmlcmd

/-! ## Requests in the history -/

/-- The requests queued so far. -/
def requestFrames (log : List Entry) : List Frame :=
  log.filterMap fun
    | .queued g _ _ _ => if IsRequest g then some g else none
    | _ => none

/-- The requests in two parts of the history. -/
theorem requestFrames_append (log new : List Entry) :
    requestFrames (log ++ new) = requestFrames log ++ requestFrames new := List.filterMap_append

/-- A request of the history was queued. -/
theorem mem_requestFrames {log : List Entry} {g : Frame} : g ∈ requestFrames log ↔
    IsRequest g ∧ ∃ data closed holders, .queued g data closed holders ∈ log := by
  unfold requestFrames
  rw [List.mem_filterMap]
  constructor
  · rintro ⟨e, he, hsome⟩
    cases e with
    | queued g' data closed holders =>
        by_cases hg : IsRequest g'
        · simp only [hg, if_true, Option.some.injEq] at hsome
          subst hsome
          exact ⟨hg, data, closed, holders, he⟩
        · simp [hg] at hsome
    | ticked => cases hsome
    | dispatched => cases hsome
    | sessionStarted => cases hsome
  · rintro ⟨hg, data, closed, holders, he⟩
    exact ⟨_, he, if_pos hg⟩

/-- Entries without a request. -/
theorem requestFrames_eq_nil {log : List Entry}
    (h : ∀ g data closed holders, .queued g data closed holders ∈ log → ¬IsRequest g) :
    requestFrames log = [] := by
  rw [List.eq_nil_iff_forall_not_mem]
  intro g hg
  obtain ⟨hreq, data, closed, holders, he⟩ := mem_requestFrames.mp hg
  exact h g data closed holders he hreq

/-! ## Numbers -/

/-- The requests in the history have larger and larger numbers, up to the counter. -/
structure Numbering (s : Session) : Prop where
  nonneg : 0 ≤ s.nextSeq
  lt : s.nextSeq < 2 ^ 32
  increasing : (requestFrames s.log).Pairwise fun g g' => g.sequence < g'.sequence
  within : ∀ g ∈ requestFrames s.log, 0 ≤ g.sequence ∧ g.sequence ≤ s.nextSeq

/-- A number in the history goes over the wire. -/
theorem Numbering.onWire_sequence {s : Session} (h : Numbering s) {g : Frame}
    (hg : g ∈ requestFrames s.log) : g.onWire.sequence = g.sequence := by
  have hwithin := h.within g hg
  exact Int.emod_eq_of_lt hwithin.1 (hwithin.2.trans_lt h.lt)

/-- What a task remembers of its last request: the future is that of the request, and no other
request in the history has its number. -/
structure Standing (s : Session) (fr : Frame) (n : ℕ) : Prop where
  le : fr.sequence ≤ s.nextSeq
  future : ∃ f, s.futures[n]? = some f ∧ fr.sequence = f.seq ∧ fr.major = f.channel.major ∧
    fr.minor = MinorCode.request.value
  queued : ∀ g ∈ requestFrames s.log, g.sequence = fr.sequence →
    g = { fr with checksum := g.checksum }

/-- What a step leaves: the counter goes on, futures keep what they are for and their results, and
one request at most is added, with a number behind the old counter. -/
structure Later (s s' : Session) : Prop where
  nextSeq : s.nextSeq ≤ s'.nextSeq
  lt : s'.nextSeq < 2 ^ 32
  futures : ∀ (n : ℕ) (f : Future), s.futures[n]? = some f → ∃ f', s'.futures[n]? = some f' ∧
    f'.channel = f.channel ∧ f'.seq = f.seq ∧ (f.state ≠ .pending → f' = f)
  requests : requestFrames s'.log = requestFrames s.log ∨
    ∃ g, requestFrames s'.log = requestFrames s.log ++ [g] ∧ s.nextSeq < g.sequence ∧
      g.sequence ≤ s'.nextSeq

section Later

variable {s s' : Session} {fr : Frame} {n : ℕ}

/-- The numbering is kept as the session goes on. -/
theorem Numbering.later (h : Numbering s) (hlater : Later s s') : Numbering s' := by
  have hnext := hlater.nextSeq
  refine ⟨h.nonneg.trans hnext, hlater.lt, ?_, ?_⟩
  · obtain hsame | ⟨g, hnew, hlt, -⟩ := hlater.requests
    · rw [hsame]
      exact h.increasing
    · rw [hnew, List.pairwise_append]
      refine ⟨h.increasing, List.pairwise_singleton _ _, fun g₁ hg₁ g₂ hg₂ => ?_⟩
      rw [List.mem_singleton.mp hg₂]
      exact (h.within g₁ hg₁).2.trans_lt hlt
  · intro g₁ hg₁
    obtain hsame | ⟨g, hnew, hlt, hle⟩ := hlater.requests
    · rw [hsame] at hg₁
      exact ⟨(h.within g₁ hg₁).1, (h.within g₁ hg₁).2.trans hnext⟩
    · rw [hnew] at hg₁
      rcases List.mem_append.mp hg₁ with hg₁ | hg₁
      · exact ⟨(h.within g₁ hg₁).1, (h.within g₁ hg₁).2.trans hnext⟩
      · rw [List.mem_singleton.mp hg₁]
        exact ⟨h.nonneg.trans hlt.le, hle⟩

/-- A registered request stands as the session goes on. -/
theorem Standing.later (h : Standing s fr n) (hlater : Later s s') : Standing s' fr n := by
  refine ⟨h.le.trans hlater.nextSeq, ?_, fun g hg hseq => ?_⟩
  · obtain ⟨f, hf, hq, hc, hm⟩ := h.future
    obtain ⟨f', hf', hc', hq', -⟩ := hlater.futures n f hf
    exact ⟨f', hf', hq.trans hq'.symm, by rw [hc, hc'], hm⟩
  · obtain hsame | ⟨g', hnew, hlt, -⟩ := hlater.requests
    · exact h.queued g (hsame ▸ hg) hseq
    · rw [hnew] at hg
      rcases List.mem_append.mp hg with hg | hg
      · exact h.queued g hg hseq
      · have hle := h.le
        rw [List.mem_singleton.mp hg] at hseq
        omega

/-- A payload stays. -/
theorem Later.payloadOf (hlater : Later s s') {payload : Bytes}
    (h : s.payloadOf n = some payload) : s'.payloadOf n = some payload := by
  obtain ⟨f, hf, hstate⟩ := payloadOf_eq_some h
  obtain ⟨f', hf', -, -, hsame⟩ := hlater.futures n f hf
  rw [Session.payloadOf, hf', hsame (by simp [hstate])]
  simp [hstate]

/-- Counter and history are as they were. -/
theorem Later.same (hlt : s.nextSeq < 2 ^ 32) (hnext : s'.nextSeq = s.nextSeq)
    (hlog : requestFrames s'.log = requestFrames s.log)
    (hfutures : ∀ (n : ℕ) (f : Future), s.futures[n]? = some f → ∃ f', s'.futures[n]? = some f' ∧
      f'.channel = f.channel ∧ f'.seq = f.seq ∧ (f.state ≠ .pending → f' = f)) : Later s s' :=
  ⟨hnext.ge, hnext ▸ hlt, hfutures, .inl hlog⟩

/-- **The number taken for a request** is behind the counter, short of the wrap. -/
theorem Numbering.allocSeq (h : Numbering s) (hwrap : s.nextSeq ≠ 0xFFFFFFFF) :
    s.nextSeq < s.allocSeq.2 ∧ s.allocSeq.2 < 2 ^ 32 := by
  have hnonneg := h.nonneg
  have hlt := h.lt
  rw [allocSeq_of_lt s hnonneg (by omega)]
  omega

end Later

/-! ## Steps -/

section Steps

variable {env : Env} {w w' : World} {a : Action} {s s' : Session}

/-- **A segment takes one number at most**, and for a request that it sends. -/
theorem ends_later {now : ℚ} {r : Request} {given : Option Bytes} {pc : Pc}
    {last last' : Option (Frame × ℕ)} (h : Numbering s) (hwrap : s.nextSeq ≠ 0xFFFFFFFF)
    (hends : Ends env now s r given last s' pc last') :
    Later s s' ∧ (last' = last ∨ ∃ fr n, last' = some (fr, n) ∧ Standing s' fr n) := by
  obtain ⟨hbehind, hlt⟩ := h.allocSeq hwrap
  have hkeep (f : Future) (m : ℕ) (more : List Future) (hf : s.futures[m]? = some f) :
      ∃ f', (s.futures ++ more)[m]? = some f' ∧ f'.channel = f.channel ∧ f'.seq = f.seq ∧
        (f.state ≠ .pending → f' = f) :=
    ⟨f, by rw [List.getElem?_append_left (List.getElem?_eq_some_iff.mp hf).1, hf], rfl, rfl,
      fun _ => rfl⟩
  obtain ⟨xml, bin, hreg⟩ : ∃ xml bin, s.registered r.channel = { s with
      nextSeq := s.allocSeq.2
      pendingXml := xml
      pendingBin := bin
      futures := s.futures ++ [⟨.pending, r.channel, s.allocSeq.2⟩] } := by
    cases r.channel with
    | xml => exact ⟨_, s.pendingBin, rfl⟩
    | bin => exact ⟨s.pendingXml, _, rfl⟩
  cases hends with
  | stopped => exact ⟨.same h.lt rfl rfl fun n f hf => ⟨f, hf, rfl, rfl, fun _ => rfl⟩, .inl rfl⟩
  | asleep => exact ⟨.same h.lt rfl rfl fun n f hf => ⟨f, hf, rfl, rfl, fun _ => rfl⟩, .inl rfl⟩
  | unbuilt =>
      exact ⟨⟨hbehind.le, hlt, fun n f hf => ⟨f, hf, rfl, rfl, fun _ => rfl⟩, .inl rfl⟩, .inl rfl⟩
  | unencoded =>
      rw [hreg]
      exact ⟨⟨hbehind.le, hlt, fun n f hf => hkeep f n _ hf, .inl rfl⟩, .inl rfl⟩
  | @sent _ payload _ hsend hres =>
      rw [hreg] at hres
      have hfuture : ∃ f, (s.futures ++ [⟨.pending, r.channel, s.allocSeq.2⟩])[s.futures.length]? =
          some f ∧ (s.request r.channel payload).sequence = f.seq ∧
          (s.request r.channel payload).major = f.channel.major ∧
          (s.request r.channel payload).minor = MinorCode.request.value :=
        ⟨_, List.getElem?_concat_length, rfl, rfl, rfl⟩
      obtain ⟨data, g, henc, ⟨-, rfl⟩ | ⟨-, warned, rfl⟩⟩ := Session.send_cases hres
      · refine ⟨⟨hbehind.le, hlt, fun n f hf => hkeep f n _ hf, .inl rfl⟩,
          .inr ⟨_, _, rfl, le_rfl, hfuture, fun g hg hseq => ?_⟩⟩
        have hle := (h.within g hg).2
        have hseq : g.sequence = s.allocSeq.2 := hseq
        omega
      · have hg := encode_ok_frame henc
        have hreq : IsRequest g := by
          rw [hg]
          exact ⟨r.channel, rfl, rfl⟩
        have hnew : requestFrames (s.log ++ [.queued g data s.closed s.commandLock.inside]) =
            requestFrames s.log ++ [g] := by
          rw [requestFrames_append]
          simp [requestFrames, hreq]
        have hseq : g.sequence = s.allocSeq.2 := by rw [hg]; rfl
        refine ⟨⟨hbehind.le, hlt, fun n f hf => hkeep f n _ hf,
          .inr ⟨g, hnew, hseq ▸ hbehind, hseq.le⟩⟩, .inr ⟨_, _, rfl, le_rfl, hfuture, ?_⟩⟩
        intro g' hg' hseq'
        dsimp only at hg'
        rw [hnew] at hg'
        rcases List.mem_append.mp hg' with hg' | hg'
        · have hle := (h.within g' hg').2
          have hseq' : g'.sequence = s.allocSeq.2 := hseq'
          omega
        · rw [List.mem_singleton.mp hg']
          exact hg

/-- A dispatched frame adds no request. -/
theorem dispatch_later (env : Env) (w : World) {f : Frame} (h : Numbering w.sess)
    (hf : FromWire f) : Later w.sess (w.sess.dispatch env.aes w.now f).1 := by
  have hseq := hf.sequence
  have hlt := h.lt
  refine ⟨?_, ?_, fun n f' hf' => ?_, .inl ?_⟩
  · rw [Session.dispatch_nextSeq]
    exact le_max_left _ _
  · rw [Session.dispatch_nextSeq]
    omega
  · obtain ⟨f'', hf'', hc, hq, hsame, -⟩ :=
      (settles_dispatch env.aes w.sess w.now f).futures n f' hf'
    exact ⟨f'', hf'', hc, hq, hsame⟩
  · obtain ⟨-, new, hlog, hrec⟩ := dispatch_records env w f
    have hnew : requestFrames new = [] := by
      refine requestFrames_eq_nil fun g data closed holders hmem hreq => ?_
      obtain ⟨-, -, t, -, ha | ⟨cmd, ha⟩⟩ := hrec.request hmem hreq <;> cases ha
    rw [hlog, requestFrames_append, hnew, List.append_nil]

/-- **A segment**, stored. -/
theorem segment_later {t : ℕ} {r : Request} {given : Option Bytes} {seg : Segment}
    (h : Numbering w.sess) (hwrap : w.sess.nextSeq ≠ 0xFFFFFFFF) (hruns : Runs w a t r s given)
    (hseg : SegmentEnd env w.now s r given (w.tasks t).lastRequest seg) :
    Later w.sess (w.settle t seg).sess ∧ (seg.2.lastRequest = (w.tasks t).lastRequest ∨
      ∃ fr n, seg.2.lastRequest = some (fr, n) ∧ Standing (w.settle t seg).sess fr n) := by
  obtain ⟨-, lock, xml, bin, rfl⟩ := runs_session hruns
  obtain ⟨lock', hsettle⟩ := settle_session w t seg
  have h' : Numbering { w.sess with
      commandLock := lock, pendingXml := xml, pendingBin := bin } :=
    ⟨h.nonneg, h.lt, h.increasing, h.within⟩
  obtain ⟨hlater, hlast⟩ := ends_later h' hwrap hseg.ends
  rw [hsettle]
  exact ⟨⟨hlater.nextSeq, hlater.lt, hlater.futures, hlater.requests⟩,
    hlast.imp_right fun ⟨fr, n, heq, hs⟩ => ⟨fr, n, heq, hs.le, hs.future, hs.queued⟩⟩

/-- **The numbers along a step.** -/
theorem step_later (h : Numbering w.sess) (hfrom : ∀ f, a = .dispatch f → FromWire f)
    (hwrap : a.FromApp = true → w.sess.nextSeq ≠ 0xFFFFFFFF) (hstep : w.step env a = some w') :
    Later w.sess w'.sess := by
  have hsame {s' : Session} (hnext : s'.nextSeq = w.sess.nextSeq)
      (hlog : requestFrames s'.log = requestFrames w.sess.log)
      (hfutures : s'.futures = w.sess.futures) : Later w.sess s' :=
    .same h.lt hnext hlog fun n f hf => ⟨f, hfutures ▸ hf, rfl, rfl, fun _ => rfl⟩
  have hfail (e : SpcError) (n : ℕ) (f : Future) (hf : w.sess.futures[n]? = some f) :
      ∃ f', (w.sess.failPending e).futures[n]? = some f' ∧ f'.channel = f.channel ∧
        f'.seq = f.seq ∧ (f.state ≠ .pending → f' = f) := by
    obtain ⟨f', hf', hc, hq, hsame, -⟩ := (settles_failPending w.sess e).futures n f hf
    exact ⟨f', hf', hc, hq, hsame⟩
  cases step_change hstep with
  | segment hruns hseg =>
      refine (segment_later h (hwrap ?_) hruns hseg).1
      obtain rfl | ⟨cmd, rfl⟩ := hruns.moves <;> rfl
  | refused => exact hsame rfl rfl rfl
  | enqueued => exact hsame rfl rfl rfl
  | gaveUp => exact hsame rfl rfl rfl
  | interrupted =>
      dsimp only
      unfold World.interrupt
      split
      · exact hsame rfl rfl rfl
      · refine .same h.lt rfl rfl fun n f hf => ?_
        dsimp only
        rw [complete_getElem?, hf, Option.map_some]
        refine ⟨_, rfl, ?_⟩
        split
        next hpending => exact ⟨rfl, rfl, fun hstate => absurd hpending.2 hstate⟩
        next => exact ⟨rfl, rfl, fun _ => rfl⟩
      · exact hsame rfl rfl rfl
  | dispatched => exact dispatch_later env w h (hfrom _ rfl)
  | ticked =>
      refine hsame rfl ?_ rfl
      dsimp only
      rw [requestFrames_append]
      exact List.append_nil _
  | failed => exact .same h.lt rfl rfl (hfail _)
  | closing => exact hsame rfl rfl rfl
  | tornDown => exact .same h.lt rfl rfl (hfail _)
  | wrote => exact hsame rfl rfl rfl

/-- A task remembers its last request, or has just sent another. -/
theorem step_last (h : Numbering w.sess) (hwrap : a.FromApp = true → w.sess.nextSeq ≠ 0xFFFFFFFF)
    (hstep : w.step env a = some w') (t : ℕ) :
    (w'.tasks t).lastRequest = (w.tasks t).lastRequest ∨
      ∃ fr n, (w'.tasks t).lastRequest = some (fr, n) ∧ Standing w'.sess fr n := by
  by_cases ha : a.Moves t
  · have happ : a.FromApp = true := by
      obtain rfl | ⟨cmd, rfl⟩ := ha <;> rfl
    cases step_moved hstep ha with
    | ran _ hruns hseg =>
        rw [settle_tasks, Function.update_self]
        exact (segment_later h (hwrap happ) hruns hseg).2
    | _ =>
        dsimp only
        rw [Function.update_self]
        exact .inl rfl
  · exact .inl (step_other hstep ha).lastRequest

/-! ## Replies -/

/-- A future has its payload from a reply in the history. -/
def Answered (s : Session) : Prop :=
  ∀ (n : ℕ) (f : Future) (payload : Bytes), s.futures[n]? = some f → f.state = .result payload →
    ∃ g ∈ dispatchedFrames s.log, IsReply f.channel g ∧ g.sequence = f.seq ∧ g.payload = payload

/-- **Every step keeps to the replies.** -/
theorem answered_step (hinv : Inv w) (h : Answered w.sess) (hstep : w.step env a = some w') :
    Answered w'.sess := by
  obtain ⟨-, new, hlog, hrec⟩ := step_records hinv hstep
  intro n f payload hf hstate
  rw [hlog, dispatchedFrames_append]
  obtain hold | hfate := step_fate hinv hstep hf
  · obtain ⟨g, hg, hreply⟩ := h n f payload hold hstate
    exact ⟨g, List.mem_append_left _ hg, hreply⟩
  · rw [hstate] at hfate
    cases hfate with
    | @answered g c f₀ ha hc hlookup hf₀ =>
        subst ha
        obtain ⟨f₁, hf₁, rfl, hseq⟩ := hinv.registered c g.sequence n hlookup
        obtain ⟨f₂, hf₂, hchannel, hseq'⟩ : ∃ f', w'.sess.futures[n]? = some f' ∧
            f'.channel = f₁.channel ∧ f'.seq = f₁.seq := by
          cases hstep
          obtain ⟨f', hf', hc', hq', -⟩ :=
            (settles_dispatch env.aes w.sess w.now g).futures n f₁ hf₁
          exact ⟨f', hf', hc', hq'⟩
        rw [hf, Option.some.injEq] at hf₂
        subst hf₂
        refine ⟨g, ?_, hchannel ▸ hc, (hseq'.trans hseq).symm, rfl⟩
        rw [hrec.dispatched.1]
        simp

/-! ## All of it -/

/-- The numbers and the replies of a session. -/
structure Numbered (w : World) : Prop where
  inv : Inv w
  numbering : Numbering w.sess
  standing : ∀ t fr n, (w.tasks t).lastRequest = some (fr, n) → Standing w.sess fr n
  answered : Answered w.sess

/-- On a new session nothing is numbered yet. -/
theorem numbered_new (panelId receiverId : ℤ) (key : Option Bytes) (now : ℚ) :
    Numbered (World.new panelId receiverId key now) where
  inv := inv_new panelId receiverId key now
  numbering := ⟨le_rfl, (by decide : (0 : ℤ) < 2 ^ 32), List.Pairwise.nil, nofun⟩
  standing _ _ _ := nofun
  answered n f payload hf := by
    have hf : ([] : List Future)[n]? = some f := hf
    cases hf

/-- **Every step keeps the numbers**, short of the wrap. -/
theorem Numbered.step (h : Numbered w) (hfrom : ∀ f, a = .dispatch f → FromWire f)
    (hwrap : a.FromApp = true → w.sess.nextSeq ≠ 0xFFFFFFFF) (hstep : w.step env a = some w') :
    Numbered w' := by
  have hlater := step_later h.numbering hfrom hwrap hstep
  refine ⟨inv_step h.inv hstep, h.numbering.later hlater, fun t fr n hlast => ?_,
    answered_step h.inv h.answered hstep⟩
  obtain hsame | ⟨fr', n', hnew, hs⟩ := step_last h.numbering hwrap hstep t
  · exact (h.standing t fr n (hsame ▸ hlast)).later hlater
  · rw [hnew, Option.some.injEq, Prod.mk.injEq] at hlast
    obtain ⟨rfl, rfl⟩ := hlast
    exact hs

/-- Naming the panel and starting `on_session` do not matter. -/
theorem later_relabel {s : Session} (hlt : s.nextSeq < 2 ^ 32) (panelId : ℤ) {new : List Entry}
    (hnew : ∀ e ∈ new, e = .sessionStarted) :
    Later s { s with panelId := panelId, log := s.log ++ new } := by
  refine .same hlt rfl ?_ fun n f hf => ⟨f, hf, rfl, rfl, fun _ => rfl⟩
  have hnone : requestFrames new = [] := by
    refine requestFrames_eq_nil fun g data closed holders hmem => ?_
    cases hnew _ hmem
  dsimp only
  rw [requestFrames_append, hnone, List.append_nil]

/-- The numbering does not depend on the name of the panel or on the start of `on_session`. -/
theorem Numbered.relabel (h : Numbered w) (panelId : ℤ) {new : List Entry}
    (hnew : ∀ e ∈ new, e = .sessionStarted) :
    Numbered { w with sess := { w.sess with panelId := panelId, log := w.sess.log ++ new } } := by
  have hlater := later_relabel h.numbering.lt panelId hnew
  refine ⟨inv_relabel h.inv panelId _, h.numbering.later hlater,
    fun t fr n hlast => (h.standing t fr n hlast).later hlater, fun n f payload hf hstate => ?_⟩
  obtain ⟨g, hg, hreply⟩ := h.answered n f payload hf hstate
  refine ⟨g, ?_, hreply⟩
  dsimp only
  rw [dispatchedFrames_append]
  exact List.mem_append_left _ hg

end Steps

end Spcedp.Client
