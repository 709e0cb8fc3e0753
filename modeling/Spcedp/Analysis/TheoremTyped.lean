import Spcedp.Analysis.TaskRuns
import Spcedp.Model.Connection
import Spcedp.Model.Panel

/-!
# What a panel can make a query raise

`typed_iff`: a query of the library ends with a parsed reply or with an error of one of the
three classes that the docstring of `xml_command` names, whatever the panel sends and whenever
it disconnects, if and only if no reply names an encoding that Python does not know. `expat`
raises `LookupError` for such a reply, and no handler expects that.
-/

set_option autoImplicit false

namespace Spcedp.Client

open Lib.FairLock Lib.Transition Spcedp.PyText Spcedp.Wire Spcedp.Xmlcmd

/-- The commands that the library itself sends. -/
abbrev queries : List Text := [xmlInfo, xmlAreaStatus, xmlZoneStatus]

/-- What `xml_command` may end with, after the actions `as`: a parsed reply, an error of one of
three classes, or a cancellation by its caller. -/
def Outcome.Typed (as : List Action) (t : ℕ) : Outcome → Prop
  | reply _ => True
  | spcError e => e.cls = .spcTimeout ∨ e.cls = .spcConnectionLost ∨ e.cls = .spcProtocolError
  | cancelled => .cancel t ∈ as
  | _ => False

/-- Task `t`, when it runs next, has `b` as the whole reply to its command. -/
def World.Parses (w : World) (t : ℕ) (b : Bytes) : Prop :=
  ∃ n q payload buf, (w.tasks t).pc = .awaiting n q ∧ (w.tasks t).cancelRequested = false ∧
    (w.tasks t).expired = false ∧ w.sess.payloadOf n = some payload ∧
    assemble (w.tasks t).assembler payload = .ok (buf, some b)

/-- In the run from `w₀`, task `t` is given a reply that names an unknown encoding. -/
def Unknown (env : Env) (w₀ : World) (as : List Action) (t : ℕ) : Prop :=
  ∃ w₁ w₂ b, Happens (World.step env) w₀ as w₁ (.resume t) w₂ ∧ w₁.Parses t b ∧
    env.expat b = .lookupError

/-! ## Queries can be sent -/

/-- The request for a query. -/
theorem query_payload {query : Text} (hquery : query ∈ queries) (timeout : ℚ)
    (continuation : Bool) :
    ∃ payload, (Request.xml query timeout []).payload continuation = .ok payload ∧
      payload.length ≤ 65514 := by
  have hbuilt : ∀ query ∈ queries, ∀ continuation, ∃ payload,
      buildRequest query continuation [] = .ok payload ∧ payload.length ≤ 65514 := by
    have hlengths : ∀ query ∈ queries, ∀ continuation,
        ((buildRequest query continuation []).toOption.map List.length).getD 65515 ≤ 65514 := by
      decide +kernel
    intro query hquery continuation
    have hlen := hlengths query hquery continuation
    cases hbuild : buildRequest query continuation [] with
    | error e => simp [hbuild, Except.toOption] at hlen
    | ok payload =>
        rw [hbuild] at hlen
        exact ⟨payload, rfl, hlen⟩
  obtain ⟨payload, hbuild, hlen⟩ := hbuilt query hquery continuation
  refine ⟨payload, ?_, hlen⟩
  unfold Request.payload
  dsimp only
  rw [hbuild]

/-! ## The errors -/

section

variable {env : Env} {w₀ w w' : World} {as : List Action} {a : Action} {t : ℕ} {query : Text}
  {timeout : ℚ}

/-- Everything that a reply can end a query with is typed, but for an unknown encoding. -/
theorem Answers.typed {task : Task} {payload : Bytes} {o : Outcome}
    (h : Answers env task payload (.xml query timeout []) o) :
    o.Typed as t ∨ o = .lookupError ∧ ∃ buf b,
      assemble task.assembler payload = .ok (buf, some b) ∧ env.expat b = .lookupError := by
  cases h with
  | malformed => exact .inl (.inr (.inr rfl))
  | parsed => exact .inl trivial
  | unparsed => exact .inl (.inr (.inr rfl))
  | @unknownEncoding _ _ _ buf b hassemble hparse =>
      refine .inr ⟨rfl, buf, b, hassemble, ?_⟩
      unfold parseReply at hparse
      cases hexpat : env.expat b with
      | lookupError => rfl
      | document root =>
          rw [hexpat] at hparse
          dsimp only at hparse
          split at hparse <;> cases hparse
      | _ =>
          rw [hexpat] at hparse
          cases hparse
  | neverClosed => exact .inl (.inr (.inr rfl))

/-- **Every reason to end a query is typed**, but for an unknown encoding. -/
theorem Ending.typed {panelId receiverId : ℤ} {key : Key} {now : ℚ} {o : Outcome}
    (hrun : run (World.step env) (World.new panelId receiverId key.val now) as = some w)
    (hfail : ∀ e, .failPending e ∈ as → e.cls = .spcConnectionLost) (hquery : query ∈ queries)
    (h : Ending env w t (.xml query timeout []) o) :
    o.Typed as t ∨ o = .lookupError ∧ ∃ b, w.Parses t b ∧ env.expat b = .lookupError := by
  have hcoherent := coherent_of_run hrun
  cases h with
  | disconnected => exact .inl (.inr (.inl rfl))
  | @unbuilt continuation o h =>
      obtain ⟨payload, hpayload, -⟩ := query_payload hquery timeout continuation
      rw [hpayload] at h
      cases h
  | @unencoded continuation payload e f hpayload hf henc =>
      obtain ⟨payload', hpayload', hlen⟩ := query_payload hquery timeout continuation
      rw [hpayload, Except.ok.injEq] at hpayload'
      subst hpayload'
      have hkey : ∀ k ∈ w.sess.key, k.length = 16 := hcoherent.key ▸ key.property
      obtain ⟨data, f', henc'⟩ := encode_of_fits env.aes hkey (hf ▸ hlen)
      rw [henc'] at henc
      cases henc
  | cancelled hstop => exact .inl (cancel_mem_of_run hrun hstop)
  | notIdle => exact .inl (.inl rfl)
  | timedOut => exact .inl (.inl rfl)
  | @failed n q f e _ hf hstate =>
      obtain rfl | he := failed_of_run hrun hf hstate
      · exact .inl (.inr (.inl rfl))
      · exact .inl (.inr (.inl (hfail e he)))
  | @lost n q hpc hexpired hlost =>
      obtain ⟨r, -, -, f, hf, -⟩ := hcoherent.inv.awaited t n q hpc
      obtain hstop | hstop := stopped_of_run hrun hpc hf (hlost f hf)
      · exact .inl (cancel_mem_of_run hrun hstop)
      · rw [hexpired] at hstop
        cases hstop
  | @answered n q payload o hpc hcancel hexpired hgiven hanswer =>
      obtain h | ⟨ho, buf, b, hassemble, hexpat⟩ := hanswer.typed
      · exact .inl h
      · exact .inr ⟨ho, b, ⟨n, q, payload, buf, hpc, hcancel, hexpired, hgiven, hassemble⟩, hexpat⟩

/-- An outcome stays typed when the run goes on. -/
theorem Outcome.Typed.snoc {o : Outcome} (h : o.Typed as t) : o.Typed (as ++ [a]) t := by
  cases o with
  | cancelled => exact List.mem_append_left _ h
  | _ => exact h

/-- **A query that ends is typed or was given an unknown encoding**: one step of its run. -/
theorem typed_step {panelId receiverId : ℤ} {key : Key} {now : ℚ} {o : Outcome}
    (hrun : run (World.step env) (World.new panelId receiverId key.val now) as = some w)
    (hstep : w.step env a = some w')
    (hfail : ∀ e, .failPending e ∈ as → e.cls = .spcConnectionLost) (hquery : query ∈ queries)
    (hr : (w'.tasks t).request = some (.xml query timeout []))
    (hopen : ∀ o, (w.tasks t).pc ≠ .finished o) (hend : (w'.tasks t).pc = .finished o) :
    o.Typed (as ++ [a]) t ∨ o = .lookupError ∧
      Unknown env (World.new panelId receiverId key.val now) (as ++ [a]) t := by
  by_cases ha : a.Moves t
  swap
  · rw [(step_other hstep ha).pc] at hend
    exact absurd hend (hopen o)
  have hbegun := (coherent_of_run hrun).begun t
  cases step_moved hstep ha with
  | refused hpc =>
      dsimp only at hr
      rw [Function.update_self] at hr
      rw [(hbegun.idle hpc).1] at hr
      cases hr
  | enqueued =>
      dsimp only at hend
      rw [Function.update_self] at hend
      cases hend
  | gaveUp _ hstop =>
      dsimp only at hend
      rw [Function.update_self] at hend
      cases hend
      exact .inl (Outcome.Typed.snoc (o := .cancelled) (cancel_mem_of_run hrun hstop))
  | @ran r s given seg hr' hruns hseg hlaw =>
      rw [settle_tasks, Function.update_self] at hr hend
      rw [hseg.request, Option.some.injEq] at hr
      subst hr
      obtain h | ⟨ho, b, hparses, hexpat⟩ :=
        (hlaw.finished o hend).typed hrun hfail hquery
      · exact .inl h.snoc
      · refine .inr ⟨ho, w, w.settle t seg, b, ?_, hparses, hexpat⟩
        rw [happens_last_iff hrun hstep]
        obtain ⟨n, q, _, _, hpc, -⟩ := hparses
        obtain rfl | ⟨cmd, rfl⟩ := ha
        · exact .inr ⟨rfl, rfl, rfl⟩
        · simp [World.step, hpc] at hstep

/-- **An unknown encoding ends an XML command** with `LookupError`. -/
theorem lookupError_of_parses {b : Bytes} {r : Request} (hr : (w.tasks t).request = some r)
    (hxml : r.channel = .xml) (hparses : w.Parses t b) (hexpat : env.expat b = .lookupError)
    (hstep : w.step env (.resume t) = some w') : (w'.tasks t).pc = .finished .lookupError := by
  obtain ⟨n, q, payload, buf, hpc, hcancel, hexpired, hgiven, hassemble⟩ := hparses
  rw [resume_answered hpc hr hcancel hexpired hgiven, Option.some.injEq] at hstep
  rw [← hstep, settle_tasks, Function.update_self]
  cases r with
  | xml commandId timeout attrs =>
      unfold handleReply parseReply
      dsimp only
      rw [hassemble]
      dsimp only
      rw [hexpat]
  | binary => cases hxml

end

/-! ## Runs -/

section

variable {env : Env} {panelId receiverId : ℤ} {key : Key} {now : ℚ} {as : List Action} {w : World}
  {t : ℕ} {query : Text} {timeout : ℚ}

/-- A query that has ended is typed, or was given an unknown encoding. -/
theorem typed_or_unknown
    (hrun : run (World.step env) (World.new panelId receiverId key.val now) as = some w)
    (hquery : query ∈ queries) :
    (∀ e, .failPending e ∈ as → e.cls = .spcConnectionLost) →
    (w.tasks t).request = some (.xml query timeout []) → ∀ o, (w.tasks t).pc = .finished o →
      o.Typed as t ∨ o = .lookupError ∧
        Unknown env (World.new panelId receiverId key.val now) as t := by
  apply run_induction (P := fun as w =>
    (∀ e, .failPending e ∈ as → e.cls = .spcConnectionLost) →
    (w.tasks t).request = some (.xml query timeout []) → ∀ o, (w.tasks t).pc = .finished o →
      o.Typed as t ∨ o = .lookupError ∧
        Unknown env (World.new panelId receiverId key.val now) as t) ?_ ?_ as w hrun
  · intro _ hr
    cases hr
  · intro as w a w' hrun ih hstep hfail hr o hend
    have hfail (e : SpcError) (h : .failPending e ∈ as) := hfail e (List.mem_append_left _ h)
    by_cases hopen : ∃ o, (w.tasks t).pc = .finished o
    · obtain ⟨o', hend'⟩ := hopen
      have hsame := step_other hstep (not_moves_of_finished hstep hend')
      rw [hsame.request] at hr
      rw [hsame.pc] at hend
      obtain h | ⟨ho, w₁, w₂, b, hhappens, h⟩ := ih hfail hr o hend
      · exact .inl h.snoc
      · exact .inr ⟨ho, w₁, w₂, b, (happens_last_iff hrun hstep).mpr (.inl hhappens), h⟩
    · rw [not_exists] at hopen
      exact typed_step hrun hstep hfail hquery hr hopen hend

/-- An unknown encoding ends an XML command for good. -/
theorem lookupError_of_unknown
    (hrun : run (World.step env) (World.new panelId receiverId key.val now) as = some w) :
    Unknown env (World.new panelId receiverId key.val now) as t →
      ∃ r, (w.tasks t).request = some r ∧
        (r.channel = .xml → (w.tasks t).pc = .finished .lookupError) := by
  apply run_induction (P := fun as w =>
    Unknown env (World.new panelId receiverId key.val now) as t →
      ∃ r, (w.tasks t).request = some r ∧
      (r.channel = .xml → (w.tasks t).pc = .finished .lookupError)) ?_ ?_ as w hrun
  · rintro ⟨w₁, w₂, b, h, -⟩
    exact absurd h not_happens_nil
  · rintro as w a w' hrun ih hstep ⟨w₁, w₂, b, hhappens, hparses, hexpat⟩
    have hcoherent := coherent_of_run hrun
    have hbegun := hcoherent.begun t
    obtain hhappens | ⟨rfl, rfl, rfl⟩ := (happens_last_iff hrun hstep).mp hhappens
    · obtain ⟨r, hr, hpc⟩ := ih ⟨w₁, w₂, b, hhappens, hparses, hexpat⟩
      exact ⟨r, request_step hbegun hstep hr, fun hxml => (step_pc hstep t).2 _ (hpc hxml)⟩
    · have ⟨n, q, _, _, hpc, _⟩ := hparses
      obtain ⟨r, hr, -⟩ := hcoherent.inv.awaited t n q hpc
      exact ⟨r, request_step hbegun hstep hr,
        fun hxml => lookupError_of_parses hr hxml hparses hexpat hstep⟩

end

/-- **Typed errors.** -/
theorem typed_iff (env : Env) (panelId receiverId : ℤ) (key : Key) (now : ℚ) (as : List Action)
    (w : World) (t : ℕ) (query : Text) (timeout : ℚ) (o : Outcome)
    (hrun : run (World.step env) (World.new panelId receiverId key.val now) as = some w)
    (hquery : query ∈ queries) (hr : (w.tasks t).request = some (.xml query timeout []))
    (hend : (w.tasks t).pc = .finished o)
    (hfail : ∀ e, .failPending e ∈ as → e.cls = .spcConnectionLost) :
    o.Typed as t ↔ ∀ w₁ w₂ b,
      Happens (World.step env) (World.new panelId receiverId key.val now) as w₁ (.resume t) w₂ →
      w₁.Parses t b → env.expat b ≠ .lookupError := by
  constructor
  · intro htyped w₁ w₂ b hhappens hparses hexpat
    obtain ⟨r, hr', hlookup⟩ :=
      lookupError_of_unknown hrun ⟨w₁, w₂, b, hhappens, hparses, hexpat⟩
    rw [hr, Option.some.injEq] at hr'
    have hpc := hlookup (hr' ▸ rfl)
    rw [hend, Pc.finished.injEq] at hpc
    rw [hpc] at htyped
    exact htyped
  · intro hknown
    obtain htyped | ⟨-, w₁, w₂, b, hhappens, hparses, hexpat⟩ :=
      typed_or_unknown hrun hquery hfail hr o hend
    · exact htyped
    · exact absurd hexpat (hknown w₁ w₂ b hhappens hparses)

/-! ## A reply in an unknown encoding -/

/-- Is this the command `query` without attributes? -/
def Request.isQuery (query : Text) (timeout : ℚ) : Request → Bool
  | xml commandId timeout' attrs =>
      decide (commandId = query) && decide (timeout' = timeout) && attrs.isEmpty
  | binary _ _ _ => false

/-- A request that tests as the query is the query. -/
theorem Request.eq_of_isQuery {r : Option Request} {query : Text} {timeout : ℚ}
    (h : r.any (isQuery query timeout) = true) : r = some (.xml query timeout []) := by
  cases r with
  | none => cases h
  | some r =>
      cases r with
      | xml => simp_all [isQuery]
      | binary => cases h

/-- Has the command ended with a parsed reply? -/
def Pc.isReply : Pc → Bool
  | finished (.reply _) => true
  | _ => false

/-- Has the command ended with `LookupError`? -/
def Pc.isLookupError : Pc → Bool
  | finished .lookupError => true
  | _ => false

/-- A reply without content. -/
def emptyReply : Bytes := (text "<COMMAND_REPLY></COMMAND_REPLY>").map UInt8.ofNat

/-- The same in an encoding that does not exist. -/
def foreignReply : Bytes :=
  (text "<?xml version=\"1.0\" encoding=\"x-none\"?>").map UInt8.ofNat ++ emptyReply

/-- A panel without a key, whose replies have no content. -/
def queryEnv : Env where
  aes := clearEnv.aes
  expat b := if b = foreignReply then .lookupError
    else .document (.node (text "COMMAND_REPLY") [] [])

/-- The reply to the first request of a session. -/
def firstReply (b : Bytes) : Frame where
  srcId := 1000
  dstId := 1001
  sequence := 1
  major := Channel.xml.major
  minor := Channel.xml.replyMinor
  payload := fragFirst :: b

/-- A query and its reply. -/
def queryRun (b : Bytes) : List Action :=
  [.call 0 (.xml xmlInfo 5 []), .dispatch (firstReply b), .resume 0]

/-- A query that returns a parsed reply. -/
theorem typed_iff_emptyReply : ∃ (w : World) (o : Outcome), (w.tasks 0).pc = .finished o ∧
    (o.Typed (queryRun emptyReply) 0 ↔ ∀ w₁ w₂ b, Happens (World.step queryEnv)
      (World.new 1000 1001 none 1) (queryRun emptyReply) w₁ (.resume 0) w₂ →
      w₁.Parses 0 b → queryEnv.expat b ≠ .lookupError) := by
  have hobs : (run (World.step queryEnv) (World.new 1000 1001 none 1) (queryRun emptyReply)).map
      (fun w => ((w.tasks 0).pc.isReply, (w.tasks 0).request.any (Request.isQuery xmlInfo 5))) =
      some (true, true) := by decide +kernel
  obtain ⟨w, hrun, hw⟩ := Option.map_eq_some_iff.mp hobs
  rw [Prod.mk.injEq] at hw
  obtain ⟨o, hend⟩ : ∃ o, (w.tasks 0).pc = .finished o := by
    have hreply := hw.1
    unfold Pc.isReply at hreply
    split at hreply
    · exact ⟨_, by assumption⟩
    · cases hreply
  refine ⟨w, o, hend, typed_iff queryEnv 1000 1001 .clear 1 (queryRun emptyReply) w 0 xmlInfo 5 o
    hrun (by simp) (Request.eq_of_isQuery hw.2) hend ?_⟩
  intro e he
  simp [queryRun] at he

/-- **The leak.** A reply in an unknown encoding makes the query raise `LookupError`. -/
theorem foreignReply_not_typed : ∃ w o,
    run (World.step queryEnv) (World.new 1000 1001 none 1) (queryRun foreignReply) = some w ∧
    (w.tasks 0).request = some (.xml xmlInfo 5 []) ∧ (w.tasks 0).pc = .finished o ∧
    ¬o.Typed (queryRun foreignReply) 0 := by
  have hobs : (run (World.step queryEnv) (World.new 1000 1001 none 1) (queryRun foreignReply)).map
      (fun w => ((w.tasks 0).pc.isLookupError,
        (w.tasks 0).request.any (Request.isQuery xmlInfo 5))) =
      some (true, true) := by decide +kernel
  obtain ⟨w, hrun, hw⟩ := Option.map_eq_some_iff.mp hobs
  rw [Prod.mk.injEq] at hw
  refine ⟨w, .lookupError, hrun, Request.eq_of_isQuery hw.2, ?_, id⟩
  have hlookup := hw.1
  unfold Pc.isLookupError at hlookup
  split at hlookup
  · assumption
  · cases hlookup

end Spcedp.Client
