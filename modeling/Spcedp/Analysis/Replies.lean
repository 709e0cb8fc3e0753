import Spcedp.Analysis.Numbering

/-!
# What a command makes of its replies

A command goes in rounds, each a request and the payload of the reply to it. `Collected` is what
the variables of the task have of the payloads, `Leaves` what a segment does with them, and
`Yields` how a command ends with success. Along a run, every command that is on its way, or has
ended with success, has its rounds (`Gathered`): one after the other, each with a future that
has the payload.
-/

set_option autoImplicit false

namespace Spcedp.Client

open Lib.FairLock Lib.Transition Spcedp.Wire Spcedp.Xmlcmd

/-! ## Payloads -/

/-- What the assembler has of some payloads. -/
def bodies (payloads : List Bytes) : Bytes := (payloads.map (List.drop 1)).flatten

/-- The body of one more fragment comes last. -/
theorem bodies_append (payloads : List Bytes) (payload : Bytes) :
    bodies (payloads ++ [payload]) = bodies payloads ++ payload.drop 1 := by
  unfold bodies
  simp

/-- A command of which the replies have some payloads ends with success: a binary command has one
reply, which says so, and the replies to an XML command are pieces of one that is parsed. -/
inductive Yields (env : Env) : Request → List Bytes → Outcome → Prop
  | accepted {op targetId timeout rest} :
      Yields env (.binary op targetId timeout) [replyOk :: rest] .ok
  | parsed {commandId timeout attrs payloads reply} : payloads.length ≤ maxXmlFragments →
      parseReply env.expat (bodies payloads) = .ok reply →
      Yields env (.xml commandId timeout attrs) payloads (.reply reply)

/-- The caller gets an answer. -/
def Outcome.Succeeds : Outcome → Prop
  | .ok | .reply _ => True
  | _ => False

/-- The variables of a task, when the replies so far had these payloads. -/
structure Collected (r : Request) (payloads : List Bytes) (task : Task) : Prop where
  request : task.request = some r
  assembler : task.assembler = bodies payloads
  rounds : task.rounds = payloads.length
  few : payloads.length < maxXmlFragments
  bin : r.channel = .bin → payloads = []

/-- The request that a command sends behind these payloads. -/
structure Next (r : Request) (payloads : List Bytes) (fr : Frame) : Prop where
  major : fr.major = r.channel.major
  said : r.payload (payloads ≠ []) = .ok fr.payload

/-- What a segment that starts in the session `s` leaves of a task. -/
inductive Leaves (env : Env) (s : Session) (r : Request) (payloads : List Bytes) : Task → Prop
  | failed {task o} : task.pc = .finished o → ¬o.Succeeds → Leaves env s r payloads task
  | yielded {task o} : task.request = some r → task.pc = .finished o → Yields env r payloads o →
      Leaves env s r payloads task
  | slept {task} : task.pc = .quiet → Collected r payloads task → Leaves env s r payloads task
  | sent {task n fr} : task.pc = .awaiting n s.allocSeq.2 → task.lastRequest = some (fr, n) →
      fr.sequence = s.allocSeq.2 → Next r payloads fr → Collected r payloads task →
      Leaves env s r payloads task

section Segments

variable (env : Env) (now : ℚ) {s : Session} {task : Task} {r : Request} {payloads : List Bytes}

/-- What a task leaves that sends its request. -/
theorem sendRequest_leaves (h : Collected r payloads task) :
    Leaves env s r payloads (sendRequest env s task r).2 := by
  unfold sendRequest
  dsimp only
  split
  · rename_i o hpayload
    refine .failed rfl ?_
    cases r with
    | xml commandId timeout attrs =>
        unfold Request.payload at hpayload
        dsimp only at hpayload
        split at hpayload <;> cases hpayload
        exact id
    | binary op targetId timeout => cases hpayload
  · rename_i payload hpayload
    split
    · exact .failed rfl id
    · refine .sent rfl rfl rfl ⟨rfl, ?_⟩
        ⟨h.request, h.assembler, h.rounds, h.few, h.bin⟩
      have hrounds : decide (task.rounds ≠ 0) = decide (payloads ≠ []) := by
        simp [h.rounds]
      rw [← hrounds]
      exact hpayload

/-- What a task leaves that waits to send. -/
theorem waitToSend_leaves (h : Collected r payloads task) :
    Leaves env s r payloads (waitToSend env now s task r).2 := by
  unfold waitToSend
  split
  · split
    · exact .failed rfl id
    · exact .slept rfl ⟨h.request, h.assembler, h.rounds, h.few, h.bin⟩
  · split
    · exact .failed rfl id
    · exact sendRequest_leaves env h

/-- A command begins without a reply. -/
theorem enterCommand_leaves (hr : task.request = some r) :
    Leaves env s r [] (enterCommand env now s task r).2 := by
  unfold enterCommand
  split
  · exact .failed rfl id
  · exact waitToSend_leaves env now ⟨hr, rfl, rfl, by decide, fun _ => rfl⟩

/-- What a task leaves that has slept. -/
theorem wakeQuiet_leaves (h : Collected r payloads task) :
    Leaves env s r payloads (wakeQuiet env now s task r).2 := by
  unfold wakeQuiet
  split
  · exact .failed rfl id
  · split
    · exact .failed rfl id
    · exact waitToSend_leaves env now h

/-- What the assembler gives is all it has been fed. -/
theorem assemble_cases {buf payload rest : Bytes} {whole : Option Bytes}
    (h : assemble buf payload = .ok (rest, whole)) :
    whole = none ∧ rest = buf ++ payload.drop 1 ∨ whole = some (buf ++ payload.drop 1) := by
  unfold assemble at h
  cases payload with
  | nil =>
      cases h
      exact .inl ⟨rfl, (List.append_nil _).symm⟩
  | cons marker piece =>
      dsimp only at h
      split at h
      · cases h
      · split at h
        · cases h
          exact .inr rfl
        · cases h
          exact .inl ⟨rfl, rfl⟩

/-- **A reply is one more round.** -/
theorem handleReply_leaves (h : Collected r payloads task) (payload : Bytes) :
    Leaves env s r (payloads ++ [payload]) (handleReply env now s task r payload).2 := by
  unfold handleReply
  cases r with
  | xml commandId timeout attrs =>
      dsimp only
      split
      · exact .failed rfl id
      · rename_i assembled hassemble
        have hwhole : assembled = bodies (payloads ++ [payload]) := by
          rw [bodies_append, ← h.assembler]
          obtain ⟨hnone, -⟩ | hsome := assemble_cases hassemble
          · cases hnone
          · exact Option.some.inj hsome
        split
        · rename_i reply hparse
          refine .yielded h.request rfl (.parsed ?_ (hwhole ▸ hparse))
          have hfew := h.few
          rw [List.length_append, List.length_singleton]
          omega
        · exact .failed rfl id
        · exact .failed rfl id
      · rename_i buf hassemble
        split
        · rename_i hmore
          apply waitToSend_leaves
          refine ⟨h.request, ?_, ?_, ?_, nofun⟩
          · rw [bodies_append, ← h.assembler]
            obtain ⟨-, hbuf⟩ | hsome := assemble_cases hassemble
            · exact hbuf
            · cases hsome
          · rw [List.length_append, ← h.rounds]
            rfl
          · rw [List.length_append, ← h.rounds]
            exact hmore
        · exact .failed rfl id
  | binary op targetId timeout =>
      rw [h.bin rfl]
      dsimp only
      split
      · exact .failed rfl id
      · rename_i code rest
        split
        · exact .failed rfl id
        · rename_i hcode
          rw [not_not] at hcode
          rw [hcode]
          exact .yielded h.request rfl .accepted

/-- The task wakes up with the payload of its future, or gives up. -/
theorem wakeAwaiting_leaves (h : Collected r payloads task) (n : ℕ) (q : ℤ) :
    (∃ o, (wakeAwaiting env now s task r n q).2.pc = .finished o ∧ ¬o.Succeeds) ∨
    ∃ payload, s.payloadOf n = some payload ∧
      Leaves env (s.unregister r.channel q) r (payloads ++ [payload])
        (wakeAwaiting env now s task r n q).2 := by
  unfold wakeAwaiting Session.payloadOf
  dsimp only
  by_cases hcancel : task.cancelRequested = true
  · rw [if_pos hcancel]
    exact .inl ⟨_, rfl, id⟩
  rw [if_neg hcancel]
  by_cases hexpired : task.expired = true
  · rw [if_pos hexpired]
    exact .inl ⟨_, rfl, id⟩
  rw [if_neg hexpired]
  cases (s.futures[n]?).map Future.state with
  | none => exact .inl ⟨_, rfl, id⟩
  | some state =>
      cases state with
      | result payload => exact .inr ⟨payload, rfl, handleReply_leaves env now h payload⟩
      | pending => exact .inl ⟨_, rfl, id⟩
      | failed e => exact .inl ⟨_, rfl, id⟩
      | cancelled => exact .inl ⟨_, rfl, id⟩

end Segments

/-! ## Rounds -/

/-- What holds of each element of a list at its place. -/
theorem forall_getElem?_snoc {α : Type} {P : ℕ → α → Prop} {l : List α} {y : α}
    (h : ∀ i x, l[i]? = some x → P i x) (hy : P l.length y) (i : ℕ) (x : α)
    (hx : (l ++ [y])[i]? = some x) : P i x := by
  by_cases hi : i < l.length
  · rw [List.getElem?_append_left hi] at hx
    exact h i x hx
  · rw [List.getElem?_append_right (not_lt.mp hi)] at hx
    obtain ⟨hzero, rfl⟩ := List.getElem?_eq_some_iff.mp hx
    rw [List.length_singleton] at hzero
    obtain rfl : i = l.length := by omega
    simpa using hy

/-- A round of a command: its request, the future of that, and the payload of the reply. -/
structure Round where
  request : Frame
  future : ℕ
  payload : Bytes

/-- The rounds of the command `r` so far. -/
structure Rounds (s : Session) (r : Request) (rounds : List Round) : Prop where
  standing : ∀ x ∈ rounds, Standing s x.request x.future
  given : ∀ x ∈ rounds, s.payloadOf x.future = some x.payload
  major : ∀ x ∈ rounds, x.request.major = r.channel.major
  said : ∀ (i : ℕ) (x : Round), rounds[i]? = some x → r.payload (i ≠ 0) = .ok x.request.payload
  increasing : rounds.Pairwise fun x y => x.request.sequence < y.request.sequence

section Rounds

variable {env : Env} {s s' : Session} {task task' : Task} {r : Request} {rounds : List Round}

/-- No rounds are rounds of any request. -/
theorem rounds_nil : Rounds s r [] :=
  ⟨by simp, by simp, by simp, by simp, List.Pairwise.nil⟩

/-- Rounds stay as they are when the session goes on. -/
theorem Rounds.later (h : Rounds s r rounds) (hlater : Later s s') : Rounds s' r rounds :=
  ⟨fun x hx => (h.standing x hx).later hlater, fun x hx => hlater.payloadOf (h.given x hx),
    h.major, h.said, h.increasing⟩

/-- **One more round.** -/
theorem Rounds.snoc (h : Rounds s r rounds) {fr : Frame} {n : ℕ} {payload : Bytes}
    (hstanding : Standing s fr n) (hgiven : s.payloadOf n = some payload)
    (hnext : Next r (rounds.map Round.payload) fr)
    (hbehind : ∀ x ∈ rounds, x.request.sequence < fr.sequence) :
    Rounds s r (rounds ++ [⟨fr, n, payload⟩]) := by
  refine ⟨?_, ?_, ?_, fun i x hx => ?_, ?_⟩
  · exact List.forall_mem_append.mpr ⟨h.standing, List.forall_mem_singleton.mpr hstanding⟩
  · exact List.forall_mem_append.mpr ⟨h.given, List.forall_mem_singleton.mpr hgiven⟩
  · exact List.forall_mem_append.mpr ⟨h.major, List.forall_mem_singleton.mpr hnext.major⟩
  · exact forall_getElem?_snoc h.said (by simpa using hnext.said) i x hx
  · rw [List.pairwise_append]
    refine ⟨h.increasing, List.pairwise_singleton _ _, fun x hx y hy => ?_⟩
    rw [List.mem_singleton.mp hy]
    exact hbehind x hx

/-- A command that is on its way, or has ended with success, has its rounds. -/
structure Gathered (env : Env) (s : Session) (task : Task) : Prop where
  going : task.pc.InCommand → ∃ r rounds, Rounds s r rounds ∧
    Collected r (rounds.map Round.payload) task ∧
    ∀ n q, task.pc = .awaiting n q → ∃ fr, task.lastRequest = some (fr, n) ∧
      Next r (rounds.map Round.payload) fr ∧ ∀ x ∈ rounds, x.request.sequence < fr.sequence
  ended : ∀ o, task.pc = .finished o → o.Succeeds → ∃ r rounds, task.request = some r ∧
    Rounds s r rounds ∧ Yields env r (rounds.map Round.payload) o

/-- A task that has not started has gathered nothing. -/
theorem gathered_of_idle (hpc : task.pc = .idle ∨ task.pc = .lockWait) : Gathered env s task := by
  constructor
  · intro hgoing
    obtain hpc | hpc := hpc <;> rw [hpc] at hgoing <;> exact hgoing.elim
  · intro o hend
    obtain hpc | hpc := hpc <;> rw [hpc] at hend <;> cases hend

/-- Of a task that ends in failure nothing is said. -/
theorem gathered_of_fails {o : Outcome} (hpc : task.pc = .finished o) (ho : ¬o.Succeeds) :
    Gathered env s task := by
  constructor
  · intro hgoing
    rw [hpc] at hgoing
    exact hgoing.elim
  · intro o' hend hsuccess
    rw [hpc, Pc.finished.injEq] at hend
    exact absurd hsuccess (hend ▸ ho)

/-- A task that has not run. -/
theorem Gathered.later {a : Action} {t : ℕ} (h : Gathered env s task) (hlater : Later s s')
    (hsame : SameTask a t task task') : Gathered env s' task' := by
  constructor
  · intro hgoing
    rw [hsame.pc] at hgoing
    obtain ⟨r, rounds, hrounds, hcollected, hawaiting⟩ := h.going hgoing
    refine ⟨r, rounds, hrounds.later hlater, ?_, fun n q hpc => ?_⟩
    · exact ⟨hsame.request.trans hcollected.request, hsame.assembler.trans hcollected.assembler,
        hsame.rounds.trans hcollected.rounds, hcollected.few, hcollected.bin⟩
    · rw [hsame.pc] at hpc
      rw [hsame.lastRequest]
      exact hawaiting n q hpc
  · intro o hend hsuccess
    rw [hsame.pc] at hend
    obtain ⟨r, rounds, hr, hrounds, hyields⟩ := h.ended o hend hsuccess
    exact ⟨r, rounds, hsame.request.trans hr, hrounds.later hlater, hyields⟩

/-- **A segment goes on with the rounds**, when its request comes behind them. -/
theorem gathered_of_leaves {s₀ : Session} (hrounds : Rounds s r rounds)
    (hbehind : ∀ x ∈ rounds, x.request.sequence < s₀.allocSeq.2)
    (hleaves : Leaves env s₀ r (rounds.map Round.payload) task) : Gathered env s task := by
  cases hleaves with
  | failed hpc ho => exact gathered_of_fails hpc ho
  | yielded hr hpc hyields =>
      constructor
      · intro hgoing
        rw [hpc] at hgoing
        exact hgoing.elim
      · intro o hend _
        rw [hpc, Pc.finished.injEq] at hend
        exact ⟨r, rounds, hr, hrounds, hend ▸ hyields⟩
  | slept hpc hcollected =>
      constructor
      · intro _
        refine ⟨r, rounds, hrounds, hcollected, fun n q hawaiting => ?_⟩
        rw [hpc] at hawaiting
        cases hawaiting
      · intro o hend
        rw [hpc] at hend
        cases hend
  | sent hpc hlast hseq hnext hcollected =>
      constructor
      · intro _
        refine ⟨r, rounds, hrounds, hcollected, fun n q hawaiting => ?_⟩
        rw [hpc, Pc.awaiting.injEq] at hawaiting
        obtain ⟨rfl, -⟩ := hawaiting
        exact ⟨_, hlast, hnext, fun x hx => hseq ▸ hbehind x hx⟩
      · intro o hend
        rw [hpc] at hend
        cases hend

end Rounds

/-! ## Steps -/

section Steps

variable {env : Env} {w w' : World} {a : Action} {t : ℕ}

/-- **Every step keeps the rounds of the commands**, short of the wrap. -/
theorem gathered_step (hn : Numbered w) (h : Gathered env w.sess (w.tasks t))
    (hfrom : ∀ f, a = .dispatch f → FromWire f)
    (hwrap : a.FromApp = true → w.sess.nextSeq ≠ 0xFFFFFFFF) (hstep : w.step env a = some w') :
    Gathered env w'.sess (w'.tasks t) := by
  have hlater := step_later hn.numbering hfrom hwrap hstep
  by_cases ha : a.Moves t
  · have happ : a.FromApp = true := by
      obtain rfl | ⟨cmd, rfl⟩ := ha <;> rfl
    have halloc := (hn.numbering.allocSeq (hwrap happ)).1
    have hupdate {task : Task} (htask : Gathered env w'.sess task) :
        Gathered env w'.sess (Function.update w.tasks t task t) := by
      rw [Function.update_self]
      exact htask
    -- a segment that starts with these rounds, at the same number
    have hsegment {r : Request} {rounds : List Round} {s : Session} {task : Task}
        (hrounds : Rounds w.sess r rounds) (hseq : s.allocSeq.2 = w.sess.allocSeq.2)
        (hleaves : Leaves env s r (rounds.map Round.payload) task) : Gathered env w'.sess task := by
      refine gathered_of_leaves (hrounds.later hlater) (fun x hx => ?_) hleaves
      rw [hseq]
      exact (hrounds.standing x hx).le.trans_lt halloc
    obtain rfl | ⟨cmd, rfl⟩ := ha
    · simp only [World.step, World.resume] at hstep
      split at hstep
      · rename_i r hpc hr
        split at hstep
        · cases hstep
          exact hupdate (gathered_of_fails rfl id)
        · split at hstep
          · cases hstep
            refine hupdate (hsegment rounds_nil ?_ (enterCommand_leaves env w.now hr))
            rfl
          · cases hstep
      · rename_i r hpc hr
        cases hstep
        obtain ⟨r', rounds, hrounds, hcollected, -⟩ := h.going (hpc ▸ trivial)
        obtain rfl : r' = r := Option.some.inj (hcollected.request.symm.trans hr)
        exact hupdate (hsegment hrounds rfl (wakeQuiet_leaves env w.now hcollected))
      · rename_i n q r hpc hr
        split at hstep
        · cases hstep
        · cases hstep
          obtain ⟨r', rounds, hrounds, hcollected, hawaiting⟩ := h.going (hpc ▸ trivial)
          obtain rfl : r' = r := Option.some.inj (hcollected.request.symm.trans hr)
          obtain ⟨fr, hlast, hnext, hbehind⟩ := hawaiting n q hpc
          have hseq : (w.sess.unregister r'.channel q).allocSeq.2 = w.sess.allocSeq.2 := by
            cases r'.channel <;> rfl
          obtain ⟨o, hend, ho⟩ | ⟨payload, hgiven, hleaves⟩ :=
            wakeAwaiting_leaves env w.now hcollected n q
          · exact hupdate (gathered_of_fails hend ho)
          · have hmore := hrounds.snoc (hn.standing t fr n hlast) hgiven hnext hbehind
            refine hupdate (hsegment hmore hseq ?_)
            rw [List.map_append]
            exact hleaves
      · cases hstep
    · simp only [World.step] at hstep
      split at hstep
      · have hcall := Option.some.inj hstep
        unfold World.call at hcall
        split at hcall
        · subst hcall
          exact hupdate (gathered_of_fails rfl id)
        · dsimp only at hcall
          split at hcall
          · subst hcall
            refine hupdate (hsegment rounds_nil ?_ (enterCommand_leaves env w.now ?_)) <;> rfl
          · subst hcall
            exact hupdate (gathered_of_idle (.inr rfl))
      · cases hstep
  · exact h.later hlater (step_other hstep ha)

end Steps

/-! ## The handler -/

/-- The numbers of a session, and the rounds of its commands. -/
structure Told (env : Env) (w : World) : Prop where
  numbered : Numbered w
  gathered : ∀ t, Gathered env w.sess (w.tasks t)

/-- On a new session no task has been told anything. -/
theorem told_new (env : Env) (panelId receiverId : ℤ) (key : Option Bytes) (now : ℚ) :
    Told env (World.new panelId receiverId key now) :=
  ⟨numbered_new panelId receiverId key now, fun _ => gathered_of_idle (.inl rfl)⟩

/-- **Every step of the handler keeps numbers and rounds**, short of the wrap. -/
theorem Handler.told_step {env : Env} {server : PanelServer} {h h' : Handler} {a : HandlerAction}
    (ho : Handler.Orderly env server h) (ht : Told env h.conn.world)
    (hwrap : h.sess.nextSeq ≠ 0xFFFFFFFF) (hstep : h.step server env a = some h') :
    Told env h'.conn.world := by
  apply Handler.step_world ?_ ?_ ho hstep ht
  · intro w a w' hw hfrom happ _ hstep
    have hwrap' : a.FromApp = true → w.sess.nextSeq ≠ 0xFFFFFFFF := by
      intro ha
      rw [happ ha]
      exact hwrap
    exact ⟨hw.numbered.step hfrom hwrap' hstep,
      fun t => gathered_step hw.numbered (hw.gathered t) hfrom hwrap' hstep⟩
  · intro w panelId new hw hnew
    have hlater := later_relabel hw.numbered.numbering.lt panelId hnew
    have hsame (t : ℕ) : SameTask .write t (w.tasks t) (w.tasks t) := .refl _ nofun nofun
    exact ⟨hw.numbered.relabel panelId hnew, fun t => (hw.gathered t).later hlater (hsame t)⟩

end Spcedp.Client
