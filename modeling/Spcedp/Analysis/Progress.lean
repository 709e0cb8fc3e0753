import Spcedp.Analysis.Exchange

/-!
# An exchange comes to its end

From every state that an exchange reaches, it can go on to its end (`leads_to_end`): whoever
is before the command in the queue for the lock can be stopped, the write queue drains, the
panel falls quiet and answers, and each answer leaves fewer pieces.
-/

set_option autoImplicit false

namespace Spcedp.Client

open Lib.FairLock Lib.Transition Spcedp.PyText Spcedp.Wire Spcedp.Xmlcmd

/-! ## A session that is ready for a request -/

/-- The panel is quiet, and there is room on the queue. -/
structure Ready (w : World) : Prop where
  quiet : w.sess.lastReceived + commandQuietTime ≤ w.now
  room : w.sess.writeQueue = []

section Segments

variable {env : Env} {commandId : Text} {timeout : ℚ} {body b : Bytes} {reply : XmlReply}
  {pieces : List Bytes} {t : ℕ} {now : ℚ} {s : Session} {task : Task}

/-- With room on the queue a request is sent, and the session stays open. -/
theorem sendRequest_ready (timeout : ℚ) (task : Task)
    (hset : Setting env commandId body b reply pieces) (hkey : ∀ k ∈ s.key, k.length = 16)
    (hroom : s.writeQueue = []) :
    (sendRequest env s task (.xml commandId timeout [])).1.closed = s.closed ∧
      ∃ n q last, (sendRequest env s task (.xml commandId timeout [])).2 =
        { task with pc := .awaiting n q, lastRequest := last } := by
  obtain ⟨payload, s', -, hres, hseg⟩ := sendRequest_sends timeout task hset hkey
  rw [hseg]
  refine ⟨?_, _, _, _, rfl⟩
  obtain ⟨data, f', -, ⟨hfull, -⟩ | ⟨-, warned, rfl⟩⟩ := Session.send_cases hres
  · have hfull : writeQueueMaxsize ≤ s.writeQueue.length := hfull
    rw [hroom] at hfull
    exact absurd hfull (by decide)
  · rfl

/-- On an open session that is quiet and has room, the request is sent and awaited. -/
theorem waitToSend_ready (timeout : ℚ) (task : Task)
    (hset : Setting env commandId body b reply pieces) (hkey : ∀ k ∈ s.key, k.length = 16)
    (hclosed : s.closed = false) (hquiet : s.lastReceived + commandQuietTime ≤ now)
    (hroom : s.writeQueue = []) :
    (waitToSend env now s task (.xml commandId timeout [])).1.closed = false ∧
      ∃ n q last, (waitToSend env now s task (.xml commandId timeout [])).2 =
        { task with pc := .awaiting n q, lastRequest := last } := by
  rw [waitToSend_of_sendable ⟨hclosed, hquiet⟩]
  obtain ⟨hopen, hsent⟩ := sendRequest_ready timeout task hset hkey hroom
  exact ⟨hopen.trans hclosed, hsent⟩

/-- A command that handles a piece ends, or sends the request for the next one. -/
theorem handleReply_ready (marker : UInt8) {piece : Bytes}
    (hset : Setting env commandId body b reply pieces) (hkey : ∀ k ∈ s.key, k.length = 16)
    (hclosed : s.closed = false) (hquiet : s.lastReceived + commandQuietTime ≤ now)
    (hroom : s.writeQueue = []) (hgoing : Going commandId timeout pieces task)
    (hpiece : pieces[task.rounds]? = some piece) :
    let seg := handleReply env now s task (.xml commandId timeout []) (marker :: piece)
    seg.1.closed = false ∧ ((∃ o, seg.2.pc = .finished o) ∨
      (∃ n q, seg.2.pc = .awaiting n q) ∧ seg.2.rounds = task.rounds + 1) := by
  intro seg
  generalize hseg : seg = seg'
  unfold seg handleReply at hseg
  dsimp only at hseg
  rw [hgoing.assembler] at hseg
  obtain hlast | hmiddle : task.rounds + 1 = pieces.length ∨ task.rounds + 1 < pieces.length := by
    have hmore := hgoing.more
    omega
  · rw [assemble_last hset.cut hset.tag hset.size hpiece marker hlast] at hseg
    dsimp only at hseg
    rw [hset.parsed] at hseg
    subst hseg
    exact ⟨hclosed, .inl ⟨_, rfl⟩⟩
  · rw [assemble_middle hset.cut hset.tag hset.size hpiece marker hmiddle] at hseg
    dsimp only at hseg
    split at hseg
    · obtain ⟨hopen, n, q, last, htask⟩ := waitToSend_ready timeout
        { task with
          assembler := (pieces.take (task.rounds + 1)).flatten
          rounds := task.rounds + 1
          expired := false } hset hkey hclosed hquiet hroom
      rw [hseg] at hopen htask
      exact ⟨hopen, .inr ⟨⟨n, q, by rw [htask]⟩, by rw [htask]⟩⟩
    · subst hseg
      exact ⟨hclosed, .inl ⟨_, rfl⟩⟩

end Segments

/-! ## What can follow -/

/-- The exchange can go on from `w` to `w'`. -/
def Leads (env : Env) (commandId : Text) (timeout : ℚ) (pieces : List Bytes) (t : ℕ)
    (w w' : World) : Prop :=
  ∃ as, Conforms (World.step env) (Serves commandId timeout pieces t) w as w'

section Worlds

variable {env : Env} {key : Key} {commandId : Text} {timeout : ℚ} {body b : Bytes}
  {reply : XmlReply} {pieces : List Bytes} {t : ℕ} {w w' w'' : World}

/-- Every world leads to itself. -/
theorem Leads.refl : Leads env commandId timeout pieces t w w := ⟨[], .nil⟩

/-- Two rows of steps that serve the task, one after the other. -/
theorem Leads.trans (h : Leads env commandId timeout pieces t w w')
    (h' : Leads env commandId timeout pieces t w' w'') :
    Leads env commandId timeout pieces t w w'' := by
  obtain ⟨as, h⟩ := h
  obtain ⟨bs, h'⟩ := h'
  exact ⟨as ++ bs, h.trans h'⟩

/-- One step that serves the task. -/
theorem Leads.single {a : Action} (hstep : w.step env a = some w')
    (hserves : Serves commandId timeout pieces t w a w') :
    Leads env commandId timeout pieces t w w' := ⟨[a], .single hstep hserves⟩

/-- What serves the task keeps its exchange in order. -/
theorem Leads.serviced (h : Leads env commandId timeout pieces t w w')
    (hset : Setting env commandId body b reply pieces)
    (hw : Serviced key.val commandId timeout body reply pieces t w) :
    Serviced key.val commandId timeout body reply pieces t w' := by
  obtain ⟨as, h⟩ := h
  exact h.invariant (fun _ _ _ hw hstep hserves => serviced_step hset hw hstep hserves) hw

/-- A command inside the lock is on its way. -/
theorem Serviced.going (hw : Serviced key.val commandId timeout body reply pieces t w)
    (hpc : (w.tasks t).pc.InCommand) : Going commandId timeout pieces (w.tasks t) := by
  cases hw.stage with
  | quiet _ hgoing => exact hgoing
  | awaiting _ hgoing => exact hgoing
  | idle h => simp [h, Pc.InCommand] at hpc
  | lockWait h => simp [h, Pc.InCommand] at hpc
  | finished h => simp [h, Pc.InCommand] at hpc

/-- A task may run whenever it can. -/
theorem Leads.resume {u : ℕ} (hstep : w.step env (.resume u) = some w')
    (hopen : w'.sess.closed = false) : Leads env commandId timeout pieces t w w' :=
  .single hstep ⟨hopen, by simp, by simp, by simp, by simp, by simp⟩

/-- The queue drains. -/
theorem leads_drain (hopen : w.sess.closed = false) : Leads env commandId timeout pieces t w
    { w with sess := { w.sess with writeQueue := [] } } := by
  induction hqueue : w.sess.writeQueue generalizing w with
  | nil =>
      rw [← hqueue]
      exact .refl
  | cons data rest ih =>
      have hstep : w.step env .write =
          some { w with sess := { w.sess with writeQueue := rest } } := by
        simp only [World.step, hqueue]
      have hserves : Serves commandId timeout pieces t w .write
          { w with sess := { w.sess with writeQueue := rest } } :=
        ⟨hopen, by simp, by simp, by simp, by simp, by simp⟩
      exact (Leads.single hstep hserves).trans (ih hopen rfl)

/-- **The session can become ready.** -/
theorem leads_ready (hopen : w.sess.closed = false) : ∃ w',
    Leads env commandId timeout pieces t w w' ∧ Ready w' ∧ w'.tasks = w.tasks ∧
      w'.sess.futures = w.sess.futures := by
  let w₁ : World := { w with sess := { w.sess with writeQueue := [] } }
  let d : ℚ := max 0 (w.sess.lastReceived + commandQuietTime - w.now)
  let w₂ : World := { w₁ with
    sess := { w₁.sess with log := w₁.sess.log ++ [.ticked d] }
    now := w₁.now + d }
  have hstep : w₁.step env (.tick d) = some w₂ := by
    simp only [World.step]
    rw [if_pos (le_max_left _ _)]
  have hserves : Serves commandId timeout pieces t w₁ (.tick d) w₂ :=
    ⟨hopen, by simp, by simp, by simp, by simp, by simp⟩
  refine ⟨w₂, (leads_drain hopen).trans (.single hstep hserves), ⟨?_, rfl⟩, rfl, rfl⟩
  show w.sess.lastReceived + commandQuietTime ≤ w.now + d
  have hd : w.sess.lastReceived + commandQuietTime - w.now ≤ d := le_max_right _ _
  linarith

/-- The reply to the request with the number `q`. -/
def pieceFrame (q : ℤ) (piece : Bytes) : Frame where
  srcId := 0
  dstId := 0
  sequence := q
  major := Channel.xml.major
  minor := Channel.xml.replyMinor
  payload := fragFirst :: piece

/-- A reply that finds its request registered. -/
theorem dispatch_pieceFrame (aes : AesEcb) (now : ℚ) (piece : Bytes) {s : Session} {n : ℕ} {q : ℤ}
    (hlookup : (s.pendingOf .xml).lookup q = some n) :
    ((s.dispatch aes now (pieceFrame q piece)).1.closed = s.closed) ∧
    (s.dispatch aes now (pieceFrame q piece)).1.futures =
      complete s.futures n (.result (fragFirst :: piece)) := by
  have hreply : IsReply .xml (pieceFrame q piece) := ⟨rfl, rfl⟩
  have hlookup : ((s.received now (pieceFrame q piece)).pendingOf .xml).lookup
      (pieceFrame q piece).sequence = some n := hlookup
  rw [Session.dispatch_reply hreply]
  unfold Session.dispatchReply
  rw [hlookup]
  exact ⟨rfl, rfl⟩

/-- **The panel can answer.** -/
theorem leads_answer (hw : Serviced key.val commandId timeout body reply pieces t w) {n : ℕ} {q : ℤ}
    (hpc : (w.tasks t).pc = .awaiting n q) : ∃ w' marker piece,
      Leads env commandId timeout pieces t w w' ∧ w'.tasks = w.tasks ∧
      pieces[(w.tasks t).rounds]? = some piece ∧
      w'.sess.payloadOf n = some (marker :: piece) := by
  have hstage := hw.stage
  cases hstage with
  | idle h => simp [hpc] at h
  | lockWait h => simp [hpc] at h
  | quiet h => simp [hpc] at h
  | finished h => simp [hpc] at h
  | @awaiting n' q' h hgoing hsent hfuture =>
      rw [hpc, Pc.awaiting.injEq] at h
      obtain ⟨rfl, rfl⟩ := h
      obtain ⟨r, hr, -, f, hf, hfc, hfq, hreg⟩ := hw.coherent.inv.awaited t n q hpc
      obtain hstate | ⟨marker, piece, hpiece, hstate⟩ := hfuture f hf
      · have hxml : r.channel = .xml := by
          rw [hgoing.request, Option.some.injEq] at hr
          rw [← hr]
          rfl
        have hlookup := hreg hstate
        rw [hxml] at hlookup
        obtain ⟨piece, hpiece⟩ : ∃ piece, pieces[(w.tasks t).rounds]? = some piece :=
          ⟨_, List.getElem?_eq_getElem hgoing.more⟩
        obtain ⟨hopen, hfutures⟩ := dispatch_pieceFrame env.aes w.now piece hlookup
        refine ⟨{ w with sess := (w.sess.dispatch env.aes w.now (pieceFrame q piece)).1 },
          fragFirst, piece, .single (a := .dispatch (pieceFrame q piece)) rfl ?_, rfl, hpiece, ?_⟩
        · refine ⟨hopen.trans hw.open_, by simp, by simp, by simp, by simp, ?_⟩
          rintro f' n' q' ⟨⟩ - - -
          refine ⟨fragFirst, piece, ?_, rfl⟩
          rwa [hsent, length_requestSeq, Nat.add_sub_cancel]
        · unfold Session.payloadOf
          dsimp only
          rw [hfutures, complete_getElem?, hf]
          simp [hstate]
      · exact ⟨w, marker, piece, .refl, rfl, hpiece, by simp [Session.payloadOf, hf, hstate]⟩

/-- **Each answer leaves fewer pieces**: the command ends, or waits for the next one. -/
theorem leads_round (hset : Setting env commandId body b reply pieces)
    (hw : Serviced key.val commandId timeout body reply pieces t w) {n : ℕ} {q : ℤ}
    (hpc : (w.tasks t).pc = .awaiting n q) : ∃ w', Leads env commandId timeout pieces t w w' ∧
      ((∃ o, (w'.tasks t).pc = .finished o) ∨ (∃ n q, (w'.tasks t).pc = .awaiting n q) ∧
        (w'.tasks t).rounds = (w.tasks t).rounds + 1) := by
  obtain ⟨w₁, marker, piece, hleads₁, htasks₁, hpiece, hgiven⟩ := leads_answer hw hpc
  obtain ⟨w₂, hleads₂, hready, htasks₂, hfutures₂⟩ :=
    leads_ready (hleads₁.serviced hset hw).open_
  have htask : w₂.tasks t = w.tasks t := by rw [htasks₂, htasks₁]
  have hw₂ := (hleads₁.trans hleads₂).serviced hset hw
  have hgiven₂ : w₂.sess.payloadOf n = some (marker :: piece) := by
    rwa [Session.payloadOf, hfutures₂]
  rw [← htask] at hpc hpiece ⊢
  have hgoing := hw₂.going (by rw [hpc]; trivial)
  have hkey : ∀ k ∈ w₂.sess.key, k.length = 16 := hw₂.coherent.key ▸ key.property
  obtain ⟨hopen, hend⟩ := handleReply_ready marker (s := w₂.sess.unregister .xml q)
    hset hkey hw₂.open_ hready.quiet hready.room hgoing hpiece
  have hstep : w₂.step env (.resume t) = _ :=
    resume_answered hpc hgoing.request hw₂.cancelRequested hgoing.expired hgiven₂
  refine ⟨_, hleads₁.trans (hleads₂.trans (.resume hstep ((settle_closed _ _ _).trans hopen))), ?_⟩
  rw [settle_tasks, Function.update_self]
  exact hend

/-- A command that waits for a piece comes to its end. -/
theorem leads_of_awaiting (hset : Setting env commandId body b reply pieces) {m : ℕ} :
    ∀ w, Serviced key.val commandId timeout body reply pieces t w →
      (∃ n q, (w.tasks t).pc = .awaiting n q) → maxXmlFragments - (w.tasks t).rounds = m →
      ∃ w' o, Leads env commandId timeout pieces t w w' ∧ (w'.tasks t).pc = .finished o := by
  induction m with
  | zero =>
      rintro w hw ⟨n, q, hpc⟩ hm
      have hgoing := hw.going (by rw [hpc]; trivial)
      have hfragments := hgoing.fragments
      omega
  | succ m ih =>
      rintro w hw ⟨n, q, hpc⟩ hm
      obtain ⟨w', hleads, ⟨o, ho⟩ | ⟨hpc', hrounds⟩⟩ := leads_round hset hw hpc
      · exact ⟨w', o, hleads, ho⟩
      · obtain ⟨w'', o, hleads', ho⟩ := ih w' (hleads.serviced hset hw) hpc' (by omega)
        exact ⟨w'', o, hleads.trans hleads', ho⟩

/-- A command that waits for the panel to be quiet gets to send its request. -/
theorem leads_of_quiet (hset : Setting env commandId body b reply pieces)
    (hw : Serviced key.val commandId timeout body reply pieces t w)
    (hpc : (w.tasks t).pc = .quiet) : ∃ w', Leads env commandId timeout pieces t w w' ∧
      ∃ n q, (w'.tasks t).pc = .awaiting n q := by
  obtain ⟨w₁, hleads₁, hready, htasks₁, -⟩ :
      ∃ w₁, Leads env commandId timeout pieces t w w₁ ∧ Ready w₁ ∧ w₁.tasks = w.tasks ∧ _ :=
    leads_ready hw.open_
  have hw₁ := hleads₁.serviced hset hw
  rw [← htasks₁] at hpc
  have hgoing := hw₁.going (by rw [hpc]; trivial)
  have hkey : ∀ k ∈ w₁.sess.key, k.length = 16 := hw₁.coherent.key ▸ key.property
  obtain ⟨hopen, n, q, last, htask⟩ :=
    waitToSend_ready timeout (w₁.tasks t) hset hkey hw₁.open_ hready.quiet hready.room
  have hstep : w₁.step env (.resume t) = _ :=
    resume_slept hpc hgoing.request hw₁.cancelRequested hgoing.expired
  refine ⟨_, hleads₁.trans (.resume hstep ((settle_closed _ _ _).trans hopen)), n, q, ?_⟩
  rw [settle_tasks, Function.update_self, htask]

/-! ## The queue for the lock -/

/-- The other tasks that wait for the lock or hold it. -/
def others (w : World) (t : ℕ) : Finset ℕ :=
  (w.sess.commandLock.waiters.map Prod.fst ++ w.sess.commandLock.inside).toFinset.erase t

/-- The others are those that wait for the lock or are in it. -/
theorem mem_others_iff (hinv : Inv w) {u : ℕ} : u ∈ others w t ↔
    u ≠ t ∧ ((w.tasks u).pc = .lockWait ∨ (w.tasks u).pc.InCommand) := by
  rw [← hinv.waits u, ← hinv.inside u]
  simp [others, Lock.Waits]

/-- A task that has been asked to stop ends when it runs; a reply must not be outstanding. -/
theorem resume_cancelled (env : Env) {u : ℕ} {r : Request}
    (hpc : (w.tasks u).pc = .lockWait ∨ (w.tasks u).pc.InCommand)
    (hr : (w.tasks u).request = some r) (hcancel : (w.tasks u).cancelRequested = true)
    (hdone : ∀ n q, (w.tasks u).pc = .awaiting n q →
      (w.sess.futures[n]?).map Future.state ≠ some .pending) :
    ∃ w', w.step env (.resume u) = some w' ∧ w'.sess.closed = w.sess.closed ∧
      ∃ o, (w'.tasks u).pc = .finished o := by
  have hend (s : Session) (task : Task) (hs : s.closed = w.sess.closed)
      (htask : task.pc = .finished .cancelled)
      (hstep : w.step env (.resume u) = some (w.settle u (s, task))) : ∃ w',
        w.step env (.resume u) = some w' ∧ w'.sess.closed = w.sess.closed ∧
        ∃ o, (w'.tasks u).pc = .finished o := by
    refine ⟨_, hstep, (settle_closed _ _ _).trans hs, .cancelled, ?_⟩
    rw [settle_tasks, Function.update_self, htask]
  cases hcase : (w.tasks u).pc with
  | idle => simp [hcase, Pc.InCommand] at hpc
  | finished o => simp [hcase, Pc.InCommand] at hpc
  | lockWait =>
      refine ⟨{ w with
        sess := { w.sess with commandLock := w.sess.commandLock.giveUp u }
        tasks := Function.update w.tasks u { w.tasks u with pc := .finished .cancelled } },
        ?_, rfl, .cancelled, ?_⟩
      · simp only [World.step, World.resume, hcase, hr]
        rw [if_pos hcancel]
      · dsimp only
        rw [Function.update_self]
  | quiet =>
      apply hend w.sess { w.tasks u with pc := .finished .cancelled } rfl rfl
      simp only [World.step, World.resume, hcase, hr]
      unfold wakeQuiet
      rw [if_pos hcancel, hr]
  | awaiting n q =>
      refine hend (w.sess.unregister r.channel q) { w.tasks u with pc := .finished .cancelled }
        ?_ rfl ?_
      · cases r.channel <;> rfl
      · simp only [World.step, World.resume, hcase, hr]
        rw [if_neg (hdone n q hcase)]
        unfold wakeAwaiting Session.unregister
        dsimp only
        rw [if_pos hcancel, hr]

/-- **A task that is cancelled ends** when it runs next. -/
theorem stop_task {u : ℕ} (hw : Coherent key.val w)
    (hpc : (w.tasks u).pc = .lockWait ∨ (w.tasks u).pc.InCommand) : ∃ w₁ w₂,
      w.step env (.cancel u) = some w₁ ∧ w₁.step env (.resume u) = some w₂ ∧
      w₁.sess.closed = w.sess.closed ∧ w₂.sess.closed = w.sess.closed ∧
      ∃ o, (w₂.tasks u).pc = .finished o := by
  obtain ⟨r, hr⟩ := (hw.begun u).request hpc
  let w₁ : World := { w with
    sess := w.interrupt u
    tasks := Function.update w.tasks u { w.tasks u with cancelRequested := true } }
  have htask₁ : w₁.tasks u = { w.tasks u with cancelRequested := true } := by
    simp only [w₁]
    rw [Function.update_self]
  have hstep₁ : w.step env (.cancel u) = some w₁ := by
    simp only [World.step]
    split
    · rfl
    · rfl
    · rfl
    · next h₁ h₂ h₃ => cases hcase : (w.tasks u).pc <;> simp_all [Pc.InCommand]
  have hclosed₁ : w₁.sess.closed = w.sess.closed := by
    simp only [w₁]
    unfold World.interrupt
    split <;> rfl
  -- the future that it waited for is cancelled
  have hdone (n : ℕ) (q : ℤ) (h : (w.tasks u).pc = .awaiting n q) :
      (w₁.sess.futures[n]?).map Future.state ≠ some .pending := by
    have hfutures : w₁.sess.futures = complete w.sess.futures n .cancelled := by
      simp only [w₁, World.interrupt, h]
    rw [hfutures, complete_getElem?, Option.map_map]
    cases w.sess.futures[n]? with
    | none => simp
    | some f => by_cases hf : f.state = .pending <;> simp [hf]
  obtain ⟨w₂, hstep₂, hclosed₂, hend⟩ := resume_cancelled (w := w₁) env (by rwa [htask₁])
    (by rwa [htask₁]) (by rw [htask₁]) fun n q h => hdone n q (by rwa [htask₁] at h)
  exact ⟨w₁, w₂, hstep₁, hstep₂, hclosed₁, hclosed₂.trans hclosed₁, hend⟩

/-- The other tasks can all be stopped. -/
theorem leads_alone (hset : Setting env commandId body b reply pieces) (m : ℕ) :
    ∀ w, Serviced key.val commandId timeout body reply pieces t w →
      (w.tasks t).pc = .lockWait → (others w t).card = m →
      ∃ w', Leads env commandId timeout pieces t w w' ∧ (w'.tasks t).pc = .lockWait ∧
        others w' t = ∅ := by
  induction m using Nat.strong_induction_on with
  | _ m ih =>
      intro w hw hpc hcard
      obtain hnone | ⟨u, hu⟩ := (others w t).eq_empty_or_nonempty
      · exact ⟨w, .refl, hpc, hnone⟩
      obtain ⟨hne, hbusy⟩ := (mem_others_iff hw.coherent.inv).mp hu
      obtain ⟨w₁, w₂, hstep₁, hstep₂, hclosed₁, hclosed₂, o, hend⟩ :=
        stop_task hw.coherent hbusy
      have hcancel : Action.cancel u ≠ .cancel t := by simpa using hne
      have hleads₁ : Leads env commandId timeout pieces t w w₁ :=
        .single hstep₁ ⟨hclosed₁.trans hw.open_, by simp, hcancel, by simp, by simp, by simp⟩
      have hleads : Leads env commandId timeout pieces t w w₂ :=
        hleads₁.trans (.resume hstep₂ (hclosed₂.trans hw.open_))
      have hw₂ := hleads.serviced hset hw
      have hsame {v : ℕ} (hv : v ≠ u) : (w₂.tasks v).pc = (w.tasks v).pc := by
        have hmoves₁ : ¬(Action.cancel u).Moves v := by simp [Action.Moves]
        have hmoves₂ : ¬(Action.resume u).Moves v := by simp [Action.Moves, Ne.symm hv]
        rw [(step_other hstep₂ hmoves₂).pc, (step_other hstep₁ hmoves₁).pc]
      have hfewer : others w₂ t ⊂ others w t := by
        rw [Finset.ssubset_iff_of_subset]
        · refine ⟨u, hu, ?_⟩
          rw [mem_others_iff hw₂.coherent.inv, hend]
          simp [Pc.InCommand]
        · intro v hv
          rw [mem_others_iff hw₂.coherent.inv] at hv
          have hvu : v ≠ u := by
            rintro rfl
            rw [hend] at hv
            simp [Pc.InCommand] at hv
          rw [hsame hvu] at hv
          exact (mem_others_iff hw.coherent.inv).mpr hv
      have hlt := Finset.card_lt_card hfewer
      obtain ⟨w', hleads', h⟩ := ih _ (by omega) w₂ hw₂ (by rw [hsame (Ne.symm hne), hpc]) rfl
      exact ⟨w', hleads.trans hleads', h⟩

/-- **A command that waits for the lock gets it**, and sends its first request. -/
theorem leads_of_lockWait (hset : Setting env commandId body b reply pieces)
    (hw : Serviced key.val commandId timeout body reply pieces t w)
    (hpc : (w.tasks t).pc = .lockWait) : ∃ w', Leads env commandId timeout pieces t w w' ∧
      ∃ n q, (w'.tasks t).pc = .awaiting n q := by
  obtain ⟨w₁, hleads₁, hpc₁, halone⟩ := leads_alone hset _ w hw hpc rfl
  have hw₁ := hleads₁.serviced hset hw
  obtain ⟨w₂, hleads₂, hready, htasks₂, -⟩ :
      ∃ w₂, Leads env commandId timeout pieces t w₁ w₂ ∧ Ready w₂ ∧ w₂.tasks = w₁.tasks ∧ _ :=
    leads_ready hw₁.open_
  have hw₂ := hleads₂.serviced hset hw₁
  have hinv := hw₂.coherent.inv
  have hpc₂ : (w₂.tasks t).pc = .lockWait := by rw [htasks₂, hpc₁]
  have hidle (u : ℕ) (hne : u ≠ t) :
      ¬((w₂.tasks u).pc = .lockWait ∨ (w₂.tasks u).pc.InCommand) := by
    intro hbusy
    rw [htasks₂] at hbusy
    have hmem := (mem_others_iff hw₁.coherent.inv).mpr ⟨hne, hbusy⟩
    rw [halone] at hmem
    exact absurd hmem (Finset.notMem_empty u)
  have hwoken : (t, Waiter.woken) ∈ w₂.sess.commandLock.waiters := by
    apply hinv.lock.woken_of_alone hw₂.coherent.awake hw₂.sleeps
    · rw [List.eq_nil_iff_forall_not_mem]
      intro u hu
      rw [hinv.inside u] at hu
      obtain rfl | hne := eq_or_ne u t
      · rw [hpc₂] at hu
        exact hu
      · exact hidle u hne (.inr hu)
    · exact (hinv.waits t).mpr hpc₂
    · intro u hu
      by_contra hne
      exact hidle u hne (.inl ((hinv.waits u).mp hu))
  have hrequest : (w₂.tasks t).request = some (.xml commandId timeout []) := by
    cases hw₂.stage with
    | lockWait _ hrequest => exact hrequest
    | idle h => simp [hpc₂] at h
    | quiet h => simp [hpc₂] at h
    | awaiting h => simp [hpc₂] at h
    | finished h => simp [hpc₂] at h
  let s : Session := { w₂.sess with commandLock := w₂.sess.commandLock.enter t }
  have hkey : ∀ k ∈ s.key, k.length = 16 := hw₂.coherent.key ▸ key.property
  obtain ⟨hopen, n, q, last, htask⟩ := waitToSend_ready timeout
    { w₂.tasks t with assembler := [], rounds := 0, expired := false } (s := s) hset hkey hw₂.open_
    hready.quiet hready.room
  have hstep : w₂.step env (.resume t) = some (w₂.settle t (waitToSend env w₂.now s
      { w₂.tasks t with assembler := [], rounds := 0, expired := false }
      (.xml commandId timeout []))) := by
    rw [resume_woken hpc₂ hrequest hw₂.cancelRequested hwoken]
    exact congrArg (fun seg => some (w₂.settle t seg)) (enterCommand_open hw₂.open_)
  refine ⟨_, hleads₁.trans (hleads₂.trans (.resume hstep ((settle_closed _ _ _).trans hopen))),
    n, q, ?_⟩
  rw [settle_tasks, Function.update_self, htask]

/-- **An exchange comes to its end.** -/
theorem leads_to_end (hset : Setting env commandId body b reply pieces)
    (hw : Serviced key.val commandId timeout body reply pieces t w)
    (hpc : (w.tasks t).pc ≠ .idle) :
    ∃ w' o, Leads env commandId timeout pieces t w w' ∧ (w'.tasks t).pc = .finished o := by
  have hturn (h : ∃ w', Leads env commandId timeout pieces t w w' ∧
      ∃ n q, (w'.tasks t).pc = .awaiting n q) :
      ∃ w' o, Leads env commandId timeout pieces t w w' ∧ (w'.tasks t).pc = .finished o := by
    obtain ⟨w₁, hleads₁, hpc₁⟩ := h
    obtain ⟨w', o, hleads, ho⟩ := leads_of_awaiting hset w₁ (hleads₁.serviced hset hw) hpc₁ rfl
    exact ⟨w', o, hleads₁.trans hleads, ho⟩
  cases hcase : (w.tasks t).pc with
  | idle => exact absurd hcase hpc
  | lockWait => exact hturn (leads_of_lockWait hset hw hcase)
  | quiet => exact hturn (leads_of_quiet hset hw hcase)
  | awaiting n q => exact hturn ⟨w, .refl, n, q, hcase⟩
  | finished o => exact ⟨w, o, .refl, hcase⟩

end Worlds

end Spcedp.Client
