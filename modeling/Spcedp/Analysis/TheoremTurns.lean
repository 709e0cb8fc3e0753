import Spcedp.Analysis.TheoremReplies
import Spcedp.Analysis.Turns

/-!
# One command after the other

The application may call commands at the same time, and cancel them; their requests reach the
panel one command after the other, in the order of the calls, and each command has a first request
and then continuations (`served_on_link`). So two commands are never mixed up at the panel, and
none overtakes another.
-/

set_option autoImplicit false

namespace Spcedp.Client

open Lib.Transition Spcedp.Wire

/-! ## Turns that are read -/

/-- The task that calls a command in a step of the link. -/
def LinkAction.caller : LinkAction → Option ℕ
  | .handler a => a.caller
  | _ => none

/-- Who has called a command, in order. -/
def callers (as : List LinkAction) : List ℕ := as.filterMap LinkAction.caller

/-- The callers after one action more. -/
theorem callers_snoc (as : List LinkAction) (a : LinkAction) :
    callers (as ++ [a]) = callers as ++ a.caller.toList := by
  unfold callers
  rw [List.filterMap_append]
  cases h : a.caller <;> simp [h]

/-- **Whoever reads the first frames of some turns** reads the first frames of each. -/
theorem turns_of_prefix {turns : List (ℕ × List Frame)} {read : List Frame}
    (h : read <+: (turns.map Prod.snd).flatten) :
    ∃ turns' : List (ℕ × List Frame), turns'.map Prod.fst = turns.map Prod.fst ∧
      read = (turns'.map Prod.snd).flatten ∧
      ∀ x ∈ turns', ∃ y ∈ turns, y.1 = x.1 ∧ x.2 <+: y.2 := by
  induction turns generalizing read with
  | nil => exact ⟨[], rfl, List.prefix_nil.mp h, by simp⟩
  | cons y turns ih =>
      rw [List.map_cons, List.flatten_cons] at h
      by_cases hshort : read.length ≤ y.2.length
      · -- it ends in this turn, and nothing is read of the others
        obtain ⟨turns', hfst, hnil, hturns'⟩ := ih (List.nil_prefix)
        refine ⟨(y.1, read) :: turns', by simp [hfst], ?_, ?_⟩
        · rw [List.map_cons, List.flatten_cons, ← hnil, List.append_nil]
        · refine List.forall_mem_cons.mpr ⟨⟨y, List.mem_cons_self, rfl, ?_⟩, fun x hx => ?_⟩
          · exact List.prefix_of_prefix_length_le h (List.prefix_append _ _) hshort
          · obtain ⟨y', hy', hxy⟩ := hturns' x hx
            exact ⟨y', List.mem_cons_of_mem _ hy', hxy⟩
      · obtain ⟨rest, rfl⟩ :=
          List.prefix_of_prefix_length_le (List.prefix_append _ _) h (not_le.mp hshort).le
        obtain ⟨turns', hfst, hrest, hturns'⟩ := ih ((List.prefix_append_right_inj _).mp h)
        refine ⟨y :: turns', by simp [hfst], ?_, ?_⟩
        · rw [List.map_cons, List.flatten_cons, ← hrest]
        · refine List.forall_mem_cons.mpr
            ⟨⟨y, List.mem_cons_self, rfl, List.prefix_rfl⟩, fun x hx => ?_⟩
          obtain ⟨y', hy', hxy⟩ := hturns' x hx
          exact ⟨y', List.mem_cons_of_mem _ hy', hxy⟩

/-- A command has said the first of its requests first. -/
theorem Says.of_prefix {r : Request} {frames read : List Frame} (h : Says r frames)
    (hread : read <+: frames) : Says r read := by
  refine ⟨fun g hg => h.major g (hread.subset hg), fun i g hg => h.said i g ?_,
    hread.length_le.trans h.few⟩
  obtain ⟨rest, rfl⟩ := hread
  rw [List.getElem?_append_left (List.getElem?_eq_some_iff.mp hg).1, hg]

/-- What the panel reads says the same. -/
theorem Says.onWire {r : Request} {frames : List Frame} (h : Says r frames) :
    Says r (frames.map Frame.onWire) := by
  refine ⟨?_, fun i g hg => ?_, by rw [List.length_map]; exact h.few⟩
  · rw [List.forall_mem_map]
    intro g hg
    have hmajor : g.onWire.major = g.major % 2 ^ 8 := rfl
    rw [hmajor, h.major g hg]
    cases r.channel <;> rfl
  · rw [List.getElem?_map] at hg
    obtain ⟨g', hg', rfl⟩ := Option.map_eq_some_iff.mp hg
    exact h.said i g' hg'

namespace Link

section Turns

variable {env : Env} {server : PanelServer} {l l' : Link} {panelId : ℤ}

/-- **Every step of the link** keeps the tasks in order and the requests in turns. -/
theorem inTurn_step {called : List ℕ} {a : LinkAction}
    (ho : Handler.Orderly env server l.handler) (h : InTurn called l.handler.conn.world)
    (hstep : l.step server env a = some l') :
    Handler.Orderly env server l'.handler ∧
      InTurn (called ++ a.caller.toList) l'.handler.conn.world := by
  have hnone : called ++ (none : Option ℕ).toList = called := List.append_nil _
  cases step_does hstep with
  | started => exact ⟨ho, hnone.symm ▸ h⟩
  | replied => exact ⟨ho, hnone.symm ▸ h⟩
  | arrived _ hh => exact ⟨Handler.orderly_step ho hh, Handler.inTurn_step ho h hh⟩
  | departed => exact ⟨ho, hnone.symm ▸ h⟩
  | handled _ hh => exact ⟨Handler.orderly_step ho hh, Handler.inTurn_step ho h hh⟩

/-- The requests come in turns after every run. -/
theorem inTurn_of_run {now : ℚ} {as : List LinkAction}
    (hrun : run (Link.step server env) (server.link now panelId) as = some l) :
    InTurn (callers as) l.handler.conn.world := by
  refine (run_induction (P := fun as l => Handler.Orderly env server l.handler ∧
    InTurn (callers as) l.handler.conn.world) ?_ ?_ as l hrun).2
  · exact ⟨Handler.orderly_accept now, inTurn_new _ _ _ _⟩
  · intro as l a l' _ h hstep
    rw [callers_snoc]
    exact inTurn_step h.1 h.2 hstep

end Turns

/-- **The panel reads one command after the other**, in the order in which they were called. -/
theorem served_on_link (env : Env) (server : PanelServer) (now : ℚ) (panelId : ℤ)
    (as : List LinkAction) (l : Link)
    (hrun : run (Link.step server env) (server.link now panelId) as = some l)
    (hcut : l.Cuttable server) :
    ∃ turns : List (ℕ × List Frame),
      (turns.map Prod.fst).Sublist (callers as) ∧ (callers as).Nodup ∧
      l.panel.inbound.filter IsRequest = (turns.map Prod.snd).flatten ∧
      ∀ x ∈ turns, ∃ r, (l.handler.conn.world.tasks x.1).request = some r ∧ Says r x.2 := by
  have hs := synced_of_reachable hcut ⟨as, hrun⟩
  obtain ⟨-, -, honce, turns, hturns⟩ := inTurn_of_run hrun
  have hread := hs.inbound_prefix.filter fun f => decide (IsRequest f)
  rw [filter_queuedFrames fun g data closed holders hmem hreq =>
    isRequest_of_onWire hs.entered hmem ⟨_, hreq.choose_spec.1⟩] at hread
  -- the turns as they are on the wire
  have hwire : (requestFrames l.handler.sess.log).map Frame.onWire =
      ((turns.map fun x => (x.1, x.2.map Frame.onWire)).map Prod.snd).flatten := by
    rw [show requestFrames l.handler.sess.log = _ from hturns.requests, List.map_flatten,
      List.map_map, List.map_map]
    rfl
  obtain ⟨turns', hfst, hflat, hparts⟩ := turns_of_prefix (hwire ▸ hread)
  refine ⟨turns', ?_, honce.nodup, hflat, fun x hx => ?_⟩
  · rw [hfst, List.map_map]
    exact (List.sublist_append_left _ _).trans hturns.order
  · obtain ⟨y, hy, hxy, hprefix⟩ := hparts x hx
    obtain ⟨z, hz, rfl⟩ := List.mem_map.mp hy
    obtain ⟨r, hr, hturn⟩ := hturns.said z hz
    exact ⟨r, hxy ▸ hr, hturn.onWire.of_prefix hprefix⟩

/-- Two areas are armed by two commands that are called at once. -/
def queueActions : List LinkAction :=
  pollActions ++ [.handler (.app (.tick 1)), .handler (.app (.call 1 (.binary 1 1 5))),
    .handler (.app (.call 0 (.binary 1 2 5))), .handler .writer, .handler .writer, .depart 26,
    .reply armRequest [replyOk], .arrive 24, .handler .reclaim, .handler (.app (.resume 1)),
    .handler (.app (.resume 0)), .handler (.app (.tick 1)), .handler (.app (.resume 0)),
    .handler .writer, .handler .writer, .depart 26]

def queueLink : Link :=
  (run (Link.step clearServer clearEnv) (clearServer.link 1 1000) queueActions).getD
    (clearServer.link 1 1000)

/-- The run of two commands that queue up. -/
theorem run_queueActions :
    run (Link.step clearServer clearEnv) (clearServer.link 1 1000) queueActions =
      some queueLink := by
  have hsome : (run (Link.step clearServer clearEnv) (clearServer.link 1 1000)
      queueActions).isSome := by decide +kernel
  obtain ⟨l, hl⟩ := Option.isSome_iff_exists.mp hsome
  rw [queueLink, hl, Option.getD_some]

/-- The panel has read both requests, first that of the task which called first. -/
theorem served_on_queueLink :
    (queueLink.panel.inbound.filter IsRequest).map Frame.payload = [[1, 1, 0], [1, 2, 0]] ∧
    ∃ turns : List (ℕ × List Frame), (turns.map Prod.fst).Sublist [1, 0] ∧
      queueLink.panel.inbound.filter IsRequest = (turns.map Prod.snd).flatten ∧
      ∀ x ∈ turns, ∃ r, (queueLink.handler.conn.world.tasks x.1).request = some r ∧
        Says r x.2 := by
  refine ⟨by decide +kernel, ?_⟩
  have hcut : queueLink.Cuttable clearServer := ⟨by decide +kernel, by decide +kernel⟩
  obtain ⟨turns, hfst, -, hrest⟩ := served_on_link clearEnv clearServer 1 1000 queueActions
    queueLink run_queueActions hcut
  exact ⟨turns, hfst, hrest⟩

end Link

end Spcedp.Client
