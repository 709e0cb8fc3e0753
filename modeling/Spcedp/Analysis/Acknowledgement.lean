import Spcedp.Analysis.History

/-!
# Acknowledgements in the history

`Acknowledged` says of a history that every frame which gets an acknowledgement is
followed at once by it, that nothing else is queued but requests, and that the session
starts once, behind the first frame. It is kept when a step adds what it may add:
`append_plain`, `append_acked` and `append_started`.
-/

set_option autoImplicit false

namespace Spcedp.Client

open Spcedp.Wire

/-! ## Reading the history -/

def dispatchedFrames (log : List Entry) : List Frame :=
  log.filterMap fun
    | .dispatched f => some f
    | _ => none

/-- The dispatched frames that get an acknowledgement. -/
def acknowledged (log : List Entry) : List Frame :=
  (dispatchedFrames log).filter fun f => (ackMinor f).isSome

/-- The queued frames that are not requests. -/
def acknowledgements (log : List Entry) : List Bytes :=
  log.filterMap fun
    | .queued g data _ _ => if IsRequest g then none else some data
    | _ => none

/-- The frames dispatched by two parts of the history. -/
@[simp] theorem dispatchedFrames_append (log new : List Entry) :
    dispatchedFrames (log ++ new) = dispatchedFrames log ++ dispatchedFrames new :=
  List.filterMap_append

/-- Those of them that get an acknowledgement. -/
@[simp] theorem acknowledged_append (log new : List Entry) :
    acknowledged (log ++ new) = acknowledged log ++ acknowledged new := by
  unfold acknowledged
  rw [dispatchedFrames_append, List.filter_append]

/-- The acknowledgements queued by two parts of the history. -/
@[simp] theorem acknowledgements_append (log new : List Entry) :
    acknowledgements (log ++ new) = acknowledgements log ++ acknowledgements new :=
  List.filterMap_append

/-- The panel's number: that of the first frame. -/
def panelIdOf (log : List Entry) : ℤ := ((dispatchedFrames log).head?.map Frame.srcId).getD 0

/-- Nothing has happened but that time has passed. -/
def Silent (log : List Entry) : Prop := ∀ e ∈ log, ∃ d, e = .ticked d

section

variable (env : Env) (receiverId : ℤ) (key : Option Bytes) (panelId : ℤ)

/-- `data` is the acknowledgement of `f`, from this receiver to the panel. The wire carries
32 bits of the receiver's number. -/
def Acknowledges (f : Frame) (data : Bytes) : Prop :=
  ∃ ack m, Frame.decode env.aes data key = .ok ack ∧ ackMinor f = some m ∧
    ack.sequence = f.sequence ∧ ack.payload = f.payload ∧ ack.major = f.major ∧
    ack.minor = m.value ∧ ack.srcId = receiverId % 2 ^ 32 ∧ ack.dstId = panelId ∧
    ack.srcFlag = flagFromReceiver

/-- What an entry of the history demands of those before and behind it. -/
def Placed (pre : List Entry) : Entry → List Entry → Prop
  /- The acknowledgement of a frame comes next. -/
  | .dispatched f, post => (ackMinor f).isSome → ∃ g data closed holders post',
      post = .queued g data closed holders :: post' ∧ ¬IsRequest g ∧
        Acknowledges env receiverId key panelId f data
  /- No request precedes the session. -/
  | .queued g _ _ _, _ => IsRequest g → .sessionStarted ∈ pre
  /- The session starts once: when the first frame has been dispatched and acknowledged. -/
  | .sessionStarted, _ => .sessionStarted ∉ pre ∧ ∃ f, dispatchedFrames pre = [f] ∧
      List.Forall₂ (Acknowledges env receiverId key f.srcId) (acknowledged pre)
        (acknowledgements pre)
  | .ticked _, _ => True

/-- **The discipline.** The acknowledgements on the queue are those of the dispatched
frames that get one, in order, and every entry is at its place. -/
structure Acknowledged (log : List Entry) : Prop where
  acks : List.Forall₂ (Acknowledges env receiverId key panelId) (acknowledged log)
    (acknowledgements log)
  placed : ∀ pre e post, log = pre ++ e :: post → Placed env receiverId key panelId pre e post

end

/-! ## The discipline is kept -/

section Append

variable {env : Env} {receiverId : ℤ} {key : Option Bytes} {panelId : ℤ} {log new : List Entry}

/-- An entry of an extended history is an old or a new one. -/
theorem append_eq_cases {α : Type} {log new pre post : List α} {e : α}
    (h : log ++ new = pre ++ e :: post) :
    (∃ mid, log = pre ++ e :: mid ∧ post = mid ++ new) ∨
      ∃ mid, pre = log ++ mid ∧ new = mid ++ e :: post := by
  obtain ⟨mid, hpre, hnew⟩ | ⟨mid, hlog, hpost⟩ := List.append_eq_append_iff.mp h
  · exact .inr ⟨mid, hpre, hnew⟩
  · cases mid with
    | nil =>
        rw [List.append_nil] at hlog
        exact .inr ⟨[], by rw [hlog, List.append_nil], hpost.symm⟩
    | cons e' mid =>
        rw [List.cons_append, List.cons.injEq] at hpost
        obtain ⟨rfl, rfl⟩ := hpost
        exact .inl ⟨mid, hlog, rfl⟩

/-- What comes later does not move an entry from its place. -/
theorem Placed.append {pre post : List Entry} {e : Entry}
    (h : Placed env receiverId key panelId pre e post) (new : List Entry) :
    Placed env receiverId key panelId pre e (post ++ new) := by
  cases e with
  | dispatched f =>
      intro hack
      obtain ⟨g, data, closed, holders, post', hpost, hg, hdata⟩ := h hack
      exact ⟨g, data, closed, holders, post' ++ new, by rw [hpost]; rfl, hg, hdata⟩
  | queued g data closed holders => exact h
  | sessionStarted => exact h
  | ticked d => exact h

/-- **Extending the history** by entries that are at their places. -/
theorem Acknowledged.append (h : Acknowledged env receiverId key panelId log)
    (hacks : List.Forall₂ (Acknowledges env receiverId key panelId) (acknowledged new)
      (acknowledgements new))
    (hplaced : ∀ mid e post, new = mid ++ e :: post →
      Placed env receiverId key panelId (log ++ mid) e post) :
    Acknowledged env receiverId key panelId (log ++ new) := by
  refine ⟨?_, ?_⟩
  · rw [acknowledged_append, acknowledgements_append]
    exact List.rel_append h.acks hacks
  · intro pre e post hsplit
    obtain ⟨mid, hlog, rfl⟩ | ⟨mid, rfl, hnew⟩ := append_eq_cases hsplit
    · exact (h.placed pre e mid hlog).append new
    · exact hplaced mid e post hnew

/-- In silence no frame is dispatched. -/
theorem dispatchedFrames_silent {log : List Entry} (h : Silent log) :
    dispatchedFrames log = [] := by
  unfold dispatchedFrames
  rw [List.filterMap_eq_nil_iff]
  intro e he
  obtain ⟨d, rfl⟩ := h e he
  rfl

/-- A history in which nothing has happened. -/
theorem acknowledged_of_silent (h : Silent log) : Acknowledged env receiverId key panelId log := by
  have hacks : acknowledgements log = [] := by
    unfold acknowledgements
    rw [List.filterMap_eq_nil_iff]
    intro e he
    obtain ⟨d, rfl⟩ := h e he
    rfl
  refine ⟨?_, ?_⟩
  · rw [hacks]
    unfold acknowledged
    rw [dispatchedFrames_silent h]
    exact .nil
  · intro pre e post hlog
    obtain ⟨d, rfl⟩ := h e (by rw [hlog]; simp)
    trivial

/-- One more entry that is neither acknowledged nor an acknowledgement. -/
theorem Acknowledged.append_one (h : Acknowledged env receiverId key panelId log) {e : Entry}
    (hacked : acknowledged [e] = []) (hack : acknowledgements [e] = [])
    (hplaced : Placed env receiverId key panelId log e []) :
    Acknowledged env receiverId key panelId (log ++ [e]) := by
  apply h.append (by rw [hacked, hack]; exact .nil)
  intro mid e' post hnew
  cases mid with
  | nil =>
      cases hnew
      rwa [List.append_nil]
  | cons e'' mid => simp at hnew

/-- Time that passes keeps the discipline. -/
theorem Acknowledged.append_ticked (h : Acknowledged env receiverId key panelId log) (d : ℚ) :
    Acknowledged env receiverId key panelId (log ++ [.ticked d]) :=
  h.append_one rfl rfl trivial

/-- A request, once the session has started. -/
theorem Acknowledged.append_request (h : Acknowledged env receiverId key panelId log) {g : Frame}
    {data : Bytes} {closed : Bool} {holders : List ℕ} (hreq : IsRequest g)
    (hstarted : .sessionStarted ∈ log) :
    Acknowledged env receiverId key panelId (log ++ [.queued g data closed holders]) :=
  h.append_one rfl (by simp [acknowledgements, hreq]) fun _ => hstarted

/-- A frame that gets no acknowledgement. -/
theorem Acknowledged.append_received (h : Acknowledged env receiverId key panelId log) {f : Frame}
    (hnone : ackMinor f = none) :
    Acknowledged env receiverId key panelId (log ++ [.dispatched f]) := by
  apply h.append_one (by simp [acknowledged, dispatchedFrames, hnone]) rfl
  intro hack
  rw [hnone] at hack
  cases hack

/-- A frame with its acknowledgement. -/
theorem Acknowledged.append_acked (h : Acknowledged env receiverId key panelId log) {f g : Frame}
    {data : Bytes} {closed : Bool} {holders : List ℕ} (hack : (ackMinor f).isSome)
    (hg : ¬IsRequest g) (hdata : Acknowledges env receiverId key panelId f data) :
    Acknowledged env receiverId key panelId
      (log ++ [.dispatched f, .queued g data closed holders]) := by
  refine h.append ?_ ?_
  · simpa [acknowledged, dispatchedFrames, acknowledgements, hack, hg] using hdata
  · intro mid e post hnew
    match mid with
    | [] =>
        cases hnew
        exact fun _ => ⟨g, data, closed, holders, [], rfl, hg, hdata⟩
    | [e'] =>
        cases hnew
        exact fun hreq => absurd hreq hg
    | _ :: _ :: _ => simp at hnew

/-- The start of the session. -/
theorem Acknowledged.append_started {f : Frame}
    (h : Acknowledged env receiverId key f.srcId log) (hnew : .sessionStarted ∉ log)
    (hfirst : dispatchedFrames log = [f]) :
    Acknowledged env receiverId key f.srcId (log ++ [.sessionStarted]) :=
  h.append_one rfl rfl ⟨hnew, f, hfirst, h.acks⟩

end Append

end Spcedp.Client
